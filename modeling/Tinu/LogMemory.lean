import Tinu.Diversion
import Tinu.MessageDestroy

/-!
# Log calls in memory (`log.c`, `message.c`)

A log call owns the tags of its arguments, and with `free_msg` the message.  The functions of
`log.c` are given with the messages at their addresses; a handler is called with what can be read
of the message at that moment, so a message that is gone is a fault.  The records of the handlers
are no blocks of this heap.

* `logMessage_spec`, `logVformat_spec` — the calls, and what becomes of the message;
* `emit_memory` — an entry point makes the calls of `log.c` and releases what it was given;
* `logRun_memory` — over any run, the blocks that stay are the tags of assertions that are not
  logged, each with its two texts.
-/

set_option autoImplicit false

namespace Tinu

namespace Memory

open Blocks (Accounts)

variable {W : Type}

/-! ## The functions of `log.c` -/

/-- The loop of `_log_alert_handlers`. -/
def logAlertLoop (h : Memory) (msg : Ptr) :
    Bool → List (LogHandler W) → W → Option (List LogCall × W)
  | false, _, w => some ([], w)
  | true, [], w => some ([], w)
  | true, self :: next, w => do
    let obj ← message h msg
    if self.maxPriority ≥ obj.priority then do
      let m ← msgRead h msg
      let r := self.handler m self.userData w
      let rest ← logAlertLoop h msg r.1 next r.2
      some (.handler self.handle m :: rest.1, rest.2)
    else logAlertLoop h msg true next w

/-- `_log_alert_handlers`. -/
def logAlertHandlers (st : LogState W) (h : Memory) (msg : Ptr) (w : W) :
    Option (List LogCall × W) :=
  logAlertLoop h msg true st.logList w

/-- `if (free_msg) msg_destroy (msg)`. -/
def msgDestroyIf (h : Memory) (msg : Ptr) (freeMsg : Bool) : Option Memory :=
  if freeMsg then msgDestroy h msg else some h

/-- `log_message`. -/
def logMessage (st : LogState W) (h : Memory) (msg : Ptr) (freeMsg : Bool) (w : W) :
    Option (List LogCall × W × Memory) :=
  match st.diverted with
  | some (handler, userData) => do
    let m ← msgRead h msg
    let h ← msgDestroyIf h msg freeMsg
    some ([.divert m], (handler m userData w).2, h)
  | none => do
    let obj ← message h msg
    if st.logList.isEmpty ∨ obj.priority > st.maxPriority then do
      let h ← msgDestroyIf h msg freeMsg
      some ([], w, h)
    else do
      let (calls, w) ← logAlertHandlers st h msg w
      let h ← msgDestroyIf h msg freeMsg
      some (calls, w, h)

/-- The loop of `log_vformat` that releases the tags of a message that is dropped. -/
def logDropTags : List Ptr → Memory → Option Memory
  | [], h => some h
  | tag :: tags, h => do
    let self ← tagObject h tag
    let h ← gFree h self.tag
    let h ← gFree h self.value
    let h ← gFree h tag
    logDropTags tags h

/-- `log_vformat`. -/
def logVformat (st : LogState W) (h : Memory) (priority : Int) (msg : CString) (tags : List Ptr)
    (w : W) : Option (List LogCall × W × Memory) :=
  match st.diverted with
  | some (handler, userData) => do
    let (self, h) ← msgVcreate h priority msg tags
    let m ← msgRead h self
    let h ← msgDestroy h self
    some ([.divert m], (handler m userData w).2, h)
  | none =>
    if st.logList.isEmpty ∨ priority > st.maxPriority then do
      let h ← logDropTags tags h
      some ([], w, h)
    else do
      let (self, h) ← msgVcreate h priority msg tags
      let (calls, w) ← logAlertHandlers st h self w
      let h ← msgDestroy h self
      some (calls, w, h)

/-- `log_format`, with the tags of its arguments. -/
def logFormat (st : LogState W) (h : Memory) (priority : Int) (msg : CString)
    (tags : List MessageTag) (w : W) : Option (List LogCall × W × Memory) :=
  let (ps, h) := newTags tags h
  logVformat st h priority msg ps w

/-- The macro `log_wrap`: below the priority its arguments are not evaluated. -/
def logWrap (st : LogState W) (h : Memory) (pri : Int) (msg : CString) (tags : List MessageTag)
    (w : W) : Option (List LogCall × W × Memory) :=
  if st.maxPriority ≥ pri then logFormat st h pri msg tags w else some ([], w, h)

/-- `log_message (msg_create (...), TRUE)`. -/
def logNewMessage (st : LogState W) (h : Memory) (m : Message) (w : W) :
    Option (List LogCall × W × Memory) := do
  let (ps, h) := newTags m.tags h
  let (msg, h) ← msgVcreate h m.priority m.message ps
  logMessage st h msg true w

/-- The test of the priority in `tinu_test_assert`. -/
def assertLogged (st : LogState W) (a : Assertion) : Prop :=
  (a.condition ∧ st.maxPriority ≥ LOG_DEBUG) ∨ (¬ a.condition ∧ st.maxPriority ≥ LOG_ERR)

instance (st : LogState W) (a : Assertion) : Decidable (assertLogged st a) :=
  inferInstanceAs (Decidable (_ ∨ _))

/-- The two branches of `tinu_test_assert` that create the message. -/
def assertCreate (h : Memory) (condition : Bool) : Option (Ptr × Memory) :=
  if condition then msgVcreate h LOG_DEBUG "Assertion passed" []
  else msgVcreate h LOG_ERR "Assertion failed" []

/-- The message part of `tinu_test_assert`, whose tags are arguments like those of
`log_format`. -/
def testAssertLog (st : LogState W) (h : Memory) (a : Assertion) (w : W) :
    Option (List LogCall × W × Memory) := do
  let (tags, h) := newTags a.tags h
  if assertLogged st a then do
    let (msg, h) ← assertCreate h a.condition
    let h ← msgAppend h msg [msgTagStr "condition" a.condstr, msgTagStr "type" a.assertType,
      msgTagStr "file" a.file, msgTagStr "function" a.func, msgTagInt "line" a.line]
    let h ← msgVappend h msg tags
    logMessage st h msg true w
  else some ([], w, h)

/-- An entry point, with the tags of its arguments. -/
def emit (st : LogState W) (h : Memory) : LogEntry → W → Option (List LogCall × W × Memory)
  | .wrap pri msg tags, w => logWrap st h pri msg tags w
  | .format priority msg tags, w => logFormat st h priority msg tags w
  | .message m, w => logNewMessage st h m w
  | .testAssert a, w => testAssertLog st h a w

/-- A run of the log, as `logRun`. -/
def logRun : LogState W → Memory → W → List (LogAct W) →
    Option (List (LogEntry × List LogCall) × Memory)
  | _, h, _, [] => some ([], h)
  | st, h, w, .op o :: acts => logRun (st.step o) h w acts
  | st, h, w, .emit e :: acts => do
    let (calls, w, h) ← emit st h e w
    let (rest, h) ← logRun st h w acts
    some ((e, calls) :: rest, h)

/-! ## One call -/

/-- **The handlers see the message** that is stored, each in its turn. -/
theorem logAlertLoop_spec {h : Memory} {p txt : Ptr} {m : Message} {arr : Ptr}
    {ptrs : List TagBlocks} (hs : Stored h p txt m arr ptrs) :
    ∀ (propagate : Bool) (l : List (LogHandler W)) (w : W),
      logAlertLoop h p propagate l w = some (Tinu.logAlertLoop m propagate l w)
  | false, [], _ => rfl
  | false, _ :: _, _ => rfl
  | true, [], _ => rfl
  | true, self :: next, w => by
    rw [logAlertLoop, Tinu.logAlertLoop, message_eq hs.object, Option.bind_eq_bind,
      Option.bind_some]
    split
    · simp only [msgRead_spec hs, Option.bind_eq_bind, Option.bind_some,
        logAlertLoop_spec hs _ next]
    · exact logAlertLoop_spec hs true next w

theorem logAlertHandlers_spec {h : Memory} {p txt : Ptr} {m : Message} {arr : Ptr}
    {ptrs : List TagBlocks} (hs : Stored h p txt m arr ptrs) (st : LogState W) (w : W) :
    logAlertHandlers st h p w = some (Tinu.logAlertHandlers st m w) :=
  logAlertLoop_spec hs true st.logList w

/-- What a log call leaves of a message that it may release. -/
def Released (free : Bool) (S : Set Ptr) (h h' : Memory) : Prop :=
  if free then Accounts S h ∅ h' else h' = h

theorem msgDestroyIf_spec {h : Memory} {p txt : Ptr} {m : Message} {arr : Ptr}
    {ptrs : List TagBlocks} (hs : Stored h p txt m arr ptrs) (free : Bool) :
    ∃ h', msgDestroyIf h p free = some h' ∧ Released free (owned p txt arr ptrs) h h' := by
  cases free with
  | false => exact ⟨h, rfl, rfl⟩
  | true => exact msgDestroy_spec hs

/-- **`log_message`** makes the calls, then releases the message or leaves it. -/
theorem logMessage_spec {h : Memory} {p txt : Ptr} {m : Message} {arr : Ptr}
    {ptrs : List TagBlocks} (hs : Stored h p txt m arr ptrs) (st : LogState W) (free : Bool)
    (w : W) :
    ∃ h', logMessage st h p free w =
        some ((Tinu.logMessage st m w).1, (Tinu.logMessage st m w).2, h') ∧
      Released free (owned p txt arr ptrs) h h' := by
  obtain ⟨h', hdestroy, hreleased⟩ := msgDestroyIf_spec hs free
  refine ⟨h', ?_, hreleased⟩
  unfold logMessage Tinu.logMessage
  cases st.diverted with
  | some r => simp only [msgRead_spec hs, hdestroy, Option.bind_eq_bind, Option.bind_some]
  | none =>
    simp only [message_eq hs.object, Option.bind_eq_bind, Option.bind_some]
    split
    · simp only [hdestroy, Option.bind_some]
    · simp only [logAlertHandlers_spec hs, hdestroy, Option.bind_some]

/-- For a tag that is there, the loop does what `_msg_tag_clear` does. -/
theorem logDropTags_cons {tag : Ptr} (hne : tag ≠ NULL) (tags : List Ptr) (h : Memory) :
    logDropTags (tag :: tags) h = (msgTagClear h tag).bind (logDropTags tags) := by
  simp only [logDropTags, msgTagClear, if_neg hne, Option.bind_eq_bind, Option.bind_assoc]

theorem logDropTags_spec :
    ∀ {ps : List TagBlocks} {tags : List MessageTag} {h : Memory}, TagsAt h ps tags →
      (tagBlocks ps).Nodup →
      ∃ h', logDropTags (ps.map TagBlocks.self) h = some h' ∧
        Accounts {x | x ∈ tagBlocks ps} h ∅ h'
  | [], _, h, _, _ => by
    refine ⟨h, rfl, ?_⟩
    rw [tagBlocks_nil_set]
    exact Accounts.refl ∅ h
  | b :: ps, _, h, ht, hnodup => by
    cases ht with
    | @cons _ t _ tags hb ht =>
    have hne : b.self ≠ NULL := Blocks.Heap.ne_zero hb.object
    obtain ⟨h1, hclear, ht1, hnodup1, hm1⟩ := msgTagClear_cons hb ht hnodup
    obtain ⟨h', hdrop, hm'⟩ := logDropTags_spec ht1 hnodup1
    refine ⟨h', ?_, ?_⟩
    · rw [List.map_cons, logDropTags_cons hne, hclear, Option.bind_some, hdrop]
    · rw [tagBlocks_cons_set]
      exact hm1.release hm'

/-- **`log_vformat`** makes the calls and releases the tags, as tags or with the message. -/
theorem logVformat_spec {h : Memory} {ps : List TagBlocks} {tags : List MessageTag}
    (ht : TagsAt h ps tags) (hnodup : (tagBlocks ps).Nodup)
    (hfit : sizeAfter 0 tags.length < gintLimit) (st : LogState W) (priority : Int) (msg : CString)
    (w : W) :
    ∃ h', logVformat st h priority msg (ps.map TagBlocks.self) w =
        some ((Tinu.logVformat st priority msg tags w).1,
          (Tinu.logVformat st priority msg tags w).2, h') ∧
      Accounts {x | x ∈ tagBlocks ps} h ∅ h' := by
  obtain ⟨p, txt, h1, arr, hcreate, hs, hm1⟩ := msgVcreate_spec ht hnodup hfit priority msg
  obtain ⟨h2, hdestroy, hm2⟩ := msgDestroy_spec hs
  obtain ⟨hd, hdrop, hmd⟩ := logDropTags_spec ht hnodup
  have hm := hm1.trans hm2
  unfold logVformat Tinu.logVformat
  cases st.diverted with
  | some r =>
    refine ⟨h2, ?_, hm⟩
    simp only [hcreate, msgRead_spec hs, hdestroy, Option.bind_eq_bind, Option.bind_some]
  | none =>
    by_cases hlow : st.logList.isEmpty ∨ priority > st.maxPriority
    · refine ⟨hd, ?_, hmd⟩
      simp only [if_pos hlow, hdrop, Option.bind_eq_bind, Option.bind_some]
    · refine ⟨h2, ?_, hm⟩
      simp only [if_neg hlow, hcreate, logAlertHandlers_spec hs, hdestroy, Option.bind_eq_bind,
        Option.bind_some]

theorem logFormat_spec {tags : List MessageTag} (hfit : sizeAfter 0 tags.length < gintLimit)
    (st : LogState W) (h : Memory) (priority : Int) (msg : CString) (w : W) :
    ∃ h', logFormat st h priority msg tags w =
        some ((Tinu.logFormat st priority msg tags w).1,
          (Tinu.logFormat st priority msg tags w).2, h') ∧ Accounts ∅ h ∅ h' := by
  obtain ⟨ps, h1, hnew, ht, hnodup, -, hm1⟩ := newTags_spec tags h
  obtain ⟨h', hlog, hm'⟩ := logVformat_spec ht hnodup hfit st priority msg w
  refine ⟨h', ?_, hm1.trans hm'⟩
  simp only [logFormat, hnew, hlog]
  rfl

theorem logNewMessage_spec {m : Message} (hfit : sizeAfter 0 m.tags.length < gintLimit)
    (st : LogState W) (h : Memory) (w : W) :
    ∃ h', logNewMessage st h m w =
        some ((Tinu.logMessage st m w).1, (Tinu.logMessage st m w).2, h') ∧ Accounts ∅ h ∅ h' := by
  obtain ⟨p, txt, h1, arr, ptrs, hcreate, hs, hm1⟩ :=
    msgCreate_spec h m.priority m.message m.tags hfit
  obtain ⟨h', hlog, hm'⟩ := logMessage_spec hs st true w
  refine ⟨h', ?_, hm1.trans hm'⟩
  simp only [logNewMessage, hcreate, hlog, Option.bind_eq_bind, Option.bind_some]
  rfl

/-- The five tags that `tinu_test_assert` gives to every message. -/
def assertTags (a : Assertion) : List MessageTag :=
  [msgTagStr "condition" a.condstr, msgTagStr "type" a.assertType, msgTagStr "file" a.file,
    msgTagStr "function" a.func, msgTagInt "line" a.line]

/-- An assertion that is logged: a message, its five tags, then those of the arguments. -/
theorem assertMessage_spec {h : Memory} {ps : List TagBlocks} {a : Assertion}
    (ht : TagsAt h ps a.tags) (hnodup : (tagBlocks ps).Nodup)
    (hfit : sizeAfter 5 a.tags.length < gintLimit) (priority : Int) (text : CString) :
    ∃ p h1 h2 h3 txt arr ptrs, msgVcreate h priority text [] = some (p, h1) ∧
      msgAppend h1 p (assertTags a) = some h2 ∧
      msgVappend h2 p (ps.map TagBlocks.self) = some h3 ∧
      Stored h3 p txt (Tinu.msgAppend (Tinu.msgAppend (msgCreate priority text []) (assertTags a))
        a.tags) arr ptrs ∧
      Accounts {x | x ∈ tagBlocks ps} h (owned p txt arr ptrs) h3 := by
  obtain ⟨p, txt, h1, arr1, hcreate, hs1, hm1⟩ :=
    msgVcreate_spec (.nil : TagsAt h [] []) List.nodup_nil (by decide) priority text
  rw [tagBlocks_nil_set] at hm1
  obtain ⟨-, hlimit⟩ | ⟨h2, arr2, new, happend, hs2, -, hm2⟩ := msgAppend_spec hs1 (assertTags a)
  · exact absurd hlimit (Nat.not_le_of_lt (show sizeAfter 0 5 < gintLimit by decide))
  -- the tags of the arguments were there before the message
  have hm12 := hm1.trans (owned_accounts hm2 txt [])
  have ht2 : TagsAt h2 ps a.tags :=
    tagsAt_stay hm12.toMoves ht fun _ _ hx => absurd hx (Set.notMem_empty _)
  have hall : (txt :: tagBlocks ([] ++ new ++ ps)).Nodup := by
    rw [tagBlocks_append, ← List.cons_append]
    refine List.nodup_append.mpr ⟨hs2.nodup, hnodup, ?_⟩
    rintro x hx y hy rfl
    obtain ⟨c, hb, -⟩ := ht.content hy
    obtain hmem | hle | h0 := hm12.owned x (.inr hx)
    · exact hmem
    · exact absurd (Blocks.Heap.lt_next hb) (Nat.not_lt_of_le hle)
    · exact Blocks.Heap.ne_zero hb h0
  obtain ⟨-, hlimit⟩ | ⟨h3, arr3, hvappend, hs3, hm3⟩ := msgVappend_spec hs2 ht2 hall
  · exact absurd hfit (Nat.not_lt_of_le hlimit)
  refine ⟨p, h1, h2, h3, txt, arr3, [] ++ new ++ ps, hcreate, happend, hvappend, hs3, ?_⟩
  have hfirst := hm12.union {x | x ∈ tagBlocks ps}
  rw [Set.empty_union, owned, Set.union_assoc] at hfirst
  rw [owned_append]
  exact hfirst.trans (hm3.union _)

/-- The tags that an entry point is given and never releases: those of an assertion that is not
logged. -/
def droppedTags (st : LogState W) : LogEntry → List MessageTag
  | .testAssert a => if assertLogged st a then [] else a.tags
  | _ => []

theorem testAssertLog_spec {a : Assertion} (hfit : sizeAfter 5 a.tags.length < gintLimit)
    (st : LogState W) (h : Memory) (w : W) :
    ∃ h' lost, testAssertLog st h a w =
        some ((Tinu.testAssertLog st a w).1, (Tinu.testAssertLog st a w).2, h') ∧
      TagsAt h' lost (droppedTags st (.testAssert a)) ∧ (tagBlocks lost).Nodup ∧
      Accounts ∅ h {x | x ∈ tagBlocks lost} h' := by
  obtain ⟨ps, h1, hnew, ht, hnodup, -, hm1⟩ := newTags_spec a.tags h
  by_cases hlog : assertLogged st a
  · obtain ⟨p, h2, h3, h4, txt, arr, ptrs, hcreate, happend, hvappend, hs, hm4⟩ :=
      assertMessage_spec ht hnodup hfit (if a.condition then LOG_DEBUG else LOG_ERR)
        (if a.condition then "Assertion passed" else "Assertion failed")
    have hmessage : Tinu.msgAppend (Tinu.msgAppend (msgCreate
        (if a.condition then LOG_DEBUG else LOG_ERR)
        (if a.condition then "Assertion passed" else "Assertion failed") []) (assertTags a))
        a.tags = assertMessage a := by
      unfold assertMessage
      split <;> rfl
    rw [hmessage] at hs
    obtain ⟨h5, hmsg, hm5⟩ := logMessage_spec hs st true w
    refine ⟨h5, [], ?_, ?_, List.nodup_nil, ?_⟩
    · have hcreate' : assertCreate h1 a.condition = some (p, h2) := by
        rw [← hcreate, assertCreate]
        split <;> rfl
      have hpure : Tinu.testAssertLog st a w = Tinu.logMessage st (assertMessage a) w :=
        if_pos hlog
      rw [assertTags] at happend
      simp only [testAssertLog, hnew, if_pos hlog, hcreate', happend, hvappend, hmsg, hpure,
        Option.bind_eq_bind, Option.bind_some]
    · rw [droppedTags, if_pos hlog]
      exact .nil
    · rw [tagBlocks_nil_set]
      exact (hm1.trans hm4).trans hm5
  · refine ⟨h1, ps, ?_, ?_, hnodup, hm1⟩
    · have hpure : Tinu.testAssertLog st a w = ([], w) := if_neg hlog
      simp only [testAssertLog, hnew, if_neg hlog, hpure]
    · rw [droppedTags, if_neg hlog]
      exact ht

/-! ## Runs -/

/-- The numbers of tags stay in `gint`. -/
def EntryFits : LogEntry → Prop
  | .wrap _ _ tags => sizeAfter 0 tags.length < gintLimit
  | .format _ _ tags => sizeAfter 0 tags.length < gintLimit
  | .message m => sizeAfter 0 m.tags.length < gintLimit
  | .testAssert a => sizeAfter 5 a.tags.length < gintLimit

/-- **An entry point** makes the calls of `log.c`, and what it leaves are the tags that it
drops. -/
theorem emit_memory {e : LogEntry} (hfit : EntryFits e) (st : LogState W) (h : Memory) (w : W) :
    ∃ h' lost, emit st h e w = some ((st.emit e w).1, (st.emit e w).2, h') ∧
      TagsAt h' lost (droppedTags st e) ∧ (tagBlocks lost).Nodup ∧
      Accounts ∅ h {x | x ∈ tagBlocks lost} h' := by
  cases e with
  | wrap pri msg tags =>
    by_cases hpri : st.maxPriority ≥ pri
    · obtain ⟨h', hlog, hm⟩ := logFormat_spec hfit st h pri msg w
      refine ⟨h', [], ?_, .nil, List.nodup_nil, tagBlocks_nil_set ▸ hm⟩
      simp only [emit, logWrap, LogState.emit, Tinu.logWrap, if_pos hpri, hlog]
    · refine ⟨h, [], ?_, .nil, List.nodup_nil, tagBlocks_nil_set ▸ Accounts.refl ∅ h⟩
      simp only [emit, logWrap, LogState.emit, Tinu.logWrap, if_neg hpri]
  | format priority msg tags =>
    obtain ⟨h', hlog, hm⟩ := logFormat_spec hfit st h priority msg w
    exact ⟨h', [], hlog, .nil, List.nodup_nil, tagBlocks_nil_set ▸ hm⟩
  | message m =>
    obtain ⟨h', hlog, hm⟩ := logNewMessage_spec hfit st h w
    exact ⟨h', [], hlog, .nil, List.nodup_nil, tagBlocks_nil_set ▸ hm⟩
  | testAssert a => exact testAssertLog_spec hfit st h w

/-- The tags that a run drops. -/
def runDroppedTags : LogState W → List (LogAct W) → List MessageTag
  | _, [] => []
  | st, .op o :: acts => runDroppedTags (st.step o) acts
  | st, .emit e :: acts => droppedTags st e ++ runDroppedTags st acts

/-- **Over any run** the calls are those of `log.c`, and the blocks after it are those before it
and three for each tag of an assertion that was not logged. -/
theorem logRun_memory :
    ∀ {acts : List (LogAct W)}, (∀ e, LogAct.emit e ∈ acts → EntryFits e) →
      ∀ (st : LogState W) (h : Memory) (w : W),
        ∃ h' lost, logRun st h w acts = some (Tinu.logRun st w acts, h') ∧
          TagsAt h' lost (runDroppedTags st acts) ∧ (tagBlocks lost).Nodup ∧
          Accounts ∅ h {x | x ∈ tagBlocks lost} h'
  | [], _, st, h, w =>
    ⟨h, [], rfl, .nil, List.nodup_nil, tagBlocks_nil_set ▸ Accounts.refl ∅ h⟩
  | .op o :: acts, hfit, st, h, w =>
    logRun_memory (fun e he => hfit e (List.mem_cons_of_mem _ he)) (st.step o) h w
  | .emit e :: acts, hfit, st, h, w => by
    obtain ⟨h1, lost1, hemit, ht1, hnodup1, hm1⟩ :=
      emit_memory (hfit e List.mem_cons_self) st h w
    obtain ⟨h2, lost2, hrun, ht2, hnodup2, hm2⟩ :=
      logRun_memory (fun e he => hfit e (List.mem_cons_of_mem _ he)) st h1 (st.emit e w).2
    have ht1' : TagsAt h2 lost1 (droppedTags st e) :=
      tagsAt_stay hm2.toMoves ht1 fun _ _ hx => absurd hx (Set.notMem_empty _)
    refine ⟨h2, lost1 ++ lost2, ?_, List.rel_append ht1' ht2, ?_, ?_⟩
    · simp only [logRun, Tinu.logRun, hemit, hrun, Option.bind_eq_bind, Option.bind_some]
    · rw [tagBlocks_append]
      refine List.nodup_append.mpr ⟨hnodup1, hnodup2, ?_⟩
      rintro x hx y hy rfl
      obtain ⟨c, hb, -⟩ := ht1.content hx
      obtain ⟨c', hb', -⟩ := ht2.content hy
      obtain hmem | hle | h0 := hm2.owned x hy
      · exact hmem
      · exact Nat.not_le_of_lt (Blocks.Heap.lt_next hb) hle
      · exact Blocks.Heap.ne_zero hb h0
    · have hrest := hm2.union {x | x ∈ tagBlocks lost1}
      rw [Set.empty_union, Set.union_comm] at hrest
      have hset : {x | x ∈ tagBlocks (lost1 ++ lost2)} =
          {x | x ∈ tagBlocks lost1} ∪ {x | x ∈ tagBlocks lost2} := by
        ext x
        rw [tagBlocks_append]
        exact List.mem_append
      rw [hset]
      exact hm1.trans hrest

/-- A handler for errors, and an assertion that passes. -/
def quietActs : List (LogAct Nat) :=
  [.op (.register 8 (fun _ _ n => (true, n + 1)) LOG_ERR NULL),
    .emit (.testAssert ⟨true, ['t'], ['c'], ['f'], ['g'], 1, [⟨['a'], ['1']⟩]⟩)]

/-- Its tag stays. -/
example : runDroppedTags LogState.init quietActs = [⟨['a'], ['1']⟩] := by decide

end Memory

end Tinu
