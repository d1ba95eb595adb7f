import Tinu.Message

/-!
# Message logging (`log.c`)

The handlers form a list, newest first, with a cached priority `g_log_max_priority` beside it
that every entry point tests before it walks the list.  A handler may do anything to the world
`W` and answers whether the message goes on to the next one.

* `run_cached` — after every sequence of register, unregister and clear calls the cache bounds
  the priority of every live handler, and is their maximum when they are all in range;
* `emit_eq_dispatch` — through every entry point the calls made are those of a dispatcher that
  has no cache.
-/

set_option autoImplicit false

namespace Tinu

variable {W : Type}

/-- `MessageHandler`, with the world it acts on. -/
abbrev MessageHandler (W : Type) := Message → Ptr → W → Bool × W

/-- `struct _LogHandler`; `handle` is its address. -/
structure LogHandler (W : Type) where
  handle : Ptr
  maxPriority : Int
  userData : Ptr
  handler : MessageHandler W

/-- The globals of `log.c`. -/
structure LogState (W : Type) where
  logList : List (LogHandler W)
  maxPriority : Int
  diverted : Option (MessageHandler W × Ptr)

def LogState.init : LogState W := ⟨[], -1, none⟩

/-- A call of a handler with a message: of a registered one, or of the divert handler. -/
inductive LogCall where
  | handler (handle : Ptr) (msg : Message)
  | divert (msg : Message)
  deriving DecidableEq, Repr

/-! ## The functions of `log.c` -/

/-- The loop of `_log_alert_handlers`, with its `propagate` flag; the calls it makes, and the
world after them. -/
def logAlertLoop (msg : Message) : Bool → List (LogHandler W) → W → List LogCall × W
  | false, _, w => ([], w)
  | true, [], w => ([], w)
  | true, self :: next, w =>
    if self.maxPriority ≥ msg.priority then
      let r := self.handler msg self.userData w
      let rest := logAlertLoop msg r.1 next r.2
      (.handler self.handle msg :: rest.1, rest.2)
    else logAlertLoop msg true next w

/-- `_log_alert_handlers`. -/
def logAlertHandlers (st : LogState W) (msg : Message) (w : W) : List LogCall × W :=
  logAlertLoop msg true st.logList w

/-- `log_register_message_handler`; `self` is the address of the new record. -/
def logRegisterMessageHandler (st : LogState W) (self : Ptr) (handler : MessageHandler W)
    (maxPriority : Int) (userData : Ptr) : Ptr × LogState W :=
  if st.diverted.isSome then (NULL, st)
  else
    (self, { st with
      maxPriority := if maxPriority > st.maxPriority then maxPriority else st.maxPriority
      logList := ⟨self, maxPriority, userData, handler⟩ :: st.logList })

/-- The loop of `log_unregister_message_handler`: the list without the handler, and the maximum
recomputed on the way. -/
def logUnregisterLoop (handler : Ptr) : List (LogHandler W) → Int → List (LogHandler W) × Int
  | [], maxPriority => ([], maxPriority)
  | act :: next, maxPriority =>
    if act.handle = handler then logUnregisterLoop handler next maxPriority
    else
      let rest := logUnregisterLoop handler next
        (if act.maxPriority > maxPriority then act.maxPriority else maxPriority)
      (act :: rest.1, rest.2)

/-- `log_unregister_message_handler`. -/
def logUnregisterMessageHandler (st : LogState W) (handler : Ptr) : LogState W :=
  if st.diverted.isSome then st
  else
    let r := logUnregisterLoop handler st.logList LOG_EMERG
    { st with logList := r.1, maxPriority := if r.1.isEmpty then -1 else r.2 }

/-- `log_clear`. -/
def logClear (st : LogState W) : LogState W := { st with maxPriority := -1, logList := [] }

/-- `log_divert`. -/
def logDivert (st : LogState W) (handler : MessageHandler W) (userData : Ptr) : LogState W :=
  { logClear st with diverted := some (handler, userData), maxPriority := LOG_DEBUG }

/-- `log_message`. -/
def logMessage (st : LogState W) (msg : Message) (w : W) : List LogCall × W :=
  match st.diverted with
  | some (handler, userData) => ([.divert msg], (handler msg userData w).2)
  | none =>
    if st.logList.isEmpty ∨ msg.priority > st.maxPriority then ([], w)
    else logAlertHandlers st msg w

/-- `log_vformat`. -/
def logVformat (st : LogState W) (priority : Int) (msg : CString) (tags : List MessageTag)
    (w : W) : List LogCall × W :=
  match st.diverted with
  | some (handler, userData) =>
    let self := msgCreate priority msg tags
    ([.divert self], (handler self userData w).2)
  | none =>
    if st.logList.isEmpty ∨ priority > st.maxPriority then ([], w)
    else logAlertHandlers st (msgCreate priority msg tags) w

/-- `log_format`. -/
def logFormat (st : LogState W) (priority : Int) (msg : CString) (tags : List MessageTag)
    (w : W) : List LogCall × W :=
  logVformat st priority msg tags w

/-- The macro `log_wrap`, and so `log_emerg` to `log_debug`. -/
def logWrap (st : LogState W) (pri : Int) (msg : CString) (tags : List MessageTag) (w : W) :
    List LogCall × W :=
  if st.maxPriority ≥ pri then logFormat st pri msg tags w else ([], w)

/-- The arguments of `tinu_test_assert`. -/
structure Assertion where
  condition : Bool
  assertType : CString
  condstr : CString
  file : CString
  func : CString
  line : Int
  tags : List MessageTag
  deriving DecidableEq, Repr

/-- The message that `tinu_test_assert` builds. -/
def assertMessage (a : Assertion) : Message :=
  let msg := if a.condition then msgCreate LOG_DEBUG "Assertion passed" []
    else msgCreate LOG_ERR "Assertion failed" []
  let msg := msgAppend msg [msgTagStr "condition" a.condstr, msgTagStr "type" a.assertType,
    msgTagStr "file" a.file, msgTagStr "function" a.func, msgTagInt "line" a.line]
  msgAppend msg a.tags

/-- The message part of `tinu_test_assert`. -/
def testAssertLog (st : LogState W) (a : Assertion) (w : W) : List LogCall × W :=
  if (a.condition ∧ st.maxPriority ≥ LOG_DEBUG) ∨ (¬ a.condition ∧ st.maxPriority ≥ LOG_ERR) then
    logMessage st (assertMessage a) w
  else ([], w)

/-! ## Entry points and registrations as data -/

/-- A way of emitting a message. -/
inductive LogEntry where
  | wrap (pri : Int) (msg : CString) (tags : List MessageTag)
  | format (priority : Int) (msg : CString) (tags : List MessageTag)
  | message (msg : Message)
  | testAssert (a : Assertion)

/-- The message an entry point is given, or builds. -/
def LogEntry.toMessage : LogEntry → Message
  | .wrap pri msg tags => msgCreate pri msg tags
  | .format priority msg tags => msgCreate priority msg tags
  | .message msg => msg
  | .testAssert a => assertMessage a

def LogState.emit (st : LogState W) : LogEntry → W → List LogCall × W
  | .wrap pri msg tags => logWrap st pri msg tags
  | .format priority msg tags => logFormat st priority msg tags
  | .message msg => logMessage st msg
  | .testAssert a => testAssertLog st a

/-- A call that changes the list of handlers. -/
inductive LogOp (W : Type) where
  | register (self : Ptr) (handler : MessageHandler W) (maxPriority : Int) (userData : Ptr)
  | unregister (handler : Ptr)
  | clear

def LogState.step (st : LogState W) : LogOp W → LogState W
  | .register self handler maxPriority userData =>
    (logRegisterMessageHandler st self handler maxPriority userData).2
  | .unregister handler => logUnregisterMessageHandler st handler
  | .clear => logClear st

/-! ## The dispatcher without a cache -/

/-- The live handlers, newest first. -/
def liveStep (live : List (LogHandler W)) : LogOp W → List (LogHandler W)
  | .register self handler maxPriority userData => ⟨self, maxPriority, userData, handler⟩ :: live
  | .unregister handler => live.filter fun h => h.handle ≠ handler
  | .clear => []

/-- Each live handler that takes the priority is called, up to the first that answers `FALSE`. -/
def dispatch (msg : Message) : List (LogHandler W) → W → List LogCall × W
  | [], w => ([], w)
  | h :: live, w =>
    if msg.priority ≤ h.maxPriority then
      match h.handler msg h.userData w with
      | (true, w) => (.handler h.handle msg :: (dispatch msg live w).1, (dispatch msg live w).2)
      | (false, w) => ([.handler h.handle msg], w)
    else dispatch msg live w

theorem logAlertLoop_eq (msg : Message) :
    ∀ (l : List (LogHandler W)) (w : W), logAlertLoop msg true l w = dispatch msg l w
  | [], _ => rfl
  | h :: l, w => by
    unfold logAlertLoop dispatch
    split
    · rcases h.handler msg h.userData w with ⟨_ | _, w'⟩
      · simp [logAlertLoop]
      · simp [logAlertLoop_eq msg l w']
    · exact logAlertLoop_eq msg l w

/-- A message above every live handler is dispatched to none. -/
theorem dispatch_none {msg : Message} :
    ∀ {live : List (LogHandler W)} (w : W), (∀ h ∈ live, h.maxPriority < msg.priority) →
      dispatch msg live w = ([], w)
  | [], _, _ => rfl
  | h :: live, w, hl => by
    have h1 := hl h List.mem_cons_self
    rw [dispatch, if_neg (by omega)]
    exact dispatch_none w fun h' hm => hl h' (List.mem_cons_of_mem _ hm)

/-! ## The cache -/

/-- `p` is a priority that messages have. -/
def InRange (p : Int) : Prop := LOG_EMERG ≤ p ∧ p ≤ LOG_DEBUG

/-- What the cached priority says about the live handlers. -/
structure Cached (st : LogState W) : Prop where
  undiverted : st.diverted = none
  upper : ∀ h ∈ st.logList, h.maxPriority ≤ st.maxPriority
  empty : st.logList = [] → st.maxPriority = -1
  attained : st.logList ≠ [] → (∀ h ∈ st.logList, InRange h.maxPriority) →
    ∃ h ∈ st.logList, h.maxPriority = st.maxPriority

theorem logUnregisterLoop_list (handler : Ptr) :
    ∀ (l : List (LogHandler W)) (m : Int),
      (logUnregisterLoop handler l m).1 = l.filter fun h => h.handle ≠ handler
  | [], _ => rfl
  | act :: l, m => by
    unfold logUnregisterLoop
    split
    · rename_i he
      rw [logUnregisterLoop_list handler l m]
      simp [he]
    · rename_i he
      simp [he, logUnregisterLoop_list handler l]

/-- The recomputed maximum is the start value or the priority of a handler that stays, and bounds
them all. -/
theorem logUnregisterLoop_max (handler : Ptr) :
    ∀ (l : List (LogHandler W)) (m : Int),
      m ≤ (logUnregisterLoop handler l m).2 ∧
      (∀ h ∈ (logUnregisterLoop handler l m).1,
        h.maxPriority ≤ (logUnregisterLoop handler l m).2) ∧
      ((logUnregisterLoop handler l m).2 = m ∨
        ∃ h ∈ (logUnregisterLoop handler l m).1,
          h.maxPriority = (logUnregisterLoop handler l m).2)
  | [], m => ⟨Int.le_refl m, fun h hm => (List.not_mem_nil hm).elim, Or.inl rfl⟩
  | act :: l, m => by
    unfold logUnregisterLoop
    split
    · exact logUnregisterLoop_max handler l m
    · obtain ⟨hle, hall, hatt⟩ := logUnregisterLoop_max handler l
        (if act.maxPriority > m then act.maxPriority else m)
      have hm : m ≤ (if act.maxPriority > m then act.maxPriority else m) := by split <;> omega
      have hact : act.maxPriority ≤ (if act.maxPriority > m then act.maxPriority else m) := by
        split <;> omega
      refine ⟨Int.le_trans hm hle, ?_, ?_⟩
      · intro h hh
        rcases List.mem_cons.mp hh with rfl | hh
        · exact Int.le_trans hact hle
        · exact hall h hh
      · rcases hatt with heq | ⟨h, hh, heq⟩
        · by_cases hgt : act.maxPriority > m
          · rw [if_pos hgt] at heq
            exact Or.inr ⟨act, List.mem_cons_self, by rw [if_pos hgt, heq]⟩
          · rw [if_neg hgt] at heq
            exact Or.inl (by rw [if_neg hgt]; exact heq)
        · exact Or.inr ⟨h, List.mem_cons_of_mem _ hh, heq⟩

theorem init_cached : Cached (LogState.init : LogState W) :=
  ⟨rfl, fun _ hm => (List.not_mem_nil hm).elim, fun _ => rfl, fun hne => (hne rfl).elim⟩

theorem register_cached {st : LogState W} (hc : Cached st) (self : Ptr)
    (handler : MessageHandler W) (p : Int) (userData : Ptr) :
    Cached (logRegisterMessageHandler st self handler p userData).2 := by
  unfold logRegisterMessageHandler
  rw [if_neg (by simp [hc.undiverted])]
  refine ⟨hc.undiverted, ?_, ?_, ?_⟩
  · intro h hh
    rcases List.mem_cons.mp hh with rfl | hh
    · show p ≤ if p > st.maxPriority then p else st.maxPriority
      split <;> omega
    · have := hc.upper h hh
      show h.maxPriority ≤ if p > st.maxPriority then p else st.maxPriority
      split <;> omega
  · intro hnil
    cases hnil
  · intro _ hrange
    by_cases hp : p > st.maxPriority
    · exact ⟨_, List.mem_cons_self, by simp [hp]⟩
    · have hp0 : InRange p := hrange _ List.mem_cons_self
      have hne : st.logList ≠ [] := by
        intro hnil
        have := hc.empty hnil
        simp only [InRange, LOG_EMERG] at hp0
        omega
      obtain ⟨h, hh, heq⟩ := hc.attained hne fun h hh => hrange h (List.mem_cons_of_mem _ hh)
      exact ⟨h, List.mem_cons_of_mem _ hh, by simp [hp, heq]⟩

theorem unregister_cached {st : LogState W} (hc : Cached st) (handler : Ptr) :
    Cached (logUnregisterMessageHandler st handler) := by
  obtain ⟨_, hall, hatt⟩ := logUnregisterLoop_max handler st.logList LOG_EMERG
  unfold logUnregisterMessageHandler
  rw [if_neg (by simp [hc.undiverted])]
  generalize logUnregisterLoop handler st.logList LOG_EMERG = r at *
  refine ⟨hc.undiverted, ?_, ?_, ?_⟩
  · intro h hh
    have hne : r.1 ≠ [] := List.ne_nil_of_mem hh
    simpa [hne] using hall h hh
  · intro hnil
    have hnil : r.1 = [] := hnil
    simp [hnil]
  · intro hne hrange
    have hne : r.1 ≠ [] := hne
    obtain ⟨h0, l, hl⟩ := List.exists_cons_of_ne_nil hne
    simp only [List.isEmpty_iff, hne, if_false]
    rcases hatt with heq | hatt
    · -- the maximum stayed at `LOG_EMERG`, which the handlers in range reach
      have hm : h0 ∈ r.1 := hl ▸ List.mem_cons_self
      have h1 := hall h0 hm
      have h2 : InRange h0.maxPriority := hrange h0 hm
      simp only [InRange] at h2
      exact ⟨h0, hm, by omega⟩
    · exact hatt

/-- **The cache is right after every call.** -/
theorem step_cached {st : LogState W} (hc : Cached st) (op : LogOp W) : Cached (st.step op) := by
  cases op with
  | register self handler p userData => exact register_cached hc self handler p userData
  | unregister handler => exact unregister_cached hc handler
  | clear =>
    exact ⟨hc.undiverted, fun _ hm => (List.not_mem_nil hm).elim, fun _ => rfl,
      fun hne => (hne rfl).elim⟩

theorem step_list {st : LogState W} (hc : Cached st) (op : LogOp W) :
    (st.step op).logList = liveStep st.logList op := by
  cases op with
  | register self handler p userData =>
    simp [LogState.step, logRegisterMessageHandler, hc.undiverted, liveStep]
  | unregister handler =>
    simp [LogState.step, logUnregisterMessageHandler, hc.undiverted, liveStep,
      logUnregisterLoop_list]
  | clear => rfl

/-- **Over a whole run** the list is the live handlers and the cache is right about them. -/
theorem run_cached : ∀ (ops : List (LogOp W)) {st : LogState W}, Cached st →
    Cached (ops.foldl LogState.step st) ∧
      (ops.foldl LogState.step st).logList = ops.foldl liveStep st.logList
  | [], _, hc => ⟨hc, rfl⟩
  | op :: ops, st, hc => by
    have ih := run_cached ops (step_cached hc op)
    rw [step_list hc op] at ih
    exact ih

/-! ## The entry points -/

/-- `log_message` and `log_vformat` on an undiverted state. -/
theorem logMessage_eq_dispatch {st : LogState W} (hc : Cached st) (msg : Message) (w : W) :
    logMessage st msg w = dispatch msg st.logList w := by
  simp only [logMessage, hc.undiverted]
  split
  · rename_i h
    refine (dispatch_none w fun h' hm => ?_).symm
    rcases h with hnil | hgt
    · rw [List.isEmpty_iff.mp hnil] at hm
      exact (List.not_mem_nil hm).elim
    · have := hc.upper h' hm
      omega
  · exact logAlertLoop_eq msg st.logList w

/-- `log_vformat` is `log_message` with the message of its arguments. -/
theorem logVformat_eq_logMessage (st : LogState W) (priority : Int) (msg : CString)
    (tags : List MessageTag) (w : W) :
    logVformat st priority msg tags w = logMessage st (msgCreate priority msg tags) w := rfl

/-- An entry point that tests the cache first loses nothing by it. -/
theorem dispatch_of_cache_lt {st : LogState W} (hc : Cached st) {msg : Message} (w : W)
    (hlt : ¬ st.maxPriority ≥ msg.priority) : dispatch msg st.logList w = ([], w) := by
  refine dispatch_none w fun h hm => ?_
  have := hc.upper h hm
  omega

theorem assertMessage_priority (a : Assertion) :
    (assertMessage a).priority = if a.condition then LOG_DEBUG else LOG_ERR := by
  unfold assertMessage
  split <;> rfl

/-- **Every entry point makes the calls of the dispatcher without a cache.** -/
theorem emit_eq_dispatch {st : LogState W} (hc : Cached st) (e : LogEntry) (w : W) :
    st.emit e w = dispatch e.toMessage st.logList w := by
  cases e with
  | wrap pri msg tags =>
    simp only [LogState.emit, logWrap, logFormat, logVformat_eq_logMessage,
      logMessage_eq_dispatch hc, LogEntry.toMessage]
    split
    · rfl
    · rename_i hlt
      exact (dispatch_of_cache_lt hc w hlt).symm
  | format priority msg tags =>
    simp only [LogState.emit, logFormat, logVformat_eq_logMessage, logMessage_eq_dispatch hc,
      LogEntry.toMessage]
  | message msg => exact logMessage_eq_dispatch hc msg w
  | testAssert a =>
    simp only [LogState.emit, testAssertLog, logMessage_eq_dispatch hc, LogEntry.toMessage]
    split
    · rfl
    · rename_i hlt
      refine (dispatch_of_cache_lt hc w ?_).symm
      rw [assertMessage_priority]
      by_cases hcond : a.condition <;> simp_all

/-- The live handlers, their cache and the calls of every entry point, after every sequence of
register, unregister and clear calls. -/
theorem log_refines_dispatcher (ops : List (LogOp W)) :
    (∀ (e : LogEntry) (w : W), (ops.foldl LogState.step LogState.init).emit e w =
      dispatch e.toMessage (ops.foldl liveStep []) w) ∧
    ((∀ h ∈ ops.foldl liveStep ([] : List (LogHandler W)), InRange h.maxPriority) →
      if ops.foldl liveStep ([] : List (LogHandler W)) = [] then
        (ops.foldl LogState.step LogState.init).maxPriority = -1
      else IsGreatest {p | ∃ h ∈ ops.foldl liveStep ([] : List (LogHandler W)), h.maxPriority = p}
        (ops.foldl LogState.step LogState.init).maxPriority) := by
  obtain ⟨hc, hl⟩ := run_cached ops (init_cached (W := W))
  rw [show (LogState.init : LogState W).logList = [] from rfl] at hl
  refine ⟨fun e w => by rw [emit_eq_dispatch hc, hl], fun hrange => ?_⟩
  rw [← hl] at hrange ⊢
  split
  · rename_i hnil
    exact hc.empty hnil
  · rename_i hne
    refine ⟨hc.attained hne hrange, ?_⟩
    rintro p ⟨h, hh, rfl⟩
    exact hc.upper h hh

end Tinu
