import Tinu.Diversion
import Tinu.Statistics

/-!
# The message counters of the statistics (`statistics.c`)

The statistics count messages through a handler of the log.  The dispatcher bounds the priority
from above only, and the counter is an array inside of `TestStatistics`: the words of the
structure and of what is around it are part of the world here, as any of them can be the one at
the index.

* `countMessage_refines` — counting a priority in range, on the structure;
* `foldl_countMessage` — what counting priorities in range leaves;
* `emit_counts`, `run_counts` — the words are those of the messages that reach the handler;
* `comesTo_iff`, `noneNegative_iff` — which messages reach it, by the handlers before it;
* `statMessages_iff` — when they are the counters, and nothing else.
-/

set_option autoImplicit false

namespace Tinu

variable {W : Type}

/-! ## The handler -/

/-- The 32-bit words of the memory, from the start of `TestStatistics` on. -/
abbrev StatWords := Int → Nat

/-- `m_messages` is behind four pointers. -/
def messagesWord : Int := 8

/-- `self->m_messages[priority]++`. -/
def countMessage (words : StatWords) (priority : Int) : StatWords :=
  Function.update words (messagesWord + priority) (guintIncr (words (messagesWord + priority)))

/-- `_stat_message_counter`. -/
def statMessageCounterHandler : MessageHandler (W × StatWords) :=
  fun msg _ w => (true, (w.1, countMessage w.2 msg.priority))

/-- The registration in `stat_start`; `handle` is the address of the new record. -/
def statStartLog (st : LogState (W × StatWords)) (handle self : Ptr) : LogState (W × StatWords) :=
  (logRegisterMessageHandler st handle statMessageCounterHandler LOG_DEBUG self).2

/-- The world after a run. -/
def logWorld {V : Type} : LogState V → V → List (LogAct V) → V
  | _, v, [] => v
  | st, v, .op o :: acts => logWorld (st.step o) v acts
  | st, v, .emit e :: acts => logWorld st (st.emit e v).2 acts

/-! ## What it should do -/

/-- The priorities of the messages of a run that reach the handler. -/
def reachedPriorities (handle : Ptr) (run : List (LogEntry × List LogCall)) : List Int :=
  (run.filter fun r => .handler handle r.1.toMessage ∈ r.2).map fun r => r.1.toMessage.priority

/-- Every message that reached the handler is counted at its own priority, which is an index of
`m_messages`, and no other word changes. -/
structure CountsOk (handle : Ptr) (run : List (LogEntry × List LogCall))
    (words words' : StatWords) : Prop where
  index : ∀ p ∈ reachedPriorities handle run, InRange p
  counts : ∀ p, InRange p →
    words' (messagesWord + p) = (reachedPriorities handle run).count p % guint32Range
  others : ∀ a, a < messagesWord ∨ messagesWord + 8 ≤ a → words' a = words a

/-- A message comes to the handler at `handle`: those before it that take the priority let the
message go on. -/
def comesTo (handle : Ptr) (msg : Message) : List (LogHandler W) → W → Bool
  | [], _ => false
  | h :: live, w =>
    if msg.priority ≤ h.maxPriority then
      if h.handle = handle then true
      else
        let r := h.handler msg h.userData w
        r.1 && comesTo handle msg live r.2
    else comesTo handle msg live w

/-- No message of negative priority comes to the handler; the live handlers act on the world as the
dispatcher without a cache calls them. -/
def NoneNegative (handle : Ptr) : List (LogHandler W) → W → List (LogAct W) → Prop
  | _, _, [] => True
  | live, w, .op o :: acts => NoneNegative handle (liveStep live o) w acts
  | live, w, .emit e :: acts =>
    (e.toMessage.priority < 0 → comesTo handle e.toMessage live w = false) ∧
      NoneNegative handle live (dispatch e.toMessage live w).2 acts

instance decidableNoneNegative (handle : Ptr) :
    ∀ (live : List (LogHandler W)) (w : W) (acts : List (LogAct W)),
      Decidable (NoneNegative handle live w acts)
  | _, _, [] => .isTrue trivial
  | live, w, .op o :: acts => decidableNoneNegative handle (liveStep live o) w acts
  | live, w, .emit e :: acts =>
    haveI := decidableNoneNegative handle live (dispatch e.toMessage live w).2 acts
    inferInstanceAs (Decidable (_ ∧ _))

/-! ## Counting -/

theorem countMessage_at (words : StatWords) (q p : Int) :
    countMessage words q (messagesWord + p) =
      if p = q then guintIncr (words (messagesWord + p)) else words (messagesWord + p) := by
  rw [countMessage]
  split
  · rename_i he
    rw [he, Function.update_self]
  · rename_i hne
    rw [Function.update_of_ne (by omega)]

/-- Counting a priority in range is `_stat_message_counter` on the structure. -/
theorem countMessage_refines {self : TestStatistics} {words : StatWords}
    (h : ∀ p : Fin 8, words (messagesWord + p.val) = self.messages p) (priority : Fin 8)
    (p : Fin 8) :
    countMessage words priority.val (messagesWord + p.val) =
      (statMessageCounter self priority).messages p := by
  rw [countMessage_at, statMessageCounter, h]
  dsimp only
  by_cases hp : p = priority
  · rw [hp, if_pos rfl, Function.update_self]
  · rw [if_neg (by omega), Function.update_of_ne hp]

/-- **Counting priorities in range** adds their numbers to the counters, and changes no other
word. -/
theorem foldl_countMessage :
    ∀ (l : List Int) (words : StatWords), (∀ p ∈ l, InRange p) →
      (∀ p, InRange p → words (messagesWord + p) < guint32Range) →
        (∀ p, InRange p → l.foldl countMessage words (messagesWord + p) =
          (words (messagesWord + p) + l.count p) % guint32Range) ∧
        ∀ a, a < messagesWord ∨ messagesWord + 8 ≤ a → l.foldl countMessage words a = words a
  | [], words, _, hsmall => by
    refine ⟨fun p hp => ?_, fun _ _ => rfl⟩
    rw [List.foldl_nil, List.count_nil, Nat.add_zero, Nat.mod_eq_of_lt (hsmall p hp)]
  | q :: l, words, hl, hsmall => by
    have hq := hl q List.mem_cons_self
    have hsmall' : ∀ p, InRange p → countMessage words q (messagesWord + p) < guint32Range := by
      intro p hp
      rw [countMessage_at]
      split
      · exact Nat.mod_lt _ (by decide)
      · exact hsmall p hp
    have hrest : ∀ p ∈ l, InRange p := fun p hp => hl p (List.mem_cons_of_mem q hp)
    obtain ⟨hcounts, hothers⟩ := foldl_countMessage l (countMessage words q) hrest hsmall'
    refine ⟨fun p hp => ?_, fun a ha => ?_⟩
    · rw [List.foldl_cons, hcounts p hp, countMessage_at, List.count_cons]
      by_cases he : p = q
      · rw [if_pos he, if_pos (by rw [he, beq_self_eq_true]), guintIncr, Nat.mod_add_mod]
        congr 1
        omega
      · rw [if_neg he, if_neg (by simpa using Ne.symm he), Nat.add_zero]
    · have hne : a ≠ messagesWord + q := by
        simp only [InRange, LOG_EMERG, LOG_DEBUG] at hq
        omega
      rw [List.foldl_cons, hothers a ha, countMessage, Function.update_of_ne hne]

/-! ## One message -/

/-- A handler that does not write to the words. -/
def KeepsWords (handler : MessageHandler (W × StatWords)) : Prop :=
  ∀ msg userData w, (handler msg userData w).2.2 = w.2

/-- The handler of the statistics is in the list once at most, and the others keep the words. -/
structure OneCounter (handle : Ptr) (l : List (LogHandler (W × StatWords))) : Prop where
  counter : ∀ h ∈ l, h.handle = handle →
    h.handler = statMessageCounterHandler ∧ h.maxPriority = LOG_DEBUG
  others : ∀ h ∈ l, h.handle ≠ handle → KeepsWords h.handler
  once : l.Pairwise fun h h' => ¬ (h.handle = handle ∧ h'.handle = handle)

theorem OneCounter.tail {handle : Ptr} {h : LogHandler (W × StatWords)}
    {l : List (LogHandler (W × StatWords))} (hl : OneCounter handle (h :: l)) :
    OneCounter handle l :=
  ⟨fun h' hm => hl.counter h' (List.mem_cons_of_mem _ hm),
    fun h' hm => hl.others h' (List.mem_cons_of_mem _ hm), (List.pairwise_cons.mp hl.once).2⟩

/-- The words after a message that may have reached the handler. -/
def countIfReached (handle : Ptr) (msg : Message) (calls : List LogCall) (words : StatWords) :
    StatWords :=
  if .handler handle msg ∈ calls then countMessage words msg.priority else words

/-- A call of another handler is not one of the handler. -/
theorem handler_mem_cons {handle other : Ptr} (hne : other ≠ handle) (msg : Message)
    (calls : List LogCall) :
    LogCall.handler handle msg ∈ LogCall.handler other msg :: calls ↔
      LogCall.handler handle msg ∈ calls := by
  rw [List.mem_cons]
  refine or_iff_right fun heq => ?_
  cases heq
  exact hne rfl

/-- Without the handler of the statistics no message reaches it. -/
theorem logAlertLoop_others {handle : Ptr} (msg : Message) :
    ∀ (l : List (LogHandler (W × StatWords))) (propagate : Bool) (w : W × StatWords),
      OneCounter handle l → (∀ h ∈ l, h.handle ≠ handle) →
        .handler handle msg ∉ (logAlertLoop msg propagate l w).1 ∧
          (logAlertLoop msg propagate l w).2.2 = w.2
  | [], propagate, w, _, _ => by
    cases propagate
    · exact ⟨List.not_mem_nil, rfl⟩
    · exact ⟨List.not_mem_nil, rfl⟩
  | h :: l, false, w, _, _ => ⟨List.not_mem_nil, rfl⟩
  | h :: l, true, w, hl, hne => by
    have hhead := hne h List.mem_cons_self
    have htail := fun h' hm => hne h' (List.mem_cons_of_mem h hm)
    rw [logAlertLoop]
    split
    · obtain ⟨hnot, hwords⟩ := logAlertLoop_others msg l (h.handler msg h.userData w).1
        (h.handler msg h.userData w).2 hl.tail htail
      refine ⟨fun hmem => hnot ((handler_mem_cons hhead msg _).mp hmem), ?_⟩
      exact hwords.trans (hl.others h List.mem_cons_self hhead msg _ w)
    · exact logAlertLoop_others msg l true w hl.tail htail

/-- **`_log_alert_handlers` counts the message** when it reaches the handler of the statistics,
and its priority is then at most `LOG_DEBUG`. -/
theorem logAlertLoop_counts {handle : Ptr} (msg : Message) :
    ∀ (l : List (LogHandler (W × StatWords))) (propagate : Bool) (w : W × StatWords),
      OneCounter handle l →
        (logAlertLoop msg propagate l w).2.2 =
          countIfReached handle msg (logAlertLoop msg propagate l w).1 w.2 ∧
        (.handler handle msg ∈ (logAlertLoop msg propagate l w).1 → msg.priority ≤ LOG_DEBUG)
  | [], propagate, w, _ => by
    cases propagate
    · exact ⟨rfl, fun hmem => (List.not_mem_nil hmem).elim⟩
    · exact ⟨rfl, fun hmem => (List.not_mem_nil hmem).elim⟩
  | h :: l, false, w, _ => ⟨rfl, fun hmem => (List.not_mem_nil hmem).elim⟩
  | h :: l, true, w, hl => by
    rw [logAlertLoop]
    split
    · rename_i hle
      by_cases hhandle : h.handle = handle
      · obtain ⟨hhandler, hmax⟩ := hl.counter h List.mem_cons_self hhandle
        have hothers : ∀ h' ∈ l, h'.handle ≠ handle := fun h' hm he =>
          (List.pairwise_cons.mp hl.once).1 h' hm ⟨hhandle, he⟩
        obtain ⟨_, hwords⟩ := logAlertLoop_others msg l (h.handler msg h.userData w).1
          (h.handler msg h.userData w).2 hl.tail hothers
        have hmem : LogCall.handler handle msg ∈
            LogCall.handler h.handle msg :: (logAlertLoop msg (h.handler msg h.userData w).1 l
              (h.handler msg h.userData w).2).1 := by
          rw [hhandle]
          exact List.mem_cons_self
        refine ⟨?_, fun _ => by omega⟩
        rw [countIfReached, if_pos hmem, hwords, hhandler]
        rfl
      · obtain ⟨hwords, hpri⟩ := logAlertLoop_counts msg l (h.handler msg h.userData w).1
          (h.handler msg h.userData w).2 hl.tail
        have hmem := handler_mem_cons hhandle msg
          (logAlertLoop msg (h.handler msg h.userData w).1 l (h.handler msg h.userData w).2).1
        rw [hl.others h List.mem_cons_self hhandle msg _ w] at hwords
        refine ⟨hwords.trans ?_, fun hin => hpri (hmem.mp hin)⟩
        simp only [countIfReached, hmem]
    · exact logAlertLoop_counts msg l true w hl.tail

/-- The ways a message can take: dropped, diverted, or through the list. -/
inductive Emitted {V : Type} (st : LogState V) (msg : Message) (v : V) : List LogCall × V → Prop
  | dropped : Emitted st msg v ([], v)
  | diverted (d : MessageHandler V × Ptr) (hd : d ∈ st.diverted) :
      Emitted st msg v ([.divert msg], (d.1 msg d.2 v).2)
  | alerted (hd : st.diverted = none) : Emitted st msg v (logAlertLoop msg true st.logList v)

theorem logMessage_emitted {V : Type} (st : LogState V) (msg : Message) (v : V) :
    Emitted st msg v (logMessage st msg v) := by
  unfold logMessage
  split
  · rename_i handler userData hd
    exact .diverted (handler, userData) hd
  · rename_i hd
    split
    · exact .dropped
    · exact .alerted hd

theorem logVformat_emitted {V : Type} (st : LogState V) (priority : Int) (msg : CString)
    (tags : List MessageTag) (v : V) :
    Emitted st (msgCreate priority msg tags) v (logVformat st priority msg tags v) := by
  rw [logVformat_eq_logMessage]
  exact logMessage_emitted st (msgCreate priority msg tags) v

/-- Every entry point sends its message one of these ways. -/
theorem emit_emitted {V : Type} (st : LogState V) (e : LogEntry) (v : V) :
    Emitted st e.toMessage v (st.emit e v) := by
  cases e with
  | wrap pri msg tags =>
    simp only [LogState.emit, logWrap]
    split
    · exact logVformat_emitted st pri msg tags v
    · exact .dropped
  | format priority msg tags => exact logVformat_emitted st priority msg tags v
  | message msg => exact logMessage_emitted st msg v
  | testAssert a =>
    simp only [LogState.emit, testAssertLog]
    split
    · exact logMessage_emitted st (assertMessage a) v
    · exact .dropped

/-- The handlers of the log while the statistics run. -/
structure StatRegistered (handle : Ptr) (st : LogState (W × StatWords)) : Prop where
  list : OneCounter handle st.logList
  divert : ∀ d ∈ st.diverted, KeepsWords d.1

/-- **A message is counted** when it reaches the handler, and no word changes otherwise. -/
theorem emit_counts {handle : Ptr} {st : LogState (W × StatWords)} (hst : StatRegistered handle st)
    (e : LogEntry) (v : W × StatWords) :
    (st.emit e v).2.2 = countIfReached handle e.toMessage (st.emit e v).1 v.2 ∧
      (.handler handle e.toMessage ∈ (st.emit e v).1 → e.toMessage.priority ≤ LOG_DEBUG) := by
  generalize hr : st.emit e v = r
  have hemit := emit_emitted st e v
  rw [hr] at hemit
  cases hemit with
  | dropped => exact ⟨rfl, fun hmem => (List.not_mem_nil hmem).elim⟩
  | diverted d hd =>
    have hnot : LogCall.handler handle e.toMessage ∉ [LogCall.divert e.toMessage] := by simp
    refine ⟨?_, fun hmem => absurd hmem hnot⟩
    rw [countIfReached, if_neg hnot]
    exact hst.divert d hd _ _ v
  | alerted _ => exact logAlertLoop_counts e.toMessage st.logList true v hst.list

/-! ## What reaches the handler -/

/-- **The messages that come to a handler** are those that the dispatcher calls it with. -/
theorem comesTo_iff {handle : Ptr} {msg : Message} :
    ∀ (live : List (LogHandler W)) (w : W),
      comesTo handle msg live w = true ↔ .handler handle msg ∈ (dispatch msg live w).1
  | [], w => by simp [comesTo, dispatch]
  | h :: live, w => by
    rw [comesTo, dispatch]
    split
    · rcases hr : h.handler msg h.userData w with ⟨_ | _, w'⟩
      · by_cases hhandle : h.handle = handle
        · simp [hhandle]
        · simp [hhandle, Ne.symm hhandle]
      · by_cases hhandle : h.handle = handle
        · simp [hhandle]
        · simp only [if_neg hhandle, Bool.true_and, handler_mem_cons hhandle]
          exact comesTo_iff live w'
    · exact comesTo_iff live w

/-- One message more in a run. -/
theorem reachedPriorities_cons (handle : Ptr) (r : LogEntry × List LogCall)
    (run : List (LogEntry × List LogCall)) :
    reachedPriorities handle (r :: run) =
      (if .handler handle r.1.toMessage ∈ r.2 then [r.1.toMessage.priority] else []) ++
        reachedPriorities handle run := by
  by_cases hmem : LogCall.handler handle r.1.toMessage ∈ r.2 <;> simp [reachedPriorities, hmem]

/-- **No message of negative priority reaches the handler** in a run when none comes to it. -/
theorem noneNegative_iff {handle : Ptr} :
    ∀ (acts : List (LogAct W)) {st : LogState W} (v : W), Cached st →
      ((∀ p ∈ reachedPriorities handle (logRun st v acts), 0 ≤ p) ↔
        NoneNegative handle st.logList v acts)
  | [], _, _, _ => ⟨fun _ => trivial, fun _ _ hp => (List.not_mem_nil hp).elim⟩
  | .op o :: acts, st, v, hc => by
    have ih := @noneNegative_iff handle acts _ v (step_cached hc o)
    rw [step_list hc] at ih
    exact ih
  | .emit e :: acts, st, v, hc => by
    have ih := @noneNegative_iff handle acts st (st.emit e v).2 hc
    have hcome := @comesTo_iff W handle e.toMessage st.logList v
    rw [logRun, reachedPriorities_cons, NoneNegative, List.forall_mem_append, ih,
      emit_eq_dispatch hc]
    refine and_congr_left fun _ => ?_
    by_cases hmem : LogCall.handler handle e.toMessage ∈ (dispatch e.toMessage st.logList v).1
    · simp [hmem, hcome.mpr hmem]
    · simp [hmem, mt hcome.mp hmem]

/-- No message reaches the handler after `log_divert`. -/
theorem reachedPriorities_diverted {handle : Ptr} :
    ∀ (acts : List (LogAct W)) {st : LogState W} (v : W), st.diverted.isSome →
      reachedPriorities handle (logRun st v acts) = []
  | [], _, _, _ => rfl
  | .op o :: acts, st, v, hd =>
    reachedPriorities_diverted acts v (by rw [step_diverted hd]; exact hd)
  | .emit e :: acts, st, v, hd => by
    have hnot : LogCall.handler handle e.toMessage ∉ (st.emit e v).1 := by
      generalize hr : st.emit e v = r
      have hemit := emit_emitted st e v
      rw [hr] at hemit
      cases hemit with
      | dropped => exact List.not_mem_nil
      | diverted d hd => simp
      | alerted hnone =>
        rw [hnone] at hd
        cases hd
    rw [logRun, reachedPriorities_cons, if_neg hnot, List.nil_append]
    exact reachedPriorities_diverted acts _ hd

/-! ## Runs -/

/-- What happens to the log while the statistics run: new handlers are not those of the
statistics, and keep their words. -/
def ActOk (handle : Ptr) : LogAct (W × StatWords) → Prop
  | .op (.register self handler _ _) => self ≠ handle ∧ KeepsWords handler
  | .op (.unregister _) => True
  | .op .clear => True
  | .emit _ => True

theorem OneCounter.cons_other {handle self : Ptr} {handler : MessageHandler (W × StatWords)}
    {maxPriority : Int} {userData : Ptr} {l : List (LogHandler (W × StatWords))}
    (hl : OneCounter handle l) (hself : self ≠ handle) (hkeeps : KeepsWords handler) :
    OneCounter handle (⟨self, maxPriority, userData, handler⟩ :: l) := by
  refine ⟨fun h hm he => ?_, fun h hm he => ?_, List.pairwise_cons.mpr ⟨fun h _ he => ?_, hl.once⟩⟩
  · obtain rfl | hm := List.mem_cons.mp hm
    · exact absurd he hself
    · exact hl.counter h hm he
  · obtain rfl | hm := List.mem_cons.mp hm
    · exact hkeeps
    · exact hl.others h hm he
  · exact hself he.1

theorem OneCounter.filter {handle : Ptr} {l : List (LogHandler (W × StatWords))}
    (hl : OneCounter handle l) (f : LogHandler (W × StatWords) → Bool) :
    OneCounter handle (l.filter f) :=
  ⟨fun h hm => hl.counter h (List.mem_of_mem_filter hm),
    fun h hm => hl.others h (List.mem_of_mem_filter hm), hl.once.filter f⟩

/-- Registering and unregistering other handlers keeps the handlers as they should be. -/
theorem step_registered {handle : Ptr} {st : LogState (W × StatWords)}
    (hst : StatRegistered handle st) {op : LogOp (W × StatWords)} (hop : ActOk handle (.op op)) :
    StatRegistered handle (st.step op) := by
  cases op with
  | register self handler maxPriority userData =>
    simp only [LogState.step, logRegisterMessageHandler]
    split
    · exact hst
    · exact ⟨hst.list.cons_other hop.1 hop.2, hst.divert⟩
  | unregister handler =>
    simp only [LogState.step, logUnregisterMessageHandler]
    split
    · exact hst
    · refine ⟨?_, hst.divert⟩
      rw [logUnregisterLoop_list]
      exact hst.list.filter _
  | clear =>
    exact ⟨⟨fun _ hm => (List.not_mem_nil hm).elim, fun _ hm => (List.not_mem_nil hm).elim,
      List.Pairwise.nil⟩, hst.divert⟩

/-- **Over a run** the words are those after counting the messages that reach the handler. -/
theorem run_counts {handle : Ptr} :
    ∀ (acts : List (LogAct (W × StatWords))) {st : LogState (W × StatWords)} (v : W × StatWords),
      StatRegistered handle st → (∀ a ∈ acts, ActOk handle a) →
        (logWorld st v acts).2 =
          (reachedPriorities handle (logRun st v acts)).foldl countMessage v.2 ∧
        ∀ p ∈ reachedPriorities handle (logRun st v acts), p ≤ LOG_DEBUG
  | [], st, v, _, _ => ⟨rfl, fun p hp => (List.not_mem_nil hp).elim⟩
  | .op o :: acts, st, v, hst, hacts =>
    run_counts acts v (step_registered hst (hacts _ List.mem_cons_self))
      fun a ha => hacts a (List.mem_cons_of_mem _ ha)
  | .emit e :: acts, st, v, hst, hacts => by
    obtain ⟨hwords, hpri⟩ := emit_counts hst e v
    obtain ⟨hrun, hmax⟩ := run_counts acts (st.emit e v).2 hst
      fun a ha => hacts a (List.mem_cons_of_mem _ ha)
    rw [hwords] at hrun
    rw [logWorld, logRun, hrun, reachedPriorities_cons, countIfReached]
    by_cases hmem : LogCall.handler handle e.toMessage ∈ (st.emit e v).1
    · rw [if_pos hmem, if_pos hmem, List.singleton_append, List.foldl_cons]
      refine ⟨rfl, fun p hp => ?_⟩
      obtain rfl | hp := List.mem_cons.mp hp
      · exact hpri hmem
      · exact hmax p hp
    · rw [if_neg hmem, if_neg hmem, List.nil_append]
      exact ⟨rfl, hmax⟩

/-- What a run logs begins with what a part of it logs. -/
theorem logRun_isPrefix {V : Type} :
    ∀ (pre acts : List (LogAct V)) (st : LogState V) (v : V), pre <+: acts →
      logRun st v pre <+: logRun st v acts
  | [], _, _, _, _ => List.nil_prefix
  | a :: pre, acts, st, v, h => by
    obtain ⟨rest, rfl⟩ := h
    cases a with
    | op o => exact logRun_isPrefix pre (pre ++ rest) (st.step o) v (List.prefix_append _ _)
    | emit e =>
      have ih := logRun_isPrefix pre (pre ++ rest) st (st.emit e v).2 (List.prefix_append _ _)
      simp only [List.cons_append, logRun]
      exact (List.prefix_cons_inj _).mpr ih

/-- The log before the statistics are started, with a cache that is right as after every call. -/
structure OthersOnly (handle : Ptr) (st : LogState (W × StatWords)) : Prop where
  cached : st.diverted = none → Cached st
  handles : ∀ h ∈ st.logList, h.handle ≠ handle
  keeps : ∀ h ∈ st.logList, KeepsWords h.handler
  divert : ∀ d ∈ st.diverted, KeepsWords d.1

theorem statStartLog_registered {handle : Ptr} {st : LogState (W × StatWords)}
    (hst : OthersOnly handle st) (self : Ptr) :
    StatRegistered handle (statStartLog st handle self) := by
  have hlist : OneCounter handle st.logList :=
    ⟨fun h hm he => absurd he (hst.handles h hm), fun h hm _ => hst.keeps h hm,
      List.pairwise_of_forall_mem_list fun h hm _ _ he => hst.handles h hm he.1⟩
  simp only [statStartLog, logRegisterMessageHandler]
  split
  · exact ⟨hlist, hst.divert⟩
  · refine ⟨⟨fun h hm he => ?_, fun h hm he => ?_,
      List.pairwise_cons.mpr ⟨fun h hm he => ?_, hlist.once⟩⟩, hst.divert⟩
    · obtain rfl | hm := List.mem_cons.mp hm
      · exact ⟨rfl, rfl⟩
      · exact hlist.counter h hm he
    · obtain rfl | hm := List.mem_cons.mp hm
      · exact absurd rfl he
      · exact hlist.others h hm he
    · exact hst.handles h hm he.2

/-- The handlers when the statistics are started. -/
def statLive (st : LogState (W × StatWords)) (handle self : Ptr) :
    List (LogHandler (W × StatWords)) :=
  ⟨handle, LOG_DEBUG, self, statMessageCounterHandler⟩ :: st.logList

/-- **The counters are right throughout a run**, and nothing else is changed, exactly when the log
is diverted or no message of negative priority comes through the newer handlers to that of the
statistics. -/
theorem statMessages_iff {handle self : Ptr} {st : LogState (W × StatWords)}
    (hst : OthersOnly handle st) {acts : List (LogAct (W × StatWords))}
    (hacts : ∀ a ∈ acts, ActOk handle a) (v : W × StatWords)
    (hnew : ∀ p, InRange p → v.2 (messagesWord + p) = 0) :
    (∀ pre, pre <+: acts → CountsOk handle (logRun (statStartLog st handle self) v pre) v.2
        (logWorld (statStartLog st handle self) v pre).2) ↔
      (st.diverted = none → NoneNegative handle (statLive st handle self) v acts) := by
  have hreg := statStartLog_registered hst self
  have hreached : (∀ p ∈ reachedPriorities handle (logRun (statStartLog st handle self) v acts),
      0 ≤ p) ↔ (st.diverted = none → NoneNegative handle (statLive st handle self) v acts) := by
    cases hd : st.diverted with
    | none =>
      have hlive := @noneNegative_iff _ handle acts _ v (step_cached (hst.cached hd)
        (.register handle statMessageCounterHandler LOG_DEBUG self))
      rw [step_list (hst.cached hd)] at hlive
      exact hlive.trans ⟨fun h _ => h, fun h => h rfl⟩
    | some d =>
      have hsome : (statStartLog st handle self).diverted.isSome := by
        have hsame := @step_diverted _ st (by rw [hd]; rfl)
          (.register handle statMessageCounterHandler LOG_DEBUG self)
        exact (congrArg Option.isSome (hsame.trans hd)).trans rfl
      rw [reachedPriorities_diverted acts v hsome]
      exact iff_of_true (fun p hp => (List.not_mem_nil hp).elim) fun h => nomatch h
  rw [← hreached]
  constructor
  · intro hok p hp
    exact ((hok acts List.prefix_rfl).index p hp).1
  · intro hpos pre hpre
    obtain ⟨hwords, hmax⟩ := run_counts pre v hreg fun a ha => hacts a (hpre.mem ha)
    have hrange : ∀ p ∈ reachedPriorities handle (logRun (statStartLog st handle self) v pre),
        InRange p := by
      intro p hp
      refine ⟨hpos p ?_, hmax p hp⟩
      exact (((logRun_isPrefix pre acts _ v hpre).filter _).map _).mem hp
    obtain ⟨hcounts, hothers⟩ := foldl_countMessage _ v.2 hrange fun p hp => by
      rw [hnew p hp]
      decide
    refine ⟨hrange, fun p hp => ?_, fun a ha => ?_⟩
    · rw [hwords, hcounts p hp, hnew p hp, Nat.zero_add]
    · rw [hwords, hothers a ha]

/-- A newer handler stops the second of two warnings and a message of negative priority, and one
message is above every priority. -/
theorem statMessages_iff_stopped :
    (∀ pre, pre <+: [LogAct.emit (.format 4 ['m'] []), .emit (.format 9 ['m'] []),
        .op (.register 2 (fun _ _ w => (false, w)) 4 NULL), .emit (.format 4 ['m'] []),
        .emit (.format (-1) ['m'] []), .emit (.format 7 ['m'] [])] →
      CountsOk 1 (logRun (statStartLog (LogState.init : LogState (Unit × StatWords)) 1 8)
          ((), fun _ => 0) pre) (fun _ => 0)
        (logWorld (statStartLog LogState.init 1 8) ((), fun _ => 0) pre).2) ∧
      (logWorld (statStartLog (LogState.init : LogState (Unit × StatWords)) 1 8)
          ((), fun _ => 0) [LogAct.emit (.format 4 ['m'] []), .emit (.format 9 ['m'] []),
            .op (.register 2 (fun _ _ w => (false, w)) 4 NULL), .emit (.format 4 ['m'] []),
            .emit (.format (-1) ['m'] []), .emit (.format 7 ['m'] [])]).2 (messagesWord + 4) = 1 :=
  ⟨(statMessages_iff ⟨fun _ => init_cached, by simp [LogState.init], by simp [LogState.init],
      by simp [LogState.init]⟩
    (by simp [ActOk, KeepsWords]) ((), fun _ => 0) fun _ _ => rfl).mpr (by decide), by decide⟩

/-- A message of priority -1 is counted in the word before `m_messages`. -/
theorem statMessages_negative :
    ¬ CountsOk 1 (logRun (statStartLog (LogState.init : LogState (Unit × StatWords)) 1 8)
        ((), fun _ => 0) [.emit (.format (-1) ['m'] [])]) (fun _ => 0)
      (logWorld (statStartLog LogState.init 1 8) ((), fun _ => 0)
        [.emit (.format (-1) ['m'] [])]).2 := by
  intro hok
  exact absurd (hok.others 7 (.inl (by decide))) (by decide)

end Tinu
