import Tinu.Log

/-!
# Diverted messages

After `log_divert` every message should go to the divert handler, and to no other.  The entry
points that test `g_log_max_priority` first are the ones that can drop it: `log_clear` lowers it
and nothing raises it again, since handlers are refused.

`diverted_iff` — in every run after `log_divert`, every message reaches the divert handler exactly
once, and no other, if and only if no such entry point is used after a `log_clear`.
-/

set_option autoImplicit false

namespace Tinu

variable {W : Type}

/-- What is done to the log after `log_divert`. -/
inductive LogAct (W : Type) where
  | op (op : LogOp W)
  | emit (e : LogEntry)

/-- The messages emitted in a run, each with the handlers it reached. -/
def logRun : LogState W → W → List (LogAct W) → List (LogEntry × List LogCall)
  | _, _, [] => []
  | st, w, .op o :: acts => logRun (st.step o) w acts
  | st, w, .emit e :: acts => (e, (st.emit e w).1) :: logRun st (st.emit e w).2 acts

/-- The entry point tests `g_log_max_priority` before anything else: the macros do, and
`tinu_test_assert`. -/
def LogEntry.TestsMax : LogEntry → Prop
  | .wrap _ _ _ => True
  | .format _ _ _ => False
  | .message _ => False
  | .testAssert _ => True

/-- A macro is one of `log_emerg` to `log_debug`. -/
def LogEntry.Usual : LogEntry → Prop
  | .wrap pri _ _ => InRange pri
  | _ => True

/-- Every message of the run reaches the divert handler once, and no other. -/
def AllDiverted (st : LogState W) (w : W) (acts : List (LogAct W)) : Prop :=
  ∀ r ∈ logRun st w acts, r.2 = [.divert r.1.toMessage]

theorem allDiverted_nil (st : LogState W) (w : W) : AllDiverted st w [] :=
  fun _ hr => (List.not_mem_nil hr).elim

theorem allDiverted_emit (st : LogState W) (w : W) (e : LogEntry) (acts : List (LogAct W)) :
    AllDiverted st w (.emit e :: acts) ↔
      (st.emit e w).1 = [.divert e.toMessage] ∧ AllDiverted st (st.emit e w).2 acts :=
  List.forall_mem_cons

/-! ## The state after `log_divert` -/

/-- Nothing ends the diversion. -/
theorem step_diverted {st : LogState W} (hd : st.diverted.isSome) (op : LogOp W) :
    (st.step op).diverted = st.diverted := by
  cases op with
  | register self handler maxPriority userData =>
    simp [LogState.step, logRegisterMessageHandler, hd]
  | unregister handler => simp [LogState.step, logUnregisterMessageHandler, hd]
  | clear => rfl

/-- Registrations are refused and unregistering does nothing, so only `log_clear` changes the
maximum. -/
theorem step_diverted_max {st : LogState W} (hd : st.diverted.isSome) (op : LogOp W) :
    (st.step op).maxPriority = st.maxPriority ∨ (st.step op).maxPriority = -1 := by
  cases op with
  | register self handler maxPriority userData =>
    exact Or.inl (by simp [LogState.step, logRegisterMessageHandler, hd])
  | unregister handler =>
    exact Or.inl (by simp [LogState.step, logUnregisterMessageHandler, hd])
  | clear => exact Or.inr rfl

theorem step_diverted_keeps {st : LogState W} (hd : st.diverted.isSome) {op : LogOp W}
    (hop : op ≠ .clear) : (st.step op).maxPriority = st.maxPriority := by
  cases op with
  | register self handler maxPriority userData =>
    simp [LogState.step, logRegisterMessageHandler, hd]
  | unregister handler => simp [LogState.step, logUnregisterMessageHandler, hd]
  | clear => exact absurd rfl hop

/-- An entry point that does not test the maximum, or gets past it, calls the divert handler. -/
theorem emit_diverted {st : LogState W} (hd : st.diverted.isSome) {e : LogEntry} (hu : e.Usual)
    (hmax : e.TestsMax → st.maxPriority = LOG_DEBUG) (w : W) :
    (st.emit e w).1 = [.divert e.toMessage] := by
  obtain ⟨⟨handler, userData⟩, hs⟩ := Option.isSome_iff_exists.mp hd
  cases e with
  | wrap pri msg tags =>
    have hpri : st.maxPriority ≥ pri := by
      rw [hmax trivial]
      exact hu.2
    simp only [LogState.emit, logWrap, if_pos hpri, logFormat, logVformat, hs, LogEntry.toMessage]
  | format priority msg tags =>
    simp only [LogState.emit, logFormat, logVformat, hs, LogEntry.toMessage]
  | message msg => simp only [LogState.emit, logMessage, hs, LogEntry.toMessage]
  | testAssert a =>
    have hpass : (a.condition = true ∧ st.maxPriority ≥ LOG_DEBUG) ∨
        (¬ a.condition = true ∧ st.maxPriority ≥ LOG_ERR) := by
      rw [hmax trivial]
      by_cases hc : a.condition = true
      · exact Or.inl ⟨hc, Int.le_refl _⟩
      · exact Or.inr ⟨hc, by decide⟩
    simp only [LogState.emit, testAssertLog, if_pos hpass, logMessage, hs, LogEntry.toMessage]

/-- After `log_clear` the entry points that test the maximum drop every message. -/
theorem emit_cleared {st : LogState W} (hmax : st.maxPriority = -1) {e : LogEntry} (hu : e.Usual)
    (ht : e.TestsMax) (w : W) : (st.emit e w).1 = [] := by
  cases e with
  | wrap pri msg tags =>
    have hpri : ¬ st.maxPriority ≥ pri := by
      have hlow : LOG_EMERG ≤ pri := hu.1
      rw [hmax]
      simp only [LOG_EMERG] at hlow
      omega
    simp only [LogState.emit, logWrap, if_neg hpri]
  | format priority msg tags => exact ht.elim
  | message msg => exact ht.elim
  | testAssert a =>
    have hdrop : ¬ ((a.condition = true ∧ st.maxPriority ≥ LOG_DEBUG) ∨
        (¬ a.condition = true ∧ st.maxPriority ≥ LOG_ERR)) := by
      rw [hmax]
      rintro (⟨-, h⟩ | ⟨-, h⟩)
      · exact absurd h (by decide)
      · exact absurd h (by decide)
    simp only [LogState.emit, testAssertLog, if_neg hdrop]

/-! ## Runs -/

/-- Every macro of the run is one of `log_emerg` to `log_debug`. -/
def Usual (acts : List (LogAct W)) : Prop := ∀ e, LogAct.emit e ∈ acts → e.Usual

/-- After `log_clear` a run diverts everything exactly when nothing in it tests the maximum. -/
theorem allDiverted_cleared :
    ∀ {acts : List (LogAct W)} {st : LogState W} (w : W), st.diverted.isSome →
      st.maxPriority = -1 → Usual acts →
        (AllDiverted st w acts ↔ ∀ e, LogAct.emit e ∈ acts → ¬ e.TestsMax)
  | [], st, w, _, _, _ =>
    ⟨fun _ _ he => (List.not_mem_nil he).elim, fun _ => allDiverted_nil st w⟩
  | .op o :: acts, st, w, hd, hmax, hu => by
    have hmax' : (st.step o).maxPriority = -1 := by
      rcases step_diverted_max hd o with h | h
      · rw [h, hmax]
      · exact h
    have ih := @allDiverted_cleared acts _ w (by rw [step_diverted hd]; exact hd) hmax'
      fun e he => hu e (List.mem_cons_of_mem _ he)
    refine ih.trans ⟨fun h e he => ?_, fun h e he => h e (List.mem_cons_of_mem _ he)⟩
    rcases List.mem_cons.mp he with he | he
    · cases he
    · exact h e he
  | .emit e :: acts, st, w, hd, hmax, hu => by
    have ih := @allDiverted_cleared acts _ (st.emit e w).2 hd hmax
      fun e he => hu e (List.mem_cons_of_mem _ he)
    have he := hu e List.mem_cons_self
    rw [allDiverted_emit, ih]
    constructor
    · rintro ⟨h1, h2⟩ e' he'
      rcases List.mem_cons.mp he' with he' | he'
      · cases he'
        intro ht
        rw [emit_cleared hmax he ht] at h1
        cases h1
      · exact h2 e' he'
    · intro h
      have ht := h e List.mem_cons_self
      exact ⟨emit_diverted hd he (fun h' => absurd h' ht) w,
        fun e' he' => h e' (List.mem_cons_of_mem _ he')⟩

/-- No entry point that tests the maximum is used after a `log_clear`. -/
def NoTestAfterClear (acts : List (LogAct W)) : Prop :=
  ∀ before e after, acts = before ++ .emit e :: after → LogAct.op .clear ∈ before → ¬ e.TestsMax

theorem noTestAfterClear_cons {a : LogAct W} (ha : a ≠ .op .clear) (acts : List (LogAct W)) :
    NoTestAfterClear (a :: acts) ↔ NoTestAfterClear acts := by
  constructor
  · intro h before e after hacts hc
    exact h (a :: before) e after (by rw [hacts]; rfl) (List.mem_cons_of_mem _ hc)
  · intro h before e after hacts hc
    cases before with
    | nil => exact (List.not_mem_nil hc).elim
    | cons b before =>
      obtain ⟨hb, hrest⟩ := List.cons.inj hacts
      rcases List.mem_cons.mp hc with hc | hc
      · exact absurd (hb.trans hc.symm) ha
      · exact h before e after hrest hc

theorem noTestAfterClear_clear (acts : List (LogAct W)) :
    NoTestAfterClear (.op .clear :: acts) ↔ ∀ e, LogAct.emit e ∈ acts → ¬ e.TestsMax := by
  constructor
  · intro h e he
    obtain ⟨before, after, hacts⟩ := List.append_of_mem he
    exact h (.op .clear :: before) e after (by rw [hacts]; rfl) List.mem_cons_self
  · intro h before e after hacts hc
    cases before with
    | nil => exact (List.not_mem_nil hc).elim
    | cons b before =>
      obtain ⟨-, hacts⟩ := List.cons.inj hacts
      refine h e ?_
      rw [hacts]
      exact List.mem_append_right _ List.mem_cons_self

/-- From the state that `log_divert` leaves. -/
theorem allDiverted_fresh :
    ∀ {acts : List (LogAct W)} {st : LogState W} (w : W), st.diverted.isSome →
      st.maxPriority = LOG_DEBUG → Usual acts → (AllDiverted st w acts ↔ NoTestAfterClear acts)
  | [], st, w, _, _, _ => by
    refine ⟨fun _ before e after h => ?_, fun _ => allDiverted_nil st w⟩
    exact absurd h.symm (List.append_ne_nil_of_right_ne_nil _ (List.cons_ne_nil _ _))
  | .op o :: acts, st, w, hd, hmax, hu => by
    have hd' : (st.step o).diverted.isSome := by rw [step_diverted hd]; exact hd
    have hu' : Usual acts := fun e he => hu e (List.mem_cons_of_mem _ he)
    by_cases ho : o = .clear
    · subst ho
      rw [noTestAfterClear_clear]
      exact allDiverted_cleared w hd' rfl hu'
    · have hmax' : (st.step o).maxPriority = LOG_DEBUG := by rw [step_diverted_keeps hd ho, hmax]
      rw [noTestAfterClear_cons fun h => ho (LogAct.op.inj h)]
      exact allDiverted_fresh w hd' hmax' hu'
  | .emit e :: acts, st, w, hd, hmax, hu => by
    have ih := @allDiverted_fresh acts _ (st.emit e w).2 hd hmax
      fun e he => hu e (List.mem_cons_of_mem _ he)
    have hfirst := emit_diverted hd (hu e List.mem_cons_self) (fun _ => hmax) w
    rw [allDiverted_emit, ih, noTestAfterClear_cons (by rintro ⟨⟩)]
    exact and_iff_right hfirst

/-- **After `log_divert` every message reaches the divert handler, and no other, exactly when no
entry point that tests the maximum is used after a `log_clear`.** -/
theorem diverted_iff (st : LogState W) (handler : MessageHandler W) (userData : Ptr) (w : W)
    {acts : List (LogAct W)} (hu : Usual acts) :
    AllDiverted (logDivert st handler userData) w acts ↔ NoTestAfterClear acts :=
  allDiverted_fresh w rfl rfl hu

/-- A registration is tried, then an error is logged. -/
def refusedActs : List (LogAct Nat) :=
  [.op (.register 8 (fun _ _ n => (false, n)) LOG_DEBUG NULL), .emit (.wrap LOG_ERR "e" [])]

theorem diverted_iff_refused :
    AllDiverted (logDivert LogState.init (fun _ _ n => (true, n + 1)) NULL) 0 refusedActs ↔
      NoTestAfterClear refusedActs := by
  refine diverted_iff LogState.init (fun _ _ n => (true, n + 1)) NULL 0 fun e he => ?_
  rw [refusedActs, List.mem_cons, List.mem_singleton] at he
  rcases he with he | he
  · cases he
  · cases he
    exact ⟨by decide, by decide⟩

/-- After `log_clear` an error emitted through `log_error` is dropped. -/
theorem cleared_diversion_drops :
    ¬ ∀ (st : LogState Unit) (handler : MessageHandler Unit) (userData : Ptr) (w : Unit)
        (acts : List (LogAct Unit)), Usual acts →
      AllDiverted (logDivert st handler userData) w acts := by
  intro h
  have hu : Usual ([.op .clear, .emit (.wrap LOG_ERR "e" [])] : List (LogAct Unit)) := by
    intro e he
    rw [List.mem_cons, List.mem_singleton] at he
    rcases he with he | he
    · cases he
    · cases he
      exact ⟨by decide, by decide⟩
  have hall := h LogState.init (fun _ _ w => (true, w)) NULL () _ hu
  have hdrop := hall (.wrap LOG_ERR "e" [], []) List.mem_cons_self
  cases hdrop

end Tinu
