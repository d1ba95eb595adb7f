import Tinu.Lib.GuardedRun
import Tinu.RunnerSpec

/-!
# Signal dispositions around a test (`test.c`)

`_signal_on` installs the runner's handler and keeps the previous ones in two globals;
`_signal_off` puts them back.  The two failure exits of `_test_case_run_single_test` jump over
`_signal_off`.

* `single_signals` — the dispositions and the two globals after one test;
* `dispositions_kept_iff` — every test of a sequence leaves the dispositions as they were exactly
  when no context of the sequence fails;
* `runner_stays_installed` — after a context that failed no test puts them back.
-/

set_option autoImplicit false

namespace Tinu

/-! ## One test -/

/-- The dispositions and the globals after a test that was run in a context of its own. -/
def signalsAfter (failed : Bool) (s : SignalState) : SignalState :=
  if failed then ⟨.runner, .runner, s.segv, s.abrt⟩ else ⟨s.segv, s.abrt, s.segv, s.abrt⟩

theorem signalHandler_signals (env : Env) (n : Nat) (test : TestCase) (st : RunState)
    (signo : Signal) : (signalHandler env n test st signo).signals = st.signals := by
  exact ((emitLog_unseen env st (signalMessage test signo)).trans
    (foldl_emitLog_unseen env (env.handlerTrace n) _)).signals

/-- **The two exits of the switched branch**: past `_signal_off`, or over it. -/
theorem runSwitched_signals {env : Env} {n : Nat} {test : TestCase} {st : RunState} :
    (runSwitched env n test st).2.signals = signalsAfter (env.ctxFails n).isSome st.signals := by
  unfold runSwitched
  cases hf : env.ctxFails n with
  | some f => exact (emitLog_unseen env (signalOn st) (contextMessage (env.errnoTag n) f)).signals
  | none =>
    have hrun : (testCaseRunIntern env n test (signalOn st)).2.signals = (signalOn st).signals :=
      testCaseRunIntern_signals rfl
    simp only
    unfold runInContext
    cases hr : testCaseRunIntern env n test (signalOn st) with
    | mk sig st1 =>
      rw [hr] at hrun
      have hon : st1.signals = (signalOn st).signals := hrun
      cases sig with
      | none =>
        show (signalOff (freeStack env n st1)).signals = _
        have hfree : (freeStack env n st1).signals = st1.signals := rfl
        rw [signalOff, hfree, hon]
        rfl
      | some signo =>
        -- the handler is the runner's, so the signal comes back to `_signal_off`
        have hd : deliver env n test st1 signo = (true, signalHandler env n test st1 signo) := by
          have hdisp : st1.signals.disposition signo = .runner := by
            rw [hon]
            cases signo <;> rfl
          rw [deliver, hdisp]
        simp only [hd]
        have hfree : (freeStack env n (signalHandler env n test st1 signo)).signals =
            (signalHandler env n test st1 signo).signals := rfl
        rw [signalOff, hfree, signalHandler_signals, hon]
        rfl

/-- **What one test leaves of the dispositions.** -/
theorem single_signals {env : Env} {self : TestContext} {test : TestCase} {st : RunState}
    (hsig : self.sighandle = true) :
    (testCaseRunSingleTest env self test st).2.signals =
      signalsAfter (env.ctxFails st.executed.length).isSome st.signals := by
  have hswitched := @runSwitched_signals env st.executed.length test
    (testCaseRunStart env self st.executed.length test st)
  rw [testCaseRunStart_signals] at hswitched
  rw [testCaseRunSingleTest_eq]
  have hbranch : runBranch env self test st = runSwitched env st.executed.length test
      (testCaseRunStart env self st.executed.length test st) := by
    rw [runBranch, hsig]
    rfl
  rw [hbranch]
  split
  · rw [testCaseRunDone_signals, hswitched]
  · exact hswitched

/-! ## Sequences of tests -/

/-- The call of `_test_case_run_single_test`, for the state it leaves. -/
def runTest (env : Env) (self : TestContext) (st : RunState) (test : TestCase) : RunState :=
  (testCaseRunSingleTest env self test st).2

/-- The dispositions are what they were, and the runner's handler is neither one of them nor one
of those kept to be put back. -/
structure DispositionsKept (before after : SignalState) : Prop where
  same : ∀ sig, after.disposition sig = before.disposition sig
  outside : ∀ sig, after.disposition sig ≠ .runner
  saved : after.savedSegv ≠ .runner ∧ after.savedAbrt ≠ .runner

/-- The call comes back, and keeps the dispositions. -/
def SingleTestKept (env : Env) (self : TestContext) (st : RunState) (test : TestCase) : Prop :=
  ∃ r st', testCaseRunSingleTest env self test st = (some r, st') ∧
    DispositionsKept st.signals st'.signals

theorem signalsAfter_kept {s : SignalState} (hout : ∀ sig, s.disposition sig ≠ .runner) :
    DispositionsKept s (signalsAfter false s) := by
  refine ⟨fun sig => by cases sig <;> rfl, fun sig => ?_, hout .segv, hout .abrt⟩
  cases sig with
  | segv => exact hout .segv
  | abrt => exact hout .abrt

theorem runTest_spec {env : Env} {self : TestContext} {test : TestCase} {st : RunState}
    (hsig : self.sighandle = true) (hw : st.leak.Counted) :
    (∃ r, testCaseRunSingleTest env self test st = (some r, runTest env self st test)) ∧
      (runTest env self st test).executed.length = st.executed.length + 1 ∧
      (runTest env self st test).leak.Counted ∧
      (runTest env self st test).signals =
        signalsAfter (env.ctxFails st.executed.length).isSome st.signals := by
  have hlive : ¬ dies (env.outlived fun _ _ => armedNow self st) self st.executed.length test := by
    rintro ⟨hoff, _⟩
    rw [hsig] at hoff
    cases hoff
  have hnow : armedNow self st = false := by rw [armedNow, hsig]; rfl
  obtain ⟨st', hrun, hexec, _, _, hcount⟩ := single_finished (armedTest_const (.inl hnow)) hw hlive
  have hst : runTest env self st test = st' := by rw [runTest, hrun]
  refine ⟨⟨_, by rw [hst]; exact hrun⟩, ?_, hst ▸ hcount, single_signals hsig⟩
  rw [hst, hexec, List.length_append]
  rfl

theorem singleTestKept_iff {env : Env} {self : TestContext} {test : TestCase} {st : RunState}
    (hsig : self.sighandle = true) (hw : st.leak.Counted)
    (hout : ∀ sig, st.signals.disposition sig ≠ .runner) :
    SingleTestKept env self st test ↔ env.ctxFails st.executed.length = none := by
  obtain ⟨⟨r, hrun⟩, _, _, hsignals⟩ := @runTest_spec env self test st hsig hw
  constructor
  · rintro ⟨r', st', hrun', hkept⟩
    rw [hrun] at hrun'
    obtain ⟨-, rfl⟩ := Prod.mk.inj hrun'
    cases hf : env.ctxFails st.executed.length with
    | none => rfl
    | some f =>
      rw [hf] at hsignals
      have hleft := hkept.outside .segv
      rw [hsignals] at hleft
      exact absurd rfl hleft
  · intro hf
    rw [hf] at hsignals
    refine ⟨r, _, hrun, ?_⟩
    rw [hsignals]
    exact signalsAfter_kept hout

/-- **Every test of a sequence leaves the dispositions as they were exactly when** `getcontext` and
`swapcontext` succeed for each of them. -/
theorem dispositions_kept_iff {env : Env} {self : TestContext} {st : RunState}
    {tests : List TestCase} (hsig : self.sighandle = true) (hw : st.leak.Counted)
    (hout : ∀ sig, st.signals.disposition sig ≠ .runner) :
    GuardedRun.EveryStep (runTest env self) (SingleTestKept env self) st tests ↔
      ∀ i < tests.length, env.ctxFails (st.executed.length + i) = none := by
  induction tests generalizing st with
  | nil =>
    refine iff_of_true (GuardedRun.everyStep_nil _ _ _) fun i hi => ?_
    exact absurd hi (Nat.not_lt_zero i)
  | cons test tests ih =>
    obtain ⟨_, hexec, hcount, hsignals⟩ := @runTest_spec env self test st hsig hw
    rw [GuardedRun.everyStep_cons, singleTestKept_iff hsig hw hout, List.length_cons]
    -- the first context is the one of the state, the others are those of the state after it
    have hsplit : (∀ i < tests.length + 1, env.ctxFails (st.executed.length + i) = none) ↔
        env.ctxFails st.executed.length = none ∧
          ∀ i < tests.length, env.ctxFails ((runTest env self st test).executed.length + i) =
            none := by
      rw [hexec]
      constructor
      · intro h
        refine ⟨h 0 (Nat.succ_pos _), fun i hi => ?_⟩
        rw [Nat.add_assoc, Nat.add_comm 1 i]
        exact h (i + 1) (Nat.succ_lt_succ hi)
      · rintro ⟨h0, h⟩ i hi
        cases i with
        | zero => exact h0
        | succ i =>
          have hi' := h i (Nat.lt_of_succ_lt_succ hi)
          rwa [Nat.add_assoc, Nat.add_comm 1 i] at hi'
    rw [hsplit]
    refine and_congr_right fun hf => ih hcount fun sig => ?_
    rw [hsignals, hf]
    exact (signalsAfter_kept hout).outside sig

/-- **After a context that failed the runner's handler stays**, whatever the later tests do. -/
theorem runner_stays_installed {env : Env} {self : TestContext} {tests : List TestCase} :
    ∀ {st : RunState}, self.sighandle = true → st.leak.Counted →
      (∃ i < tests.length, (env.ctxFails (st.executed.length + i)).isSome) ∨
        (∀ sig, st.signals.disposition sig = .runner) →
      ∀ sig, (tests.foldl (runTest env self) st).signals.disposition sig = .runner := by
  induction tests with
  | nil =>
    intro st _ _ h
    rcases h with ⟨i, hi, _⟩ | h
    · exact absurd hi (Nat.not_lt_zero i)
    · exact h
  | cons test tests ih =>
    intro st hsig hw h
    obtain ⟨_, hexec, hcount, hsignals⟩ := @runTest_spec env self test st hsig hw
    refine ih hsig hcount ?_
    rcases h with ⟨i, hi, hfails⟩ | h
    · cases i with
      | zero =>
        rw [Nat.add_zero] at hfails
        right
        intro sig
        rw [hsignals, hfails]
        cases sig <;> rfl
      | succ i =>
        left
        refine ⟨i, Nat.lt_of_succ_lt_succ hi, ?_⟩
        rwa [hexec, Nat.add_assoc, Nat.add_comm 1 i]
    · right
      intro sig
      rw [hsignals, signalsAfter]
      have hsegv := h .segv
      have habrt := h .abrt
      cases sig <;> split <;> first | rfl | assumption

/-- `getcontext` fails for every test. -/
def contextFailing : Env := { Env.idle with ctxFails := fun _ => some .getcontext }

def lonelyTest : TestCase := ⟨5, ⟨4, "s".toList⟩, "t".toList, none, none, none, .data NULL, none⟩

theorem dispositions_kept_idle :
    GuardedRun.EveryStep (runTest Env.idle (testContextInit true false))
      (SingleTestKept Env.idle (testContextInit true false)) RunState.start
      [lonelyTest, lonelyTest] :=
  (@dispositions_kept_iff Env.idle (testContextInit true false) RunState.start
    [lonelyTest, lonelyTest] rfl rfl
    (fun sig => by cases sig <;> simp [RunState.start, SignalState.disposition])).mpr fun _ _ => rfl

/-- One test whose `getcontext` fails leaves the runner's handler installed. -/
theorem dispositions_left :
    ¬ ∀ (env : Env) (self : TestContext) (st : RunState) (tests : List TestCase),
      self.sighandle = true → st.leak.Counted →
        (∀ sig, st.signals.disposition sig ≠ .runner) →
          GuardedRun.EveryStep (runTest env self) (SingleTestKept env self) st tests := by
  intro h
  have hkept := h contextFailing (testContextInit true false) RunState.start [lonelyTest] rfl rfl
    (fun sig => by cases sig <;> simp [RunState.start, SignalState.disposition])
  obtain ⟨r, st', hrun, hk⟩ := hkept [] lonelyTest (List.prefix_refl _)
  have hst : st'.signals.disposition .segv = .runner := by
    have : (testCaseRunSingleTest contextFailing (testContextInit true false) lonelyTest
      RunState.start).2 = st' := congrArg Prod.snd hrun
    rw [← this]
    rfl
  exact hk.outside .segv hst

end Tinu
