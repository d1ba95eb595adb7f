import Tinu.Runner

/-!
# What running one test does

The functions of a test come down to the assertions evaluated before the first signal, and that
signal (`assertsIn`, `signalIn`).  A test that is called directly goes past one SIGSEGV where
`_tinu_signal_handler` is in place: it is one of the world `Env.outlived`.

* `runSteps_ran`, `runChain_ran` — the steps of one call, and the calls of a test;
* `single_finished` — a test that does not end the process gets the verdict `verdictOf`, and adds
  one `testBlock` to the event stream;
* `single_killed` — without signal handling, a signal ends the process inside the block.
-/

set_option autoImplicit false

namespace Tinu

/-! ## Behaviours -/

/-- The assertions evaluated before the first signal. -/
def assertsIn : List Step → List Assertion
  | [] => []
  | .assert a :: steps => a :: assertsIn steps
  | .alloc _ :: steps => assertsIn steps
  | .raise _ :: _ => []

/-- The first signal. -/
def signalIn : List Step → Option Signal
  | [] => none
  | .assert _ :: steps => signalIn steps
  | .alloc _ :: steps => signalIn steps
  | .raise sig :: _ => some sig

/-- The calls made of those planned: all up to the first that raises a signal. -/
def callsMade (env : Env) (n : Nat) : List UserCall → List UserCall
  | [] => []
  | call :: calls =>
    call :: if (signalIn (env.exec n call)).isSome then [] else callsMade env n calls

def stepsOf (env : Env) (n : Nat) (calls : List UserCall) : List Step := calls.flatMap (env.exec n)

/-- Everything a test would do. -/
def testSteps (env : Env) (n : Nat) (test : TestCase) : List Step :=
  stepsOf env n (chainCalls env n test)

def Assertion.event (a : Assertion) : HookEvent := .assert a.condition a.file a.func a.line

theorem signalIn_append : ∀ steps steps' : List Step,
    signalIn (steps ++ steps') = (signalIn steps).or (signalIn steps')
  | [], _ => rfl
  | .assert _ :: steps, steps' => signalIn_append steps steps'
  | .alloc _ :: steps, steps' => signalIn_append steps steps'
  | .raise _ :: _, _ => rfl

theorem assertsIn_append : ∀ steps steps' : List Step,
    assertsIn (steps ++ steps') =
      assertsIn steps ++ if (signalIn steps).isSome then [] else assertsIn steps'
  | [], _ => rfl
  | .assert a :: steps, steps' => congrArg (a :: ·) (assertsIn_append steps steps')
  | .alloc _ :: steps, steps' => assertsIn_append steps steps'
  | .raise _ :: _, _ => rfl

/-- What steps come to where `_tinu_signal_handler` is in place: it returns from a SIGSEGV, once. -/
def pastSegv : List Step → List Step
  | [] => []
  | .assert a :: steps => .assert a :: pastSegv steps
  | .alloc c :: steps => .alloc c :: pastSegv steps
  | .raise .segv :: steps => steps
  | .raise .abrt :: steps => .raise .abrt :: steps

def outlived (armed : Bool) (steps : List Step) : List Step :=
  if armed then pastSegv steps else steps

theorem pastSegv_of_none : ∀ {steps : List Step}, signalIn steps = none → pastSegv steps = steps
  | [], _ => rfl
  | .assert a :: _, h => congrArg (Step.assert a :: ·) (pastSegv_of_none h)
  | .alloc c :: _, h => congrArg (Step.alloc c :: ·) (pastSegv_of_none h)
  | .raise _ :: _, h => nomatch h

theorem outlived_of_none {armed : Bool} {steps : List Step} (h : signalIn steps = none) :
    outlived armed steps = steps := by
  cases armed with
  | false => rfl
  | true => exact pastSegv_of_none h

theorem pastSegv_of_abrt :
    ∀ {steps : List Step}, signalIn steps = some .abrt → pastSegv steps = steps
  | [], h => nomatch h
  | .assert a :: _, h => congrArg (Step.assert a :: ·) (pastSegv_of_abrt h)
  | .alloc c :: _, h => congrArg (Step.alloc c :: ·) (pastSegv_of_abrt h)
  | .raise .abrt :: _, _ => rfl

/-- The world for tests that find `_tinu_signal_handler` in place where `armed` says so. -/
def Env.outlived (env : Env) (armed : Nat → Phase → Bool) : Env :=
  { env with exec := fun n call => Tinu.outlived (armed n call.phase) (env.exec n call) }

@[simp] theorem chainCalls_outlived (env : Env) (armed : Nat → Phase → Bool) (n : Nat)
    (test : TestCase) : chainCalls (env.outlived armed) n test = chainCalls env n test := rfl

/-- The verdict that its own behaviour earns a test. -/
def earnedVerdict (env : Env) (n : Nat) (test : TestCase) : TestCaseResult :=
  match signalIn (testSteps env n test) with
  | some sig => sig.result
  | none =>
    if (assertsIn (testSteps env n test)).all (·.condition) then .passed else .failed

/-! ## What is left alone -/

/-- The two states differ at most in the log and in what the watches saw. -/
structure Unseen (a b : RunState) : Prop where
  result : b.result = a.result
  signals : b.signals = a.signals
  executed : b.executed = a.executed
  calls : b.calls = a.calls
  events : b.events = a.events
  watches : SameWatches a.leak b.leak

theorem Unseen.refl (a : RunState) : Unseen a a :=
  ⟨rfl, rfl, rfl, rfl, rfl, SameWatches.refl _⟩

theorem Unseen.trans {a b c : RunState} (h : Unseen a b) (h' : Unseen b c) : Unseen a c :=
  ⟨h'.result.trans h.result, h'.signals.trans h.signals, h'.executed.trans h.executed,
    h'.calls.trans h.calls, h'.events.trans h.events, h.watches.trans h'.watches⟩

theorem allocs_unseen (st : RunState) (cs : List AllocCall) : Unseen st (st.allocs cs) :=
  ⟨rfl, rfl, rfl, rfl, rfl, foldl_alloc_same cs st.leak⟩

theorem emitLog_unseen (env : Env) (st : RunState) (m : LogEntry) : Unseen st (emitLog env st m) :=
  ⟨rfl, rfl, rfl, rfl, rfl, foldl_alloc_same _ st.leak⟩

theorem foldl_emitLog_unseen (env : Env) (ms : List LogEntry) (st : RunState) :
    Unseen st (ms.foldl (emitLog env) st) := by
  induction ms generalizing st with
  | nil => exact Unseen.refl st
  | cons m ms ih => exact (emitLog_unseen env st m).trans (ih _)

/-- Between the two states functions of the caller were called, and hooks were run; `failed` is
whether an assertion failed. -/
structure Ran (calls : List UserCall) (events : List HookEvent) (failed : Bool) (a b : RunState) :
    Prop where
  calls : b.calls = a.calls ++ calls
  events : b.events = a.events ++ events
  result : b.result = if failed then .failed else a.result
  executed : b.executed = a.executed
  watches : SameWatches a.leak b.leak

theorem Unseen.ran {a b : RunState} (h : Unseen a b) : Ran [] [] false a b :=
  ⟨by rw [h.calls, List.append_nil], by rw [h.events, List.append_nil], h.result, h.executed,
    h.watches⟩

theorem Ran.trans {calls calls' : List UserCall} {events events' : List HookEvent}
    {failed failed' : Bool} {a b c : RunState} (h : Ran calls events failed a b)
    (h' : Ran calls' events' failed' b c) :
    Ran (calls ++ calls') (events ++ events') (failed || failed') a c := by
  refine ⟨?_, ?_, ?_, h'.executed.trans h.executed, h.watches.trans h'.watches⟩
  · rw [h'.calls, h.calls, List.append_assoc]
  · rw [h'.events, h.events, List.append_assoc]
  · rw [h'.result, h.result]
    cases failed <;> cases failed' <;> rfl

theorem runHooks_ran (env : Env) (st : RunState) (e : HookEvent) :
    Ran [] [e] false st (runHooks env st e) :=
  ⟨(List.append_nil _).symm, rfl, rfl, rfl, foldl_alloc_same _ st.leak⟩

/-! ## The functions of a test -/

theorem tinuTestAssert_ran (env : Env) (st : RunState) (a : Assertion) :
    Ran [] [a.event] (!a.condition) st (tinuTestAssert env st a) := by
  have hset : ∀ st' : RunState,
      Ran [] [] (!a.condition) st'
        (if ¬ a.condition then { st' with result := .failed } else st') := by
    intro st'
    cases a.condition with
    | true => exact (Unseen.refl st').ran
    | false =>
      exact ⟨(List.append_nil _).symm, (List.append_nil _).symm, rfl, rfl, SameWatches.refl _⟩
  have := ((runHooks_ran env st a.event).trans (hset _)).trans
    (emitLog_unseen env _ (.testAssert a)).ran
  rw [Bool.false_or, Bool.or_false] at this
  exact this

/-- `_tinu_signal_handler` is in place for SIGSEGV. -/
def RunState.armed (st : RunState) : Bool := st.signals.segv = .main

theorem tinuTestAssert_signals (env : Env) (st : RunState) (a : Assertion) :
    (tinuTestAssert env st a).signals = st.signals := by
  cases hc : a.condition <;> simp [tinuTestAssert, hc] <;> rfl

theorem tinuSignalHandler_ran (env : Env) (st : RunState) :
    Ran [] [] false st (tinuSignalHandler env st) :=
  have h := (emitLog_unseen env st
    (.wrap LOG_ERR "Segmentation fault" [env.traceTag st.log])).ran
  ⟨h.calls, h.events, h.result, h.executed, h.watches⟩

/-- The steps of a call end at its first signal that no handler returns from. -/
theorem runSteps_ran (env : Env) :
    ∀ (steps : List Step) (st : RunState),
      (runSteps env steps st).1 = signalIn (outlived st.armed steps) ∧
        Ran [] ((assertsIn (outlived st.armed steps)).map Assertion.event)
          ((assertsIn (outlived st.armed steps)).any fun a => !a.condition) st
          (runSteps env steps st).2
  | [], st => by
    have hnil : outlived st.armed [] = [] := outlived_of_none rfl
    rw [hnil]
    exact ⟨rfl, (Unseen.refl st).ran⟩
  | .assert a :: steps, st => by
    obtain ⟨hsig, hran⟩ := runSteps_ran env steps (tinuTestAssert env st a)
    have harmed : (tinuTestAssert env st a).armed = st.armed := by
      rw [RunState.armed, tinuTestAssert_signals, RunState.armed]
    have hcons : outlived st.armed (.assert a :: steps) = .assert a :: outlived st.armed steps := by
      cases st.armed <;> rfl
    rw [harmed] at hsig hran
    rw [hcons]
    exact ⟨hsig, (tinuTestAssert_ran env st a).trans hran⟩
  | .alloc c :: steps, st => by
    obtain ⟨hsig, hran⟩ := runSteps_ran env steps (st.allocs [c])
    have hcons : outlived st.armed (.alloc c :: steps) = .alloc c :: outlived st.armed steps := by
      cases st.armed <;> rfl
    rw [hcons]
    exact ⟨hsig, (allocs_unseen st [c]).ran.trans hran⟩
  | .raise .segv :: steps, st => by
    by_cases hmain : st.signals.segv = .main
    · -- the handler has gone, so that the steps after it end at any signal
      obtain ⟨hsig, hran⟩ := runSteps_ran env steps (tinuSignalHandler env st)
      have hcons : outlived st.armed (.raise .segv :: steps) = steps := by
        simp [RunState.armed, hmain, outlived, pastSegv]
      have hgone : outlived (tinuSignalHandler env st).armed steps = steps := rfl
      rw [hgone] at hsig hran
      rw [hcons, runSteps, if_pos hmain]
      exact ⟨hsig, (tinuSignalHandler_ran env st).trans hran⟩
    · have hcons : outlived st.armed (.raise .segv :: steps) = .raise .segv :: steps := by
        simp [RunState.armed, hmain, outlived]
      rw [hcons, runSteps, if_neg hmain]
      exact ⟨rfl, (Unseen.refl st).ran⟩
  | .raise .abrt :: steps, st => by
    have hcons : outlived st.armed (.raise .abrt :: steps) = .raise .abrt :: steps := by
      cases st.armed <;> rfl
    rw [hcons]
    exact ⟨rfl, (Unseen.refl st).ran⟩

/-- Only a SIGSEGV that the handler returned from changes the dispositions. -/
theorem runSteps_signals (env : Env) :
    ∀ (steps : List Step) (st : RunState),
      (runSteps env steps st).2.signals =
        if st.armed = true ∧ signalIn steps = some .segv then
          { st.signals with segv := .other SIG_DFL }
        else st.signals
  | [], st => by simp [runSteps, signalIn]
  | .assert a :: steps, st => by
    rw [runSteps, runSteps_signals env steps, RunState.armed, tinuTestAssert_signals]
    rfl
  | .alloc c :: steps, st => runSteps_signals env steps (st.allocs [c])
  | .raise .segv :: steps, st => by
    by_cases hmain : st.signals.segv = .main
    · have hgone : ¬ ((tinuSignalHandler env st).armed = true ∧ signalIn steps = some .segv) :=
        fun h => nomatch h.1
      rw [runSteps, if_pos hmain, runSteps_signals env steps, if_neg hgone, if_pos]
      · rfl
      · exact ⟨by simp [RunState.armed, hmain], rfl⟩
    · have harmed : ¬ (st.armed = true ∧ signalIn (.raise .segv :: steps) = some .segv) :=
        fun h => hmain (of_decide_eq_true h.1)
      rw [runSteps, if_neg hmain, if_neg harmed]
  | .raise .abrt :: steps, st => by simp [runSteps, signalIn]

/-- After steps that ran to their end the handler is in place if none of them raised a signal. -/
theorem runSteps_armed {env : Env} {steps : List Step} {st : RunState}
    (h : (runSteps env steps st).1 = none) :
    (runSteps env steps st).2.armed = (st.armed && (signalIn steps).isNone) := by
  rw [(runSteps_ran env steps st).1] at h
  rw [RunState.armed, runSteps_signals]
  cases ha : st.armed with
  | false =>
    rw [if_neg fun h => nomatch h.1]
    exact ha
  | true =>
    rw [ha] at h
    cases hs : signalIn steps with
    | none =>
      rw [if_neg fun h => nomatch h.2]
      exact ha
    | some sig =>
      cases sig with
      | segv => simp
      | abrt =>
        have habrt : outlived true steps = steps := pastSegv_of_abrt hs
        rw [habrt, hs] at h
        cases h

/-- `armed` says where the handler is in place while calls are made: from the first on if `now`, up
to the first signal. -/
def ArmedOver (env : Env) (armed : Phase → Bool) (n : Nat) : Bool → List UserCall → Prop
  | _, [] => True
  | now, call :: calls =>
    armed call.phase = now ∧
      ArmedOver env armed n (now && (signalIn (env.exec n call)).isNone) calls

/-- The functions of a test are called up to the first that raises a signal. -/
theorem runChain_ran {env : Env} {armed : Nat → Phase → Bool} {n : Nat} :
    ∀ {calls : List UserCall} {st : RunState}, ArmedOver env (armed n) n st.armed calls →
      (runChain env n calls st).1 = signalIn (stepsOf (env.outlived armed) n calls) ∧
        Ran (callsMade (env.outlived armed) n calls)
          ((assertsIn (stepsOf (env.outlived armed) n calls)).map Assertion.event)
          ((assertsIn (stepsOf (env.outlived armed) n calls)).any fun a => !a.condition) st
          (runChain env n calls st).2
  | [], st, _ => ⟨rfl, (Unseen.refl st).ran⟩
  | call :: calls, st, h => by
    have hcall : Ran [call] [] false st { st with calls := st.calls ++ [call] } :=
      ⟨rfl, (List.append_nil _).symm, rfl, rfl, SameWatches.refl _⟩
    obtain ⟨hsig, hran⟩ :=
      runSteps_ran env (env.exec n call) { st with calls := st.calls ++ [call] }
    have hnow : outlived (RunState.armed { st with calls := st.calls ++ [call] }) (env.exec n call) =
        (env.outlived armed).exec n call := by
      show outlived st.armed _ = outlived (armed n call.phase) _
      rw [h.1]
    rw [hnow] at hsig hran
    have hfirst := hcall.trans hran
    have hsteps : stepsOf (env.outlived armed) n (call :: calls) =
        (env.outlived armed).exec n call ++ stepsOf (env.outlived armed) n calls := rfl
    rw [hsteps, signalIn_append, assertsIn_append, runChain, callsMade]
    cases hr : runSteps env (env.exec n call) { st with calls := st.calls ++ [call] } with
    | mk sig st1 =>
      rw [hr] at hsig hfirst
      cases sig with
      | some sig =>
        have hs : signalIn ((env.outlived armed).exec n call) = some sig := hsig.symm
        simp only [hs, Option.isSome_some, if_true, List.append_nil, Option.some_or, true_and]
        simpa using hfirst
      | none =>
        have hs : signalIn ((env.outlived armed).exec n call) = none := hsig.symm
        have harmed : st1.armed = (st.armed && (signalIn (env.exec n call)).isNone) := by
          have := @runSteps_armed env (env.exec n call) { st with calls := st.calls ++ [call] }
            (congrArg Prod.fst hr)
          rw [hr] at this
          exact this
        obtain ⟨hsig', hran'⟩ := @runChain_ran env armed n calls st1 (by rw [harmed]; exact h.2)
        simp only [hs, Option.isSome_none, Bool.false_eq_true, if_false, Option.none_or]
        refine ⟨hsig', ?_⟩
        have := hfirst.trans hran'
        simpa using this

/-- A handler that is not in place stays so. -/
theorem runChain_signals {env : Env} {n : Nat} :
    ∀ {calls : List UserCall} {st : RunState}, st.armed = false →
      (runChain env n calls st).2.signals = st.signals
  | [], _, _ => rfl
  | call :: calls, st, h => by
    have hsteps := runSteps_signals env (env.exec n call) { st with calls := st.calls ++ [call] }
    have hoff : ¬ (RunState.armed { st with calls := st.calls ++ [call] } = true ∧
        signalIn (env.exec n call) = some .segv) := by
      rintro ⟨hon, -⟩
      exact Bool.noConfusion (h.symm.trans hon)
    rw [if_neg hoff] at hsteps
    rw [runChain]
    cases hr : runSteps env (env.exec n call) { st with calls := st.calls ++ [call] } with
    | mk sig st1 =>
      rw [hr] at hsteps
      cases sig with
      | some sig => exact hsteps
      | none =>
        have harmed : st1.armed = false := by
          rw [RunState.armed, show st1.signals = st.signals from hsteps]
          exact h
        exact (runChain_signals harmed).trans hsteps

theorem runChain_armed {env : Env} {n : Nat} :
    ∀ {calls : List UserCall} {st : RunState}, (runChain env n calls st).1 = none →
      (runChain env n calls st).2.armed = (st.armed && (signalIn (stepsOf env n calls)).isNone)
  | [], st, _ => by simp [runChain, stepsOf, signalIn]
  | call :: calls, st, h => by
    have hsteps : stepsOf env n (call :: calls) = env.exec n call ++ stepsOf env n calls := rfl
    rw [runChain] at h ⊢
    rw [hsteps, signalIn_append]
    cases hr : runSteps env (env.exec n call) { st with calls := st.calls ++ [call] } with
    | mk sig st1 =>
      rw [hr] at h
      cases sig with
      | some sig => cases h
      | none =>
        have harmed := @runSteps_armed env (env.exec n call) { st with calls := st.calls ++ [call] }
          (congrArg Prod.fst hr)
        rw [hr] at harmed
        have hrest := @runChain_armed env n calls st1 h
        have hfirst : st1.armed = (st.armed && (signalIn (env.exec n call)).isNone) := harmed
        simp only
        rw [hrest, hfirst, Bool.and_assoc]
        cases signalIn (env.exec n call) <;> rfl

/-- The events inside the switched context: `BEFORE_TEST`, assertions, and a signal if there was
one that the runner handled. -/
def bodyEvents (env : Env) (n : Nat) (test : TestCase) (handled : Bool) : List HookEvent :=
  .beforeTest test :: (assertsIn (testSteps env n test)).map Assertion.event ++
    if handled then ((signalIn (testSteps env n test)).map Signal.event).toList else []

theorem testCaseRunIntern_ran {env : Env} {armed : Nat → Phase → Bool} {n : Nat} {test : TestCase}
    {st : RunState} (harm : ArmedOver env (armed n) n st.armed (chainCalls env n test))
    (hst : st.result = .none) :
    (testCaseRunIntern env n test st).1 = signalIn (testSteps (env.outlived armed) n test) ∧
      (testCaseRunIntern env n test st).2.calls =
        st.calls ++ callsMade (env.outlived armed) n (chainCalls env n test) ∧
      (testCaseRunIntern env n test st).2.events =
        st.events ++ bodyEvents (env.outlived armed) n test false ∧
      (testCaseRunIntern env n test st).2.executed = st.executed ∧
      SameWatches st.leak (testCaseRunIntern env n test st).2.leak ∧
      (signalIn (testSteps (env.outlived armed) n test) = none →
        (testCaseRunIntern env n test st).2.result = earnedVerdict (env.outlived armed) n test) := by
  obtain ⟨hsig, hran⟩ := @runChain_ran env armed n (chainCalls env n test)
    (runHooks env st (.beforeTest test)) harm
  have hall := (runHooks_ran env st (.beforeTest test)).trans hran
  have hsteps : testSteps (env.outlived armed) n test =
      stepsOf (env.outlived armed) n (chainCalls env n test) := rfl
  rw [testCaseRunIntern]
  cases hr : runChain env n (chainCalls env n test) (runHooks env st (.beforeTest test)) with
  | mk sig st1 =>
    rw [hr] at hsig hall
    cases sig with
    | some sig =>
      have hs : signalIn (testSteps (env.outlived armed) n test) = some sig := hsig.symm
      refine ⟨hsig, by simpa using hall.calls, by simpa [bodyEvents, hsteps] using hall.events,
        hall.executed, hall.watches, fun h => ?_⟩
      rw [hs] at h
      cases h
    | none =>
      have hs : signalIn (testSteps (env.outlived armed) n test) = none := hsig.symm
      have hunseen : ∀ st' : RunState, (if st1.result = .none then { st1 with result := .passed }
          else st1) = st' → st'.calls = st1.calls ∧ st'.events = st1.events ∧
            st'.executed = st1.executed ∧ SameWatches st1.leak st'.leak := by
        intro st' h
        subst h
        split <;> exact ⟨rfl, rfl, rfl, SameWatches.refl _⟩
      obtain ⟨hc, he, hx, hw⟩ := hunseen _ rfl
      refine ⟨hsig, ?_, ?_, hx.trans hall.executed, hall.watches.trans hw, fun _ => ?_⟩
      · rw [hc]
        simpa using hall.calls
      · rw [he]
        simpa [bodyEvents, hsteps] using hall.events
      · have hres := hall.result
        simp only [Bool.false_or, hst] at hres
        simp only [earnedVerdict, hs, List.all_eq_not_any_not]
        rw [hsteps]
        cases hany : (assertsIn (stepsOf (env.outlived armed) n (chainCalls env n test))).any
            fun a => !a.condition with
        | true =>
          rw [hany] at hres
          simp [hres]
        | false =>
          rw [hany] at hres
          simp [hres]

/-- A verdict that is set does not touch the dispositions. -/
theorem testCaseRunIntern_fst_signals (env : Env) (n : Nat) (test : TestCase) (st : RunState) :
    (testCaseRunIntern env n test st).1 =
        (runChain env n (chainCalls env n test) (runHooks env st (.beforeTest test))).1 ∧
      (testCaseRunIntern env n test st).2.signals =
        (runChain env n (chainCalls env n test) (runHooks env st (.beforeTest test))).2.signals := by
  rw [testCaseRunIntern]
  cases hr : runChain env n (chainCalls env n test) (runHooks env st (.beforeTest test)) with
  | mk sig st1 =>
    cases sig with
    | some sig => exact ⟨rfl, rfl⟩
    | none =>
      refine ⟨rfl, ?_⟩
      show (if st1.result = .none then { st1 with result := .passed } else st1).signals = st1.signals
      split <;> rfl

theorem testCaseRunIntern_signals {env : Env} {n : Nat} {test : TestCase} {st : RunState}
    (h : st.armed = false) : (testCaseRunIntern env n test st).2.signals = st.signals :=
  (testCaseRunIntern_fst_signals env n test st).2.trans (runChain_signals h)

theorem testCaseRunIntern_armed {env : Env} {n : Nat} {test : TestCase} {st : RunState}
    (h : (testCaseRunIntern env n test st).1 = none) :
    (testCaseRunIntern env n test st).2.armed =
      (st.armed && (signalIn (testSteps env n test)).isNone) := by
  obtain ⟨hfst, hsignals⟩ := testCaseRunIntern_fst_signals env n test st
  rw [RunState.armed, hsignals]
  exact runChain_armed (hfst.symm.trans h)

/-! ## The runner around it -/

/-- The context of the `n`-th test cannot be switched to. -/
def ctxFailed (env : Env) (self : TestContext) (n : Nat) : Bool :=
  self.sighandle && (env.ctxFails n).isSome

/-- The verdict of the `n`-th test. -/
def verdictOf (env : Env) (self : TestContext) (n : Nat) (test : TestCase) : TestCaseResult :=
  if ctxFailed env self n then .internal else earnedVerdict env n test

/-- The calls that the `n`-th test makes. -/
def callsOf (env : Env) (self : TestContext) (n : Nat) (test : TestCase) : List UserCall :=
  if ctxFailed env self n then [] else callsMade env n (chainCalls env n test)

/-- The process ends in the `n`-th test: a signal comes that the runner does not handle. -/
def dies (env : Env) (self : TestContext) (n : Nat) (test : TestCase) : Prop :=
  self.sighandle = false ∧ (signalIn (testSteps env n test)).isSome

/-- The events of a test that does not end the process. -/
def testBlock (env : Env) (self : TestContext) (n : Nat) (test : TestCase) (bytes : Nat) :
    List HookEvent :=
  (if ctxFailed env self n then [] else bodyEvents env n test true) ++
    (if self.leakwatch then [.leakInfo test bytes] else []) ++
    [.afterTest test (verdictOf env self n test)]

theorem earnedVerdict_ne_none (env : Env) (n : Nat) (test : TestCase) :
    earnedVerdict env n test ≠ .none := by
  unfold earnedVerdict
  split
  · rename_i sig _
    cases sig <;> decide
  · split <;> decide

theorem verdictOf_ne_none (env : Env) (self : TestContext) (n : Nat) (test : TestCase) :
    verdictOf env self n test ≠ .none := by
  unfold verdictOf
  split
  · decide
  · exact earnedVerdict_ne_none env n test

/-- At `test_case_run_done`, relative to the state at the `if (self->m_sighandle)`. -/
structure AtDone (env : Env) (c : TestContext) (n : Nat) (test : TestCase) (a b : RunState) :
    Prop where
  result : b.result = verdictOf env c n test
  calls : b.calls = a.calls ++ callsOf env c n test
  events : b.events = a.events ++ if ctxFailed env c n then [] else bodyEvents env n test true
  executed : b.executed = a.executed
  watches : SameWatches a.leak b.leak

@[simp] theorem signalOff_result (st : RunState) : (signalOff st).result = st.result := rfl

@[simp] theorem signalOff_calls (st : RunState) : (signalOff st).calls = st.calls := rfl

@[simp] theorem signalOff_events (st : RunState) : (signalOff st).events = st.events := rfl

@[simp] theorem freeStack_result (env : Env) (n : Nat) (st : RunState) :
    (freeStack env n st).result = st.result := rfl

@[simp] theorem freeStack_calls (env : Env) (n : Nat) (st : RunState) :
    (freeStack env n st).calls = st.calls := rfl

@[simp] theorem freeStack_events (env : Env) (n : Nat) (st : RunState) :
    (freeStack env n st).events = st.events := rfl

theorem signalHandler_spec (env : Env) (n : Nat) (test : TestCase) (st : RunState)
    (signo : Signal) :
    (signalHandler env n test st signo).calls = st.calls ∧
      (signalHandler env n test st signo).events = st.events ++ [signo.event] ∧
      (signalHandler env n test st signo).result = signo.result ∧
      (signalHandler env n test st signo).executed = st.executed ∧
      SameWatches st.leak (signalHandler env n test st signo).leak := by
  have h := (emitLog_unseen env st (signalMessage test signo)).trans
    (foldl_emitLog_unseen env (env.handlerTrace n) _)
  have hr := h.ran.trans (runHooks_ran env _ signo.event)
  exact ⟨hr.calls.trans (List.append_nil _), hr.events, rfl, hr.executed, hr.watches⟩

/-- **A test in a context of its own gets to its end**, whatever it does. -/
theorem runInContext_atDone {env : Env} {armed : Nat → Phase → Bool} {self : TestContext} {n : Nat}
    {test : TestCase} {st : RunState}
    (harm : ArmedOver env (armed n) n st.armed (chainCalls env n test))
    (hfail : ctxFailed env self n = false) (hst : st.result = .none)
    (hon : ∀ sig, st.signals.disposition sig = .runner) :
    (runInContext env n test st).1 = true ∧
      AtDone (env.outlived armed) self n test st (runInContext env n test st).2 := by
  obtain ⟨hs, hc, he, hx, hw, hv⟩ := testCaseRunIntern_ran harm hst
  have hoff : st.armed = false := by
    have hsegv : st.signals.segv = .runner := hon .segv
    simp [RunState.armed, hsegv]
  have hsg := @testCaseRunIntern_signals env n test st hoff
  have hfail : ctxFailed (env.outlived armed) self n = false := hfail
  unfold runInContext
  cases hr : testCaseRunIntern env n test st with
  | mk sig st1 =>
    rw [hr] at hs hc he hsg hx hw hv
    cases sig with
    | none =>
      have hnone : signalIn (testSteps (env.outlived armed) n test) = none := hs.symm
      refine ⟨rfl, ?_, ?_, ?_, hx, hw.trans (foldl_alloc_same _ _)⟩
      · simpa [verdictOf, hfail] using hv hnone
      · simpa [callsOf, hfail] using hc
      · simpa [bodyEvents, hfail, hnone] using he
    | some sig =>
      have hsome : signalIn (testSteps (env.outlived armed) n test) = some sig := hs.symm
      have hd : deliver env n test st1 sig = (true, signalHandler env n test st1 sig) := by
        have hrun : st1.signals.disposition sig = .runner := by
          rw [show st1.signals = st.signals from hsg]
          exact hon sig
        rw [deliver, hrun]
      obtain ⟨hc', he', hv', hx', hw'⟩ := signalHandler_spec env n test st1 sig
      simp only [hd]
      refine ⟨trivial, ?_, ?_, ?_, hx'.trans hx, hw.trans (hw'.trans (foldl_alloc_same _ _))⟩
      · simpa [verdictOf, hfail, earnedVerdict, hsome] using hv'
      · simpa [callsOf, hfail] using hc'.trans hc
      · rw [show st1.events = _ from he] at he'
        simpa [bodyEvents, hfail, hsome] using he'

/-- **With signal handling every test gets to its end.** -/
theorem runSwitched_atDone {env : Env} {armed : Nat → Phase → Bool} {self : TestContext} {n : Nat}
    {test : TestCase} {st : RunState}
    (harm : ArmedOver env (armed n) n false (chainCalls env n test))
    (hsig : self.sighandle = true) (hst : st.result = .none) :
    (runSwitched env n test st).1 = true ∧
      AtDone (env.outlived armed) self n test st (runSwitched env n test st).2 := by
  unfold runSwitched
  cases hf : env.ctxFails n with
  | some f =>
    have hfail : ctxFailed (env.outlived armed) self n = true := by
      simp [ctxFailed, Env.outlived, hsig, hf]
    have hu := emitLog_unseen env (signalOn st) (contextMessage (env.errnoTag n) f)
    refine ⟨rfl, ?_, ?_, ?_, hu.executed, hu.watches⟩
    · simp [verdictOf, hfail]
    · rw [callsOf, hfail, if_pos rfl, List.append_nil]
      exact hu.calls
    · rw [hfail, if_pos rfl, List.append_nil]
      exact hu.events
  | none =>
    have hfail : ctxFailed env self n = false := by simp [ctxFailed, hf]
    have harm : ArmedOver env (armed n) n (signalOn st).armed (chainCalls env n test) := harm
    obtain ⟨hlive, h⟩ := runInContext_atDone harm hfail hst fun sig => by cases sig <;> rfl
    exact ⟨hlive, h.result, h.calls, h.events, h.executed, h.watches⟩

theorem runDirect_atDone {env : Env} {armed : Nat → Phase → Bool} {self : TestContext} {n : Nat}
    {test : TestCase} {st : RunState}
    (harm : ArmedOver env (armed n) n st.armed (chainCalls env n test))
    (hsig : self.sighandle = false) (hst : st.result = .none)
    (hlive : signalIn (testSteps (env.outlived armed) n test) = none) :
    (runDirect env n test st).1 = true ∧
      AtDone (env.outlived armed) self n test st (runDirect env n test st).2 := by
  have hfail : ctxFailed (env.outlived armed) self n = false := by simp [ctxFailed, hsig]
  obtain ⟨hs, hc, he, hx, hw, hv⟩ := testCaseRunIntern_ran harm hst
  unfold runDirect
  cases hr : testCaseRunIntern env n test st with
  | mk sig st1 =>
    rw [hr] at hs hc he hx hw hv
    rw [hlive] at hs
    obtain rfl : sig = none := hs
    refine ⟨rfl, ?_, ?_, ?_, hx, hw⟩
    · simpa [verdictOf, hfail] using hv hlive
    · simpa [callsOf, hfail] using hc
    · simpa [bodyEvents, hfail, hlive] using he

/-- Without signal handling a signal ends the process; the handler may be left from before. -/
theorem runDirect_killed {env : Env} {armed : Nat → Phase → Bool} {n : Nat} {test : TestCase}
    {st : RunState} (harm : ArmedOver env (armed n) n st.armed (chainCalls env n test))
    (hst : st.result = .none)
    (hdead : (signalIn (testSteps (env.outlived armed) n test)).isSome) :
    (runDirect env n test st).1 = false ∧
      (runDirect env n test st).2.calls =
        st.calls ++ callsMade (env.outlived armed) n (chainCalls env n test) ∧
      (∃ handled, (runDirect env n test st).2.events =
        st.events ++ bodyEvents (env.outlived armed) n test handled) ∧
      (runDirect env n test st).2.executed = st.executed := by
  obtain ⟨hs, hc, he, hx, hw, hv⟩ := testCaseRunIntern_ran harm hst
  unfold runDirect
  cases hr : testCaseRunIntern env n test st with
  | mk sig st1 =>
    rw [hr] at hs hc he hx
    obtain ⟨sig, hsome⟩ := Option.isSome_iff_exists.mp hdead
    rw [hsome] at hs
    subst hs
    by_cases hd : st1.signals.disposition sig = .runner
    · obtain ⟨hc', he', _, hx', _⟩ := signalHandler_spec env n test st1 sig
      rw [he] at he'
      simp only [deliver, hd]
      exact ⟨trivial, hc'.trans hc, ⟨true, by simpa [bodyEvents, hsome] using he'⟩, hx'.trans hx⟩
    · have hdeliver : deliver env n test st1 sig = (false, st1) := by
        cases hh : st1.signals.disposition sig with
        | runner => exact absurd hh hd
        | main => simp only [deliver, hh]
        | other handler => simp only [deliver, hh]
      simp only [hdeliver]
      exact ⟨trivial, hc, ⟨false, he⟩, hx⟩

/-- The dispositions after a test that was called directly and came to its end. -/
theorem runDirect_armed {env : Env} {n : Nat} {test : TestCase} {st : RunState}
    (h : (runDirect env n test st).1 = true) :
    (runDirect env n test st).2.armed =
      (st.armed && (signalIn (testSteps env n test)).isNone) := by
  unfold runDirect at h ⊢
  cases hr : testCaseRunIntern env n test st with
  | mk sig st1 =>
    rw [hr] at h
    cases sig with
    | some sig => cases h
    | none =>
      have := @testCaseRunIntern_armed env n test st (congrArg Prod.fst hr)
      rw [hr] at this
      exact this

/-! ## One test from start to end -/

/-- The runner's own watch is the newest one. -/
structure WatchedBy (env : Env) (n : Nat) (ws : List Leakwatch) (leak : LeakwatchState) : Prop where
  init : leak.init = true
  list : leak.list = ⟨env.watchAddr n, env.tableAddr n⟩ :: ws
  count : leak.count = ws.length + 1

theorem WatchedBy.same {env : Env} {n : Nat} {ws : List Leakwatch} {a b : LeakwatchState}
    (h : WatchedBy env n ws a) (hs : SameWatches a b) : WatchedBy env n ws b :=
  ⟨hs.init.trans h.init, hs.list.trans h.list, hs.count.trans h.count⟩

theorem dumpLeaks_unseen (env : Env) (table : MemoryTable) (st : RunState) :
    Unseen st (dumpLeaks env table st) := by
  unfold dumpLeaks
  split
  · exact foldl_emitLog_unseen env _ st
  · exact Unseen.refl st

/-- **The leak report** fires `LEAKINFO` with the bytes in the table of the watch. -/
theorem reportLeaks_spec {env : Env} {n : Nat} {test : TestCase} {st : RunState}
    {ws : List Leakwatch} (h : WatchedBy env n ws st.leak) :
    ∃ st', reportLeaks env n test st = some st' ∧ st'.result = st.result ∧
      st'.calls = st.calls ∧ st'.executed = st.executed ∧
      st'.events = st.events ++
        [.leakInfo test (tinuLeakwatchSummary (st.leak.tables (env.tableAddr n)))] ∧
      st'.leak.Counted := by
  obtain ⟨leak, hun, hlist, hcount, htables⟩ :=
    tinuUnregisterWatch_newest h.init h.list h.count
  have hran := (runHooks_ran env { st with leak := leak }
    (.leakInfo test (tinuLeakwatchSummary (leak.tables (env.tableAddr n))))).trans
    (dumpLeaks_unseen env (leak.tables (env.tableAddr n)) _).ran
  unfold reportLeaks
  rw [hun]
  refine ⟨_, rfl, hran.result, hran.calls.trans (List.append_nil _), hran.executed, ?_, ?_⟩
  · rw [← htables]
    exact hran.events
  · exact hran.watches.counted hcount

/-- The bytes that the watch reports: those in its table once the verdict is logged. -/
def reportedBytes (env : Env) (n : Nat) (test : TestCase) (st : RunState) : Nat :=
  match verdictMessage test st.result with
  | some m => tinuLeakwatchSummary ((emitLog env st m).leak.tables (env.tableAddr n))
  | none => 0

/-- From `test_case_run_done` on. -/
theorem testCaseRunDone_spec {env : Env} {self : TestContext} {n : Nat} {test : TestCase}
    {st : RunState} {ws : List Leakwatch} (hres : st.result ≠ .none)
    (hleak : if self.leakwatch then WatchedBy env n ws st.leak else st.leak.Counted) :
    ∃ st', testCaseRunDone env self n test st = (some st.result, st') ∧
      st'.calls = st.calls ∧ st'.executed = st.executed ∧
      st'.events = st.events ++
        (if self.leakwatch then [.leakInfo test (reportedBytes env n test st)] else []) ++
        [.afterTest test st.result] ∧
      st'.leak.Counted := by
  obtain ⟨m, hm⟩ : ∃ m, verdictMessage test st.result = some m := by
    cases hr : st.result with
    | none => exact absurd hr hres
    | _ => exact ⟨_, rfl⟩
  have hbytes : reportedBytes env n test st =
      tinuLeakwatchSummary ((emitLog env st m).leak.tables (env.tableAddr n)) := by
    rw [reportedBytes, hm]
  have hlog := emitLog_unseen env st m
  have hafter : ∀ st1 : RunState, st1.leak.Counted →
      (runHooks env st1 (.afterTest test st1.result)).leak.Counted := by
    intro st1 h1
    exact (runHooks_ran env st1 (.afterTest test st1.result)).watches.counted h1
  unfold testCaseRunDone
  rw [hm]
  cases hl : self.leakwatch with
  | true =>
    rw [hl, if_pos rfl] at hleak
    obtain ⟨st1, hrep, hr1, hc1, hx1, he1, hk1⟩ := @reportLeaks_spec env n test _ _
      (hleak.same hlog.watches)
    refine ⟨runHooks env st1 (.afterTest test st1.result), ?_, ?_, ?_, ?_, hafter st1 hk1⟩
    · have : some st1.result = some st.result := by rw [hr1, hlog.result]
      simp only [if_true, hrep]
      exact Prod.ext this rfl
    · exact hc1.trans hlog.calls
    · exact hx1.trans hlog.executed
    · rw [if_pos rfl]
      show st1.events ++ [.afterTest test st1.result] = _
      rw [he1, hr1, hlog.events, hlog.result, hbytes]
  | false =>
    rw [hl] at hleak
    simp only [Bool.false_eq_true, if_false] at hleak
    have hk : (emitLog env st m).leak.Counted := hlog.watches.counted hleak
    refine ⟨runHooks env (emitLog env st m) (.afterTest test (emitLog env st m).result), ?_,
      hlog.calls, hlog.executed, ?_, hafter _ hk⟩
    · simp only [Bool.false_eq_true, if_false]
      exact Prod.ext (congrArg some hlog.result) rfl
    · simp only [Bool.false_eq_true, if_false, List.append_nil]
      show (emitLog env st m).events ++ [.afterTest test (emitLog env st m).result] = _
      rw [hlog.events, hlog.result]

theorem reportLeaks_signals {env : Env} {n : Nat} {test : TestCase} {st st' : RunState}
    (h : reportLeaks env n test st = some st') : st'.signals = st.signals := by
  unfold reportLeaks at h
  cases hun : tinuUnregisterWatch st.leak (env.watchAddr n) with
  | none =>
    rw [hun] at h
    cases h
  | some out =>
    obtain ⟨found, leak, msgs⟩ := out
    rw [hun] at h
    obtain rfl := Option.some.inj h
    have hmsgs := foldl_emitLog_unseen env msgs { st with leak := leak }
    exact (dumpLeaks_unseen env _ _).signals.trans hmsgs.signals

theorem testCaseRunDone_signals (env : Env) (self : TestContext) (n : Nat) (test : TestCase)
    (st : RunState) : (testCaseRunDone env self n test st).2.signals = st.signals := by
  unfold testCaseRunDone
  cases verdictMessage test st.result with
  | none => rfl
  | some m =>
    have hlog := (emitLog_unseen env st m).signals
    cases hl : self.leakwatch with
    | false => exact hlog
    | true =>
      simp only [if_true]
      cases hrep : reportLeaks env n test (emitLog env st m) with
      | none => exact hlog
      | some st1 => exact (reportLeaks_signals hrep).trans hlog

/-- Up to the `if (self->m_sighandle)`: the watch is on if it is wanted. -/
theorem testCaseRunStart_spec {env : Env} {self : TestContext} {n : Nat} {test : TestCase}
    {st : RunState} (hw : st.leak.Counted) :
    (testCaseRunStart env self n test st).result = .none ∧
      (testCaseRunStart env self n test st).calls = st.calls ∧
      (testCaseRunStart env self n test st).events = st.events ∧
      (testCaseRunStart env self n test st).executed = st.executed ++ [test] ∧
      if self.leakwatch then
        WatchedBy env n st.leak.list (testCaseRunStart env self n test st).leak
      else (testCaseRunStart env self n test st).leak.Counted := by
  unfold testCaseRunStart
  cases hl : self.leakwatch with
  | true =>
    obtain ⟨hlist, hcount, hinit⟩ :=
      tinuLeakwatchSimple_fields st.leak (env.watchAddr n) (env.tableAddr n)
    refine ⟨rfl, rfl, rfl, rfl, ?_⟩
    rw [if_pos rfl]
    have hwatched : WatchedBy env n st.leak.list
        (tinuLeakwatchSimple st.leak (env.watchAddr n) (env.tableAddr n)) :=
      ⟨hinit, hlist, by rw [hcount, hw]⟩
    exact hwatched.same (foldl_alloc_same _ _)
  | false =>
    refine ⟨rfl, rfl, rfl, rfl, ?_⟩
    simp only [Bool.false_eq_true, if_false]
    exact (foldl_alloc_same [.malloc env.stackSize (env.stackAddr n)] st.leak).counted hw

/-- The two branches of `_test_case_run_single_test`: whether the process lives, and the state
after. -/
def runBranch (env : Env) (self : TestContext) (test : TestCase) (st : RunState) :
    Bool × RunState :=
  let n := st.executed.length
  let st := testCaseRunStart env self n test st
  if self.sighandle then runSwitched env n test st else runDirect env n test st

theorem testCaseRunSingleTest_eq (env : Env) (self : TestContext) (test : TestCase)
    (st : RunState) :
    testCaseRunSingleTest env self test st =
      if (runBranch env self test st).1 then
        testCaseRunDone env self st.executed.length test (runBranch env self test st).2
      else (none, (runBranch env self test st).2) := by
  simp only [testCaseRunSingleTest, runBranch]
  split
  next st1 h => simp only [h, Bool.false_eq_true, if_false]
  next st1 h => simp only [h, if_true]

/-- `_tinu_signal_handler` is in place for a test: only a test that is called directly can meet
it. -/
def armedNow (self : TestContext) (st : RunState) : Bool := !self.sighandle && st.armed

/-- The world as a test goes through it. -/
def ArmedTest (env : Env) (armed : Nat → Phase → Bool) (self : TestContext) (test : TestCase)
    (st : RunState) : Prop :=
  ArmedOver env (armed st.executed.length) st.executed.length (armedNow self st)
    (chainCalls env st.executed.length test)

theorem armedOver_const {env : Env} {n : Nat} {now : Bool} :
    ∀ {calls : List UserCall}, now = false ∨ signalIn (stepsOf env n calls) = none →
      ArmedOver env (fun _ => now) n now calls
  | [], _ => trivial
  | call :: calls, h => by
    have hsteps : stepsOf env n (call :: calls) = env.exec n call ++ stepsOf env n calls := rfl
    rw [hsteps, signalIn_append, Option.or_eq_none_iff] at h
    have hstay : (now && (signalIn (env.exec n call)).isNone) = now := by
      rcases h with rfl | ⟨hnone, -⟩
      · rfl
      · rw [hnone, Option.isNone_none, Bool.and_true]
    refine ⟨rfl, ?_⟩
    rw [hstay]
    exact armedOver_const (h.imp_right And.right)

/-- A handler that is not in place, or that is not called, makes one answer for the whole test. -/
theorem armedTest_const {env : Env} {self : TestContext} {test : TestCase} {st : RunState}
    (h : armedNow self st = false ∨ signalIn (testSteps env st.executed.length test) = none) :
    ArmedTest env (fun _ _ => armedNow self st) self test st :=
  armedOver_const h

/-- A test without a signal takes its steps as they are. -/
theorem testSteps_outlived_of_none {env : Env} {armed : Nat → Phase → Bool} {n : Nat}
    {test : TestCase} (h : signalIn (testSteps env n test) = none) :
    testSteps (env.outlived armed) n test = testSteps env n test := by
  have hall : ∀ calls : List UserCall, signalIn (stepsOf env n calls) = none →
      stepsOf (env.outlived armed) n calls = stepsOf env n calls := by
    intro calls
    induction calls with
    | nil => exact fun _ => rfl
    | cons call calls ih =>
      intro h
      have hsteps : ∀ env : Env, stepsOf env n (call :: calls) =
          env.exec n call ++ stepsOf env n calls := fun _ => rfl
      rw [hsteps, signalIn_append, Option.or_eq_none_iff] at h
      have hcall : (env.outlived armed).exec n call = env.exec n call := outlived_of_none h.1
      rw [hsteps, hsteps, hcall, ih h.2]
  exact hall _ h

theorem testCaseRunStart_signals (env : Env) (self : TestContext) (n : Nat) (test : TestCase)
    (st : RunState) : (testCaseRunStart env self n test st).signals = st.signals := by
  unfold testCaseRunStart
  cases self.leakwatch <;> rfl

theorem testCaseRunStart_armed (env : Env) (self : TestContext) (n : Nat) (test : TestCase)
    (st : RunState) : (testCaseRunStart env self n test st).armed = st.armed := by
  rw [RunState.armed, testCaseRunStart_signals, RunState.armed]

/-- A test that does not end the process gets to `test_case_run_done`. -/
theorem runBranch_atDone {env : Env} {armed : Nat → Phase → Bool} {self : TestContext}
    {test : TestCase} {st : RunState} (harm : ArmedTest env armed self test st)
    (hw : st.leak.Counted) (hlive : ¬ dies (env.outlived armed) self st.executed.length test) :
    (runBranch env self test st).1 = true ∧
      AtDone (env.outlived armed) self st.executed.length test
        (testCaseRunStart env self st.executed.length test st) (runBranch env self test st).2 := by
  have hres := (@testCaseRunStart_spec env self st.executed.length test st hw).1
  unfold ArmedTest armedNow at harm
  unfold runBranch
  cases hsig : self.sighandle with
  | true =>
    rw [hsig] at harm
    exact runSwitched_atDone harm hsig hres
  | false =>
    have hnone : signalIn (testSteps (env.outlived armed) st.executed.length test) = none := by
      cases hs : signalIn (testSteps (env.outlived armed) st.executed.length test) with
      | none => rfl
      | some sig => exact absurd ⟨hsig, by rw [hs]; rfl⟩ hlive
    rw [hsig, Bool.not_false, Bool.true_and, ← testCaseRunStart_armed env self
      st.executed.length test] at harm
    exact runDirect_atDone harm hsig hres hnone

/-- **A test that does not end the process** gets its verdict, and its events are one block. -/
theorem single_finished {env : Env} {armed : Nat → Phase → Bool} {self : TestContext}
    {test : TestCase} {st : RunState} (harm : ArmedTest env armed self test st)
    (hw : st.leak.Counted) (hlive : ¬ dies (env.outlived armed) self st.executed.length test) :
    ∃ st', testCaseRunSingleTest env self test st =
        (some (verdictOf (env.outlived armed) self st.executed.length test), st') ∧
      st'.executed = st.executed ++ [test] ∧
      st'.calls = st.calls ++ callsOf (env.outlived armed) self st.executed.length test ∧
      st'.events = st.events ++ testBlock (env.outlived armed) self st.executed.length test
        (reportedBytes env st.executed.length test (runBranch env self test st).2) ∧
      st'.leak.Counted := by
  obtain ⟨_, hcalls, hevents, hexec, hleak⟩ := @testCaseRunStart_spec env self
    st.executed.length test st hw
  obtain ⟨hl, hd⟩ := runBranch_atDone harm hw hlive
  have hleak1 : if self.leakwatch then
      WatchedBy env st.executed.length st.leak.list (runBranch env self test st).2.leak
      else (runBranch env self test st).2.leak.Counted := by
    split
    · rename_i hon
      rw [if_pos hon] at hleak
      exact hleak.same hd.watches
    · rename_i hoff
      rw [if_neg hoff] at hleak
      exact hd.watches.counted hleak
  obtain ⟨st2, hfin, hc2, hx2, he2, hk2⟩ := @testCaseRunDone_spec env self st.executed.length test
    _ _ (by rw [hd.result]; exact verdictOf_ne_none _ _ _ _) hleak1
  refine ⟨st2, ?_, ?_, ?_, ?_, hk2⟩
  · rw [testCaseRunSingleTest_eq, if_pos hl, hfin, hd.result]
  · rw [hx2, hd.executed, hexec]
  · rw [hc2, hd.calls, hcalls]
  · rw [he2, hd.events, hd.result, hevents, testBlock]
    simp only [List.append_assoc]

/-- **A test that ends the process** does so inside its block. -/
theorem single_killed {env : Env} {armed : Nat → Phase → Bool} {self : TestContext}
    {test : TestCase} {st : RunState} (harm : ArmedTest env armed self test st)
    (hw : st.leak.Counted) (hdead : dies (env.outlived armed) self st.executed.length test) :
    ∃ st' handled, testCaseRunSingleTest env self test st = (none, st') ∧
      st'.executed = st.executed ++ [test] ∧
      st'.calls = st.calls ++ callsOf (env.outlived armed) self st.executed.length test ∧
      st'.events =
        st.events ++ bodyEvents (env.outlived armed) st.executed.length test handled := by
  obtain ⟨hres, hcalls, hevents, hexec, _⟩ := @testCaseRunStart_spec env self
    st.executed.length test st hw
  obtain ⟨hsig, hsome⟩ := hdead
  unfold ArmedTest armedNow at harm
  rw [hsig, Bool.not_false, Bool.true_and, ← testCaseRunStart_armed env self
    st.executed.length test] at harm
  obtain ⟨hl, hc, ⟨handled, he⟩, hx⟩ := runDirect_killed harm hres hsome
  refine ⟨(runDirect env st.executed.length test
    (testCaseRunStart env self st.executed.length test st)).2, handled, ?_, ?_, ?_, ?_⟩
  · have hrun : runDirect env st.executed.length test
        (testCaseRunStart env self st.executed.length test st) = (false, _) := Prod.ext hl rfl
    unfold testCaseRunSingleTest
    simp only [hsig, Bool.false_eq_true, if_false]
    rw [hrun]
  · rw [hx, hexec]
  · rw [hc, hcalls]
    simp [callsOf, ctxFailed, hsig]
  · rw [he, hevents]

/-- After a test that came to its end the handler is in place if the test raised no signal. -/
theorem single_armed {env : Env} {self : TestContext} {test : TestCase} {st : RunState}
    {r : TestCaseResult} {st' : RunState}
    (h : testCaseRunSingleTest env self test st = (some r, st')) :
    armedNow self st' = (armedNow self st &&
      (signalIn (testSteps env st.executed.length test)).isNone) := by
  unfold armedNow
  cases hsig : self.sighandle with
  | true => rfl
  | false =>
    rw [testCaseRunSingleTest_eq] at h
    have hbranch : runBranch env self test st = runDirect env st.executed.length test
        (testCaseRunStart env self st.executed.length test st) := by
      rw [runBranch, hsig]
      rfl
    cases hl : (runBranch env self test st).1 with
    | false =>
      rw [hl] at h
      cases h
    | true =>
      rw [hl, if_pos rfl] at h
      have hdone := testCaseRunDone_signals env self st.executed.length test
        (runBranch env self test st).2
      rw [h, hbranch] at hdone
      rw [hbranch] at hl
      have harmed := runDirect_armed hl
      rw [testCaseRunStart_armed] at harmed
      rw [Bool.not_false, Bool.true_and, Bool.true_and, ← harmed, RunState.armed, hdone]
      rfl

end Tinu
