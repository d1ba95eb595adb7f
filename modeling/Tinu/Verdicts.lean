import Tinu.RunnerRuns

/-!
# Verdicts

`all_run_verdicts` — with signal handling, `tinu_test_all_run` executes every registered test once
and in order, gives each the verdict that its own behaviour earns, and returns whether all passed.
-/

set_option autoImplicit false

namespace Tinu

variable {env : Env} {c : TestContext}

/-- The tests that ended, with their verdicts, in the order of the `AFTER_TEST` events. -/
def afterTests (evs : List HookEvent) : List (TestCase × TestCaseResult) :=
  evs.filterMap fun e => match e with
    | .afterTest test result => some (test, result)
    | _ => none

/-- What the setup of a test returns. -/
def TestCase.context (test : TestCase) (env : Env) (n : Nat) : Ptr :=
  match test.target .setup with
  | some target => env.setupReturn n ⟨.setup, target, NULL⟩
  | none => NULL

/-- The setup of a test, and with the context that it returns the body and the cleanup, as far as it
has them. -/
def TestCase.wantedCalls (test : TestCase) (env : Env) (n : Nat) : List UserCall :=
  [Phase.setup, .body, .cleanup].filterMap fun phase => (test.target phase).map fun target =>
    ⟨phase, target, if phase = .setup then NULL else test.context env n⟩

theorem chainCalls_eq (env : Env) (n : Nat) (test : TestCase) :
    chainCalls env n test = test.wantedCalls env n := by
  cases hs : test.target .setup <;> cases hb : test.target .body <;>
    cases hc : test.target .cleanup <;>
    simp [chainCalls, TestCase.call, TestCase.wantedCalls, TestCase.context, hs, hb, hc]

/-- `made` is what is called of `chain`: all of it if no call raises a signal, and else up to the
call that does. -/
def ChainMade (env : Env) (n : Nat) (chain made : List UserCall) : Prop :=
  (signalIn (stepsOf env n chain) = none ∧ made = chain) ∨
    ∃ pre call rest, chain = pre ++ call :: rest ∧ signalIn (stepsOf env n pre) = none ∧
      (signalIn (env.exec n call)).isSome ∧ made = pre ++ [call]

theorem callsMade_spec (env : Env) (n : Nat) :
    ∀ chain : List UserCall, ChainMade env n chain (callsMade env n chain)
  | [] => Or.inl ⟨rfl, rfl⟩
  | call :: chain => by
    have hsteps : stepsOf env n (call :: chain) = env.exec n call ++ stepsOf env n chain := rfl
    cases hs : signalIn (env.exec n call) with
    | some sig =>
      refine Or.inr ⟨[], call, chain, rfl, rfl, by rw [hs]; rfl, ?_⟩
      simp [callsMade, hs]
    | none =>
      rcases callsMade_spec env n chain with ⟨hnone, hmade⟩ | ⟨pre, call', rest, hc, hpre, hr, hmade⟩
      · refine Or.inl ⟨?_, ?_⟩
        · rw [hsteps, signalIn_append, hs, hnone]
          rfl
        · simp [callsMade, hs, hmade]
      · refine Or.inr ⟨call :: pre, call', rest, by rw [hc]; rfl, ?_, hr, ?_⟩
        · have : stepsOf env n (call :: pre) = env.exec n call ++ stepsOf env n pre := rfl
          rw [this, signalIn_append, hs, hpre]
          rfl
        · simp [callsMade, hs, hmade]

theorem afterTests_append (evs evs' : List HookEvent) :
    afterTests (evs ++ evs') = afterTests evs ++ afterTests evs' := List.filterMap_append

theorem afterTests_bodyEvents (n : Nat) (t : TestCase) (handled : Bool) :
    afterTests (bodyEvents env n t handled) = [] := by
  have hasserts : ∀ as : List Assertion, afterTests (as.map Assertion.event) = [] := by
    intro as
    simp [afterTests, List.filterMap_map, Function.comp_def, Assertion.event]
  have hsig : ∀ sig : Signal, afterTests [sig.event] = [] := by
    intro sig
    cases sig <;> rfl
  unfold bodyEvents
  show afterTests ([.beforeTest t] ++ _ ++ _) = []
  rw [afterTests_append, afterTests_append, hasserts]
  split
  · cases signalIn (testSteps env n t) with
    | none => rfl
    | some sig => exact hsig sig
  · rfl

theorem afterTests_testBlock (n : Nat) (t : TestCase) (bytes : Nat) :
    afterTests (testBlock env c n t bytes) = [(t, verdictOf env c n t)] := by
  have hleak : afterTests (if c.leakwatch then [.leakInfo t bytes] else []) = [] := by
    split <;> rfl
  unfold testBlock
  rw [afterTests_append, afterTests_append, hleak]
  split
  · rfl
  · rw [afterTests_bodyEvents]
    rfl

theorem TestBlocks.afterTests_eq {n : Nat} {ts : List TestCase} {evs : List HookEvent}
    (h : TestBlocks env c n ts evs) :
    afterTests evs = overTests (fun n t => (t, verdictOf env c n t)) n ts := by
  induction h with
  | nil n => rfl
  | cons bytes _ _ ih =>
    rw [afterTests_append, afterTests_testBlock, ih]
    rfl

theorem SuiteBlocks.afterTests_eq {n : Nat} {sel : Selection} {evs : List HookEvent}
    (h : SuiteBlocks env c n sel evs) :
    afterTests evs = overTests (fun n t => (t, verdictOf env c n t)) n (Selection.tests sel) := by
  induction h with
  | nil n => rfl
  | @cons n s ts sel evs evs' hb _ ih =>
    have hlen : Selection.tests ((s, ts) :: sel) = ts ++ Selection.tests sel := rfl
    rw [hlen, overTests_append, ← ih, ← hb.afterTests_eq, afterTests_append, afterTests_append]
    simp [afterTests]

/-- The results of the suites are all `TRUE` exactly when all tests passed. -/
theorem suiteResults_all :
    ∀ (n : Nat) (sel : Selection),
      (suiteResults env c n sel).all id = allPassed env c n (Selection.tests sel)
  | _, [] => rfl
  | n, (s, ts) :: sel => by
    have hlen : Selection.tests ((s, ts) :: sel) = ts ++ Selection.tests sel := rfl
    rw [hlen, allPassed, verdicts, overTests_append, List.all_append, suiteResults, List.all_cons,
      suiteResults_all (n + ts.length) sel]
    rfl

theorem overTests_congr {β : Type} {f g : Nat → TestCase → β} (h : ∀ n t, f n t = g n t) (n : Nat)
    (ts : List TestCase) : overTests f n ts = overTests g n ts := by
  have : f = g := funext fun n => funext fun t => h n t
  rw [this]

theorem overTests_map {β γ : Type} (g : β → γ) (f : Nat → TestCase → β) :
    ∀ (n : Nat) (ts : List TestCase),
      (overTests f n ts).map g = overTests (fun n t => g (f n t)) n ts
  | _, [] => rfl
  | n, t :: ts => congrArg (g (f n t) :: ·) (overTests_map g f (n + 1) ts)

/-- With signal handling no test ends the process. -/
theorem SuitesCut.sighandle {n : Nat} {sel : Selection} {ran : List TestCase}
    {evs : List HookEvent} (h : SuitesCut env c n sel ran evs) : c.sighandle = false := by
  have htests : ∀ {n ts ran evs}, TestsCut env c n ts ran evs → c.sighandle = false := by
    intro n ts ran evs h
    induction h with
    | here _ h => exact h.1
    | later _ _ _ ih => exact ih
  induction h with
  | here h => exact htests h
  | later _ _ ih => exact ih

/-- **Every registered test is executed once, in order, and gets the verdict it earned.** -/
theorem all_run_verdicts {st : RunState} (hsig : c.sighandle = true)
    (hctx : ∀ n, env.ctxFails n = none) (hw : st.leak.Counted) :
    ∃ res st' evs, tinuTestAllRun env c st = (some res, st') ∧
      st'.executed = st.executed ++ c.suites.flatMap TestSuite.tests ∧
      st'.events = st.events ++ evs ∧
      afterTests evs = overTests (fun n t => (t, earnedVerdict env n t)) st.executed.length
        (c.suites.flatMap TestSuite.tests) ∧
      (∃ made : Nat → TestCase → List UserCall,
        (∀ n t, ChainMade env n (t.wantedCalls env n) (made n t)) ∧
        st'.calls = st.calls ++ (overTests made st.executed.length
          (c.suites.flatMap TestSuite.tests)).flatten) ∧
      (res = true ↔ ∀ v ∈ afterTests evs, v.2 = .passed) := by
  have hnofail : ∀ n, ctxFailed env c n = false := fun n => by simp [ctxFailed, hctx n]
  have hverdict : ∀ n t, verdictOf env c n t = earnedVerdict env n t := fun n t => by
    simp [verdictOf, hnofail n]
  have hcalls : ∀ n t, callsOf env c n t = callsMade env n (t.wantedCalls env n) := fun n t => by
    rw [callsOf, hnofail n, if_neg Bool.false_ne_true, chainCalls_eq]
  have hseen : env.seen c st (selectedTests c .all) = env := seen_of_sighandle hsig _
  have htests : Selection.tests (c.suites.map fun s => (s, s.tests)) =
      c.suites.flatMap TestSuite.tests := by
    simp [Selection.tests, List.flatMap_map]
  rcases @runOp_spec env c st hw .all with ⟨st', evs, hrun, hk, hb, hm⟩ | ⟨st', ran, evs, _, hb, _⟩
  · rw [hseen] at hrun hb hm
    have hafter := hb.afterTests_eq
    rw [overTests_congr (fun n t => congrArg (Prod.mk t) (hverdict n t))] at hafter
    simp only [selectedTests, opSelection, Option.getD_some, htests] at hafter hm
    refine ⟨_, st', evs, hrun, hm.executed, hm.events, hafter,
      ⟨_, fun n t => callsMade_spec env n (t.wantedCalls env n), ?_⟩, ?_⟩
    · rw [hm.calls, overTests_congr hcalls]
    · have hres : opResult env c st.executed.length .all =
          allPassed env c st.executed.length (c.suites.flatMap TestSuite.tests) := by
        rw [← htests, ← suiteResults_all]
        rfl
      have hmap : verdicts env c st.executed.length (c.suites.flatMap TestSuite.tests) =
          (afterTests evs).map Prod.snd := by
        rw [hafter, verdicts, overTests_congr hverdict, overTests_map]
      rw [hres, allPassed, hmap, List.all_map]
      simp
  · exact absurd hb.sighandle (by rw [hsig]; decide)

/-- A suite of two tests, each with a body only. -/
def pairContext (sighandle leakwatch : Bool) : TestContext :=
  ⟨[⟨1, "s", [⟨2, ⟨1, "s"⟩, "a", none, none, some (.user 1), .data NULL, none⟩,
    ⟨3, ⟨1, "s"⟩, "b", none, none, some (.user 2), .data NULL, none⟩]⟩], sighandle, leakwatch, 4⟩

/-- The first test fails an assertion and then aborts, the others do nothing. -/
def abortingEnv : Env :=
  { Env.idle with
    exec := fun n _ => if n = 0 then [.assert ⟨false, "", "", "", "", 1, []⟩, .raise .abrt] else [] }

theorem all_run_verdicts_aborting :
    ∃ res st' evs, tinuTestAllRun abortingEnv (pairContext true true) RunState.start =
        (some res, st') ∧
      st'.executed = [] ++ (pairContext true true).suites.flatMap TestSuite.tests ∧
      st'.events = [] ++ evs ∧
      afterTests evs = overTests (fun n t => (t, earnedVerdict abortingEnv n t)) 0
        ((pairContext true true).suites.flatMap TestSuite.tests) ∧
      (∃ made : Nat → TestCase → List UserCall,
        (∀ n t, ChainMade abortingEnv n (t.wantedCalls abortingEnv n) (made n t)) ∧
        st'.calls = [] ++ (overTests made 0
          ((pairContext true true).suites.flatMap TestSuite.tests)).flatten) ∧
      (res = true ↔ ∀ v ∈ afterTests evs, v.2 = .passed) :=
  @all_run_verdicts abortingEnv (pairContext true true) RunState.start rfl (fun _ => rfl) rfl

example :
    (afterTests (tinuTestAllRun abortingEnv (pairContext true false) RunState.start).2.events).map
      Prod.snd = [.abort, .passed] := by decide

end Tinu
