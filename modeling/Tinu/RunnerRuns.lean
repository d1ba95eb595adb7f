import Tinu.RunnerSpec

/-!
# What running suites does

A selection is a list of suites, each with the tests of it that are run.  Every call that runs
tests runs a selection (`runOp_eq`).

* `runSelection_spec` — if no test ends the process, the tests of the selection are executed in
  order, and the event stream is `SuiteBlocks`; otherwise it is cut short in the block of the test
  that ended it (`SuitesCut`);
* `runOps_spec` — the same for sequences of calls.

All this is in the world as the tests see it (`Env.seen`), which is the world itself unless tests
are called directly with `_tinu_signal_handler` in place.
-/

set_option autoImplicit false

namespace Tinu

/-- Suites, each with the tests of it to run. -/
abbrev Selection := List (TestSuite × List TestCase)

/-- The tests of a selection, in order. -/
def Selection.tests (sel : Selection) : List TestCase := sel.flatMap Prod.snd

/-- `f` of each test, the first of which is the `n`-th test run. -/
def overTests {β : Type} (f : Nat → TestCase → β) : Nat → List TestCase → List β
  | _, [] => []
  | n, t :: ts => f n t :: overTests f (n + 1) ts

theorem overTests_append {β : Type} (f : Nat → TestCase → β) :
    ∀ (n : Nat) (ts ts' : List TestCase),
      overTests f n (ts ++ ts') = overTests f n ts ++ overTests f (n + ts.length) ts'
  | n, [], ts' => rfl
  | n, t :: ts, ts' => by
    rw [List.cons_append, overTests, overTests_append f (n + 1) ts ts', overTests, List.length_cons,
      show n + 1 + ts.length = n + (ts.length + 1) by omega]
    rfl

/-- The verdicts of tests run one after the other. -/
def verdicts (env : Env) (c : TestContext) (n : Nat) (ts : List TestCase) : List TestCaseResult :=
  overTests (verdictOf env c) n ts

def allPassed (env : Env) (c : TestContext) (n : Nat) (ts : List TestCase) : Bool :=
  (verdicts env c n ts).all fun v => v == .passed

/-- The events of tests run one after the other. -/
inductive TestBlocks (env : Env) (c : TestContext) : Nat → List TestCase → List HookEvent → Prop
  | nil (n : Nat) : TestBlocks env c n [] []
  | cons {n : Nat} {t : TestCase} {ts : List TestCase} {evs : List HookEvent} (bytes : Nat)
      (lives : ¬ dies env c n t) (h : TestBlocks env c (n + 1) ts evs) :
      TestBlocks env c n (t :: ts) (testBlock env c n t bytes ++ evs)

/-- The events of the suites of a selection. -/
inductive SuiteBlocks (env : Env) (c : TestContext) : Nat → Selection → List HookEvent → Prop
  | nil (n : Nat) : SuiteBlocks env c n [] []
  | cons {n : Nat} {s : TestSuite} {ts : List TestCase} {sel : Selection}
      {evs evs' : List HookEvent} (h : TestBlocks env c n ts evs)
      (h' : SuiteBlocks env c (n + ts.length) sel evs') :
      SuiteBlocks env c n ((s, ts) :: sel)
        (.beforeSuite s :: evs ++ [.afterSuite s (allPassed env c n ts)] ++ evs')

/-- The tests that ran, and the events, when one of the tests ends the process. -/
inductive TestsCut (env : Env) (c : TestContext) :
    Nat → List TestCase → List TestCase → List HookEvent → Prop
  | here {n : Nat} {t : TestCase} {ts : List TestCase} (handled : Bool) (h : dies env c n t) :
      TestsCut env c n (t :: ts) [t] (bodyEvents env n t handled)
  | later {n : Nat} {t : TestCase} {ts ran : List TestCase} {evs : List HookEvent} (bytes : Nat)
      (lives : ¬ dies env c n t) (h : TestsCut env c (n + 1) ts ran evs) :
      TestsCut env c n (t :: ts) (t :: ran) (testBlock env c n t bytes ++ evs)

/-- The same for a selection. -/
inductive SuitesCut (env : Env) (c : TestContext) :
    Nat → Selection → List TestCase → List HookEvent → Prop
  | here {n : Nat} {s : TestSuite} {ts ran : List TestCase} {sel : Selection}
      {evs : List HookEvent} (h : TestsCut env c n ts ran evs) :
      SuitesCut env c n ((s, ts) :: sel) ran (.beforeSuite s :: evs)
  | later {n : Nat} {s : TestSuite} {ts ran : List TestCase} {sel : Selection}
      {evs evs' : List HookEvent} (h : TestBlocks env c n ts evs)
      (h' : SuitesCut env c (n + ts.length) sel ran evs') :
      SuitesCut env c n ((s, ts) :: sel) (ts ++ ran)
        (.beforeSuite s :: evs ++ [.afterSuite s (allPassed env c n ts)] ++ evs')

/-- Between the two states the tests `ts` were run, with the events `evs`. -/
structure Made (env : Env) (c : TestContext) (ts : List TestCase) (evs : List HookEvent)
    (a b : RunState) : Prop where
  executed : b.executed = a.executed ++ ts
  calls : b.calls = a.calls ++ (overTests (callsOf env c) a.executed.length ts).flatten
  events : b.events = a.events ++ evs

/-! ## The handler of `main.c` -/

/-- `armed` says where the handler is in place while tests are run: from the start if `now`, up to
the first signal. -/
def ArmedTests (env : Env) (armed : Nat → Phase → Bool) : Bool → Nat → List TestCase → Prop
  | _, _, [] => True
  | now, n, t :: ts =>
    ArmedOver env (armed n) n now (chainCalls env n t) ∧
      ArmedTests env armed (now && (signalIn (testSteps env n t)).isNone) (n + 1) ts

/-- Whether it is in place after tests, the first of which is the `n`-th test run. -/
def armedAfter (env : Env) (now : Bool) (n : Nat) (ts : List TestCase) : Bool :=
  now && (overTests (testSteps env) n ts).all fun steps => (signalIn steps).isNone

/-- Whether it is in place when the function of a phase of the `m`-th test is called: it was before
the tests, and no signal was raised since. -/
def armedAt (env : Env) : Bool → Nat → List TestCase → Nat → Phase → Bool
  | _, _, [], _, _ => false
  | now, n, t :: ts, m, phase =>
    if m = n then
      now && (signalIn (stepsOf env n
        ((chainCalls env n t).takeWhile fun call => call.phase ≠ phase))).isNone
    else armedAt env (now && (signalIn (testSteps env n t)).isNone) (n + 1) ts m phase

/-- The world as tests see it that are run from a state: where they are called directly, the first
signal is none to them if it is a SIGSEGV that `_tinu_signal_handler` returns from. -/
def Env.seen (env : Env) (c : TestContext) (st : RunState) (ts : List TestCase) : Env :=
  env.outlived (armedAt env (armedNow c st) st.executed.length ts)

theorem armedOver_congr {env : Env} {armed armed' : Phase → Bool} {n : Nat} :
    ∀ {calls : List UserCall} {now : Bool}, (∀ call ∈ calls, armed' call.phase = armed call.phase) →
      ArmedOver env armed n now calls → ArmedOver env armed' n now calls
  | [], _, _, _ => trivial
  | call :: _, _, heq, ⟨hfirst, hrest⟩ =>
    ⟨(heq call List.mem_cons_self).trans hfirst,
      armedOver_congr (fun call hcall => heq call (List.mem_cons_of_mem _ hcall)) hrest⟩

theorem signalIn_append_isNone (steps steps' : List Step) :
    (signalIn (steps ++ steps')).isNone =
      ((signalIn steps).isNone && (signalIn steps').isNone) := by
  rw [signalIn_append]
  cases signalIn steps <;> rfl

/-- In a chain whose phases differ, what comes before a call is what comes before its phase. -/
theorem armedOver_takeWhile (env : Env) (n : Nat) :
    ∀ {calls : List UserCall} (now : Bool), (calls.map UserCall.phase).Nodup →
      ArmedOver env (fun phase => now && (signalIn (stepsOf env n
        (calls.takeWhile fun call => call.phase ≠ phase))).isNone) n now calls
  | [], _, _ => trivial
  | call :: calls, now, hnodup => by
    obtain ⟨hnew, hrest⟩ := List.nodup_cons.mp hnodup
    refine ⟨by simp [stepsOf, signalIn], ?_⟩
    refine armedOver_congr (fun call' hcall' => ?_) (armedOver_takeWhile env n
      (now && (signalIn (env.exec n call)).isNone) hrest)
    have hne : call.phase ≠ call'.phase := fun h => hnew (h ▸ List.mem_map_of_mem hcall')
    have htake : ((call :: calls).takeWhile fun c => c.phase ≠ call'.phase) =
        call :: calls.takeWhile fun c => c.phase ≠ call'.phase := by
      rw [List.takeWhile_cons_of_pos (by simpa using hne)]
    have hsteps : ∀ cs, stepsOf env n (call :: cs) = env.exec n call ++ stepsOf env n cs :=
      fun _ => rfl
    simp only [htake, hsteps, signalIn_append_isNone, Bool.and_assoc]

theorem chainCalls_nodup (env : Env) (n : Nat) (t : TestCase) :
    ((chainCalls env n t).map UserCall.phase).Nodup := by
  have hphase : ∀ (phase : Phase) (ctx : Ptr),
      (t.call phase ctx).toList.map UserCall.phase = ((t.target phase).map fun _ => phase).toList := by
    intro phase ctx
    rw [TestCase.call]
    cases t.target phase <;> rfl
  simp only [chainCalls, List.map_append, hphase]
  cases t.target .setup <;> cases t.target .body <;> cases t.target .cleanup <;> simp

theorem armedTests_congr {env : Env} {armed armed' : Nat → Phase → Bool} :
    ∀ {ts : List TestCase} {now : Bool} {n : Nat}, (∀ m, n ≤ m → armed' m = armed m) →
      ArmedTests env armed now n ts → ArmedTests env armed' now n ts
  | [], _, _, _, _ => trivial
  | _ :: _, _, n, heq, ⟨hfirst, hrest⟩ => by
    refine ⟨?_, armedTests_congr (fun m hm => heq m (by omega)) hrest⟩
    rw [heq n (Nat.le_refl n)]
    exact hfirst

theorem armedTests_armedAt (env : Env) :
    ∀ (now : Bool) (n : Nat) (ts : List TestCase), ArmedTests env (armedAt env now n ts) now n ts
  | _, _, [] => trivial
  | now, n, t :: ts => by
    refine ⟨?_, armedTests_congr (fun m hm => ?_)
      (armedTests_armedAt env (now && (signalIn (testSteps env n t)).isNone) (n + 1) ts)⟩
    · have hhere : armedAt env now n (t :: ts) n = fun phase => now && (signalIn (stepsOf env n
          ((chainCalls env n t).takeWhile fun call => call.phase ≠ phase))).isNone := by
        funext phase
        rw [armedAt, if_pos rfl]
      rw [hhere]
      exact armedOver_takeWhile env n now (chainCalls_nodup env n t)
    · funext phase
      rw [armedAt, if_neg (by omega)]

theorem armedTests_append {env : Env} {armed : Nat → Phase → Bool} :
    ∀ {ts ts' : List TestCase} {now : Bool} {n : Nat}, ArmedTests env armed now n (ts ++ ts') →
      ArmedTests env armed now n ts ∧
        ArmedTests env armed (armedAfter env now n ts) (n + ts.length) ts'
  | [], ts', now, n, h => by
    refine ⟨trivial, ?_⟩
    rw [armedAfter, overTests, List.all_nil, Bool.and_true]
    exact h
  | t :: ts, ts', now, n, ⟨hfirst, hrest⟩ => by
    obtain ⟨h1, h2⟩ := armedTests_append hrest
    refine ⟨⟨hfirst, h1⟩, ?_⟩
    rw [armedAfter, Bool.and_assoc, Nat.add_right_comm, Nat.add_assoc] at h2
    exact h2

theorem armedAfter_append (env : Env) (now : Bool) (n : Nat) (ts ts' : List TestCase) :
    armedAfter env now n (ts ++ ts') =
      armedAfter env (armedAfter env now n ts) (n + ts.length) ts' := by
  rw [armedAfter, armedAfter, armedAfter, overTests_append, List.all_append, Bool.and_assoc]

/-- Where the handler is not in place the tests see the world as it is. -/
theorem seen_of_not_armed {env : Env} {c : TestContext} {st : RunState} (h : armedNow c st = false)
    (ts : List TestCase) : env.seen c st ts = env := by
  have hfalse : ∀ (ts : List TestCase) (n m : Nat) (phase : Phase),
      armedAt env false n ts m phase = false := by
    intro ts
    induction ts with
    | nil => exact fun _ _ _ => rfl
    | cons t ts ih =>
      intro n m phase
      rw [armedAt, Bool.false_and, Bool.false_and, ih, ite_self]
  rw [Env.seen, h, Env.outlived]
  simp only [hfalse]
  rfl

theorem seen_of_sighandle {env : Env} {c : TestContext} {st : RunState} (h : c.sighandle = true)
    (ts : List TestCase) : env.seen c st ts = env :=
  seen_of_not_armed (by rw [armedNow, h]; rfl) ts

variable {env : Env} {c : TestContext}

theorem Made.trans {ts ts' : List TestCase} {evs evs' : List HookEvent} {a b d : RunState}
    (h : Made env c ts evs a b) (h' : Made env c ts' evs' b d) :
    Made env c (ts ++ ts') (evs ++ evs') a d := by
  refine ⟨?_, ?_, ?_⟩
  · rw [h'.executed, h.executed, List.append_assoc]
  · rw [h'.calls, h.calls, h.executed, overTests_append, List.flatten_append, List.length_append,
      List.append_assoc]
  · rw [h'.events, h.events, List.append_assoc]

theorem Unseen.made {a b : RunState} (h : Unseen a b) : Made env c [] [] a b :=
  ⟨by rw [h.executed, List.append_nil], by rw [h.calls]; exact (List.append_nil _).symm,
    by rw [h.events, List.append_nil]⟩

theorem runHooks_made {env' : Env} (st : RunState) (e : HookEvent) :
    Made env' c [] [e] st (runHooks env st e) :=
  ⟨(List.append_nil _).symm, (List.append_nil _).symm, rfl⟩

/-! ## The tests of a suite -/

variable {armed : Nat → Phase → Bool}

/-- One test is finished, or killed the process. -/
theorem single_spec {test : TestCase} {st : RunState} (harm : ArmedTest env armed c test st)
    (hw : st.leak.Counted) :
    (∃ st' bytes, testCaseRunSingleTest env c test st =
        (some (verdictOf (env.outlived armed) c st.executed.length test), st') ∧
        st'.leak.Counted ∧ ¬ dies (env.outlived armed) c st.executed.length test ∧
        armedNow c st' = armedAfter env (armedNow c st) st.executed.length [test] ∧
        Made (env.outlived armed) c [test]
          (testBlock (env.outlived armed) c st.executed.length test bytes) st st') ∨
      ∃ st' handled, testCaseRunSingleTest env c test st = (none, st') ∧
        dies (env.outlived armed) c st.executed.length test ∧
        Made (env.outlived armed) c [test]
          (bodyEvents (env.outlived armed) st.executed.length test handled) st st' := by
  by_cases hd : dies (env.outlived armed) c st.executed.length test
  · obtain ⟨st', handled, hrun, hx, hc, he⟩ := single_killed harm hw hd
    exact Or.inr ⟨st', handled, hrun, hd, hx, by simpa [overTests] using hc, he⟩
  · obtain ⟨st', hrun, hx, hc, he, hk⟩ := single_finished harm hw hd
    refine Or.inl ⟨st', _, hrun, hk, hd, ?_, hx, by simpa [overTests] using hc, he⟩
    rw [single_armed hrun]
    simp [armedAfter, overTests]

/-- **The tests of a suite are run in order**, up to one that ends the process. -/
theorem suiteLoop_spec :
    ∀ (ts : List TestCase) (res : Bool) {st : RunState},
      ArmedTests env armed (armedNow c st) st.executed.length ts → st.leak.Counted →
      (∃ st' evs, suiteLoop env c ts res st =
          (some (res && allPassed (env.outlived armed) c st.executed.length ts), st') ∧
          st'.leak.Counted ∧
          armedNow c st' = armedAfter env (armedNow c st) st.executed.length ts ∧
          TestBlocks (env.outlived armed) c st.executed.length ts evs ∧
          Made (env.outlived armed) c ts evs st st') ∨
        ∃ st' ran evs, suiteLoop env c ts res st = (none, st') ∧
          TestsCut (env.outlived armed) c st.executed.length ts ran evs ∧
          Made (env.outlived armed) c ran evs st st'
  | [], res, st, _, hw => by
    refine Or.inl ⟨st, [], ?_, hw, ?_, .nil _, (Unseen.refl st).made⟩
    · simp [suiteLoop, allPassed, verdicts, overTests]
    · simp [armedAfter, overTests]
  | t :: ts, res, st, harm, hw => by
    rcases @single_spec env c armed t st harm.1 hw with ⟨st1, bytes, hrun, hk, hlive, ha, hm⟩ |
      ⟨st1, handled, hrun, hd, hm⟩
    · have hn : st1.executed.length = st.executed.length + 1 := by
        rw [hm.executed, List.length_append, List.length_singleton]
      have hstep : suiteLoop env c (t :: ts) res st =
          suiteLoop env c ts
            (res && verdictOf (env.outlived armed) c st.executed.length t == .passed) st1 := by
        rw [suiteLoop, hrun]
      have harm1 : ArmedTests env armed (armedNow c st1) st1.executed.length ts := by
        rw [ha, hn]
        exact (@armedTests_append env armed [t] ts _ _ harm).2
      rcases suiteLoop_spec ts
          (res && verdictOf (env.outlived armed) c st.executed.length t == .passed) harm1 hk with
        ⟨st2, evs, hrun2, hk2, ha2, hb, hm2⟩ | ⟨st2, ran, evs, hrun2, hb, hm2⟩
      · rw [hn] at hb
        refine Or.inl ⟨st2, _, ?_, hk2, ?_, .cons bytes hlive hb, hm.trans hm2⟩
        · rw [hstep, hrun2, hn, Bool.and_assoc]
          rfl
        · rw [ha2, ha, hn]
          exact (armedAfter_append env (armedNow c st) st.executed.length [t] ts).symm
      · rw [hn] at hb
        exact Or.inr ⟨st2, _, _, hstep.trans hrun2, .later bytes hlive hb, hm.trans hm2⟩
    · refine Or.inr ⟨st1, [t], _, ?_, .here handled hd, hm⟩
      rw [suiteLoop, hrun]

/-! ## Selections -/

/-- The suites of a selection, one after the other. -/
def runSelection (env : Env) (c : TestContext) :
    Selection → RunState → Option (List Bool) × RunState
  | [], st => (some [], st)
  | (s, ts) :: sel, st =>
    match suiteRunTests env c s ts st with
    | (none, st) => (none, st)
    | (some res, st) =>
      let r := runSelection env c sel st
      (r.1.map fun rs => res :: rs, r.2)

/-- The result of each suite of a selection. -/
def suiteResults (env : Env) (c : TestContext) : Nat → Selection → List Bool
  | _, [] => []
  | n, (_, ts) :: sel => allPassed env c n ts :: suiteResults env c (n + ts.length) sel

theorem suiteRunTests_spec {s : TestSuite} {ts : List TestCase} {st : RunState}
    (harm : ArmedTests env armed (armedNow c st) st.executed.length ts) (hw : st.leak.Counted) :
    (∃ st' evs, suiteRunTests env c s ts st =
        (some (allPassed (env.outlived armed) c st.executed.length ts), st') ∧ st'.leak.Counted ∧
        armedNow c st' = armedAfter env (armedNow c st) st.executed.length ts ∧
        TestBlocks (env.outlived armed) c st.executed.length ts evs ∧
        Made (env.outlived armed) c ts (.beforeSuite s :: evs ++
          [.afterSuite s (allPassed (env.outlived armed) c st.executed.length ts)]) st st') ∨
      ∃ st' ran evs, suiteRunTests env c s ts st = (none, st') ∧
        TestsCut (env.outlived armed) c st.executed.length ts ran evs ∧
        Made (env.outlived armed) c ran (.beforeSuite s :: evs) st st' := by
  have hbegin := runHooks_ran env st (.beforeSuite s)
  have hk : (runHooks env st (.beforeSuite s)).leak.Counted := hbegin.watches.counted hw
  have hn : (runHooks env st (.beforeSuite s)).executed.length = st.executed.length :=
    congrArg List.length hbegin.executed
  rcases @suiteLoop_spec env c armed ts true (runHooks env st (.beforeSuite s)) harm hk with
    ⟨st1, evs, hrun, hk1, ha, hb, hm⟩ | ⟨st1, ran, evs, hrun, hb, hm⟩
  · rw [hn] at hrun hb
    rw [Bool.true_and] at hrun
    generalize allPassed (env.outlived armed) c st.executed.length ts = res at hrun ⊢
    have hlog := emitLog_unseen env st1 (suiteMessage s res)
    have hall := (((@runHooks_made env c _ st (.beforeSuite s)).trans hm).trans hlog.made).trans
      (@runHooks_made env c _ _ (.afterSuite s res))
    refine Or.inl ⟨runHooks env (emitLog env st1 (suiteMessage s res)) (.afterSuite s res), evs, ?_,
      ?_, ha, hb, ?_⟩
    · simp only [suiteRunTests, hrun]
    · exact (runHooks_ran env _ _).watches.counted (hlog.watches.counted hk1)
    · simpa using hall
  · rw [hn] at hb
    refine Or.inr ⟨st1, ran, evs, ?_, hb, (runHooks_made st (.beforeSuite s)).trans hm⟩
    simp only [suiteRunTests, hrun]

/-- **The suites of a selection are run in order**, up to a test that ends the process. -/
theorem runSelection_spec :
    ∀ (sel : Selection) {st : RunState},
      ArmedTests env armed (armedNow c st) st.executed.length sel.tests → st.leak.Counted →
      (∃ st' evs, runSelection env c sel st =
          (some (suiteResults (env.outlived armed) c st.executed.length sel), st') ∧
          st'.leak.Counted ∧
          armedNow c st' = armedAfter env (armedNow c st) st.executed.length sel.tests ∧
          SuiteBlocks (env.outlived armed) c st.executed.length sel evs ∧
          Made (env.outlived armed) c sel.tests evs st st') ∨
        ∃ st' ran evs, runSelection env c sel st = (none, st') ∧
          SuitesCut (env.outlived armed) c st.executed.length sel ran evs ∧
          Made (env.outlived armed) c ran evs st st'
  | [], st, _, hw => by
    refine Or.inl ⟨st, [], rfl, hw, ?_, .nil _, (Unseen.refl st).made⟩
    simp [armedAfter, Selection.tests, overTests]
  | (s, ts) :: sel, st, harm, hw => by
    have htests : Selection.tests ((s, ts) :: sel) = ts ++ Selection.tests sel := rfl
    rw [htests] at harm
    obtain ⟨harm1, harm2⟩ := armedTests_append harm
    rcases @suiteRunTests_spec env c armed s ts st harm1 hw with
      ⟨st1, evs, hrun, hk, ha, hb, hm⟩ | ⟨st1, ran, evs, hrun, hb, hm⟩
    · have hn : st1.executed.length = st.executed.length + ts.length := by
        rw [hm.executed, List.length_append]
      have hstep : runSelection env c ((s, ts) :: sel) st =
          ((runSelection env c sel st1).1.map
            fun rs => allPassed (env.outlived armed) c st.executed.length ts :: rs,
            (runSelection env c sel st1).2) := by
        rw [runSelection, hrun]
      rw [← ha, ← hn] at harm2
      rcases runSelection_spec sel harm2 hk with ⟨st2, evs2, hrun2, hk2, ha2, hb2, hm2⟩ |
        ⟨st2, ran, evs2, hrun2, hb2, hm2⟩
      · rw [hn] at hrun2 hb2
        refine Or.inl ⟨st2, _, ?_, hk2, ?_, .cons hb hb2, hm.trans hm2⟩
        · rw [hstep, hrun2]
          rfl
        · rw [ha2, ha, hn, htests, armedAfter_append]
      · rw [hn] at hb2
        refine Or.inr ⟨st2, _, _, ?_, .later hb hb2, hm.trans hm2⟩
        rw [hstep, hrun2]
        rfl
    · refine Or.inr ⟨st1, ran, _, ?_, .here hb, hm⟩
      rw [runSelection, hrun]

/-! ## Calls that run tests -/

/-- What a call selects; `none` when it reports a name as missing. -/
def opSelection (c : TestContext) : RunOp → Option Selection
  | .all => some (c.suites.map fun s => (s, s.tests))
  | .suite suite => (testSuiteLookup c suite false).1.map fun s => [(s, s.tests)]
  | .case suite test => (testSuiteLookup c suite false).1.bind fun s =>
      (testLookupCase s test).map fun t => [(s, [t])]

theorem allLoop_eq :
    ∀ (suites : List TestSuite) (res : Bool) (st : RunState),
      allLoop env c suites res st =
        ((runSelection env c (suites.map fun s => (s, s.tests)) st).1.map fun rs =>
          res && rs.all id,
        (runSelection env c (suites.map fun s => (s, s.tests)) st).2)
  | [], res, st => by simp [allLoop, runSelection]
  | s :: suites, res, st => by
    rw [allLoop, List.map_cons, runSelection]
    show (match suiteRunTests env c s s.tests st with
      | (none, st) => (none, st)
      | (some suiteRes, st) => allLoop env c suites (res && suiteRes) st) = _
    cases hr : suiteRunTests env c s s.tests st with
    | mk o st1 =>
      cases o with
      | none => rfl
      | some r =>
        simp only
        rw [allLoop_eq suites (res && r) st1]
        simp [Option.map_map, Function.comp_def, Bool.and_assoc]

theorem runSelection_singleton (s : TestSuite) (ts : List TestCase) (st : RunState) :
    suiteRunTests env c s ts st =
      ((runSelection env c [(s, ts)] st).1.map fun rs => rs.all id,
        (runSelection env c [(s, ts)] st).2) := by
  rw [runSelection]
  cases hr : suiteRunTests env c s ts st with
  | mk o st1 => cases o <;> simp [runSelection]

/-- **Every call that runs tests runs a selection**, or reports a missing name. -/
theorem runOp_eq (st : RunState) (op : RunOp) :
    match opSelection c op with
    | some sel => runOp env c st op = ((runSelection env c sel st).1.map fun rs => rs.all id,
        (runSelection env c sel st).2)
    | none => ∃ m, runOp env c st op = (some false, emitLog env st m) := by
  cases op with
  | all => simp [opSelection, runOp, tinuTestAllRun, allLoop_eq]
  | suite suite =>
    cases hl : (testSuiteLookup c suite false).1 with
    | none =>
      simp only [opSelection, hl, Option.map_none, runOp, tinuTestSuiteRun]
      exact ⟨_, rfl⟩
    | some s =>
      simp only [opSelection, hl, Option.map_some, runOp, tinuTestSuiteRun]
      exact runSelection_singleton s s.tests st
  | case suite test =>
    cases hl : (testSuiteLookup c suite false).1 with
    | none =>
      simp only [opSelection, hl, Option.bind_none, runOp, tinuTestCaseRun]
      exact ⟨_, rfl⟩
    | some s =>
      cases ht : testLookupCase s test with
      | none =>
        simp only [opSelection, hl, Option.bind_some, ht, Option.map_none, runOp, tinuTestCaseRun]
        exact ⟨_, rfl⟩
      | some t =>
        simp only [opSelection, hl, Option.bind_some, ht, Option.map_some, runOp, tinuTestCaseRun]
        exact runSelection_singleton s [t] st

/-- What a sequence of calls selects. -/
def opsSelection (c : TestContext) (ops : List RunOp) : Selection :=
  ops.flatMap fun op => (opSelection c op).getD []

theorem Selection.tests_append (sel sel' : Selection) :
    Selection.tests (sel ++ sel') = sel.tests ++ sel'.tests := List.flatMap_append

theorem SuiteBlocks.append {n : Nat} {sel sel' : Selection} {evs evs' : List HookEvent}
    (h : SuiteBlocks env c n sel evs) (h' : SuiteBlocks env c (n + sel.tests.length) sel' evs') :
    SuiteBlocks env c n (sel ++ sel') (evs ++ evs') := by
  induction h with
  | nil n => exact h'
  | @cons n s ts sel evs evs1 hb hs ih =>
    have hlen : Selection.tests ((s, ts) :: sel) = ts ++ sel.tests := rfl
    rw [hlen, List.length_append, ← Nat.add_assoc] at h'
    rw [List.append_assoc]
    exact .cons hb (ih h')

theorem SuiteBlocks.cut {n : Nat} {sel sel' : Selection} {evs evs' : List HookEvent}
    {ran : List TestCase} (h : SuiteBlocks env c n sel evs)
    (h' : SuitesCut env c (n + sel.tests.length) sel' ran evs') :
    SuitesCut env c n (sel ++ sel') (sel.tests ++ ran) (evs ++ evs') := by
  induction h with
  | nil n => exact h'
  | @cons n s ts sel evs evs1 hb hs ih =>
    have hlen : Selection.tests ((s, ts) :: sel) = ts ++ sel.tests := rfl
    rw [hlen, List.length_append, ← Nat.add_assoc] at h'
    rw [List.append_assoc, hlen, List.append_assoc]
    exact .later hb (ih h')

theorem SuitesCut.append {n : Nat} {sel : Selection} {ran : List TestCase} {evs : List HookEvent}
    (h : SuitesCut env c n sel ran evs) (sel' : Selection) :
    SuitesCut env c n (sel ++ sel') ran evs := by
  induction h with
  | here h => exact .here h
  | later h _ ih => exact .later h ih

/-- What a call returns. -/
def opResult (env : Env) (c : TestContext) (n : Nat) (op : RunOp) : Bool :=
  match opSelection c op with
  | some sel => (suiteResults env c n sel).all id
  | none => false

/-- What the calls of a sequence return. -/
def opResults (env : Env) (c : TestContext) : Nat → List RunOp → List Bool
  | _, [] => []
  | n, op :: ops =>
    opResult env c n op ::
      opResults env c (n + (Selection.tests ((opSelection c op).getD [])).length) ops

/-- The tests that a call runs, as its lookup selects them. -/
def selectedTests (c : TestContext) (op : RunOp) : List TestCase :=
  Selection.tests ((opSelection c op).getD [])

/-- One call, wherever the handler of `main.c` is in place. -/
theorem runOp_armed {st : RunState} (op : RunOp)
    (harm : ArmedTests env armed (armedNow c st) st.executed.length (selectedTests c op))
    (hw : st.leak.Counted) :
    (∃ st' evs, runOp env c st op =
        (some (opResult (env.outlived armed) c st.executed.length op), st') ∧ st'.leak.Counted ∧
        armedNow c st' = armedAfter env (armedNow c st) st.executed.length (selectedTests c op) ∧
        SuiteBlocks (env.outlived armed) c st.executed.length ((opSelection c op).getD []) evs ∧
        Made (env.outlived armed) c (selectedTests c op) evs st st') ∨
      ∃ st' ran evs, runOp env c st op = (none, st') ∧
        SuitesCut (env.outlived armed) c st.executed.length ((opSelection c op).getD []) ran evs ∧
        Made (env.outlived armed) c ran evs st st' := by
  have heq := @runOp_eq env c st op
  unfold selectedTests at harm ⊢
  unfold opResult
  cases hs : opSelection c op with
  | none =>
    simp only [hs] at heq
    obtain ⟨m, hm⟩ := heq
    have hu := emitLog_unseen env st m
    refine Or.inl ⟨_, [], hm, hu.watches.counted hw, ?_, .nil _, hu.made⟩
    show armedNow c st = _
    simp [armedAfter, Selection.tests, overTests]
  | some sel =>
    simp only [hs] at heq
    rw [hs] at harm
    rcases @runSelection_spec env c armed sel st harm hw with ⟨st', evs, hrun, hk, ha, hb, hm⟩ |
      ⟨st', ran, evs, hrun, hb, hm⟩
    · refine Or.inl ⟨st', evs, ?_, hk, ha, hb, hm⟩
      rw [heq, hrun]
      rfl
    · refine Or.inr ⟨st', ran, evs, ?_, hb, hm⟩
      rw [heq, hrun]
      rfl

/-- A sequence of calls, wherever the handler of `main.c` is in place. -/
theorem runOps_armed :
    ∀ (ops : List RunOp) {st : RunState},
      ArmedTests env armed (armedNow c st) st.executed.length (opsSelection c ops).tests →
      st.leak.Counted →
      (∃ st' evs, runOps env c ops st =
          (some (opResults (env.outlived armed) c st.executed.length ops), st') ∧
          st'.leak.Counted ∧
          SuiteBlocks (env.outlived armed) c st.executed.length (opsSelection c ops) evs ∧
          Made (env.outlived armed) c (opsSelection c ops).tests evs st st') ∨
        ∃ st' ran evs, runOps env c ops st = (none, st') ∧
          SuitesCut (env.outlived armed) c st.executed.length (opsSelection c ops) ran evs ∧
          Made (env.outlived armed) c ran evs st st'
  | [], st, _, hw => Or.inl ⟨st, [], rfl, hw, .nil _, (Unseen.refl st).made⟩
  | op :: ops, st, harm, hw => by
    have hsel : opsSelection c (op :: ops) =
        (opSelection c op).getD [] ++ opsSelection c ops := rfl
    rw [hsel, Selection.tests_append] at harm
    obtain ⟨harm1, harm2⟩ := armedTests_append harm
    rcases @runOp_armed env c armed st op harm1 hw with ⟨st1, evs, hrun, hk, ha, hb, hm⟩ |
      ⟨st1, ran, evs, hrun, hb, hm⟩
    · have hn : st1.executed.length = st.executed.length +
          (Selection.tests ((opSelection c op).getD [])).length := by
        rw [hm.executed, List.length_append]
        rfl
      have hstep : runOps env c (op :: ops) st =
          ((runOps env c ops st1).1.map
            fun rs => opResult (env.outlived armed) c st.executed.length op :: rs,
            (runOps env c ops st1).2) := by
        rw [runOps, hrun]
      rw [← hn] at harm2
      have harm2 : ArmedTests env armed (armedNow c st1) st1.executed.length
          (opsSelection c ops).tests := ha ▸ harm2
      rcases runOps_armed ops harm2 hk with ⟨st2, evs2, hrun2, hk2, hb2, hm2⟩ |
        ⟨st2, ran, evs2, hrun2, hb2, hm2⟩
      · rw [hn] at hrun2 hb2
        refine Or.inl ⟨st2, evs ++ evs2, ?_, hk2, ?_, ?_⟩
        · rw [hstep, hrun2]
          rfl
        · rw [hsel]
          exact hb.append hb2
        · rw [hsel, Selection.tests_append]
          exact hm.trans hm2
      · rw [hn] at hb2
        refine Or.inr ⟨st2, _, evs ++ evs2, ?_, ?_, hm.trans hm2⟩
        · rw [hstep, hrun2]
          rfl
        · rw [hsel]
          exact hb.cut hb2
    · refine Or.inr ⟨st1, ran, evs, ?_, hb.append _, hm⟩
      rw [runOps, hrun]

/-- **One call**, in the world as the tests that it selects see it. -/
theorem runOp_spec {st : RunState} (hw : st.leak.Counted) (op : RunOp) :
    (∃ st' evs, runOp env c st op =
        (some (opResult (env.seen c st (selectedTests c op)) c st.executed.length op), st') ∧
        st'.leak.Counted ∧
        SuiteBlocks (env.seen c st (selectedTests c op)) c st.executed.length
          ((opSelection c op).getD []) evs ∧
        Made (env.seen c st (selectedTests c op)) c (selectedTests c op) evs st st') ∨
      ∃ st' ran evs, runOp env c st op = (none, st') ∧
        SuitesCut (env.seen c st (selectedTests c op)) c st.executed.length
          ((opSelection c op).getD []) ran evs ∧
        Made (env.seen c st (selectedTests c op)) c ran evs st st' := by
  have harm := armedTests_armedAt env (armedNow c st) st.executed.length (selectedTests c op)
  rcases runOp_armed op harm hw with ⟨st', evs, hrun, hk, -, hb, hm⟩ | h
  · exact Or.inl ⟨st', evs, hrun, hk, hb, hm⟩
  · exact Or.inr h

/-- **A sequence of calls runs its selection**, up to a test that ends the process. -/
theorem runOps_spec (ops : List RunOp) {st : RunState} (hw : st.leak.Counted) :
    (∃ st' evs, runOps env c ops st =
        (some (opResults (env.seen c st (opsSelection c ops).tests) c st.executed.length ops),
          st') ∧
        st'.leak.Counted ∧
        SuiteBlocks (env.seen c st (opsSelection c ops).tests) c st.executed.length
          (opsSelection c ops) evs ∧
        Made (env.seen c st (opsSelection c ops).tests) c (opsSelection c ops).tests evs st st') ∨
      ∃ st' ran evs, runOps env c ops st = (none, st') ∧
        SuitesCut (env.seen c st (opsSelection c ops).tests) c st.executed.length
          (opsSelection c ops) ran evs ∧
        Made (env.seen c st (opsSelection c ops).tests) c ran evs st st' :=
  runOps_armed ops (armedTests_armedAt env (armedNow c st) st.executed.length _) hw

/-! ## The test that ends the process -/

/-- The `i`-th of the tests ends the process, for some `i`. -/
def SomeDies (env : Env) (c : TestContext) (n : Nat) (ts : List TestCase) : Prop :=
  ∃ i t, ts[i]? = some t ∧ dies env c (n + i) t

/-- The `i`-th of the tests ends the process, and none before it does. -/
def FirstDies (env : Env) (c : TestContext) (n : Nat) (ts : List TestCase) (i : Nat) : Prop :=
  (∃ t, ts[i]? = some t ∧ dies env c (n + i) t) ∧ ¬ SomeDies env c n (ts.take i)

theorem someDies_cons {n : Nat} {t : TestCase} {ts : List TestCase} :
    SomeDies env c n (t :: ts) ↔ dies env c n t ∨ SomeDies env c (n + 1) ts := by
  constructor
  · rintro ⟨i, t', ht, hd⟩
    cases i with
    | zero =>
      obtain rfl : t = t' := Option.some.inj ht
      exact Or.inl hd
    | succ i =>
      rw [← Nat.add_assoc, Nat.add_right_comm] at hd
      exact Or.inr ⟨i, t', ht, hd⟩
  · rintro (hd | ⟨i, t', ht, hd⟩)
    · exact ⟨0, t, rfl, hd⟩
    · rw [Nat.add_right_comm, Nat.add_assoc] at hd
      exact ⟨i + 1, t', ht, hd⟩

theorem someDies_append {n : Nat} {ts ts' : List TestCase} :
    SomeDies env c n (ts ++ ts') ↔
      SomeDies env c n ts ∨ SomeDies env c (n + ts.length) ts' := by
  induction ts generalizing n with
  | nil => simp [SomeDies]
  | cons t ts ih =>
    rw [List.cons_append, someDies_cons, ih, someDies_cons, or_assoc, List.length_cons,
      Nat.add_assoc, Nat.add_comm 1]

theorem SomeDies.mono {n : Nat} {ran ts : List TestCase} (h : SomeDies env c n ran)
    (hp : ran <+: ts) : SomeDies env c n ts := by
  obtain ⟨rest, rfl⟩ := hp
  exact someDies_append.mpr (Or.inl h)

theorem FirstDies.someDies {n i : Nat} {ts : List TestCase} (h : FirstDies env c n ts i) :
    SomeDies env c n ts :=
  ⟨i, h.1⟩

/-- There is one first test that ends the process. -/
theorem FirstDies.unique {n i j : Nat} {ts : List TestCase} (hi : FirstDies env c n ts i)
    (hj : FirstDies env c n ts j) : i = j := by
  have hle : ∀ {i j : Nat}, FirstDies env c n ts i → FirstDies env c n ts j → i ≤ j := by
    intro i j hi hj
    by_contra hlt
    obtain ⟨⟨t, ht, hd⟩, -⟩ := hj
    refine hi.2 ⟨j, t, ?_, hd⟩
    rw [List.getElem?_take_of_lt (by omega), ht]
  exact Nat.le_antisymm (hle hi hj) (hle hj hi)

theorem firstDies_zero {n : Nat} {t : TestCase} {ts : List TestCase} (h : dies env c n t) :
    FirstDies env c n (t :: ts) 0 :=
  ⟨⟨t, rfl, h⟩, by simp [SomeDies]⟩

theorem FirstDies.cons {n i : Nat} {t : TestCase} {ts : List TestCase} (hlive : ¬ dies env c n t)
    (h : FirstDies env c (n + 1) ts i) : FirstDies env c n (t :: ts) (i + 1) := by
  obtain ⟨⟨t', ht, hd⟩, hbefore⟩ := h
  refine ⟨⟨t', ht, ?_⟩, ?_⟩
  · rwa [← Nat.add_assoc, Nat.add_right_comm]
  · rw [List.take_succ_cons, someDies_cons, not_or]
    exact ⟨hlive, hbefore⟩

theorem FirstDies.append {n i : Nat} {ts : List TestCase} (h : FirstDies env c n ts i)
    (ts' : List TestCase) : FirstDies env c n (ts ++ ts') i := by
  obtain ⟨⟨t, ht, hd⟩, hbefore⟩ := h
  have hi : i < ts.length := (List.getElem?_eq_some_iff.mp ht).1
  refine ⟨⟨t, ?_, hd⟩, ?_⟩
  · rw [List.getElem?_append_left hi, ht]
  · rwa [List.take_append_of_le_length (Nat.le_of_lt hi)]

theorem FirstDies.after {n i : Nat} {ts ts' : List TestCase} (hlive : ¬ SomeDies env c n ts)
    (h : FirstDies env c (n + ts.length) ts' i) :
    FirstDies env c n (ts ++ ts') (ts.length + i) := by
  obtain ⟨⟨t, ht, hd⟩, hbefore⟩ := h
  refine ⟨⟨t, ?_, ?_⟩, ?_⟩
  · rw [List.getElem?_append_right (Nat.le_add_right _ _), Nat.add_sub_cancel_left, ht]
  · rwa [← Nat.add_assoc]
  · rw [List.take_length_add_append, someDies_append, not_or]
    exact ⟨hlive, hbefore⟩

/-- Tests whose blocks are complete did not end the process. -/
theorem TestBlocks.lives {n : Nat} {ts : List TestCase} {evs : List HookEvent}
    (h : TestBlocks env c n ts evs) : ¬ SomeDies env c n ts := by
  induction h with
  | nil n => simp [SomeDies]
  | cons _ hlive _ ih =>
    rw [someDies_cons, not_or]
    exact ⟨hlive, ih⟩

theorem SuiteBlocks.lives {n : Nat} {sel : Selection} {evs : List HookEvent}
    (h : SuiteBlocks env c n sel evs) : ¬ SomeDies env c n (Selection.tests sel) := by
  induction h with
  | nil n => simp [SomeDies, Selection.tests]
  | @cons n s ts sel evs evs' hb _ ih =>
    have htests : Selection.tests ((s, ts) :: sel) = ts ++ Selection.tests sel := rfl
    rw [htests, someDies_append, not_or]
    exact ⟨hb.lives, ih⟩

/-- **What ran of tests that are cut short** is all up to the first that ends the process. -/
theorem TestsCut.firstDies {n : Nat} {ts ran : List TestCase} {evs : List HookEvent}
    (h : TestsCut env c n ts ran evs) : ∃ i, FirstDies env c n ts i ∧ ran = ts.take (i + 1) := by
  induction h with
  | here _ h => exact ⟨0, firstDies_zero h, rfl⟩
  | later _ hlive _ ih =>
    obtain ⟨i, hi, hran⟩ := ih
    exact ⟨i + 1, hi.cons hlive, by rw [hran, List.take_succ_cons]⟩

theorem SuitesCut.firstDies {n : Nat} {sel : Selection} {ran : List TestCase}
    {evs : List HookEvent} (h : SuitesCut env c n sel ran evs) :
    ∃ i, FirstDies env c n (Selection.tests sel) i ∧ ran = (Selection.tests sel).take (i + 1) := by
  induction h with
  | @here n s ts ran sel evs h =>
    have htests : Selection.tests ((s, ts) :: sel) = ts ++ Selection.tests sel := rfl
    obtain ⟨i, hi, hran⟩ := h.firstDies
    obtain ⟨t, ht, -⟩ := hi.1
    have hlt : i < ts.length := (List.getElem?_eq_some_iff.mp ht).1
    rw [htests]
    exact ⟨i, hi.append _, by rw [hran, List.take_append_of_le_length hlt]⟩
  | @later n s ts ran sel evs evs' hb _ ih =>
    have htests : Selection.tests ((s, ts) :: sel) = ts ++ Selection.tests sel := rfl
    obtain ⟨i, hi, hran⟩ := ih
    rw [htests]
    exact ⟨_, hi.after hb.lives, by rw [hran, Nat.add_assoc, List.take_length_add_append]⟩

theorem SuitesCut.prefix {n : Nat} {sel : Selection} {ran : List TestCase} {evs : List HookEvent}
    (h : SuitesCut env c n sel ran evs) : ran <+: Selection.tests sel := by
  obtain ⟨i, -, rfl⟩ := h.firstDies
  exact List.take_prefix _ _

end Tinu
