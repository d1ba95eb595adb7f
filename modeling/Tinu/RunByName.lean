import Tinu.Verdicts

/-!
# Running a suite or a test by name

`run_by_name_iff` — a name that is not registered is reported only as long as the lookup does not
fall back on the last suite there is.
-/

set_option autoImplicit false

namespace Tinu

variable {env : Env} {c : TestContext}

/-- The call ran exactly the tests `ts` and came back; if one of them ends the process, it ran them
up to the first that does. -/
structure RunsExactly (env : Env) (c : TestContext) (ts : List TestCase) (st : RunState)
    (r : Option Bool × RunState) : Prop where
  finished : ¬ SomeDies (env.seen c st ts) c st.executed.length ts →
    r.1.isSome ∧ r.2.executed = st.executed ++ ts
  ended : ∀ i, FirstDies (env.seen c st ts) c st.executed.length ts i →
    r.1 = none ∧ r.2.executed = st.executed ++ ts.take (i + 1)

/-- The call ran no test, fired no hook and returned `FALSE`. -/
def RunsNothing (st : RunState) (r : Option Bool × RunState) : Prop :=
  r.1 = some false ∧ r.2.executed = st.executed ∧ r.2.events = st.events

/-- `tinu_test_suite_run` runs the suite with the name, and nothing if there is none. -/
def SuiteRunOk (env : Env) (c : TestContext) (suite : CString) (st : RunState) : Prop :=
  (∀ s ∈ c.suites, s.name = suite → RunsExactly env c s.tests st
      (tinuTestSuiteRun env c suite st)) ∧
    ((∀ s ∈ c.suites, s.name ≠ suite) → RunsNothing st (tinuTestSuiteRun env c suite st))

/-- `tinu_test_case_run` runs the test with the names, and nothing if there is none. -/
def CaseRunOk (env : Env) (c : TestContext) (suite test : CString) (st : RunState) : Prop :=
  (∀ s ∈ c.suites, s.name = suite → ∀ t ∈ s.tests, t.name = test →
      RunsExactly env c [t] st (tinuTestCaseRun env c suite test st)) ∧
    ((∀ s ∈ c.suites, s.name = suite → ∀ t ∈ s.tests, t.name ≠ test) →
      RunsNothing st (tinuTestCaseRun env c suite test st))

/-! ## The two calls -/

/-- A call that selects one suite runs the tests selected, and starts with `BEFORE_SUITE`. -/
theorem runOp_single {op : RunOp} {s : TestSuite} {ts : List TestCase} {st : RunState}
    (hw : st.leak.Counted) (hsel : opSelection c op = some [(s, ts)]) :
    RunsExactly env c ts st (runOp env c st op) ∧
      ∃ evs, (runOp env c st op).2.events = st.events ++ .beforeSuite s :: evs := by
  have htests : selectedTests c op = ts := by
    rw [selectedTests, hsel]
    exact List.append_nil ts
  have hspec := @runOp_spec env c st hw op
  rw [htests, hsel] at hspec
  rcases hspec with ⟨st', evs, hrun, _, hb, hm⟩ | ⟨st', ran, evs, hrun, hb, hm⟩
  · have hlives : ¬ SomeDies (env.seen c st ts) c st.executed.length ts := by
      have := hb.lives
      rwa [show Selection.tests ((some [(s, ts)]).getD []) = ts from List.append_nil ts] at this
    rw [hrun]
    refine ⟨⟨fun _ => ⟨rfl, hm.executed⟩, fun i hi => absurd hi.someDies hlives⟩, ?_⟩
    cases hb with
    | cons h h' => exact ⟨_, hm.events⟩
  · obtain ⟨i, hi, hran⟩ := hb.firstDies
    rw [show Selection.tests ((some [(s, ts)]).getD []) = ts from List.append_nil ts] at hi hran
    rw [hrun]
    refine ⟨⟨fun h => absurd hi.someDies h, fun j hj => ⟨rfl, ?_⟩⟩, ?_⟩
    · rw [hj.unique hi, ← hran]
      exact hm.executed
    · cases hb with
      | here h => exact ⟨_, hm.events⟩
      | later h h' => exact ⟨_, hm.events⟩

theorem runOp_missing {op : RunOp} {st : RunState} (hsel : opSelection c op = none) :
    RunsNothing st (runOp env c st op) := by
  have heq := @runOp_eq env c st op
  rw [hsel] at heq
  obtain ⟨m, hm⟩ := heq
  rw [hm]
  exact ⟨rfl, rfl, rfl⟩

theorem not_runsNothing {st : RunState} {r : Option Bool × RunState} {s : TestSuite}
    {evs : List HookEvent} (h : r.2.events = st.events ++ .beforeSuite s :: evs) :
    ¬ RunsNothing st r := by
  rintro ⟨-, -, he⟩
  rw [h] at he
  simp at he

/-- What the lookup gives a run by name: the suite with the name, else the last one. -/
theorem lookup_named (hc : ContextWf c) {s : TestSuite} (hs : s ∈ c.suites) :
    (testSuiteLookup c s.name false).1 = some s := by
  rw [testSuiteLookup_find, find_of_mem hc hs]
  rfl

theorem lookup_unnamed {suite : CString} (h : ∀ s ∈ c.suites, s.name ≠ suite) :
    (testSuiteLookup c suite false).1 = c.suites.getLast? := by
  rw [testSuiteLookup_find, find_none_iff.mpr (by simpa using h)]
  rfl

theorem suiteRunOk_iff (hc : ContextWf c) {suite : CString} {st : RunState}
    (hw : st.leak.Counted) :
    SuiteRunOk env c suite st ↔ (∃ s ∈ c.suites, s.name = suite) ∨ c.suites = [] := by
  by_cases hname : ∃ s ∈ c.suites, s.name = suite
  · refine iff_of_true ⟨?_, ?_⟩ (Or.inl hname)
    · rintro s hs rfl
      exact (@runOp_single env c (.suite s.name) s s.tests st hw
        (by simp [opSelection, lookup_named hc hs])).1
    · intro hnone
      obtain ⟨s, hs, hn⟩ := hname
      exact absurd hn (hnone s hs)
  · have hnone : ∀ s ∈ c.suites, s.name ≠ suite := fun s hs hn => hname ⟨s, hs, hn⟩
    have hlook := lookup_unnamed hnone
    cases hl : c.suites.getLast? with
    | none =>
      have hnil : c.suites = [] := List.getLast?_eq_none_iff.mp hl
      rw [hl] at hlook
      refine iff_of_true ⟨fun s hs hn => absurd hn (hnone s hs), fun _ => ?_⟩ (Or.inr hnil)
      exact @runOp_missing env c (.suite suite) st (by simp [opSelection, hlook])
    | some s =>
      rw [hl] at hlook
      refine iff_of_false ?_ ?_
      · rintro ⟨-, hnothing⟩
        obtain ⟨-, evs, he⟩ := @runOp_single env c (.suite suite) s s.tests st hw
          (by simp [opSelection, hlook])
        exact not_runsNothing he (hnothing hnone)
      · rintro (h | h)
        · exact hname h
        · rw [h] at hl
          cases hl

theorem caseRunOk_iff (hc : ContextWf c) {suite test : CString} {st : RunState}
    (hw : st.leak.Counted) :
    CaseRunOk env c suite test st ↔ (∃ s ∈ c.suites, s.name = suite) ∨
      ∀ s, c.suites.getLast? = some s → ∀ t ∈ s.tests, t.name ≠ test := by
  by_cases hname : ∃ s ∈ c.suites, s.name = suite
  · refine iff_of_true ⟨?_, ?_⟩ (Or.inl hname)
    · rintro s hs rfl t ht rfl
      exact (@runOp_single env c (.case s.name t.name) s [t] st hw
        (by simp [opSelection, lookup_named hc hs, lookupCase_of_mem (hc.suites s hs) ht])).1
    · intro hnone
      obtain ⟨s, hs, rfl⟩ := hname
      exact @runOp_missing env c (.case s.name test) st
        (by simp [opSelection, lookup_named hc hs,
          lookupCase_none_iff.mpr (by simpa using hnone s hs rfl)])
  · have hnone : ∀ s ∈ c.suites, s.name ≠ suite := fun s hs hn => hname ⟨s, hs, hn⟩
    have hlook := lookup_unnamed hnone
    have hmiss : ∀ s ∈ c.suites, s.name = suite → ∀ t ∈ s.tests, t.name ≠ test :=
      fun s hs hn => absurd hn (hnone s hs)
    cases hl : c.suites.getLast? with
    | none =>
      rw [hl] at hlook
      refine iff_of_true ⟨fun s hs hn => absurd hn (hnone s hs), fun _ => ?_⟩
        (Or.inr fun s hs => by cases hs)
      exact @runOp_missing env c (.case suite test) st (by simp [opSelection, hlook])
    | some s =>
      rw [hl] at hlook
      cases ht : testLookupCase s test with
      | none =>
        refine iff_of_true ⟨fun s hs hn => absurd hn (hnone s hs), fun _ => ?_⟩ (Or.inr ?_)
        · exact @runOp_missing env c (.case suite test) st (by simp [opSelection, hlook, ht])
        · intro s' hs'
          cases hs'
          simpa using lookupCase_none_iff.mp ht
      | some t =>
        refine iff_of_false ?_ ?_
        · rintro ⟨-, hnothing⟩
          obtain ⟨-, evs, he⟩ := @runOp_single env c (.case suite test) s [t] st hw
            (by simp [opSelection, hlook, ht])
          exact not_runsNothing he (hnothing hmiss)
        · rintro (h | h)
          · exact hname h
          · obtain ⟨hm, hn⟩ := lookupCase_mem ht
            exact h s rfl t hm hn

/-- **Runs by name meet their contract exactly when the lookup does not fall back on the last
suite.** -/
theorem run_by_name_iff {sighandle leakwatch : Bool} {ops : List RegisterOp}
    (hreg : registerAll (testContextInit sighandle leakwatch) ops = .ok c) {st : RunState}
    (hw : st.leak.Counted) (suite test : CString) :
    (SuiteRunOk env c suite st ↔ (∃ s ∈ c.suites, s.name = suite) ∨ c.suites = []) ∧
      (CaseRunOk env c suite test st ↔ (∃ s ∈ c.suites, s.name = suite) ∨
        ∀ s, c.suites.getLast? = some s → ∀ t ∈ s.tests, t.name ≠ test) := by
  obtain ⟨hc, _⟩ := registerAll_spec hreg
  exact ⟨suiteRunOk_iff hc hw, caseRunOk_iff hc hw⟩

/-- The registrations behind `pairContext`. -/
def pairOps : List RegisterOp :=
  [.addExtended "s" "a" none none (some 1) NULL none,
    .addExtended "s" "b" none none (some 2) NULL none]

theorem run_by_name_pair :
    SuiteRunOk Env.idle (pairContext true false) "s" RunState.start ∧
      CaseRunOk Env.idle (pairContext true false) "s" "b" RunState.start := by
  obtain ⟨hsuite, hcase⟩ := @run_by_name_iff Env.idle (pairContext true false) true false pairOps
    rfl RunState.start rfl "s" "b"
  exact ⟨hsuite.mpr (Or.inl (by decide)), hcase.mpr (Or.inl (by decide))⟩

/-- Running a suite that does not exist runs the one that does. -/
theorem missing_suite_runs_last :
    ¬ ∀ (env : Env) (sighandle leakwatch : Bool) (ops : List RegisterOp) (c : TestContext)
        (st : RunState) (suite test : CString),
      registerAll (testContextInit sighandle leakwatch) ops = .ok c → st.leak.Counted →
        SuiteRunOk env c suite st ∧ CaseRunOk env c suite test st := by
  intro h
  obtain ⟨⟨-, hnothing⟩, -⟩ := h Env.idle true false pairOps (pairContext true false)
    RunState.start "t" "a" rfl rfl
  have hexec := (hnothing (by decide)).2.1
  revert hexec
  decide

end Tinu
