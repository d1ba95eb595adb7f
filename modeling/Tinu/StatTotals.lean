import Tinu.RunByName
import Tinu.Statistics

/-!
# The statistics over whole runs

`StatInv` is the invariant of the statistics in each phase of the event stream.

* `StatInv.step` — one event keeps it;
* `StatInv.sound` — it says that the totals, the counters and the verdicts agree with the records;
* `statistics_add_up` — they do so in every state of every run.
-/

set_option autoImplicit false

namespace Tinu

/-! ## The shape of the statistics in each phase -/

/-- The records of all tests. -/
def TestStatistics.records (self : TestStatistics) : List StatTestInfo :=
  self.suites.flatMap fun s => s.tests

/-- Between suites. -/
def TestStatistics.between (self : TestStatistics) (done : List StatSuiteInfo) : TestStatistics :=
  { self with suites := done, suiteCurrent := none, testCurrent := none }

/-- Inside the suite `cur`. -/
def TestStatistics.inSuite (self : TestStatistics) (done : List StatSuiteInfo)
    (cur : StatSuiteInfo) : TestStatistics :=
  { self with suites := done ++ [cur], suiteCurrent := some done.length, testCurrent := none }

/-- The suite `cur` with the test `r`, after its tests so far. -/
def StatSuiteInfo.running (cur : StatSuiteInfo) (r : StatTestInfo) : StatSuiteInfo :=
  { cur with tests := cur.tests ++ [r] }

/-- Inside the test `r` of the suite `cur`. -/
def TestStatistics.inTest (self : TestStatistics) (done : List StatSuiteInfo)
    (cur : StatSuiteInfo) (r : StatTestInfo) : TestStatistics :=
  { self with
    suites := done ++ [cur.running r]
    suiteCurrent := some done.length
    testCurrent := some (done.length, cur.tests.length) }

variable {self : TestStatistics} {done : List StatSuiteInfo} {cur : StatSuiteInfo}
  {r : StatTestInfo}

def StatTestInfo.counted (r : StatTestInfo) (condition : Bool) : StatTestInfo :=
  { r with
    assertions := guintIncr r.assertions
    assertionsPassed := if condition then guintIncr r.assertionsPassed else r.assertionsPassed }

def StatSuiteInfo.counted (s : StatSuiteInfo) (condition : Bool) : StatSuiteInfo :=
  { s with
    assertions := guintIncr s.assertions
    assertionsPassed := if condition then guintIncr s.assertionsPassed else s.assertionsPassed }

/-! ## What each hook does there -/

theorem modify_concat {α : Type} (f : α → α) :
    ∀ (l : List α) (x : α), (l ++ [x]).modify l.length f = l ++ [f x]
  | [], _ => rfl
  | y :: l, x => congrArg (y :: ·) (modify_concat f l x)

theorem statHookCaseBegin_inSuite (now : Int) (t : TestCase) :
    statHookCaseBegin now (self.inSuite done cur) t =
      some (self.inTest done cur ⟨t, .passed, now, 0, 0, 0, 0⟩) := by
  simp [statHookCaseBegin, TestStatistics.inSuite, TestStatistics.inTest, StatSuiteInfo.running,
    TestStatistics.suite?, TestStatistics.onSuite, modify_concat]

theorem statHookAssert_inTest (condition : Bool) :
    statHookAssert (self.inTest done cur r) condition =
      some (self.inTest done (cur.counted condition) (r.counted condition)) := by
  cases condition <;>
    simp [statHookAssert, TestStatistics.inTest, StatSuiteInfo.running, TestStatistics.onSuite,
      TestStatistics.onTest, StatSuiteInfo.counted, StatTestInfo.counted, modify_concat]

theorem statHookLeakwatch_inTest (bytes : Nat) :
    statHookLeakwatch (self.inTest done cur r) r.test bytes =
      some (self.inTest done cur { r with leakedBytes := bytes }, []) := by
  simp [statHookLeakwatch, TestStatistics.inTest, StatSuiteInfo.running, TestStatistics.test?,
    TestStatistics.onTest, modify_concat]

theorem statHookCaseEnd_inTest (now : Int) (v : TestCaseResult) :
    statHookCaseEnd now (self.inTest done cur r) r.test v =
      (self.countVerdict v).map fun self =>
        (self.inSuite done (cur.running { r with stop := now, result := v }), []) := by
  cases v <;>
    simp [statHookCaseEnd, TestStatistics.inTest, StatSuiteInfo.running, TestStatistics.inSuite,
      TestStatistics.test?, TestStatistics.onTest, TestStatistics.countVerdict, modify_concat]

theorem statHookSuiteEnd_inSuite (now : Int) (res : Bool) :
    statHookSuiteEnd now (self.inSuite done cur) cur.suite res =
      some (self.between (done ++ [{ cur with stop := now, result := res }]), []) := by
  simp [statHookSuiteEnd, TestStatistics.inSuite, TestStatistics.between, TestStatistics.suite?,
    TestStatistics.onSuite, modify_concat]

/-! ## The invariant -/

/-- A verdict that counts as a failure. -/
def TestCaseResult.isFailure (v : TestCaseResult) : Bool := v != .none && v != .passed

/-- The counters count the verdicts given so far; there were at most `k`. -/
structure Tally (k : Nat) (stat : TestStatistics) (vs : List TestCaseResult) : Prop where
  passed : stat.passed = vs.count .passed
  sigsegv : stat.sigsegv = vs.count .segfault
  failed : stat.failed = vs.countP TestCaseResult.isFailure
  bound : stat.passed + stat.failed ≤ k

theorem Tally.mono {k : Nat} {vs : List TestCaseResult} (h : Tally k self vs) :
    Tally (k + 1) self vs := ⟨h.passed, h.sigsegv, h.failed, Nat.le_succ_of_le h.bound⟩

/-- A segmentation fault counts as a failure too. -/
theorem Tally.sigsegv_le {k : Nat} {vs : List TestCaseResult} (h : Tally k self vs) :
    self.sigsegv ≤ self.failed := by
  rw [h.sigsegv, h.failed]
  refine List.countP_mono_left fun v _ hv => ?_
  rw [beq_iff_eq.mp hv]
  rfl

theorem Tally.countVerdict {k : Nat} {vs : List TestCaseResult} {v : TestCaseResult}
    (h : Tally k self vs) (hv : v ≠ .none) (hk : k + 1 < guint32Range) :
    ∃ self', self.countVerdict v = some self' ∧ Tally (k + 1) self' (vs ++ [v]) := by
  obtain ⟨hp, hs, hf, hb⟩ := h
  have hle := Tally.sigsegv_le ⟨hp, hs, hf, hb⟩
  have hp' : guintIncr (vs.count .passed) = vs.count .passed + 1 := guintIncr_of_lt (by omega)
  have hs' : guintIncr (vs.count .segfault) = vs.count .segfault + 1 := guintIncr_of_lt (by omega)
  have hf' : guintIncr (vs.countP TestCaseResult.isFailure) =
      vs.countP TestCaseResult.isFailure + 1 := guintIncr_of_lt (by omega)
  cases v with
  | none => exact absurd rfl hv
  | _ =>
    refine ⟨_, rfl, ?_, ?_, ?_, ?_⟩ <;>
      (simp [hp, hs, hf, hp', hs', hf', TestCaseResult.isFailure]; try omega)

/-- What holds of a suite in every state; it has at most `k` assertions. -/
structure SuiteInv (k : Nat) (s : StatSuiteInfo) : Prop where
  assertions : s.assertions = (s.tests.map fun r => r.assertions).sum
  assertionsPassed : s.assertionsPassed = (s.tests.map fun r => r.assertionsPassed).sum
  le : ∀ r ∈ s.tests, r.assertionsPassed ≤ r.assertions
  bound : s.assertions ≤ k

theorem SuiteInv.mono {k : Nat} {s : StatSuiteInfo} (h : SuiteInv k s) : SuiteInv (k + 1) s :=
  ⟨h.assertions, h.assertionsPassed, h.le, Nat.le_succ_of_le h.bound⟩

theorem SuiteInv.passed_le {k : Nat} {s : StatSuiteInfo} (h : SuiteInv k s) :
    s.assertionsPassed ≤ s.assertions := by
  rw [h.assertions, h.assertionsPassed]
  exact List.sum_le_sum h.le

theorem SuiteInv.counted {k : Nat} (h : SuiteInv k (cur.running r)) (condition : Bool)
    (hk : k + 1 < guint32Range) :
    SuiteInv (k + 1) ((cur.counted condition).running (r.counted condition)) := by
  have hb : cur.assertions ≤ k := h.bound
  have hle : cur.assertionsPassed ≤ cur.assertions := h.passed_le
  have hsum : cur.assertions = (cur.tests.map fun r => r.assertions).sum + r.assertions := by
    simpa [StatSuiteInfo.running] using h.assertions
  have hsump : cur.assertionsPassed =
      (cur.tests.map fun r => r.assertionsPassed).sum + r.assertionsPassed := by
    simpa [StatSuiteInfo.running] using h.assertionsPassed
  have hr : r.assertionsPassed ≤ r.assertions := h.le r (by simp [StatSuiteInfo.running])
  have h1 : guintIncr cur.assertions = cur.assertions + 1 := guintIncr_of_lt (by omega)
  have h2 : guintIncr cur.assertionsPassed = cur.assertionsPassed + 1 := guintIncr_of_lt (by omega)
  have h3 : guintIncr r.assertions = r.assertions + 1 := guintIncr_of_lt (by omega)
  have h4 : guintIncr r.assertionsPassed = r.assertionsPassed + 1 := guintIncr_of_lt (by omega)
  refine ⟨?_, ?_, ?_, ?_⟩
  · simp [StatSuiteInfo.running, StatSuiteInfo.counted, StatTestInfo.counted, h1, h3]
    omega
  · cases condition <;>
      simp [StatSuiteInfo.running, StatSuiteInfo.counted, StatTestInfo.counted, h2, h4] <;>
      omega
  · intro x hx
    rcases List.mem_append.mp hx with hx | hx
    · exact h.le x (List.mem_append_left _ hx)
    · rw [List.mem_singleton.mp hx]
      cases condition <;> simp [StatTestInfo.counted, h3, h4] <;> omega
  · show guintIncr cur.assertions ≤ k + 1
    omega

/-- The test has its verdict. -/
structure StatTestInfo.Settled (r : StatTestInfo) : Prop where
  result : r.result ≠ .none
  passed : r.result = .passed → r.assertionsPassed = r.assertions

/-- So have all tests of the suite. -/
def StatSuiteInfo.Settled (s : StatSuiteInfo) : Prop := ∀ r ∈ s.tests, r.Settled

def StatSuiteInfo.allPassed (s : StatSuiteInfo) : Bool := s.tests.all fun r => r.result == .passed

/-- The verdicts of the tests of suites, in order. -/
def verdictsIn (suites : List StatSuiteInfo) : List TestCaseResult :=
  suites.flatMap fun s => s.tests.map fun r => r.result

/-- A suite that was left. -/
structure Finished (k : Nat) (s : StatSuiteInfo) : Prop where
  inv : SuiteInv k s
  settled : s.Settled
  result : s.result = s.allPassed

theorem Finished.mono {k : Nat} {s : StatSuiteInfo} (h : Finished k s) : Finished (k + 1) s :=
  ⟨h.inv.mono, h.settled, h.result⟩

/-- The statistics in each phase, after at most `k` events. -/
inductive StatInv (k : Nat) : StreamPhase → TestStatistics → Prop
  | idle {self : TestStatistics} {done : List StatSuiteInfo} (hdone : ∀ s ∈ done, Finished k s)
      (tally : Tally k self (verdictsIn done)) : StatInv k .idle (self.between done)
  | inSuite {self : TestStatistics} {done : List StatSuiteInfo} {cur : StatSuiteInfo}
      (hdone : ∀ s ∈ done, Finished k s) (hcur : SuiteInv k cur) (hset : cur.Settled)
      (tally : Tally k self (verdictsIn (done ++ [cur]))) :
      StatInv k (.inSuite cur.suite cur.allPassed) (self.inSuite done cur)
  | inTest {self : TestStatistics} {done : List StatSuiteInfo} {cur : StatSuiteInfo}
      {r : StatTestInfo} {good signalled reported : Bool} (hdone : ∀ s ∈ done, Finished k s)
      (hcur : SuiteInv k (cur.running r)) (hset : cur.Settled)
      (hgood : good = true → r.assertionsPassed = r.assertions)
      (tally : Tally k self (verdictsIn (done ++ [cur]))) :
      StatInv k (.inTest cur.suite cur.allPassed r.test good signalled reported)
        (self.inTest done cur r)

theorem statNew_inv : StatInv 0 .idle statNew :=
  @StatInv.idle _ statNew [] (fun _ h => (List.not_mem_nil h).elim) ⟨rfl, rfl, rfl, Nat.le_refl _⟩

/-! ## One event -/

variable {k : Nat} {s : TestSuite} {t : TestCase} {ok good signalled reported : Bool}

theorem StatInv.suiteBegin (h : StatInv k .idle self) (now : Int) (s : TestSuite) :
    StatInv (k + 1) (.inSuite s true) (statHookSuiteBegin now self s) := by
  cases h with
  | @idle self done hdone tally =>
    have hempty : ∀ r, r ∉ ([] : List StatTestInfo) := fun r => List.not_mem_nil
    refine @StatInv.inSuite _ self done ⟨s, false, now, 0, 0, 0, []⟩
      (fun s hs => (hdone s hs).mono)
      ⟨rfl, rfl, fun r hr => absurd hr (hempty r), Nat.zero_le _⟩
      (fun r hr => absurd hr (hempty r)) ?_
    simpa [verdictsIn] using tally.mono

theorem StatInv.caseBegin (h : StatInv k (.inSuite s ok) self) (now : Int) (t : TestCase) :
    ∃ self', statHookCaseBegin now self t = some self' ∧
      StatInv (k + 1) (.inTest s ok t true false false) self' := by
  cases h with
  | @inSuite self done cur hdone hcur hset tally =>
    refine ⟨_, statHookCaseBegin_inSuite now t,
      .inTest (r := ⟨t, .passed, now, 0, 0, 0, 0⟩) (fun s hs => (hdone s hs).mono) ?_ hset
        (fun _ => rfl) tally.mono⟩
    refine ⟨?_, ?_, ?_, Nat.le_succ_of_le hcur.bound⟩
    · simpa [StatSuiteInfo.running] using hcur.assertions
    · simpa [StatSuiteInfo.running] using hcur.assertionsPassed
    · intro r hr
      rcases List.mem_append.mp hr with hr | hr
      · exact hcur.le r hr
      · rw [List.mem_singleton.mp hr]

theorem StatInv.assert (h : StatInv k (.inTest s ok t good signalled reported) self)
    (condition : Bool) (hk : k + 1 < guint32Range) :
    ∃ self', statHookAssert self condition = some self' ∧
      StatInv (k + 1) (.inTest s ok t (good && condition) signalled reported) self' := by
  cases h with
  | @inTest self done cur r _ _ _ hdone hcur hset hgood tally =>
    refine ⟨_, statHookAssert_inTest condition,
      @StatInv.inTest _ self done (cur.counted condition) (r.counted condition) _ _ _
        (fun s hs => (hdone s hs).mono) (hcur.counted condition hk) hset ?_ ?_⟩
    · intro hg
      obtain ⟨hg', rfl⟩ := (Bool.and_eq_true_iff).mp hg
      simp [StatTestInfo.counted, hgood hg']
    · simpa [verdictsIn, StatSuiteInfo.counted] using tally.mono

/-- A signal is not listened to; it rules out that the test passes. -/
theorem StatInv.signal (h : StatInv k (.inTest s ok t good signalled reported) self) :
    StatInv (k + 1) (.inTest s ok t false true reported) self := by
  cases h with
  | inTest hdone hcur hset hgood tally =>
    exact .inTest (fun s hs => (hdone s hs).mono) hcur.mono hset (fun h => nomatch h) tally.mono

/-- The totals do not depend on anything else in the record of the running test. -/
theorem SuiteInv.congr {r' : StatTestInfo} (h : SuiteInv k (cur.running r))
    (ha : r'.assertions = r.assertions) (hp : r'.assertionsPassed = r.assertionsPassed) :
    SuiteInv k (cur.running r') := by
  obtain ⟨h1, h2, h3, h4⟩ := h
  refine ⟨?_, ?_, ?_, h4⟩
  · simpa [StatSuiteInfo.running, ha] using h1
  · simpa [StatSuiteInfo.running, hp] using h2
  · intro x hx
    rcases List.mem_append.mp hx with hx | hx
    · exact h3 x (List.mem_append_left _ hx)
    · rw [List.mem_singleton.mp hx, ha, hp]
      exact h3 r (List.mem_append_right _ (List.mem_singleton.mpr rfl))

theorem StatInv.leakInfo (h : StatInv k (.inTest s ok t good signalled reported) self)
    (bytes : Nat) :
    ∃ self', statHookLeakwatch self t bytes = some (self', []) ∧
      StatInv (k + 1) (.inTest s ok t good signalled true) self' := by
  cases h with
  | @inTest self done cur r _ _ _ hdone hcur hset hgood tally =>
    exact ⟨_, statHookLeakwatch_inTest bytes,
      .inTest (r := { r with leakedBytes := bytes }) (fun s hs => (hdone s hs).mono)
        (hcur.mono.congr rfl rfl) hset hgood tally.mono⟩

theorem StatInv.caseEnd (h : StatInv k (.inTest s ok t good signalled reported) self)
    (now : Int) {v : TestCaseResult} (hv : v ≠ .none) (hp : v = .passed → good = true)
    (hk : k + 1 < guint32Range) :
    ∃ self', statHookCaseEnd now self t v = some (self', []) ∧
      StatInv (k + 1) (.inSuite s (ok && v == .passed)) self' := by
  cases h with
  | @inTest self done cur r _ _ _ hdone hcur hset hgood tally =>
    obtain ⟨self', hcount, tally'⟩ := tally.countVerdict hv hk
    have hall : (cur.running { r with stop := now, result := v }).allPassed =
        (cur.allPassed && v == .passed) := by
      simp [StatSuiteInfo.allPassed, StatSuiteInfo.running]
    refine ⟨_, by rw [statHookCaseEnd_inTest, hcount]; rfl, ?_⟩
    rw [← hall]
    refine @StatInv.inSuite _ self' done (cur.running { r with stop := now, result := v })
      (fun s hs => (hdone s hs).mono) (hcur.mono.congr rfl rfl) ?_ ?_
    · intro x hx
      rcases List.mem_append.mp hx with hx | hx
      · exact hset x hx
      · rw [List.mem_singleton.mp hx]
        exact ⟨hv, fun hres => hgood (hp hres)⟩
    · simpa [verdictsIn, StatSuiteInfo.running] using tally'

theorem StatInv.suiteEnd (h : StatInv k (.inSuite s ok) self) (now : Int) :
    ∃ self', statHookSuiteEnd now self s ok = some (self', []) ∧
      StatInv (k + 1) .idle self' := by
  cases h with
  | @inSuite self done cur hdone hcur hset tally =>
    refine ⟨_, statHookSuiteEnd_inSuite now _, .idle ?_ ?_⟩
    · intro x hx
      rcases List.mem_append.mp hx with hx | hx
      · exact (hdone x hx).mono
      · rw [List.mem_singleton.mp hx]
        exact ⟨⟨hcur.assertions, hcur.assertionsPassed, hcur.le,
          Nat.le_succ_of_le hcur.bound⟩, hset, rfl⟩
    · simpa [verdictsIn] using tally.mono

/-- **One event that keeps to the protocol** is taken without a fault and without a message, and
keeps the invariant. -/
theorem StatInv.step {leak : Bool} {p p' : StreamPhase} {e : HookEvent} (h : StatInv k p self)
    (hstep : p.step leak e = some p') (hk : k + 1 < guint32Range) (now : Int) :
    ∃ self', statHook now self e = some (self', []) ∧ StatInv (k + 1) p' self' := by
  cases StreamPhase.step_cases hstep with
  | suiteBegin s => exact ⟨_, rfl, h.suiteBegin now s⟩
  | suiteEnd s ok => exact h.suiteEnd now
  | caseBegin s ok t =>
    obtain ⟨self', hrun, h'⟩ := h.caseBegin now t
    exact ⟨self', by simp [statHook, HookEvent.id, gStatHooks, StatCallback.run, hrun], h'⟩
  | assert condition file func line =>
    obtain ⟨self', hrun, h'⟩ := h.assert condition hk
    exact ⟨self', by simp [statHook, HookEvent.id, gStatHooks, StatCallback.run, hrun], h'⟩
  | signal signo =>
    refine ⟨self, ?_, h.signal⟩
    cases signo <;> rfl
  | leakInfo bytes hleak => exact h.leakInfo bytes
  | caseEnd hv hp => exact h.caseEnd now hv hp hk

/-- A message is counted, and nothing else changes. -/
theorem StatInv.message {p : StreamPhase} (h : StatInv k p self) (priority : Fin 8) :
    StatInv k p (statMessageCounter self priority) := by
  cases h with
  | @idle self done hdone tally =>
    exact @StatInv.idle k (statMessageCounter self priority) done hdone
      ⟨tally.passed, tally.sigsegv, tally.failed, tally.bound⟩
  | @inSuite self done cur hdone hcur hset tally =>
    exact @StatInv.inSuite k (statMessageCounter self priority) done cur hdone hcur hset
      ⟨tally.passed, tally.sigsegv, tally.failed, tally.bound⟩
  | @inTest self done cur r _ _ _ hdone hcur hset hgood tally =>
    exact @StatInv.inTest k (statMessageCounter self priority) done cur r _ _ _ hdone hcur hset
      hgood ⟨tally.passed, tally.sigsegv, tally.failed, tally.bound⟩

theorem statInv_keeps (leak : Bool) : StatKeeps leak (fun k => k + 1 < guint32Range) StatInv where
  step := StatInv.step
  message := StatInv.message

/-! ## What it says -/

/-- The `j`-th record of the `i`-th suite. -/
def TestStatistics.record (self : TestStatistics) (i j : Nat) : Option StatTestInfo :=
  self.suites[i]?.bind fun s => s.tests[j]?

/-- What holds of the statistics whenever they are looked at; `m_result` means nothing yet in the
record of the test that is in progress. -/
structure StatOk (stat : TestStatistics) : Prop where
  totals : ∀ s ∈ stat.suites,
    s.assertions = (s.tests.map fun r => r.assertions).sum ∧
      s.assertionsPassed = (s.tests.map fun r => r.assertionsPassed).sum ∧
      s.assertionsPassed ≤ s.assertions
  counters : stat.testCurrent = none →
    stat.passed + stat.failed = stat.records.length ∧
      stat.passed = stat.records.countP (fun r => r.result = .passed) ∧
      stat.sigsegv = stat.records.countP (fun r => r.result = .segfault) ∧
      stat.failed = stat.records.countP (fun r => r.result ≠ .passed)
  passed : ∀ i j r, stat.record i j = some r → stat.testCurrent ≠ some (i, j) →
    r.result = .passed → r.assertionsPassed = r.assertions
  results : ∀ i s, stat.suites[i]? = some s → stat.suiteCurrent ≠ some i →
    (s.result = true ↔ ∀ r ∈ s.tests, r.result = .passed)

/-- The verdicts are those of the records. -/
theorem verdictsIn_eq (self : TestStatistics) :
    verdictsIn self.suites = self.records.map fun r => r.result := by
  simp [verdictsIn, TestStatistics.records, List.map_flatMap]

/-- With a verdict in every record the counters count the records. -/
theorem Tally.counters {self stat : TestStatistics} (h : Tally k self (verdictsIn stat.suites))
    (hset : ∀ s ∈ stat.suites, s.Settled) :
    self.passed + self.failed = stat.records.length ∧
      self.passed = stat.records.countP (fun r => r.result = .passed) ∧
      self.sigsegv = stat.records.countP (fun r => r.result = .segfault) ∧
      self.failed = stat.records.countP (fun r => r.result ≠ .passed) := by
  obtain ⟨hp, hs, hf, _⟩ := h
  rw [verdictsIn_eq] at hp hs hf
  rw [List.count, List.countP_map] at hp hs
  rw [List.countP_map] at hf
  have hp' : self.passed = stat.records.countP (fun r => r.result = .passed) := hp
  have hf' : self.failed = stat.records.countP (fun r => r.result ≠ .passed) := by
    rw [hf]
    refine List.countP_congr fun r hr => ?_
    obtain ⟨s, hs, hr⟩ := List.mem_flatMap.mp hr
    have hne := (hset s hs r hr).result
    simp [TestCaseResult.isFailure, hne]
  refine ⟨?_, hp', hs, hf'⟩
  rw [hp', hf']
  simpa using (List.length_eq_countP_add_countP
    (fun r : StatTestInfo => decide (r.result = TestCaseResult.passed))).symm

theorem Finished.result_iff {s : StatSuiteInfo} (h : Finished k s) :
    s.result = true ↔ ∀ r ∈ s.tests, r.result = .passed := by
  rw [h.result, StatSuiteInfo.allPassed, List.all_eq_true]
  simp

/-- What is not the last element is one of those before. -/
theorem mem_of_getElem?_concat {α : Type} {l : List α} {x a : α} {i : Nat}
    (h : (l ++ [x])[i]? = some a) (hne : i ≠ l.length) : a ∈ l := by
  have hlt := (List.getElem?_eq_some_iff.mp h).1
  rw [List.length_append, List.length_singleton] at hlt
  rw [List.getElem?_append_left (by omega)] at h
  exact List.mem_of_getElem? h

theorem SuiteInv.totals {s : StatSuiteInfo} (h : SuiteInv k s) :
    s.assertions = (s.tests.map fun r => r.assertions).sum ∧
      s.assertionsPassed = (s.tests.map fun r => r.assertionsPassed).sum ∧
      s.assertionsPassed ≤ s.assertions :=
  ⟨h.assertions, h.assertionsPassed, h.passed_le⟩

theorem record_settled {stat : TestStatistics} (hall : ∀ s ∈ stat.suites, s.Settled) {i j : Nat}
    {r : StatTestInfo} (hr : stat.record i j = some r) : r.Settled := by
  obtain ⟨s, hs, hr⟩ := Option.bind_eq_some_iff.mp hr
  exact hall s (List.mem_of_getElem? hs) r (List.mem_of_getElem? hr)

/-- The suites before the one in progress have their results. -/
theorem done_results (hdone : ∀ s ∈ done, Finished k s) (i : Nat) (s : StatSuiteInfo)
    (hi : (done ++ [cur])[i]? = some s) (hne : some done.length ≠ some i) :
    s.result = true ↔ ∀ r ∈ s.tests, r.result = .passed := by
  have hlast : i ≠ done.length := fun h => hne (congrArg some h.symm)
  exact (hdone s (mem_of_getElem?_concat hi hlast)).result_iff

/-- **The invariant says what it is for.** -/
theorem StatInv.sound {p : StreamPhase} (h : StatInv k p self) : StatOk self := by
  cases h with
  | @idle self done hdone tally =>
    have hset : ∀ s ∈ done, s.Settled := fun s hs => (hdone s hs).settled
    refine ⟨fun s hs => (hdone s hs).inv.totals, fun _ => ?_, ?_, ?_⟩
    · exact @Tally.counters k self (self.between done) tally hset
    · intro i j r hr _
      exact (@record_settled (self.between done) hset i j r hr).passed
    · intro i s hi _
      exact (hdone s (List.mem_of_getElem? hi)).result_iff
  | @inSuite self done cur hdone hcur hset tally =>
    have hall : ∀ s ∈ done ++ [cur], SuiteInv k s ∧ s.Settled := by
      intro s hs
      rcases List.mem_append.mp hs with hs | hs
      · exact ⟨(hdone s hs).inv, (hdone s hs).settled⟩
      · rw [List.mem_singleton.mp hs]
        exact ⟨hcur, hset⟩
    refine ⟨fun s hs => (hall s hs).1.totals, fun _ => ?_, ?_, done_results hdone⟩
    · exact @Tally.counters k self (self.inSuite done cur) tally fun s hs => (hall s hs).2
    · intro i j r hr _
      exact (@record_settled (self.inSuite done cur) (fun s hs => (hall s hs).2) i j r hr).passed
  | @inTest self done cur r0 _ _ _ hdone hcur hset hgood tally =>
    have hall : ∀ s ∈ done ++ [cur.running r0], SuiteInv k s := by
      intro s hs
      rcases List.mem_append.mp hs with hs | hs
      · exact (hdone s hs).inv
      · rw [List.mem_singleton.mp hs]
        exact hcur
    refine ⟨fun s hs => (hall s hs).totals, (fun h => nomatch h), ?_, done_results hdone⟩
    intro i j r hr hne
    obtain ⟨s, hs, hr⟩ := Option.bind_eq_some_iff.mp hr
    have hs : (done ++ [cur.running r0])[i]? = some s := hs
    by_cases hi : i = done.length
    · -- the suite in progress: the record is not the last one
      subst hi
      rw [List.getElem?_concat_length] at hs
      obtain rfl : cur.running r0 = s := Option.some.inj hs
      have hj : j ≠ cur.tests.length := by
        rintro rfl
        exact hne rfl
      exact (hset r (mem_of_getElem?_concat hr hj)).passed
    · exact ((hdone s (mem_of_getElem?_concat hs hi)).settled r (List.mem_of_getElem? hr)).passed

/-! ## Every run -/

/-- The events of the calls `ops`, made from `st`. -/
def runEvents (env : Env) (c : TestContext) (ops : List RunOp) (st : RunState) : List HookEvent :=
  (runOps env c ops st).2.events.drop st.events.length

/-- **The events of every run are those of its selection**: all of them, or up to the test that
ended the process. -/
theorem runEvents_spec {env : Env} {c : TestContext} (ops : List RunOp) {st : RunState}
    (hw : st.leak.Counted) :
    ((∃ res, (runOps env c ops st).1 = some res) ∧
        SuiteBlocks (env.seen c st (opsSelection c ops).tests) c st.executed.length
          (opsSelection c ops) (runEvents env c ops st)) ∨
      (runOps env c ops st).1 = none ∧
        ∃ ran, SuitesCut (env.seen c st (opsSelection c ops).tests) c st.executed.length
          (opsSelection c ops) ran (runEvents env c ops st) := by
  unfold runEvents
  rcases @runOps_spec env c ops st hw with ⟨st', evs, hrun, _, hb, hm⟩ |
    ⟨st', ran, evs, hrun, hb, hm⟩
  · rw [hrun]
    refine Or.inl ⟨⟨_, rfl⟩, ?_⟩
    show SuiteBlocks _ c _ _ (st'.events.drop _)
    rw [hm.events, List.drop_left]
    exact hb
  · rw [hrun]
    refine Or.inr ⟨rfl, ran, ?_⟩
    show SuitesCut _ c _ _ ran (st'.events.drop _)
    rw [hm.events, List.drop_left]
    exact hb

/-- Every beginning of the events of a run keeps to the protocol, if the contexts are switched
to. -/
theorem runEvents_follow {env : Env} {c : TestContext} (ops : List RunOp) {st : RunState}
    (hw : st.leak.Counted)
    (hctx : CtxOk env c st.executed.length (Selection.tests (opsSelection c ops)))
    {pre : List HookEvent} (hpre : pre <+: runEvents env c ops st) :
    ∃ p, StreamPhase.idle.follow c.leakwatch pre = some p := by
  rcases @runEvents_spec env c ops st hw with ⟨_, hb⟩ | ⟨_, ran, hb⟩
  · exact follow_prefix (hb.follow (hctx.seen _ _)) hpre
  · obtain ⟨q, hq⟩ := hb.follow fun i hi => hctx.seen _ _ i
      (Nat.lt_of_lt_of_le hi hb.prefix.length_le)
    exact follow_prefix hq hpre

/-- **In every state of every run the statistics agree with their records.**  `is` is what they
were told so far: a beginning of the events, and messages. -/
theorem statistics_add_up {env : Env} {c : TestContext} (ops : List RunOp) {st : RunState}
    (hw : st.leak.Counted) (hctx : ∀ n, ctxFailed env c n = false) (clock : Nat → Int)
    {is : List StatInput} (his : is.filterMap StatInput.event <+: runEvents env c ops st)
    (hlen : (is.filterMap StatInput.event).length < guint32Range) :
    ∃ stat, statRun clock 0 is statNew = some (stat, []) ∧ StatOk stat := by
  obtain ⟨p, hp⟩ := runEvents_follow ops hw (fun i _ => hctx _) his
  obtain ⟨stat, hrun, h⟩ := (statInv_keeps c.leakwatch).run clock is 0 statNew_inv hp
    fun j hj => by omega
  exact ⟨stat, hrun, h.sound⟩

/-- A failing assertion, an abort, and a test that passes; a message comes first. -/
theorem statistics_add_up_aborting :
    ∃ stat, statRun (fun n => n) 0 (.message 3 ::
        (runEvents abortingEnv (pairContext true true) [.all] RunState.start).map .hook) statNew =
      some (stat, []) ∧ StatOk stat := by
  have hevents : (StatInput.message 3 ::
      (runEvents abortingEnv (pairContext true true) [.all] RunState.start).map .hook).filterMap
        StatInput.event = runEvents abortingEnv (pairContext true true) [.all] RunState.start := by
    rw [List.filterMap_cons_none rfl, List.filterMap_map]
    exact List.filterMap_some
  refine @statistics_add_up abortingEnv (pairContext true true) [.all] RunState.start rfl
    (fun _ => rfl) _ _ ?_ ?_
  · exact ⟨[], by rw [List.append_nil, hevents]⟩
  · rw [hevents]
    decide

example : ((statRun (fun n => n) 0
    ((runEvents abortingEnv (pairContext true false) [.all] RunState.start).map .hook) statNew).map
      fun r => (r.1.passed, r.1.failed, r.1.sigsegv)) = some (1, 1, 0) := by decide

/-- The test fails its only assertion. -/
def failingEnv : Env :=
  { Env.idle with exec := fun _ _ => [.assert ⟨false, "", "", "", "", 1, []⟩] }

/-- While a test is in progress its record has a result that no hook gave it: `TEST_PASSED`, even
after a failed assertion. -/
theorem running_record_passed :
    ¬ ∀ (env : Env) (c : TestContext) (ops : List RunOp) (st : RunState) (clock : Nat → Int)
        (is : List StatInput), st.leak.Counted → (∀ n, ctxFailed env c n = false) →
      is.filterMap StatInput.event <+: runEvents env c ops st →
        (is.filterMap StatInput.event).length < guint32Range →
          ∃ stat, statRun clock 0 is statNew = some (stat, []) ∧
            ∀ r ∈ stat.records, r.result = .passed → r.assertionsPassed = r.assertions := by
  intro h
  obtain ⟨stat, hrun, hall⟩ := h failingEnv (pairContext true false) [.all] RunState.start
    (fun n => n) (((runEvents failingEnv (pairContext true false) [.all] RunState.start).take
      3).map .hook) rfl (fun _ => rfl) (by decide) (by decide)
  have hbad : ((statRun (fun n => n) 0 (((runEvents failingEnv (pairContext true false) [.all]
      RunState.start).take 3).map .hook) statNew).all fun p => p.1.records.all fun r =>
        r.result != .passed || r.assertionsPassed == r.assertions) = false := by decide
  rw [hrun] at hbad
  simp only [Option.all_some, List.all_eq_false, Bool.or_eq_true, bne_iff_ne, beq_iff_eq] at hbad
  obtain ⟨r, hr, hbad⟩ := hbad
  rw [not_or, not_not] at hbad
  exact hbad.2 (hall r hr hbad.1)

/-! ## The pointers of the statistics -/

/-- The statistics in each phase, whatever their counters are. -/
inductive StatShape : StreamPhase → TestStatistics → Prop
  | idle (self : TestStatistics) (done : List StatSuiteInfo) : StatShape .idle (self.between done)
  | inSuite (self : TestStatistics) (done : List StatSuiteInfo) (cur : StatSuiteInfo) (ok : Bool) :
      StatShape (.inSuite cur.suite ok) (self.inSuite done cur)
  | inTest (self : TestStatistics) (done : List StatSuiteInfo) (cur : StatSuiteInfo)
      (r : StatTestInfo) (ok good signalled reported : Bool) :
      StatShape (.inTest cur.suite ok r.test good signalled reported) (self.inTest done cur r)

theorem StatShape.step {leak : Bool} {p p' : StreamPhase} {e : HookEvent} {stat : TestStatistics}
    (h : StatShape p stat) (hstep : p.step leak e = some p') (now : Int) :
    ∃ stat', statHook now stat e = some (stat', []) ∧ StatShape p' stat' := by
  cases StreamPhase.step_cases hstep with
  | suiteBegin s =>
    cases h with
    | idle self done => exact ⟨_, rfl, .inSuite self done ⟨s, false, now, 0, 0, 0, []⟩ true⟩
  | suiteEnd s ok =>
    cases h with
    | inSuite self done cur ok => exact ⟨_, statHookSuiteEnd_inSuite now ok, .idle self _⟩
  | caseBegin s ok t =>
    cases h with
    | inSuite self done cur ok =>
      refine ⟨_, ?_, .inTest self done cur ⟨t, .passed, now, 0, 0, 0, 0⟩ ok true false false⟩
      simp [statHook, HookEvent.id, gStatHooks, StatCallback.run, statHookCaseBegin_inSuite]
  | assert condition file func line =>
    cases h with
    | inTest self done cur r =>
      refine ⟨_, ?_, .inTest self done (cur.counted condition) (r.counted condition) _ _ _ _⟩
      simp [statHook, HookEvent.id, gStatHooks, StatCallback.run, statHookAssert_inTest]
  | signal signo =>
    cases h with
    | inTest self done cur r =>
      refine ⟨_, ?_, .inTest self done cur r _ false true false⟩
      cases signo <;> rfl
  | leakInfo bytes hleak =>
    cases h with
    | inTest self done cur r =>
      exact ⟨_, statHookLeakwatch_inTest bytes,
        .inTest self done cur { r with leakedBytes := bytes } _ _ _ true⟩
  | @caseEnd _ _ _ _ _ v hv hp =>
    cases h with
    | inTest self done cur r =>
      obtain ⟨self', hcount⟩ : ∃ self', self.countVerdict v = some self' := by
        cases v with
        | none => exact absurd rfl hv
        | _ => exact ⟨_, rfl⟩
      refine ⟨_, ?_, .inSuite self' done (cur.running { r with stop := now, result := v }) _⟩
      show statHookCaseEnd now (self.inTest done cur r) r.test v = _
      rw [statHookCaseEnd_inTest, hcount]
      rfl

theorem StatShape.message {p : StreamPhase} {stat : TestStatistics} (h : StatShape p stat)
    (priority : Fin 8) : StatShape p (statMessageCounter stat priority) := by
  cases h with
  | idle self done => exact .idle (statMessageCounter self priority) done
  | inSuite self done cur ok => exact .inSuite (statMessageCounter self priority) done cur ok
  | inTest self done cur r => exact .inTest (statMessageCounter self priority) done cur r _ _ _ _

theorem statShape_keeps (leak : Bool) : StatKeeps leak (fun _ => True) fun _ => StatShape where
  step := fun h hstep _ now => h.step hstep now
  message := StatShape.message

end Tinu
