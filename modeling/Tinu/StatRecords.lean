import Tinu.StatTotals

/-!
# The records of a run (`statistics.c`)

What the statistics hold at the end of a run of the tests: a record of each suite and of each test
that ran, in order, whatever messages are logged in between and whenever the events come.

* `Hears` — triples about streams of events, with messages anywhere between them;
* `hears_testBlock`, `hears_testBlocks`, `hears_suiteBlocks` — a test, a suite, a selection;
* `statRun_messages` — the messages are counted, whatever the events are;
* `statistics_record_run` — the records of a run are those of its selection.
-/

set_option autoImplicit false

namespace Tinu

variable {env : Env} {c : TestContext}

/-! ## The records -/

def StatTestInfo.untimed (r : StatTestInfo) : StatTestInfo := { r with start := 0, stop := 0 }

def StatSuiteInfo.untimed (s : StatSuiteInfo) : StatSuiteInfo :=
  { s with start := 0, stop := 0, tests := s.tests.map StatTestInfo.untimed }

/-- The assertions that hold. -/
def heldIn (as : List Assertion) : Nat := as.countP fun a => a.condition

/-- The record of a test that made the assertions, without its times. -/
def recordOf (t : TestCase) (v : TestCaseResult) (as : List Assertion) (bytes : Nat) :
    StatTestInfo :=
  ⟨t, v, 0, 0, as.length % guint32Range, heldIn as % guint32Range, bytes⟩

/-- The record of a suite whose tests made the assertions. -/
def suiteOf (s : TestSuite) (res : Bool) (as : List Assertion) (tests : List StatTestInfo) :
    StatSuiteInfo :=
  ⟨s, res, 0, 0, as.length % guint32Range, heldIn as % guint32Range, tests⟩

/-- The assertions of the `n`-th test. -/
def assertsOf (env : Env) (n : Nat) (t : TestCase) : List Assertion := assertsIn (testSteps env n t)

/-- The record of the `n`-th test, which leaked `leaked n` bytes. -/
def caseRecord (env : Env) (c : TestContext) (leaked : Nat → Nat) (n : Nat) (t : TestCase) :
    StatTestInfo :=
  recordOf t (verdictOf env c n t) (assertsOf env n t) (leaked n)

/-- The records of the suites of a selection. -/
def suiteRecords (env : Env) (c : TestContext) (leaked : Nat → Nat) :
    Nat → Selection → List StatSuiteInfo
  | _, [] => []
  | n, (s, ts) :: sel =>
    suiteOf s (allPassed env c n ts) (overTests (assertsOf env) n ts).flatten
        (overTests (caseRecord env c leaked) n ts) ::
      suiteRecords env c leaked (n + ts.length) sel

theorem guintIncr_mod (k : Nat) : guintIncr (k % guint32Range) = (k + 1) % guint32Range :=
  Nat.mod_add_mod ..

theorem heldIn_append_singleton (as : List Assertion) (a : Assertion) :
    heldIn (as ++ [a]) = if a.condition then heldIn as + 1 else heldIn as := by
  rw [heldIn, List.countP_append, List.countP_singleton]
  cases a.condition <;> rfl

theorem recordOf_counted (t : TestCase) (v : TestCaseResult) (as : List Assertion) (bytes : Nat)
    (a : Assertion) :
    (recordOf t v as bytes).counted a.condition = recordOf t v (as ++ [a]) bytes := by
  rw [recordOf, recordOf, heldIn_append_singleton, List.length_append]
  cases a.condition <;> simp [StatTestInfo.counted, guintIncr_mod]

theorem suiteOf_counted (s : TestSuite) (res : Bool) (as : List Assertion)
    (tests : List StatTestInfo) (a : Assertion) :
    (suiteOf s res as tests).counted a.condition = suiteOf s res (as ++ [a]) tests := by
  rw [suiteOf, suiteOf, heldIn_append_singleton, List.length_append]
  cases a.condition <;> simp [StatSuiteInfo.counted, guintIncr_mod]

/-! ## Streams with messages between the events -/

/-- From statistics in `I` the events, and messages anywhere between them, lead to `J`, without a
fault and without a message of an error branch. -/
def Hears (clock : Nat → Int) (I : TestStatistics → Prop) (evs : List HookEvent)
    (J : TestStatistics → Prop) : Prop :=
  ∀ self, I self → ∀ n is, is.filterMap StatInput.event = evs →
    ∃ self', statRun clock n is self = some (self', []) ∧ J self'

/-- Messages do not matter. -/
def Deaf (I : TestStatistics → Prop) : Prop :=
  ∀ self priority, I self → I (statMessageCounter self priority)

variable {clock : Nat → Int} {I J K : TestStatistics → Prop}

theorem hears_nil (h : Deaf I) : Hears clock I [] I := by
  intro self hi n is
  induction is generalizing self n with
  | nil => exact fun _ => ⟨self, rfl, hi⟩
  | cons i is ih =>
    intro his
    cases i with
    | hook e => cases his
    | message priority =>
      obtain ⟨self', hrun, hi'⟩ := ih _ (h self priority hi) (n + 1) his
      exact ⟨self', by simp [statRun, statStep, hrun], hi'⟩

theorem hears_cons {e : HookEvent} {evs : List HookEvent} (hdeaf : Deaf I)
    (hstep : ∀ self, I self → ∀ now, ∃ self', statHook now self e = some (self', []) ∧ J self')
    (h : Hears clock J evs K) : Hears clock I (e :: evs) K := by
  intro self hi n is
  induction is generalizing self n with
  | nil => exact fun his => nomatch his
  | cons i is ih =>
    intro his
    cases i with
    | message priority =>
      obtain ⟨self', hrun, hk⟩ := ih _ (hdeaf self priority hi) (n + 1) his
      exact ⟨self', by simp [statRun, statStep, hrun], hk⟩
    | hook e' =>
      obtain ⟨rfl, htail⟩ := List.cons.inj his
      obtain ⟨self1, hhook, hj⟩ := hstep self hi (clock n)
      obtain ⟨self2, hrun, hk⟩ := h self1 hj (n + 1) is htail
      exact ⟨self2, by simp [statRun, statStep, hhook, hrun], hk⟩

/-- The run of inputs one part after the other. -/
theorem statRun_append {is is' : List StatInput} {n : Nat} {self self' self'' : TestStatistics}
    (h : statRun clock n is self = some (self', []))
    (h' : statRun clock (n + is.length) is' self' = some (self'', [])) :
    statRun clock n (is ++ is') self = some (self'', []) := by
  induction is generalizing n self with
  | nil =>
    cases h
    exact h'
  | cons i is ih =>
    simp only [statRun, Option.bind_eq_bind, Option.bind_eq_some_iff, Prod.exists,
      Option.some.injEq, Prod.mk.injEq, List.append_eq_nil_iff] at h
    obtain ⟨self1, msgs, hstep, self2, msgs', hrun, rfl, rfl, rfl⟩ := h
    rw [List.length_cons, Nat.add_comm is.length, ← Nat.add_assoc] at h'
    have hrest := ih hrun h'
    simp [statRun, hstep, hrest]

theorem Hears.append {evs evs' : List HookEvent} (h : Hears clock I evs J)
    (h' : Hears clock J evs' K) : Hears clock I (evs ++ evs') K := by
  intro self hi n is his
  obtain ⟨is1, is2, rfl, h1, h2⟩ := List.filterMap_eq_append_iff.mp his
  obtain ⟨self1, hrun1, hj⟩ := h self hi n is1 h1
  obtain ⟨self2, hrun2, hk⟩ := h' self1 hj (n + is1.length) is2 h2
  exact ⟨self2, statRun_append hrun1 hrun2, hk⟩

/-! ## The phases -/

/-- The counters count the verdicts. -/
structure Tallied (vs : List TestCaseResult) (stat : TestStatistics) : Prop where
  passed : stat.passed = vs.count .passed % guint32Range
  sigsegv : stat.sigsegv = vs.count .segfault % guint32Range
  failed : stat.failed = vs.countP TestCaseResult.isFailure % guint32Range

theorem Tallied.countVerdict {vs : List TestCaseResult} {stat : TestStatistics}
    (h : Tallied vs stat) {v : TestCaseResult} (hv : v ≠ .none) :
    ∃ stat', stat.countVerdict v = some stat' ∧ Tallied (vs ++ [v]) stat' := by
  obtain ⟨hp, hs, hf⟩ := h
  cases v with
  | none => exact absurd rfl hv
  | _ =>
    refine ⟨_, rfl, ?_, ?_, ?_⟩ <;>
      simp [hp, hs, hf, guintIncr_mod, TestCaseResult.isFailure]

/-- Between suites, after those with the records. -/
def AfterSuites (infos : List StatSuiteInfo) (vs : List TestCaseResult) (stat : TestStatistics) :
    Prop :=
  ∃ self done, stat = self.between done ∧ done.map StatSuiteInfo.untimed = infos ∧ Tallied vs self

/-- Inside of a suite, whose record is the last. -/
def WithinSuite (infos : List StatSuiteInfo) (info : StatSuiteInfo) (vs : List TestCaseResult)
    (stat : TestStatistics) : Prop :=
  ∃ self done cur, stat = self.inSuite done cur ∧ done.map StatSuiteInfo.untimed = infos ∧
    cur.untimed = info ∧ Tallied vs self

/-- Inside of a test of it. -/
def WithinTest (infos : List StatSuiteInfo) (info : StatSuiteInfo) (record : StatTestInfo)
    (vs : List TestCaseResult) (stat : TestStatistics) : Prop :=
  ∃ self done cur r, stat = self.inTest done cur r ∧ done.map StatSuiteInfo.untimed = infos ∧
    cur.untimed = info ∧ r.untimed = record ∧ Tallied vs self

section Phases

variable {infos : List StatSuiteInfo} {info : StatSuiteInfo} {record : StatTestInfo}
  {vs : List TestCaseResult}

theorem afterSuites_deaf : Deaf (AfterSuites infos vs) := by
  rintro _ priority ⟨self, done, rfl, hdone, htally⟩
  exact ⟨statMessageCounter self priority, done, rfl, hdone, htally.1, htally.2, htally.3⟩

theorem withinSuite_deaf : Deaf (WithinSuite infos info vs) := by
  rintro _ priority ⟨self, done, cur, rfl, hdone, hcur, htally⟩
  exact ⟨statMessageCounter self priority, done, cur, rfl, hdone, hcur, htally.1, htally.2,
    htally.3⟩

theorem withinTest_deaf : Deaf (WithinTest infos info record vs) := by
  rintro _ priority ⟨self, done, cur, r, rfl, hdone, hcur, hr, htally⟩
  exact ⟨statMessageCounter self priority, done, cur, r, rfl, hdone, hcur, hr, htally.1,
    htally.2, htally.3⟩

theorem hears_suiteBegin (s : TestSuite) {evs : List HookEvent}
    (h : Hears clock (WithinSuite infos (suiteOf s false [] []) vs) evs K) :
    Hears clock (AfterSuites infos vs) (.beforeSuite s :: evs) K := by
  refine hears_cons afterSuites_deaf ?_ h
  rintro _ ⟨self, done, rfl, hdone, htally⟩ now
  exact ⟨_, rfl, self, done, ⟨s, false, now, 0, 0, 0, []⟩, rfl, hdone, rfl, htally⟩

theorem hears_suiteEnd {s : TestSuite} {as : List Assertion} {tests : List StatTestInfo}
    (res : Bool) {evs : List HookEvent}
    (h : Hears clock (AfterSuites (infos ++ [suiteOf s res as tests]) vs) evs K) :
    Hears clock (WithinSuite infos (suiteOf s false as tests) vs) (.afterSuite s res :: evs) K := by
  refine hears_cons withinSuite_deaf ?_ h
  rintro _ ⟨self, done, cur, rfl, hdone, hcur, htally⟩ now
  have hs : cur.suite = s := congrArg StatSuiteInfo.suite hcur
  refine ⟨_, by rw [← hs]; exact statHookSuiteEnd_inSuite now res, self,
    done ++ [{ cur with stop := now, result := res }], rfl, ?_, htally⟩
  rw [List.map_append, hdone]
  exact congrArg (fun i => infos ++ [{ i with result := res }]) hcur

theorem hears_caseBegin (t : TestCase) {evs : List HookEvent}
    (h : Hears clock (WithinTest infos info (recordOf t .passed [] 0) vs) evs K) :
    Hears clock (WithinSuite infos info vs) (.beforeTest t :: evs) K := by
  refine hears_cons withinSuite_deaf ?_ h
  rintro _ ⟨self, done, cur, rfl, hdone, hcur, htally⟩ now
  refine ⟨_, ?_, self, done, cur, ⟨t, .passed, now, 0, 0, 0, 0⟩, rfl, hdone, hcur, rfl, htally⟩
  simp [statHook, HookEvent.id, gStatHooks, StatCallback.run, statHookCaseBegin_inSuite]

/-- **The assertions of a test** are counted in its record and in that of its suite. -/
theorem hears_asserts {s : TestSuite} {t : TestCase} {tests : List StatTestInfo}
    {evs : List HookEvent} :
    ∀ {as bs cs : List Assertion},
      Hears clock (WithinTest infos (suiteOf s false (cs ++ as) tests)
        (recordOf t .passed (bs ++ as) 0) vs) evs K →
      Hears clock (WithinTest infos (suiteOf s false cs tests) (recordOf t .passed bs 0) vs)
        (as.map Assertion.event ++ evs) K
  | [], bs, cs, h => by rwa [List.append_nil, List.append_nil] at h
  | a :: as, bs, cs, h => by
    have hrest : Hears clock (WithinTest infos (suiteOf s false (cs ++ [a]) tests)
        (recordOf t .passed (bs ++ [a]) 0) vs) (as.map Assertion.event ++ evs) K :=
      hears_asserts (by simpa using h)
    refine hears_cons withinTest_deaf ?_ hrest
    rintro _ ⟨self, done, cur, r, rfl, hdone, hcur, hr, htally⟩ now
    refine ⟨self.inTest done (cur.counted a.condition) (r.counted a.condition), ?_, self, done,
      _, _, rfl, hdone, ?_, ?_, htally⟩
    · simp [Assertion.event, statHook, HookEvent.id, gStatHooks, StatCallback.run,
        statHookAssert_inTest]
    · rw [← suiteOf_counted, ← hcur]
      rfl
    · rw [← recordOf_counted, ← hr]
      rfl

theorem hears_signal (sig : Signal) {evs : List HookEvent}
    (h : Hears clock (WithinTest infos info record vs) evs K) :
    Hears clock (WithinTest infos info record vs) (sig.event :: evs) K := by
  refine hears_cons withinTest_deaf (fun self hi _ => ⟨self, ?_, hi⟩) h
  cases sig <;> rfl

theorem hears_leakInfo {t : TestCase} {v : TestCaseResult} {as : List Assertion} {old : Nat}
    (bytes : Nat) {evs : List HookEvent}
    (h : Hears clock (WithinTest infos info (recordOf t v as bytes) vs) evs K) :
    Hears clock (WithinTest infos info (recordOf t v as old) vs) (.leakInfo t bytes :: evs) K := by
  refine hears_cons withinTest_deaf ?_ h
  rintro _ ⟨self, done, cur, r, rfl, hdone, hcur, hr, htally⟩ now
  have ht : r.test = t := congrArg StatTestInfo.test hr
  refine ⟨_, by rw [← ht]; exact statHookLeakwatch_inTest bytes, self, done, cur,
    { r with leakedBytes := bytes }, rfl, hdone, hcur, ?_, htally⟩
  exact congrArg (fun i => { i with leakedBytes := bytes }) hr

theorem hears_caseEnd {s : TestSuite} {t : TestCase} {as bs : List Assertion} {bytes : Nat}
    {tests : List StatTestInfo} {old v : TestCaseResult} (hv : v ≠ .none) {evs : List HookEvent}
    (h : Hears clock (WithinSuite infos (suiteOf s false as (tests ++ [recordOf t v bs bytes]))
      (vs ++ [v])) evs K) :
    Hears clock (WithinTest infos (suiteOf s false as tests) (recordOf t old bs bytes) vs)
      (.afterTest t v :: evs) K := by
  refine hears_cons withinTest_deaf ?_ h
  rintro _ ⟨self, done, cur, r, rfl, hdone, hcur, hr, htally⟩ now
  have ht : r.test = t := congrArg StatTestInfo.test hr
  obtain ⟨self', hcount, htally'⟩ := htally.countVerdict hv
  refine ⟨self'.inSuite done (cur.running { r with stop := now, result := v }), ?_, self', done, _,
    rfl, hdone, ?_, htally'⟩
  · rw [← ht]
    exact (statHookCaseEnd_inTest now v).trans (by rw [hcount]; rfl)
  · have htests : cur.tests.map StatTestInfo.untimed = tests := congrArg StatSuiteInfo.tests hcur
    have hrec : StatTestInfo.untimed { r with stop := now, result := v } = recordOf t v bs bytes :=
      congrArg (fun i => { i with result := v }) hr
    have hrun : (cur.running { r with stop := now, result := v }).untimed =
        { cur.untimed with tests := tests ++ [recordOf t v bs bytes] } := by
      simp [StatSuiteInfo.running, StatSuiteInfo.untimed, htests, hrec]
    rw [hrun, hcur]
    rfl

end Phases

/-! ## Tests, suites, selections -/

/-- The leaks that were reported. -/
def leakInfos (evs : List HookEvent) : List (TestCase × Nat) :=
  evs.filterMap fun e => match e with
    | .leakInfo test bytes => some (test, bytes)
    | _ => none

/-- `leaked` is what the events report of tests, the first of which is the `n`-th. -/
structure Leaks (c : TestContext) (leaked : Nat → Nat) (n : Nat) (ts : List TestCase)
    (evs : List HookEvent) : Prop where
  watched : c.leakwatch = true → leakInfos evs = overTests (fun i t => (t, leaked i)) n ts
  unwatched : c.leakwatch = false → leakInfos evs = [] ∧ ∀ i, leaked i = 0

theorem leakInfos_append (evs evs' : List HookEvent) :
    leakInfos (evs ++ evs') = leakInfos evs ++ leakInfos evs' := List.filterMap_append

theorem leakInfos_bodyEvents (n : Nat) (t : TestCase) (handled : Bool) :
    leakInfos (bodyEvents env n t handled) = [] := by
  have hasserts : ∀ as : List Assertion, leakInfos (as.map Assertion.event) = [] := by
    intro as
    simp [leakInfos, List.filterMap_map, Function.comp_def, Assertion.event]
  have hsig : ∀ sig : Signal, leakInfos [sig.event] = [] := by
    intro sig
    cases sig <;> rfl
  have hbody : bodyEvents env n t handled = [.beforeTest t] ++
      ((assertsIn (testSteps env n t)).map Assertion.event ++
        if handled then ((signalIn (testSteps env n t)).map Signal.event).toList else []) := rfl
  rw [hbody, leakInfos_append, leakInfos_append, hasserts]
  split
  · cases signalIn (testSteps env n t) with
    | none => rfl
    | some sig => exact hsig sig
  · rfl

theorem leakInfos_testBlock (n : Nat) (t : TestCase) (bytes : Nat) :
    leakInfos (testBlock env c n t bytes) = if c.leakwatch then [(t, bytes)] else [] := by
  have hend : leakInfos [.afterTest t (verdictOf env c n t)] = [] := rfl
  have hbody : leakInfos (if ctxFailed env c n then [] else bodyEvents env n t true) = [] := by
    split
    · rfl
    · exact leakInfos_bodyEvents n t true
  rw [testBlock, leakInfos_append, leakInfos_append, hbody, hend]
  cases c.leakwatch <;> rfl

/-- What only the tests from the `n`-th on are asked. -/
theorem overTests_congr_from {β : Type} {f g : Nat → TestCase → β} :
    ∀ {n : Nat} {ts : List TestCase}, (∀ i, n ≤ i → i < n + ts.length → ∀ t, f i t = g i t) →
      overTests f n ts = overTests g n ts
  | _, [], _ => rfl
  | n, t :: ts, h => by
    have hrest : overTests f (n + 1) ts = overTests g (n + 1) ts :=
      overTests_congr_from fun i hi hlt => h i (Nat.le_of_succ_le hi) (by
        rw [List.length_cons]
        omega)
    rw [overTests, overTests, hrest, h n (Nat.le_refl n) (by
      rw [List.length_cons]
      omega)]

/-- **A test**: its record is appended, and its verdict is counted. -/
theorem hears_testBlock {infos : List StatSuiteInfo} {s : TestSuite} {as : List Assertion}
    {tests : List StatTestInfo} {vs : List TestCaseResult} {n : Nat} {t : TestCase}
    (hctx : ctxFailed env c n = false) {bytes : Nat} {leaked : Nat → Nat}
    (hleak : leaked n = if c.leakwatch then bytes else 0) {evs : List HookEvent}
    (h : Hears clock (WithinSuite infos (suiteOf s false (as ++ assertsOf env n t)
      (tests ++ [caseRecord env c leaked n t])) (vs ++ [verdictOf env c n t])) evs K) :
    Hears clock (WithinSuite infos (suiteOf s false as tests) vs)
      (testBlock env c n t bytes ++ evs) K := by
  rw [caseRecord, hleak] at h
  have hend : Hears clock (WithinTest infos (suiteOf s false (as ++ assertsOf env n t) tests)
      (recordOf t .passed (assertsOf env n t) (if c.leakwatch then bytes else 0)) vs)
      (.afterTest t (verdictOf env c n t) :: evs) K :=
    hears_caseEnd (verdictOf_ne_none env c n t) h
  have hleaks : Hears clock (WithinTest infos (suiteOf s false (as ++ assertsOf env n t) tests)
      (recordOf t .passed (assertsOf env n t) 0) vs)
      ((if c.leakwatch then [.leakInfo t bytes] else []) ++
        (.afterTest t (verdictOf env c n t) :: evs)) K := by
    cases hw : c.leakwatch with
    | true =>
      rw [hw] at hend
      exact hears_leakInfo bytes hend
    | false =>
      rw [hw] at hend
      exact hend
  have hsignal : Hears clock (WithinTest infos (suiteOf s false (as ++ assertsOf env n t) tests)
      (recordOf t .passed ([] ++ assertsOf env n t) 0) vs)
      (((signalIn (testSteps env n t)).map Signal.event).toList ++
        ((if c.leakwatch then [.leakInfo t bytes] else []) ++
          (.afterTest t (verdictOf env c n t) :: evs))) K := by
    cases signalIn (testSteps env n t) with
    | none => exact hleaks
    | some sig => exact hears_signal sig hleaks
  have hbody := hears_caseBegin t (hears_asserts hsignal)
  have hevents : testBlock env c n t bytes ++ evs =
      .beforeTest t :: ((assertsOf env n t).map Assertion.event ++
        (((signalIn (testSteps env n t)).map Signal.event).toList ++
          ((if c.leakwatch then [.leakInfo t bytes] else []) ++
            (.afterTest t (verdictOf env c n t) :: evs)))) := by
    simp [testBlock, hctx, bodyEvents, assertsOf]
  rwa [hevents]

/-- The leaks of the tests before the `m`-th, and of the others. -/
def joinLeaks (m : Nat) (leaked leaked' : Nat → Nat) (i : Nat) : Nat :=
  if i < m then leaked i else leaked' i

theorem joinLeaks_before {β : Type} {f : Nat → Nat → TestCase → β} {leaked leaked' : Nat → Nat}
    {n m : Nat} {ts : List TestCase} (h : n + ts.length ≤ m) :
    overTests (fun i => f (joinLeaks m leaked leaked' i) i) n ts =
      overTests (fun i => f (leaked i) i) n ts :=
  overTests_congr_from fun i _ hlt t => by rw [joinLeaks, if_pos (Nat.lt_of_lt_of_le hlt h)]

theorem joinLeaks_after {β : Type} {f : Nat → Nat → TestCase → β} {leaked leaked' : Nat → Nat}
    {n m : Nat} {ts : List TestCase} (h : m ≤ n) :
    overTests (fun i => f (joinLeaks m leaked leaked' i) i) n ts =
      overTests (fun i => f (leaked' i) i) n ts :=
  overTests_congr_from fun i hi _ t => by
    rw [joinLeaks, if_neg (Nat.not_lt.mpr (Nat.le_trans h hi))]

/-- The records of a test for each number of bytes. -/
def caseRecordOf (env : Env) (c : TestContext) (bytes n : Nat) (t : TestCase) : StatTestInfo :=
  recordOf t (verdictOf env c n t) (assertsOf env n t) bytes

theorem suiteRecords_after {leaked leaked' : Nat → Nat} {m : Nat} :
    ∀ {n : Nat} {sel : Selection}, m ≤ n →
      suiteRecords env c (joinLeaks m leaked leaked') n sel = suiteRecords env c leaked' n sel
  | _, [], _ => rfl
  | n, (s, ts) :: sel, h => by
    have hcases : overTests (caseRecord env c (joinLeaks m leaked leaked')) n ts =
        overTests (caseRecord env c leaked') n ts :=
      @joinLeaks_after _ (caseRecordOf env c) leaked leaked' n m ts h
    rw [suiteRecords, suiteRecords, hcases, suiteRecords_after (Nat.le_add_right_of_le h)]

theorem Leaks.append {leaked leaked' : Nat → Nat} {n : Nat} {ts ts' : List TestCase}
    {evs evs' : List HookEvent} (h : Leaks c leaked n ts evs)
    (h' : Leaks c leaked' (n + ts.length) ts' evs') :
    Leaks c (joinLeaks (n + ts.length) leaked leaked') n (ts ++ ts') (evs ++ evs') := by
  refine ⟨fun hw => ?_, fun hw => ⟨?_, fun i => ?_⟩⟩
  · rw [leakInfos_append, h.watched hw, h'.watched hw, overTests_append,
      @joinLeaks_before _ (fun bytes _ t => (t, bytes)) leaked leaked' _ _ ts (Nat.le_refl _),
      @joinLeaks_after _ (fun bytes _ t => (t, bytes)) leaked leaked' _ _ ts' (Nat.le_refl _)]
  · rw [leakInfos_append, (h.unwatched hw).1, (h'.unwatched hw).1, List.append_nil]
  · rw [joinLeaks, (h.unwatched hw).2, (h'.unwatched hw).2, ite_self]

theorem leaks_nil (c : TestContext) (n : Nat) : Leaks c (fun _ => 0) n [] [] :=
  ⟨fun _ => rfl, fun _ => ⟨rfl, fun _ => rfl⟩⟩

theorem leaks_testBlock (n : Nat) (t : TestCase) (bytes : Nat) :
    Leaks c (fun _ => if c.leakwatch then bytes else 0) n [t] (testBlock env c n t bytes) := by
  refine ⟨fun hw => ?_, fun hw => ?_⟩
  · rw [leakInfos_testBlock, hw]
    rfl
  · rw [leakInfos_testBlock, hw]
    exact ⟨rfl, fun _ => rfl⟩

/-- **The tests of a suite.** -/
theorem hears_testBlocks (clock : Nat → Int) {n : Nat} {ts : List TestCase}
    {evs : List HookEvent} (h : TestBlocks env c n ts evs) (hctx : CtxOk env c n ts) :
    ∃ leaked, Leaks c leaked n ts evs ∧
      ∀ infos s as tests vs evs' K,
        Hears clock (WithinSuite infos
          (suiteOf s false (as ++ (overTests (assertsOf env) n ts).flatten)
            (tests ++ overTests (caseRecord env c leaked) n ts)) (vs ++ verdicts env c n ts))
          evs' K →
        Hears clock (WithinSuite infos (suiteOf s false as tests) vs) (evs ++ evs') K := by
  induction h with
  | nil n =>
    refine ⟨fun _ => 0, leaks_nil c n, fun infos s as tests vs evs' K h => ?_⟩
    simpa [overTests, verdicts] using h
  | @cons n t ts evs bytes _ _ ih =>
    obtain ⟨leaked, hleaks, ih⟩ := ih hctx.tail
    refine ⟨_, (leaks_testBlock n t bytes).append hleaks,
      fun infos s as tests vs evs' K h => ?_⟩
    have hrest : overTests (caseRecord env c (joinLeaks (n + [t].length)
        (fun _ => if c.leakwatch then bytes else 0) leaked)) (n + 1) ts =
          overTests (caseRecord env c leaked) (n + 1) ts :=
      @joinLeaks_after _ (caseRecordOf env c) _ leaked _ _ ts (Nat.le_refl _)
    rw [overTests, overTests, hrest, verdicts, overTests, List.flatten_cons] at h
    have hleak : joinLeaks (n + [t].length) (fun _ => if c.leakwatch then bytes else 0) leaked n =
        if c.leakwatch then bytes else 0 := if_pos (Nat.lt_succ_self n)
    rw [List.append_assoc]
    refine hears_testBlock hctx.head hleak (ih _ _ _ _ _ _ _ ?_)
    simpa [verdicts] using h

/-- **The suites of a selection.** -/
theorem hears_suiteBlocks (clock : Nat → Int) {n : Nat} {sel : Selection}
    {evs : List HookEvent} (h : SuiteBlocks env c n sel evs)
    (hctx : CtxOk env c n (Selection.tests sel)) :
    ∃ leaked, Leaks c leaked n (Selection.tests sel) evs ∧
      ∀ infos vs, Hears clock (AfterSuites infos vs) evs
        (AfterSuites (infos ++ suiteRecords env c leaked n sel)
          (vs ++ verdicts env c n (Selection.tests sel))) := by
  induction h with
  | nil n =>
    refine ⟨fun _ => 0, leaks_nil c n, fun infos vs => ?_⟩
    have hnil := @hears_nil clock (AfterSuites infos vs) afterSuites_deaf
    simpa [suiteRecords, Selection.tests, verdicts, overTests] using hnil
  | @cons n s ts sel evs evs' hb _ ih =>
    obtain ⟨hctx1, hctx2⟩ := CtxOk.append.mp hctx
    obtain ⟨leaked, hleaks, hsuite⟩ := hears_testBlocks clock hb hctx1
    obtain ⟨leaked', hleaks', ih⟩ := ih hctx2
    have hframe : Leaks c leaked n ts (.beforeSuite s :: evs ++
        [.afterSuite s (allPassed env c n ts)]) := by
      have hsame : leakInfos (.beforeSuite s :: evs ++
          [.afterSuite s (allPassed env c n ts)]) = leakInfos evs := by
        simp [leakInfos]
      exact ⟨fun hw => hsame.trans (hleaks.watched hw),
        fun hw => ⟨hsame.trans (hleaks.unwatched hw).1, (hleaks.unwatched hw).2⟩⟩
    refine ⟨_, hframe.append hleaks', fun infos vs => ?_⟩
    have hcases : overTests (caseRecord env c (joinLeaks (n + ts.length) leaked leaked')) n ts =
        overTests (caseRecord env c leaked) n ts :=
      @joinLeaks_before _ (caseRecordOf env c) leaked leaked' _ _ ts (Nat.le_refl _)
    have htests : Selection.tests ((s, ts) :: sel) = ts ++ Selection.tests sel := rfl
    rw [suiteRecords, hcases, suiteRecords_after (Nat.le_refl _), htests, verdicts,
      overTests_append]
    have hend := hears_suiteEnd (allPassed env c n ts) (ih
      (infos ++ [suiteOf s (allPassed env c n ts) (overTests (assertsOf env) n ts).flatten
        (overTests (caseRecord env c leaked) n ts)]) (vs ++ verdicts env c n ts))
    have hall := hears_suiteBegin s (hsuite infos s [] [] vs _ _ hend)
    simpa [verdicts] using hall

/-! ## Messages -/

section Messages

variable {now : Int} {self self' : TestStatistics} {msgs : List LogEntry}

theorem onSuite_messages {f : StatSuiteInfo → StatSuiteInfo} (h : self.onSuite f = some self') :
    self'.messages = self.messages := by
  unfold TestStatistics.onSuite at h
  split at h
  · cases h
  · cases h
    rfl

theorem onTest_messages {f : StatTestInfo → StatTestInfo} (h : self.onTest f = some self') :
    self'.messages = self.messages := by
  unfold TestStatistics.onTest at h
  split at h
  · cases h
  · cases h
    rfl

theorem countVerdict_messages {v : TestCaseResult} (h : self.countVerdict v = some self') :
    self'.messages = self.messages := by
  cases v <;> cases h <;> rfl

theorem statHookAssert_messages {condition : Bool}
    (h : statHookAssert self condition = some self') : self'.messages = self.messages := by
  cases condition with
  | false =>
    obtain ⟨self1, hsuite, htest⟩ := Option.bind_eq_some_iff.mp h
    exact (onTest_messages htest).trans (onSuite_messages hsuite)
  | true =>
    simp only [statHookAssert, if_true, Option.bind_eq_bind, Option.bind_eq_some_iff] at h
    obtain ⟨self1, hsuite1, self2, htest2, self3, hsuite3, htest⟩ := h
    rw [onTest_messages htest, onSuite_messages hsuite3, onTest_messages htest2,
      onSuite_messages hsuite1]

theorem statHookCaseBegin_messages {test : TestCase}
    (h : statHookCaseBegin now self test = some self') : self'.messages = self.messages := by
  simp only [statHookCaseBegin, Option.bind_eq_bind, Option.bind_eq_some_iff] at h
  obtain ⟨i, _, suite, _, self1, hsuite, hself⟩ := h
  obtain rfl := Option.some.inj hself
  have hsame := onSuite_messages hsuite
  exact hsame

theorem statHookCaseEnd_messages {test : TestCase} {result : TestCaseResult}
    (h : statHookCaseEnd now self test result = some (self', msgs)) :
    self'.messages = self.messages := by
  simp only [statHookCaseEnd, Option.bind_eq_bind, Option.bind_eq_some_iff] at h
  obtain ⟨current, _, h⟩ := h
  split at h
  · obtain ⟨suite, _, h⟩ := Option.bind_eq_some_iff.mp h
    cases h
    rfl
  · simp only [Option.bind_eq_some_iff] at h
    obtain ⟨self1, htest, self2, hcount, h⟩ := h
    cases h
    exact (countVerdict_messages hcount).trans (onTest_messages htest)

theorem statHookSuiteEnd_messages {suite : TestSuite} {result : Bool}
    (h : statHookSuiteEnd now self suite result = some (self', msgs)) :
    self'.messages = self.messages := by
  simp only [statHookSuiteEnd, Option.bind_eq_bind, Option.bind_eq_some_iff] at h
  obtain ⟨current, _, h⟩ := h
  split at h
  · cases h
    rfl
  · obtain ⟨self1, hsuite, h⟩ := Option.bind_eq_some_iff.mp h
    cases h
    have hsame := onSuite_messages hsuite
    exact hsame

theorem statHookLeakwatch_messages {test : TestCase} {bytes : Nat}
    (h : statHookLeakwatch self test bytes = some (self', msgs)) :
    self'.messages = self.messages := by
  simp only [statHookLeakwatch, Option.bind_eq_bind, Option.bind_eq_some_iff] at h
  obtain ⟨current, _, h⟩ := h
  split at h
  · obtain ⟨suite, _, h⟩ := Option.bind_eq_some_iff.mp h
    cases h
    rfl
  · obtain ⟨self1, htest, h⟩ := Option.bind_eq_some_iff.mp h
    cases h
    exact onTest_messages htest

/-- An event does not touch the counters of the messages. -/
theorem statHook_messages {e : HookEvent} (h : statHook now self e = some (self', msgs)) :
    self'.messages = self.messages := by
  cases e with
  | assert condition file func line =>
    obtain ⟨_, hstep, h⟩ := Option.map_eq_some_iff.mp h
    cases h
    exact statHookAssert_messages hstep
  | signalAbort =>
    cases h
    rfl
  | signalSegfault =>
    cases h
    rfl
  | beforeTest test =>
    obtain ⟨_, hstep, h⟩ := Option.map_eq_some_iff.mp h
    cases h
    exact statHookCaseBegin_messages hstep
  | afterTest test result => exact statHookCaseEnd_messages h
  | beforeSuite suite =>
    cases h
    rfl
  | afterSuite suite result => exact statHookSuiteEnd_messages h
  | leakInfo test bytes => exact statHookLeakwatch_messages h

end Messages

/-- **The messages are counted**, whatever the events are. -/
theorem statRun_messages {clock : Nat → Int} (priority : Fin 8) :
    ∀ {is : List StatInput} {n : Nat} {self self' : TestStatistics} {msgs : List LogEntry},
      self.messages priority < guint32Range → statRun clock n is self = some (self', msgs) →
        self'.messages priority =
          (self.messages priority + is.count (.message priority)) % guint32Range
  | [], n, self, self', msgs, hlt, h => by
    cases h
    exact (Nat.mod_eq_of_lt hlt).symm
  | i :: is, n, self, self', msgs, hlt, h => by
    simp only [statRun, Option.bind_eq_bind, Option.bind_eq_some_iff, Prod.exists,
      Option.some.injEq, Prod.mk.injEq] at h
    obtain ⟨self1, msgs1, hstep, self2, msgs2, hrun, rfl, rfl⟩ := h
    cases i with
    | hook e =>
      have hsame := statHook_messages hstep
      rw [statRun_messages priority (by rwa [hsame]) hrun, hsame]
      simp
    | message q =>
      cases hstep
      by_cases hq : q = priority
      · subst hq
        have hcounted : (statMessageCounter self q).messages q = guintIncr (self.messages q) :=
          Function.update_self ..
        have hlt' : (statMessageCounter self q).messages q < guint32Range := by
          rw [hcounted]
          exact Nat.mod_lt _ (by decide)
        rw [statRun_messages q hlt' hrun, List.count_cons_self, hcounted, guintIncr,
          Nat.mod_add_mod, Nat.add_right_comm, Nat.add_assoc]
      · have hsame : (statMessageCounter self q).messages priority = self.messages priority :=
          Function.update_of_ne (Ne.symm hq) ..
        rw [statRun_messages priority (by rwa [hsame]) hrun, hsame]
        simp [hq]

/-! ## Runs -/

/-- What the statistics record of a run: `n` tests ran before it, `sel` are its tests, and `is` is
what the statistics heard. -/
structure RunRecorded (env : Env) (c : TestContext) (n : Nat) (sel : Selection)
    (is : List StatInput) (stat : TestStatistics) : Prop where
  suites : ∃ leaked, Leaks c leaked n (Selection.tests sel) (is.filterMap StatInput.event) ∧
    stat.suites.map StatSuiteInfo.untimed = suiteRecords env c leaked n sel
  passed : stat.passed = (verdicts env c n (Selection.tests sel)).count .passed % guint32Range
  sigsegv : stat.sigsegv = (verdicts env c n (Selection.tests sel)).count .segfault % guint32Range
  failed : stat.failed =
    (verdicts env c n (Selection.tests sel)).countP TestCaseResult.isFailure % guint32Range
  messages : ∀ priority, stat.messages priority = is.count (.message priority) % guint32Range
  idle : stat.suiteCurrent = none ∧ stat.testCurrent = none

/-- The events of a selection are recorded. -/
theorem suiteBlocks_recorded (clock : Nat → Int) {n : Nat} {sel : Selection}
    {is : List StatInput} (h : SuiteBlocks env c n sel (is.filterMap StatInput.event))
    (hctx : CtxOk env c n (Selection.tests sel)) :
    ∃ stat, statRun clock 0 is statNew = some (stat, []) ∧ RunRecorded env c n sel is stat := by
  obtain ⟨leaked, hleaks, hears⟩ := hears_suiteBlocks clock h hctx
  have hstart : AfterSuites [] [] statNew := ⟨statNew, [], rfl, rfl, rfl, rfl, rfl⟩
  obtain ⟨stat, hrun, self, done, rfl, hdone, htally⟩ := hears [] [] statNew hstart 0 is rfl
  refine ⟨_, hrun, ⟨leaked, hleaks, hdone⟩, htally.passed, htally.sigsegv, htally.failed,
    fun priority => ?_, rfl, rfl⟩
  have hzero : (0 : Nat) < guint32Range := by decide
  rw [statRun_messages priority hzero hrun]
  exact congrArg (· % guint32Range) (Nat.zero_add _)

/-! ## A run that is survived -/

/-- A callback of the statistics follows the pointer to the current test. -/
def HookEvent.needsTest : HookEvent → Bool
  | .afterTest _ _ => true
  | .leakInfo _ _ => true
  | _ => false

theorem statHook_needsTest {stat : TestStatistics} (h : stat.testCurrent = none) {e : HookEvent}
    (he : e.needsTest = true) (now : Int) : statHook now stat e = none := by
  have htest : stat.test? = none := by rw [TestStatistics.test?, h]; rfl
  cases e with
  | afterTest test result =>
    show statHookCaseEnd now stat test result = none
    rw [statHookCaseEnd, htest]
    rfl
  | leakInfo test bytes =>
    show statHookLeakwatch stat test bytes = none
    rw [statHookLeakwatch, htest]
    rfl
  | _ => cases he

/-- The block of a test whose context failed starts at an event that needs a test. -/
theorem testBlock_unmatched {n : Nat} (t : TestCase) (bytes : Nat)
    (hfail : ctxFailed env c n = true) :
    ∃ e rest, testBlock env c n t bytes = e :: rest ∧ e.needsTest = true := by
  rw [testBlock, hfail, if_pos rfl, List.nil_append]
  cases c.leakwatch with
  | true => exact ⟨_, _, rfl, rfl⟩
  | false => exact ⟨_, _, rfl, rfl⟩

/-- Where a context failed, an event that needs a test comes between tests. -/
theorem TestBlocks.unmatched (s : TestSuite) {n : Nat} {ts : List TestCase}
    {evs : List HookEvent} (h : TestBlocks env c n ts evs) (hctx : ¬ CtxOk env c n ts) (ok : Bool) :
    ∃ pre e rest ok', evs = pre ++ e :: rest ∧
      (StreamPhase.inSuite s ok).follow c.leakwatch pre = some (.inSuite s ok') ∧
      e.needsTest = true := by
  induction h generalizing ok with
  | nil n => exact absurd (fun i hi => absurd hi (Nat.not_lt_zero i)) hctx
  | @cons n t ts evs bytes _ h ih =>
    cases hf : ctxFailed env c n with
    | true =>
      obtain ⟨e, rest, heq, he⟩ := testBlock_unmatched t bytes hf
      exact ⟨[], e, rest ++ evs, ok, by rw [heq]; rfl, rfl, he⟩
    | false =>
      have hrest : ¬ CtxOk env c (n + 1) ts := by
        intro hok
        refine hctx ((@CtxOk.append env c n [t] ts).mpr ⟨fun i hi => ?_, hok⟩)
        obtain rfl : i = 0 := Nat.lt_one_iff.mp hi
        exact hf
      obtain ⟨pre, e, rest, ok', rfl, hfollow, he⟩ :=
        ih hrest (ok && verdictOf env c n t == .passed)
      refine ⟨testBlock env c n t bytes ++ pre, e, rest, ok', (List.append_assoc ..).symm, ?_, he⟩
      rw [follow_append, follow_testBlock s ok bytes hf, Option.bind_some, hfollow]

theorem SuiteBlocks.unmatched {n : Nat} {sel : Selection} {evs : List HookEvent}
    (h : SuiteBlocks env c n sel evs) (hctx : ¬ CtxOk env c n (Selection.tests sel)) :
    ∃ pre e rest s ok, evs = pre ++ e :: rest ∧
      StreamPhase.idle.follow c.leakwatch pre = some (.inSuite s ok) ∧ e.needsTest = true := by
  induction h with
  | nil n => exact absurd (fun i hi => absurd hi (Nat.not_lt_zero i)) hctx
  | @cons n s ts sel evs evs' hb hs ih =>
    have htests : Selection.tests ((s, ts) :: sel) = ts ++ Selection.tests sel := rfl
    rw [htests, CtxOk.append] at hctx
    by_cases hfirst : CtxOk env c n ts
    · obtain ⟨pre, e, rest, s', ok, rfl, hfollow, he⟩ := ih fun hok => hctx ⟨hfirst, hok⟩
      refine ⟨.beforeSuite s :: evs ++ [.afterSuite s (allPassed env c n ts)] ++ pre, e, rest, s',
        ok, (List.append_assoc ..).symm, ?_, he⟩
      rw [follow_append, follow_append, follow_cons]
      show (((StreamPhase.inSuite s true).follow c.leakwatch evs).bind _).bind _ = _
      rw [hb.follow s hfirst, Option.bind_some, follow_cons]
      simpa [StreamPhase.step] using hfollow
    · obtain ⟨pre, e, rest, ok, rfl, hfollow, he⟩ := hb.unmatched s hfirst true
      refine ⟨.beforeSuite s :: pre, e,
        rest ++ [.afterSuite s (allPassed env c n ts)] ++ evs', s, ok, by simp, ?_, he⟩
      rw [follow_cons]
      exact hfollow

theorem statShape_inSuite {s : TestSuite} {ok : Bool} {stat : TestStatistics}
    (h : StatShape (.inSuite s ok) stat) : stat.testCurrent = none := by
  cases h
  rfl

/-- Inside of a suite, but outside of its tests, an event that needs a test is a fault. -/
theorem statRun_unmatched {s : TestSuite} {ok : Bool} {e : HookEvent} (he : e.needsTest = true) :
    ∀ {is : List StatInput} {k : Nat} {stat : TestStatistics} {rest : List HookEvent},
      StatShape (.inSuite s ok) stat → is.filterMap StatInput.event = e :: rest →
        statRun clock k is stat = none
  | .message priority :: is, k, stat, rest, h, his => by
    have hmore : is.filterMap StatInput.event = e :: rest := his
    have hrest := statRun_unmatched he (k := k + 1) (h.message priority) hmore
    simp [statRun, statStep, hrest]
  | .hook e' :: is, k, stat, rest, h, his => by
    obtain rfl : e' = e := (List.cons.inj his).1
    have hfault := statHook_needsTest (statShape_inSuite h) he (clock k)
    simp [statRun, statStep, hfault]

theorem statRun_append_none {is is' : List StatInput} {n : Nat} {self self' : TestStatistics}
    (h : statRun clock n is self = some (self', []))
    (h' : ∀ m, statRun clock m is' self' = none) : statRun clock n (is ++ is') self = none := by
  induction is generalizing n self with
  | nil =>
    cases h
    exact h' n
  | cons i is ih =>
    simp only [statRun, Option.bind_eq_bind, Option.bind_eq_some_iff, Prod.exists,
      Option.some.injEq, Prod.mk.injEq, List.append_eq_nil_iff] at h
    obtain ⟨self1, msgs, hstep, self2, msgs', hrun, rfl, rfl, rfl⟩ := h
    simp [statRun, hstep, ih hrun]

/-- **Statistics that come through a run** saw every context switched to. -/
theorem ctxOk_of_statRun {n : Nat} {sel : Selection} {is : List StatInput}
    (h : SuiteBlocks env c n sel (is.filterMap StatInput.event))
    (hrun : (statRun clock 0 is statNew).isSome) : CtxOk env c n (Selection.tests sel) := by
  by_contra hctx
  obtain ⟨pre, e, rest, s, ok, hsplit, hfollow, he⟩ := h.unmatched hctx
  obtain ⟨is1, is2, rfl, h1, h2⟩ := List.filterMap_eq_append_iff.mp hsplit
  rw [← h1] at hfollow
  obtain ⟨stat, hpre, hshape⟩ := (statShape_keeps c.leakwatch).run clock is1 0 (k := 0)
    (StatShape.idle statNew []) hfollow fun _ _ => trivial
  have hpre : statRun clock 0 is1 statNew = some (stat, []) := hpre
  rw [statRun_append_none hpre fun m => statRun_unmatched he hshape h2] at hrun
  cases hrun

/-- **The statistics record the run**: a run that the process survives is recorded suite by suite
and test by test, with the verdicts, the assertions and the leaks, and nothing else is. -/
theorem statistics_record_run {env : Env} {c : TestContext} (ops : List RunOp) {st : RunState}
    (hw : st.leak.Counted)
    (hctx : CtxOk env c st.executed.length (Selection.tests (opsSelection c ops)))
    (hends : (runOps env c ops st).1.isSome) (clock : Nat → Int) {is : List StatInput}
    (his : is.filterMap StatInput.event = runEvents env c ops st) :
    ∃ stat, statRun clock 0 is statNew = some (stat, []) ∧
      RunRecorded (env.seen c st (opsSelection c ops).tests) c st.executed.length
        (opsSelection c ops) is stat := by
  rcases @runEvents_spec env c ops st hw with ⟨_, hb⟩ | ⟨hnone, _⟩
  · rw [← his] at hb
    exact suiteBlocks_recorded clock hb (hctx.seen _ _)
  · rw [hnone] at hends
    cases hends

/-- A failed assertion and an abort, and a test that does nothing; a message comes first. -/
theorem statistics_record_run_aborting :
    ∃ stat, statRun (fun n => n) 0 (.message 3 ::
        (runEvents abortingEnv (pairContext true true) [.all] RunState.start).map .hook) statNew =
          some (stat, []) ∧
      RunRecorded abortingEnv (pairContext true true) 0
        (opsSelection (pairContext true true) [.all]) (.message 3 ::
          (runEvents abortingEnv (pairContext true true) [.all] RunState.start).map .hook) stat := by
  have hevents : (StatInput.message 3 ::
      (runEvents abortingEnv (pairContext true true) [.all] RunState.start).map .hook).filterMap
        StatInput.event = runEvents abortingEnv (pairContext true true) [.all] RunState.start := by
    rw [List.filterMap_cons_none rfl, List.filterMap_map]
    exact List.filterMap_some
  obtain ⟨stat, hrun, hrecorded⟩ := @statistics_record_run abortingEnv (pairContext true true)
    [.all] RunState.start rfl (fun _ _ => rfl) (by decide) (fun n => n) _ hevents
  rw [seen_of_sighandle rfl] at hrecorded
  exact ⟨stat, hrun, hrecorded⟩

end Tinu
