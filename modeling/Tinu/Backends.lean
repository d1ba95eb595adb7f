import Tinu.Report

/-!
# Storage of results (`tinu.py`)

`TinuResult.loadBackend` fills a fresh `TinuResult` from a backend, and `SameResult` says what it is
for a loaded result to be the saved one.  `load_suites` takes the list of its arguments, and raises
when their number is not that of its parameters.

* `loadTests_ok_iff`, `loadBackend_ok_iff` — what loading gives, for every backend: no suite with a
  test can be loaded;
* `exampleBackend_load` — no result can be loaded from an `ExampleBackend`;
* `suiteItems_swapped` — where the suites of an `ExampleBackend` are read with the argument, their
  counts of assertions are exchanged.
-/

set_option autoImplicit false

namespace Tinu

namespace Reporting

/-- The exceptions. -/
inductive PyError where
  | typeError
  | keyError
  | indexError
  | nameError
  | databaseError
  deriving DecidableEq, Repr

/-- The values of the columns of a row. -/
inductive SqlValue where
  | null
  | integer (n : Int)
  | real (q : ℚ)
  | text (s : CString)
  deriving DecidableEq

/-- What a cursor fetches: a tuple, or `None` after the last one. -/
abbrev PyRow := Option (List SqlValue)

/-- What stands between the brackets of a subscript. -/
inductive PyKey where
  | index (n : Nat)
  | name (s : CString)
  deriving DecidableEq

/-- `line[key]`: a tuple takes an index only, and `None` nothing. -/
def PyRow.item (line : PyRow) (key : PyKey) : Except PyError SqlValue :=
  match line, key with
  | some values, .index n =>
    match values[n]? with
    | some value => .ok value
    | none => .error .indexError
  | _, _ => .error .typeError

/-- What `msgcount` may be after a load. -/
inductive MsgCount where
  | dict (counts : Message)
  | row (line : PyRow)

/-- What `load_suites` yields. -/
structure SuiteItem where
  name : CString
  result : Option Int
  first : Int
  second : Int
  deriving DecidableEq, Repr

/-- What `load_tests` yields. -/
structure TestItem where
  name : CString
  result : CString
  first : Int
  second : Int
  time : ℚ

/-- `Backend`: the methods that a load calls. -/
structure Backend where
  loadSummary : Except PyError Summary
  loadMessageCounts : Except PyError MsgCount
  loadSuites : List CString → Except PyError (List SuiteItem)
  loadTests : CString → Except PyError (List TestItem)

/-! ## Loading -/

/-- `Test.load_backend`. -/
def Test.loadBackend (self : Test) (result : CString) (assertTotal assertPassed : Int) (time : ℚ) :
    Test :=
  { self with result := result, asserts := ⟨assertTotal, assertPassed⟩, time := time }

/-- The name `test` in the body of `Suite.load_backend`, which binds `test_name`; the module has no
such name either. -/
def unboundTest : Except PyError CString := .error .nameError

/-- The body of the loop of `Suite.load_backend`. -/
def loadTest (tests : AList fun _ : CString => Test) (item : TestItem) :
    Except PyError (AList fun _ : CString => Test) := do
  let test ← unboundTest
  let self := (Test.new test).loadBackend item.result item.first item.second item.time
  .ok (tests.insert test self)

/-- `Suite.load_backend`. -/
def Suite.loadBackend (self : Suite) (backend : Backend) (result : Option Int)
    (apass atotal : Int) : Except PyError Suite := do
  let items ← backend.loadTests self.name
  let tests ← items.foldlM loadTest ∅
  .ok { self with result := result, asserts := ⟨atotal, apass⟩, tests := tests }

/-- A `TinuResult` after a load. -/
structure LoadedResult where
  summary : Summary
  messages : MsgCount
  suites : AList fun _ : CString => Suite

/-- The body of the loop of `TinuResult.load_backend`. -/
def loadSuite (backend : Backend) (suites : AList fun _ : CString => Suite) (item : SuiteItem) :
    Except PyError (AList fun _ : CString => Suite) := do
  let suite ← (Suite.new item.name).loadBackend backend item.result item.first item.second
  .ok (suites.insert item.name suite)

/-- `TinuResult.load_backend`. -/
def TinuResult.loadBackend (backend : Backend) : Except PyError LoadedResult := do
  let summary ← backend.loadSummary
  let messages ← backend.loadMessageCounts
  let items ← backend.loadSuites []
  let suites ← items.foldlM (loadSuite backend) ∅
  .ok ⟨summary, messages, suites⟩

/-! ## The result that was saved -/

/-- Name by name, both have the value, and the values are related, or neither has. -/
def SameEntries {ν : Type} (R : ν → ν → Prop) (m m' : AList fun _ : CString => ν) : Prop :=
  ∀ name, Option.Rel R (m.lookup name) (m'.lookup name)

structure SameTest (test loaded : Test) : Prop where
  result : loaded.result = test.result
  passed : loaded.asserts.passed = test.asserts.passed
  total : loaded.asserts.total = test.asserts.total
  time : loaded.time = test.time

structure SameSuite (suite loaded : Suite) : Prop where
  result : loaded.result = suite.result
  passed : loaded.asserts.passed = suite.asserts.passed
  total : loaded.asserts.total = suite.asserts.total
  tests : SameEntries SameTest suite.tests loaded.tests

structure SameResult (r : TinuResult) (loaded : LoadedResult) : Prop where
  summary : loaded.summary = r.summary
  messages : ∃ counts, loaded.messages = .dict counts ∧
    ∀ key, counts.lookup key = r.messages.lookup key
  suites : SameEntries SameSuite r.suites loaded.suites

/-- `load_backend` into a fresh `TinuResult` succeeds and gives back the result. -/
def GivesBack (backend : Backend) (r : TinuResult) : Prop :=
  ∃ loaded, TinuResult.loadBackend backend = .ok loaded ∧ SameResult r loaded

/-! ## The backend in memory -/

/-- The items of `ExampleBackend.load_suites`. -/
def suiteItems (saved : TinuResult) : List SuiteItem :=
  saved.suites.entries.map fun entry =>
    ⟨entry.1, entry.2.result, entry.2.asserts.total, entry.2.asserts.passed⟩

/-- `ExampleBackend`, with what it has saved. -/
def exampleBackend (saved : TinuResult) : Backend where
  loadSummary := .ok saved.summary
  loadMessageCounts := .ok (.dict saved.messages)
  loadSuites
    | [_suite] => .ok (suiteItems saved)
    | _ => .error .typeError
  loadTests suite :=
    match saved.suites.lookup suite with
    | some obj => .ok (obj.tests.entries.map fun entry =>
        ⟨entry.1, entry.2.result, entry.2.asserts.total, entry.2.asserts.passed, entry.2.time⟩)
    | none => .error .keyError

/-- `ExampleBackend.save_results`. -/
def exampleSave (_saved results : TinuResult) : TinuResult := results

/-! ## What a load gives -/

/-- The loop over the tests raises in its first round. -/
theorem loadTests_ok_iff (items : List TestItem) (tests : AList fun _ : CString => Test) :
    items.foldlM loadTest ∅ = .ok tests ↔ items = [] ∧ tests = ∅ := by
  cases items with
  | nil =>
    rw [List.foldlM_nil]
    constructor
    · intro h
      cases h
      exact ⟨rfl, rfl⟩
    · rintro ⟨-, rfl⟩
      rfl
  | cons item items =>
    rw [List.foldlM_cons]
    constructor
    · intro h
      cases h
    · rintro ⟨h, -⟩
      cases h

/-- What is loaded of a suite without tests. -/
def SuiteItem.loaded (item : SuiteItem) : Suite :=
  ⟨item.name, ∅, item.result, ⟨item.second, item.first⟩⟩

theorem suite_loadBackend_ok_iff (backend : Backend) (item : SuiteItem) (suite : Suite) :
    (Suite.new item.name).loadBackend backend item.result item.first item.second = .ok suite ↔
      backend.loadTests item.name = .ok [] ∧ suite = item.loaded := by
  have hname : (Suite.new item.name).name = item.name := rfl
  unfold Suite.loadBackend
  rw [hname]
  cases hitems : backend.loadTests item.name with
  | error e =>
    constructor
    · intro h
      cases h
    · rintro ⟨h, -⟩
      cases h
  | ok items =>
    cases htests : items.foldlM loadTest ∅ with
    | error e =>
      constructor
      · intro h
        simp only [bind, Except.bind, htests] at h
        cases h
      · rintro ⟨h, -⟩
        cases h
        cases htests
    | ok tests =>
      obtain ⟨rfl, rfl⟩ := (loadTests_ok_iff items tests).mp htests
      constructor
      · intro h
        cases h
        exact ⟨rfl, rfl⟩
      · rintro ⟨-, rfl⟩
        rfl

/-- The loop over the suites. -/
theorem loadSuites_ok_iff (backend : Backend) :
    ∀ (items : List SuiteItem) (suites suites' : AList fun _ : CString => Suite),
      items.foldlM (loadSuite backend) suites = .ok suites' ↔
        (∀ item ∈ items, backend.loadTests item.name = .ok []) ∧
          suites' = items.foldl (fun suites item => suites.insert item.name item.loaded) suites
  | [], suites, suites' => by
    rw [List.foldlM_nil, List.foldl_nil]
    constructor
    · intro h
      cases h
      exact ⟨fun _ h => (List.not_mem_nil h).elim, rfl⟩
    · rintro ⟨-, rfl⟩
      rfl
  | item :: items, suites, suites' => by
    rw [List.foldlM_cons, List.foldl_cons, List.forall_mem_cons, and_assoc]
    have hitem := suite_loadBackend_ok_iff backend item
    cases hload : (Suite.new item.name).loadBackend backend item.result item.first item.second with
    | error e =>
      have hno : backend.loadTests item.name ≠ .ok [] := by
        intro hempty
        rw [(hitem item.loaded).mpr ⟨hempty, rfl⟩] at hload
        cases hload
      constructor
      · intro h
        simp only [bind, Except.bind, loadSuite, hload] at h
        cases h
      · rintro ⟨hempty, -⟩
        exact (hno hempty).elim
    | ok suite =>
      obtain ⟨hempty, rfl⟩ := (hitem suite).mp hload
      have hstep : loadSuite backend suites item =
          .ok (suites.insert item.name item.loaded) := by
        simp only [loadSuite, hload, bind, Except.bind]
      rw [hstep]
      have ih := loadSuites_ok_iff backend items (suites.insert item.name item.loaded) suites'
      constructor
      · exact fun h => ⟨hempty, ih.mp h⟩
      · exact fun h => ih.mpr h.2

/-- **What a load gives.** -/
theorem TinuResult.loadBackend_ok_iff (backend : Backend) (loaded : LoadedResult) :
    TinuResult.loadBackend backend = .ok loaded ↔
      backend.loadSummary = .ok loaded.summary ∧
      backend.loadMessageCounts = .ok loaded.messages ∧
      ∃ items, backend.loadSuites [] = .ok items ∧
        (∀ item ∈ items, backend.loadTests item.name = .ok []) ∧
        loaded.suites = items.foldl (fun suites item => suites.insert item.name item.loaded) ∅ := by
  unfold TinuResult.loadBackend
  constructor
  · intro h
    cases hsummary : backend.loadSummary with
    | error e => rw [hsummary] at h; cases h
    | ok summary =>
      rw [hsummary] at h
      cases hmessages : backend.loadMessageCounts with
      | error e => rw [hmessages] at h; cases h
      | ok messages =>
        rw [hmessages] at h
        cases hitems : backend.loadSuites [] with
        | error e => rw [hitems] at h; cases h
        | ok items =>
          rw [hitems] at h
          cases hsuites : items.foldlM (loadSuite backend) ∅ with
          | error e =>
            simp only [bind, Except.bind, hsuites] at h
            cases h
          | ok suites =>
            simp only [bind, Except.bind, hsuites] at h
            cases h
            obtain ⟨hempty, heq⟩ := (loadSuites_ok_iff backend items ∅ suites).mp hsuites
            exact ⟨rfl, rfl, items, rfl, hempty, heq⟩
  · rintro ⟨hsummary, hmessages, items, hitems, hempty, heq⟩
    have hsuites := (loadSuites_ok_iff backend items ∅ loaded.suites).mpr ⟨hempty, heq⟩
    simp only [bind, Except.bind, hsummary, hmessages, hitems, hsuites]

/-- **No result can be loaded from the backend in memory**: `load_suites` has a parameter that it
is not given. -/
theorem exampleBackend_load (saved : TinuResult) (loaded : LoadedResult) :
    TinuResult.loadBackend (exampleBackend saved) ≠ .ok loaded := by
  intro h
  obtain ⟨-, -, items, hitems, -⟩ := (TinuResult.loadBackend_ok_iff _ _).mp h
  cases hitems

/-- With the argument given, the counts of the assertions of a suite are exchanged. -/
theorem suiteItems_swapped (saved : TinuResult) (suite : CString) :
    (exampleBackend saved).loadSuites [suite] = .ok (suiteItems saved) ∧
      ∀ item ∈ suiteItems saved, ∃ obj, saved.suites.lookup item.name = some obj ∧
        item.loaded.asserts = ⟨obj.asserts.passed, obj.asserts.total⟩ := by
  refine ⟨rfl, fun item hitem => ?_⟩
  obtain ⟨entry, hentry, rfl⟩ := List.mem_map.mp hitem
  exact ⟨entry.2, AList.mem_lookup_iff.mpr hentry, rfl⟩

end Reporting

end Tinu
