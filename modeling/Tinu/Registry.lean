import Tinu.Log

/-!
# Test registration (`test.c`)

A context holds suites, a suite holds tests, both in order of first registration.  `UserData` is
what `m_user_data` points to: data of the caller, or the record of functions that `test_add`
allocates for its wrappers.

* `testSuiteLookup_new` — with `new` set the lookup finds the suite with the name, or creates it;
* `testSuiteLookup_find` — without, a missing name gives **the last suite there is**;
* `registerTest_spec` — what one registration does to the test found under each pair of names.
-/

set_option autoImplicit false

namespace Tinu

/-! ## The data -/

/-- A suite as its tests refer to it. -/
structure SuiteRef where
  addr : Ptr
  name : CString
  deriving DecidableEq, Repr

/-- A `TestSetup`, `TestCleanup` or `TestFunction`: one of the caller, or the wrapper
`_test_setup_wrapper`, `_test_cleanup_wrapper` or `_test_func_wrapper`. -/
inductive TestFn where
  | user (fn : FnPtr)
  | wrapper
  deriving DecidableEq, Repr

/-- `struct _TestSimplifiedFunctions`. -/
structure TestSimplifiedFunctions where
  setup : Option FnPtr
  cleanup : Option FnPtr
  function : Option FnPtr
  deriving DecidableEq, Repr

/-- What `m_user_data` points to. -/
inductive UserData where
  | data (ptr : Ptr)
  | simplified (functions : TestSimplifiedFunctions)
  deriving DecidableEq, Repr

/-- A `CleanupFunction`: one of the caller, or `g_free`. -/
inductive CleanupFn where
  | user (fn : FnPtr)
  | gFree
  deriving DecidableEq, Repr

/-- `struct _TestCase`. -/
structure TestCase where
  addr : Ptr
  suite : SuiteRef
  name : CString
  setup : Option TestFn
  cleanup : Option TestFn
  test : Option TestFn
  userData : UserData
  userDataCleanup : Option CleanupFn
  deriving DecidableEq, Repr

/-- `struct _TestSuite`. -/
structure TestSuite where
  addr : Ptr
  name : CString
  tests : List TestCase
  deriving DecidableEq, Repr

def TestSuite.ref (s : TestSuite) : SuiteRef := ⟨s.addr, s.name⟩

/-- `struct _TestContext`, without its hooks; `next` is the next address to allocate at. -/
structure TestContext where
  suites : List TestSuite
  sighandle : Bool
  leakwatch : Bool
  next : Nat

/-- `test_context_init`, with the two flags that the caller sets. -/
def testContextInit (sighandle leakwatch : Bool) : TestContext := ⟨[], sighandle, leakwatch, 1⟩

/-! ## The functions of `test.c` -/

/-- `_test_validate_name`. -/
def testValidateName : CString → Bool
  | [] => true
  | c :: name => if c = '.' ∨ c = '=' then false else testValidateName name

/-- The loop of `_test_suite_lookup`: whether it left by `goto exit`, and the value of `res`. -/
def suiteLookupLoop (suite : CString) : List TestSuite → Option TestSuite → Bool × Option TestSuite
  | [], res => (false, res)
  | s :: suites, _ => if s.name = suite then (true, some s) else suiteLookupLoop suite suites (some s)

/-- `_test_suite_lookup`. -/
def testSuiteLookup (self : TestContext) (suite : CString) (new : Bool) :
    Option TestSuite × TestContext :=
  match suiteLookupLoop suite self.suites none with
  | (true, res) => (res, self)
  | (false, res) =>
    if ¬ new then (res, self)
    else
      let res : TestSuite := ⟨self.next, suite, []⟩
      (some res, { self with suites := self.suites ++ [res], next := self.next + 1 })

/-- `_test_lookup_case`. -/
def testLookupCase (suite : TestSuite) (test : CString) : Option TestCase :=
  suite.tests.find? fun t => t.name = test

/-- A store through the `TestSuite *` `addr`, on one suite. -/
def TestSuite.store (addr : Ptr) (f : List TestCase → List TestCase) (s : TestSuite) : TestSuite :=
  if s.addr = addr then { s with tests := f s.tests } else s

/-- A store through a `TestSuite *`. -/
def TestContext.setTests (self : TestContext) (suite : Ptr) (f : List TestCase → List TestCase) :
    TestContext :=
  { self with suites := self.suites.map (TestSuite.store suite f) }

/-- The arguments of `test_add_extended`, with functions of either kind. -/
structure Registration where
  suite : CString
  test : CString
  setup : Option TestFn
  cleanup : Option TestFn
  func : Option TestFn
  userData : UserData
  userDataCleanup : Option CleanupFn
  deriving DecidableEq, Repr

/-- The branch of `test_add_extended` for a test that exists. -/
def overwriteCase (r : Registration) (t : TestCase) : TestCase :=
  { t with setup := r.setup, cleanup := r.cleanup, test := r.func }

/-- The branch of `test_add_extended` for a new test. -/
def newCase (r : Registration) (addr : Ptr) (suite : SuiteRef) : TestCase :=
  ⟨addr, suite, r.test, r.setup, r.cleanup, r.func, r.userData, r.userDataCleanup⟩

/-- `test_add_extended`, with the message it emits.  An error is the end of the process, after
the messages it holds. -/
def testAddExtended (self : TestContext) (r : Registration) :
    Except (List LogEntry) (TestContext × LogEntry) :=
  if ¬ testValidateName r.suite then
    .error [.wrap LOG_CRIT "Invalid suite name (names cannot contain '.' and '=' characters)"
      [msgTagStr "name" r.suite]]
  else if ¬ testValidateName r.test then
    .error [.wrap LOG_CRIT "Invalid test case name (names cannot contain '.' and '=' characters)"
      [msgTagStr "name" r.test]]
  else
    match testSuiteLookup self r.suite true with
    | (none, _) => .error []
    | (some suite, self) =>
      match testLookupCase suite r.test with
      | some res =>
        .ok (self.setTests suite.addr fun ts =>
            ts.map fun t => if t.addr = res.addr then overwriteCase r t else t,
          .wrap LOG_WARNING "Test case already exists"
            [msgTagStr "suite" r.suite, msgTagStr "test" r.test])
      | none =>
        let res := newCase r self.next suite.ref
        let self := { self with next := self.next + 1 }
        .ok (self.setTests suite.addr fun ts => ts ++ [res],
          .wrap LOG_DEBUG "Test case added"
            [msgTagStr "suite" r.suite, msgTagStr "case" r.test])

/-- A call of `test_add` or `test_add_extended`, with functions of the caller. -/
inductive RegisterOp where
  | add (suite test : CString) (setup cleanup func : Option FnPtr)
  | addExtended (suite test : CString) (setup cleanup func : Option FnPtr) (userData : Ptr)
      (userDataCleanup : Option FnPtr)
  deriving DecidableEq, Repr

/-- What `test_add_extended` is called with; `test_add` passes the wrappers and a new record. -/
def RegisterOp.registration : RegisterOp → Registration
  | .add suite test setup cleanup func =>
    ⟨suite, test, some .wrapper, some .wrapper, some .wrapper, .simplified ⟨setup, cleanup, func⟩,
      some .gFree⟩
  | .addExtended suite test setup cleanup func userData userDataCleanup =>
    ⟨suite, test, setup.map .user, cleanup.map .user, func.map .user, .data userData,
      userDataCleanup.map .user⟩

/-- `test_add` or `test_add_extended`. -/
def TestContext.register (self : TestContext) (op : RegisterOp) :
    Except (List LogEntry) TestContext :=
  (testAddExtended self op.registration).map Prod.fst

/-! ## Lookup -/

/-- The suite with a name: the first one in the context. -/
def TestContext.find (c : TestContext) (suite : CString) : Option TestSuite :=
  c.suites.find? fun s => s.name = suite

/-- The test with a pair of names. -/
def TestContext.findCase (c : TestContext) (suite test : CString) : Option TestCase :=
  (c.find suite).bind fun s => testLookupCase s test

theorem suiteLookupLoop_eq (suite : CString) :
    ∀ (l : List TestSuite) (res : Option TestSuite),
      suiteLookupLoop suite l res =
        match l.find? fun s => s.name = suite with
        | some s => (true, some s)
        | none => (false, l.getLast?.or res)
  | [], res => rfl
  | s :: l, res => by
    by_cases hs : s.name = suite
    · simp [suiteLookupLoop, hs]
    · rw [suiteLookupLoop, if_neg hs, suiteLookupLoop_eq suite l]
      rw [List.find?_cons_of_neg (by simpa using hs)]
      cases hf : l.find? fun s => s.name = suite with
      | some s' => rfl
      | none => cases l <;> simp [List.getLast?_cons]

/-- **A find-only lookup of a missing name gives the last suite.** -/
theorem testSuiteLookup_find (c : TestContext) (suite : CString) :
    testSuiteLookup c suite false = ((c.find suite).or c.suites.getLast?, c) := by
  rw [testSuiteLookup, suiteLookupLoop_eq, TestContext.find]
  cases hf : c.suites.find? fun s => s.name = suite <;> simp

theorem testSuiteLookup_new_some {c : TestContext} {suite : CString} {s : TestSuite}
    (h : c.find suite = some s) : testSuiteLookup c suite true = (some s, c) := by
  rw [TestContext.find] at h
  rw [testSuiteLookup, suiteLookupLoop_eq, h]

theorem testSuiteLookup_new_none {c : TestContext} {suite : CString} (h : c.find suite = none) :
    testSuiteLookup c suite true =
      (some ⟨c.next, suite, []⟩,
        { c with suites := c.suites ++ [⟨c.next, suite, []⟩], next := c.next + 1 }) := by
  rw [TestContext.find] at h
  rw [testSuiteLookup, suiteLookupLoop_eq, h]
  rfl

/-- A lookup by a key that `g` keeps, in the images under `g`. -/
theorem find?_map_key {α κ : Type} [DecidableEq κ] {key : α → κ} {g : α → α}
    (hg : ∀ x, key (g x) = key x) (l : List α) (k : κ) :
    (l.map g).find? (fun x => key x = k) = (l.find? fun x => key x = k).map g := by
  rw [List.find?_map]
  congr 2
  funext x
  simp [hg]

/-! ## Well-formed contexts -/

/-- A suite with tests of its own, under distinct valid names. -/
structure SuiteWf (next : Nat) (s : TestSuite) : Prop where
  addr : s.addr < next
  name : testValidateName s.name = true
  nonempty : s.tests ≠ []
  testNames : (s.tests.map (·.name)).Nodup
  testAddrs : (s.tests.map (·.addr)).Nodup
  owner : ∀ t ∈ s.tests, t.suite = s.ref
  testAddr : ∀ t ∈ s.tests, t.addr < next
  testName : ∀ t ∈ s.tests, testValidateName t.name = true

structure ContextWf (c : TestContext) : Prop where
  names : (c.suites.map (·.name)).Nodup
  addrs : (c.suites.map (·.addr)).Nodup
  suites : ∀ s ∈ c.suites, SuiteWf c.next s

theorem contextInit_wf (sighandle leakwatch : Bool) :
    ContextWf (testContextInit sighandle leakwatch) := by
  refine ⟨List.nodup_nil, List.nodup_nil, fun s hs => ?_⟩
  cases hs

theorem SuiteWf.mono {n n' : Nat} {s : TestSuite} (h : SuiteWf n s) (hn : n ≤ n') :
    SuiteWf n' s :=
  { h with
    addr := Nat.lt_of_lt_of_le h.addr hn
    testAddr := fun t ht => Nat.lt_of_lt_of_le (h.testAddr t ht) hn }

theorem find_mem {c : TestContext} {suite : CString} {s : TestSuite} (h : c.find suite = some s) :
    s ∈ c.suites ∧ s.name = suite := by
  refine ⟨List.mem_of_find?_eq_some h, ?_⟩
  simpa using List.find?_some h

theorem lookupCase_mem {s : TestSuite} {test : CString} {t : TestCase}
    (h : testLookupCase s test = some t) : t ∈ s.tests ∧ t.name = test := by
  refine ⟨List.mem_of_find?_eq_some h, ?_⟩
  simpa using List.find?_some h

/-- Two members of a list without duplicate keys are equal when their keys are. -/
theorem eq_of_key {α κ : Type} {key : α → κ} {l : List α} (hn : (l.map key).Nodup) {x y : α}
    (hx : x ∈ l) (hy : y ∈ l) (h : key x = key y) : x = y :=
  List.inj_on_of_nodup_map hn hx hy h

/-- A suite is found by its name, and a test in its suite. -/
theorem find_of_mem {c : TestContext} (hc : ContextWf c) {s : TestSuite} (hs : s ∈ c.suites) :
    c.find s.name = some s := by
  cases hf : c.find s.name with
  | none =>
    have := List.find?_eq_none.mp hf s hs
    simp at this
  | some s' =>
    obtain ⟨hm, hn⟩ := find_mem hf
    rw [eq_of_key hc.names hm hs hn]

theorem lookupCase_of_mem {next : Nat} {s : TestSuite} (hs : SuiteWf next s) {t : TestCase}
    (ht : t ∈ s.tests) : testLookupCase s t.name = some t := by
  cases hf : testLookupCase s t.name with
  | none =>
    have := List.find?_eq_none.mp hf t ht
    simp at this
  | some t' =>
    obtain ⟨hm, hn⟩ := lookupCase_mem hf
    rw [eq_of_key hs.testNames hm ht hn]

theorem find_none_iff {c : TestContext} {suite : CString} :
    c.find suite = none ↔ suite ∉ c.suites.map (·.name) := by
  rw [TestContext.find, List.find?_eq_none]
  simp

theorem lookupCase_none_iff {s : TestSuite} {test : CString} :
    testLookupCase s test = none ↔ test ∉ s.tests.map (·.name) := by
  rw [testLookupCase, List.find?_eq_none]
  simp

/-- `_test_validate_name` looks for the two characters. -/
theorem validateName_iff (name : CString) :
    testValidateName name = true ↔ '.' ∉ name ∧ '=' ∉ name := by
  induction name with
  | nil => simp [testValidateName]
  | cons c name ih =>
    rw [testValidateName]
    split
    · rename_i hc
      rcases hc with rfl | rfl <;> simp
    · rename_i hc
      rw [ih]
      have hdot : '.' ≠ c := fun h => hc (Or.inl h.symm)
      have heq : '=' ≠ c := fun h => hc (Or.inr h.symm)
      simp [hdot, heq]

/-! ## What one registration does -/

@[simp] theorem store_name (addr : Ptr) (f : List TestCase → List TestCase) (s : TestSuite) :
    (s.store addr f).name = s.name := by
  unfold TestSuite.store
  split <;> rfl

@[simp] theorem store_addr (addr : Ptr) (f : List TestCase → List TestCase) (s : TestSuite) :
    (s.store addr f).addr = s.addr := by
  unfold TestSuite.store
  split <;> rfl

theorem store_self (f : List TestCase → List TestCase) (s : TestSuite) :
    s.store s.addr f = { s with tests := f s.tests } := if_pos rfl

theorem store_ne {addr : Ptr} {f : List TestCase → List TestCase} {s : TestSuite}
    (h : s.addr ≠ addr) : s.store addr f = s := if_neg h

theorem setTests_suites (c : TestContext) (addr : Ptr) (f : List TestCase → List TestCase) :
    (c.setTests addr f).suites = c.suites.map (TestSuite.store addr f) := rfl

theorem find_setTests (c : TestContext) (addr : Ptr) (f : List TestCase → List TestCase)
    (suite : CString) : (c.setTests addr f).find suite = (c.find suite).map (TestSuite.store addr f) :=
  find?_map_key (store_name addr f) c.suites suite

/-- The context after a registration, by the branch of `test_add_extended` taken. -/
inductive Registered (c : TestContext) (r : Registration) : TestContext → Prop where
  | overwritten {s : TestSuite} {t : TestCase} (hs : c.find r.suite = some s)
      (ht : testLookupCase s r.test = some t) :
      Registered c r (c.setTests s.addr fun ts =>
        ts.map fun t' => if t'.addr = t.addr then overwriteCase r t' else t')
  | added {s : TestSuite} (hs : c.find r.suite = some s) (ht : testLookupCase s r.test = none) :
      Registered c r (TestContext.setTests { c with next := c.next + 1 } s.addr fun ts =>
        ts ++ [newCase r c.next s.ref])
  | created (hs : c.find r.suite = none) :
      Registered c r
        { c with
          suites := c.suites ++ [⟨c.next, r.suite, [newCase r (c.next + 1) ⟨c.next, r.suite⟩]⟩]
          next := c.next + 2 }

/-- **A registration that does not abort takes one of three branches**, with valid names. -/
theorem testAddExtended_cases {c c' : TestContext} {r : Registration} {m : LogEntry}
    (hc : ContextWf c) (h : testAddExtended c r = .ok (c', m)) :
    testValidateName r.suite = true ∧ testValidateName r.test = true ∧ Registered c r c' := by
  unfold testAddExtended at h
  split at h
  · cases h
  rename_i hsuite
  split at h
  · cases h
  rename_i htest
  refine ⟨by simpa using hsuite, by simpa using htest, ?_⟩
  cases hf : c.find r.suite with
  | some s =>
    rw [testSuiteLookup_new_some hf] at h
    cases hl : testLookupCase s r.test with
    | some t =>
      simp only [hl] at h
      obtain ⟨rfl, -⟩ := Prod.mk.inj (Except.ok.inj h)
      exact .overwritten hf hl
    | none =>
      simp only [hl] at h
      obtain ⟨rfl, -⟩ := Prod.mk.inj (Except.ok.inj h)
      exact .added hf hl
  | none =>
    rw [testSuiteLookup_new_none hf] at h
    simp only [testLookupCase, List.find?_nil] at h
    obtain ⟨rfl, -⟩ := Prod.mk.inj (Except.ok.inj h)
    -- the other suites are at older addresses, and the store leaves them alone
    have hold : ∀ f, c.suites.map (TestSuite.store c.next f) = c.suites := by
      intro f
      have hid : ∀ s ∈ c.suites, TestSuite.store c.next f s = id s := fun s hs =>
        store_ne (Nat.ne_of_lt (hc.suites s hs).addr)
      rw [List.map_congr_left hid, List.map_id]
    have hnew := Registered.created hf
    simpa [TestContext.setTests, hold, TestSuite.store, TestSuite.ref] using hnew

/-! ## Well-formedness is kept -/

/-- The test that a registration overwrites, among the tests of its suite. -/
theorem overwritten_fields (r : Registration) (addr : Ptr) (t : TestCase) :
    (if t.addr = addr then overwriteCase r t else t).name = t.name ∧
      (if t.addr = addr then overwriteCase r t else t).addr = t.addr ∧
      (if t.addr = addr then overwriteCase r t else t).suite = t.suite := by
  split <;> exact ⟨rfl, rfl, rfl⟩

theorem SuiteWf.overwrite {next : Nat} {s : TestSuite} (h : SuiteWf next s) (r : Registration)
    (addr : Ptr) :
    SuiteWf next { s with
      tests := s.tests.map fun t => if t.addr = addr then overwriteCase r t else t } := by
  have hf := overwritten_fields r addr
  refine ⟨h.addr, h.name, by simpa using h.nonempty, ?_, ?_, ?_, ?_, ?_⟩
  · have : (s.tests.map fun t => if t.addr = addr then overwriteCase r t else t).map (·.name) =
        s.tests.map (·.name) := by
      rw [List.map_map]
      exact List.map_congr_left fun t _ => (hf t).1
    rw [this]
    exact h.testNames
  · have : (s.tests.map fun t => if t.addr = addr then overwriteCase r t else t).map (·.addr) =
        s.tests.map (·.addr) := by
      rw [List.map_map]
      exact List.map_congr_left fun t _ => (hf t).2.1
    rw [this]
    exact h.testAddrs
  all_goals
    intro t ht
    obtain ⟨t0, ht0, rfl⟩ := List.mem_map.mp ht
  · rw [(hf t0).2.2]
    exact h.owner t0 ht0
  · rw [(hf t0).2.1]
    exact h.testAddr t0 ht0
  · rw [(hf t0).1]
    exact h.testName t0 ht0

theorem SuiteWf.append {next : Nat} {s : TestSuite} (h : SuiteWf next s) {r : Registration}
    (hv : testValidateName r.test = true) (hl : testLookupCase s r.test = none) :
    SuiteWf (next + 1) { s with tests := s.tests ++ [newCase r next s.ref] } := by
  refine ⟨Nat.lt_succ_of_lt h.addr, h.name, by simp, ?_, ?_, ?_, ?_, ?_⟩
  · rw [List.map_append, List.map_singleton]
    refine List.nodup_append.mpr ⟨h.testNames, List.nodup_singleton _, ?_⟩
    intro n hn n' hn' hnn
    obtain ⟨t, ht, rfl⟩ := List.mem_map.mp hn
    have hne : t.name ≠ r.test := by
      have := List.find?_eq_none.mp hl t ht
      simpa using this
    exact hne (hnn.trans (List.mem_singleton.mp hn'))
  · rw [List.map_append, List.map_singleton]
    refine List.nodup_append.mpr ⟨h.testAddrs, List.nodup_singleton _, ?_⟩
    intro a ha a' ha' haa
    obtain ⟨t, ht, rfl⟩ := List.mem_map.mp ha
    have : t.addr = next := haa.trans (List.mem_singleton.mp ha')
    exact Nat.ne_of_lt (h.testAddr t ht) this
  all_goals
    intro t ht
    rcases List.mem_append.mp ht with ht | ht
  · exact h.owner t ht
  · rw [List.mem_singleton.mp ht]
    rfl
  · exact Nat.lt_succ_of_lt (h.testAddr t ht)
  · rw [List.mem_singleton.mp ht]
    exact Nat.lt_succ_self next
  · exact h.testName t ht
  · rw [List.mem_singleton.mp ht]
    exact hv

/-- An address that was handed out. -/
theorem ContextWf.succ {c : TestContext} (hc : ContextWf c) :
    ContextWf { c with next := c.next + 1 } :=
  ⟨hc.names, hc.addrs, fun s hs => (hc.suites s hs).mono (Nat.le_succ _)⟩

/-- A store to the tests of one suite keeps a context well formed if it keeps that suite so. -/
theorem ContextWf.setTests {c : TestContext} (hc : ContextWf c) {s : TestSuite}
    (hs : s ∈ c.suites) {f : List TestCase → List TestCase} {next' : Nat} (hn : c.next ≤ next')
    (hf : SuiteWf next' { s with tests := f s.tests }) :
    ContextWf (TestContext.setTests { c with next := next' } s.addr f) := by
  have hnames : (c.suites.map (TestSuite.store s.addr f)).map (·.name) =
      c.suites.map (·.name) := by
    rw [List.map_map]
    exact List.map_congr_left fun s' _ => store_name _ _ s'
  have haddrs : (c.suites.map (TestSuite.store s.addr f)).map (·.addr) =
      c.suites.map (·.addr) := by
    rw [List.map_map]
    exact List.map_congr_left fun s' _ => store_addr _ _ s'
  refine ⟨?_, ?_, ?_⟩
  · rw [setTests_suites]
    simp only [hnames]
    exact hc.names
  · rw [setTests_suites]
    simp only [haddrs]
    exact hc.addrs
  · intro s1 hs1
    rw [setTests_suites] at hs1
    obtain ⟨s0, hs0, rfl⟩ := List.mem_map.mp hs1
    by_cases ha : s0.addr = s.addr
    · obtain rfl := eq_of_key hc.addrs hs0 hs ha
      rw [store_self]
      exact hf
    · rw [store_ne ha]
      exact (hc.suites s0 hs0).mono hn

theorem Registered.wf {c c' : TestContext} {r : Registration} (hc : ContextWf c)
    (hvs : testValidateName r.suite = true) (hvt : testValidateName r.test = true)
    (h : Registered c r c') : ContextWf c' := by
  cases h with
  | overwritten hs ht =>
    obtain ⟨hm, _⟩ := find_mem hs
    exact hc.setTests hm (Nat.le_refl _) ((hc.suites _ hm).overwrite r _)
  | added hs ht =>
    obtain ⟨hm, _⟩ := find_mem hs
    exact hc.setTests hm (Nat.le_succ _) ((hc.suites _ hm).append hvt ht)
  | created hs =>
    have hnone : ∀ s ∈ c.suites, s.name ≠ r.suite := by
      intro s hm
      have := List.find?_eq_none.mp hs s hm
      simpa using this
    refine ⟨?_, ?_, ?_⟩
    · rw [List.map_append, List.map_singleton]
      refine List.nodup_append.mpr ⟨hc.names, List.nodup_singleton _, ?_⟩
      intro n hn n' hn' hnn
      obtain ⟨s, hm, rfl⟩ := List.mem_map.mp hn
      exact hnone s hm (hnn.trans (List.mem_singleton.mp hn'))
    · rw [List.map_append, List.map_singleton]
      refine List.nodup_append.mpr ⟨hc.addrs, List.nodup_singleton _, ?_⟩
      intro a ha a' ha' haa
      obtain ⟨s, hm, rfl⟩ := List.mem_map.mp ha
      have : s.addr = c.next := haa.trans (List.mem_singleton.mp ha')
      exact Nat.ne_of_lt (hc.suites s hm).addr this
    · intro s hm
      rcases List.mem_append.mp hm with hm | hm
      · exact (hc.suites s hm).mono (Nat.le_add_right _ _)
      · rw [List.mem_singleton.mp hm]
        refine ⟨by simp, hvs, by simp, by simp, by simp, ?_, ?_, ?_⟩
        all_goals
          intro t ht
          rw [List.mem_singleton.mp ht]
        · rfl
        · simp [newCase]
        · exact hvt

/-! ## Lookup after a registration -/

/-- What a registration makes of the test under its pair of names, if there was one. -/
def RegisteredAs (r : Registration) (t : TestCase) : Option TestCase → Prop
  | some t0 => t = overwriteCase r t0
  | none => ∃ addr suite, t = newCase r addr suite

theorem find_unrelated {c : TestContext} (hc : ContextWf c) {s : TestSuite} {suite : CString}
    (hs : c.find suite = some s) (f : List TestCase → List TestCase) {suite' : CString}
    (hne : suite' ≠ suite) : (c.setTests s.addr f).find suite' = c.find suite' := by
  rw [find_setTests]
  cases hf : c.find suite' with
  | none => rfl
  | some s' =>
    obtain ⟨hm, hn⟩ := find_mem hs
    obtain ⟨hm', hn'⟩ := find_mem hf
    have ha : s'.addr ≠ s.addr := by
      intro ha
      obtain rfl := eq_of_key hc.addrs hm' hm ha
      exact hne (hn'.symm.trans hn)
    rw [Option.map_some, store_ne ha]

theorem findCase_setTests {c : TestContext} {s : TestSuite} {suite : CString}
    (hs : c.find suite = some s) (f : List TestCase → List TestCase) (test : CString) :
    (c.setTests s.addr f).findCase suite test = (f s.tests).find? fun t => t.name = test := by
  rw [TestContext.findCase, find_setTests, hs, Option.map_some, Option.bind_some, store_self]
  rfl

theorem findCase_of_find {c : TestContext} {s : TestSuite} {suite : CString}
    (hs : c.find suite = some s) (test : CString) :
    c.findCase suite test = testLookupCase s test := by
  rw [TestContext.findCase, hs, Option.bind_some]

/-- Overwriting a test leaves the tests of other names in its suite. -/
theorem lookupCase_overwrite_ne {next : Nat} {s : TestSuite} (hwf : SuiteWf next s)
    {r : Registration} {t : TestCase} (ht : testLookupCase s r.test = some t) {test : CString}
    (hne : test ≠ r.test) :
    (s.tests.map fun t' => if t'.addr = t.addr then overwriteCase r t' else t').find?
      (fun t' => t'.name = test) = testLookupCase s test := by
  rw [find?_map_key fun t' => (overwritten_fields r t.addr t').1]
  cases hl : testLookupCase s test with
  | none =>
    rw [testLookupCase] at hl
    rw [hl]
    rfl
  | some t' =>
    obtain ⟨hm, hn⟩ := lookupCase_mem ht
    obtain ⟨hm', hn'⟩ := lookupCase_mem hl
    have ha : t'.addr ≠ t.addr := by
      intro ha
      obtain rfl := eq_of_key hwf.testAddrs hm' hm ha
      exact hne (hn'.symm.trans hn)
    rw [testLookupCase] at hl
    rw [hl, Option.map_some, if_neg ha]

/-- A suite at the end is found under its name, when there was none of that name. -/
theorem find_created (c : TestContext) (s : TestSuite) (next : Nat) (suite : CString) :
    TestContext.find { c with suites := c.suites ++ [s], next := next } suite =
      (c.find suite).or (if s.name = suite then some s else none) := by
  simp only [TestContext.find, List.find?_append, List.find?_singleton, decide_eq_true_eq]

/-- **A registration sets the test under its pair of names**, and no other. -/
theorem Registered.findCase {c c' : TestContext} {r : Registration} (hc : ContextWf c)
    (h : Registered c r c') :
    (∃ t, c'.findCase r.suite r.test = some t ∧ RegisteredAs r t (c.findCase r.suite r.test)) ∧
      ∀ suite test, ¬ (suite = r.suite ∧ test = r.test) →
        c'.findCase suite test = c.findCase suite test := by
  cases h with
  | @overwritten s t hs ht =>
    refine ⟨⟨overwriteCase r t, ?_, ?_⟩, ?_⟩
    · rw [findCase_setTests hs, find?_map_key fun t' => (overwritten_fields r t.addr t').1]
      rw [testLookupCase] at ht
      simp [ht]
    · rw [findCase_of_find hs, ht]
      rfl
    · intro suite test hne
      by_cases hsuite : suite = r.suite
      · subst hsuite
        rw [findCase_setTests hs, findCase_of_find hs]
        exact lookupCase_overwrite_ne (hc.suites s (find_mem hs).1) ht fun e => hne ⟨rfl, e⟩
      · rw [TestContext.findCase, find_unrelated hc hs _ hsuite]
        rfl
  | @added s hs ht =>
    have hs' : TestContext.find { c with next := c.next + 1 } r.suite = some s := hs
    refine ⟨⟨newCase r c.next s.ref, ?_, ?_⟩, ?_⟩
    · rw [testLookupCase] at ht
      rw [findCase_setTests hs', List.find?_append, ht]
      simp [newCase]
    · rw [findCase_of_find hs, ht]
      exact ⟨_, _, rfl⟩
    · intro suite test hne
      by_cases hsuite : suite = r.suite
      · subst hsuite
        have htest : r.test ≠ test := fun e => hne ⟨rfl, e.symm⟩
        rw [findCase_setTests hs', List.find?_append, findCase_of_find hs, testLookupCase]
        simp [newCase, htest]
      · rw [TestContext.findCase, find_unrelated hc.succ hs' _ hsuite]
        rfl
  | created hs =>
    refine ⟨⟨newCase r (c.next + 1) ⟨c.next, r.suite⟩, ?_, ?_⟩, ?_⟩
    · rw [TestContext.findCase, find_created, hs]
      simp [testLookupCase, newCase]
    · rw [TestContext.findCase, hs]
      exact ⟨_, _, rfl⟩
    · intro suite test hne
      rw [TestContext.findCase, find_created, TestContext.findCase]
      by_cases hsuite : r.suite = suite
      · subst hsuite
        have htest : r.test ≠ test := fun e => hne ⟨rfl, e.symm⟩
        simp [hs, testLookupCase, newCase, htest]
      · simp [hsuite]

/-! ## Sequences of registrations -/

/-- The contexts that registrations build. -/
def registerAll (c : TestContext) (ops : List RegisterOp) : Except (List LogEntry) TestContext :=
  ops.foldlM TestContext.register c

/-- The calls that register a pair of names, in order. -/
def opsFor (ops : List RegisterOp) (suite test : CString) : List RegisterOp :=
  ops.filter fun op => op.registration.suite = suite ∧ op.registration.test = test

/-- The registrations of a pair of names, in order. -/
def registrationsFor (ops : List RegisterOp) (suite test : CString) : List Registration :=
  (opsFor ops suite test).map RegisterOp.registration

/-- A registered test has the functions of the last registration of its names, and the user data
of the first. -/
def CaseOf (regs : List Registration) : Option TestCase → Prop
  | none => regs = []
  | some t => ∃ first last, regs.head? = some first ∧ regs.getLast? = some last ∧
      t.setup = last.setup ∧ t.cleanup = last.cleanup ∧ t.test = last.func ∧
      t.userData = first.userData

theorem register_spec {c c' : TestContext} {op : RegisterOp} (hc : ContextWf c)
    (h : c.register op = .ok c') :
    ContextWf c' ∧ Registered c op.registration c' := by
  unfold TestContext.register at h
  cases ha : testAddExtended c op.registration with
  | error e =>
    rw [ha] at h
    cases h
  | ok p =>
    obtain ⟨c1, m⟩ := p
    rw [ha] at h
    obtain rfl : c1 = c' := Except.ok.inj h
    obtain ⟨hvs, hvt, hr⟩ := testAddExtended_cases hc ha
    exact ⟨hr.wf hc hvs hvt, hr⟩

theorem Registered.flags {c c' : TestContext} {r : Registration} (h : Registered c r c') :
    c'.sighandle = c.sighandle ∧ c'.leakwatch = c.leakwatch := by
  cases h <;> exact ⟨rfl, rfl⟩

theorem CaseOf.snoc {regs : List Registration} {old : Option TestCase} (h : CaseOf regs old)
    {r : Registration} {t : TestCase} (ht : RegisteredAs r t old) : CaseOf (regs ++ [r]) (some t) := by
  cases old with
  | none =>
    obtain ⟨addr, suite, rfl⟩ := ht
    obtain rfl : regs = [] := h
    exact ⟨r, r, rfl, rfl, rfl, rfl, rfl, rfl⟩
  | some t0 =>
    obtain rfl : t = overwriteCase r t0 := ht
    obtain ⟨first, last, hfirst, _, _, _, _, hdata⟩ := h
    refine ⟨first, r, ?_, by simp, rfl, rfl, rfl, hdata⟩
    rw [List.head?_append, hfirst]
    rfl

/-- A sequence of calls without an error, before its last one. -/
theorem foldlM_snoc_ok {ε σ α : Type} {f : σ → α → Except ε σ} {l : List α} {a : α} {s s' : σ}
    (h : (l ++ [a]).foldlM f s = .ok s') : ∃ s0, l.foldlM f s = .ok s0 ∧ f s0 a = .ok s' := by
  rw [List.foldlM_append] at h
  cases hp : l.foldlM f s with
  | error e =>
    rw [hp] at h
    cases h
  | ok s0 =>
    rw [hp] at h
    refine ⟨s0, rfl, ?_⟩
    simp only [List.foldlM_cons, List.foldlM_nil, bind_pure] at h
    exact h

/-- **Calls one after the other, none with an error**: what holds at the start and is kept by a
call holds after all of them. -/
theorem foldlM_ok_induct {ε σ α : Type} {f : σ → α → Except ε σ} {s : σ}
    {motive : List α → σ → Prop} (start : motive [] s)
    (call : ∀ l a s0 s1, motive l s0 → f s0 a = .ok s1 → motive (l ++ [a]) s1)
    {l : List α} {s' : σ} (h : l.foldlM f s = .ok s') : motive l s' := by
  induction l using List.reverseRecOn generalizing s' with
  | nil =>
    obtain rfl : s = s' := Except.ok.inj h
    exact start
  | append_singleton l a ih =>
    obtain ⟨s0, hp, hstep⟩ := foldlM_snoc_ok h
    exact call l a s0 s' (ih hp) hstep

/-- **What a sequence of registrations builds.** -/
theorem registerAll_spec {sighandle leakwatch : Bool} {ops : List RegisterOp} :
    ∀ {c : TestContext}, registerAll (testContextInit sighandle leakwatch) ops = .ok c →
      ContextWf c ∧ (c.sighandle = sighandle ∧ c.leakwatch = leakwatch) ∧
        ∀ suite test, CaseOf (registrationsFor ops suite test) (c.findCase suite test) := by
  refine foldlM_ok_induct (motive := fun ops c => ContextWf c ∧
    (c.sighandle = sighandle ∧ c.leakwatch = leakwatch) ∧
      ∀ suite test, CaseOf (registrationsFor ops suite test) (c.findCase suite test))
    ⟨contextInit_wf _ _, ⟨rfl, rfl⟩, fun _ _ => rfl⟩ ?_
  rintro ops op c0 c ⟨hwf, ⟨hsig, hleak⟩, hcase⟩ hstep
  obtain ⟨hwf', hr⟩ := register_spec hwf hstep
  obtain ⟨⟨t, ht, has⟩, hother⟩ := hr.findCase hwf
  refine ⟨hwf', ⟨hr.flags.1.trans hsig, hr.flags.2.trans hleak⟩, fun suite test => ?_⟩
  by_cases hn : op.registration.suite = suite ∧ op.registration.test = test
  · obtain ⟨rfl, rfl⟩ := hn
    have hsnoc : registrationsFor (ops ++ [op]) op.registration.suite op.registration.test =
        registrationsFor ops op.registration.suite op.registration.test ++ [op.registration] := by
      simp [registrationsFor, opsFor]
    rw [hsnoc, ht]
    exact (hcase _ _).snoc has
  · have hskip : registrationsFor (ops ++ [op]) suite test = registrationsFor ops suite test := by
      simp [registrationsFor, opsFor, hn]
    rw [hskip, hother suite test fun ⟨h1, h2⟩ => hn ⟨h1.symm, h2.symm⟩]
    exact hcase suite test

end Tinu
