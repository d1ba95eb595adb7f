import Tinu.Metainfo

/-!
# The registry over whole runs (`test.c`, `meta.c`)

Three calls fill the test context: `test_add`, `test_add_extended` and `tinu_use_metainfo`, which
makes one of the second for each row of its table.

* `names_step` — a registration adds each of its two names at the end, unless it is there;
* `registeredNames` — suites and tests stand in the order in which they were first registered;
* `registry_ok` — after any calls that come to an end the context is the registry of the pairs of
  names they passed.
-/

set_option autoImplicit false

namespace Tinu

/-! ## The calls -/

/-- A call that registers tests. -/
inductive RegistryCall where
  | register (op : RegisterOp)
  | useMetainfo (metainfo : List TinuMetaInfo)

/-- One call; there is no result when it ends the process. -/
def registryCall (context : Option TestContext) : RegistryCall → Option (Option TestContext)
  | .register op => (tinuTestAdd context op).toOption
  | .useMetainfo metainfo => tinuUseMetainfo metainfo context

def registryCalls (context : Option TestContext) (calls : List RegistryCall) :
    Option (Option TestContext) :=
  calls.foldlM registryCall context

/-- The registrations of a table: its rows up to the one without a suite. -/
def metainfoOps : List TinuMetaInfo → List RegisterOp
  | [] => []
  | row :: rows =>
    match row.suite, row.test with
    | some suite, some test =>
      .addExtended suite test row.setup row.cleanup row.case NULL none :: metainfoOps rows
    | _, _ => []

def RegistryCall.ops : RegistryCall → List RegisterOp
  | .register op => [op]
  | .useMetainfo metainfo => metainfoOps metainfo

/-- The names of a registration. -/
def RegisterOp.pair (op : RegisterOp) : CString × CString :=
  (op.registration.suite, op.registration.test)

/-- The pairs of names that calls register, in order. -/
def registeredPairs (calls : List RegistryCall) : List (CString × CString) :=
  (calls.flatMap RegistryCall.ops).map RegisterOp.pair

/-! ## What a registry is -/

/-- The tests that pairs of names register under a suite, in order. -/
def testsOf (pairs : List (CString × CString)) (suite : CString) : List CString :=
  (pairs.filter fun p => p.1 = suite).map Prod.snd

/-- The context is the registry of the pairs of names. -/
structure RegistryOk (pairs : List (CString × CString)) (c : TestContext) : Prop where
  suiteOrder : c.suites.map (·.name) = (pairs.map Prod.fst).eraseDups
  suiteNames : (c.suites.map (·.name)).Nodup
  testOrder : ∀ s ∈ c.suites, s.tests.map (·.name) = (testsOf pairs s.name).eraseDups
  testNames : ∀ s ∈ c.suites, (s.tests.map (·.name)).Nodup
  /-- `m_suite` is the suite that holds the test, and no other suite is at its address. -/
  owner : ∀ s ∈ c.suites, ∀ t ∈ s.tests,
    t.suite = s.ref ∧ ∀ s' ∈ c.suites, s'.addr = t.suite.addr → s' = s
  nonempty : ∀ s ∈ c.suites, s.tests ≠ []
  names : ∀ s ∈ c.suites, ('.' ∉ s.name ∧ '=' ∉ s.name) ∧
    ∀ t ∈ s.tests, '.' ∉ t.name ∧ '=' ∉ t.name
  /-- Both lookups find the test of a pair, and there is no other of its names. -/
  lookup : ∀ suite test, (suite, test) ∈ pairs → ∀ new : Bool, ∃ s t,
    testSuiteLookup c suite new = (some s, c) ∧ testLookupCase s test = some t ∧
      s.name = suite ∧ t.name = test ∧
      ∀ s' ∈ c.suites, ∀ t' ∈ s'.tests, s'.name = suite → t'.name = test → t' = t

/-! ## Names in order -/

/-- A list with a name added at the end, unless it is there. -/
def addName (l : List CString) (name : CString) : List CString :=
  if name ∈ l then l else l ++ [name]

/-- First occurrences are kept by adding names one after the other. -/
theorem eraseDups_snoc (l : List CString) (name : CString) :
    (l ++ [name]).eraseDups = addName l.eraseDups name := by
  rw [List.eraseDups_append, addName]
  by_cases hn : name ∈ l
  · simp [List.removeAll, hn]
  · simp [List.removeAll, hn, List.eraseDups_cons]

/-- The names of the tests of a suite, none without the suite. -/
def TestContext.testNames (c : TestContext) (suite : CString) : List CString :=
  ((c.find suite).map fun s => s.tests.map (·.name)).getD []

theorem setTests_names (c : TestContext) (addr : Ptr) (f : List TestCase → List TestCase) :
    (c.setTests addr f).suites.map (·.name) = c.suites.map (·.name) := by
  rw [setTests_suites, List.map_map]
  exact List.map_congr_left fun s _ => store_name addr f s

/-- The names under a suite after a store to its tests. -/
theorem testNames_setTests {c : TestContext} (hc : ContextWf c) {s : TestSuite} {suite : CString}
    (hs : c.find suite = some s) (f : List TestCase → List TestCase) (suite' : CString) :
    (c.setTests s.addr f).testNames suite' =
      if suite' = suite then (f s.tests).map (·.name) else c.testNames suite' := by
  by_cases he : suite' = suite
  · subst he
    rw [if_pos rfl, TestContext.testNames, find_setTests, hs, Option.map_some, store_self]
    rfl
  · rw [if_neg he, TestContext.testNames, find_unrelated hc hs f he]
    rfl

/-- A name is added to the tests of a suite that is there. -/
theorem names_setTests {c : TestContext} (hc : ContextWf c) {s : TestSuite} {suite test : CString}
    (hs : c.find suite = some s) {f : List TestCase → List TestCase}
    (hf : (f s.tests).map (·.name) = addName (s.tests.map (·.name)) test) :
    (c.setTests s.addr f).suites.map (·.name) = addName (c.suites.map (·.name)) suite ∧
      ∀ suite', (c.setTests s.addr f).testNames suite' =
        if suite' = suite then addName (c.testNames suite') test else c.testNames suite' := by
  have hmem : suite ∈ c.suites.map (·.name) := by
    by_contra hn
    rw [find_none_iff.mpr hn] at hs
    cases hs
  refine ⟨by rw [setTests_names, addName, if_pos hmem], fun suite' => ?_⟩
  rw [testNames_setTests hc hs]
  by_cases he : suite' = suite
  · subst he
    have hnames : c.testNames suite' = s.tests.map (·.name) := by
      rw [TestContext.testNames, hs]
      rfl
    rw [if_pos rfl, if_pos rfl, hnames, hf]
  · rw [if_neg he, if_neg he]

/-- **One registration adds each of its names at the end**, unless it is there. -/
theorem names_step {c c' : TestContext} {r : Registration} (hc : ContextWf c)
    (h : Registered c r c') :
    c'.suites.map (·.name) = addName (c.suites.map (·.name)) r.suite ∧
      ∀ suite, c'.testNames suite =
        if suite = r.suite then addName (c.testNames suite) r.test else c.testNames suite := by
  cases h with
  | @overwritten s t hs ht =>
    have htest : r.test ∈ s.tests.map (·.name) := by
      by_contra hn
      rw [lookupCase_none_iff.mpr hn] at ht
      cases ht
    refine names_setTests hc hs ?_
    rw [addName, if_pos htest, List.map_map]
    exact List.map_congr_left fun t' _ => (overwritten_fields r t.addr t').1
  | @added s hs ht =>
    have hs1 : TestContext.find { c with next := c.next + 1 } r.suite = some s := hs
    refine names_setTests hc.succ hs1 ?_
    rw [addName, if_neg (lookupCase_none_iff.mp ht), List.map_append]
    rfl
  | created hs =>
    refine ⟨?_, fun suite => ?_⟩
    · rw [addName, if_neg (find_none_iff.mp hs), List.map_append]
      rfl
    · rw [TestContext.testNames, find_created]
      by_cases he : suite = r.suite
      · subst he
        rw [if_pos rfl, TestContext.testNames, hs]
        simp [addName, newCase]
      · rw [if_neg he, if_neg (Ne.symm he), Option.or_none]
        rfl

/-! ## Sequences -/

/-- **Suites and tests stand in the order in which they were first registered.** -/
theorem registeredNames {sighandle leakwatch : Bool} {ops : List RegisterOp} :
    ∀ {c : TestContext}, registerAll (testContextInit sighandle leakwatch) ops = .ok c →
      ContextWf c ∧
        c.suites.map (·.name) = ((ops.map RegisterOp.pair).map Prod.fst).eraseDups ∧
        ∀ suite, c.testNames suite = (testsOf (ops.map RegisterOp.pair) suite).eraseDups := by
  refine foldlM_ok_induct (motive := fun ops c => ContextWf c ∧
    c.suites.map (·.name) = ((ops.map RegisterOp.pair).map Prod.fst).eraseDups ∧
      ∀ suite, c.testNames suite = (testsOf (ops.map RegisterOp.pair) suite).eraseDups)
    ⟨contextInit_wf _ _, rfl, fun _ => rfl⟩ ?_
  rintro ops op c0 c ⟨hwf, hsuites, htests⟩ hstep
  obtain ⟨hwf', hr⟩ := register_spec hwf hstep
  obtain ⟨hsuites', htests'⟩ := names_step hwf hr
  refine ⟨hwf', ?_, fun suite => ?_⟩
  · rw [hsuites', hsuites, List.map_append, List.map_append, List.map_singleton,
      List.map_singleton, eraseDups_snoc]
    rfl
  · rw [htests' suite, htests suite]
    by_cases he : suite = op.registration.suite
    · subst he
      have hsnoc : testsOf ((ops ++ [op]).map RegisterOp.pair) op.registration.suite =
          testsOf (ops.map RegisterOp.pair) op.registration.suite ++ [op.registration.test] := by
        simp [testsOf, RegisterOp.pair]
      rw [if_pos rfl, hsnoc, eraseDups_snoc]
    · have hskip : testsOf ((ops ++ [op]).map RegisterOp.pair) suite =
          testsOf (ops.map RegisterOp.pair) suite := by
        simp [testsOf, RegisterOp.pair, Ne.symm he]
      rw [if_neg he, hskip]

/-- The registrations of a table, when all of them come to an end. -/
theorem useMetainfo_ops :
    ∀ {metainfo : List TinuMetaInfo} {context context' : Option TestContext},
      tinuUseMetainfo metainfo context = some context' →
        (metainfoOps metainfo).foldlM tinuTestAdd context = .ok context'
  | [], context, context', h => nomatch h
  | ⟨none, test, setup, cleanup, case⟩ :: rows, context, context', h => by
    obtain rfl : context = context' := Option.some.inj h
    rfl
  | ⟨some suite, none, setup, cleanup, case⟩ :: rows, context, context', h => nomatch h
  | ⟨some suite, some test, setup, cleanup, case⟩ :: rows, context, context', h => by
    have hstep : ((tinuTestAdd context
        (.addExtended suite test setup cleanup case NULL none)).toOption.bind
          (tinuUseMetainfo rows)) = some context' := h
    have hops : metainfoOps (⟨some suite, some test, setup, cleanup, case⟩ :: rows) =
        .addExtended suite test setup cleanup case NULL none :: metainfoOps rows := rfl
    rw [hops, List.foldlM_cons]
    cases ha : tinuTestAdd context (.addExtended suite test setup cleanup case NULL none) with
    | error e =>
      rw [ha] at hstep
      cases hstep
    | ok context1 =>
      rw [ha] at hstep
      exact useMetainfo_ops hstep

theorem registryCall_ops {context context' : Option TestContext} {call : RegistryCall}
    (h : registryCall context call = some context') :
    call.ops.foldlM tinuTestAdd context = .ok context' := by
  cases call with
  | register op =>
    have hop : (tinuTestAdd context op).toOption = some context' := h
    rw [RegistryCall.ops, List.foldlM_cons]
    cases ha : tinuTestAdd context op with
    | error e =>
      rw [ha] at hop
      cases hop
    | ok context1 =>
      rw [ha] at hop
      obtain rfl : context1 = context' := Option.some.inj hop
      rfl
  | useMetainfo metainfo => exact useMetainfo_ops h

/-- **Calls that come to an end are the registrations they make.** -/
theorem registryCalls_ops :
    ∀ {calls : List RegistryCall} {context context' : Option TestContext},
      registryCalls context calls = some context' →
        (calls.flatMap RegistryCall.ops).foldlM tinuTestAdd context = .ok context'
  | [], context, context', h => by
    obtain rfl : context = context' := Option.some.inj h
    rfl
  | call :: calls, context, context', h => by
    unfold registryCalls at h
    rw [List.foldlM_cons] at h
    obtain ⟨context1, hcall, hcalls⟩ := Option.bind_eq_some_iff.mp h
    rw [List.flatMap_cons, List.foldlM_append, registryCall_ops hcall]
    exact registryCalls_ops hcalls

/-! ## The registry -/

/-- A registered pair of names has its suite and its test. -/
theorem registered_find {pairs : List (CString × CString)} {c : TestContext}
    (hsuites : c.suites.map (·.name) = (pairs.map Prod.fst).eraseDups)
    (htests : ∀ suite, c.testNames suite = (testsOf pairs suite).eraseDups) {suite test : CString}
    (hp : (suite, test) ∈ pairs) :
    ∃ s t, c.find suite = some s ∧ testLookupCase s test = some t := by
  have hsuite : suite ∈ c.suites.map (·.name) := by
    rw [hsuites, List.mem_eraseDups]
    exact List.mem_map_of_mem hp
  cases hf : c.find suite with
  | none => exact absurd hsuite (find_none_iff.mp hf)
  | some s =>
    have hnames : s.tests.map (·.name) = (testsOf pairs suite).eraseDups := by
      rw [← htests suite, TestContext.testNames, hf]
      rfl
    have htest : test ∈ s.tests.map (·.name) := by
      rw [hnames, List.mem_eraseDups, testsOf]
      exact List.mem_map_of_mem (List.mem_filter.mpr ⟨hp, by simp⟩)
    cases hl : testLookupCase s test with
    | none => exact absurd htest (lookupCase_none_iff.mp hl)
    | some t => exact ⟨s, t, rfl, hl⟩

/-- **After any calls that come to an end the context is the registry of the names they
passed**; it is fresh before them, or of the caller's own. -/
theorem registry_ok {init : Option (Bool × Bool)} {calls : List RegistryCall} {c : TestContext}
    (h : registryCalls (init.map fun flags => testContextInit flags.1 flags.2) calls =
      some (some c)) : RegistryOk (registeredPairs calls) c := by
  have hops := addAll_registerAll _ (registryCalls_ops h)
  obtain ⟨sighandle, leakwatch, hinit⟩ : ∃ sighandle leakwatch,
      (init.map fun flags => testContextInit flags.1 flags.2).getD (testContextInit false false) =
        testContextInit sighandle leakwatch := by
    cases init with
    | none => exact ⟨false, false, rfl⟩
    | some flags => exact ⟨flags.1, flags.2, rfl⟩
  rw [hinit, Option.getD_some] at hops
  obtain ⟨hwf, hsuites, htests⟩ := registeredNames hops
  refine ⟨hsuites, hwf.names, ?_, ?_, ?_, ?_, ?_, ?_⟩
  · intro s hs
    rw [registeredPairs, ← htests s.name, TestContext.testNames, find_of_mem hwf hs]
    rfl
  · exact fun s hs => (hwf.suites s hs).testNames
  · intro s hs t ht
    have howner := (hwf.suites s hs).owner t ht
    refine ⟨howner, fun s' hs' ha => ?_⟩
    rw [howner] at ha
    exact eq_of_key hwf.addrs hs' hs ha
  · exact fun s hs => (hwf.suites s hs).nonempty
  · exact fun s hs => ⟨(validateName_iff _).mp (hwf.suites s hs).name,
      fun t ht => (validateName_iff _).mp ((hwf.suites s hs).testName t ht)⟩
  · intro suite test hp new
    obtain ⟨s, t, hf, hl⟩ := registered_find hsuites htests hp
    obtain ⟨hs, hsname⟩ := find_mem hf
    obtain ⟨ht, htname⟩ := lookupCase_mem hl
    refine ⟨s, t, ?_, hl, hsname, htname, ?_⟩
    · cases new with
      | true => exact testSuiteLookup_new_some hf
      | false =>
        rw [testSuiteLookup_find, hf]
        rfl
    · intro s' hs' t' ht' hsname' htname'
      obtain rfl := eq_of_key hwf.names hs' hs (hsname'.trans hsname.symm)
      exact eq_of_key (hwf.suites s' hs').testNames ht' ht (htname'.trans htname.symm)

/-- Three calls that name a pair twice, once through a table. -/
theorem registry_ok_calls :
    ∃ c, registryCalls none
        [.register (.add "a".toList "x".toList none none none),
          .useMetainfo [⟨some "b".toList, some "x".toList, none, none, none⟩,
            ⟨some "a".toList, some "y".toList, none, none, none⟩, ⟨none, none, none, none, none⟩],
          .register (.addExtended "a".toList "x".toList none none none NULL none)] =
          some (some c) ∧
        RegistryOk [("a".toList, "x".toList), ("b".toList, "x".toList), ("a".toList, "y".toList),
          ("a".toList, "x".toList)] c := by
  have hrun : ∃ c, registryCalls none
      [.register (.add "a".toList "x".toList none none none),
        .useMetainfo [⟨some "b".toList, some "x".toList, none, none, none⟩,
          ⟨some "a".toList, some "y".toList, none, none, none⟩, ⟨none, none, none, none, none⟩],
        .register (.addExtended "a".toList "x".toList none none none NULL none)] =
        some (some c) := ⟨_, rfl⟩
  obtain ⟨c, hc⟩ := hrun
  exact ⟨c, hc, @registry_ok none _ c hc⟩

end Tinu
