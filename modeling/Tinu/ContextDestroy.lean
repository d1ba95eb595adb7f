import Tinu.Hooks
import Tinu.Registrations

/-!
# The end of a context (`test.c`)

`test_context_destroy` goes through the suites and their tests, gives the user data of each test
to its cleanup, and releases the tests, the suites, the arrays of pointers to them and the hooks.

* `repeatedOps` — the registrations of names that were registered before: nothing takes over their
  user data;
* `registered_accounts` — what one registration adds to what the context will release;
* `unregisterAll_spec` — of each list of hooks the first entry is released;
* `destroy_accounts` — after any registrations the user data of a test is released exactly when
  its registration was the first under its names, and every block and array of the context is
  released once.
-/

set_option autoImplicit false

namespace Tinu

/-! ## `test_context_destroy` -/

/-- A `GPtrArray`, by the member that has it: `m_suites`, or `m_tests` of the suite at an
address. -/
inductive PtrArray where
  | suites
  | tests (suite : Ptr)
  deriving DecidableEq, Repr

/-- What `test_context_destroy` does besides the hooks. -/
inductive Teardown where
  | userData (cleanup : CleanupFn) (data : UserData)
  | free (block : Ptr)
  | freeArray (array : PtrArray)
  deriving DecidableEq, Repr

/-- The body of the inner loop. -/
def testCaseDestroy (t : TestCase) : List Teardown :=
  match t.userDataCleanup with
  | some cleanup => [.userData cleanup t.userData, .free t.addr]
  | none => [.free t.addr]

/-- The body of the outer loop. -/
def testSuiteDestroy (s : TestSuite) : List Teardown :=
  s.tests.flatMap testCaseDestroy ++ [.freeArray (.tests s.addr), .free s.addr]

/-- The loops of `test_context_destroy`, and `m_suites`. -/
def TestContext.teardown (self : TestContext) : List Teardown :=
  self.suites.flatMap testSuiteDestroy ++ [.freeArray .suites]

/-- `test_context_destroy`. -/
def testContextDestroy (self : TestContext) (hooks : HookTable) :
    Option (List Teardown × HookTable) := do
  let hooks ← testUnregisterHook hooks .all none NULL
  some (self.teardown, hooks)

/-- The user data that is released, with its cleanup. -/
def Teardown.released : Teardown → Option (CleanupFn × UserData)
  | .userData cleanup data => some (cleanup, data)
  | _ => none

/-- The block that is given back. -/
def Teardown.block : Teardown → Option Ptr
  | .free block => some block
  | _ => none

/-- The array that is given back. -/
def Teardown.array : Teardown → Option PtrArray
  | .freeArray array => some array
  | _ => none

/-! ## What a registration hands over -/

/-- The user data of a registration, where it comes with a cleanup. -/
def Registration.handed (r : Registration) : Option (CleanupFn × UserData) :=
  r.userDataCleanup.map fun cleanup => (cleanup, r.userData)

/-- The registrations of names that were registered before, `seen` being those from before. -/
def repeatedOps : List (CString × CString) → List RegisterOp → List RegisterOp
  | _, [] => []
  | seen, op :: ops =>
    if op.pair ∈ seen then op :: repeatedOps seen ops else repeatedOps (op.pair :: seen) ops

theorem repeatedOps_snoc (op : RegisterOp) :
    ∀ (ops : List RegisterOp) (seen : List (CString × CString)),
      repeatedOps seen (ops ++ [op]) =
        repeatedOps seen ops ++
          if op.pair ∈ seen ∨ op.pair ∈ ops.map RegisterOp.pair then [op] else []
  | [], seen => by
    by_cases hs : op.pair ∈ seen <;> simp [repeatedOps, hs]
  | op' :: ops, seen => by
    rw [List.cons_append, repeatedOps, repeatedOps, repeatedOps_snoc op ops,
      repeatedOps_snoc op ops]
    by_cases hs : op'.pair ∈ seen
    · rw [if_pos hs, if_pos hs, List.cons_append]
      have hiff : (op.pair ∈ seen ∨ op.pair ∈ ops.map RegisterOp.pair) ↔
          (op.pair ∈ seen ∨ op.pair ∈ (op' :: ops).map RegisterOp.pair) := by
        rw [List.map_cons, List.mem_cons]
        refine ⟨fun h => h.imp_right .inr, ?_⟩
        rintro (h | h | h)
        · exact .inl h
        · exact .inl (h ▸ hs)
        · exact .inr h
      simp only [hiff]
    · rw [if_neg hs, if_neg hs]
      have hiff : (op.pair ∈ op'.pair :: seen ∨ op.pair ∈ ops.map RegisterOp.pair) ↔
          (op.pair ∈ seen ∨ op.pair ∈ (op' :: ops).map RegisterOp.pair) := by
        rw [List.map_cons, List.mem_cons, List.mem_cons]
        tauto
      simp only [hiff]

theorem mem_pairs_iff {ops : List RegisterOp} {op : RegisterOp} :
    op.pair ∈ ops.map RegisterOp.pair ↔
      registrationsFor ops op.registration.suite op.registration.test ≠ [] := by
  rw [registrationsFor, ne_eq, List.map_eq_nil_iff, opsFor, List.filter_eq_nil_iff]
  simp [RegisterOp.pair]

/-! ## What a context will release -/

/-- The user data that the tests of a suite release, in order. -/
def TestSuite.handed (s : TestSuite) : List (CleanupFn × UserData) :=
  s.tests.filterMap fun t => t.userDataCleanup.map fun cleanup => (cleanup, t.userData)

def TestSuite.blocks (s : TestSuite) : List Ptr := s.tests.map (·.addr) ++ [s.addr]

def TestContext.handed (c : TestContext) : List (CleanupFn × UserData) :=
  c.suites.flatMap TestSuite.handed

def TestContext.blocks (c : TestContext) : List Ptr := c.suites.flatMap TestSuite.blocks

def TestContext.arrays (c : TestContext) : List PtrArray :=
  c.suites.map (fun s => .tests s.addr) ++ [.suites]

theorem testSuiteDestroy_events (s : TestSuite) :
    (testSuiteDestroy s).filterMap Teardown.released = s.handed ∧
      (testSuiteDestroy s).filterMap Teardown.block = s.blocks ∧
      (testSuiteDestroy s).filterMap Teardown.array = [.tests s.addr] := by
  have hcases : ∀ ts : List TestCase,
      (ts.flatMap testCaseDestroy).filterMap Teardown.released =
        ts.filterMap (fun t => t.userDataCleanup.map fun cleanup => (cleanup, t.userData)) ∧
      (ts.flatMap testCaseDestroy).filterMap Teardown.block = ts.map (·.addr) ∧
      (ts.flatMap testCaseDestroy).filterMap Teardown.array = [] := by
    intro ts
    induction ts with
    | nil => exact ⟨rfl, rfl, rfl⟩
    | cons t ts ih =>
      obtain ⟨hreleased, hblocks, harrays⟩ := ih
      rw [List.flatMap_cons, List.filterMap_append, List.filterMap_append, List.filterMap_append,
        hreleased, hblocks, harrays, List.filterMap_cons, testCaseDestroy]
      cases t.userDataCleanup <;> exact ⟨rfl, rfl, rfl⟩
  obtain ⟨hreleased, hblocks, harrays⟩ := hcases s.tests
  rw [testSuiteDestroy, List.filterMap_append, List.filterMap_append, List.filterMap_append,
    hreleased, hblocks, harrays]
  exact ⟨List.append_nil _, rfl, rfl⟩

theorem destroy_events (c : TestContext) :
    c.teardown.filterMap Teardown.released = c.handed ∧
      c.teardown.filterMap Teardown.block = c.blocks ∧
      c.teardown.filterMap Teardown.array = c.arrays := by
  rw [TestContext.teardown, List.filterMap_append, List.filterMap_append, List.filterMap_append,
    List.filterMap_flatMap, List.filterMap_flatMap, List.filterMap_flatMap]
  refine ⟨?_, ?_, ?_⟩
  · exact (List.append_nil _).trans (List.flatMap_congr fun s _ => (testSuiteDestroy_events s).1)
  · exact (List.append_nil _).trans (List.flatMap_congr fun s _ => (testSuiteDestroy_events s).2.1)
  · refine congrArg (· ++ [PtrArray.suites]) ?_
    rw [List.flatMap_congr fun s _ => (testSuiteDestroy_events s).2.2, ← List.map_eq_flatMap]

/-- No suite has the address of another, so no array stands in the list twice. -/
theorem arrays_nodup {c : TestContext} (hc : ContextWf c) : c.arrays.Nodup := by
  have htests : (c.suites.map fun s => PtrArray.tests s.addr).Nodup := by
    have hinj := hc.addrs.map (f := PtrArray.tests) fun a b h => PtrArray.tests.inj h
    rwa [List.map_map] at hinj
  refine List.nodup_append.mpr ⟨htests, List.nodup_singleton _, ?_⟩
  rintro a ha b hb rfl
  obtain ⟨s, -, rfl⟩ := List.mem_map.mp ha
  cases List.mem_singleton.mp hb

/-- A store to one suite, in its place among the others. -/
theorem setTests_split {c : TestContext} (hc : ContextWf c) {s : TestSuite} (hs : s ∈ c.suites)
    (f : List TestCase → List TestCase) :
    ∃ l r, c.suites = l ++ s :: r ∧
      (c.setTests s.addr f).suites = l ++ { s with tests := f s.tests } :: r := by
  obtain ⟨l, r, hsplit⟩ := List.append_of_mem hs
  have haddrs := hc.addrs
  rw [hsplit, List.map_append, List.map_cons] at haddrs
  have hperm := (List.perm_middle.nodup_iff.mp haddrs)
  obtain ⟨hnot, -⟩ := List.nodup_cons.mp hperm
  have hkeep : ∀ x ∈ l ++ r, TestSuite.store s.addr f x = x := by
    intro x hx
    refine store_ne fun he => hnot ?_
    rw [← he, ← List.map_append]
    exact List.mem_map_of_mem hx
  refine ⟨l, r, hsplit, ?_⟩
  rw [setTests_suites, hsplit, List.map_append, List.map_cons, store_self,
    List.map_congr_left (g := id) fun x hx => hkeep x (List.mem_append_left _ hx), List.map_id,
    List.map_congr_left (g := id) fun x hx => hkeep x (List.mem_append_right _ hx), List.map_id]

/-- What a context hands over and its blocks, with one suite in its place. -/
theorem handed_split {c : TestContext} {l r : List TestSuite} {s : TestSuite}
    (hsplit : c.suites = l ++ s :: r) :
    c.handed = l.flatMap TestSuite.handed ++ (s.handed ++ r.flatMap TestSuite.handed) ∧
      c.blocks = l.flatMap TestSuite.blocks ++ (s.blocks ++ r.flatMap TestSuite.blocks) := by
  rw [TestContext.handed, TestContext.blocks, hsplit]
  simp only [List.flatMap_append, List.flatMap_cons, and_self]

/-- The suite of a test that is overwritten. -/
def TestSuite.overwritten (s : TestSuite) (r : Registration) (addr : Ptr) : TestSuite :=
  { s with tests := s.tests.map fun t => if t.addr = addr then overwriteCase r t else t }

theorem overwritten_handed (s : TestSuite) (r : Registration) (addr : Ptr) :
    (s.overwritten r addr).handed = s.handed ∧ (s.overwritten r addr).blocks = s.blocks := by
  constructor
  · rw [TestSuite.handed, TestSuite.overwritten, List.filterMap_map]
    refine List.filterMap_congr fun t _ => ?_
    rw [Function.comp_apply]
    split <;> rfl
  · rw [TestSuite.blocks, TestSuite.overwritten, List.map_map]
    congr 1
    refine List.map_congr_left fun t _ => ?_
    rw [Function.comp_apply]
    split <;> rfl

/-- **What one registration adds**: nothing to a test that is there, otherwise its user data, with
the new blocks. -/
theorem registered_accounts {c c' : TestContext} {r : Registration} (hc : ContextWf c)
    (h : Registered c r c') :
    c'.handed.Perm (c.handed ++
        if (c.findCase r.suite r.test).isSome then [] else r.handed.toList) ∧
      ((0 :: c.blocks).Perm (List.range c.next) → (0 :: c'.blocks).Perm (List.range c'.next)) := by
  cases h with
  | @overwritten s t hs ht =>
    obtain ⟨l, q, hsplit, hsplit'⟩ := setTests_split hc (find_mem hs).1
      fun ts => ts.map fun t' => if t'.addr = t.addr then overwriteCase r t' else t'
    obtain ⟨hhanded, hblocks⟩ := overwritten_handed s r t.addr
    rw [TestSuite.overwritten] at hhanded hblocks
    obtain ⟨h1, h2⟩ := handed_split hsplit
    obtain ⟨h1', h2'⟩ := handed_split hsplit'
    rw [findCase_of_find hs, ht, Option.isSome_some, if_pos rfl, List.append_nil, h1', h2', hhanded,
      hblocks, ← h1, ← h2]
    exact ⟨List.Perm.refl _, fun hp => hp⟩
  | @added s hs ht =>
    obtain ⟨l, q, hsplit, hsplit'⟩ := setTests_split hc.succ (find_mem hs).1
      fun ts => ts ++ [newCase r c.next s.ref]
    have hsplit : c.suites = l ++ s :: q := hsplit
    obtain ⟨h1, h2⟩ := handed_split hsplit
    obtain ⟨h1', h2'⟩ := handed_split hsplit'
    have hhanded : TestSuite.handed { s with tests := s.tests ++ [newCase r c.next s.ref] } =
        s.handed ++ r.handed.toList := by
      rw [TestSuite.handed, List.filterMap_append]
      cases hu : r.userDataCleanup <;> simp [TestSuite.handed, Registration.handed, newCase, hu]
    have hblocks : TestSuite.blocks { s with tests := s.tests ++ [newCase r c.next s.ref] } =
        s.tests.map (·.addr) ++ [c.next] ++ [s.addr] := by
      rw [TestSuite.blocks, List.map_append]
      rfl
    rw [findCase_of_find hs, ht, h1', h1, hhanded]
    refine ⟨?_, fun hp => ?_⟩
    · rw [List.perm_iff_count]
      intro a
      simp only [List.count_append, Option.isSome_none, Bool.false_eq_true, if_false]
      omega
    · rw [h2] at hp
      rw [h2', hblocks]
      show List.Perm _ (List.range (c.next + 1))
      rw [List.range_succ]
      refine List.Perm.trans ?_ (hp.append_right [c.next])
      rw [List.perm_iff_count]
      intro a
      simp only [List.count_append, List.count_cons, TestSuite.blocks, List.cons_append]
      omega
  | created hs =>
    have hnone : c.findCase r.suite r.test = none := by
      rw [TestContext.findCase, hs]
      rfl
    rw [hnone, Option.isSome_none, if_neg Bool.false_ne_true]
    refine ⟨?_, fun hp => ?_⟩
    · rw [TestContext.handed, List.flatMap_append]
      refine List.Perm.append (List.Perm.refl _) ?_
      cases hu : r.userDataCleanup <;> simp [TestSuite.handed, Registration.handed, newCase, hu]
    · rw [TestContext.blocks, List.flatMap_append]
      show List.Perm _ (List.range (c.next + 2))
      rw [List.range_succ, List.range_succ, List.append_assoc]
      refine List.Perm.trans ?_ (hp.append_right _)
      refine (List.Perm.refl (0 :: c.blocks)).append ?_
      exact List.Perm.swap _ _ _

/-! ## The hooks -/

/-- The entries that were released. -/
def HookTable.gone (t : HookTable) : List TestHookEntry :=
  t.heap.released.filterMap Release.destroyed

/-- Of the list of an id only the first entry is released. -/
theorem unregisterId_gone {t : HookTable} {es : TestHookID → List TestHookEntry} (ht : t.Holds es)
    (id : TestHookID) :
    ∃ t', testUnregisterHookId t id none NULL = some t' ∧ t'.Holds (Function.update es id []) ∧
      t'.gone = t.gone ++ (es id).head?.toList := by
  obtain ⟨t', hrun, hholds⟩ := testUnregisterHookId_holds ht id none NULL
  refine ⟨t', hrun, hholds, ?_⟩
  obtain ⟨nodes, hr⟩ := ht
  have hring := hr.ring id
  have hreads := hr.reads id
  rw [testUnregisterHookId] at hrun
  cases hn : nodes id with
  | nil =>
    rw [hn] at hring hreads
    have htop : t.hooks id = none := hring.head
    rw [htop] at hrun
    obtain rfl := Option.some.inj hrun
    rw [← hreads]
    exact (List.append_nil _).symm
  | cons a l =>
    rw [hn] at hring hreads
    have htop : t.hooks id = some a := hring.head
    rw [htop] at hrun hring
    obtain ⟨h', d, hd, hdestroy, hreleased⟩ := clistDestroy_cons true hring
    rw [hdestroy] at hrun
    obtain rfl := Option.some.inj hrun
    have hhead : (es id).head? = some d := by
      rw [← hreads, reading_cons l hd]
      rfl
    rw [hhead, HookTable.gone]
    show h'.released.filterMap Release.destroyed = _
    rw [hreleased, List.filterMap_append]
    rfl

theorem unregisterIds_gone :
    ∀ (ids : List TestHookID), ids.Nodup → ∀ {t : HookTable} {es : TestHookID → List TestHookEntry},
      t.Holds es →
      ∃ t', ids.foldlM (fun t i => testUnregisterHookId t i none NULL) t = some t' ∧
        t'.Holds (fun id => if id ∈ ids then [] else es id) ∧
        t'.gone = t.gone ++ ids.flatMap fun id => (es id).head?.toList
  | [], _, t, es, ht => ⟨t, rfl, by simpa using ht, (List.append_nil _).symm⟩
  | i :: ids, hnodup, t, es, ht => by
    obtain ⟨hi, hnodup⟩ := List.nodup_cons.mp hnodup
    obtain ⟨t1, hrun1, hholds1, hgone1⟩ := unregisterId_gone ht i
    obtain ⟨t2, hrun2, hholds2, hgone2⟩ := unregisterIds_gone ids hnodup hholds1
    refine ⟨t2, by simp [List.foldlM_cons, hrun1, hrun2], ?_, ?_⟩
    · convert hholds2 using 2 with id
      by_cases hid : id = i
      · simp [hid]
      · simp [hid]
    · have hrest : ids.flatMap (fun id => (Function.update es i [] id).head?.toList) =
          ids.flatMap fun id => (es id).head?.toList := by
        refine List.flatMap_congr fun id hid => ?_
        have hne : id ≠ i := fun he => hi (he ▸ hid)
        rw [Function.update_of_ne hne]
      rw [hgone2, hgone1, hrest, List.append_assoc, List.flatMap_cons]

/-- **Unregistering everything** empties every list, and releases the first entry of each. -/
theorem unregisterAll_spec {t : HookTable} {es : TestHookID → List TestHookEntry}
    (ht : t.Holds es) :
    ∃ t', testUnregisterHook t .all none NULL = some t' ∧ t'.Holds (fun _ => []) ∧
      t'.gone = t.gone ++ TestHookID.each.flatMap fun id => (es id).head?.toList := by
  obtain ⟨t', hrun, hholds, hgone⟩ := unregisterIds_gone TestHookID.each TestHookID.each_nodup ht
  refine ⟨t', hrun, ?_, hgone⟩
  simpa only [TestHookID.mem_each, if_true] using hholds

/-! ## After any registrations -/

/-- What a context hands over, with what is lost by registering again, is what the registrations
handed to it; and its blocks are those that were allocated. -/
theorem registerAll_accounts {sighandle leakwatch : Bool} {ops : List RegisterOp} :
    ∀ {c : TestContext}, registerAll (testContextInit sighandle leakwatch) ops = .ok c →
      (c.handed ++ (repeatedOps [] ops).filterMap fun op => op.registration.handed).Perm
          (ops.filterMap fun op => op.registration.handed) ∧
        (0 :: c.blocks).Perm (List.range c.next) := by
  intro c hreg
  have hall : registerAll (testContextInit sighandle leakwatch) ops = .ok c ∧
      (c.handed ++ (repeatedOps [] ops).filterMap fun op => op.registration.handed).Perm
          (ops.filterMap fun op => op.registration.handed) ∧
        (0 :: c.blocks).Perm (List.range c.next) := by
    refine foldlM_ok_induct (motive := fun ops c =>
      registerAll (testContextInit sighandle leakwatch) ops = .ok c ∧
      (c.handed ++ (repeatedOps [] ops).filterMap fun op => op.registration.handed).Perm
          (ops.filterMap fun op => op.registration.handed) ∧
        (0 :: c.blocks).Perm (List.range c.next))
      ⟨rfl, List.Perm.refl _, List.Perm.refl _⟩ ?_ hreg
    rintro ops op c0 c1 ⟨hops, hdata, hblocks⟩ hstep
    obtain ⟨hwf, -, hcase⟩ := registerAll_spec hops
    obtain ⟨-, hr⟩ := register_spec hwf hstep
    obtain ⟨hstepdata, hstepblocks⟩ := registered_accounts hwf hr
    refine ⟨?_, ?_, hstepblocks hblocks⟩
    · rw [registerAll, List.foldlM_append, ← registerAll, hops]
      simp only [List.foldlM_cons, List.foldlM_nil, bind_pure]
      exact hstep
    · have hknown : (c0.findCase op.registration.suite op.registration.test).isSome ↔
          op.pair ∈ ops.map RegisterOp.pair := by
        have hof := hcase op.registration.suite op.registration.test
        rw [mem_pairs_iff]
        cases hf : c0.findCase op.registration.suite op.registration.test with
        | none =>
          rw [hf] at hof
          have hnil : registrationsFor ops op.registration.suite op.registration.test = [] := hof
          simp [hnil]
        | some t =>
          rw [hf] at hof
          obtain ⟨first, last, hfirst, -⟩ := hof
          simp only [Option.isSome_some, ne_eq, true_iff]
          rintro hnil
          rw [hnil] at hfirst
          cases hfirst
      rw [repeatedOps_snoc, List.filterMap_append, List.filterMap_append]
      have hnew : ([op].filterMap fun op => op.registration.handed) =
          op.registration.handed.toList := by
        cases hh : op.registration.handed <;> simp [hh]
      rw [hnew]
      by_cases hseen : op.pair ∈ ops.map RegisterOp.pair
      · rw [if_pos (hknown.mpr hseen), List.append_nil] at hstepdata
        rw [if_pos (.inr hseen), hnew, ← List.append_assoc]
        exact ((hstepdata.append_right _).trans hdata).append_right _
      · rw [if_neg (fun h => hseen (hknown.mp h))] at hstepdata
        rw [if_neg (by simpa using hseen), List.filterMap_nil, List.append_nil]
        refine (hstepdata.append_right _).trans ?_
        rw [List.append_assoc]
        refine ((List.perm_append_comm).append_left _).trans ?_
        rw [← List.append_assoc]
        exact hdata.append_right _
  exact hall.2

/-- **After any registrations `test_context_destroy`** gives each user data to its cleanup exactly
when its registration was the first under its names, releases every block and every array of the
context once, and of each list of hooks the first entry. -/
theorem destroy_accounts {sighandle leakwatch : Bool} {ops : List RegisterOp} {c : TestContext}
    (hreg : registerAll (testContextInit sighandle leakwatch) ops = .ok c) {hooks : HookTable}
    {es : TestHookID → List TestHookEntry} (hhooks : hooks.Holds es) :
    ∃ events hooks', testContextDestroy c hooks = some (events, hooks') ∧
      (events.filterMap Teardown.released ++
          (repeatedOps [] ops).filterMap fun op => op.registration.handed).Perm
        (ops.filterMap fun op => op.registration.handed) ∧
      (events.filterMap Teardown.block).Nodup ∧
      (∀ a, a ∈ events.filterMap Teardown.block ↔ a ≠ NULL ∧ a < c.next) ∧
      (events.filterMap Teardown.array).Nodup ∧
      (∀ a, a ∈ events.filterMap Teardown.array ↔
        a = .suites ∨ ∃ s ∈ c.suites, a = .tests s.addr) ∧
      hooks'.Holds (fun _ => []) ∧
      hooks'.gone = hooks.gone ++ TestHookID.each.flatMap fun id => (es id).head?.toList := by
  obtain ⟨hdata, hblocks⟩ := registerAll_accounts hreg
  obtain ⟨hwf, -, -⟩ := registerAll_spec hreg
  obtain ⟨hreleased, hfreed, harrays⟩ := destroy_events c
  obtain ⟨hooks', hunregister, hholds, hgone⟩ := unregisterAll_spec hhooks
  refine ⟨c.teardown, hooks', by rw [testContextDestroy, hunregister]; rfl, ?_, ?_, ?_, ?_, ?_,
    hholds, hgone⟩
  · rw [hreleased]
    exact hdata
  · rw [hfreed]
    exact (List.nodup_cons.mp (hblocks.nodup_iff.mpr List.nodup_range)).2
  · intro a
    have hnull : (0 : Ptr) ∉ c.blocks :=
      (List.nodup_cons.mp (hblocks.nodup_iff.mpr List.nodup_range)).1
    have hmem := hblocks.mem_iff (a := a)
    rw [List.mem_cons, List.mem_range] at hmem
    rw [hfreed, ← hmem]
    constructor
    · intro ha
      refine ⟨fun he => ?_, .inr ha⟩
      rw [he] at ha
      exact hnull ha
    · rintro ⟨hne, he | ha⟩
      · exact absurd he hne
      · exact ha
  · rw [harrays]
    exact arrays_nodup hwf
  · intro a
    rw [harrays, TestContext.arrays, List.mem_append, List.mem_map, List.mem_singleton, or_comm]
    simp only [eq_comm]

/-- A test that is registered twice, with data of its own each time. -/
def sharedNamesOps : List RegisterOp :=
  [.addExtended ['a'] ['x'] none none none 7 (some 1),
    .addExtended ['a'] ['x'] none none none 8 (some 1), .add ['a'] ['y'] none none none]

theorem destroy_accounts_shared :
    ∃ c, registerAll (testContextInit false false) sharedNamesOps = .ok c ∧
      ∃ events hooks', testContextDestroy c HookTable.init = some (events, hooks') ∧
        (events.filterMap Teardown.released ++
            (repeatedOps [] sharedNamesOps).filterMap fun op => op.registration.handed).Perm
          (sharedNamesOps.filterMap fun op => op.registration.handed) ∧
        (events.filterMap Teardown.block).Nodup ∧
        (∀ a, a ∈ events.filterMap Teardown.block ↔ a ≠ NULL ∧ a < c.next) ∧
        (events.filterMap Teardown.array).Nodup ∧
        (∀ a, a ∈ events.filterMap Teardown.array ↔ a = .suites ∨ ∃ s ∈ c.suites, a = .tests s.addr) ∧
        hooks'.Holds (fun _ => []) ∧
        hooks'.gone = HookTable.init.gone ++
          TestHookID.each.flatMap fun _ => ([] : List TestHookEntry).head?.toList := by
  have hrun : ∃ c, registerAll (testContextInit false false) sharedNamesOps = .ok c := ⟨_, rfl⟩
  obtain ⟨c, hc⟩ := hrun
  exact ⟨c, hc, destroy_accounts hc HookTable.init_holds⟩

/-- Nothing takes over the data of the second registration. -/
example : (repeatedOps [] sharedNamesOps).filterMap (fun op => op.registration.handed) =
    [(.user 1, .data 8)] := by decide

end Tinu
