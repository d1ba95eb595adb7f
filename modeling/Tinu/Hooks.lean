import Tinu.CListFilter

/-!
# The hook registry (`test.c`)

`TestContext.m_hooks` is an array of circular lists, one for each hook id, all on one heap.

* `step_holds` — no call on the registry faults or runs forever, and what it leaves in each list
  is `codeLists`: registering appends, **unregistering empties every list it touches**;
* `unregister_loop_ends` — the loop that unregisters ends, with its iterator in its ring throughout;
* `testRunHooks_holds` — running a hook calls the callbacks of its list, in order.
-/

set_option autoImplicit false

namespace Tinu

/-- `TestHookID`, up to `TEST_HOOK_MAX`. -/
inductive TestHookID where
  | assert
  | signalAbort
  | signalSegfault
  | beforeTest
  | afterTest
  | beforeSuite
  | afterSuite
  | leakInfo
  deriving DecidableEq, Repr

/-- The ids a loop from `0` to `TEST_HOOK_MAX` goes through. -/
def TestHookID.each : List TestHookID :=
  [.assert, .signalAbort, .signalSegfault, .beforeTest, .afterTest, .beforeSuite, .afterSuite,
    .leakInfo]

theorem TestHookID.mem_each (id : TestHookID) : id ∈ TestHookID.each := by
  cases id <;> decide

theorem TestHookID.each_nodup : TestHookID.each.Nodup := by decide

/-- The `hook_id` argument of register and unregister: an id, or `TEST_HOOK_ALL`. -/
inductive HookSel where
  | one (id : TestHookID)
  | all
  deriving DecidableEq, Repr

/-- `struct _TestHookEntry`. -/
structure TestHookEntry where
  hook : Option FnPtr
  userData : Ptr
  deriving DecidableEq, Repr

/-- The `m_hooks` of a context, with the heap its lists live on. -/
structure HookTable where
  heap : CHeap TestHookEntry
  hooks : TestHookID → Option Ptr

/-- `memset(self->m_hooks, 0, …)` in `test_context_init`. -/
def HookTable.init : HookTable := ⟨CHeap.empty, fun _ => none⟩

def HookTable.set (t : HookTable) (h : CHeap TestHookEntry) (id : TestHookID)
    (top : Option Ptr) : HookTable :=
  ⟨h, fun i => if i = id then top else t.hooks i⟩

/-! ## The functions of `test.c` -/

/-- The (callback, user data) pairs that `_test_run_hooks` calls; entries without a callback are
skipped. -/
def hookCalls (es : List TestHookEntry) : List (FnPtr × Ptr) :=
  es.filterMap fun e => e.hook.map fun hook => (hook, e.userData)

/-- `_test_run_hooks`: the calls it makes. -/
def testRunHooks (t : HookTable) (id : TestHookID) : Option (List (FnPtr × Ptr)) := do
  let entries ← iterCollect t.heap (t.heap.brk + 1) (clistIterNew (t.hooks id))
  some (hookCalls entries)

/-- `test_register_hook` with a single id. -/
def testRegisterHookId (t : HookTable) (id : TestHookID) (hook : Option FnPtr) (userData : Ptr) :
    Option HookTable := do
  let (top, h) ← clistAppend t.heap (t.hooks id) ⟨hook, userData⟩
  some (t.set h id (some top))

/-- `test_register_hook`. -/
def testRegisterHook (t : HookTable) (sel : HookSel) (hook : Option FnPtr) (userData : Ptr) :
    Option HookTable :=
  match sel with
  | .one id => testRegisterHookId t id hook userData
  | .all => TestHookID.each.foldlM (fun t i => testRegisterHookId t i hook userData) t

/-- `test_register_multiple_hooks`. -/
def testRegisterMultipleHooks (t : HookTable) (hooks : TestHookID → Option FnPtr)
    (userData : Ptr) : Option HookTable :=
  TestHookID.each.foldlM (fun t id =>
    if (hooks id).isSome then testRegisterHook t (.one id) (hooks id) userData else some t) t

/-- The match of `test_unregister_hook`. -/
def unregisterMatch (hook : FnPtr) (userData : Ptr) (e : TestHookEntry) : Bool :=
  e.hook == some hook && (userData == NULL || e.userData == userData)

/-- More rounds than the loop of `test_unregister_hook` can take on this heap. -/
def unregisterFuel (h : CHeap TestHookEntry) : Nat := h.brk * h.brk + h.brk + 1

/-- `test_unregister_hook` with a single id.  Both branches end by storing `NULL` as the head. -/
def testUnregisterHookId (t : HookTable) (id : TestHookID) (hook : Option FnPtr)
    (userData : Ptr) : Option HookTable :=
  match hook with
  | none => do
    let h ← clistDestroy t.heap (t.hooks id) true
    some (t.set h id none)
  | some hook => do
    let (h, _) ← iterFilter (unregisterMatch hook userData) true (unregisterFuel t.heap) t.heap
      (clistIterNew (t.hooks id))
    some (t.set h id none)

/-- `test_unregister_hook`.  For `TEST_HOOK_ALL` the callback and the user data are not passed
on. -/
def testUnregisterHook (t : HookTable) (sel : HookSel) (hook : Option FnPtr) (userData : Ptr) :
    Option HookTable :=
  match sel with
  | .one id => testUnregisterHookId t id hook userData
  | .all => TestHookID.each.foldlM (fun t i => testUnregisterHookId t i none NULL) t

/-- `test_unregister_multiple_hooks`. -/
def testUnregisterMultipleHooks (t : HookTable) (hooks : TestHookID → Option FnPtr)
    (userData : Ptr) : Option HookTable :=
  TestHookID.each.foldlM (fun t id =>
    if (hooks id).isSome then testUnregisterHook t (.one id) (hooks id) userData else some t) t

/-- A call on the registry. -/
inductive HookOp where
  | register (sel : HookSel) (hook : Option FnPtr) (userData : Ptr)
  | registerMultiple (hooks : TestHookID → Option FnPtr) (userData : Ptr)
  | unregister (sel : HookSel) (hook : Option FnPtr) (userData : Ptr)
  | unregisterMultiple (hooks : TestHookID → Option FnPtr) (userData : Ptr)

def HookTable.step (t : HookTable) : HookOp → Option HookTable
  | .register sel hook userData => testRegisterHook t sel hook userData
  | .registerMultiple hooks userData => testRegisterMultipleHooks t hooks userData
  | .unregister sel hook userData => testUnregisterHook t sel hook userData
  | .unregisterMultiple hooks userData => testUnregisterMultipleHooks t hooks userData

/-! ## The shape of the registry -/

/-- The lists of the registry are rings with no node in common, and read as `es`. -/
structure HookRings (t : HookTable) (nodes : TestHookID → List Ptr)
    (es : TestHookID → List TestHookEntry) : Prop where
  ring : ∀ id, RingAt t.heap (t.hooks id) (nodes id)
  disjoint : ∀ id id', id ≠ id' → ∀ x ∈ nodes id, x ∉ nodes id'
  reads : ∀ id, reading t.heap (nodes id) = es id

/-- The registry is well formed and holds `es`. -/
def HookTable.Holds (t : HookTable) (es : TestHookID → List TestHookEntry) : Prop :=
  ∃ nodes, HookRings t nodes es

theorem HookTable.init_holds : HookTable.init.Holds fun _ => [] :=
  ⟨fun _ => [], fun _ => ⟨LinkedRing.IsRing.nil, rfl⟩, fun _ _ _ _ hx => (List.not_mem_nil hx).elim,
    fun _ => rfl⟩

/-- One list was worked on, within its own nodes and newly allocated ones. -/
theorem HookRings.set {t : HookTable} {nodes : TestHookID → List Ptr}
    {es : TestHookID → List TestHookEntry} (hr : HookRings t nodes es) {id : TestHookID}
    {h' : CHeap TestHookEntry} {top : Option Ptr} {l' : List Ptr} {ds : List TestHookEntry}
    (hring : RingAt h' top l') (hreads : reading h' l' = ds)
    (hl' : ∀ x ∈ l', x ∈ nodes id ∨ t.heap.brk ≤ x)
    (hcells : ∀ x, x ∉ nodes id → x < t.heap.brk → h'.cells x = t.heap.cells x) :
    (t.set h' id top).Holds (Function.update es id ds) := by
  have other : ∀ i, i ≠ id → ∀ x ∈ nodes i, h'.cells x = t.heap.cells x := fun i hi x hx =>
    hcells x (hr.disjoint i id hi x hx) ((hr.ring i).lt_brk hx)
  refine ⟨Function.update nodes id l', ?_, ?_, ?_⟩
  · intro i
    by_cases hi : i = id
    · subst hi
      simpa [HookTable.set] using hring
    · have hold := hr.ring i
      simp only [HookTable.set, if_neg hi, Function.update_of_ne hi]
      refine ⟨hold.ring.congr ?_ ?_, hold.head⟩
      · intro x hx; rw [CHeap.nextOf, CHeap.nextOf, other i hi x hx]
      · intro x hx; rw [CHeap.prevOf, CHeap.prevOf, other i hi x hx]
  · intro i j hij x hx hx'
    by_cases hi : i = id
    · subst hi
      rw [Function.update_self] at hx
      rw [Function.update_of_ne hij.symm] at hx'
      rcases hl' x hx with hold | hnew
      · exact hr.disjoint _ _ hij x hold hx'
      · exact Nat.not_lt.mpr hnew ((hr.ring j).lt_brk hx')
    · rw [Function.update_of_ne hi] at hx
      by_cases hj : j = id
      · subst hj
        rw [Function.update_self] at hx'
        rcases hl' x hx' with hold | hnew
        · exact hr.disjoint _ _ hij x hx hold
        · exact Nat.not_lt.mpr hnew ((hr.ring i).lt_brk hx)
      · rw [Function.update_of_ne hj] at hx'
        exact hr.disjoint _ _ hij x hx hx'
  · intro i
    by_cases hi : i = id
    · subst hi
      simpa [HookTable.set] using hreads
    · simp only [HookTable.set, Function.update_of_ne hi]
      rw [← hr.reads i]
      refine reading_congr fun x hx => ?_
      rw [CHeap.dataOf, CHeap.dataOf, other i hi x hx]

/-! ## What each function does to the lists -/

/-- **Running a hook** calls the callbacks of its list, in order. -/
theorem testRunHooks_holds {t : HookTable} {es : TestHookID → List TestHookEntry}
    (ht : t.Holds es) (id : TestHookID) : testRunHooks t id = some (hookCalls (es id)) := by
  obtain ⟨nodes, hr⟩ := ht
  have hlen := (hr.ring id).length_le
  have := iterCollect_spec (hr.ring id) (Nat.lt_succ_of_le hlen)
  simp [testRunHooks, this, hr.reads id]

theorem testRegisterHookId_holds {t : HookTable} {es : TestHookID → List TestHookEntry}
    (ht : t.Holds es) (id : TestHookID) (hook : Option FnPtr) (userData : Ptr) :
    ∃ t', testRegisterHookId t id hook userData = some t' ∧
      t'.Holds (Function.update es id (es id ++ [⟨hook, userData⟩])) := by
  obtain ⟨nodes, hr⟩ := ht
  obtain ⟨a, h', he, hring, hreads, _, hcells⟩ := clistAppend_spec ⟨hook, userData⟩ (hr.ring id)
  refine ⟨t.set h' id (some a), by simp [testRegisterHookId, he], hr.set hring ?_ ?_ ?_⟩
  · rw [hreads, hr.reads id]
  · intro x hx
    rcases List.mem_append.mp hx with hx | hx
    · exact Or.inl hx
    · exact Or.inr (Nat.le_of_eq (List.mem_singleton.mp hx).symm)
  · intro x hx hlt
    exact hcells x hx (Nat.ne_of_lt hlt)

/-- The head node of a list is all that `clist_destroy` releases. -/
theorem clistDestroy_head {h : CHeap TestHookEntry} {top : Option Ptr} {l : List Ptr}
    (hr : RingAt h top l) : ∃ h', clistDestroy h top true = some h' ∧ FrameOff l h h' := by
  cases l with
  | nil =>
    have htop : top = none := hr.head
    subst htop
    exact ⟨h, rfl, FrameOff.refl _ _⟩
  | cons a l =>
    have htop : top = some a := hr.head
    subst htop
    obtain ⟨c, hc⟩ := hr.allocated (a := a) List.mem_cons_self
    have hd : ((h.destroyData true c.data).cells a).isSome := by rw [destroyData_cells, hc]; rfl
    obtain ⟨h', hf⟩ := sliceFree_some hd
    obtain ⟨cells', brk'⟩ := sliceFree_cells hf
    rw [destroyData_cells] at cells'
    rw [destroyData_brk] at brk'
    refine ⟨h', by simp [clistDestroy, clistDestroyLoop, hc, hf], fun x hx => ?_, brk'⟩
    have hxa : x ≠ a := fun e => hx (e ▸ List.mem_cons_self)
    rw [cells', Function.update_of_ne hxa]

/-- A ring has fewer nodes than there are addresses below the break. -/
theorem filterFuel_le {h : CHeap TestHookEntry} {top : Option Ptr} {l : List Ptr}
    (hr : RingAt h top l) : filterFuel l l ≤ unregisterFuel h := by
  have hlen := hr.length_le
  have hsq := Nat.mul_le_mul hlen hlen
  unfold filterFuel unregisterFuel
  omega

/-- **Unregistering with one id empties its list**, whatever the callback and the user data. -/
theorem testUnregisterHookId_holds {t : HookTable} {es : TestHookID → List TestHookEntry}
    (ht : t.Holds es) (id : TestHookID) (hook : Option FnPtr) (userData : Ptr) :
    ∃ t', testUnregisterHookId t id hook userData = some t' ∧
      t'.Holds (Function.update es id []) := by
  obtain ⟨nodes, hr⟩ := ht
  obtain ⟨h', he, hf⟩ : ∃ h', testUnregisterHookId t id hook userData = some (t.set h' id none) ∧
      FrameOff (nodes id) t.heap h' := by
    cases hook with
    | none =>
      obtain ⟨h', he, hf⟩ := clistDestroy_head (hr.ring id)
      exact ⟨h', by simp [testUnregisterHookId, he], hf⟩
    | some hook =>
      obtain ⟨h', iter', l', he, hf, _, _⟩ :=
        @iterFilter_spec _ (unregisterMatch hook userData) true _ _ _ _ (hr.ring id)
          (filterFuel_le (hr.ring id))
      exact ⟨h', by simp [testUnregisterHookId, he], hf⟩
  refine ⟨_, he, hr.set ⟨LinkedRing.IsRing.nil, rfl⟩ rfl (fun x hx => by cases hx) ?_⟩
  intro x hx _
  exact hf.cells x hx

/-- **The loop of `test_unregister_hook` ends on every ring**, whatever matches, and whenever it
calls `clist_iter_next` its iterator is in what is left of the ring. -/
theorem unregister_loop_ends {t : HookTable} {id : TestHookID} {l : List Ptr}
    (hr : RingAt t.heap (t.hooks id) l) (hook : FnPtr) (userData : Ptr) :
    ∃ rounds h' iter',
      (∀ fuel, filterFuel l l ≤ fuel →
        filterRounds (unregisterMatch hook userData) true fuel t.heap
          (clistIterNew (t.hooks id)) = some (rounds, h', iter')) ∧
      testUnregisterHookId t id (some hook) userData = some (t.set h' id none) ∧
      ∀ s ∈ callStates t.heap (clistIterNew (t.hooks id)) rounds, IterInRing l s.1 s.2 := by
  obtain ⟨rounds, h', iter', hrun, hstates, _⟩ :=
    @filterRounds_ends _ (unregisterMatch hook userData) true _ _ _ hr
  have hloop : iterFilter (unregisterMatch hook userData) true (unregisterFuel t.heap) t.heap
      (clistIterNew (t.hooks id)) = some (h', iter') := by
    rw [← filterRounds_iterFilter, hrun _ (filterFuel_le hr)]
    rfl
  exact ⟨rounds, h', iter', hrun, by simp [testUnregisterHookId, hloop], hstates⟩

/-- Two adjacent entries that both match, the start node and the last one. -/
theorem unregister_loop_ends_all :
    ∃ (t : HookTable) (l : List Ptr), RingAt t.heap (t.hooks .assert) l ∧
      reading t.heap l = [⟨some 1, NULL⟩, ⟨some 1, NULL⟩] ∧
      ∃ rounds h' iter',
        (∀ fuel, filterFuel l l ≤ fuel →
          filterRounds (unregisterMatch 1 NULL) true fuel t.heap
            (clistIterNew (t.hooks .assert)) = some (rounds, h', iter')) ∧
        testUnregisterHookId t .assert (some 1) NULL = some (t.set h' .assert none) ∧
        ∀ s ∈ callStates t.heap (clistIterNew (t.hooks .assert)) rounds,
          IterInRing l s.1 s.2 := by
  obtain ⟨h, top, l, hr, hread⟩ :=
    exists_reads [(⟨some 1, NULL⟩ : TestHookEntry), ⟨some 1, NULL⟩]
  exact ⟨⟨h, fun _ => top⟩, l, hr, hread, unregister_loop_ends hr 1 NULL⟩

/-- A loop over hook ids that works on the list of each id in turn. -/
theorem foldlM_holds {g : HookTable → TestHookID → Option HookTable}
    {f : TestHookID → List TestHookEntry → List TestHookEntry}
    (hg : ∀ (t : HookTable) es id, t.Holds es →
      ∃ t', g t id = some t' ∧ t'.Holds (Function.update es id (f id (es id)))) :
    ∀ (ids : List TestHookID), ids.Nodup → ∀ {t : HookTable} {es}, t.Holds es →
      ∃ t', ids.foldlM g t = some t' ∧
        t'.Holds fun id => if id ∈ ids then f id (es id) else es id
  | [], _, t, es, ht => ⟨t, rfl, by simpa using ht⟩
  | i :: ids, hnd, t, es, ht => by
    obtain ⟨hi, hnd⟩ := List.nodup_cons.mp hnd
    obtain ⟨t1, h1, ht1⟩ := hg t es i ht
    obtain ⟨t2, h2, ht2⟩ := foldlM_holds hg ids hnd ht1
    refine ⟨t2, by simp [List.foldlM_cons, h1, h2], ?_⟩
    have : (fun id => if id ∈ ids then f id (Function.update es i (f i (es i)) id)
        else Function.update es i (f i (es i)) id) =
        fun id => if id ∈ i :: ids then f id (es id) else es id := by
      funext id
      by_cases hid : id = i
      · subst hid; simp [hi]
      · simp [hid]
    rw [← this]
    exact ht2

theorem foldlM_each_holds {g : HookTable → TestHookID → Option HookTable}
    {f : TestHookID → List TestHookEntry → List TestHookEntry}
    (hg : ∀ (t : HookTable) es id, t.Holds es →
      ∃ t', g t id = some t' ∧ t'.Holds (Function.update es id (f id (es id))))
    {t : HookTable} {es : TestHookID → List TestHookEntry} (ht : t.Holds es) :
    ∃ t', TestHookID.each.foldlM g t = some t' ∧ t'.Holds fun id => f id (es id) := by
  obtain ⟨t', h', ht'⟩ := foldlM_holds hg TestHookID.each TestHookID.each_nodup ht
  simp only [TestHookID.mem_each, if_true] at ht'
  exact ⟨t', h', ht'⟩

/-- The ids a `hook_id` argument stands for. -/
def HookSel.names : HookSel → TestHookID → Bool
  | .one i, id => id == i
  | .all, _ => true

/-- What a call leaves in the list of each id. -/
def codeLists (es : TestHookID → List TestHookEntry) : HookOp → TestHookID → List TestHookEntry
  | .register sel hook userData => fun id =>
    if sel.names id then es id ++ [⟨hook, userData⟩] else es id
  | .registerMultiple hooks userData => fun id =>
    if (hooks id).isSome then es id ++ [⟨hooks id, userData⟩] else es id
  | .unregister sel _ _ => fun id => if sel.names id then [] else es id
  | .unregisterMultiple hooks _ => fun id => if (hooks id).isSome then [] else es id

theorem update_eq_names (es : TestHookID → List TestHookEntry) (i : TestHookID)
    (l : List TestHookEntry) :
    Function.update es i l = fun id => if (HookSel.one i).names id then l else es id := by
  funext id
  by_cases hid : id = i <;> simp [HookSel.names, hid]

/-- **Every call on a well-formed registry ends without a fault**, and leaves it well formed
with the lists `codeLists`. -/
theorem step_holds {t : HookTable} {es : TestHookID → List TestHookEntry} (ht : t.Holds es)
    (op : HookOp) : ∃ t', t.step op = some t' ∧ t'.Holds (codeLists es op) := by
  cases op with
  | register sel hook userData =>
    cases sel with
    | one i =>
      obtain ⟨t', h', ht'⟩ := testRegisterHookId_holds ht i hook userData
      rw [update_eq_names] at ht'
      refine ⟨t', h', ?_⟩
      convert ht' using 2 with id
      by_cases hid : id = i <;> simp [codeLists, HookSel.names, hid]
    | all =>
      exact foldlM_each_holds (f := fun _ l => l ++ [⟨hook, userData⟩])
        (fun t es id ht => testRegisterHookId_holds ht id hook userData) ht
  | registerMultiple hooks userData =>
    refine foldlM_each_holds
      (g := fun t id =>
        if (hooks id).isSome then testRegisterHook t (.one id) (hooks id) userData else some t)
      (f := fun id l => if (hooks id).isSome then l ++ [⟨hooks id, userData⟩] else l) ?_ ht
    intro t es id ht
    by_cases hid : (hooks id).isSome
    · simp only [hid, if_true]
      exact testRegisterHookId_holds ht id (hooks id) userData
    · simp only [hid, Bool.false_eq_true, if_false, Function.update_eq_self]
      exact ⟨t, rfl, ht⟩
  | unregister sel hook userData =>
    cases sel with
    | one i =>
      obtain ⟨t', h', ht'⟩ := testUnregisterHookId_holds ht i hook userData
      rw [update_eq_names] at ht'
      exact ⟨t', h', ht'⟩
    | all =>
      exact foldlM_each_holds (f := fun _ _ => [])
        (fun t es id ht => testUnregisterHookId_holds ht id none NULL) ht
  | unregisterMultiple hooks userData =>
    refine foldlM_each_holds
      (g := fun t id =>
        if (hooks id).isSome then testUnregisterHook t (.one id) (hooks id) userData else some t)
      (f := fun id l => if (hooks id).isSome then [] else l) ?_ ht
    intro t es id ht
    by_cases hid : (hooks id).isSome
    · simp only [hid, if_true]
      exact testUnregisterHookId_holds ht id (hooks id) userData
    · simp only [hid, Bool.false_eq_true, if_false, Function.update_eq_self]
      exact ⟨t, rfl, ht⟩

end Tinu
