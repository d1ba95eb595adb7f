import Tinu.Hooks
import Tinu.Lib.GuardedRun

/-!
# The plain list model of the hook registry

What the registry is for: each hook id has a list of (callback, user data) pairs.  Registering a
callback appends its pair; unregistering removes the pairs that match and keeps the others, in
order.

`hooks_agree_iff` compares the registry with this model over whole sequences of calls: the two
invoke the same pairs throughout exactly when no unregister call meets a pair it should have kept
(`OnlyMatches`).
-/

set_option autoImplicit false

namespace Tinu

open GuardedRun

/-- The pairs registered for each hook id. -/
abbrev HookLists := TestHookID → List (FnPtr × Ptr)

/-- `hook` and, unless it is `NULL`, `userData` are those of the pair. -/
def selects (hook : FnPtr) (userData : Ptr) (e : FnPtr × Ptr) : Bool :=
  e.1 == hook && (userData == NULL || e.2 == userData)

def HookLists.step (m : HookLists) : HookOp → HookLists
  | .register sel hook userData => fun id =>
    match hook with
    | some hook => if sel.names id then m id ++ [(hook, userData)] else m id
    | none => m id
  | .registerMultiple hooks userData => fun id =>
    match hooks id with
    | some hook => m id ++ [(hook, userData)]
    | none => m id
  | .unregister sel hook userData => fun id =>
    if sel.names id then
      match hook with
      | some hook => (m id).filter fun e => !selects hook userData e
      | none => []
    else m id
  | .unregisterMultiple hooks userData => fun id =>
    match hooks id with
    | some hook => (m id).filter fun e => !selects hook userData e
    | none => m id

/-- An unregister call removes everything in the lists it works on. -/
def OnlyMatches (m : HookLists) : HookOp → Prop
  | .unregister sel (some hook) userData =>
    ∀ id, sel.names id → ∀ e ∈ m id, selects hook userData e
  | .unregisterMultiple hooks userData =>
    ∀ id hook, hooks id = some hook → ∀ e ∈ m id, selects hook userData e
  | _ => True

/-- The pairs that the registry invokes are those of the model, for every hook id. -/
def Invokes (t : Option HookTable) (m : HookLists) : Prop :=
  ∀ id, (t.bind fun t => testRunHooks t id) = some (m id)

/-- The registry after one more call; a fault stays one. -/
def hookStep (t : Option HookTable) (op : HookOp) : Option HookTable := t.bind (·.step op)

/-! ## One call -/

@[simp] theorem hookCalls_nil : hookCalls [] = [] := rfl

theorem hookCalls_append (es es' : List TestHookEntry) :
    hookCalls (es ++ es') = hookCalls es ++ hookCalls es' := List.filterMap_append

@[simp] theorem hookCalls_singleton (hook : Option FnPtr) (userData : Ptr) :
    hookCalls [⟨hook, userData⟩] = (hook.map fun hook => (hook, userData)).toList := by
  cases hook <;> rfl

theorem invokes_some {t : HookTable} {es : TestHookID → List TestHookEntry} {m : HookLists}
    (ht : t.Holds es) : Invokes (some t) m ↔ ∀ id, hookCalls (es id) = m id := by
  simp [Invokes, testRunHooks_holds ht]

theorem filter_selects_eq_nil {l : List (FnPtr × Ptr)} {hook : FnPtr} {userData : Ptr} :
    (l.filter fun e => !selects hook userData e) = [] ↔ ∀ e ∈ l, selects hook userData e := by
  simp [List.filter_eq_nil_iff]

/-- The lists after a call, against the model's step from the lists before it. -/
theorem codeLists_eq_iff (es : TestHookID → List TestHookEntry) (op : HookOp) :
    (∀ id, hookCalls (codeLists es op id) = HookLists.step (fun id => hookCalls (es id)) op id) ↔
      OnlyMatches (fun id => hookCalls (es id)) op := by
  cases op with
  | register sel hook userData =>
    refine iff_of_true (fun id => ?_) trivial
    cases hook with
    | none => by_cases hs : sel.names id <;> simp [codeLists, HookLists.step, hs, hookCalls_append]
    | some hook =>
      by_cases hs : sel.names id <;> simp [codeLists, HookLists.step, hs, hookCalls_append]
  | registerMultiple hooks userData =>
    refine iff_of_true (fun id => ?_) trivial
    cases hh : hooks id <;> simp [codeLists, HookLists.step, hh, hookCalls_append]
  | unregister sel hook userData =>
    cases hook with
    | none =>
      refine iff_of_true (fun id => ?_) trivial
      by_cases hs : sel.names id <;> simp [codeLists, HookLists.step, hs]
    | some hook =>
      refine forall_congr' fun id => ?_
      by_cases hs : sel.names id
      · simp only [codeLists, HookLists.step, hs, if_true, hookCalls_nil, forall_true_left]
        rw [eq_comm, filter_selects_eq_nil]
      · simp [codeLists, HookLists.step, hs]
  | unregisterMultiple hooks userData =>
    refine forall_congr' fun id => ?_
    cases hh : hooks id with
    | none => simp [codeLists, HookLists.step, hh]
    | some hook =>
      simp only [codeLists, HookLists.step, hh, Option.isSome_some, if_true, hookCalls_nil,
        Option.some.injEq, forall_eq']
      rw [eq_comm, filter_selects_eq_nil]

/-- One call on the registry against one step of the model. -/
theorem hooks_guarded : Guarded hookStep HookLists.step
    (fun t => ∃ t' es, t = some t' ∧ t'.Holds es) Invokes (fun _ _ => True) OnlyMatches where
  inv_step := by
    rintro _ op ⟨t, es, rfl, ht⟩
    obtain ⟨t', he, ht'⟩ := step_holds ht op
    exact ⟨t', _, he, ht'⟩
  agree_step := by
    rintro _ m op ⟨t, es, rfl, ht⟩ ha _ hg
    obtain ⟨t', he, ht'⟩ := step_holds ht op
    obtain rfl : (fun id => hookCalls (es id)) = m := funext ((invokes_some ht).mp ha)
    rw [hookStep, Option.bind_some, he, invokes_some ht']
    exact (codeLists_eq_iff es op).mpr hg
  differ_step := by
    rintro _ m op ⟨t, es, rfl, ht⟩ ha _ hg ha'
    obtain ⟨t', he, ht'⟩ := step_holds ht op
    obtain rfl : (fun id => hookCalls (es id)) = m := funext ((invokes_some ht).mp ha)
    rw [hookStep, Option.bind_some, he, invokes_some ht'] at ha'
    exact hg ((codeLists_eq_iff es op).mp ha')

/-! ## Sequences of calls -/

/-- **The registry is the list model exactly as long as no unregister call meets a pair that
should stay.** -/
theorem hooks_agree_iff (ops : List HookOp) :
    AgreeThroughout hookStep HookLists.step Invokes (some HookTable.init) (fun _ => []) ops ↔
      EveryStep HookLists.step OnlyMatches (fun _ => []) ops := by
  refine hooks_guarded.run_iff ops ⟨_, _, rfl, HookTable.init_holds⟩ ?_ (fun _ _ _ => trivial)
  exact (invokes_some HookTable.init_holds).mpr fun _ => rfl

/-- Unregistering one of two callbacks drops the other one too. -/
theorem unregister_drops_other :
    ¬ ∀ ops : List HookOp,
      AgreeThroughout hookStep HookLists.step Invokes (some HookTable.init) (fun _ => []) ops := by
  intro h
  have := h [.register (.one .assert) (some 1) NULL, .register (.one .assert) (some 2) NULL,
    .unregister (.one .assert) (some 1) NULL] _ (List.prefix_refl _) .assert
  revert this
  decide

end Tinu
