import Mathlib

/-!
# One finite map seen through another

A finite map `s` holds detailed values; `t` holds what `f` keeps of them.  `Views f s t` is
preserved when both are edited in the same way (`Views.insert`, `Views.erase`), and quantities
summed over the entries agree (`Views.total_eq`).
-/

set_option autoImplicit false

namespace TableView

variable {α β γ : Type} [DecidableEq α]

/-- Under each key, `t` has what `f` keeps of the value in `s`. -/
def Views (f : β → γ) (s : AList fun _ : α => β) (t : AList fun _ : α => γ) : Prop :=
  ∀ a, (s.lookup a).map f = t.lookup a

/-- The sum of `g` over the values of a map. -/
def total (g : β → Nat) (s : AList fun _ : α => β) : Nat := (s.entries.map fun e => g e.2).sum

variable {f : β → γ} {s : AList fun _ : α => β} {t : AList fun _ : α => γ}

theorem views_empty (f : β → γ) : Views f (∅ : AList fun _ : α => β) ∅ := by
  intro a
  simp

theorem Views.insert (h : Views f s t) (a : α) (b : β) : Views f (s.insert a b) (t.insert a (f b)) := by
  intro x
  by_cases hx : x = a
  · subst hx
    rw [AList.lookup_insert, AList.lookup_insert, Option.map_some]
  · rw [AList.lookup_insert_ne hx, AList.lookup_insert_ne hx]
    exact h x

theorem Views.erase (h : Views f s t) (a : α) : Views f (s.erase a) (t.erase a) := by
  intro x
  by_cases hx : x = a
  · subst hx
    rw [AList.lookup_erase, AList.lookup_erase, Option.map_none]
  · rw [AList.lookup_erase_ne hx, AList.lookup_erase_ne hx]
    exact h x

/-- Erasing and inserting at one key is inserting there. -/
theorem lookup_erase_insert (a : α) (c : γ) (x : α) :
    ((t.erase a).insert a c).lookup x = (t.insert a c).lookup x := by
  by_cases hx : x = a
  · subst hx
    rw [AList.lookup_insert, AList.lookup_insert]
  · rw [AList.lookup_insert_ne hx, AList.lookup_insert_ne hx, AList.lookup_erase_ne hx]

theorem Views.lookup_none (h : Views f s t) {a : α} (ha : s.lookup a = none) :
    t.lookup a = none := by
  rw [← h a, ha, Option.map_none]

theorem Views.lookup_some (h : Views f s t) {a : α} {b : β} (ha : s.lookup a = some b) :
    t.lookup a = some (f b) := by
  rw [← h a, ha, Option.map_some]

/-- The entries of `s`, seen through `f`. -/
def viewed (f : β → γ) (s : AList fun _ : α => β) : List (Σ _ : α, γ) :=
  s.entries.map (.map id fun _ => f)

omit [DecidableEq α] in
theorem viewed_nodupKeys (f : β → γ) (s : AList fun _ : α => β) : (viewed f s).NodupKeys := by
  have hkeys : (viewed f s).keys = s.entries.keys := by
    simp [viewed, List.keys, Function.comp_def, Sigma.map]
  rw [List.NodupKeys, hkeys]
  exact s.nodupKeys

theorem viewed_dlookup (f : β → γ) (s : AList fun _ : α => β) (a : α) :
    (viewed f s).dlookup a = (s.lookup a).map f := List.dlookup_map₂ a

omit [DecidableEq α] in
theorem total_viewed (f : β → γ) (g : γ → Nat) (s : AList fun _ : α => β) :
    ((viewed f s).map fun e => g e.2).sum = total (g ∘ f) s := by
  rw [viewed, List.map_map]
  rfl

/-- The entries of `t` are those of `s` seen through `f`, in some order. -/
theorem Views.perm (h : Views f s t) : (viewed f s).Perm t.entries := by
  refine List.lookup_ext (viewed_nodupKeys f s) t.nodupKeys fun x y => ?_
  have ht : t.entries.dlookup x = t.lookup x := rfl
  rw [viewed_dlookup, ht, h x]

/-- **Sums over the two maps are equal.** -/
theorem Views.total_eq (h : Views f s t) (g : γ → Nat) : total (g ∘ f) s = total g t := by
  rw [← total_viewed]
  exact (h.perm.map fun e => g e.2).sum_eq

/-- Maps that look the same through `f` have the same sum of it. -/
theorem total_congr {f : β → Nat} {s s' : AList fun _ : α => β}
    (h : ∀ a, (s.lookup a).map f = (s'.lookup a).map f) : total f s = total f s' := by
  have hperm : (viewed f s).Perm (viewed f s') := by
    refine List.lookup_ext (viewed_nodupKeys f s) (viewed_nodupKeys f s') fun x y => ?_
    rw [viewed_dlookup, viewed_dlookup, h x]
  have hsum := (hperm.map fun e => e.2).sum_eq
  have hs := total_viewed f (fun n : Nat => n) s
  have hs' := total_viewed f (fun n : Nat => n) s'
  exact hs.symm.trans (hsum.trans hs')

/-- The sum of `g` over the values of a map, in any commutative monoid. -/
def sumOver {M : Type} [AddCommMonoid M] (g : β → M) (s : AList fun _ : α => β) : M :=
  (s.entries.map fun e => g e.2).sum

section Sums

variable {M : Type} [AddCommMonoid M]

/-- Erasing an entry takes its value off the sum. -/
theorem sumOver_erase {g : β → M} {s : AList fun _ : α => β} {a : α} {b : β}
    (h : s.lookup a = some b) : sumOver g s = g b + sumOver g (s.erase a) := by
  have hmem : a ∈ s.entries.keys := List.dlookup_isSome.mp (by
    have : s.entries.dlookup a = some b := h
    rw [this]
    rfl)
  obtain ⟨b', l₁, l₂, hnot, hl, hk⟩ := List.exists_of_kerase hmem
  have hb : b' = b := by
    have hd : s.entries.dlookup a = some b := h
    rw [hl, List.dlookup_append, List.dlookup_eq_none.mpr hnot, Option.none_or,
      List.dlookup_cons_eq] at hd
    exact Option.some.inj hd
  subst hb
  have herase : (s.erase a).entries = l₁ ++ l₂ := hk
  unfold sumOver
  rw [herase, hl]
  simp only [List.map_append, List.map_cons, List.sum_append, List.sum_cons]
  exact add_left_comm _ _ _

theorem sumOver_erase_of_none {g : β → M} {s : AList fun _ : α => β} {a : α}
    (h : s.lookup a = none) : sumOver g (s.erase a) = sumOver g s := by
  have hmem : a ∉ s.entries.keys := List.dlookup_eq_none.mp h
  have herase : (s.erase a).entries = s.entries := List.kerase_of_notMem_keys hmem
  unfold sumOver
  rw [herase]

/-- An insertion replaces what was there. -/
theorem sumOver_insert (g : β → M) (s : AList fun _ : α => β) (a : α) (b : β) :
    sumOver g (s.insert a b) = g b + sumOver g (s.erase a) := by
  unfold sumOver
  rw [AList.entries_insert, List.map_cons, List.sum_cons]
  rfl

end Sums

/-- Erasing an entry takes its value off the sum. -/
theorem total_erase {g : β → Nat} {s : AList fun _ : α => β} {a : α} {b : β}
    (h : s.lookup a = some b) : total g s = total g (s.erase a) + g b :=
  (sumOver_erase h).trans (Nat.add_comm _ _)

end TableView
