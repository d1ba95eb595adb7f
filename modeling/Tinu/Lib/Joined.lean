import Mathlib.Data.List.Infix

/-!
# Joined parts

A text is written as parts with a separator of two letters between them, and read back by taking
it apart at each separator, from the left on.

* `flatMap_append_sep` — the text, written with a separator behind each part;
* `split_append` — a text is taken apart at a separator;
* `split_eq_singleton` — a part without a separator is one;
* `split_joined_iff` — the parts are read back exactly when none of them has a separator in it.
-/

set_option autoImplicit false

namespace Joined

variable {α : Type} [DecidableEq α]

/-- The parts of a text; there is always one. -/
def split (a b : α) : List α → List (List α)
  | [] => [[]]
  | [c] => [[c]]
  | c :: d :: s =>
    if c = a ∧ d = b then [] :: split a b s else (split a b (d :: s)).modifyHead (c :: ·)

/-- The text of parts. -/
def joined (a b : α) : List (List α) → List α
  | [] => []
  | [p] => p
  | p :: ps => p ++ a :: b :: joined a b ps

variable {a b : α}

omit [DecidableEq α] in
theorem joined_cons (p q : List α) (ps : List (List α)) :
    joined a b (p :: q :: ps) = p ++ a :: b :: joined a b (q :: ps) := rfl

omit [DecidableEq α] in
/-- With a separator behind each part there is one more than between them. -/
theorem flatMap_append_sep : ∀ {ps : List (List α)}, ps ≠ [] →
    (ps.flatMap fun p => p ++ [a, b]) = joined a b ps ++ [a, b]
  | [p], _ => by rw [List.flatMap_cons, List.flatMap_nil, List.append_nil, joined]
  | p :: q :: ps, _ => by
    have hrest := @flatMap_append_sep (q :: ps) (List.cons_ne_nil q ps)
    rw [List.flatMap_cons, hrest, joined_cons, List.append_assoc, List.append_assoc]
    rfl

theorem split_sep (s : List α) : split a b (a :: b :: s) = [] :: split a b s := if_pos ⟨rfl, rfl⟩

theorem split_cons {c d : α} (h : ¬ (c = a ∧ d = b)) (s : List α) :
    split a b (c :: d :: s) = (split a b (d :: s)).modifyHead (c :: ·) := if_neg h

theorem split_ne_nil : ∀ s : List α, split a b s ≠ []
  | [] => List.cons_ne_nil _ _
  | [c] => List.cons_ne_nil _ _
  | c :: d :: s => by
    by_cases h : c = a ∧ d = b
    · rw [h.1, h.2, split_sep]
      exact List.cons_ne_nil _ _
    · rw [split_cons h]
      simpa using split_ne_nil (d :: s)

/-- **A text is taken apart at a separator.** -/
theorem split_append (hne : a ≠ b) (rest : List α) :
    ∀ p : List α, split a b (p ++ a :: b :: rest) = split a b p ++ split a b rest
  | [] => split_sep rest
  | [c] => by
    -- the letter and the separator's first are no separator
    have hc : ¬ (c = a ∧ a = b) := fun h => hne h.2
    rw [List.singleton_append, split_cons hc, split_sep]
    rfl
  | c :: d :: p => by
    by_cases h : c = a ∧ d = b
    · rw [h.1, h.2, List.cons_append, List.cons_append, split_sep, split_sep,
        split_append hne rest p, List.cons_append]
    · have hrest := split_append hne rest (d :: p)
      rw [List.cons_append] at hrest
      rw [List.cons_append, List.cons_append, split_cons h, split_cons h, hrest]
      cases hp : split a b (d :: p) with
      | nil => exact absurd hp (split_ne_nil _)
      | cons q qs => rfl

theorem split_joined (hne : a ≠ b) :
    ∀ {ps : List (List α)}, ps ≠ [] → split a b (joined a b ps) = ps.flatMap (split a b)
  | [p], _ => by rw [joined, List.flatMap_cons, List.flatMap_nil, List.append_nil]
  | p :: q :: ps, _ => by
    have hrest := split_joined hne (List.cons_ne_nil q ps)
    rw [joined_cons, split_append hne, hrest]
    rfl

/-- **A part without a separator is one.** -/
theorem split_eq_singleton : ∀ {p : List α}, split a b p = [p] ↔ ¬ [a, b] <:+: p
  | [] => by simp [split]
  | [c] => by
    refine iff_of_true rfl fun h => ?_
    have hlen := h.length_le
    simp at hlen
  | c :: d :: p => by
    have hsub : [a, b] <:+: c :: d :: p ↔ (c = a ∧ d = b) ∨ [a, b] <:+: d :: p := by
      rw [List.infix_cons_iff]
      simp [List.cons_prefix_cons, eq_comm]
    by_cases h : c = a ∧ d = b
    · rw [hsub, h.1, h.2, split_sep]
      simp
    · rw [hsub, split_cons h, or_iff_right h, ← split_eq_singleton]
      cases hp : split a b (d :: p) with
      | nil => exact absurd hp (split_ne_nil _)
      | cons q qs => simp

theorem length_le_split : ∀ ps : List (List α), ps.length ≤ (ps.flatMap (split a b)).length
  | [] => Nat.le_refl 0
  | p :: ps => by
    have hpos := List.length_pos_iff.mpr (@split_ne_nil α _ a b p)
    have ih := length_le_split ps
    rw [List.flatMap_cons, List.length_append, List.length_cons]
    omega

/-- Parts that are taken apart no further are all one part. -/
theorem flatMap_split_iff : ∀ {ps : List (List α)},
    ps.flatMap (split a b) = ps ↔ ∀ p ∈ ps, split a b p = [p]
  | [] => by simp
  | p :: ps => by
    rw [List.flatMap_cons, List.forall_mem_cons, ← flatMap_split_iff]
    constructor
    · intro h
      cases hp : split a b p with
      | nil => exact absurd hp (split_ne_nil p)
      | cons q qs =>
        rw [hp, List.cons_append] at h
        obtain ⟨rfl, hrest⟩ := List.cons.inj h
        -- as there are no fewer parts behind, there are no more here
        have hlen := congrArg List.length hrest
        have hle := @length_le_split α _ a b ps
        rw [List.length_append] at hlen
        obtain rfl : qs = [] := List.eq_nil_of_length_eq_zero (by omega)
        exact ⟨rfl, hrest⟩
    · rintro ⟨hp, hrest⟩
      rw [hp, hrest]
      rfl

/-- **The parts are read back exactly when none of them has a separator in it.** -/
theorem split_joined_iff (hne : a ≠ b) {ps : List (List α)} (hps : ps ≠ []) :
    split a b (joined a b ps) = ps ↔ ∀ p ∈ ps, ¬ [a, b] <:+: p := by
  rw [split_joined hne hps, flatMap_split_iff]
  exact forall₂_congr fun p _ => split_eq_singleton

end Joined
