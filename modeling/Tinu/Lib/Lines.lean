import Mathlib

/-!
# Terminated lines

A text is written as lines with a terminator after each, and read back line by line, each line up
to and with its terminator.

* `split_terminated` — lines without a terminator of their own are read back;
* `length_split_terminated_iff` — otherwise more lines are read than were written.
-/

set_option autoImplicit false

namespace Lines

variable {α : Type} [DecidableEq α]

/-- The lines of a text, each with its terminator; the last one may have none. -/
def split (sep : α) : List α → List (List α)
  | [] => []
  | c :: s =>
    if c = sep then [c] :: split sep s
    else
      match split sep s with
      | [] => [[c]]
      | l :: ls => (c :: l) :: ls

/-- The text of lines. -/
def terminated (sep : α) (ls : List (List α)) : List α := ls.flatMap fun l => l ++ [sep]

variable {sep : α}

/-- A line without a terminator of its own is read first. -/
theorem split_append : ∀ {l rest : List α}, sep ∉ l →
    split sep (l ++ sep :: rest) = (l ++ [sep]) :: split sep rest
  | [], rest, _ => by rw [List.nil_append, split, if_pos rfl, List.nil_append]
  | c :: l, rest, h => by
    rw [List.mem_cons, not_or] at h
    rw [List.cons_append, split, if_neg (Ne.symm h.1), split_append h.2, List.cons_append]

/-- Every terminator ends a line. -/
theorem count_le_length_split (sep : α) : ∀ s : List α, s.count sep ≤ (split sep s).length
  | [] => Nat.le_refl 0
  | c :: s => by
    have ih := count_le_length_split sep s
    by_cases hc : c = sep
    · rw [split, if_pos hc, hc, List.count_cons_self, List.length_cons]
      exact Nat.succ_le_succ ih
    · rw [split, if_neg hc, List.count_cons_of_ne hc]
      cases hs : split sep s with
      | nil =>
        rw [hs] at ih
        exact Nat.le_succ_of_le ih
      | cons l ls =>
        rw [hs] at ih
        exact ih

omit [DecidableEq α] in
theorem terminated_cons (sep : α) (l : List α) (ls : List (List α)) :
    terminated sep (l :: ls) = l ++ sep :: terminated sep ls := by
  rw [terminated, List.flatMap_cons, List.append_assoc]
  rfl

/-- **Lines are read back** when none of them has a terminator of its own. -/
theorem split_terminated : ∀ {ls : List (List α)}, (∀ l ∈ ls, sep ∉ l) →
    split sep (terminated sep ls) = ls.map fun l => l ++ [sep]
  | [], _ => rfl
  | l :: ls, h => by
    rw [terminated_cons, split_append (h l List.mem_cons_self),
      split_terminated fun l' hl => h l' (List.mem_cons_of_mem l hl), List.map_cons]

theorem length_le_count : ∀ ls : List (List α), ls.length ≤ (terminated sep ls).count sep
  | [] => Nat.le_refl 0
  | l :: ls => by
    have ih := length_le_count ls
    rw [terminated_cons, List.count_append, List.count_cons_self, List.length_cons]
    omega

/-- A line with a terminator of its own is more than one. -/
theorem length_lt_count : ∀ {ls : List (List α)} {l : List α}, l ∈ ls → sep ∈ l →
    ls.length < (terminated sep ls).count sep
  | l' :: ls, l, hl, hsep => by
    rw [terminated_cons, List.count_append, List.count_cons_self, List.length_cons]
    rcases List.mem_cons.mp hl with rfl | hl
    · have hpos := List.count_pos_iff.mpr hsep
      have hrest := @length_le_count _ _ sep ls
      omega
    · have ih := length_lt_count hl hsep
      omega

/-- **As many lines are read as were written exactly when none has a terminator of its own.** -/
theorem length_split_terminated_iff {ls : List (List α)} :
    (split sep (terminated sep ls)).length = ls.length ↔ ∀ l ∈ ls, sep ∉ l := by
  constructor
  · intro h l hl hsep
    have hmore := length_lt_count hl hsep
    have hlines := count_le_length_split sep (terminated sep ls)
    omega
  · intro h
    rw [split_terminated h, List.length_map]

end Lines
