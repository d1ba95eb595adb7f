import Mathlib

/-!
# Arrays of allocated cells

An allocated array is the list of its cells; a cell that was not written holds nothing.  Reading
such a cell, and reading or writing beyond the end, is a fault (`none`).  `Holds` says what the
first cells of an array hold.

* `renew_length`, `Holds.renew` — a reallocation keeps what fits;
* `Holds.read`, `Holds.write_end` — reading an item, and writing the one after the last;
* `Holds.closeGap` — moving the rest down over one item removes it.
-/

set_option autoImplicit false

namespace Cells

variable {α : Type}

/-- The array reallocated to `n` cells. -/
def renew (cells : List (Option α)) (n : Nat) : List (Option α) :=
  cells.take n ++ List.replicate (n - cells.length) none

def read (cells : List (Option α)) (i : Nat) : Option α := (cells[i]?).join

def write (cells : List (Option α)) (i : Nat) (a : α) : Option (List (Option α)) :=
  if i < cells.length then some (cells.set i (some a)) else none

/-- `n` cells from `src` on are copied to `dst` on; the ranges may overlap. -/
def move (cells : List (Option α)) (dst src n : Nat) : Option (List (Option α)) :=
  if dst + n ≤ cells.length ∧ src + n ≤ cells.length then
    some (cells.take dst ++ (cells.drop src).take n ++ cells.drop (dst + n))
  else none

/-- The first cells hold the items. -/
def Holds (cells : List (Option α)) (l : List α) : Prop := ∃ rest, cells = l.map some ++ rest

theorem Holds.length_le {cells : List (Option α)} {l : List α} (h : Holds cells l) :
    l.length ≤ cells.length := by
  obtain ⟨rest, rfl⟩ := h
  simp

/-- An array without further cells holds its items and nothing else. -/
theorem Holds.eq_map {cells : List (Option α)} {l : List α} (h : Holds cells l)
    (hlen : cells.length = l.length) : cells = l.map some := by
  obtain ⟨rest, rfl⟩ := h
  obtain rfl : rest = [] := by
    rw [List.length_append, List.length_map] at hlen
    exact List.length_eq_zero_iff.mp (by omega)
  exact List.append_nil _

theorem renew_length (cells : List (Option α)) (n : Nat) : (renew cells n).length = n := by
  rw [renew, List.length_append, List.length_take, List.length_replicate]
  omega

theorem Holds.renew {cells : List (Option α)} {l : List α} (h : Holds cells l) {n : Nat}
    (hn : l.length ≤ n) : Holds (renew cells n) l := by
  obtain ⟨rest, rfl⟩ := h
  have htake : (l.map some ++ rest).take n = l.map some ++ rest.take (n - l.length) := by
    rw [List.take_append, List.length_map, List.take_of_length_le (by rwa [List.length_map])]
  exact ⟨_, by rw [Cells.renew, htake, List.append_assoc]⟩

theorem Holds.read {cells : List (Option α)} {l : List α} (h : Holds cells l) {i : Nat}
    (hi : i < l.length) : read cells i = some l[i] := by
  obtain ⟨rest, rfl⟩ := h
  rw [Cells.read, List.getElem?_append_left (by rwa [List.length_map]), List.getElem?_map,
    List.getElem?_eq_getElem hi]
  rfl

/-- **Writing the cell after the last item** appends to what the array holds. -/
theorem Holds.write_end {cells : List (Option α)} {l : List α} (h : Holds cells l)
    (hlen : l.length < cells.length) (a : α) :
    ∃ cells', write cells l.length a = some cells' ∧ Holds cells' (l ++ [a]) ∧
      cells'.length = cells.length := by
  refine ⟨cells.set l.length (some a), if_pos hlen, ?_, List.length_set⟩
  obtain ⟨rest, rfl⟩ := h
  cases rest with
  | nil => simp at hlen
  | cons c rest =>
    refine ⟨rest, ?_⟩
    rw [List.set_append_right _ _ (by rw [List.length_map]), List.length_map, Nat.sub_self,
      List.set_cons_zero, List.map_append, List.append_assoc]
    rfl

/-- **Moving the items behind one down by a cell** removes it. -/
theorem Holds.closeGap {cells : List (Option α)} {p q : List α} {a : α}
    (h : Holds cells (p ++ a :: q)) :
    ∃ cells', move cells p.length (p.length + 1) q.length = some cells' ∧ Holds cells' (p ++ q) := by
  obtain ⟨rest, rfl⟩ := h
  have hlen : ((p ++ a :: q).map some ++ rest).length = p.length + (q.length + 1) + rest.length := by
    simp only [List.length_append, List.length_map, List.length_cons]
  have hmap : (p ++ q).map (some : α → Option α) = p.map some ++ q.map some := List.map_append
  refine ⟨_, if_pos ⟨by omega, by omega⟩, ?_⟩
  have htake : ((p ++ a :: q).map some ++ rest).take p.length = p.map some := by
    rw [List.map_append, List.append_assoc, List.take_left' (by rw [List.length_map])]
  have hdrop : (((p ++ a :: q).map some ++ rest).drop (p.length + 1)).take q.length =
      q.map some := by
    have hsplit : (p ++ a :: q).map some ++ rest =
        (p.map some ++ [some a]) ++ (q.map some ++ rest) := by simp
    rw [hsplit, List.drop_left' (by simp), List.take_left' (by rw [List.length_map])]
  rw [htake, hdrop, ← hmap]
  exact ⟨_, rfl⟩

/-- Behind the last of `count` items there is nothing to move down. -/
theorem Holds.closeGap_or {cells : List (Option α)} {p q : List α} {a : α}
    (h : Holds cells (p ++ a :: q)) {count : Nat} (hcount : count = p.length + (q.length + 1)) :
    ∃ cells', (if p.length + 1 ≠ count then
        move cells p.length (p.length + 1) (count - p.length - 1) else some cells) = some cells' ∧
      Holds cells' (p ++ q) := by
  cases q with
  | nil =>
    obtain ⟨rest, rfl⟩ := h
    rw [if_neg (by rw [hcount]; simp)]
    exact ⟨_, rfl, some a :: rest, by simp⟩
  | cons b q =>
    have hmove : count - p.length - 1 = (b :: q).length := by
      rw [hcount]
      omega
    rw [if_pos (by rw [hcount, List.length_cons]; omega), hmove]
    exact h.closeGap

end Cells
