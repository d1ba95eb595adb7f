import Mathlib

/-!
# Doubly linked rings over arbitrary link functions

A ring is a duplicate-free list of nodes whose round walk (the list followed by its own head)
steps along `next` and back along `prev`.  The link functions are partial: `none` is a node
that is not allocated.

* `IsRing.rotate`, `IsRing.flip` — every node of a ring is the head of the same ring, and the
  exchanged links make a ring of it read the other way;
* `IsRing.next_head`, `IsRing.next_of_append`, `IsRing.next_last`, `IsRing.prev_head` — the links
  of a ring;
* `IsRing.insert_last`, `IsRing.remove_head` — the two pointer edits that keep a ring a ring;
* `IsRing.congr` — links outside the ring do not matter.
-/

set_option autoImplicit false

namespace LinkedRing

variable {α : Type} {next prev next' prev' : α → Option α}

/-- `b` follows `a`, in both directions. -/
def Linked (next prev : α → Option α) (a b : α) : Prop := next a = some b ∧ prev b = some a

/-- The walk once round the ring, back to the head. -/
def roundWalk (l : List α) : List α := l ++ l.head?.toList

structure IsRing (next prev : α → Option α) (l : List α) : Prop where
  nodup : l.Nodup
  walk : (roundWalk l).IsChain (Linked next prev)

theorem IsRing.nil : IsRing next prev [] := ⟨List.nodup_nil, List.isChain_nil⟩

@[simp] theorem roundWalk_cons (a : α) (l : List α) : roundWalk (a :: l) = a :: l ++ [a] := rfl

/-- A walk keeps being one when the links it uses keep their value. -/
theorem walk_congr : ∀ {l : List α}, l.IsChain (Linked next prev) →
    (∀ x ∈ l.dropLast, next' x = next x) → (∀ x ∈ l.tail, prev' x = prev x) →
    l.IsChain (Linked next' prev')
  | [], _, _, _ => List.isChain_nil
  | [a], _, _, _ => List.isChain_singleton a
  | a :: b :: t, h, hn, hp => by
    rw [List.isChain_cons_cons] at h ⊢
    refine ⟨⟨?_, ?_⟩, walk_congr h.2 ?_ ?_⟩
    · rw [hn a (by simp)]; exact h.1.1
    · rw [hp b (by simp)]; exact h.1.2
    · intro x hx; exact hn x (by simp [hx])
    · intro x hx; exact hp x (List.mem_cons_of_mem _ hx)

theorem IsRing.congr {l : List α} (h : IsRing next prev l) (hn : ∀ x ∈ l, next' x = next x)
    (hp : ∀ x ∈ l, prev' x = prev x) : IsRing next' prev' l := by
  cases l with
  | nil => exact IsRing.nil
  | cons a l =>
    refine ⟨h.nodup, walk_congr h.walk ?_ ?_⟩
    · intro x hx
      rw [roundWalk_cons, List.dropLast_concat] at hx
      exact hn x hx
    · intro x hx
      rw [roundWalk_cons, List.cons_append, List.tail_cons] at hx
      exact hp x (by simpa [or_comm] using hx)

/-- **Every node of a ring heads the same ring.** -/
theorem IsRing.rotate {p q : List α} (h : IsRing next prev (p ++ q)) :
    IsRing next prev (q ++ p) := by
  cases q with
  | nil => simpa using h
  | cons b q =>
    cases p with
    | nil => simpa using h
    | cons a p =>
      have hw : ((a :: p ++ (b :: q)) ++ [a]).IsChain (Linked next prev) := h.walk
      refine ⟨List.nodup_append_comm.mp h.nodup, ?_⟩
      have h1 : (b :: q ++ [a]).IsChain (Linked next prev) := by
        rw [List.append_assoc] at hw; exact hw.right_of_append
      have h2 : (a :: p ++ [b]).IsChain (Linked next prev) := by
        have : (a :: p ++ [b]) ++ (q ++ [a]) = (a :: p ++ (b :: q)) ++ [a] := by simp
        rw [← this] at hw; exact hw.left_of_append
      have : roundWalk (b :: q ++ a :: p) = (b :: q ++ [a]) ++ (p ++ [b]) := by simp
      rw [this]
      have h3 : ([a] ++ (p ++ [b])).IsChain (Linked next prev) := by simpa using h2
      exact h1.append_overlap h3 (by simp)

theorem IsRing.rotate_by {l : List α} (h : IsRing next prev l) :
    ∀ n : Nat, IsRing next prev (l.rotate n)
  | 0 => by rwa [List.rotate_zero]
  | n + 1 => by
    have hn := h.rotate_by n
    rw [← List.rotate_rotate]
    cases hl : l.rotate n with
    | nil => exact IsRing.nil
    | cons a q =>
      rw [hl] at hn
      have hrot : (a :: q).rotate 1 = q ++ [a] := by simp
      rw [hrot]
      exact IsRing.rotate (p := [a]) hn

/-- **A ring read the other way**, from the same head, is the ring of the exchanged links. -/
theorem IsRing.flip {l : List α} {a : α} (h : IsRing next prev (a :: l)) :
    IsRing prev next (a :: l.reverse) := by
  obtain ⟨hn, hnd⟩ := List.nodup_cons.mp h.nodup
  have hback : ((a :: l) ++ [a]).reverse.IsChain (Linked prev next) := by
    refine (List.isChain_reverse.mpr ?_)
    exact h.walk.imp fun x y hxy => ⟨hxy.2, hxy.1⟩
  refine ⟨List.nodup_cons.mpr ⟨?_, List.nodup_reverse.mpr hnd⟩, ?_⟩
  · rw [List.mem_reverse]
    exact hn
  · rw [roundWalk_cons]
    simpa using hback

theorem IsRing.reverse {l : List α} (h : IsRing next prev l) : IsRing prev next l.reverse := by
  cases l with
  | nil => exact IsRing.nil
  | cons a l =>
    rw [List.reverse_cons]
    exact IsRing.rotate (p := [a]) h.flip

theorem IsRing.linked_of_append {p q : List α} {a b : α}
    (h : IsRing next prev (p ++ a :: b :: q)) : Linked next prev a b := by
  have hw := h.walk
  rw [roundWalk, List.append_assoc] at hw
  have := hw.right_of_append
  simp only [List.cons_append, List.isChain_cons_cons] at this
  exact this.1

theorem IsRing.linked_last {l : List α} {a b : α} (h : IsRing next prev (a :: l))
    (hb : (a :: l).getLast? = some b) : Linked next prev b a := by
  obtain ⟨i, hi⟩ := List.getLast?_eq_some_iff.mp hb
  have hw := h.walk
  rw [roundWalk_cons, hi, List.append_assoc] at hw
  have := hw.right_of_append
  simp only [List.cons_append, List.nil_append, List.isChain_cons_cons] at this
  exact this.1

/-- The node after the head: the second node, or the head itself. -/
theorem IsRing.next_head {l : List α} {a : α} (h : IsRing next prev (a :: l)) :
    next a = some (l.head?.getD a) := by
  cases l with
  | nil => exact (h.linked_last (by simp)).1
  | cons b l => exact (IsRing.linked_of_append (p := []) h).1

/-- The node before the head: the last node. -/
theorem IsRing.prev_head {l : List α} {a : α} (h : IsRing next prev (a :: l)) :
    prev a = some (l.getLast?.getD a) := by
  refine (h.linked_last ?_).2
  rw [List.getLast?_cons]

/-- The node after any node of a ring. -/
theorem IsRing.next_of_append {p q : List α} {a : α} (h : IsRing next prev (p ++ a :: q)) :
    next a = some ((q ++ p).head?.getD a) := by
  have := h.rotate
  rw [List.cons_append] at this
  exact this.next_head

/-- The last node leads back to the head. -/
theorem IsRing.next_last {p : List α} {a s : α} (h : IsRing next prev (p ++ [a]))
    (hs : (p ++ [a]).head? = some s) : next a = some s := by
  rw [h.next_of_append]
  cases p with
  | nil => simpa using hs
  | cons b p => simpa using hs

/-- A node that comes after another one is not the head. -/
theorem IsRing.ne_head {p q : List α} {a b s : α} (h : IsRing next prev (p ++ a :: b :: q))
    (hs : (p ++ a :: b :: q).head? = some s) : b ≠ s := by
  rintro rfl
  have hnd := h.nodup
  cases p with
  | nil =>
    have hab : a = b := by simpa using hs
    simp [hab] at hnd
  | cons c p =>
    have hcb : c = b := by simpa using hs
    simp [hcb] at hnd

/-- **Insertion before the head.**  The links of the last node, of the head and of the new
node `x` change; all others keep their value. -/
theorem IsRing.insert_last {l : List α} {a b x : α} (h : IsRing next prev (a :: l))
    (hb : (a :: l).getLast? = some b) (hx : x ∉ a :: l)
    (hbx : Linked next' prev' b x) (hxa : Linked next' prev' x a)
    (hn : ∀ y ∈ a :: l, y ≠ b → next' y = next y) (hp : ∀ y ∈ a :: l, y ≠ a → prev' y = prev y) :
    IsRing next' prev' (a :: l ++ [x]) := by
  refine ⟨List.nodup_append'.mpr ⟨h.nodup, List.nodup_singleton x, ?_⟩, ?_⟩
  · simpa [List.disjoint_singleton] using hx
  obtain ⟨i, hi⟩ := List.getLast?_eq_some_iff.mp hb
  have hw : (a :: l).IsChain (Linked next' prev') := by
    refine walk_congr (h.walk.left_of_append) ?_ ?_
    · intro y hy
      have hnd := h.nodup
      rw [hi, List.dropLast_concat] at hy
      rw [hi] at hnd
      have hyb : y ≠ b := fun e =>
        (List.nodup_append'.mp hnd).2.2 hy (by simp [e])
      exact hn y (by rw [hi]; simp [hy]) hyb
    · intro y hy
      have : y ≠ a := fun e => (List.nodup_cons.mp h.nodup).1 (e ▸ hy)
      exact hp y (List.mem_cons_of_mem _ hy) this
  show ((a :: l ++ [x]) ++ [a]).IsChain (Linked next' prev')
  rw [List.append_assoc]
  refine hw.append ?_ ?_
  · simpa using hxa
  · intro y hy z hz
    rw [hb] at hy
    simp only [Option.mem_def, Option.some.injEq, List.cons_append, List.head?_cons] at hy hz
    rw [← hy, ← hz]; exact hbx

/-- **Removal of the head** of a ring of at least two nodes. -/
theorem IsRing.remove_head {l : List α} {a b c : α} (h : IsRing next prev (a :: b :: l))
    (hc : (b :: l).getLast? = some c) (hcb : Linked next' prev' c b)
    (hn : ∀ y ∈ b :: l, y ≠ c → next' y = next y) (hp : ∀ y ∈ b :: l, y ≠ b → prev' y = prev y) :
    IsRing next' prev' (b :: l) := by
  have hnd := (List.nodup_cons.mp h.nodup).2
  refine ⟨hnd, ?_⟩
  obtain ⟨i, hi⟩ := List.getLast?_eq_some_iff.mp hc
  have hw0 : (b :: l).IsChain (Linked next prev) := by
    have := h.walk.left_of_append
    rw [← List.singleton_append] at this
    exact this.right_of_append
  have hw : (b :: l).IsChain (Linked next' prev') := by
    refine walk_congr hw0 ?_ ?_
    · intro y hy
      rw [hi, List.dropLast_concat] at hy
      rw [hi] at hnd
      have hyc : y ≠ c := fun e =>
        (List.nodup_append'.mp hnd).2.2 hy (by simp [e])
      exact hn y (by rw [hi]; simp [hy]) hyc
    · intro y hy
      have : y ≠ b := fun e => (List.nodup_cons.mp hnd).1 (e ▸ hy)
      exact hp y (List.mem_cons_of_mem _ hy) this
  show (b :: l ++ [b]).IsChain (Linked next' prev')
  refine hw.append (List.isChain_singleton b) ?_
  intro y hy z hz
  rw [hc] at hy
  simp only [Option.mem_def, Option.some.injEq, List.head?_cons] at hy hz
  rw [← hy, ← hz]; exact hcb

/-- A ring of one node links to itself. -/
theorem isRing_singleton {a : α} (h : Linked next prev a a) : IsRing next prev [a] :=
  ⟨List.nodup_singleton a, by simpa using h⟩

end LinkedRing
