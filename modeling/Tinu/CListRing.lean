import Tinu.CList

/-!
# What the list operations do to a ring

* `clistAppend_spec` — appending keeps a ring, and reads as the list with the item at its end;
* `clistRemove_spec` — removing the head leaves the ring of the other nodes;
* `iterCollect_spec` — the iterator presents every item once, in ring order;
* `clistIterRemove_at` — removing the node an iterator is on leaves the ring of the others, and
  the iterator on one of them.
-/

set_option autoImplicit false

namespace Tinu

open LinkedRing

variable {α : Type}

/-! ## Appending -/

theorem clistAppend_nil (h : CHeap α) (d : α) :
    ∃ h', clistAppend h none d = some (h.brk, h') ∧ RingAt h' (some h.brk) [h.brk] ∧
      reading h' [h.brk] = [d] ∧ h'.brk = h.brk + 1 ∧ ∀ x, x ≠ h.brk → h'.cells x = h.cells x := by
  refine ⟨_, rfl, ⟨isRing_singleton ⟨?_, ?_⟩, rfl⟩, ?_, rfl, fun x hx => if_neg hx⟩
  all_goals simp [CHeap.nextOf, CHeap.prevOf, CHeap.dataOf, CHeap.sliceNew, reading]

/-- **Appending to a ring** puts the new node before the head. -/
theorem clistAppend_cons {h : CHeap α} {a : Ptr} {l : List Ptr} (d : α)
    (hr : RingAt h (some a) (a :: l)) :
    ∃ h', clistAppend h (some a) d = some (a, h') ∧ RingAt h' (some a) (a :: l ++ [h.brk]) ∧
      reading h' (a :: l ++ [h.brk]) = reading h (a :: l) ++ [d] ∧ h'.brk = h.brk + 1 ∧
      ∀ x, x ∉ a :: l → x ≠ h.brk → h'.cells x = h.cells x := by
  -- `b` is the last node, `n` the new one
  obtain ⟨b, hb⟩ : ∃ b, (a :: l).getLast? = some b := ⟨_, List.getLast?_cons⟩
  obtain ⟨n, hn⟩ : ∃ n, n = h.brk := ⟨_, rfl⟩
  have hbm : b ∈ a :: l := List.mem_of_getLast? hb
  have hnm : n ∉ a :: l := hn ▸ hr.brk_notMem
  have hbn : b ≠ n := fun e => hnm (e ▸ hbm)
  have han : a ≠ n := fun e => hnm (e ▸ List.mem_cons_self)
  obtain ⟨c, hc, hcp⟩ := prevOf_eq_some (hr.ring.linked_last hb).2
  obtain ⟨cb, hcb⟩ := hr.allocated hbm
  obtain ⟨h1, hh1⟩ : ∃ h1, h1 = h.sliceNew ⟨d, a, b⟩ := ⟨_, rfl⟩
  have cells1 : h1.cells = Function.update h.cells n (some ⟨d, a, b⟩) := by
    funext x
    by_cases hx : x = n <;> simp [hh1, CHeap.sliceNew, hx, ← hn]
  have hb1 : (h1.cells b).isSome := by rw [cells1, Function.update_of_ne hbn, hcb]; rfl
  have ha1 : (h1.cells a).isSome := by rw [cells1, Function.update_of_ne han, hc]; rfl
  obtain ⟨h2, h3, hm2, hm3, hrel⟩ := exists_relinked_next n n hb1 ha1
  have at1 : ∀ y, y ∈ a :: l → h1.cells y = h.cells y := by
    intro y hy
    have hyn : y ≠ n := fun e => hnm (e ▸ hy)
    rw [cells1, Function.update_of_ne hyn]
  have new1 : h1.cells n = some ⟨d, a, b⟩ := by rw [cells1, Function.update_self]
  refine ⟨h3, ?_, ⟨?_, by simp⟩, ?_, ?_, ?_⟩
  · simp only [clistAppend, hc, Option.bind_eq_bind, Option.bind_some, hcp, ← hn, ← hh1, hm2, hm3]
  · rw [← hn]
    refine hr.ring.insert_last hb hnm ⟨?_, ?_⟩ ⟨?_, ?_⟩ ?_ ?_
    · rw [hrel.next, Function.update_self]
    · rw [hrel.prev, Function.update_of_ne han.symm, CHeap.prevOf, new1]; rfl
    · rw [hrel.next, Function.update_of_ne hbn.symm, CHeap.nextOf, new1]; rfl
    · rw [hrel.prev, Function.update_self]
    · intro y hy hyb
      rw [hrel.next, Function.update_of_ne hyb, CHeap.nextOf, CHeap.nextOf, at1 y hy]
    · intro y hy hya
      rw [hrel.prev, Function.update_of_ne hya, CHeap.prevOf, CHeap.prevOf, at1 y hy]
  · have hold : reading h3 (a :: l) = reading h (a :: l) := reading_congr fun y hy => by
      rw [hrel.data, CHeap.dataOf, CHeap.dataOf, at1 y hy]
    have hnew : reading h3 [n] = [d] := by
      simp [reading, hrel.data, CHeap.dataOf, new1]
    rw [← hn]
    unfold reading at hold hnew ⊢
    rw [List.filterMap_append, hold, hnew]
  · rw [hrel.brk, hh1]; rfl
  · intro x hx hxn
    have hxa : x ≠ a := fun e => hx (e ▸ List.mem_cons_self)
    have hxb : x ≠ b := fun e => hx (e ▸ hbm)
    rw [hrel.cells x hxb hxa, cells1, Function.update_of_ne (hn ▸ hxn)]

/-- **`clist_append`** keeps a ring well formed and adds the item at its end. -/
theorem clistAppend_spec {h : CHeap α} {top : Option Ptr} {l : List Ptr} (d : α)
    (hr : RingAt h top l) :
    ∃ a h', clistAppend h top d = some (a, h') ∧ RingAt h' (some a) (l ++ [h.brk]) ∧
      reading h' (l ++ [h.brk]) = reading h l ++ [d] ∧ h'.brk = h.brk + 1 ∧
      ∀ x, x ∉ l → x ≠ h.brk → h'.cells x = h.cells x := by
  obtain ⟨hring, rfl⟩ := hr
  cases l with
  | nil =>
    obtain ⟨h', he, hr', hd, hbrk, hf⟩ := clistAppend_nil h d
    exact ⟨h.brk, h', he, hr', hd, hbrk, fun x _ hx => hf x hx⟩
  | cons a l =>
    obtain ⟨h', he, hr', hd, hbrk, hf⟩ := clistAppend_cons d ⟨hring, rfl⟩
    exact ⟨a, h', he, hr', hd, hbrk, hf⟩

/-! ## Removing -/

theorem clistRemove_single {h : CHeap α} {a : Ptr} (destroy : Bool)
    (hr : RingAt h (some a) [a]) :
    ∃ h', clistRemove h (some a) destroy = some (none, h') ∧ FrameOff [a] h h' ∧
      h'.cells a = none := by
  obtain ⟨c, hc, hcn⟩ := nextOf_eq_some hr.ring.next_head
  have hca : c.next = a := by simpa using hcn
  have hd : ((h.destroyData destroy c.data).cells a).isSome := by
    rw [destroyData_cells, hc]; rfl
  obtain ⟨h', hf⟩ := sliceFree_some hd
  obtain ⟨cells', brk'⟩ := sliceFree_cells hf
  rw [destroyData_cells] at cells'
  rw [destroyData_brk] at brk'
  refine ⟨h', ?_, ⟨fun x hx => ?_, brk'⟩, ?_⟩
  · simp [clistRemove, hc, hca, hf]
  · rw [cells', Function.update_of_ne (by simpa using hx)]
  · rw [cells', Function.update_self]

/-- **Removing the head** of a ring of at least two nodes. -/
theorem clistRemove_cons {h : CHeap α} {a b : Ptr} {l : List Ptr} (destroy : Bool)
    (hr : RingAt h (some a) (a :: b :: l)) :
    ∃ h', clistRemove h (some a) destroy = some (some b, h') ∧ RingAt h' (some b) (b :: l) ∧
      (∀ x ∈ b :: l, h'.dataOf x = h.dataOf x) ∧ FrameOff (a :: b :: l) h h' ∧
      h'.cells a = none := by
  -- `z` is the last node
  obtain ⟨z, hz⟩ : ∃ z, (b :: l).getLast? = some z := ⟨_, List.getLast?_cons⟩
  have hzm : z ∈ b :: l := List.mem_of_getLast? hz
  have ham : a ∉ b :: l := (List.nodup_cons.mp hr.ring.nodup).1
  have hba : b ≠ a := fun e => ham (e ▸ List.mem_cons_self)
  have hza : z ≠ a := fun e => ham (e ▸ hzm)
  obtain ⟨c, hc, hcn⟩ := nextOf_eq_some hr.ring.next_head
  have hcb : c.next = b := by simpa using hcn
  have hcz : c.prev = z := by
    obtain ⟨c', hc', hcp⟩ := prevOf_eq_some hr.ring.prev_head
    rw [hc, Option.some.injEq] at hc'
    subst hc'
    rw [hcp, hz]; rfl
  obtain ⟨cb, hcb'⟩ := hr.allocated (a := b) (by simp)
  obtain ⟨cz, hcz'⟩ := hr.allocated (List.mem_cons_of_mem a hzm)
  have hb0 : (h.cells b).isSome := by rw [hcb']; rfl
  have hz0 : (h.cells z).isSome := by rw [hcz']; rfl
  obtain ⟨h1, h2, hm1, hm2, hrel⟩ := exists_relinked_prev b z hz0 hb0
  have ha2 : h2.cells a = some c := by rw [hrel.cells a hza.symm hba.symm, hc]
  have hd : ((h2.destroyData destroy c.data).cells a).isSome := by
    rw [destroyData_cells, ha2]; rfl
  obtain ⟨h3, hf3⟩ := sliceFree_some hd
  obtain ⟨cells3, brk3⟩ := sliceFree_cells hf3
  rw [destroyData_cells] at cells3
  rw [destroyData_brk] at brk3
  have at3 : ∀ y ∈ b :: l, h3.cells y = h2.cells y := by
    intro y hy
    have hya : y ≠ a := fun e => ham (e ▸ hy)
    rw [cells3, Function.update_of_ne hya]
  have hnext : ∀ y ∈ b :: l, h3.nextOf y = Function.update h.nextOf z (some b) y := by
    intro y hy
    rw [← hrel.next, CHeap.nextOf, CHeap.nextOf, at3 y hy]
  have hprev : ∀ y ∈ b :: l, h3.prevOf y = Function.update h.prevOf b (some z) y := by
    intro y hy
    rw [← hrel.prev, CHeap.prevOf, CHeap.prevOf, at3 y hy]
  refine ⟨h3, ?_, ⟨?_, rfl⟩, ?_, ⟨?_, ?_⟩, ?_⟩
  · simp [clistRemove, hc, hcb, hcz, hba, hm1, hm2, ha2, hf3]
  · refine hr.ring.remove_head hz ⟨?_, ?_⟩ ?_ ?_
    · rw [hnext z hzm, Function.update_self]
    · rw [hprev b List.mem_cons_self, Function.update_self]
    · intro y hy hyz
      rw [hnext y hy, Function.update_of_ne hyz]
    · intro y hy hyb
      rw [hprev y hy, Function.update_of_ne hyb]
  · intro x hx
    rw [← hrel.data, CHeap.dataOf, CHeap.dataOf, at3 x hx]
  · intro x hx
    have hxa : x ≠ a := fun e => hx (e ▸ List.mem_cons_self)
    have hxb : x ≠ b := fun e => hx (by simp [e])
    have hxz : x ≠ z := fun e => hx (List.mem_cons_of_mem a (e ▸ hzm))
    rw [cells3, Function.update_of_ne hxa, hrel.cells x hxz hxb]
  · rw [brk3, hrel.brk]
  · rw [cells3, Function.update_self]

/-- **`clist_remove`** returns the next node and leaves the ring of the other nodes. -/
theorem clistRemove_spec {h : CHeap α} {a : Ptr} {l : List Ptr} (destroy : Bool)
    (hr : RingAt h (some a) (a :: l)) :
    ∃ h', clistRemove h (some a) destroy = some (l.head?, h') ∧ RingAt h' l.head? l ∧
      (∀ x ∈ l, h'.dataOf x = h.dataOf x) ∧ FrameOff (a :: l) h h' ∧ h'.cells a = none := by
  cases l with
  | nil =>
    obtain ⟨h', he, hf, hc⟩ := clistRemove_single destroy hr
    exact ⟨h', he, ⟨IsRing.nil, rfl⟩, by simp, hf, hc⟩
  | cons b l => exact clistRemove_cons destroy hr

/-! ## Iterating -/

theorem RingAt.next_ne_top {h : CHeap α} {top : Option Ptr} {p q : List Ptr} {a b : Ptr}
    (hr : RingAt h top (p ++ a :: b :: q)) : some b ≠ top := by
  intro he
  exact hr.ring.ne_head (hr.head.symm.trans he.symm) rfl

/-- The iterator steps from a node to the one after it. -/
theorem clistIterNext_step {h : CHeap α} {top : Option Ptr} {p q : List Ptr} {a b : Ptr}
    (hr : RingAt h top (p ++ a :: b :: q)) :
    clistIterNext h ⟨top, some a⟩ = some (true, ⟨top, some b⟩) := by
  obtain ⟨c, hc, hn⟩ := nextOf_eq_some hr.ring.linked_of_append.1
  have htop : top.isNone = false := by rw [hr.head]; cases p <;> rfl
  have hb := hr.next_ne_top
  simp [clistIterNext, hc, hn, clistIterSetStep, htop, hb]

/-- After the last node the iterator is back where it began, not started. -/
theorem clistIterNext_stop {h : CHeap α} {top : Option Ptr} {p : List Ptr} {a : Ptr}
    (hr : RingAt h top (p ++ [a])) :
    clistIterNext h ⟨top, some a⟩ = some (false, ⟨top, none⟩) := by
  obtain ⟨c, hc, hn⟩ := nextOf_eq_some hr.ring.next_of_append
  have htop : some c.next = top := by
    rw [hr.head, hn]
    cases p <;> rfl
  simp [clistIterNext, hc, clistIterSetStep, ← htop]

theorem clistIterNext_start {h : CHeap α} {a : Ptr} :
    clistIterNext h ⟨some a, none⟩ = some (true, ⟨some a, some a⟩) := rfl

theorem clistIterNext_empty {h : CHeap α} :
    clistIterNext h ⟨none, none⟩ = some (false, ⟨none, none⟩) := rfl

/-- From the last of the nodes behind it the iterator steps to the next node. -/
theorem clistIterNext_at {h : CHeap α} {top : Option Ptr} {p q : List Ptr} {b : Ptr}
    (hr : RingAt h top (p ++ b :: q)) :
    clistIterNext h ⟨top, p.getLast?⟩ = some (true, ⟨top, some b⟩) := by
  cases hp : p.getLast? with
  | none =>
    obtain rfl := List.getLast?_eq_none_iff.mp hp
    have htop : top = some b := hr.head
    subst htop
    exact clistIterNext_start
  | some a =>
    obtain ⟨p0, rfl⟩ := List.getLast?_eq_some_iff.mp hp
    exact clistIterNext_step (by simpa using hr)

theorem clistIterNext_end {h : CHeap α} {top : Option Ptr} {l : List Ptr} (hr : RingAt h top l) :
    clistIterNext h ⟨top, l.getLast?⟩ = some (false, ⟨top, none⟩) := by
  cases hl : l.getLast? with
  | none =>
    obtain rfl := List.getLast?_eq_none_iff.mp hl
    have htop : top = none := hr.head
    subst htop
    exact clistIterNext_empty
  | some a =>
    obtain ⟨p, rfl⟩ := List.getLast?_eq_some_iff.mp hl
    exact clistIterNext_stop hr

theorem clistIterData_eq {h : CHeap α} {top : Option Ptr} {p q : List Ptr} {a : Ptr}
    (hr : RingAt h top (p ++ a :: q)) :
    ∃ d, clistIterData h ⟨top, some a⟩ = some d ∧ h.dataOf a = some d := by
  obtain ⟨c, hc⟩ := hr.allocated (a := a) (by simp)
  have htop : top.isSome = true := by rw [hr.head]; cases p <;> rfl
  exact ⟨c.data, by simp [clistIterData, clistIterValid, htop, hc], by simp [CHeap.dataOf, hc]⟩

theorem reading_cons {h : CHeap α} {a : Ptr} {d : α} (l : List Ptr) (hd : h.dataOf a = some d) :
    reading h (a :: l) = d :: reading h l := by
  simp [reading, hd]

/-- The walk with `p` behind it and `q` ahead. -/
theorem iterCollect_from {h : CHeap α} {top : Option Ptr} :
    ∀ (q p : List Ptr) (fuel : Nat), RingAt h top (p ++ q) → q.length < fuel →
      iterCollect h fuel ⟨top, p.getLast?⟩ = some (reading h q)
  | [], p, fuel + 1, hr, _ => by
    rw [List.append_nil] at hr
    simp [iterCollect, clistIterNext_end hr, reading]
  | b :: q, p, fuel + 1, hr, hf => by
    have hr' : RingAt h top ((p ++ [b]) ++ q) := by simpa using hr
    obtain ⟨d, hd, hdata⟩ := clistIterData_eq hr
    have ih := iterCollect_from q (p ++ [b]) fuel hr' (by simpa using hf)
    rw [List.getLast?_concat] at ih
    rw [reading_cons q hdata]
    simp [iterCollect, clistIterNext_at hr, hd, ih]

/-- **Iterating over a ring presents its items once, in ring order.** -/
theorem iterCollect_spec {h : CHeap α} {top : Option Ptr} {l : List Ptr} {fuel : Nat}
    (hr : RingAt h top l) (hf : l.length < fuel) :
    iterCollect h fuel (clistIterNew top) = some (reading h l) :=
  iterCollect_from l [] fuel hr hf

/-! ## Removing while iterating -/

/-- Removing any node: the iterator is on the node behind it, or on the first one left, and its
start is the head of what is left. -/
theorem clistIterRemove_at {h : CHeap α} {top : Option Ptr} {p q : List Ptr} {b : Ptr}
    (destroy : Bool) (hr : RingAt h top (p ++ b :: q)) :
    ∃ h', clistIterRemove h ⟨top, some b⟩ destroy =
        some (⟨(p ++ q).head?, (q ++ p).head?⟩, h') ∧ RingAt h' (p ++ q).head? (p ++ q) ∧
      FrameOff (p ++ b :: q) h h' := by
  have hrot : RingAt h (some b) (b :: (q ++ p)) := ⟨IsRing.rotate (q := b :: q) hr.ring, rfl⟩
  obtain ⟨h', he, hr', _, hf, _⟩ := clistRemove_spec destroy hrot
  have hstart : (if some b = top then (q ++ p).head? else top) = (p ++ q).head? := by
    cases p with
    | nil =>
      have htop : top = some b := hr.head
      rw [if_pos htop.symm, List.append_nil, List.nil_append]
    | cons a p =>
      have htop : top = some a := hr.head
      have hba : b ≠ a := by
        rintro rfl
        have hnd := hr.ring.nodup
        simp at hnd
      rw [htop, if_neg (by simpa using hba)]
      rfl
  refine ⟨h', ?_, ⟨IsRing.rotate hr'.ring, rfl⟩, ⟨fun x hx => hf.cells x ?_, hf.brk⟩⟩
  · simp only [clistIterRemove, he, hstart, Option.bind_eq_bind, Option.bind_some]
  · simp only [List.mem_append, List.mem_cons, not_or] at hx ⊢
    exact ⟨hx.2.1, hx.2.2, hx.1⟩

/-- After a removal the walk has nodes behind it and ahead of it again: behind the last node it is
thrown back to the start of the shortened ring. -/
theorem exists_split (p q : List Ptr) :
    ∃ p' q', p ++ q = p' ++ q' ∧ (q ++ p).head? = p'.getLast? := by
  cases q with
  | cons c q => exact ⟨p ++ [c], q, by simp, by simp⟩
  | nil =>
    cases p with
    | nil => exact ⟨[], [], rfl, rfl⟩
    | cons s p => exact ⟨[s], p, by simp, rfl⟩

/-- The measure of the loop: every removal shortens the ring, every other step moves on towards
its end, and a removal may throw the walk back to the start. -/
def filterFuel (l q : List Ptr) : Nat := l.length * l.length + q.length + 1

theorem filterFuel_remove {l l' q q' : List Ptr} (hl : l.length = l'.length + 1)
    (hq : q'.length ≤ l'.length) : filterFuel l' q' < filterFuel l q := by
  have hsq : (l'.length + 1) * (l'.length + 1) = l'.length * l'.length + 2 * l'.length + 1 := by
    ring
  unfold filterFuel
  rw [hl, hsq]
  omega

theorem filterFuel_step {l q : List Ptr} {a : Ptr} : filterFuel l q < filterFuel l (a :: q) := by
  simp [filterFuel]

end Tinu
