import Tinu.CListLoops

/-!
# Removing while iterating (`clist.c`)

`clist_iter_remove` leaves its iterator on the node after the removed one, and the next call of
`clist_iter_next` goes on from there, so that node is passed over.

* `filterRounds_iterFilter` — the rounds of the loop are those of `iterFilter`;
* `filterRounds_ends` — the loop ends on every ring, and whenever it calls `clist_iter_next` its
  iterator is in what is left of the ring;
* `iterFilter_spec` — it leaves a part of its ring, and touches nothing else;
* `filterRounds_head` — the node that the round after a removal examines;
* `filter_ok_iff` — the loop filters its ring exactly when there is at most one item, nothing to
  remove, or only the second of two items.
-/

set_option autoImplicit false

namespace Tinu

open LinkedRing

variable {α : Type}

/-! ## The loop -/

/-- A round of the loop: the node that it examined, its item, and the state after the round. -/
structure FilterRound (α : Type) where
  node : Ptr
  data : α
  heap : CHeap α
  iter : CListIterator

/-- `for (iter = clist_iter_new(l); clist_iter_next(iter); ) if (P) clist_iter_remove(iter, …)`, with
its rounds. -/
def filterRounds (P : α → Bool) (destroy : Bool) :
    Nat → CHeap α → CListIterator → Option (List (FilterRound α) × CHeap α × CListIterator)
  | 0, _, _ => none
  | fuel + 1, h, iter => do
    let (more, iter) ← clistIterNext h iter
    if more then
      let node ← iter.act
      let data ← clistIterData h iter
      if P data then
        let (iter, h) ← clistIterRemove h iter destroy
        (filterRounds P destroy fuel h iter).map fun out =>
          (⟨node, data, h, iter⟩ :: out.1, out.2)
      else
        (filterRounds P destroy fuel h iter).map fun out =>
          (⟨node, data, h, iter⟩ :: out.1, out.2)
    else some ([], h, iter)

/-- The loop over a list; a ring has fewer nodes than there are addresses below the break. -/
def filterLoop (P : α → Bool) (destroy : Bool) (h : CHeap α) (list : Option Ptr) :
    Option (List (FilterRound α) × CHeap α × CListIterator) :=
  filterRounds P destroy (h.brk * h.brk + h.brk + 1) h (clistIterNew list)

section Filter

variable {P : α → Bool} {destroy : Bool}

/-- **The rounds are those of the loop** as `test_unregister_hook` runs it. -/
theorem filterRounds_iterFilter :
    ∀ (fuel : Nat) (h : CHeap α) (iter : CListIterator),
      (filterRounds P destroy fuel h iter).map Prod.snd = iterFilter P destroy fuel h iter
  | 0, _, _ => rfl
  | fuel + 1, h, iter => by
    rw [filterRounds, iterFilter]
    cases clistIterNext h iter with
    | none => rfl
    | some r =>
      obtain ⟨more, iter1⟩ := r
      cases more with
      | false => rfl
      | true =>
        simp only [Option.bind_eq_bind, Option.bind_some, if_true]
        cases ha : iter1.act with
        | none => simp [clistIterData, ha]
        | some node =>
          cases clistIterData h iter1 with
          | none => rfl
          | some data =>
            simp only [Option.bind_some]
            split
            · cases clistIterRemove h iter1 destroy with
              | none => rfl
              | some out =>
                obtain ⟨iter2, h2⟩ := out
                rw [Option.bind_some, Option.bind_some, ← filterRounds_iterFilter fuel h2 iter2,
                  Option.map_map]
                rfl
            · rw [← filterRounds_iterFilter fuel h iter1, Option.map_map]
              rfl

/-! ### One round -/

theorem filterRounds_stop {h : CHeap α} {iter iter' : CListIterator} (fuel : Nat)
    (hnext : clistIterNext h iter = some (false, iter')) :
    filterRounds P destroy (fuel + 1) h iter = some ([], h, iter') := by
  simp [filterRounds, hnext]

theorem filterRounds_keep {h : CHeap α} {iter : CListIterator} {top : Option Ptr} {b : Ptr} {d : α}
    (fuel : Nat) (hnext : clistIterNext h iter = some (true, ⟨top, some b⟩))
    (hdata : clistIterData h ⟨top, some b⟩ = some d) (hP : P d = false) :
    filterRounds P destroy (fuel + 1) h iter =
      (filterRounds P destroy fuel h ⟨top, some b⟩).map fun out =>
        (⟨b, d, h, ⟨top, some b⟩⟩ :: out.1, out.2) := by
  simp [filterRounds, hnext, hdata, hP]

theorem filterRounds_remove {h h' : CHeap α} {iter iter' : CListIterator} {top : Option Ptr}
    {b : Ptr} {d : α} (fuel : Nat)
    (hnext : clistIterNext h iter = some (true, ⟨top, some b⟩))
    (hdata : clistIterData h ⟨top, some b⟩ = some d) (hP : P d = true)
    (hremove : clistIterRemove h ⟨top, some b⟩ destroy = some (iter', h')) :
    filterRounds P destroy (fuel + 1) h iter =
      (filterRounds P destroy fuel h' iter').map fun out =>
        (⟨b, d, h', iter'⟩ :: out.1, out.2) := by
  simp [filterRounds, hnext, hdata, hP, hremove]

/-! ### The loop ends -/

/-- The nodes of `l` that are still allocated are a ring `m`, with its first node at `top`. -/
structure RingLeft (l : List Ptr) (h : CHeap α) (top : Option Ptr) (m : List Ptr) : Prop where
  ring : RingAt h top m
  left : ∀ x, x ∈ m ↔ x ∈ l ∧ (h.cells x).isSome

theorem RingAt.ringLeft {h : CHeap α} {top : Option Ptr} {l : List Ptr} (hr : RingAt h top l) :
    RingLeft l h top l := by
  refine ⟨hr, fun x => ⟨fun hx => ⟨hx, ?_⟩, And.left⟩⟩
  obtain ⟨c, hc⟩ := hr.allocated hx
  rw [hc]
  rfl

/-- The start of an iterator and its node are `NULL` or in what is left of the ring `l`, and so they
are after `clist_iter_next`. -/
def IterInRing (l : List Ptr) (h : CHeap α) (iter : CListIterator) : Prop :=
  ∃ m, RingLeft l h iter.start m ∧ (∀ a ∈ iter.start, a ∈ m) ∧ (∀ a ∈ iter.act, a ∈ m) ∧
    ∃ more iter', clistIterNext h iter = some (more, iter') ∧ iter'.start = iter.start ∧
      ∀ a ∈ iter'.act, a ∈ m

/-- The invariant of the loop: the walk has `p` behind it and `q` ahead. -/
theorem RingLeft.iterInRing {l : List Ptr} {h : CHeap α} {top : Option Ptr} {p q : List Ptr}
    (hl : RingLeft l h top (p ++ q)) : IterInRing l h ⟨top, p.getLast?⟩ := by
  refine ⟨p ++ q, hl, ?_, ?_, ?_⟩
  · intro a ha
    exact List.mem_of_head? (hl.ring.head.symm.trans ha)
  · intro a ha
    exact List.mem_append_left q (List.mem_of_getLast? ha)
  · cases q with
    | nil =>
      have hr : RingAt h top p := by simpa using hl.ring
      exact ⟨false, _, clistIterNext_end hr, rfl, fun a ha => nomatch ha⟩
    | cons b q =>
      refine ⟨true, _, clistIterNext_at hl.ring, rfl, fun a ha => ?_⟩
      obtain rfl : b = a := Option.some.inj ha
      exact List.mem_append_right p List.mem_cons_self

/-- The node that `clist_iter_remove` was on is released. -/
theorem clistIterRemove_gone {h h' : CHeap α} {top : Option Ptr} {p q : List Ptr} {b : Ptr}
    {iter' : CListIterator} (hr : RingAt h top (p ++ b :: q))
    (he : clistIterRemove h ⟨top, some b⟩ destroy = some (iter', h')) : h'.cells b = none := by
  have hrot : RingAt h (some b) (b :: (q ++ p)) := ⟨IsRing.rotate (q := b :: q) hr.ring, rfl⟩
  obtain ⟨h1, hrem, _, _, _, hgone⟩ := clistRemove_spec destroy hrot
  simp only [clistIterRemove, hrem, Option.bind_eq_bind, Option.bind_some, Option.some.injEq,
    Prod.mk.injEq] at he
  rw [← he.2]
  exact hgone

/-- **A removal takes one node** from what is left of the ring. -/
theorem RingLeft.remove {l : List Ptr} {h : CHeap α} {top : Option Ptr} {p q : List Ptr} {b : Ptr}
    (destroy : Bool) (hl : RingLeft l h top (p ++ b :: q)) :
    ∃ h', clistIterRemove h ⟨top, some b⟩ destroy =
        some (⟨(p ++ q).head?, (q ++ p).head?⟩, h') ∧
      RingLeft l h' (p ++ q).head? (p ++ q) ∧ FrameOff l h h' := by
  obtain ⟨h', he, hr', hf⟩ := clistIterRemove_at destroy hl.ring
  have hgone : h'.cells b = none := clistIterRemove_gone hl.ring he
  have hmem : ∀ x, x ∈ p ++ b :: q ↔ x = b ∨ x ∈ p ++ q := by
    intro x
    simp only [List.mem_append, List.mem_cons]
    tauto
  refine ⟨h', he, ⟨hr', fun x => ⟨fun hx => ⟨?_, ?_⟩, ?_⟩⟩, ?_⟩
  · exact ((hl.left x).mp ((hmem x).mpr (Or.inr hx))).1
  · obtain ⟨c, hc⟩ := hr'.allocated hx
    rw [hc]
    rfl
  · rintro ⟨hx, hsome⟩
    by_cases hxm : x ∈ p ++ b :: q
    · rcases (hmem x).mp hxm with rfl | hxm
      · rw [hgone] at hsome
        cases hsome
      · exact hxm
    · -- a node of `l` that had been released before stays so
      rw [hf.cells x hxm] at hsome
      exact absurd ((hl.left x).mpr ⟨hx, hsome⟩) hxm
  · exact ⟨fun x hx => hf.cells x fun hxm => hx ((hl.left x).mp hxm).1, hf.brk⟩

/-- What the removing loop does to a ring: it ends, with what is left of the ring, and touches
nothing else. -/
def FilterEnds (h : CHeap α) (l : List Ptr) (r : Option (CHeap α × CListIterator)) : Prop :=
  ∃ h' iter' l', r = some (h', iter') ∧ FrameOff l h h' ∧ RingAt h' iter'.start l' ∧
    ∀ x ∈ l', x ∈ l

/-- The states in which the loop calls `clist_iter_next`. -/
def callStates (h : CHeap α) (iter : CListIterator) (rounds : List (FilterRound α)) :
    List (CHeap α × CListIterator) :=
  (h, iter) :: rounds.map fun round => (round.heap, round.iter)

/-- The loop comes to its end within `n` calls of `clist_iter_next`, with its iterator in what is
left of the ring `l` at each of them. -/
def RoundsEnd (P : α → Bool) (destroy : Bool) (l : List Ptr) (n : Nat) (h : CHeap α)
    (iter : CListIterator) : Prop :=
  ∃ rounds h' iter',
    (∀ fuel, n ≤ fuel → filterRounds P destroy fuel h iter = some (rounds, h', iter')) ∧
    (∀ s ∈ callStates h iter rounds, IterInRing l s.1 s.2) ∧ FilterEnds h l (some (h', iter'))

/-- The last call. -/
theorem RoundsEnd.stop {l : List Ptr} {n : Nat} {h : CHeap α} {top : Option Ptr} {p : List Ptr}
    (hl : RingLeft l h top p) : RoundsEnd P destroy l (n + 1) h ⟨top, p.getLast?⟩ := by
  have hin : IterInRing l h ⟨top, p.getLast?⟩ :=
    RingLeft.iterInRing (q := []) (by rwa [List.append_nil])
  refine ⟨[], h, ⟨top, none⟩, fun fuel hfuel => ?_, fun s hs => ?_, ?_⟩
  · obtain ⟨k, rfl⟩ := Nat.exists_eq_add_of_le hfuel
    rw [Nat.add_right_comm]
    exact filterRounds_stop (n + k) (clistIterNext_end hl.ring)
  · rw [List.mem_singleton.mp hs]
    exact hin
  · exact ⟨h, _, p, rfl, FrameOff.refl l h, hl.ring, fun x hx => ((hl.left x).mp hx).1⟩

/-- A call before the last, with the round that follows it. -/
theorem RoundsEnd.round {l : List Ptr} {n : Nat} {h h1 : CHeap α} {iter iter1 : CListIterator}
    {b : Ptr} {d : α} (hin : IterInRing l h iter) (hf : FrameOff l h h1)
    (hround : ∀ fuel, filterRounds P destroy (fuel + 1) h iter =
      (filterRounds P destroy fuel h1 iter1).map fun out => (⟨b, d, h1, iter1⟩ :: out.1, out.2))
    (hrest : RoundsEnd P destroy l n h1 iter1) : RoundsEnd P destroy l (n + 1) h iter := by
  obtain ⟨rounds, h', iter', hrun, hstates, h2, iter2, m, hend, hf2, hring, hsub⟩ := hrest
  obtain ⟨rfl, rfl⟩ := Prod.mk.inj (Option.some.inj hend)
  refine ⟨⟨b, d, h1, iter1⟩ :: rounds, h', iter', fun fuel hfuel => ?_, fun s hs => ?_, ?_⟩
  · obtain ⟨k, rfl⟩ := Nat.exists_eq_add_of_le hfuel
    rw [Nat.add_right_comm, hround, hrun (n + k) (Nat.le_add_right n k), Option.map_some]
  · rcases List.mem_cons.mp hs with rfl | hs
    · exact hin
    · exact hstates s hs
  · exact ⟨h', iter', m, rfl, hf.trans hf2 fun _ hx => hx, hring, hsub⟩

/-- **The loop ends on what is left of a ring**, from any place in it: `filterFuel` falls with every
round. -/
theorem RingLeft.roundsEnd {l : List Ptr} :
    ∀ (n : Nat) {h : CHeap α} {top : Option Ptr} {p q : List Ptr}, RingLeft l h top (p ++ q) →
      filterFuel (p ++ q) q ≤ n → RoundsEnd P destroy l n h ⟨top, p.getLast?⟩
  | 0, _, _, _, _, _, hn => by simp [filterFuel] at hn
  | n + 1, h, top, p, q, hl, hn => by
    have hin : IterInRing l h ⟨top, p.getLast?⟩ := hl.iterInRing
    cases q with
    | nil =>
      rw [List.append_nil] at hl
      exact RoundsEnd.stop hl
    | cons b q =>
      obtain ⟨d, hd, _⟩ := clistIterData_eq hl.ring
      have hnext := clistIterNext_at hl.ring
      cases hP : P d with
      | true =>
        obtain ⟨h', he, hrem, hf⟩ := hl.remove destroy
        obtain ⟨p', q', hsplit, hact⟩ := exists_split p q
        rw [hsplit] at he hrem
        rw [hact] at he
        have hlen : (p ++ b :: q).length = (p' ++ q').length + 1 := by
          rw [← hsplit, List.length_append, List.length_append, List.length_cons, Nat.add_assoc]
        have hless := @filterFuel_remove _ _ (b :: q) q' hlen (by simp)
        have ih := RingLeft.roundsEnd n hrem (by omega)
        exact RoundsEnd.round hin hf (fun fuel => filterRounds_remove fuel hnext hd hP he) ih
      | false =>
        have hstep := filterFuel_step (l := p ++ b :: q) (q := q) (a := b)
        have hl' : RingLeft l h top ((p ++ [b]) ++ q) := by simpa using hl
        have hle : filterFuel ((p ++ [b]) ++ q) q ≤ n := by
          rw [List.append_assoc, List.singleton_append]
          omega
        have ih := RingLeft.roundsEnd n hl' hle
        rw [List.getLast?_concat] at ih
        exact RoundsEnd.round hin (FrameOff.refl l h)
          (fun fuel => filterRounds_keep fuel hnext hd hP) ih

/-- **The removing loop ends on every ring**, whatever matches. -/
theorem filterRounds_ends {h : CHeap α} {top : Option Ptr} {l : List Ptr} (hr : RingAt h top l) :
    RoundsEnd P destroy l (filterFuel l l) h (clistIterNew top) :=
  RingLeft.roundsEnd (filterFuel l l) (p := []) hr.ringLeft (Nat.le_refl _)

theorem iterFilter_spec {h : CHeap α} {top : Option Ptr} {l : List Ptr} {fuel : Nat}
    (hr : RingAt h top l) (hf : filterFuel l l ≤ fuel) :
    FilterEnds h l (iterFilter P destroy fuel h (clistIterNew top)) := by
  obtain ⟨rounds, h', iter', hrun, _, hends⟩ := @filterRounds_ends _ P destroy _ _ _ hr
  rw [← filterRounds_iterFilter, hrun fuel hf]
  exact hends

/-! ### The nodes it examines -/

/-- **The round after a node examines the one behind it**, or there is none. -/
theorem filterRounds_head {h : CHeap α} {top : Option Ptr} {s t : List Ptr} {c : Ptr}
    (hr : RingAt h top (s ++ c :: t)) {fuel : Nat} {rounds : List (FilterRound α)}
    {out : CHeap α × CListIterator}
    (hrun : filterRounds P destroy fuel h ⟨top, some c⟩ = some (rounds, out)) :
    (rounds.map FilterRound.node).head? = t.head? := by
  cases fuel with
  | zero => cases hrun
  | succ fuel =>
    cases t with
    | nil =>
      rw [filterRounds_stop fuel (clistIterNext_stop hr)] at hrun
      obtain ⟨rfl, -⟩ := Prod.mk.inj (Option.some.inj hrun)
      rfl
    | cons e t =>
      have hr' : RingAt h top ((s ++ [c]) ++ e :: t) := by simpa using hr
      obtain ⟨d, hd, _⟩ := clistIterData_eq hr'
      have hnext := clistIterNext_step hr
      cases hP : P d with
      | false =>
        rw [filterRounds_keep fuel hnext hd hP] at hrun
        obtain ⟨out', _, hout⟩ := Option.map_eq_some_iff.mp hrun
        rw [← (Prod.mk.inj hout).1]
        rfl
      | true =>
        obtain ⟨h', he, _, _⟩ := clistIterRemove_at destroy hr'
        rw [filterRounds_remove fuel hnext hd hP he] at hrun
        obtain ⟨out', _, hout⟩ := Option.map_eq_some_iff.mp hrun
        rw [← (Prod.mk.inj hout).1]
        rfl

/-- **Rounds that remove nothing** walk over the first nodes of a ring. -/
theorem filterRounds_walk {h : CHeap α} {top : Option Ptr} (p q : List Ptr)
    (hr : RingAt h top (p ++ q)) (hp : ∀ d ∈ reading h p, P d = false) :
    ∃ rounds : List (FilterRound α),
      (∀ fuel, filterRounds P destroy (p.length + fuel) h (clistIterNew top) =
        (filterRounds P destroy fuel h ⟨top, p.getLast?⟩).map fun out =>
          (rounds ++ out.1, out.2)) ∧
      rounds.map FilterRound.node = p ∧ rounds.map FilterRound.data = reading h p ∧
      ∀ round ∈ rounds, round.heap = h ∧ round.iter.start = top := by
  induction p using List.reverseRecOn generalizing q with
  | nil =>
    refine ⟨[], fun fuel => ?_, rfl, rfl, fun _ hm => absurd hm List.not_mem_nil⟩
    rw [List.length_nil, Nat.zero_add]
    simp only [List.nil_append, Prod.mk.eta, Option.map_id_fun', id_eq]
    rfl
  | append_singleton p b ih =>
    have hr' : RingAt h top (p ++ b :: q) := by simpa using hr
    obtain ⟨d, hd, hdata⟩ := clistIterData_eq hr'
    have hsplit : reading h (p ++ [b]) = reading h p ++ [d] := reading_concat p hdata
    rw [hsplit] at hp
    obtain ⟨rounds, hrun, hnodes, hitems, hsame⟩ :=
      ih (b :: q) hr' fun e he => hp e (List.mem_append_left _ he)
    refine ⟨rounds ++ [⟨b, d, h, ⟨top, some b⟩⟩], fun fuel => ?_, ?_, ?_, ?_⟩
    · have hlen : (p ++ [b]).length + fuel = p.length + (fuel + 1) := by
        rw [List.length_append, List.length_singleton, Nat.add_assoc, Nat.add_comm 1]
      rw [hlen, hrun, filterRounds_keep _ (clistIterNext_at hr') hd (hp d (by simp)),
        Option.map_map, List.getLast?_concat]
      simp only [Function.comp_def, List.append_assoc, List.singleton_append]
    · rw [List.map_append, hnodes]
      rfl
    · rw [List.map_append, hitems, hsplit]
      rfl
    · intro round hm
      rcases List.mem_append.mp hm with hm | hm
      · exact hsame round hm
      · rw [List.mem_singleton.mp hm]
        exact ⟨rfl, rfl⟩

/-! ### The first removal -/

/-- The rounds up to the first one that removes its node. -/
theorem filterRounds_first {h : CHeap α} {top : Option Ptr} {p q : List Ptr} {b : Ptr} {d : α}
    (hr : RingAt h top (p ++ b :: q)) (hp : ∀ e ∈ reading h p, P e = false)
    (hd : h.dataOf b = some d) (hP : P d = true) {iter' : CListIterator} {h' : CHeap α}
    (hremove : clistIterRemove h ⟨top, some b⟩ destroy = some (iter', h')) :
    ∃ rounds : List (FilterRound α),
      (∀ fuel, filterRounds P destroy (p.length + 1 + fuel) h (clistIterNew top) =
        (filterRounds P destroy fuel h' iter').map fun out =>
          (rounds ++ ⟨b, d, h', iter'⟩ :: out.1, out.2)) ∧
      rounds.map FilterRound.node = p ∧ rounds.map FilterRound.data = reading h p ∧
      ∀ round ∈ rounds, round.heap = h ∧ round.iter.start = top := by
  have hb : clistIterData h ⟨top, some b⟩ = some d := by
    obtain ⟨d', hd', hdata⟩ := clistIterData_eq hr
    rw [hd', ← hdata, hd]
  obtain ⟨rounds, hrun, hrest⟩ := @filterRounds_walk _ P destroy h top p (b :: q) hr hp
  refine ⟨rounds, fun fuel => ?_, hrest⟩
  rw [Nat.add_assoc, Nat.add_comm 1, hrun,
    filterRounds_remove fuel (clistIterNext_at hr) hb hP hremove, Option.map_map]
  rfl

/-- The loop over a ring has rounds left after all its nodes. -/
theorem exists_rounds {h : CHeap α} {top : Option Ptr} {l : List Ptr} (hr : RingAt h top l) {n : Nat}
    (hn : n ≤ l.length) : ∃ fuel, h.brk * h.brk + h.brk + 1 = n + (fuel + 1) := by
  have hlen := hr.length_le
  exact ⟨h.brk * h.brk + h.brk - n, by omega⟩

/-- **The node behind a removed one is passed over**: the first removal is of the only node, or of
the second of two. -/
theorem filterRounds_nodes {h : CHeap α} {top : Option Ptr} {p q : List Ptr} {b : Ptr} {d : α}
    (hr : RingAt h top (p ++ b :: q)) (hp : ∀ e ∈ reading h p, P e = false)
    (hd : h.dataOf b = some d) (hP : P d = true) {rounds : List (FilterRound α)}
    {out : CHeap α × CListIterator}
    (hrun : filterLoop P destroy h top = some (rounds, out))
    (hnodes : rounds.map FilterRound.node = p ++ b :: q) : q = [] ∧ p.length ≤ 1 := by
  obtain ⟨h', hremove, hr', _⟩ := clistIterRemove_at destroy hr
  obtain ⟨before, hfirst, hbefore, _, _⟩ := filterRounds_first hr hp hd hP hremove
  have hle : p.length + 1 ≤ (p ++ b :: q).length := by
    rw [List.length_append, List.length_cons]
    omega
  obtain ⟨fuel, hfuel⟩ := exists_rounds hr hle
  rw [filterLoop, hfuel, hfirst] at hrun
  obtain ⟨⟨rest, out'⟩, hrest, hout⟩ := Option.map_eq_some_iff.mp hrun
  obtain ⟨rfl, -⟩ := Prod.mk.inj hout
  rw [List.map_append, List.map_cons, hbefore] at hnodes
  have hq : rest.map FilterRound.node = q := (List.cons.inj (List.append_cancel_left hnodes)).2
  cases q with
  | cons c q =>
    -- the next round examines the node behind `c`, and no node comes twice
    have hhead := filterRounds_head hr' hrest
    rw [hq] at hhead
    have hnd := (List.nodup_append.mp hr'.ring.nodup).2.1
    exact absurd (List.mem_of_head? hhead.symm) (List.nodup_cons.mp hnd).1
  | nil =>
    refine ⟨rfl, ?_⟩
    cases p with
    | nil => exact Nat.zero_le 1
    | cons x p =>
      rw [List.append_nil] at hr'
      have hhead := @filterRounds_head _ P destroy h' _ [] p x hr' (fuel + 1) rest out' hrest
      rw [hq] at hhead
      obtain rfl := List.head?_eq_none_iff.mp hhead.symm
      exact Nat.le_refl 1

/-! ### What a removal leaves behind -/

theorem modify_released {h h' : CHeap α} {a : Ptr} {f : CList α → CList α}
    (hm : h.modify a f = some h') : h'.released = h.released := by
  unfold CHeap.modify at hm
  split at hm
  · cases hm
    rfl
  · cases hm

theorem modify_data {h h' : CHeap α} {a : Ptr} {f : CList α → CList α}
    (hm : h.modify a f = some h') (hf : ∀ c, (f c).data = c.data) : h'.dataOf = h.dataOf := by
  funext x
  obtain ⟨hcells, _⟩ := modify_cells hm
  rw [CHeap.dataOf, CHeap.dataOf, hcells]
  by_cases hx : x = a
  · subst hx
    rw [Function.update_self]
    cases h.cells x with
    | none => rfl
    | some c => exact congrArg some (hf c)
  · rw [Function.update_of_ne hx]

theorem release_data {h h' : CHeap α} {a : Ptr} {d : α}
    (hf : (h.destroyData destroy d).sliceFree a = some h') {x : Ptr} (hx : x ≠ a) :
    h'.dataOf x = h.dataOf x := by
  obtain ⟨hcells, _⟩ := sliceFree_cells hf
  rw [CHeap.dataOf, CHeap.dataOf, hcells, Function.update_of_ne hx, destroyData_cells]

/-- **`clist_remove` releases one node**, and the others keep their items. -/
theorem clistRemove_effect {h h' : CHeap α} {a : Ptr} {d : α} {res : Option Ptr}
    (he : clistRemove h (some a) destroy = some (res, h')) (hd : h.dataOf a = some d) :
    h'.released = h.released ++ releaseOf destroy a d ∧ ∀ x ≠ a, h'.dataOf x = h.dataOf x := by
  unfold clistRemove at he
  obtain ⟨c, hc, he⟩ := Option.bind_eq_some_iff.mp he
  have hcd : ∀ {h1 : CHeap α} {c1 : CList α}, h1.dataOf = h.dataOf → h1.cells a = some c1 →
      c1.data = d := by
    intro h1 c1 hsame hc1
    have hdata := congrFun hsame a
    rw [hd, CHeap.dataOf, hc1] at hdata
    exact Option.some.inj hdata
  split at he
  · obtain ⟨h1, hf, he⟩ := Option.bind_eq_some_iff.mp he
    obtain ⟨-, rfl⟩ := Prod.mk.inj (Option.some.inj he)
    rw [hcd rfl hc] at hf
    exact ⟨release_released hf, fun x hx => release_data hf hx⟩
  · obtain ⟨h1, hm1, he⟩ := Option.bind_eq_some_iff.mp he
    obtain ⟨h2, hm2, he⟩ := Option.bind_eq_some_iff.mp he
    obtain ⟨c2, hc2, he⟩ := Option.bind_eq_some_iff.mp he
    obtain ⟨h3, hf, he⟩ := Option.bind_eq_some_iff.mp he
    obtain ⟨-, rfl⟩ := Prod.mk.inj (Option.some.inj he)
    have hsame : h2.dataOf = h.dataOf :=
      (modify_data hm2 fun _ => rfl).trans (modify_data hm1 fun _ => rfl)
    rw [hcd hsame hc2] at hf
    refine ⟨?_, fun x hx => ?_⟩
    · rw [release_released hf, modify_released hm2, modify_released hm1]
    · rw [release_data hf hx, hsame]

theorem clistIterRemove_effect {h h' : CHeap α} {iter iter' : CListIterator} {a : Ptr} {d : α}
    (hact : iter.act = some a) (he : clistIterRemove h iter destroy = some (iter', h'))
    (hd : h.dataOf a = some d) :
    h'.released = h.released ++ releaseOf destroy a d ∧ ∀ x ≠ a, h'.dataOf x = h.dataOf x := by
  unfold clistIterRemove at he
  obtain ⟨act, hact', he⟩ := Option.bind_eq_some_iff.mp he
  obtain rfl : a = act := Option.some.inj (hact.symm.trans hact')
  obtain ⟨⟨res, h1⟩, hrem, he⟩ := Option.bind_eq_some_iff.mp he
  obtain ⟨-, rfl⟩ := Prod.mk.inj (Option.some.inj he)
  exact clistRemove_effect hrem hd

/-! ## What the loop is for -/

/-- The start of the iterator is `NULL`, or a node in a well-formed ring of nodes of `l`. -/
def StartOk (l : List Ptr) (h : CHeap α) (iter : CListIterator) : Prop :=
  ∃ m, RingAt h iter.start m ∧ ∀ x ∈ m, x ∈ l

/-- The nodes whose items do not match. -/
def keptNodes (P : α → Bool) (h : CHeap α) (l : List Ptr) : List Ptr :=
  l.filter fun a => (h.dataOf a).all fun d => !P d

/-- The loop examined every item once, in ring order, destroyed those that match, and left a ring
of the others, with the iterator started from one of its nodes. -/
def FilterOk (P : α → Bool) (destroy : Bool) (h : CHeap α) (l : List Ptr)
    (res : Option (List (FilterRound α) × CHeap α × CListIterator)) : Prop :=
  ∃ rounds h' iter' log, res = some (rounds, h', iter') ∧
    (rounds.map FilterRound.node = l ∧ rounds.map FilterRound.data = reading h l) ∧
    (h'.released = h.released ++ log ∧
      log.filterMap Release.destroyed = if destroy then (reading h l).filter P else []) ∧
    (RingAt h' (keptNodes P h l).head? (keptNodes P h l) ∧
      reading h' (keptNodes P h l) = (reading h l).filter fun d => !P d) ∧
    (∀ round ∈ rounds, StartOk l round.heap round.iter) ∧
    (iter'.start = none ∨ ∃ a ∈ keptNodes P h l, iter'.start = some a)

/-- At most one item, nothing to remove, or only the second of two items. -/
def FilterWorks (P : α → Bool) (r : List α) : Prop :=
  r.length ≤ 1 ∨ (∀ d ∈ r, P d = false) ∨ ∃ d e, r = [d, e] ∧ P d = false ∧ P e = true

theorem reading_kept {h : CHeap α} {l : List Ptr} (hdata : ∀ x ∈ l, ∃ d, h.dataOf x = some d) :
    reading h (keptNodes P h l) = (reading h l).filter fun d => !P d := by
  induction l with
  | nil => rfl
  | cons a l ih =>
    obtain ⟨d, hd⟩ := hdata a List.mem_cons_self
    have ih := ih fun x hx => hdata x (List.mem_cons_of_mem a hx)
    rw [reading_cons l hd, keptNodes, List.filter_cons, List.filter_cons, hd, Option.all_some]
    split
    · rw [reading_cons _ hd]
      exact congrArg (d :: ·) ih
    · exact ih

theorem keptNodes_quiet {h : CHeap α} {l : List Ptr} (hq : ∀ d ∈ reading h l, P d = false) :
    keptNodes P h l = l := by
  refine List.filter_eq_self.mpr fun a ha => ?_
  cases hd : h.dataOf a with
  | none => rfl
  | some d =>
    have hm : d ∈ reading h l := List.mem_filterMap.mpr ⟨a, ha, hd⟩
    rw [Option.all_some, hq d hm]
    rfl

theorem keptNodes_concat {h : CHeap α} {p : List Ptr} {b : Ptr} {d : α}
    (hp : ∀ e ∈ reading h p, P e = false) (hd : h.dataOf b = some d) (hP : P d = true) :
    keptNodes P h (p ++ [b]) = p := by
  have hpk : keptNodes P h p = p := keptNodes_quiet hp
  rw [keptNodes] at hpk ⊢
  rw [List.filter_append, hpk]
  simp [hd, hP]

/-- Without a match the loop only walks. -/
theorem filterLoop_quiet {h : CHeap α} {top : Option Ptr} {l : List Ptr} (hr : RingAt h top l)
    (hq : ∀ d ∈ reading h l, P d = false) :
    ∃ rounds : List (FilterRound α), filterLoop P destroy h top = some (rounds, h, ⟨top, none⟩) ∧
      rounds.map FilterRound.node = l ∧ rounds.map FilterRound.data = reading h l ∧
      ∀ round ∈ rounds, round.heap = h ∧ round.iter.start = top := by
  obtain ⟨rounds, hrun, hrest⟩ := @filterRounds_walk _ P destroy h top l [] (by simpa using hr) hq
  refine ⟨rounds, ?_, hrest⟩
  obtain ⟨fuel, hfuel⟩ := exists_rounds hr (Nat.le_refl _)
  rw [filterLoop, hfuel, hrun, filterRounds_stop fuel (clistIterNext_end hr), Option.map_some,
    List.append_nil]

/-- Without a match nothing is destroyed. -/
theorem filter_quiet {r : List α} (hq : ∀ d ∈ r, P d = false) : r.filter P = [] :=
  List.filter_eq_nil_iff.mpr fun d hd => by rw [hq d hd]; exact Bool.false_ne_true

theorem filterOk_quiet {h : CHeap α} {top : Option Ptr} {l : List Ptr} (hr : RingAt h top l)
    (hq : ∀ d ∈ reading h l, P d = false) :
    FilterOk P destroy h l (filterLoop P destroy h top) := by
  obtain ⟨rounds, hrun, hnodes, hitems, hsame⟩ := @filterLoop_quiet _ P destroy h top l hr hq
  have hkept := keptNodes_quiet hq
  have hread := reading_kept (P := P) fun x hx => hr.dataOf (a := x) hx
  refine ⟨rounds, h, _, [], hrun, ⟨hnodes, hitems⟩, ⟨(List.append_nil _).symm, ?_⟩, ⟨?_, hread⟩,
    fun round hm => ?_, ?_⟩
  · rw [filter_quiet hq]
    cases destroy <;> rfl
  · rw [hkept]
    exact ⟨hr.ring, rfl⟩
  · obtain ⟨hheap, hstart⟩ := hsame round hm
    refine ⟨l, ?_, fun x hx => hx⟩
    rw [hheap, hstart]
    exact hr
  · rw [hkept, hr.head]
    cases l with
    | nil => exact Or.inl rfl
    | cons a l => exact Or.inr ⟨a, List.mem_cons_self, rfl⟩

/-- A match in the last place of at most two, and nowhere else. -/
theorem filterOk_last {h : CHeap α} {top : Option Ptr} {p : List Ptr} {b : Ptr} {d : α}
    (hr : RingAt h top (p ++ [b])) (hp : ∀ e ∈ reading h p, P e = false) (hlen : p.length ≤ 1)
    (hd : h.dataOf b = some d) (hP : P d = true) :
    FilterOk P destroy h (p ++ [b]) (filterLoop P destroy h top) := by
  obtain ⟨h', hremove, hr', _⟩ := clistIterRemove_at destroy hr
  rw [List.append_nil] at hr' hremove
  rw [List.nil_append] at hremove
  obtain ⟨hrel, hother⟩ := clistIterRemove_effect rfl hremove hd
  obtain ⟨rounds, hfirst, hnodes, hitems, hsame⟩ := filterRounds_first hr hp hd hP hremove
  have hstop : clistIterNext h' ⟨p.head?, p.head?⟩ = some (false, ⟨p.head?, none⟩) := by
    cases p with
    | nil => rfl
    | cons x p =>
      obtain rfl : p = [] := eq_nil_of_cons_le_one hlen
      exact @clistIterNext_stop _ h' (some x) [] x hr'
  have hb : b ∉ p := fun hm => (List.nodup_append.mp hr.ring.nodup).2.2 b hm b
    List.mem_cons_self rfl
  have hsplit : reading h (p ++ [b]) = reading h p ++ [d] := reading_concat p hd
  have hkept : keptNodes P h (p ++ [b]) = p := keptNodes_concat hp hd hP
  refine ⟨rounds ++ [⟨b, d, h', ⟨p.head?, p.head?⟩⟩], h', ⟨p.head?, none⟩,
    releaseOf destroy b d, ?_, ⟨?_, ?_⟩, ⟨hrel, ?_⟩, ⟨?_, ?_⟩, fun round hm => ?_, ?_⟩
  · obtain ⟨fuel, hfuel⟩ := exists_rounds hr (Nat.le_of_eq List.length_append.symm)
    rw [filterLoop, hfuel, List.length_singleton, hfirst, filterRounds_stop fuel hstop,
      Option.map_some]
  · rw [List.map_append, hnodes]
    rfl
  · rw [List.map_append, hitems, hsplit]
    rfl
  · rw [hsplit, List.filter_append, filter_quiet hp]
    cases destroy <;> simp [releaseOf, Release.destroyed, hP]
  · rw [hkept]
    exact hr'
  · rw [← reading_kept fun x hx => hr.dataOf (a := x) hx, hkept]
    exact reading_congr fun x hx => hother x fun e => hb (e ▸ hx)
  · rcases List.mem_append.mp hm with hm | hm
    · obtain ⟨hheap, hstart⟩ := hsame round hm
      refine ⟨p ++ [b], ?_, fun x hx => hx⟩
      rw [hheap, hstart]
      exact hr
    · rw [List.mem_singleton.mp hm]
      exact ⟨p, hr', fun x hx => List.mem_append_left _ hx⟩
  · rw [hkept]
    cases p with
    | nil => exact Or.inl rfl
    | cons x p => exact Or.inr ⟨x, List.mem_cons_self, rfl⟩

/-- The first node whose item matches. -/
theorem first_match {h : CHeap α} {l : List Ptr} (hdata : ∀ x ∈ l, ∃ d, h.dataOf x = some d)
    (hq : ¬ ∀ d ∈ reading h l, P d = false) :
    ∃ p b q d, l = p ++ b :: q ∧ (∀ e ∈ reading h p, P e = false) ∧ h.dataOf b = some d ∧
      P d = true := by
  induction l with
  | nil => exact absurd (fun d hd => absurd hd List.not_mem_nil) hq
  | cons a l ih =>
    obtain ⟨d, hd⟩ := hdata a List.mem_cons_self
    cases hP : P d with
    | true => exact ⟨[], a, l, d, rfl, fun e he => absurd he List.not_mem_nil, hd, hP⟩
    | false =>
      have hrest : ¬ ∀ d ∈ reading h l, P d = false := by
        intro hall
        refine hq fun e he => ?_
        rw [reading_cons l hd] at he
        rcases List.mem_cons.mp he with rfl | he
        · exact hP
        · exact hall e he
      obtain ⟨p, b, q, e, rfl, hp, he, hPe⟩ :=
        ih (fun x hx => hdata x (List.mem_cons_of_mem a hx)) hrest
      refine ⟨a :: p, b, q, e, rfl, fun e' he' => ?_, he, hPe⟩
      rw [reading_cons p hd] at he'
      rcases List.mem_cons.mp he' with rfl | he'
      · exact hP
      · exact hp e' he'

/-- With a match, there is at most one item before it and none behind it. -/
theorem filterWorks_iff {r r' : List α} {d : α} (hr : ∀ e ∈ r, P e = false) (hP : P d = true) :
    FilterWorks P (r ++ d :: r') ↔ r' = [] ∧ r.length ≤ 1 := by
  constructor
  · rintro (hlen | hnone | ⟨e, e', hpair, he, _⟩)
    · rw [List.length_append, List.length_cons] at hlen
      exact ⟨List.length_eq_zero_iff.mp (by omega), by omega⟩
    · rw [hnone d (by simp)] at hP
      cases hP
    · cases r with
      | nil =>
        rw [(List.cons.inj hpair).1, he] at hP
        cases hP
      | cons x r =>
        have hlen := congrArg List.length hpair
        rw [List.length_append, List.length_cons, List.length_cons, List.length_cons,
          List.length_singleton] at hlen
        rw [List.length_cons]
        exact ⟨List.length_eq_zero_iff.mp (by omega), by omega⟩
  · rintro ⟨rfl, hlen⟩
    cases r with
    | nil => exact Or.inl (Nat.le_refl 1)
    | cons x r =>
      obtain rfl : r = [] := eq_nil_of_cons_le_one hlen
      exact Or.inr (Or.inr ⟨x, d, rfl, hr x List.mem_cons_self, hP⟩)

/-- **Filtering while iterating does what it is for exactly when** there is at most one item,
nothing to remove, or only the second of two items. -/
theorem filter_ok_iff {h : CHeap α} {top : Option Ptr} {l : List Ptr} (hr : RingAt h top l) :
    FilterOk P destroy h l (filterLoop P destroy h top) ↔ FilterWorks P (reading h l) := by
  by_cases hq : ∀ d ∈ reading h l, P d = false
  · exact iff_of_true (filterOk_quiet hr hq) (Or.inr (Or.inl hq))
  -- `b` is the first node whose item matches
  obtain ⟨p, b, q, d, rfl, hp, hd, hP⟩ := first_match (fun x hx => hr.dataOf (a := x) hx) hq
  have hplen : (reading h p).length = p.length :=
    reading_length_of fun x hx => hr.dataOf (List.mem_append_left _ hx)
  have hqlen : (reading h q).length = q.length :=
    reading_length_of fun x hx =>
      hr.dataOf (List.mem_append_right _ (List.mem_cons_of_mem _ hx))
  rw [reading_append, reading_cons q hd, filterWorks_iff hp hP, ← List.length_eq_zero_iff, hqlen,
    List.length_eq_zero_iff, hplen]
  constructor
  · rintro ⟨rounds, h', iter', log, hrun, ⟨hnodes, _⟩, _⟩
    exact filterRounds_nodes hr hp hd hP hrun hnodes
  · rintro ⟨rfl, hlen⟩
    exact filterOk_last hr hp hlen hd hP

end Filter

theorem filter_ok_second :
    ∃ (h : CHeap Nat) (top : Option Ptr) (l : List Ptr), RingAt h top l ∧ reading h l = [1, 2] ∧
      FilterOk (fun d => d == 2) true h l (filterLoop (fun d => d == 2) true h top) := by
  obtain ⟨h, top, l, hr, hread⟩ := exists_reads [1, 2]
  exact ⟨h, top, l, hr, hread,
    (filter_ok_iff hr).mpr (by rw [hread]; exact Or.inr (Or.inr ⟨1, 2, rfl, rfl, rfl⟩))⟩

/-- Of two items that match the second is not examined. -/
theorem filter_passes_over :
    ¬ ∀ (P : Nat → Bool) (h : CHeap Nat) (top : Option Ptr) (l : List Ptr), RingAt h top l →
      FilterOk P true h l (filterLoop P true h top) := by
  intro hall
  obtain ⟨h, top, l, hr, hread⟩ := exists_reads [1, 2]
  have hworks := (filter_ok_iff hr).mp (hall (fun _ => true) h top l hr)
  rw [hread] at hworks
  rcases hworks with hlen | hnone | ⟨d, e, _, hd, _⟩
  · exact absurd hlen (by decide)
  · exact absurd (hnone 1 (by decide)) (by decide)
  · cases hd

end Tinu
