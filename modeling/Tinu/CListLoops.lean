import Tinu.CListRuns

/-!
# Going round a ring (`clist.c`)

* `iterCalls_spec` — call after call an iterator presents the items of its ring, then nothing
  once, and then the items again, in either direction;
* `clistForeach_spec` — the callback is called up to the first item for which it says no;
* `destroyed_iff` — `clist_destroy` releases a whole ring exactly when it has at most one node.
-/

set_option autoImplicit false

namespace Tinu

open LinkedRing

variable {α : Type}

/-! ## Iterators -/

/-- What `clist_iter_data` presents after a call that returned `TRUE`. -/
def iterPresented (h : CHeap α) (more : Bool) (iter : CListIterator) : Option (Option α) :=
  if more then (clistIterData h iter).map some else some none

/-- Calls of `clist_iter_next` or of `clist_iter_prev`, with what is presented after each; `none`
stands for a call that returned `FALSE`. -/
def iterCalls (h : CHeap α) (call : CListIterator → Option (Bool × CListIterator)) :
    Nat → CListIterator → Option (List (Option α))
  | 0, _ => some []
  | k + 1, iter => do
    let (more, iter) ← call iter
    let data ← iterPresented h more iter
    let rest ← iterCalls h call k iter
    some (data :: rest)

/-- An iterator over the nodes `l`: not started, or at the node before the position. -/
def iterAt (l : List Ptr) : Nat → CListIterator
  | 0 => ⟨l.head?, none⟩
  | j + 1 => ⟨l.head?, l[j]?⟩

/-- One call, along either direction of the links. -/
def iterStep (link : Ptr → Option Ptr) (iter : CListIterator) : Option (Bool × CListIterator) :=
  match iter.act with
  | none => some (clistIterSetStep iter none)
  | some act => (link act).map fun b => clistIterSetStep iter (some b)

theorem clistIterNext_eq (h : CHeap α) : clistIterNext h = iterStep h.nextOf := by
  funext ⟨start, act⟩
  cases act with
  | none => rfl
  | some a =>
    simp only [clistIterNext, iterStep, CHeap.nextOf]
    cases h.cells a <;> rfl

theorem clistIterPrev_eq (h : CHeap α) : clistIterPrev h = iterStep h.prevOf := by
  funext ⟨start, act⟩
  cases act with
  | none => rfl
  | some a =>
    simp only [clistIterPrev, iterStep, CHeap.prevOf]
    cases h.cells a <;> rfl

/-- **One call moves the iterator on**, past the last node to where it has not started. -/
theorem iterStep_iterAt {next prev : Ptr → Option Ptr} {l : List Ptr} (hring : IsRing next prev l)
    {j : Nat} (hj : j ≤ l.length) :
    iterStep next (iterAt l j) =
      some (decide (j < l.length), iterAt l ((j + 1) % (l.length + 1))) := by
  cases j with
  | zero =>
    cases l with
    | nil => rfl
    | cons a t =>
      have hmod : (0 + 1) % ((a :: t).length + 1) = 1 := Nat.mod_eq_of_lt (by simp)
      rw [hmod]
      rfl
  | succ j =>
    obtain ⟨p, a, q, rfl, rfl⟩ : ∃ p a q, l = p ++ a :: q ∧ p.length = j := by
      refine ⟨l.take j, l[j], l.drop (j + 1), ?_, ?_⟩
      · rw [List.cons_getElem_drop_succ, List.take_append_drop]
      · rw [List.length_take]
        omega
    obtain ⟨s, hs⟩ : ∃ s, (p ++ a :: q).head? = some s := by
      cases p <;> exact ⟨_, rfl⟩
    cases q with
    | nil =>
      have hnext : next a = some s := hring.next_last hs
      have hmod : (p.length + 1 + 1) % ((p ++ [a]).length + 1) = 0 := by simp
      have hend : decide (p.length + 1 < (p ++ [a]).length) = false := by simp
      rw [hmod, hend]
      simp [iterAt, iterStep, hnext, hs, clistIterSetStep]
    | cons b q =>
      have hnext : next a = some b := hring.linked_of_append.1
      have hb : b ≠ s := hring.ne_head hs
      have hmod : (p.length + 1 + 1) % ((p ++ a :: b :: q).length + 1) = p.length + 2 := by
        refine Nat.mod_eq_of_lt ?_
        simp only [List.length_append, List.length_cons]
        omega
      have hmore : decide (p.length + 1 < (p ++ a :: b :: q).length) = true := by simp
      rw [hmod, hmore]
      simp [iterAt, iterStep, hnext, hs, clistIterSetStep, hb]

theorem reading_getElem {h : CHeap α} {l : List Ptr} (hdata : ∀ x ∈ l, ∃ d, h.dataOf x = some d)
    (j : Nat) : (reading h l)[j]? = (l[j]?).bind h.dataOf := by
  induction l generalizing j with
  | nil => simp [reading]
  | cons a l ih =>
    obtain ⟨d, hd⟩ := hdata a List.mem_cons_self
    rw [reading_cons l hd]
    cases j with
    | zero => simp [hd]
    | succ j =>
      rw [List.getElem?_cons_succ, List.getElem?_cons_succ]
      exact ih (fun x hx => hdata x (List.mem_cons_of_mem a hx)) j

theorem clistIterData_iterAt {h : CHeap α} {l : List Ptr}
    (hdata : ∀ x ∈ l, ∃ d, h.dataOf x = some d) {j : Nat} (hj : j < l.length) :
    clistIterData h (iterAt l (j + 1)) = (reading h l)[j]? := by
  obtain ⟨a, ha⟩ : ∃ a, l[j]? = some a := ⟨_, List.getElem?_eq_getElem hj⟩
  have hhead : l.head?.isSome = true := by
    cases l with
    | nil => cases hj
    | cons b l => rfl
  rw [reading_getElem hdata, ha]
  simp only [clistIterData, iterAt, ha, clistIterValid, hhead, Option.bind_eq_bind,
    Option.bind_some, Option.isSome_some, Bool.and_self, if_true, CHeap.dataOf]
  cases h.cells a <;> rfl

/-- Calls from any position: the invariant is that the iterator is at that position. -/
theorem iterCalls_iterAt {h : CHeap α} {next prev : Ptr → Option Ptr} {l : List Ptr}
    (hring : IsRing next prev l) (hdata : ∀ x ∈ l, ∃ d, h.dataOf x = some d) :
    ∀ (k : Nat) {j : Nat}, j ≤ l.length →
      iterCalls h (iterStep next) k (iterAt l j) =
        some ((List.range k).map fun i => (reading h l)[(j + i) % (l.length + 1)]?)
  | 0, _, _ => rfl
  | k + 1, j, hj => by
    have hlen : (reading h l).length = l.length := reading_length_of hdata
    have hnext : (j + 1) % (l.length + 1) ≤ l.length :=
      Nat.le_of_lt_succ (Nat.mod_lt _ (Nat.succ_pos _))
    have ih := iterCalls_iterAt hring hdata k hnext
    have hpos : ∀ i, ((j + 1) % (l.length + 1) + i) % (l.length + 1) =
        (j + (i + 1)) % (l.length + 1) := by
      intro i
      rw [Nat.mod_add_mod, Nat.add_assoc, Nat.add_comm 1 i]
    have hfirst : iterPresented h (decide (j < l.length)) (iterAt l ((j + 1) % (l.length + 1))) =
        some ((reading h l)[j]?) := by
      by_cases hlt : j < l.length
      · rw [decide_eq_true hlt, Nat.mod_eq_of_lt (Nat.succ_lt_succ hlt), iterPresented, if_pos rfl,
          clistIterData_iterAt hdata hlt, List.getElem?_eq_getElem (hlen ▸ hlt)]
        rfl
      · rw [decide_eq_false hlt, List.getElem?_eq_none (by omega)]
        rfl
    have hj0 : (j + 0) % (l.length + 1) = j := Nat.mod_eq_of_lt (Nat.lt_succ_of_le hj)
    rw [List.range_succ_eq_map, List.map_cons, List.map_map, hj0]
    simp only [iterCalls, iterStep_iterAt hring hj, Option.bind_eq_bind, Option.bind_some, hfirst,
      ih, hpos]
    rfl

/-- The items in backward order, the first one first. -/
def backward (r : List α) : List α := r.head?.toList ++ r.tail.reverse

/-- **An iterator presents the items of its ring, nothing once, and then the items again**: from
the node it was made with forward, or that node first and then the others backward. -/
theorem iterCalls_spec {h : CHeap α} {top : Option Ptr} {l : List Ptr} (hr : RingAt h top l)
    (k : Nat) :
    iterCalls h (clistIterNext h) k (clistIterNew top) =
        some ((List.range k).map fun i => (reading h l)[i % ((reading h l).length + 1)]?) ∧
      iterCalls h (clistIterPrev h) k (clistIterNew top) =
        some ((List.range k).map fun i =>
          (backward (reading h l))[i % ((reading h l).length + 1)]?) := by
  have hlen := reading_length hr
  have hnew : ∀ l' : List Ptr, l'.head? = top → clistIterNew top = iterAt l' 0 := by
    rintro l' rfl
    rfl
  constructor
  · rw [clistIterNext_eq, hnew l hr.head.symm,
      iterCalls_iterAt hr.ring (fun _ hx => hr.dataOf hx) k (Nat.zero_le _), hlen]
    simp only [Nat.zero_add]
  · cases l with
    | nil =>
      have hempty := iterCalls_iterAt (h := h) (IsRing.nil : IsRing h.prevOf h.nextOf [])
        (fun x hx => nomatch hx) k (Nat.zero_le _)
      rw [clistIterPrev_eq, hnew [] hr.head.symm, hempty]
      rfl
    | cons a t =>
      have hdata : ∀ x ∈ a :: t.reverse, ∃ d, h.dataOf x = some d := by
        intro x hx
        refine hr.dataOf (a := x) ?_
        simpa using hx
      have hback : reading h (a :: t.reverse) = backward (reading h (a :: t)) := by
        obtain ⟨d, hd⟩ := hdata a List.mem_cons_self
        rw [reading_cons _ hd, reading_cons _ hd, reading_reverse]
        rfl
      rw [clistIterPrev_eq, hnew (a :: t.reverse) hr.head.symm,
        iterCalls_iterAt hr.ring.flip hdata k (Nat.zero_le _), hback, hlen]
      simp only [Nat.zero_add, List.length_cons, List.length_reverse]

/-! ## `clist_foreach` -/

section Foreach

variable {σ : Type} (listCb : α → σ → Bool × σ)

/-- What a callback answers when it is called on items one after the other, and its state then. -/
def callAll : List α → σ → List Bool × σ
  | [], s => ([], s)
  | d :: r, s =>
    let answer := listCb d s
    let rest := callAll r answer.2
    (answer.1 :: rest.1, rest.2)

/-- The callback was called on the first items, up to and including the first one it said no to;
the result is whether there was none. -/
def ForeachOk (r : List α) (s : σ) (res : Option (Bool × σ)) : Prop :=
  ∃ calls rest ret, r = calls ++ rest ∧ res = some (ret, (callAll listCb calls s).2) ∧
    (ret = true → rest = [] ∧ ∀ b ∈ (callAll listCb calls s).1, b = true) ∧
    (ret = false → ∃ bs, (callAll listCb calls s).1 = bs ++ [false] ∧ ∀ b ∈ bs, b = true)

variable {listCb}

theorem ForeachOk.done (s : σ) : ForeachOk listCb [] s (some (true, s)) :=
  ⟨[], [], true, rfl, rfl, fun _ => ⟨rfl, fun _ hb => absurd hb List.not_mem_nil⟩,
    fun h => (nomatch h)⟩

theorem ForeachOk.stop {d : α} {r : List α} {s s' : σ} (hcb : listCb d s = (false, s')) :
    ForeachOk listCb (d :: r) s (some (false, s')) := by
  have hcall : callAll listCb [d] s = ([false], s') := by simp [callAll, hcb]
  refine ⟨[d], r, false, rfl, by rw [hcall], ⟨fun h => (nomatch h), fun _ => ⟨[], ?_, ?_⟩⟩⟩
  · rw [hcall]
    rfl
  · exact fun b hb => absurd hb List.not_mem_nil

theorem ForeachOk.next {d : α} {r : List α} {s s' : σ} {res : Option (Bool × σ)}
    (hcb : listCb d s = (true, s')) (h : ForeachOk listCb r s' res) :
    ForeachOk listCb (d :: r) s res := by
  obtain ⟨calls, rest, ret, rfl, hres, htrue, hfalse⟩ := h
  have hcall : callAll listCb (d :: calls) s =
      (true :: (callAll listCb calls s').1, (callAll listCb calls s').2) := by
    simp [callAll, hcb]
  refine ⟨d :: calls, rest, ret, rfl, ?_, fun h => ?_, fun h => ?_⟩
  · rw [hcall, hres]
  · obtain ⟨hrest, hall⟩ := htrue h
    refine ⟨hrest, fun b hb => ?_⟩
    rw [hcall] at hb
    rcases List.mem_cons.mp hb with rfl | hb
    · rfl
    · exact hall b hb
  · obtain ⟨bs, hbs, hall⟩ := hfalse h
    refine ⟨true :: bs, by rw [hcall, hbs]; rfl, fun b hb => ?_⟩
    rcases List.mem_cons.mp hb with rfl | hb
    · rfl
    · exact hall b hb

/-- The loop from a node of the ring: the invariant is that it has `q` ahead of it. -/
theorem clistForeachLoop_ring {h : CHeap α} {self : Ptr} :
    ∀ (q p : List Ptr) (a : Ptr) (fuel : Nat) (s : σ), RingAt h (some self) (p ++ a :: q) →
      q.length < fuel →
        ForeachOk listCb (reading h (a :: q)) s (clistForeachLoop h listCb self fuel a s)
  | [], p, a, fuel + 1, s, hr, _ => by
    obtain ⟨c, hc, hself⟩ := nextOf_eq_some (hr.ring.next_last hr.head.symm)
    have hd : h.dataOf a = some c.data := by rw [CHeap.dataOf, hc]; rfl
    rw [reading_singleton hd]
    cases hcb : listCb c.data s with
    | mk answer s' =>
      cases answer with
      | false => simpa [clistForeachLoop, hc, hcb] using ForeachOk.stop hcb
      | true => simpa [clistForeachLoop, hc, hcb, hself] using (ForeachOk.done s').next hcb
  | b :: q, p, a, fuel + 1, s, hr, hf => by
    obtain ⟨c, hc, hnext⟩ := nextOf_eq_some hr.ring.linked_of_append.1
    have hself : b ≠ self := fun e => hr.next_ne_top (congrArg some e)
    have hd : h.dataOf a = some c.data := by rw [CHeap.dataOf, hc]; rfl
    have hr' : RingAt h (some self) ((p ++ [a]) ++ b :: q) := by simpa using hr
    rw [reading_cons (b :: q) hd]
    cases hcb : listCb c.data s with
    | mk answer s' =>
      cases answer with
      | false => simpa [clistForeachLoop, hc, hcb] using ForeachOk.stop hcb
      | true =>
        have ih := clistForeachLoop_ring q (p ++ [a]) b fuel s' hr' (by simpa using hf)
        simpa [clistForeachLoop, hc, hcb, hself, hnext] using ih.next hcb

/-- **`clist_foreach`** calls its callback in ring order, as long as it says yes. -/
theorem clistForeach_spec {h : CHeap α} {top : Option Ptr} {l : List Ptr} (hr : RingAt h top l)
    (s : σ) : ForeachOk listCb (reading h l) s (clistForeach h top listCb s) := by
  obtain ⟨hring, rfl⟩ := hr
  cases l with
  | nil => exact ForeachOk.done s
  | cons a l =>
    have hr : RingAt h (some a) (a :: l) := ⟨hring, rfl⟩
    exact clistForeachLoop_ring l [] a _ s hr (Nat.lt_succ_of_lt hr.length_le)

end Foreach

/-- **The two ways round a ring**, by an iterator or by `clist_foreach`. -/
theorem clist_loops_spec {h : CHeap α} {top : Option Ptr} {l : List Ptr} (hr : RingAt h top l) :
    (∀ k, iterCalls h (clistIterNext h) k (clistIterNew top) =
        some ((List.range k).map fun i => (reading h l)[i % ((reading h l).length + 1)]?)) ∧
      (∀ k, iterCalls h (clistIterPrev h) k (clistIterNew top) =
        some ((List.range k).map fun i =>
          (backward (reading h l))[i % ((reading h l).length + 1)]?)) ∧
      ∀ (σ : Type) (listCb : α → σ → Bool × σ) (s : σ),
        ForeachOk listCb (reading h l) s (clistForeach h top listCb s) :=
  ⟨fun k => (iterCalls_spec hr k).1, fun k => (iterCalls_spec hr k).2,
    fun _ _ s => clistForeach_spec hr s⟩

/-- Two items, twice round in either direction. -/
theorem clist_loops_spec_two :
    ∃ (h : CHeap Nat) (top : Option Ptr), Reads h top [1, 2] ∧
      iterCalls h (clistIterNext h) 6 (clistIterNew top) =
        some [some 1, some 2, none, some 1, some 2, none] ∧
      iterCalls h (clistIterPrev h) 3 (clistIterNew top) = some [some 1, some 2, none] ∧
      ForeachOk (fun d n => (decide (d ≠ 1), n + 1)) [1, 2] 0
        (clistForeach h top (fun d n => (decide (d ≠ 1), n + 1)) 0) := by
  obtain ⟨h, top, l, hr, hread⟩ := exists_reads [1, 2]
  obtain ⟨hnext, hprev, heach⟩ := clist_loops_spec hr
  rw [hread] at hnext hprev heach
  exact ⟨h, top, ⟨l, hr, hread⟩, hnext 6, hprev 3, heach _ _ 0⟩

/-! ## `clist_destroy` -/

/-- The data handed to the destroy callback. -/
def Release.destroyed : Release α → Option α
  | .destroy data => some data
  | .sliceFree _ => none

/-- The node given back. -/
def Release.freed : Release α → Option Ptr
  | .destroy _ => none
  | .sliceFree node => some node

/-- The call comes back, with no access to a node that it has released; the callback had every
item, and every node is released, once. -/
def DestroyedAll (h : CHeap α) (top : Option Ptr) (l : List Ptr) (destroy : Bool) : Prop :=
  ∃ h' log, clistDestroy h top destroy = some h' ∧ h'.released = h.released ++ log ∧
    (log.filterMap Release.destroyed).Perm (if destroy then reading h l else []) ∧
    (log.filterMap Release.freed).Perm l

/-- What the body of the loop releases. -/
def releaseOf (destroy : Bool) (node : Ptr) (data : α) : List (Release α) :=
  (if destroy then [.destroy data] else []) ++ [.sliceFree node]

/-- The end of the body, and of `clist_remove`. -/
theorem release_released {h h' : CHeap α} {destroy : Bool} {a : Ptr} {d : α}
    (hf : (h.destroyData destroy d).sliceFree a = some h') :
    h'.released = h.released ++ releaseOf destroy a d := by
  unfold CHeap.sliceFree at hf
  split at hf
  · cases hf
    rw [CHeap.destroyData, releaseOf]
    split
    · rw [List.append_assoc]
    · rw [List.nil_append]
  · cases hf

/-- **The loop stops after the node it starts with**, whose pointer never changes. -/
theorem clistDestroy_cons {h : CHeap α} {a : Ptr} {l : List Ptr} (destroy : Bool)
    (hr : RingAt h (some a) (a :: l)) :
    ∃ h' d, h.dataOf a = some d ∧ clistDestroy h (some a) destroy = some h' ∧
      h'.released = h.released ++ releaseOf destroy a d := by
  obtain ⟨c, hc⟩ := hr.allocated (a := a) List.mem_cons_self
  have hd : ((h.destroyData destroy c.data).cells a).isSome := by rw [destroyData_cells, hc]; rfl
  obtain ⟨h', hf⟩ := sliceFree_some hd
  refine ⟨h', c.data, by rw [CHeap.dataOf, hc]; rfl, ?_, release_released hf⟩
  simp [clistDestroy, clistDestroyLoop, hc, hf]

theorem eq_nil_of_cons_le_one {β : Type} {b : β} {l : List β} (h : (b :: l).length ≤ 1) : l = [] :=
  List.length_eq_zero_iff.mp (Nat.le_zero.mp (Nat.le_of_succ_le_succ h))

/-- **`clist_destroy` releases a ring exactly when it has at most one item.** -/
theorem destroyed_iff {h : CHeap α} {top : Option Ptr} {l : List Ptr} (destroy : Bool)
    (hr : RingAt h top l) : DestroyedAll h top l destroy ↔ (reading h l).length ≤ 1 := by
  rw [reading_length hr]
  obtain ⟨hring, rfl⟩ := hr
  cases l with
  | nil =>
    refine iff_of_true ⟨h, [], rfl, (List.append_nil _).symm, ?_, List.Perm.refl _⟩ (Nat.zero_le 1)
    cases destroy <;> exact List.Perm.refl _
  | cons a l =>
    have hr : RingAt h (some a) (a :: l) := ⟨hring, rfl⟩
    obtain ⟨h', d, hd, hdestroy, hrel⟩ := clistDestroy_cons destroy hr
    have hfreed : (releaseOf destroy a d).filterMap Release.freed = [a] := by
      cases destroy <;> rfl
    constructor
    · rintro ⟨h1, log, hdestroy', hrel', _, hfree⟩
      have hh : h1 = h' := Option.some.inj (hdestroy'.symm.trans hdestroy)
      rw [hh, hrel] at hrel'
      rw [← List.append_cancel_left hrel', hfreed] at hfree
      have hlen := hfree.length_eq
      rw [List.length_singleton] at hlen
      rw [List.head?_cons] at *
      exact Nat.le_of_eq hlen.symm
    · intro hlen
      obtain rfl : l = [] := eq_nil_of_cons_le_one hlen
      refine ⟨h', releaseOf destroy a d, hdestroy, hrel, ?_, by rw [hfreed]⟩
      rw [reading_singleton hd]
      cases destroy <;> exact List.Perm.refl _

theorem destroyed_single :
    ∃ (h : CHeap Nat) (top : Option Ptr) (l : List Ptr), RingAt h top l ∧ reading h l = [1] ∧
      DestroyedAll h top l true := by
  obtain ⟨h, top, l, hr, hread⟩ := exists_reads [1]
  exact ⟨h, top, l, hr, hread, (destroyed_iff true hr).mpr (by rw [hread]; decide)⟩

/-- Of two items the second is not destroyed. -/
theorem destroyed_two :
    ¬ ∀ (h : CHeap Nat) (top : Option Ptr) (l : List Ptr), RingAt h top l →
      DestroyedAll h top l true := by
  intro hall
  obtain ⟨h, top, l, hr, hread⟩ := exists_reads [1, 2]
  have hlen := (destroyed_iff true hr).mp (hall h top l hr)
  rw [hread] at hlen
  exact absurd hlen (by decide)

end Tinu
