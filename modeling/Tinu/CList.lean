import Tinu.Basic
import Tinu.Lib.LinkedRing

/-!
# Circular lists on a heap (`clist.c`)

The nodes of a `CList` live on a heap of slices.  Reading, writing or releasing a node that is
not allocated is a fault, and a fault is `none`; so is a failing `g_assert`.  The heap hands
out a new address at every allocation, so an access after release is always seen as one.

This file has the functions of `clist.c`, the shape predicate `RingAt` (a well-formed ring read
from a node of it) and what one heap step does to it.
-/

set_option autoImplicit false

namespace Tinu

open LinkedRing

variable {α : Type}

/-- `struct _CList`. -/
structure CList (α : Type) where
  data : α
  next : Ptr
  prev : Ptr
  deriving DecidableEq, Repr

/-- What a list operation does besides rewriting links: it hands data to the destroy callback
and gives nodes back to the slice allocator. -/
inductive Release (α : Type) where
  | destroy (data : α)
  | sliceFree (node : Ptr)
  deriving DecidableEq, Repr

/-- The slice heap.  `brk` is the next address to be handed out; nothing at or above it is
allocated. -/
structure CHeap (α : Type) where
  cells : Ptr → Option (CList α)
  brk : Nat
  released : List (Release α)
  fresh : ∀ a : Nat, brk ≤ a → cells a = none

def CHeap.empty : CHeap α := ⟨fun _ => none, 1, [], fun _ _ => rfl⟩

/-- `g_slice_new0` followed by the stores into the new node. -/
def CHeap.sliceNew (h : CHeap α) (c : CList α) : CHeap α :=
  { h with
    cells := fun x => if x = h.brk then some c else h.cells x
    brk := h.brk + 1
    fresh := fun a ha => by
      rw [if_neg (Nat.ne_of_gt ha)]; exact h.fresh a (Nat.le_of_succ_le ha) }

/-- A store through a node pointer. -/
def CHeap.modify (h : CHeap α) (a : Ptr) (f : CList α → CList α) : Option (CHeap α) :=
  if (h.cells a).isSome then
    some { h with
      cells := fun x => if x = a then (h.cells a).map f else h.cells x
      fresh := fun x hx => by
        split
        · rename_i e; subst e; rw [h.fresh x hx]; rfl
        · exact h.fresh x hx }
  else none

/-- `g_slice_free`. -/
def CHeap.sliceFree (h : CHeap α) (a : Ptr) : Option (CHeap α) :=
  if (h.cells a).isSome then
    some { h with
      cells := fun x => if x = a then none else h.cells x
      released := h.released ++ [.sliceFree a]
      fresh := fun x hx => by split; exact rfl; exact h.fresh x hx }
  else none

/-- `if (destroy) destroy (data)`. -/
def CHeap.destroyData (h : CHeap α) (destroy : Bool) (data : α) : CHeap α :=
  if destroy then { h with released := h.released ++ [.destroy data] } else h

def CHeap.nextOf (h : CHeap α) (a : Ptr) : Option Ptr := (h.cells a).map (·.next)

def CHeap.prevOf (h : CHeap α) (a : Ptr) : Option Ptr := (h.cells a).map (·.prev)

def CHeap.dataOf (h : CHeap α) (a : Ptr) : Option α := (h.cells a).map (·.data)

/-! ## List operations -/

/-- `clist_append`. -/
def clistAppend (h : CHeap α) (self : Option Ptr) (data : α) : Option (Ptr × CHeap α) :=
  let newItem := h.brk
  match self with
  | none => some (newItem, h.sliceNew ⟨data, newItem, newItem⟩)
  | some self => do
    let c ← h.cells self
    let h ← (h.sliceNew ⟨data, self, c.prev⟩).modify c.prev (fun p => { p with next := newItem })
    let h ← h.modify self (fun s => { s with prev := newItem })
    some (self, h)

/-- `clist_prepend`. -/
def clistPrepend (h : CHeap α) (self : Option Ptr) (data : α) : Option (Ptr × CHeap α) := do
  let (nlist, h) ← clistAppend h self data
  let c ← h.cells nlist
  some (c.prev, h)

/-- `clist_remove`. -/
def clistRemove (h : CHeap α) (self : Option Ptr) (destroy : Bool) :
    Option (Option Ptr × CHeap α) :=
  match self with
  | none => some (none, h)
  | some self => do
    let c ← h.cells self
    if c.next = self then
      let h ← (h.destroyData destroy c.data).sliceFree self
      some (none, h)
    else do
      let h ← h.modify c.next (fun n => { n with prev := c.prev })
      let h ← h.modify c.prev (fun p => { p with next := c.next })
      let c ← h.cells self
      let h ← (h.destroyData destroy c.data).sliceFree self
      some (some c.next, h)

/-- The `do … while (act != self)` loop of `clist_destroy`: the successor is read into a
variable that the loop never goes on from, so `act` keeps its value. -/
def clistDestroyLoop (self : Ptr) (destroy : Bool) : Nat → Ptr → CHeap α → Option (CHeap α)
  | 0, _, _ => none
  | fuel + 1, act, h => do
    let c ← h.cells act
    let h ← (h.destroyData destroy c.data).sliceFree act
    if act ≠ self then clistDestroyLoop self destroy fuel act h else some h

/-- `clist_destroy`. -/
def clistDestroy (h : CHeap α) (self : Option Ptr) (destroy : Bool) : Option (CHeap α) :=
  match self with
  | none => some h
  | some self => clistDestroyLoop self destroy (h.brk + 1) self h

/-- The loop of `clist_foreach`; the callback has a state of its own. -/
def clistForeachLoop {σ : Type} (h : CHeap α) (listCb : α → σ → Bool × σ) (self : Ptr) :
    Nat → Ptr → σ → Option (Bool × σ)
  | 0, _, _ => none
  | fuel + 1, act, userData => do
    let c ← h.cells act
    match listCb c.data userData with
    | (false, userData) => some (false, userData)
    | (true, userData) =>
      if c.next ≠ self then clistForeachLoop h listCb self fuel c.next userData
      else some (true, userData)

/-- `clist_foreach`. -/
def clistForeach {σ : Type} (h : CHeap α) (self : Option Ptr) (listCb : α → σ → Bool × σ)
    (userData : σ) : Option (Bool × σ) :=
  match self with
  | none => some (true, userData)
  | some self => clistForeachLoop h listCb self (h.brk + 1) self userData

/-! ## Iterators -/

/-- `struct _CListIterator`. -/
structure CListIterator where
  start : Option Ptr
  act : Option Ptr
  deriving DecidableEq, Repr

/-- `_clist_iter_set_step`. -/
def clistIterSetStep (iter : CListIterator) (next : Option Ptr) : Bool × CListIterator :=
  if iter.start.isNone then (false, iter)
  else if iter.act.isNone then (true, { iter with act := iter.start })
  else if next = iter.start then (false, { iter with act := none })
  else (true, { iter with act := next })

/-- `clist_iter_new`. -/
def clistIterNew (list : Option Ptr) : CListIterator := ⟨list, none⟩

/-- `clist_iter_valid`. -/
def clistIterValid (iter : CListIterator) : Bool := iter.start.isSome && iter.act.isSome

/-- `clist_iter_next`. -/
def clistIterNext (h : CHeap α) (iter : CListIterator) : Option (Bool × CListIterator) :=
  match iter.act with
  | none => some (clistIterSetStep iter none)
  | some act => do
    let c ← h.cells act
    some (clistIterSetStep iter (some c.next))

/-- `clist_iter_prev`. -/
def clistIterPrev (h : CHeap α) (iter : CListIterator) : Option (Bool × CListIterator) :=
  match iter.act with
  | none => some (clistIterSetStep iter none)
  | some act => do
    let c ← h.cells act
    some (clistIterSetStep iter (some c.prev))

/-- `clist_iter_data`. -/
def clistIterData (h : CHeap α) (iter : CListIterator) : Option α := do
  let act ← iter.act
  if clistIterValid iter then
    let c ← h.cells act
    some c.data
  else none

/-- `clist_iter_remove`. -/
def clistIterRemove (h : CHeap α) (iter : CListIterator) (destroy : Bool) :
    Option (CListIterator × CHeap α) := do
  let act ← iter.act
  let (res, h) ← clistRemove h (some act) destroy
  some (⟨if iter.act = iter.start then res else iter.start, res⟩, h)

/-- `for (iter = clist_iter_new(l); clist_iter_next(iter); ) … clist_iter_data(iter) …`, with
the data presented to the body, in order. -/
def iterCollect (h : CHeap α) : Nat → CListIterator → Option (List α)
  | 0, _ => none
  | fuel + 1, iter => do
    let (more, iter) ← clistIterNext h iter
    if more then
      let data ← clistIterData h iter
      let rest ← iterCollect h fuel iter
      some (data :: rest)
    else some []

/-- `for (iter = clist_iter_new(l); clist_iter_next(iter); ) if (P) clist_iter_remove(iter, …)`. -/
def iterFilter (P : α → Bool) (destroy : Bool) :
    Nat → CHeap α → CListIterator → Option (CHeap α × CListIterator)
  | 0, _, _ => none
  | fuel + 1, h, iter => do
    let (more, iter) ← clistIterNext h iter
    if more then
      let data ← clistIterData h iter
      if P data then
        let (iter, h) ← clistIterRemove h iter destroy
        iterFilter P destroy fuel h iter
      else iterFilter P destroy fuel h iter
    else some (h, iter)

/-! ## Rings on the heap -/

/-- `l` are the nodes of a well-formed ring, read from `top`. -/
structure RingAt (h : CHeap α) (top : Option Ptr) (l : List Ptr) : Prop where
  ring : IsRing h.nextOf h.prevOf l
  head : top = l.head?

/-- The items of a ring. -/
def reading (h : CHeap α) (l : List Ptr) : List α := l.filterMap h.dataOf

/-- Nothing outside `l` is touched between the two heaps, and nothing is allocated in `l`. -/
structure FrameOff (l : List Ptr) (h h' : CHeap α) : Prop where
  cells : ∀ x, x ∉ l → h'.cells x = h.cells x
  brk : h'.brk = h.brk

theorem FrameOff.refl (l : List Ptr) (h : CHeap α) : FrameOff l h h := ⟨fun _ _ => rfl, rfl⟩

theorem FrameOff.trans {l l' : List Ptr} {h h' h'' : CHeap α} (h1 : FrameOff l h h')
    (h2 : FrameOff l' h' h'') (hl : ∀ x ∈ l', x ∈ l) : FrameOff l h h'' :=
  ⟨fun x hx => by rw [h2.cells x (fun h => hx (hl x h)), h1.cells x hx], by rw [h2.brk, h1.brk]⟩

/-! ### Single heap steps -/

theorem modify_some {h : CHeap α} {a : Ptr} (f : CList α → CList α) (ha : (h.cells a).isSome) :
    ∃ h', h.modify a f = some h' := by
  unfold CHeap.modify
  rw [if_pos ha]
  exact ⟨_, rfl⟩

theorem modify_cells {h h' : CHeap α} {a : Ptr} {f : CList α → CList α}
    (hm : h.modify a f = some h') :
    h'.cells = Function.update h.cells a ((h.cells a).map f) ∧ h'.brk = h.brk := by
  unfold CHeap.modify at hm
  split at hm
  · cases hm
    refine ⟨funext fun x => ?_, rfl⟩
    by_cases hx : x = a <;> simp [hx]
  · cases hm

/-- A store allocates nothing and releases nothing. -/
theorem modify_isSome {h h' : CHeap α} {a : Ptr} {f : CList α → CList α}
    (hm : h.modify a f = some h') (x : Ptr) : (h'.cells x).isSome = (h.cells x).isSome := by
  rw [(modify_cells hm).1]
  by_cases hx : x = a
  · subst hx
    rw [Function.update_self, Option.isSome_map]
  · rw [Function.update_of_ne hx]

theorem modify_next {h h' : CHeap α} {a v : Ptr}
    (hm : h.modify a (fun c => { c with next := v }) = some h') (ha : (h.cells a).isSome) :
    h'.nextOf = Function.update h.nextOf a (some v) ∧ h'.prevOf = h.prevOf ∧
      h'.dataOf = h.dataOf := by
  obtain ⟨c, hc⟩ := Option.isSome_iff_exists.mp ha
  obtain ⟨hcells, _⟩ := modify_cells hm
  refine ⟨funext fun x => ?_, funext fun x => ?_, funext fun x => ?_⟩
  all_goals by_cases hx : x = a
  all_goals simp [CHeap.nextOf, CHeap.prevOf, CHeap.dataOf, hcells, hx, hc]

theorem modify_prev {h h' : CHeap α} {a v : Ptr}
    (hm : h.modify a (fun c => { c with prev := v }) = some h') (ha : (h.cells a).isSome) :
    h'.prevOf = Function.update h.prevOf a (some v) ∧ h'.nextOf = h.nextOf ∧
      h'.dataOf = h.dataOf := by
  obtain ⟨c, hc⟩ := Option.isSome_iff_exists.mp ha
  obtain ⟨hcells, _⟩ := modify_cells hm
  refine ⟨funext fun x => ?_, funext fun x => ?_, funext fun x => ?_⟩
  all_goals by_cases hx : x = a
  all_goals simp [CHeap.nextOf, CHeap.prevOf, CHeap.dataOf, hcells, hx, hc]

/-- `m_next` of one node and `m_prev` of another were set, and nothing else. -/
structure Relinked (h h' : CHeap α) (p u s v : Ptr) : Prop where
  next : h'.nextOf = Function.update h.nextOf p (some u)
  prev : h'.prevOf = Function.update h.prevOf s (some v)
  data : h'.dataOf = h.dataOf
  cells : ∀ x, x ≠ p → x ≠ s → h'.cells x = h.cells x
  brk : h'.brk = h.brk

theorem exists_relinked_next {h : CHeap α} {p s : Ptr} (u v : Ptr) (hp : (h.cells p).isSome)
    (hs : (h.cells s).isSome) :
    ∃ h1 h2, h.modify p (fun c => { c with next := u }) = some h1 ∧
      h1.modify s (fun c => { c with prev := v }) = some h2 ∧ Relinked h h2 p u s v := by
  obtain ⟨h1, hm1⟩ := modify_some (fun c => { c with next := u }) hp
  have hs1 : (h1.cells s).isSome := by rwa [modify_isSome hm1]
  obtain ⟨h2, hm2⟩ := modify_some (fun c => { c with prev := v }) hs1
  obtain ⟨next1, prev1, data1⟩ := modify_next hm1 hp
  obtain ⟨prev2, next2, data2⟩ := modify_prev hm2 hs1
  obtain ⟨cells1, brk1⟩ := modify_cells hm1
  obtain ⟨cells2, brk2⟩ := modify_cells hm2
  refine ⟨h1, h2, hm1, hm2, by rw [next2, next1], by rw [prev2, prev1], by rw [data2, data1],
    fun x hxp hxs => ?_, by rw [brk2, brk1]⟩
  rw [cells2, Function.update_of_ne hxs, cells1, Function.update_of_ne hxp]

theorem exists_relinked_prev {h : CHeap α} {p s : Ptr} (u v : Ptr) (hp : (h.cells p).isSome)
    (hs : (h.cells s).isSome) :
    ∃ h1 h2, h.modify s (fun c => { c with prev := v }) = some h1 ∧
      h1.modify p (fun c => { c with next := u }) = some h2 ∧ Relinked h h2 p u s v := by
  obtain ⟨h1, hm1⟩ := modify_some (fun c => { c with prev := v }) hs
  have hp1 : (h1.cells p).isSome := by rwa [modify_isSome hm1]
  obtain ⟨h2, hm2⟩ := modify_some (fun c => { c with next := u }) hp1
  obtain ⟨prev1, next1, data1⟩ := modify_prev hm1 hs
  obtain ⟨next2, prev2, data2⟩ := modify_next hm2 hp1
  obtain ⟨cells1, brk1⟩ := modify_cells hm1
  obtain ⟨cells2, brk2⟩ := modify_cells hm2
  refine ⟨h1, h2, hm1, hm2, by rw [next2, next1], by rw [prev2, prev1], by rw [data2, data1],
    fun x hxp hxs => ?_, by rw [brk2, brk1]⟩
  rw [cells2, Function.update_of_ne hxp, cells1, Function.update_of_ne hxs]

theorem sliceFree_some {h : CHeap α} {a : Ptr} (ha : (h.cells a).isSome) :
    ∃ h', h.sliceFree a = some h' := by
  unfold CHeap.sliceFree
  rw [if_pos ha]
  exact ⟨_, rfl⟩

theorem sliceFree_cells {h h' : CHeap α} {a : Ptr} (hf : h.sliceFree a = some h') :
    h'.cells = Function.update h.cells a none ∧ h'.brk = h.brk := by
  unfold CHeap.sliceFree at hf
  split at hf
  · cases hf
    refine ⟨funext fun x => ?_, rfl⟩
    by_cases hx : x = a <;> simp [hx]
  · cases hf

@[simp] theorem destroyData_cells (h : CHeap α) (b : Bool) (d : α) :
    (h.destroyData b d).cells = h.cells := by
  unfold CHeap.destroyData; split <;> rfl

@[simp] theorem destroyData_brk (h : CHeap α) (b : Bool) (d : α) :
    (h.destroyData b d).brk = h.brk := by
  unfold CHeap.destroyData; split <;> rfl

/-- An allocated node lies below the break. -/
theorem CHeap.lt_brk {h : CHeap α} {a : Ptr} {c : CList α} (ha : h.cells a = some c) :
    a < h.brk := by
  by_contra hge
  rw [h.fresh a (Nat.le_of_not_lt hge)] at ha
  cases ha

theorem nextOf_eq_some {h : CHeap α} {a b : Ptr} (hn : h.nextOf a = some b) :
    ∃ c, h.cells a = some c ∧ c.next = b := by
  simpa [CHeap.nextOf] using hn

theorem prevOf_eq_some {h : CHeap α} {a b : Ptr} (hp : h.prevOf a = some b) :
    ∃ c, h.cells a = some c ∧ c.prev = b := by
  simpa [CHeap.prevOf] using hp

/-! ### Facts about rings -/

theorem RingAt.allocated {h : CHeap α} {top : Option Ptr} {l : List Ptr} (hr : RingAt h top l)
    {a : Ptr} (ha : a ∈ l) : ∃ c, h.cells a = some c := by
  obtain ⟨p, q, rfl⟩ := List.append_of_mem ha
  obtain ⟨c, hc, _⟩ := nextOf_eq_some hr.ring.next_of_append
  exact ⟨c, hc⟩

theorem RingAt.lt_brk {h : CHeap α} {top : Option Ptr} {l : List Ptr} (hr : RingAt h top l)
    {a : Ptr} (ha : a ∈ l) : a < h.brk := by
  obtain ⟨c, hc⟩ := hr.allocated ha
  exact CHeap.lt_brk hc

theorem RingAt.brk_notMem {h : CHeap α} {top : Option Ptr} {l : List Ptr}
    (hr : RingAt h top l) : h.brk ∉ l :=
  fun hm => Nat.lt_irrefl _ (hr.lt_brk hm)

/-- The nodes of a ring are at most as many as addresses were handed out. -/
theorem RingAt.length_le {h : CHeap α} {top : Option Ptr} {l : List Ptr}
    (hr : RingAt h top l) : l.length ≤ h.brk := by
  have hsub : l ⊆ List.range h.brk := fun a ha => List.mem_range.mpr (hr.lt_brk ha)
  simpa using (List.subperm_of_subset hr.ring.nodup hsub).length_le

theorem reading_congr {h h' : CHeap α} {l : List Ptr}
    (hd : ∀ x ∈ l, h'.dataOf x = h.dataOf x) : reading h' l = reading h l :=
  List.filterMap_congr fun x hx => hd x hx

end Tinu
