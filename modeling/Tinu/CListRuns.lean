import Tinu.CListRing

/-!
# Circular lists as lists (`clist.c`)

A pointer into a ring stands for the list of items read from it.  The operations of `clist.c` are
then those on lists, at whatever node of the ring they are applied.

* `clistAppend_reads`, `clistPrepend_reads`, `clistRemove_reads` — one operation at the node that a
  ring is read from;
* `readForward_eq`, `readBackward_eq` — walking the links of a ring gives its items, or their
  reverse;
* `listRun_spec` — any operations at any nodes: the ring is well formed, and holds the items
  inserted and not removed.
-/

set_option autoImplicit false

namespace Tinu

open LinkedRing

variable {α : Type}

/-! ## Reading a ring -/

/-- The list is a well-formed ring that reads `r` from its head. -/
def Reads (h : CHeap α) (top : Option Ptr) (r : List α) : Prop :=
  ∃ l, RingAt h top l ∧ reading h l = r

/-- The items met from a node on, up to the node whose link leads to `stop`. -/
def readFrom (h : CHeap α) (link : Ptr → Option Ptr) (stop : Ptr) : Nat → Ptr → Option (List α)
  | 0, _ => none
  | fuel + 1, a => do
    let d ← h.dataOf a
    let b ← link a
    if b = stop then some [d] else (readFrom h link stop fuel b).map fun r => d :: r

/-- The items along `m_next`, from the head. -/
def readForward (h : CHeap α) : Option Ptr → Option (List α)
  | none => some []
  | some a => readFrom h h.nextOf a h.brk a

/-- The items along `m_prev`, from the node before the head. -/
def readBackward (h : CHeap α) : Option Ptr → Option (List α)
  | none => some []
  | some a => do
    let last ← h.prevOf a
    readFrom h h.prevOf last h.brk last

theorem reading_append (h : CHeap α) (l l' : List Ptr) :
    reading h (l ++ l') = reading h l ++ reading h l' := List.filterMap_append

theorem reading_singleton {h : CHeap α} {a : Ptr} {d : α} (hd : h.dataOf a = some d) :
    reading h [a] = [d] := reading_cons [] hd

theorem reading_concat {h : CHeap α} {a : Ptr} {d : α} (l : List Ptr) (hd : h.dataOf a = some d) :
    reading h (l ++ [a]) = reading h l ++ [d] := by
  rw [reading_append, reading_singleton hd]

theorem reading_reverse (h : CHeap α) (l : List Ptr) :
    reading h l.reverse = (reading h l).reverse := List.filterMap_reverse

theorem RingAt.dataOf {h : CHeap α} {top : Option Ptr} {l : List Ptr} (hr : RingAt h top l)
    {a : Ptr} (ha : a ∈ l) : ∃ d, h.dataOf a = some d := by
  obtain ⟨c, hc⟩ := hr.allocated ha
  exact ⟨c.data, by rw [CHeap.dataOf, hc]; rfl⟩

/-- A walk with `p` behind it and `q` ahead, for either direction of the links. -/
theorem readFrom_ring {h : CHeap α} {next prev : Ptr → Option Ptr} {stop : Ptr} :
    ∀ (q p : List Ptr) (a : Ptr) (fuel : Nat), IsRing next prev (p ++ a :: q) →
      (p ++ a :: q).head? = some stop → (∀ x ∈ a :: q, ∃ d, h.dataOf x = some d) →
        q.length < fuel → readFrom h next stop fuel a = some (reading h (a :: q))
  | [], p, a, fuel + 1, hring, hstop, hdata, _ => by
    obtain ⟨d, hd⟩ := hdata a List.mem_cons_self
    have hnext : next a = some stop := hring.next_last hstop
    simp [readFrom, hd, hnext, reading]
  | b :: q, p, a, fuel + 1, hring, hstop, hdata, hf => by
    obtain ⟨d, hd⟩ := hdata a List.mem_cons_self
    have hnext : next a = some b := hring.linked_of_append.1
    -- no later node is the one that the walk stops at
    have hb : b ≠ stop := hring.ne_head hstop
    have hring' : IsRing next prev ((p ++ [a]) ++ b :: q) := by simpa using hring
    have hstop' : ((p ++ [a]) ++ b :: q).head? = some stop := by simpa using hstop
    have ih := readFrom_ring q (p ++ [a]) b fuel hring' hstop'
      (fun x hx => hdata x (List.mem_cons_of_mem a hx)) (by simpa using hf)
    rw [reading_cons (b :: q) hd]
    simp [readFrom, hd, hnext, hb, ih]

/-- **Walking along `m_next` reads the ring.** -/
theorem readForward_eq {h : CHeap α} {top : Option Ptr} {l : List Ptr} (hr : RingAt h top l) :
    readForward h top = some (reading h l) := by
  obtain ⟨hring, rfl⟩ := hr
  cases l with
  | nil => rfl
  | cons a q =>
    have hr : RingAt h (some a) (a :: q) := ⟨hring, rfl⟩
    exact readFrom_ring q [] a h.brk hring rfl (fun x hx => hr.dataOf hx) hr.length_le

/-- **Walking along `m_prev` reads it backwards.** -/
theorem readBackward_eq {h : CHeap α} {top : Option Ptr} {l : List Ptr} (hr : RingAt h top l) :
    readBackward h top = some (reading h l).reverse := by
  obtain ⟨hring, rfl⟩ := hr
  cases hl : l.reverse with
  | nil =>
    obtain rfl := List.reverse_eq_nil_iff.mp hl
    rfl
  | cons z q =>
    have hrev := hring.reverse
    have hlast : l.getLast? = some z := by rw [← List.head?_reverse, hl]; rfl
    obtain ⟨a, t, rfl⟩ : ∃ a t, l = a :: t := by
      cases l with
      | nil => cases hl
      | cons a t => exact ⟨a, t, rfl⟩
    have hr : RingAt h (some a) (a :: t) := ⟨hring, rfl⟩
    have hprev : h.prevOf a = some z := (hring.linked_last hlast).2
    have hlen : q.length < h.brk := by
      have hle := hr.length_le
      rw [← List.length_reverse, hl] at hle
      exact hle
    rw [hl] at hrev
    have hwalk := readFrom_ring q [] z h.brk hrev rfl
      (fun x hx => hr.dataOf (List.mem_reverse.mp (hl ▸ hx))) hlen
    simp [readBackward, hprev, hwalk, ← reading_reverse, hl]

/-! ## One operation -/

/-- **`clist_append`** reads as the list with the item at its end. -/
theorem clistAppend_reads {h : CHeap α} {top : Option Ptr} {r : List α} (d : α)
    (hr : Reads h top r) :
    ∃ a h', clistAppend h top d = some (a, h') ∧ Reads h' (some a) (r ++ [d]) := by
  obtain ⟨l, hring, rfl⟩ := hr
  obtain ⟨a, h', he, hr', hread, _, _⟩ := clistAppend_spec d hring
  exact ⟨a, h', he, _, hr', hread⟩

/-- **Prepending to a ring**: the new node is the one before the old head. -/
theorem clistPrepend_spec {h : CHeap α} {top : Option Ptr} {l : List Ptr} (d : α)
    (hr : RingAt h top l) :
    ∃ h', clistPrepend h top d = some (h.brk, h') ∧ RingAt h' (some h.brk) (h.brk :: l) ∧
      reading h' (h.brk :: l) = d :: reading h l ∧ h'.brk = h.brk + 1 ∧
      ∀ x, x ∉ l → x ≠ h.brk → h'.cells x = h.cells x := by
  obtain ⟨a, h', he, hr', hread, hbrk, hframe⟩ := clistAppend_spec d hr
  have hcell : ∃ c, h'.cells a = some c ∧ c.prev = h.brk := by
    obtain ⟨b, t, hbt⟩ : ∃ b t, l ++ [h.brk] = b :: t := by
      cases l with
      | nil => exact ⟨_, _, rfl⟩
      | cons b t => exact ⟨b, t ++ [h.brk], rfl⟩
    have hab : a = b := by
      have hhead := hr'.head
      rw [hbt] at hhead
      exact Option.some.inj hhead
    have hlast : (b :: t).getLast? = some h.brk := by rw [← hbt]; simp
    have hring := hr'.ring
    rw [hbt] at hring
    subst hab
    exact prevOf_eq_some (hring.linked_last hlast).2
  obtain ⟨c, hc, hprev⟩ := hcell
  refine ⟨h', ?_, ⟨IsRing.rotate (q := [h.brk]) hr'.ring, rfl⟩, ?_, hbrk, hframe⟩
  · simp only [clistPrepend, he, hc, hprev, Option.bind_eq_bind, Option.bind_some]
  · -- the new node holds the item, the others what they held
    have hnew : h'.dataOf h.brk = some d ∧ reading h' l = reading h l := by
      obtain ⟨d', hd'⟩ := hr'.dataOf (a := h.brk) (by simp)
      rw [reading_concat l hd'] at hread
      obtain ⟨hl, hdd⟩ := List.append_inj' hread rfl
      exact ⟨by rw [hd', List.singleton_inj.mp hdd], hl⟩
    rw [reading_cons l hnew.1, hnew.2]

/-- **`clist_prepend`** reads as the list with the item at its front. -/
theorem clistPrepend_reads {h : CHeap α} {top : Option Ptr} {r : List α} (d : α)
    (hr : Reads h top r) :
    ∃ a h', clistPrepend h top d = some (a, h') ∧ Reads h' (some a) (d :: r) := by
  obtain ⟨l, hring, rfl⟩ := hr
  obtain ⟨h', he, hr', hread, _, _⟩ := clistPrepend_spec d hring
  exact ⟨_, h', he, _, hr', hread⟩

/-- **`clist_remove`** reads as the list without its first item. -/
theorem clistRemove_reads {h : CHeap α} {top : Option Ptr} {r : List α} (destroy : Bool)
    (hr : Reads h top r) :
    ∃ res h', clistRemove h top destroy = some (res, h') ∧ Reads h' res r.tail := by
  obtain ⟨l, ⟨hring, rfl⟩, rfl⟩ := hr
  cases l with
  | nil => exact ⟨none, h, rfl, [], ⟨IsRing.nil, rfl⟩, rfl⟩
  | cons a l =>
    have hr : RingAt h (some a) (a :: l) := ⟨hring, rfl⟩
    obtain ⟨h', he, hr', hdata, _, _⟩ := clistRemove_spec destroy hr
    obtain ⟨d, hd⟩ := hr.dataOf (a := a) List.mem_cons_self
    refine ⟨l.head?, h', he, l, hr', ?_⟩
    rw [reading_cons l hd, List.tail_cons]
    exact reading_congr hdata

/-- There is a ring for every list. -/
theorem exists_reads (r : List α) : ∃ h top, Reads h top r := by
  induction r using List.reverseRecOn with
  | nil => exact ⟨CHeap.empty, none, [], ⟨IsRing.nil, rfl⟩, rfl⟩
  | append_singleton r d ih =>
    obtain ⟨h, top, hr⟩ := ih
    obtain ⟨a, h', _, hr'⟩ := clistAppend_reads d hr
    exact ⟨h', some a, hr'⟩

/-- A list that reads empty is the null pointer. -/
theorem Reads.nil_iff {h : CHeap α} {top : Option Ptr} {r : List α} (hr : Reads h top r) :
    top = none ↔ r = [] := by
  obtain ⟨l, ⟨hring, rfl⟩, rfl⟩ := hr
  cases l with
  | nil => exact iff_of_true rfl rfl
  | cons a l =>
    have hr : RingAt h (some a) (a :: l) := ⟨hring, rfl⟩
    obtain ⟨d, hd⟩ := hr.dataOf (a := a) List.mem_cons_self
    rw [reading_cons l hd]
    simp

/-! ## Operations at any node -/

/-- An operation, at the node that many steps after the one the caller has. -/
inductive ListOp (α : Type) where
  | append (steps : Nat) (data : α)
  | prepend (steps : Nat) (data : α)
  | remove (steps : Nat) (destroy : Bool)
  deriving DecidableEq, Repr

/-- The heap, the caller's pointer, and the nodes that were inserted and not removed, with the
item of each. -/
structure ListState (α : Type) where
  heap : CHeap α
  top : Option Ptr
  held : List (Ptr × α)

/-- The node some steps along `m_next`. -/
def nodeAfter (h : CHeap α) : Option Ptr → Nat → Option (Option Ptr)
  | none, _ => some none
  | some a, 0 => some (some a)
  | some a, steps + 1 => do
    let b ← h.nextOf a
    nodeAfter h (some b) steps

/-- One operation; the caller goes on with the pointer it returns. -/
def listStep (s : ListState α) : ListOp α → Option (ListState α)
  | .append steps data => do
    let self ← nodeAfter s.heap s.top steps
    let (res, heap) ← clistAppend s.heap self data
    some ⟨heap, some res, s.held ++ [(s.heap.brk, data)]⟩
  | .prepend steps data => do
    let self ← nodeAfter s.heap s.top steps
    let (res, heap) ← clistPrepend s.heap self data
    some ⟨heap, some res, s.held ++ [(s.heap.brk, data)]⟩
  | .remove steps destroy => do
    let self ← nodeAfter s.heap s.top steps
    let (res, heap) ← clistRemove s.heap self destroy
    some ⟨heap, res, s.held.filter fun item => some item.1 ≠ self⟩

def listRun (s : ListState α) (ops : List (ListOp α)) : Option (ListState α) :=
  ops.foldlM listStep s

/-- The operation on what is read. -/
def ListOp.apply (r : List α) : ListOp α → List α
  | .append steps data => r.rotate steps ++ [data]
  | .prepend steps data => data :: r.rotate steps
  | .remove steps _ => (r.rotate steps).tail

/-- The nodes of a ring, with their items. -/
def nodeItems (h : CHeap α) (l : List Ptr) : List (Ptr × α) := l.zip (reading h l)

/-- The caller's pointer is into a well-formed ring that reads `r` and holds what it should. -/
def ListOk (s : ListState α) (r : List α) : Prop :=
  ∃ l, RingAt s.heap s.top l ∧ reading s.heap l = r ∧ (nodeItems s.heap l).Perm s.held

theorem reading_length_of {h : CHeap α} {l : List Ptr}
    (hdata : ∀ x ∈ l, ∃ d, h.dataOf x = some d) : (reading h l).length = l.length := by
  induction l with
  | nil => rfl
  | cons a l ih =>
    obtain ⟨d, hd⟩ := hdata a List.mem_cons_self
    rw [reading_cons l hd, List.length_cons, List.length_cons,
      ih fun x hx => hdata x (List.mem_cons_of_mem a hx)]

theorem reading_length {h : CHeap α} {top : Option Ptr} {l : List Ptr} (hr : RingAt h top l) :
    (reading h l).length = l.length := reading_length_of fun _ hx => hr.dataOf hx

theorem reading_rotate {h : CHeap α} {top : Option Ptr} {l : List Ptr} (hr : RingAt h top l) :
    ∀ n, reading h (l.rotate n) = (reading h l).rotate n := by
  have hdata : ∀ x ∈ l, ∃ d, h.dataOf x = some d := fun x hx => hr.dataOf hx
  clear hr
  intro n
  induction n generalizing l with
  | zero => rw [List.rotate_zero, List.rotate_zero]
  | succ n ih =>
    cases l with
    | nil => rw [List.rotate_nil]; rfl
    | cons a l =>
      obtain ⟨d, hd⟩ := hdata a List.mem_cons_self
      rw [List.rotate_cons_succ, ih, reading_concat l hd, reading_cons l hd, List.rotate_cons_succ]
      intro x hx
      exact hdata x (by simpa [or_comm] using hx)

theorem RingAt.rotate {h : CHeap α} {top : Option Ptr} {l : List Ptr} (hr : RingAt h top l)
    (n : Nat) : RingAt h (l.rotate n).head? (l.rotate n) := ⟨hr.ring.rotate_by n, rfl⟩

/-- Steps along `m_next` get to the head of the rotated ring. -/
theorem nodeAfter_eq {h : CHeap α} {top : Option Ptr} {l : List Ptr} (hr : RingAt h top l)
    (n : Nat) : nodeAfter h top n = some (l.rotate n).head? := by
  induction n generalizing top l with
  | zero =>
    rw [List.rotate_zero, ← hr.head]
    cases top <;> rfl
  | succ n ih =>
    cases l with
    | nil =>
      have htop : top = none := hr.head
      rw [htop, List.rotate_nil]
      rfl
    | cons a l =>
      have htop : top = some a := hr.head
      have hnext := hr.ring.next_head
      have hrot : RingAt h (some (l.head?.getD a)) (l ++ [a]) := by
        refine ⟨IsRing.rotate (p := [a]) hr.ring, ?_⟩
        cases l <;> rfl
      rw [htop, nodeAfter, hnext, List.rotate_cons_succ]
      exact ih hrot

theorem nodeItems_rotate {h : CHeap α} {top : Option Ptr} {l : List Ptr} (hr : RingAt h top l)
    (n : Nat) : (nodeItems h (l.rotate n)).Perm (nodeItems h l) := by
  have hzip : nodeItems h (l.rotate n) = (nodeItems h l).rotate n := by
    rw [nodeItems, reading_rotate hr, nodeItems]
    exact (List.zipWith_rotate_distrib Prod.mk l _ n (reading_length hr).symm).symm
  rw [hzip]
  exact List.rotate_perm _ _

/-- A new node at the end of a ring is one more node held. -/
theorem nodeItems_append {h h' : CHeap α} {top : Option Ptr} {l : List Ptr} {d : α}
    (hr : RingAt h top l) (hread : reading h' (l ++ [h.brk]) = reading h l ++ [d]) :
    nodeItems h' (l ++ [h.brk]) = nodeItems h l ++ [(h.brk, d)] := by
  rw [nodeItems, hread, List.zip_append (reading_length hr).symm]
  rfl

/-- Removing the head of a ring is one node less held. -/
theorem nodeItems_remove {h h' : CHeap α} {a : Ptr} {l : List Ptr}
    (hr : RingAt h (some a) (a :: l)) (hdata : ∀ x ∈ l, h'.dataOf x = h.dataOf x) :
    nodeItems h' l = (nodeItems h (a :: l)).filter fun item => some item.1 ≠ some a := by
  obtain ⟨d, hd⟩ := hr.dataOf (a := a) List.mem_cons_self
  have hcons : nodeItems h (a :: l) = (a, d) :: nodeItems h l := by
    rw [nodeItems, reading_cons l hd]
    rfl
  have hkeep : (nodeItems h l).filter (fun item => some item.1 ≠ some a) = nodeItems h l := by
    refine List.filter_eq_self.mpr fun item hitem => ?_
    have hm : item.1 ∈ l := (List.of_mem_zip hitem).1
    have hne : item.1 ≠ a := fun e => (List.nodup_cons.mp hr.ring.nodup).1 (e ▸ hm)
    simpa using hne
  rw [hcons, List.filter_cons_of_neg (by simp), hkeep, nodeItems, nodeItems, reading_congr hdata]

theorem listStep_append {s : ListState α} {r : List α} (hs : ListOk s r) (steps : Nat) (d : α) :
    ∃ s', listStep s (.append steps d) = some s' ∧ ListOk s' (r.rotate steps ++ [d]) := by
  obtain ⟨l, hr, rfl, hheld⟩ := hs
  have hrot := hr.rotate steps
  obtain ⟨a, h', he, hr', hread, _, _⟩ := clistAppend_spec d hrot
  refine ⟨⟨h', some a, s.held ++ [(s.heap.brk, d)]⟩, ?_, _, hr', ?_, ?_⟩
  · simp only [listStep, nodeAfter_eq hr, Option.bind_eq_bind, Option.bind_some, he]
  · rw [hread, reading_rotate hr]
  · rw [nodeItems_append hrot hread]
    exact ((nodeItems_rotate hr steps).trans hheld).append_right _

theorem listStep_prepend {s : ListState α} {r : List α} (hs : ListOk s r) (steps : Nat) (d : α) :
    ∃ s', listStep s (.prepend steps d) = some s' ∧ ListOk s' (d :: r.rotate steps) := by
  obtain ⟨l, hr, rfl, hheld⟩ := hs
  have hrot := hr.rotate steps
  obtain ⟨h', he, hr', hread, _, _⟩ := clistPrepend_spec d hrot
  refine ⟨⟨h', some s.heap.brk, s.held ++ [(s.heap.brk, d)]⟩, ?_, _, hr', ?_, ?_⟩
  · simp only [listStep, nodeAfter_eq hr, Option.bind_eq_bind, Option.bind_some, he]
  · rw [hread, reading_rotate hr]
  · have hcons : nodeItems h' (s.heap.brk :: l.rotate steps) =
        (s.heap.brk, d) :: nodeItems s.heap (l.rotate steps) := by
      rw [nodeItems, hread]
      rfl
    rw [hcons]
    exact (((nodeItems_rotate hr steps).trans hheld).cons _).trans
      (List.perm_append_singleton _ _).symm

theorem listStep_remove {s : ListState α} {r : List α} (hs : ListOk s r) (steps : Nat)
    (destroy : Bool) :
    ∃ s', listStep s (.remove steps destroy) = some s' ∧ ListOk s' (r.rotate steps).tail := by
  obtain ⟨l, hr, rfl, hheld⟩ := hs
  have hrot := hr.rotate steps
  have hitems := (nodeItems_rotate hr steps).trans hheld
  have hnode := nodeAfter_eq hr steps
  rw [← reading_rotate hr steps]
  cases hl : l.rotate steps with
  | nil =>
    rw [hl] at hrot hnode hitems
    have hempty : s.held = [] := List.nil_perm.mp hitems
    refine ⟨⟨s.heap, none, []⟩, ?_, [], hrot, rfl, List.Perm.refl _⟩
    simp only [listStep, hnode, List.head?_nil, Option.bind_eq_bind, Option.bind_some,
      clistRemove, hempty, List.filter_nil]
  | cons a t =>
    rw [hl] at hrot hnode hitems
    obtain ⟨h', he, hr', hdata, _, _⟩ := clistRemove_spec destroy hrot
    obtain ⟨d, hd⟩ := hrot.dataOf (a := a) List.mem_cons_self
    refine ⟨⟨h', t.head?, s.held.filter fun item => some item.1 ≠ some a⟩, ?_, t, hr', ?_, ?_⟩
    · simp only [listStep, hnode, List.head?_cons, Option.bind_eq_bind, Option.bind_some, he]
    · rw [reading_cons t hd, List.tail_cons]
      exact reading_congr hdata
    · rw [nodeItems_remove hrot hdata]
      exact hitems.filter _

/-- **One operation**, at any node. -/
theorem listStep_spec {s : ListState α} {r : List α} (hs : ListOk s r) (op : ListOp α) :
    ∃ s', listStep s op = some s' ∧ ListOk s' (op.apply r) := by
  cases op with
  | append steps d => exact listStep_append hs steps d
  | prepend steps d => exact listStep_prepend hs steps d
  | remove steps destroy => exact listStep_remove hs steps destroy

/-- **Any operations at any nodes**: none faults, and the ring is what they make of the list. -/
theorem listRun_spec (ops : List (ListOp α)) :
    ∀ {s : ListState α} {r : List α}, ListOk s r →
      ∃ s', listRun s ops = some s' ∧ ListOk s' (ops.foldl ListOp.apply r) := by
  induction ops with
  | nil => exact fun hs => ⟨_, rfl, hs⟩
  | cons op ops ih =>
    intro s r hs
    obtain ⟨s1, hstep, hs1⟩ := listStep_spec hs op
    obtain ⟨s2, hrun, hs2⟩ := ih hs1
    refine ⟨s2, ?_, hs2⟩
    have hcons : listRun s (op :: ops) = (listStep s op).bind fun s => listRun s ops := by
      unfold listRun
      rw [List.foldlM_cons]
      rfl
    rw [hcons, hstep, Option.bind_some, hrun]

/-- **The operations on rings are those on lists**: one of them at the node that the ring is read
from, and any number of them at any nodes. -/
theorem clist_ops_spec {h : CHeap α} {top : Option Ptr} {l : List Ptr} (hr : RingAt h top l) :
    (∀ d, ∃ a h', clistAppend h top d = some (a, h') ∧ Reads h' (some a) (reading h l ++ [d])) ∧
      (∀ d, ∃ a h', clistPrepend h top d = some (a, h') ∧
        Reads h' (some a) (d :: reading h l)) ∧
      (∀ destroy, ∃ res h', clistRemove h top destroy = some (res, h') ∧
        Reads h' res (reading h l).tail ∧ (res = none ↔ (reading h l).length ≤ 1)) ∧
      ∀ ops, ∃ s l', listRun ⟨h, top, nodeItems h l⟩ ops = some s ∧ RingAt s.heap s.top l' ∧
        reading s.heap l' = ops.foldl ListOp.apply (reading h l) ∧
        (nodeItems s.heap l').Perm s.held ∧
        readForward s.heap s.top = some (reading s.heap l') ∧
        readBackward s.heap s.top = some (reading s.heap l').reverse := by
  have hreads : Reads h top (reading h l) := ⟨l, hr, rfl⟩
  refine ⟨fun d => clistAppend_reads d hreads, fun d => clistPrepend_reads d hreads,
    fun destroy => ?_, fun ops => ?_⟩
  · obtain ⟨res, h', he, hr'⟩ := clistRemove_reads destroy hreads
    refine ⟨res, h', he, hr', ?_⟩
    rw [hr'.nil_iff, ← List.length_eq_zero_iff, List.length_tail, Nat.sub_eq_zero_iff_le]
  · obtain ⟨s, hrun, l', hr', hread, hheld⟩ := listRun_spec ops
      (⟨l, hr, rfl, List.Perm.refl _⟩ : ListOk ⟨h, top, nodeItems h l⟩ (reading h l))
    exact ⟨s, l', hrun, hr', hread, hheld, readForward_eq hr', readBackward_eq hr'⟩

/-- Three items are inserted at different nodes, and one is removed. -/
theorem clist_ops_spec_three :
    ∃ s l', listRun ⟨CHeap.empty, none, []⟩
        [.append 0 1, .append 0 2, .prepend 1 3, .remove 0 true] = some s ∧
      RingAt s.heap s.top l' ∧ reading s.heap l' = [2, 1] ∧
      readBackward s.heap s.top = some [1, 2] := by
  obtain ⟨s, l', hrun, hr, hread, _, _, hback⟩ :=
    (clist_ops_spec (⟨IsRing.nil, rfl⟩ : RingAt (CHeap.empty : CHeap Nat) none [])).2.2.2
      [.append 0 1, .append 0 2, .prepend 1 3, .remove 0 true]
  have hitems : reading s.heap l' = [2, 1] := hread.trans (by decide)
  exact ⟨s, l', hrun, hr, hitems, by rw [hback, hitems]; rfl⟩

end Tinu
