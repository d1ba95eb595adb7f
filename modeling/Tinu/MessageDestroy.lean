import Tinu.MessageMemory

/-!
# The end of a message (`message.c`)

`msg_destroy` releases what a message owns: its tags with their texts, its array, its text and
itself.  With every call accounting for the blocks it makes and releases (`Blocks.Accounts`), a
message leaves nothing behind, whatever was called on it.

* `msgDestroy_spec` — everything that a message owns is released, and once;
* `messageLife_blocks` — from `msg_create` over any calls to `msg_destroy`, the heap is as before.
-/

set_option autoImplicit false

namespace Tinu

namespace Memory

open Cells (Holds)
open Blocks (Accounts)

/-! ## Releasing a message -/

/-- The loop of `msg_destroy` from `i`, with as many rounds left as there are tags from there. -/
def msgDestroyLoop (self : Ptr) : Nat → Nat → Memory → Option Memory
  | _, 0, h => some h
  | i, n + 1, h => do
    let obj ← message h self
    let cells ← array h obj.tags
    let tag ← Cells.read cells i
    let h ← msgTagClear h tag
    msgDestroyLoop self (i + 1) n h

/-- `msg_destroy`. -/
def msgDestroy (h : Memory) (self : Ptr) : Option Memory := do
  let obj ← message h self
  let h ← msgDestroyLoop self 0 obj.tagCount h
  let h ← gFree h obj.tags
  let h ← gFree h obj.message
  gFree h self

/-- The tags from an index on are released; the message and its array are still there to be read
in every round. -/
theorem msgDestroyLoop_spec {self : Ptr} {obj : MessageObject} {cs : List (Option Ptr)} :
    ∀ (ptrs before : List TagBlocks) (tags : List MessageTag) (h : Memory),
      h.blocks self = some (.message obj) → cells h obj.tags = some cs →
      Holds cs ((before ++ ptrs).map TagBlocks.self) → TagsAt h ptrs tags →
      (tagBlocks ptrs).Nodup →
      ∃ h', msgDestroyLoop self before.length ptrs.length h = some h' ∧
        Accounts {x | x ∈ tagBlocks ptrs} h ∅ h'
  | [], before, tags, h, _, _, _, _, _ => by
    refine ⟨h, rfl, ?_⟩
    rw [tagBlocks_nil_set]
    exact Accounts.refl ∅ h
  | b :: ptrs, before, tags, h, hself, hcs, hholds, ht, hnodup => by
    cases ht with
    | @cons _ t _ tags hb ht =>
    have harr : h.blocks obj.tags = some (.array cs) := by
      obtain ⟨-, rfl⟩ | harr := cells_some hcs
      · have hlen := hholds.length_le
        simp at hlen
      · exact harr
    have hread : Cells.read cs before.length = some b.self := by
      rw [hholds.read (by simp)]
      simp
    obtain ⟨h1, hclear, ht1, hnodup1, hm1⟩ := msgTagClear_cons hb ht hnodup
    have hself1 := hm1.stays hself fun hmem => content_of_blocks (hb.content hmem) hself
    have harr1 := hm1.stays harr fun hmem => content_of_blocks (hb.content hmem) harr
    obtain ⟨h', hloop, hm'⟩ := msgDestroyLoop_spec ptrs (before ++ [b]) tags h1 hself1
      (cells_of_block harr1) (by rwa [List.append_assoc, List.singleton_append]) ht1 hnodup1
    refine ⟨h', ?_, ?_⟩
    · rw [List.length_append, List.length_singleton] at hloop
      simp only [List.length_cons, msgDestroyLoop, message_eq hself, array_eq harr, hread, hclear,
        Option.bind_eq_bind, Option.bind_some, hloop]
    · rw [tagBlocks_cons_set]
      exact hm1.release hm'

/-- **`msg_destroy`** releases everything that the message owns. -/
theorem msgDestroy_spec {h : Memory} {p txt : Ptr} {m : Message} {arr : Ptr} {ptrs : List TagBlocks}
    (hs : Stored h p txt m arr ptrs) :
    ∃ h', msgDestroy h p = some h' ∧ Accounts (owned p txt arr ptrs) h ∅ h' := by
  obtain ⟨cs, hcs, hholds⟩ := hs.array
  obtain ⟨htxt, hnodup⟩ := List.nodup_cons.mp hs.nodup
  obtain ⟨h1, hloop, hm1⟩ := msgDestroyLoop_spec ptrs [] m.tags h hs.object hcs hholds hs.tags
    hnodup
  have hp1 := hm1.stays hs.object fun hmem => content_of_blocks (hs.tags.content hmem) hs.object
  have htxt1 := hm1.stays hs.text htxt
  have hcs1 : cells h1 arr = some cs := cells_stay hm1.toMoves hcs fun hmem => by
    obtain ⟨h0, -⟩ | harr := cells_some hcs
    · exact h0
    · exact (content_of_blocks (hs.tags.content hmem) harr).elim
  obtain ⟨h2, hfree2, hm2⟩ := gFree_spec hcs1
  have hp2 := hm2.stays hp1 fun he => hs.ne_array (Set.mem_singleton_iff.mp he)
  have htxt2 := hm2.stays htxt1 fun he => by
    obtain ⟨rfl, -⟩ | harr := cells_some hcs1
    · exact Blocks.Heap.ne_zero htxt1 (Set.mem_singleton_iff.mp he)
    · rw [Set.mem_singleton_iff.mp he, harr] at htxt1
      cases htxt1
  obtain ⟨h3, hfree3, hm3⟩ := gFree_block htxt2
  obtain ⟨h4, hfree4, hm4⟩ := gFree_block (hm3.stays hp2 fun he => by
    rw [Set.mem_singleton_iff.mp he, htxt2] at hp2
    cases hp2)
  refine ⟨h4, ?_, ?_⟩
  · rw [List.length_nil, hs.length_eq] at hloop
    simp only [msgDestroy, message_eq hs.object, Option.bind_eq_bind, Option.bind_some, hloop,
      hfree2, hfree3, hfree4]
  · have hset : owned p txt arr ptrs = (({x | x ∈ tagBlocks ptrs} ∪ {arr}) ∪ {txt}) ∪ {p} := by
      ext x
      simp only [owned, Set.mem_union, Set.mem_insert_iff, Set.mem_singleton_iff,
        Set.mem_ofPred_eq, List.mem_cons]
      tauto
    rw [hset]
    exact ((hm1.release hm2).release hm3).release hm4

/-! ## The life of a message -/

/-- **From `msg_create` over any calls to `msg_destroy`** no call fails, and every block of the heap
is as before. -/
theorem messageLife_blocks {priority : Int} {msg : CString} {tags : List MessageTag}
    {calls : List MessageCall} (hcreate : sizeAfter 0 tags.length < gintLimit)
    (hcalls : GuardedRun.EveryStep MessageCall.apply SizesFit (msgCreate priority msg tags) calls)
    (h : Memory) :
    ∃ p h1 h2 h3, msgVcreate (newTags tags h).2 priority msg (newTags tags h).1 = some (p, h1) ∧
      messageRun p h1 calls = some h2 ∧ msgDestroy h2 p = some h3 ∧ h3.blocks = h.blocks := by
  obtain ⟨p, txt, h1, arr, ptrs, hnew, hs1, hm1⟩ := msgCreate_spec h priority msg tags hcreate
  obtain ⟨-, hnot⟩ | ⟨h2, hrun, arr2, ptrs2, hs2, hm2⟩ := messageRun_spec calls hs1
  · exact absurd hcalls hnot
  obtain ⟨h3, hdestroy, hm3⟩ := msgDestroy_spec hs2
  have hm := (hm1.trans hm2).trans hm3
  exact ⟨p, h1, h2, h3, hnew, hrun, hdestroy, funext fun x => hm.blocks_eq (Set.notMem_empty x)⟩

/-- A tag is added, and the first one is removed. -/
theorem messageLife_blocks_two :
    ∃ p h1 h2 h3, msgVcreate (newTags [⟨['a'], ['1']⟩] Blocks.Heap.empty).2 4 ['m']
        (newTags [⟨['a'], ['1']⟩] Blocks.Heap.empty).1 = some (p, h1) ∧
      messageRun p h1 [.append [⟨['b'], ['2']⟩], .removeTag ['a']] = some h2 ∧
      msgDestroy h2 p = some h3 ∧ h3.blocks = (Blocks.Heap.empty : Memory).blocks := by
  refine messageLife_blocks (by decide) ?_ Blocks.Heap.empty
  refine GuardedRun.everyStep_cons.mpr ⟨?_, GuardedRun.everyStep_cons.mpr ⟨?_, ?_⟩⟩
  · show sizeAfter 1 1 < gintLimit
    decide
  · exact trivial
  · exact GuardedRun.everyStep_nil _ _ _

end Memory

end Tinu
