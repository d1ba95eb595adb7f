import Tinu.MessageMemory

/-!
# Copying a message (`message.c`)

`msg_copy` reads the tags to copy from the array of the new message, which has none yet.

* `msgCopy_none` — with a tag there is no copy;
* `msgCopy_untagged` — without tags the copy is stored in blocks of its own;
* `msgCopy_ok_iff` — the copy is one exactly for messages without tags.
-/

set_option autoImplicit false

namespace Tinu

namespace Memory

open Blocks (Moves Separate)

/-- The loop of `msg_copy`: `res->m_tags[i]` is read, and the copy is written there. -/
def msgCopyLoop (res : Ptr) : Nat → Nat → Memory → Option Memory
  | _, 0, h => some h
  | i, n + 1, h => do
    let obj ← message h res
    let (_, t) ← tagAt h obj i
    let (tag, h) := newTag h t
    let cells ← array h obj.tags
    let cells ← Cells.write cells i tag
    let h ← h.store obj.tags (.array cells)
    msgCopyLoop res (i + 1) n h

/-- `msg_copy`; the text of the copy comes first, as in `newMessage`. -/
def msgCopy (h : Memory) (self : Ptr) : Option (Ptr × Memory) := do
  let obj ← message h self
  let msg ← text h obj.message
  let (msg, h) := gStrdup h msg
  let (res, h) := h.alloc (.message ⟨obj.priority, msg, obj.tagCount, NULL⟩)
  let h ← msgCopyLoop res 0 obj.tagCount h
  some (res, h)

/-- `res` is a copy of the message at `p`: both read as `p` did before, and what is called on one
of them later leaves the other. -/
structure CopyOk (h : Memory) (p : Ptr) (res : Ptr) (h' : Memory) : Prop where
  source : msgRead h' p = msgRead h p
  copy : msgRead h' res = msgRead h p
  format : msgFormatSimple h' res = msgFormatSimple h' p
  find : ∀ name, msgFindTag h' res name = msgFindTag h' p name
  callsOnSource : ∀ calls h'', messageRun p h' calls = some h'' → msgRead h'' res = msgRead h' res
  callsOnCopy : ∀ calls h'', messageRun res h' calls = some h'' → msgRead h'' p = msgRead h' p

/-- **With a tag there is no copy**: there is no array at `NULL` to read it from. -/
theorem msgCopy_none {h : Memory} {p txt : Ptr} {m : Message} {arr : Ptr} {ptrs : List TagBlocks}
    (hs : Stored h p txt m arr ptrs) (hne : m.tags ≠ []) : msgCopy h p = none := by
  obtain ⟨tag, tags, hm⟩ := List.exists_cons_of_ne_nil hne
  have hcount : m.tags.length = tags.length + 1 := by rw [hm, List.length_cons]
  have hnull : ∀ h' : Memory, array h' NULL = none := by
    intro h'
    have h0 : h'.blocks NULL = none := h'.null
    rw [Memory.array, h0]
  have hloop : ∀ (h1 : Memory) (txt' : Ptr), msgCopyLoop h1.next 0 m.tags.length
      (h1.alloc (.message ⟨m.priority, txt', m.tags.length, NULL⟩)).2 = none := by
    intro h1 txt'
    have hself := message_eq (Blocks.Heap.alloc_self h1
      (.message ⟨m.priority, txt', m.tags.length, NULL⟩))
    rw [hcount, msgCopyLoop, ← hcount, hself]
    simp only [tagAt, hnull, Option.bind_eq_bind, Option.bind_some, Option.bind_none]
  rw [msgCopy, message_eq hs.object]
  simp only [Option.bind_eq_bind, Option.bind_some, text_eq hs.text]
  exact congrArg (fun r => r.bind fun h' => some (h.next + 1, h'))
    (hloop (gStrdup h m.message).2 h.next)

/-- **Without tags the copy is stored** in blocks of its own, and everything else stays. -/
theorem msgCopy_untagged {h : Memory} {p txt : Ptr} {m : Message} {arr : Ptr}
    {ptrs : List TagBlocks} (hs : Stored h p txt m arr ptrs) (hnil : m.tags = []) :
    ∃ res txt' h', msgCopy h p = some (res, h') ∧ Stored h' p txt m arr ptrs ∧
      Stored h' res txt' m NULL [] ∧
      Separate (owned res txt' NULL []) (owned p txt arr ptrs) := by
  obtain ⟨h', halloc, hcopy, hm⟩ := newMessage_spec h m.priority m.message
  have hsame : msgCreate m.priority m.message [] = m := by
    rw [← hnil]
    rfl
  rw [hsame] at hcopy
  refine ⟨h.next + 1, h.next, h', ?_, ?_, hcopy, ?_⟩
  · rw [newMessage] at halloc
    rw [msgCopy, message_eq hs.object, hnil]
    simp only [Option.bind_eq_bind, Option.bind_some, text_eq hs.text, List.length_nil, halloc,
      msgCopyLoop]
  · exact hs.stay hm.toMoves fun x _ hx => absurd hx (Set.notMem_empty x)
  · exact hm.separate (fun x hx => absurd hx (Set.notMem_empty x)) hs.lt_next

/-- **`msg_copy` copies** exactly the messages without tags. -/
theorem msgCopy_ok_iff {h : Memory} {p txt : Ptr} {m : Message} {arr : Ptr} {ptrs : List TagBlocks}
    (hs : Stored h p txt m arr ptrs) :
    (∃ res h', msgCopy h p = some (res, h') ∧ CopyOk h p res h') ↔ m.tags = [] := by
  constructor
  · rintro ⟨res, h', hcopy, _⟩
    by_contra hne
    rw [msgCopy_none hs hne] at hcopy
    cases hcopy
  · intro hnil
    obtain ⟨res, txt', h', hcopy, hs', hres, hsep⟩ := msgCopy_untagged hs hnil
    refine ⟨res, h', hcopy, ?_, ?_, ?_, ?_, ?_, ?_⟩
    · rw [msgRead_spec hs', msgRead_spec hs]
    · rw [msgRead_spec hres, msgRead_spec hs]
    · rw [msgFormatSimple_spec hres, msgFormatSimple_spec hs']
    · intro name
      rw [msgFindTag_spec hres, msgFindTag_spec hs']
    · intro calls h'' hrun
      rw [msgRead_spec hres, msgRead_spec (messageRun_other hs' hres hsep hrun)]
    · intro calls h'' hrun
      rw [msgRead_spec hs', msgRead_spec (messageRun_other hres hs' hsep.symm hrun)]

/-- A new message is copied. -/
theorem msgCopy_ok_iff_new :
    ∃ res h', msgCopy (newMessage Blocks.Heap.empty 4 ['m']).2 2 = some (res, h') ∧
      CopyOk (newMessage Blocks.Heap.empty 4 ['m']).2 2 res h' := by
  obtain ⟨h', halloc, hs, _⟩ := newMessage_spec Blocks.Heap.empty 4 ['m']
  rw [halloc]
  exact (msgCopy_ok_iff hs).mpr rfl

/-- A message created with one tag. -/
theorem msgCopy_one_tag :
    ∃ p h, msgVcreate (newTags [⟨['a'], ['1']⟩] Blocks.Heap.empty).2 4 ['m']
        (newTags [⟨['a'], ['1']⟩] Blocks.Heap.empty).1 = some (p, h) ∧
      ¬ ∃ res h', msgCopy h p = some (res, h') ∧ CopyOk h p res h' := by
  obtain ⟨p, txt, h, arr, ptrs, hnew, hs, _⟩ :=
    msgCreate_spec Blocks.Heap.empty 4 ['m'] [⟨['a'], ['1']⟩] (by decide)
  refine ⟨p, h, hnew, ?_⟩
  rintro ⟨res, h', hcopy, _⟩
  rw [msgCopy_none hs (by simp [msgCreate])] at hcopy
  cases hcopy

end Memory

end Tinu
