import Tinu.Lib.Blocks
import Tinu.MessageArray

/-!
# Messages in memory (`message.c`)

The functions of `message.c` with everything at its address: the message, its text, its array of
pointers, and the tags with the two texts of each.  `Stored h p txt m arr ptrs` says that the
message `m` is at `p`, with the text at `txt`, the array at `arr` and the tags at `ptrs`, and
`owned p txt arr ptrs` are these addresses.  A call on a message takes `owned` from one heap to the
next and accounts for every block (`Blocks.Accounts`), so it changes nothing that another message
owns, and loses nothing.

* `gRenew_spec` — a reallocation;
* `msgVappend_spec`, `msgTagClear_spec`, `msgRemoveTag_spec` — the calls;
* `msgFindTag_spec`, `msgFormatSimple_spec`, `msgRead_spec` — what can be read of a message;
* `messageRun_spec` — any calls.
-/

set_option autoImplicit false

namespace Tinu

open Cells (Holds)
open Blocks (Moves Accounts Separate)

/-! ## The functions of `message.c` -/

/-- `struct _MessageTag`. -/
structure TagObject where
  tag : Ptr
  value : Ptr
  deriving DecidableEq, Repr

/-- `struct _Message`. -/
structure MessageObject where
  priority : Int
  message : Ptr
  tagCount : Nat
  tags : Ptr
  deriving DecidableEq, Repr

/-- What is allocated. -/
inductive Block where
  | message (self : MessageObject)
  | array (cells : List (Option Ptr))
  | tag (self : TagObject)
  | text (s : CString)
  deriving DecidableEq, Repr

/-- A tag or a text, and neither a message nor its array. -/
def Block.IsContent : Block → Prop
  | .tag _ | .text _ => True
  | _ => False

abbrev Memory := Blocks.Heap Block

namespace Memory

def message (h : Memory) (p : Ptr) : Option MessageObject :=
  match h.blocks p with
  | some (.message self) => some self
  | _ => none

def array (h : Memory) (p : Ptr) : Option (List (Option Ptr)) :=
  match h.blocks p with
  | some (.array cells) => some cells
  | _ => none

def tagObject (h : Memory) (p : Ptr) : Option TagObject :=
  match h.blocks p with
  | some (.tag self) => some self
  | _ => none

def text (h : Memory) (p : Ptr) : Option CString :=
  match h.blocks p with
  | some (.text s) => some s
  | _ => none

/-- A tag, with its texts. -/
def tag (h : Memory) (p : Ptr) : Option MessageTag := do
  let self ← tagObject h p
  let tag ← text h self.tag
  let value ← text h self.value
  some ⟨tag, value⟩

/-- The cells that a reallocation starts from; `NULL` has none. -/
def cells (h : Memory) (p : Ptr) : Option (List (Option Ptr)) :=
  if p = NULL then some [] else array h p

/-- `g_free`. -/
def gFree (h : Memory) (p : Ptr) : Option Memory := if p = NULL then some h else h.free p

/-- `g_strdup`, and `g_strdup_vprintf` with the text that it makes. -/
def gStrdup (h : Memory) (s : CString) : Ptr × Memory := h.alloc (.text s)

/-- `g_renew (MessageTag *, p, n)`; the array always moves. -/
def gRenew (h : Memory) (p : Ptr) (n : Nat) : Option (Ptr × Memory) := do
  let cells ← cells h p
  let h ← gFree h p
  if n = 0 then some (NULL, h) else some (h.alloc (.array (Cells.renew cells n)))

/-- The branch of `_msg_append_tag` that reallocates. -/
def msgMakeRoom (h : Memory) (p : Ptr) (size : Nat) : Option (Memory × Nat) := do
  let self ← message h p
  if self.tagCount ≤ size then do
    let size ← msgGrow size
    let (tags, h) ← gRenew h self.tags size
    let h ← h.store p (.message { self with tags := tags })
    some (h, size)
  else some (h, size)

/-- `msg->m_tags[msg->m_tag_count++] = tag`. -/
def msgStoreTag (h : Memory) (p : Ptr) (tag : Ptr) : Option Memory := do
  let self ← message h p
  let cells ← array h self.tags
  let cells ← Cells.write cells self.tagCount tag
  let h ← h.store self.tags (.array cells)
  h.store p (.message { self with tagCount := self.tagCount + 1 })

/-- `_msg_append_tag`. -/
def msgAppendTag (h : Memory) (p : Ptr) (tag : Ptr) (size : Nat) : Option (Memory × Nat) := do
  let (h, size) ← msgMakeRoom h p size
  let h ← msgStoreTag h p tag
  some (h, size)

/-- The loop over the arguments. -/
def msgAppendTags (p : Ptr) : List Ptr → Memory → Nat → Option (Memory × Nat)
  | [], h, size => some (h, size)
  | tag :: tags, h, size => do
    let (h, size) ← msgAppendTag h p tag size
    msgAppendTags p tags h size

/-- `self->m_tags = g_renew (MessageTag *, self->m_tags, self->m_tag_count)`. -/
def msgFit (h : Memory) (p : Ptr) : Option Memory := do
  let self ← message h p
  let (tags, h) ← gRenew h self.tags self.tagCount
  h.store p (.message { self with tags := tags })

/-- The message of `msg_vcreate` before its tags; its text comes first, so that it is written
once. -/
def newMessage (h : Memory) (priority : Int) (msg : CString) : Ptr × Memory :=
  let (message, h) := gStrdup h msg
  h.alloc (.message ⟨priority, message, 0, NULL⟩)

/-- `msg_vcreate`. -/
def msgVcreate (h : Memory) (priority : Int) (msg : CString) (tags : List Ptr) :
    Option (Ptr × Memory) := do
  let (self, h) := newMessage h priority msg
  let (h, _) ← msgAppendTags self tags h 0
  let h ← msgFit h self
  some (self, h)

/-- `msg_vappend`. -/
def msgVappend (h : Memory) (self : Ptr) (tags : List Ptr) : Option Memory := do
  let obj ← message h self
  let (h, _) ← msgAppendTags self tags h obj.tagCount
  msgFit h self

/-- `_msg_generate_tag`; the texts come first, so that the tag is written once. -/
def newTag (h : Memory) (t : MessageTag) : Ptr × Memory :=
  let (tag, h) := gStrdup h t.tag
  let (value, h) := gStrdup h t.value
  h.alloc (.tag ⟨tag, value⟩)

/-- `msg_tag_printf` and the like, for the arguments of a call. -/
def newTags : List MessageTag → Memory → List Ptr × Memory
  | [], h => ([], h)
  | t :: tags, h =>
    let (p, h) := newTag h t
    let (ps, h) := newTags tags h
    (p :: ps, h)

/-- `msg_append`, with the tags of its arguments. -/
def msgAppend (h : Memory) (self : Ptr) (tags : List MessageTag) : Option Memory :=
  let (ps, h) := newTags tags h
  msgVappend h self ps

/-- `self->m_tags[i]`, and what is there. -/
def tagAt (h : Memory) (self : MessageObject) (i : Nat) : Option (Ptr × MessageTag) := do
  let cells ← array h self.tags
  let p ← Cells.read cells i
  let t ← tag h p
  some (p, t)

/-- `_msg_tag_clear`. -/
def msgTagClear (h : Memory) (self : Ptr) : Option Memory :=
  if self = NULL then some h
  else do
    let obj ← tagObject h self
    let h ← gFree h obj.tag
    let h ← gFree h obj.value
    gFree h self

/-- The `memmove` of `msg_remove_tag`. -/
def msgMoveTags (self : MessageObject) (i : Nat) (cells : List (Option Ptr)) :
    Option (List (Option Ptr)) :=
  if i + 1 ≠ self.tagCount then Cells.move cells i (i + 1) (self.tagCount - i - 1) else some cells

/-- The tag at `i` is removed. -/
def msgRemoveAt (h : Memory) (p : Ptr) (self : MessageObject) (i : Nat) (tag : Ptr) :
    Option Memory := do
  let h ← msgTagClear h tag
  let cells ← array h self.tags
  let cells ← msgMoveTags self i cells
  let h ← h.store self.tags (.array cells)
  let h ← h.store p (.message { self with tagCount := self.tagCount - 1 })
  msgFit h p

/-- The loop of `msg_remove_tag` from `i`, with as many rounds left as there are tags from there. -/
def msgRemoveLoop (h : Memory) (p : Ptr) (self : MessageObject) (tag : CString) :
    Nat → Nat → Option Memory
  | _, 0 => some h
  | i, n + 1 => do
    let (q, t) ← tagAt h self i
    if t.tag = tag then msgRemoveAt h p self i q else msgRemoveLoop h p self tag (i + 1) n

/-- `msg_remove_tag`. -/
def msgRemoveTag (h : Memory) (p : Ptr) (tag : CString) : Option Memory := do
  let self ← message h p
  msgRemoveLoop h p self tag 0 self.tagCount

/-- The loop of `msg_find_tag`. -/
def msgFindLoop (h : Memory) (self : MessageObject) (name : CString) :
    Nat → Nat → Option (Option MessageTag)
  | _, 0 => some none
  | i, n + 1 => do
    let (_, t) ← tagAt h self i
    if t.tag = name then some (some t) else msgFindLoop h self name (i + 1) n

/-- `msg_find_tag`, and what it points to. -/
def msgFindTag (h : Memory) (p : Ptr) (name : CString) : Option (Option MessageTag) := do
  let self ← message h p
  msgFindLoop h self name 0 self.tagCount

/-- `" [%s=%s]"`. -/
def formatTag (t : MessageTag) : CString := " [" ++ t.tag ++ '=' :: t.value ++ [']']

/-- The loop of `msg_format_simple`. -/
def msgFormatLoop (h : Memory) (self : MessageObject) : CString → Nat → Nat → Option CString
  | str, _, 0 => some str
  | str, i, n + 1 => do
    let (_, t) ← tagAt h self i
    msgFormatLoop h self (str ++ formatTag t) (i + 1) n

/-- `msg_format_simple`. -/
def msgFormatSimple (h : Memory) (p : Ptr) : Option CString := do
  let self ← message h p
  let str ← text h self.message
  msgFormatLoop h self str 0 self.tagCount

/-- The tags from `i` on. -/
def tagsFrom (h : Memory) (self : MessageObject) : Nat → Nat → Option (List MessageTag)
  | _, 0 => some []
  | i, n + 1 => do
    let (_, t) ← tagAt h self i
    let tags ← tagsFrom h self (i + 1) n
    some (t :: tags)

/-- What a caller can read of a message. -/
def msgRead (h : Memory) (p : Ptr) : Option Message := do
  let self ← message h p
  let msg ← text h self.message
  let tags ← tagsFrom h self 0 self.tagCount
  some ⟨self.priority, msg, tags⟩

/-! ## What a call owns -/

/-- The blocks of a tag: itself, and its two texts. -/
structure TagBlocks where
  self : Ptr
  tag : Ptr
  value : Ptr
  deriving DecidableEq, Repr

def TagBlocks.list (b : TagBlocks) : List Ptr := [b.self, b.tag, b.value]

/-- The blocks of some tags. -/
def tagBlocks (ptrs : List TagBlocks) : List Ptr := ptrs.flatMap TagBlocks.list

theorem tagBlocks_cons (b : TagBlocks) (ptrs : List TagBlocks) :
    tagBlocks (b :: ptrs) = b.list ++ tagBlocks ptrs := List.flatMap_cons

theorem tagBlocks_append (l r : List TagBlocks) : tagBlocks (l ++ r) = tagBlocks l ++ tagBlocks r :=
  List.flatMap_append

structure TagAt (h : Memory) (b : TagBlocks) (t : MessageTag) : Prop where
  object : h.blocks b.self = some (.tag ⟨b.tag, b.value⟩)
  tag : h.blocks b.tag = some (.text t.tag)
  value : h.blocks b.value = some (.text t.value)

/-- The tags at the addresses. -/
def TagsAt (h : Memory) (ptrs : List TagBlocks) (tags : List MessageTag) : Prop :=
  List.Forall₂ (TagAt h) ptrs tags

/-- The addresses of a message. -/
def owned (p txt arr : Ptr) (ptrs : List TagBlocks) : Set Ptr :=
  {p, arr} ∪ {x | x ∈ txt :: tagBlocks ptrs}

theorem owned_append (p txt arr : Ptr) (ptrs new : List TagBlocks) :
    owned p txt arr (ptrs ++ new) =
      {p, arr} ∪ ({x | x ∈ txt :: tagBlocks ptrs} ∪ {x | x ∈ tagBlocks new}) := by
  ext x
  simp only [owned, tagBlocks_append, Set.mem_union, Set.mem_ofPred_eq, List.mem_cons,
    List.mem_append, or_assoc]

theorem tagBlocks_cons_set (b : TagBlocks) (ptrs : List TagBlocks) :
    {x | x ∈ tagBlocks (b :: ptrs)} = {x | x ∈ b.list} ∪ {x | x ∈ tagBlocks ptrs} := by
  ext x
  rw [tagBlocks_cons]
  exact List.mem_append

theorem tagBlocks_nil_set : {x | x ∈ tagBlocks []} = (∅ : Set Ptr) :=
  Set.eq_empty_of_forall_notMem fun _ hx => List.not_mem_nil hx

/-- The message `m` is at `p`; there may be room behind the tags in the array. -/
structure Stored (h : Memory) (p txt : Ptr) (m : Message) (arr : Ptr) (ptrs : List TagBlocks) :
    Prop where
  object : h.blocks p = some (.message ⟨m.priority, txt, m.tags.length, arr⟩)
  text : h.blocks txt = some (.text m.message)
  array : ∃ cs, cells h arr = some cs ∧ Holds cs (ptrs.map TagBlocks.self)
  tags : TagsAt h ptrs m.tags
  nodup : (txt :: tagBlocks ptrs).Nodup

theorem message_eq {h : Memory} {p : Ptr} {self : MessageObject}
    (hp : h.blocks p = some (.message self)) : message h p = some self := by
  rw [message, hp]

theorem array_eq {h : Memory} {p : Ptr} {cs : List (Option Ptr)}
    (hp : h.blocks p = some (.array cs)) : array h p = some cs := by
  rw [Memory.array, hp]

theorem text_eq {h : Memory} {p : Ptr} {s : CString} (hp : h.blocks p = some (.text s)) :
    text h p = some s := by
  rw [Memory.text, hp]

theorem TagAt.tagObject_eq {h : Memory} {b : TagBlocks} {t : MessageTag} (ht : TagAt h b t) :
    tagObject h b.self = some ⟨b.tag, b.value⟩ := by
  rw [tagObject, ht.object]

theorem TagAt.tag_eq {h : Memory} {b : TagBlocks} {t : MessageTag} (ht : TagAt h b t) :
    Memory.tag h b.self = some t := by
  simp only [Memory.tag, ht.tagObject_eq, text_eq ht.tag, text_eq ht.value, Option.bind_eq_bind,
    Option.bind_some]

/-- An array with cells is a block. -/
theorem cells_some {h : Memory} {p : Ptr} {cs : List (Option Ptr)} (hc : cells h p = some cs) :
    p = NULL ∧ cs = [] ∨ h.blocks p = some (.array cs) := by
  unfold cells at hc
  split at hc
  · rename_i h0
    cases hc
    exact .inl ⟨h0, rfl⟩
  · unfold Memory.array at hc
    split at hc
    · rename_i heq
      cases hc
      exact .inr heq
    · cases hc

theorem cells_of_block {h : Memory} {p : Ptr} {cs : List (Option Ptr)}
    (hp : h.blocks p = some (.array cs)) : cells h p = some cs := by
  have hne : p ≠ NULL := Blocks.Heap.ne_zero hp
  rw [cells, if_neg hne, array_eq hp]

theorem cells_null (h : Memory) : cells h NULL = some [] := if_pos rfl

/-- The cells of another owner stay. -/
theorem cells_stay {S S' : Set Nat} {h h' : Memory} (hm : Moves S h S' h') {p : Ptr}
    {cs : List (Option Ptr)} (hc : cells h p = some cs) (hp : p ∈ S → p = 0) :
    cells h' p = some cs := by
  obtain ⟨rfl, rfl⟩ | hb := cells_some hc
  · exact cells_null h'
  · exact cells_of_block (hm.stays hb fun hmem => Blocks.Heap.ne_zero hb (hp hmem))

theorem TagAt.content {h : Memory} {b : TagBlocks} {t : MessageTag} (ht : TagAt h b t) {x : Ptr}
    (hx : x ∈ b.list) : ∃ c, h.blocks x = some c ∧ c.IsContent := by
  rw [TagBlocks.list, List.mem_cons, List.mem_cons, List.mem_singleton] at hx
  obtain rfl | rfl | rfl := hx
  · exact ⟨_, ht.object, trivial⟩
  · exact ⟨_, ht.tag, trivial⟩
  · exact ⟨_, ht.value, trivial⟩

theorem TagsAt.content {h : Memory} {ptrs : List TagBlocks} {tags : List MessageTag}
    (ht : TagsAt h ptrs tags) {x : Ptr} (hx : x ∈ tagBlocks ptrs) :
    ∃ c, h.blocks x = some c ∧ c.IsContent := by
  induction ht with
  | nil => cases hx
  | @cons b t ptrs tags hb ht ih =>
    rw [tagBlocks_cons] at hx
    obtain hx | hx := List.mem_append.mp hx
    · exact hb.content hx
    · exact ih hx

theorem content_of_blocks {h : Memory} {x : Ptr} {b : Block}
    (hx : ∃ c, h.blocks x = some c ∧ c.IsContent) (hb : h.blocks x = some b) : b.IsContent := by
  obtain ⟨c, hc, hcontent⟩ := hx
  rw [hb] at hc
  cases hc
  exact hcontent

/-- A tag stays where its blocks do. -/
theorem TagAt.kept {h h' : Memory} {b : TagBlocks} {t : MessageTag} (ht : TagAt h b t)
    (hkept : ∀ x ∈ b.list, ∀ c, h.blocks x = some c → c.IsContent → h'.blocks x = some c) :
    TagAt h' b t :=
  ⟨hkept _ (by simp [TagBlocks.list]) _ ht.object trivial,
    hkept _ (by simp [TagBlocks.list]) _ ht.tag trivial,
    hkept _ (by simp [TagBlocks.list]) _ ht.value trivial⟩

theorem TagsAt.kept {h h' : Memory} {ptrs : List TagBlocks} {tags : List MessageTag}
    (ht : TagsAt h ptrs tags)
    (hkept : ∀ x ∈ tagBlocks ptrs, ∀ c, h.blocks x = some c → c.IsContent → h'.blocks x = some c) :
    TagsAt h' ptrs tags := by
  induction ht with
  | nil => exact .nil
  | @cons b t ptrs tags hb ht ih =>
    rw [tagBlocks_cons] at hkept
    exact .cons (hb.kept fun x hx => hkept x (List.mem_append_left _ hx))
      (ih fun x hx => hkept x (List.mem_append_right _ hx))

theorem tagsAt_stay {S S' : Set Nat} {h h' : Memory} (hm : Moves S h S' h') {ptrs : List TagBlocks}
    {tags : List MessageTag} (ht : TagsAt h ptrs tags)
    (hS : ∀ x ∈ tagBlocks ptrs, x ∈ S → x = 0) : TagsAt h' ptrs tags :=
  ht.kept fun x hx _ hb _ => hm.stays hb fun hmem => Blocks.Heap.ne_zero hb (hS x hx hmem)

section Stored

variable {h : Memory} {p txt : Ptr} {m : Message} {arr : Ptr} {ptrs : List TagBlocks}

theorem Stored.content (hs : Stored h p txt m arr ptrs) {x : Ptr} (hx : x ∈ txt :: tagBlocks ptrs) :
    ∃ c, h.blocks x = some c ∧ c.IsContent := by
  obtain rfl | hx := List.mem_cons.mp hx
  · exact ⟨_, hs.text, trivial⟩
  · exact hs.tags.content hx

/-- **A message that is not touched stays.** -/
theorem Stored.stay {S S' : Set Nat} {h' : Memory} (hs : Stored h p txt m arr ptrs)
    (hm : Moves S h S' h') (hsep : Separate (owned p txt arr ptrs) S) :
    Stored h' p txt m arr ptrs := by
  obtain ⟨cs, hcs, hholds⟩ := hs.array
  refine ⟨hm.stays hs.object fun hmem => ?_, hm.stays hs.text fun hmem => ?_, ⟨cs, ?_, hholds⟩, ?_,
    hs.nodup⟩
  · exact Blocks.Heap.ne_zero hs.object (hsep p (.inl (.inl rfl)) hmem)
  · exact Blocks.Heap.ne_zero hs.text (hsep txt (.inr List.mem_cons_self) hmem)
  · exact cells_stay hm hcs fun hmem => hsep arr (.inl (.inr rfl)) hmem
  · exact tagsAt_stay hm hs.tags fun x hx hmem => hsep x (.inr (List.mem_cons_of_mem _ hx)) hmem

theorem Stored.length_eq (hs : Stored h p txt m arr ptrs) : ptrs.length = m.tags.length :=
  hs.tags.length_eq

/-- What a message owns was handed out. -/
theorem Stored.lt_next (hs : Stored h p txt m arr ptrs) :
    ∀ x ∈ owned p txt arr ptrs, x < h.next := by
  rintro x ((rfl | rfl) | hx)
  · exact Blocks.Heap.lt_next hs.object
  · obtain ⟨cs, hcs, _⟩ := hs.array
    obtain ⟨rfl, _⟩ | hb := cells_some hcs
    · exact h.pos
    · exact Blocks.Heap.lt_next hb
  · obtain ⟨c, hb, _⟩ := hs.content hx
    exact Blocks.Heap.lt_next hb

/-- Tags and texts stay while only the message and its array change. -/
theorem Stored.content_stay {S S' : Set Nat} {h1 : Memory} (hs : Stored h p txt m arr ptrs)
    (hm : Moves S h S' h1) (hS : ∀ x ∈ S, x = p ∨ x = arr) {x : Ptr} {c : Block}
    (hb : h.blocks x = some c) (hc : c.IsContent) : h1.blocks x = some c := by
  refine hm.stays hb fun hmem => ?_
  obtain rfl | rfl := hS x hmem
  · exact content_of_blocks ⟨c, hb, hc⟩ hs.object
  · obtain ⟨cs, hcs, _⟩ := hs.array
    obtain ⟨h0, _⟩ | harr := cells_some hcs
    · exact Blocks.Heap.ne_zero hb h0
    · exact content_of_blocks ⟨c, hb, hc⟩ harr

theorem Stored.tags_stay {S S' : Set Nat} {h1 : Memory} (hs : Stored h p txt m arr ptrs)
    (hm : Moves S h S' h1) (hS : ∀ x ∈ S, x = p ∨ x = arr) {new : List TagBlocks}
    {tags : List MessageTag} (ht : TagsAt h new tags) : TagsAt h1 new tags :=
  ht.kept fun _ _ _ hb hc => hs.content_stay hm hS hb hc

theorem Stored.ne_array (hs : Stored h p txt m arr ptrs) : p ≠ arr := by
  rintro rfl
  obtain ⟨cs, hcs, _⟩ := hs.array
  obtain ⟨rfl, _⟩ | hb := cells_some hcs
  · exact Blocks.Heap.ne_zero hs.object rfl
  · rw [hs.object] at hb
    cases hb

theorem Stored.array_block (hs : Stored h p txt m arr ptrs) (hne : m.tags ≠ []) :
    ∃ cs, h.blocks arr = some (.array cs) ∧ Holds cs (ptrs.map TagBlocks.self) := by
  obtain ⟨cs, hcs, hholds⟩ := hs.array
  obtain ⟨_, rfl⟩ | hb := cells_some hcs
  · have hlen := hholds.length_le
    rw [List.length_map, hs.length_eq, List.length_nil, Nat.le_zero,
      List.length_eq_zero_iff] at hlen
    exact absurd hlen hne
  · exact ⟨cs, hb, hholds⟩

end Stored

/-! ## Appending -/

theorem gFree_null (h : Memory) : Accounts {NULL} h ∅ h := by
  refine ⟨⟨Nat.le_refl _, fun _ _ _ => rfl, fun x hx => absurd hx (Set.notMem_empty x)⟩,
    fun x hx hb => ?_⟩
  obtain rfl | hx := hx
  · exact absurd h.null hb
  · exact absurd (h.fresh x hx) hb

theorem gFree_block {h : Memory} {p : Ptr} {b : Block} (hp : h.blocks p = some b) :
    ∃ h', gFree h p = some h' ∧ Accounts {p} h ∅ h' := by
  have hne : p ≠ NULL := Blocks.Heap.ne_zero hp
  rw [gFree, if_neg hne]
  exact Blocks.accounts_free hp

theorem gFree_spec {h : Memory} {p : Ptr} {cs : List (Option Ptr)} (hc : cells h p = some cs) :
    ∃ h', gFree h p = some h' ∧ Accounts {p} h ∅ h' := by
  obtain ⟨rfl, rfl⟩ | hb := cells_some hc
  · exact ⟨h, if_pos rfl, gFree_null h⟩
  · exact gFree_block hb

/-- **A reallocation** keeps the cells that fit, and the old array is gone. -/
theorem gRenew_spec {h : Memory} {p : Ptr} {cs : List (Option Ptr)} (hc : cells h p = some cs)
    (n : Nat) : ∃ p' h', gRenew h p n = some (p', h') ∧ cells h' p' = some (Cells.renew cs n) ∧
      Accounts {p} h {p'} h' := by
  obtain ⟨h1, hfree, hm1⟩ := gFree_spec hc
  by_cases hn : n = 0
  · refine ⟨NULL, h1, ?_, ?_, ?_⟩
    · simp only [gRenew, hc, hfree, Option.bind_eq_bind, Option.bind_some, if_pos hn]
    · rw [cells_null, hn, Cells.renew, List.take_zero, Nat.zero_sub, List.replicate_zero]
      rfl
    · have hnull := hm1.null
      rwa [insert_empty_eq] at hnull
  · refine ⟨h1.next, (h1.alloc (.array (Cells.renew cs n))).2, ?_, ?_, ?_⟩
    · simp only [gRenew, hc, hfree, Option.bind_eq_bind, Option.bind_some, if_neg hn]
      rfl
    · exact cells_of_block (Blocks.Heap.alloc_self _ _)
    · exact hm1.trans (Blocks.accounts_alloc _ _)

/-- **Storing the message** with another array: everything but the message is there already. -/
theorem setArray_spec {h h1 : Memory} {p txt arr : Ptr} {old : MessageObject} {S S' : Set Nat}
    (hp : h.blocks p = some (.message old)) (hm : Accounts S h S' h1) (hpS : p ∉ S)
    {cs : List (Option Ptr)} {ptrs : List TagBlocks} {m : Message} (hc : cells h1 arr = some cs)
    (hholds : Holds cs (ptrs.map TagBlocks.self)) (htext : h1.blocks txt = some (.text m.message))
    (htags : TagsAt h1 ptrs m.tags) (hnodup : (txt :: tagBlocks ptrs).Nodup) :
    ∃ h', h1.store p (.message ⟨m.priority, txt, m.tags.length, arr⟩) = some h' ∧
      Stored h' p txt m arr ptrs ∧ cells h' arr = some cs ∧
      Accounts (insert p S) h (insert p S') h' := by
  have hobject := hm.stays hp hpS
  obtain ⟨h', hstore, hself, hm'⟩ :=
    Blocks.accounts_store hobject (.message ⟨m.priority, txt, m.tags.length, arr⟩)
  have hcells : cells h' arr = some cs := by
    refine cells_stay hm'.toMoves hc fun hmem => ?_
    obtain ⟨h0, _⟩ | hb := cells_some hc
    · exact h0
    · rw [Set.mem_singleton_iff.mp hmem, hobject] at hb
      cases hb
  have hcontent : ∀ x c, h1.blocks x = some c → c.IsContent → h'.blocks x = some c := by
    refine fun x c hb hc => hm'.stays hb fun hmem => ?_
    rw [Set.mem_singleton_iff.mp hmem, hobject] at hb
    cases hb
    exact hc
  refine ⟨h', hstore, ⟨hself, hcontent _ _ htext trivial, ⟨cs, hcells, hholds⟩,
    htags.kept fun x _ c => hcontent x c, hnodup⟩, hcells, ?_⟩
  have hfirst := hm.union {p}
  have hsecond := hm'.union S'
  rw [Set.union_singleton, Set.union_singleton] at hfirst
  rw [Set.singleton_union] at hsecond
  exact hfirst.trans hsecond

/-- `_msg_append_tag` makes room before it writes. -/
theorem msgMakeRoom_spec {h : Memory} {p txt : Ptr} {m : Message} {arr : Ptr}
    {ptrs : List TagBlocks} (hs : Stored h p txt m arr ptrs) {size size' : Nat}
    (hle : m.tags.length ≤ size) (hgrow : msgGrow size = some size')
    (hroom : m.tags.length < size') :
    ∃ h' arr' cs, msgMakeRoom h p size = some (h', size') ∧ Stored h' p txt m arr' ptrs ∧
      h'.blocks arr' = some (.array cs) ∧ Holds cs (ptrs.map TagBlocks.self) ∧
      ptrs.length < cs.length ∧ Accounts {p, arr} h {p, arr'} h' := by
  obtain ⟨cs, hcs, hholds⟩ := hs.array
  obtain ⟨arr', h1, hrenew, hcs1, hm1⟩ := gRenew_spec hcs size'
  have hlen : ptrs.length < (Cells.renew cs size').length := by
    rw [Cells.renew_length, hs.length_eq]
    exact hroom
  have hholds1 := hholds.renew (n := size') (by
    rw [Cells.renew_length] at hlen
    rw [List.length_map]
    exact Nat.le_of_lt hlen)
  obtain ⟨h', hstore, hs', hcells, hm⟩ := setArray_spec hs.object hm1 hs.ne_array hcs1 hholds1
    (hs.content_stay hm1.toMoves (fun _ hx => .inr hx) hs.text trivial)
    (hs.tags_stay hm1.toMoves (fun _ hx => .inr hx) hs.tags) hs.nodup
  have hblock : h'.blocks arr' = some (.array (Cells.renew cs size')) := by
    obtain ⟨_, hnil⟩ | hb := cells_some hcells
    · rw [hnil] at hlen
      exact absurd hlen (Nat.not_lt_zero _)
    · exact hb
  refine ⟨h', arr', _, ?_, hs', hblock, hholds1, hlen, hm⟩
  simp only [msgMakeRoom, message_eq hs.object, Option.bind_eq_bind, Option.bind_some, if_pos hle,
    hgrow, hrenew, hstore]

/-- The tag is stored in the room there is. -/
theorem msgStoreTag_spec {h : Memory} {p txt : Ptr} {m : Message} {arr : Ptr}
    {ptrs : List TagBlocks} {cs : List (Option Ptr)} (hs : Stored h p txt m arr ptrs)
    (harr : h.blocks arr = some (.array cs)) (hholds : Holds cs (ptrs.map TagBlocks.self))
    (hroom : ptrs.length < cs.length) {b : TagBlocks} {t : MessageTag} (ht : TagAt h b t)
    (hnodup : (txt :: tagBlocks (ptrs ++ [b])).Nodup) :
    ∃ h', msgStoreTag h p b.self = some h' ∧
      Stored h' p txt (Tinu.msgAppend m [t]) arr (ptrs ++ [b]) ∧
      Accounts {p, arr} h {p, arr} h' := by
  obtain ⟨cs', hwrite, hholds', _⟩ := hholds.write_end (by rwa [List.length_map]) b.self
  obtain ⟨h1, hstore1, hself, hm1⟩ := Blocks.accounts_store harr (.array cs')
  have htags : TagsAt h1 (ptrs ++ [b]) (m.tags ++ [t]) :=
    hs.tags_stay hm1.toMoves (fun _ hx => .inr hx) (List.rel_append hs.tags (.cons ht .nil))
  have hends : ptrs.map TagBlocks.self ++ [b.self] = (ptrs ++ [b]).map TagBlocks.self := by
    rw [List.map_append, List.map_singleton]
  rw [hends] at hholds'
  obtain ⟨h', hstore, hs', _, hm⟩ := setArray_spec (m := Tinu.msgAppend m [t]) hs.object hm1
    hs.ne_array (cells_of_block hself) hholds'
    (hs.content_stay hm1.toMoves (fun _ hx => .inr hx) hs.text trivial) htags hnodup
  refine ⟨h', ?_, hs', hm⟩
  rw [List.length_map, hs.length_eq] at hwrite
  rw [Tinu.msgAppend, List.length_append, List.length_singleton] at hstore
  simp only [msgStoreTag, message_eq hs.object, array_eq harr, Option.bind_eq_bind,
    Option.bind_some, hwrite, hstore1, hstore]

/-- **`_msg_append_tag`** stores one tag more, at twice the size. -/
theorem msgAppendTag_stored {h : Memory} {p txt : Ptr} {m : Message} {arr : Ptr}
    {ptrs : List TagBlocks} (hs : Stored h p txt m arr ptrs) {size size' : Nat}
    (hle : m.tags.length ≤ size) (hgrow : msgGrow size = some size') {b : TagBlocks}
    {t : MessageTag} (ht : TagAt h b t) (hnodup : (txt :: tagBlocks (ptrs ++ [b])).Nodup) :
    ∃ h' arr', msgAppendTag h p b.self size = some (h', size') ∧
      Stored h' p txt (Tinu.msgAppend m [t]) arr' (ptrs ++ [b]) ∧
      (Tinu.msgAppend m [t]).tags.length ≤ size' ∧ Accounts {p, arr} h {p, arr'} h' := by
  have hroom : m.tags.length < size' := by
    rw [(msgGrow_some hgrow).1]
    split <;> omega
  obtain ⟨h1, arr', cs, hmake, hs1, harr1, hholds, hlt, hm1⟩ := msgMakeRoom_spec hs hle hgrow hroom
  have ht1 : TagAt h1 b t :=
    ht.kept fun _ _ _ hb hc => hs.content_stay hm1.toMoves (fun _ hx => hx) hb hc
  obtain ⟨h', hstore, hs', hm'⟩ := msgStoreTag_spec hs1 harr1 hholds hlt ht1 hnodup
  refine ⟨h', arr', ?_, hs', ?_, hm1.trans hm'⟩
  · simp only [msgAppendTag, hmake, hstore, Option.bind_eq_bind, Option.bind_some]
  · simp only [Tinu.msgAppend, List.length_append, List.length_singleton]
    omega

/-- **The loop over the arguments** stores every tag, or a size leaves `gint`. -/
theorem msgAppendTags_spec {p txt : Ptr} {new : List TagBlocks} {tags : List MessageTag} :
    ∀ {h : Memory} {m : Message} {arr : Ptr} {ptrs : List TagBlocks} {size : Nat},
      Stored h p txt m arr ptrs → TagsAt h new tags → (txt :: tagBlocks (ptrs ++ new)).Nodup →
      m.tags.length ≤ size →
        (msgAppendTags p (new.map TagBlocks.self) h size = none ∧
          gintLimit ≤ sizeAfter size tags.length) ∨
          ∃ h' arr', msgAppendTags p (new.map TagBlocks.self) h size =
              some (h', sizeAfter size tags.length) ∧
            Stored h' p txt (Tinu.msgAppend m tags) arr' (ptrs ++ new) ∧
            Accounts {p, arr} h {p, arr'} h' := by
  induction new generalizing tags with
  | nil =>
    intro h m arr ptrs size hs ht _ _
    cases ht
    refine .inr ⟨h, arr, rfl, ?_, Accounts.refl _ _⟩
    rw [Tinu.msgAppend, List.append_nil, List.append_nil]
    exact hs
  | cons b new ih =>
    intro h m arr ptrs size hs ht hnodup hle
    cases ht with
    | @cons _ t _ tags hb ht =>
    cases hgrow : msgGrow size with
    | none =>
      refine .inl ⟨?_, le_sizeAfter_of_none hgrow tags.length⟩
      simp only [List.map_cons, msgAppendTags, msgAppendTag, msgMakeRoom, message_eq hs.object,
        Option.bind_eq_bind, Option.bind_some, if_pos hle, hgrow, Option.bind_none]
    | some size1 =>
      have hsplit : ptrs ++ b :: new = ptrs ++ [b] ++ new := by
        rw [List.append_assoc, List.singleton_append]
      rw [hsplit] at hnodup ⊢
      have hfirst : (txt :: tagBlocks (ptrs ++ [b])).Nodup := by
        rw [tagBlocks_append (ptrs ++ [b])] at hnodup
        exact hnodup.sublist ((List.sublist_append_left _ _).cons_cons txt)
      obtain ⟨h1, arr1, hstep, hs1, hle1, hm1⟩ := msgAppendTag_stored hs hle hgrow hb hfirst
      have ht1 : TagsAt h1 new tags := hs.tags_stay hm1.toMoves (fun _ hx => hx) ht
      have hrest : msgAppendTags p ((b :: new).map TagBlocks.self) h size =
          msgAppendTags p (new.map TagBlocks.self) h1 size1 := by
        simp only [List.map_cons, msgAppendTags, hstep, Option.bind_eq_bind, Option.bind_some]
      have hsize : sizeAfter size (t :: tags).length = sizeAfter size1 tags.length := by
        rw [(msgGrow_some hgrow).1]
        rfl
      have hm : Tinu.msgAppend (Tinu.msgAppend m [t]) tags = Tinu.msgAppend m (t :: tags) := by
        simp only [Tinu.msgAppend, List.append_assoc, List.singleton_append]
      rw [hrest, hsize]
      obtain hfail | ⟨h2, arr2, hrun, hs2, hm2⟩ := ih hs1 ht1 hnodup hle1
      · exact .inl hfail
      · rw [hm] at hs2
        exact .inr ⟨h2, arr2, hrun, hs2, hm1.trans hm2⟩

/-- Cutting the array to the tags. -/
theorem msgFit_spec {h : Memory} {p txt : Ptr} {m : Message} {arr : Ptr} {ptrs : List TagBlocks}
    (hs : Stored h p txt m arr ptrs) :
    ∃ h' arr', msgFit h p = some h' ∧ Stored h' p txt m arr' ptrs ∧
      Accounts {p, arr} h {p, arr'} h' := by
  obtain ⟨cs, hcs, hholds⟩ := hs.array
  obtain ⟨arr', h1, hrenew, hcs1, hm1⟩ := gRenew_spec hcs m.tags.length
  obtain ⟨h', hstore, hs', _, hm⟩ := setArray_spec hs.object hm1 hs.ne_array hcs1
    (hholds.renew (by rw [List.length_map]; exact Nat.le_of_eq hs.length_eq))
    (hs.content_stay hm1.toMoves (fun _ hx => .inr hx) hs.text trivial)
    (hs.tags_stay hm1.toMoves (fun _ hx => .inr hx) hs.tags) hs.nodup
  refine ⟨h', arr', ?_, hs', hm⟩
  simp only [msgFit, message_eq hs.object, Option.bind_eq_bind, Option.bind_some, hrenew, hstore]

/-- **`msg_vappend`** of tags that are there already appends them, or a size leaves `gint`. -/
theorem msgVappend_spec {h : Memory} {p txt : Ptr} {m : Message} {arr : Ptr}
    {ptrs new : List TagBlocks} {tags : List MessageTag} (hs : Stored h p txt m arr ptrs)
    (ht : TagsAt h new tags) (hnodup : (txt :: tagBlocks (ptrs ++ new)).Nodup) :
    (msgVappend h p (new.map TagBlocks.self) = none ∧
      gintLimit ≤ sizeAfter m.tags.length tags.length) ∨
      ∃ h' arr', msgVappend h p (new.map TagBlocks.self) = some h' ∧
        Stored h' p txt (Tinu.msgAppend m tags) arr' (ptrs ++ new) ∧
        Accounts {p, arr} h {p, arr'} h' := by
  simp only [msgVappend, message_eq hs.object, Option.bind_eq_bind, Option.bind_some]
  obtain ⟨hfail, hlimit⟩ | ⟨h1, arr1, hrun, hs1, hm1⟩ :=
    msgAppendTags_spec hs ht hnodup (Nat.le_refl _)
  · exact .inl ⟨by rw [hfail, Option.bind_none], hlimit⟩
  · obtain ⟨h2, arr2, hfit, hs2, hm2⟩ := msgFit_spec hs1
    exact .inr ⟨h2, arr2, by rw [hrun, Option.bind_some, hfit], hs2, hm1.trans hm2⟩

/-- A new tag is in three fresh blocks. -/
theorem newTag_spec (h : Memory) (t : MessageTag) :
    ∃ b h', newTag h t = (b.self, h') ∧ TagAt h' b t ∧ b.list.Nodup ∧
      (∀ x ∈ b.list, h.next ≤ x ∧ x < h'.next) ∧ Accounts ∅ h {x | x ∈ b.list} h' := by
  have hm1 := Blocks.accounts_alloc h (.text t.tag)
  have hm2 := Blocks.accounts_alloc (h.alloc (.text t.tag)).2 (.text t.value)
  have hm3 := Blocks.accounts_alloc ((h.alloc (.text t.tag)).2.alloc (.text t.value)).2
    (.tag ⟨h.next, h.next + 1⟩)
  refine ⟨⟨h.next + 2, h.next, h.next + 1⟩, (newTag h t).2, rfl, ⟨?_, ?_, ?_⟩, ?_,
    fun x hx => ?_, ?_⟩
  · exact Blocks.Heap.alloc_self _ _
  · exact hm3.stays (hm2.stays (Blocks.Heap.alloc_self h _) (Set.notMem_empty _))
      (Set.notMem_empty _)
  · exact hm3.stays (Blocks.Heap.alloc_self (h.alloc (.text t.tag)).2 _) (Set.notMem_empty _)
  · simp [TagBlocks.list]
  · have hlast : (newTag h t).2.next = h.next + 3 := rfl
    simp only [TagBlocks.list, List.mem_cons, List.not_mem_nil, or_false] at hx
    rw [hlast]
    obtain rfl | rfl | rfl := hx
    · exact ⟨Nat.le_add_right _ _, Nat.lt_succ_self _⟩
    · exact ⟨Nat.le_refl _, Nat.lt_add_of_pos_right (Nat.succ_pos 2)⟩
    · exact ⟨Nat.le_add_right _ _, Nat.lt_succ_of_lt (Nat.lt_succ_self _)⟩
  · have hsecond := hm2.union {h.next}
    rw [Set.empty_union] at hsecond
    have hthird := hm3.union ({(h.alloc (.text t.tag)).2.next} ∪ {h.next})
    rw [Set.empty_union] at hthird
    have hset : ({((h.alloc (.text t.tag)).2.alloc (.text t.value)).2.next} : Set Ptr) ∪
        ({(h.alloc (.text t.tag)).2.next} ∪ {h.next}) =
          {x | x ∈ (⟨h.next + 2, h.next, h.next + 1⟩ : TagBlocks).list} := by
      ext x
      simp only [TagBlocks.list, Set.mem_union, Set.mem_singleton_iff, Set.mem_ofPred_eq,
        List.mem_cons, List.not_mem_nil, or_false]
      show x = h.next + 2 ∨ x = h.next + 1 ∨ x = h.next ↔ _
      tauto
    rw [← hset]
    exact (hm1.trans hsecond).trans hthird

/-- The tags of the arguments are fresh. -/
theorem newTags_spec (tags : List MessageTag) (h : Memory) :
    ∃ ps h', newTags tags h = (ps.map TagBlocks.self, h') ∧ TagsAt h' ps tags ∧
      (tagBlocks ps).Nodup ∧ (∀ x ∈ tagBlocks ps, h.next ≤ x) ∧
      Accounts ∅ h {x | x ∈ tagBlocks ps} h' := by
  induction tags generalizing h with
  | nil =>
    refine ⟨[], h, rfl, .nil, List.nodup_nil, fun _ hx => (List.not_mem_nil hx).elim, ?_⟩
    rw [tagBlocks_nil_set]
    exact Accounts.refl ∅ h
  | cons t tags ih =>
    obtain ⟨b, h1, hnew, ht, hnodup, hfresh, hm1⟩ := newTag_spec h t
    obtain ⟨ps, h', hrest, hts, hnodups, hfreshs, hm⟩ := ih h1
    have ht' : TagAt h' b t :=
      ht.kept fun _ _ _ hb _ => hm.stays hb (Set.notMem_empty _)
    refine ⟨b :: ps, h', ?_, .cons ht' hts, ?_, ?_, ?_⟩
    · simp only [newTags, hnew, hrest, List.map_cons]
    · rw [tagBlocks_cons]
      refine List.nodup_append.mpr ⟨hnodup, hnodups, ?_⟩
      rintro x hx y hy rfl
      exact absurd (hfresh x hx).2 (Nat.not_lt_of_le (hfreshs x hy))
    · intro x hx
      rw [tagBlocks_cons] at hx
      obtain hx | hx := List.mem_append.mp hx
      · exact (hfresh x hx).1
      · exact Nat.le_trans hm1.next_le (hfreshs x hx)
    · have hall := hm.union {x | x ∈ b.list}
      rw [Set.empty_union] at hall
      rw [tagBlocks_cons_set, Set.union_comm]
      exact hm1.trans hall

/-- What a call on a message leaves: every block of it is accounted for. -/
def Leaves (h : Memory) (p txt arr : Ptr) (ptrs : List TagBlocks) (m : Message) (h' : Memory) :
    Prop :=
  ∃ arr' ptrs', Stored h' p txt m arr' ptrs' ∧
    Accounts (owned p txt arr ptrs) h (owned p txt arr' ptrs') h'

theorem Leaves.refl {h : Memory} {p txt arr : Ptr} {ptrs : List TagBlocks} {m : Message}
    (hs : Stored h p txt m arr ptrs) : Leaves h p txt arr ptrs m h :=
  ⟨arr, ptrs, hs, Accounts.refl _ _⟩

/-- **`msg_append`** appends new tags, or a size leaves `gint`. -/
theorem msgAppend_spec {h : Memory} {p txt : Ptr} {m : Message} {arr : Ptr} {ptrs : List TagBlocks}
    (hs : Stored h p txt m arr ptrs) (tags : List MessageTag) :
    (msgAppend h p tags = none ∧ gintLimit ≤ sizeAfter m.tags.length tags.length) ∨
      ∃ h' arr' new, msgAppend h p tags = some h' ∧
        Stored h' p txt (Tinu.msgAppend m tags) arr' (ptrs ++ new) ∧
        (∀ x ∈ tagBlocks new, h.next ≤ x) ∧
        Accounts {p, arr} h ({p, arr'} ∪ {x | x ∈ tagBlocks new}) h' := by
  obtain ⟨new, h1, hnew, ht, hnodup, hfresh, hm1⟩ := newTags_spec tags h
  have hs1 := hs.stay hm1.toMoves fun x _ hx => absurd hx (Set.notMem_empty x)
  have hall : (txt :: tagBlocks (ptrs ++ new)).Nodup := by
    rw [tagBlocks_append, ← List.cons_append]
    refine List.nodup_append.mpr ⟨hs.nodup, hnodup, ?_⟩
    rintro x hx y hy rfl
    exact absurd (hs.lt_next x (.inr hx)) (Nat.not_lt_of_le (hfresh x hy))
  rw [msgAppend, hnew]
  obtain hfail | ⟨h2, arr2, hrun, hs2, hm2⟩ := msgVappend_spec hs1 ht hall
  · exact .inl hfail
  · refine .inr ⟨h2, arr2, new, hrun, hs2, hfresh, ?_⟩
    have hfirst := hm1.union {p, arr}
    rw [Set.empty_union, Set.union_comm] at hfirst
    exact hfirst.trans (hm2.union _)

/-- The new tags become the message's. -/
theorem owned_accounts {h h' : Memory} {p arr arr' : Ptr} {new : List TagBlocks}
    (hm : Accounts {p, arr} h ({p, arr'} ∪ {x | x ∈ tagBlocks new}) h') (txt : Ptr)
    (ptrs : List TagBlocks) :
    Accounts (owned p txt arr ptrs) h (owned p txt arr' (ptrs ++ new)) h' := by
  rw [owned_append, Set.union_comm {x | x ∈ txt :: tagBlocks ptrs}, ← Set.union_assoc]
  exact hm.union _

/-! ## Reading a message -/

theorem tagsAt_split {h : Memory} {ptrs : List TagBlocks} {tp tq : List MessageTag}
    {t : MessageTag} (ht : TagsAt h ptrs (tp ++ t :: tq)) :
    ∃ pp b pq, ptrs = pp ++ b :: pq ∧ TagsAt h pp tp ∧ TagAt h b t ∧ TagsAt h pq tq := by
  have htake := List.forall₂_take_append _ _ _ ht
  have hdrop := List.forall₂_drop_append _ _ _ ht
  cases hptrs : ptrs.drop tp.length with
  | nil =>
    rw [hptrs] at hdrop
    cases hdrop
  | cons b pq =>
    rw [hptrs] at hdrop
    cases hdrop with
    | cons hb hrest =>
    refine ⟨ptrs.take tp.length, b, pq, ?_, htake, hb, hrest⟩
    rw [← hptrs, List.take_append_drop]

section Reading

variable {h : Memory} {p txt : Ptr} {m : Message} {arr : Ptr} {ptrs : List TagBlocks}

/-- `self->m_tags[i]`. -/
theorem tagAt_spec (hs : Stored h p txt m arr ptrs) {tp tq : List MessageTag} {t : MessageTag}
    (hm : m.tags = tp ++ t :: tq) :
    ∃ pp b pq, ptrs = pp ++ b :: pq ∧ TagsAt h pp tp ∧ TagAt h b t ∧ TagsAt h pq tq ∧
      tagAt h ⟨m.priority, txt, m.tags.length, arr⟩ tp.length = some (b.self, t) := by
  obtain ⟨pp, b, pq, rfl, htp, hb, htq⟩ := tagsAt_split (hm ▸ hs.tags)
  obtain ⟨cs, harr, hholds⟩ := hs.array_block (by rw [hm]; simp)
  refine ⟨pp, b, pq, rfl, htp, hb, htq, ?_⟩
  have hlen : pp.length = tp.length := htp.length_eq
  have hread : Cells.read cs tp.length = some b.self := by
    rw [hholds.read (by rw [← hlen]; simp)]
    simp [← hlen]
  simp only [tagAt, array_eq harr, hread, hb.tag_eq, Option.bind_eq_bind, Option.bind_some]

theorem msgFindLoop_spec (hs : Stored h p txt m arr ptrs) (name : CString) :
    ∀ (q tp : List MessageTag), m.tags = tp ++ q →
      msgFindLoop h ⟨m.priority, txt, m.tags.length, arr⟩ name tp.length q.length =
        some (q.find? fun t => t.tag = name)
  | [], _, _ => rfl
  | t :: q, tp, hm => by
    obtain ⟨_, _, _, _, _, _, _, hat⟩ := tagAt_spec hs hm
    have ih := msgFindLoop_spec hs name q (tp ++ [t]) (by rw [hm]; simp)
    rw [List.length_append, List.length_singleton] at ih
    rw [List.length_cons, msgFindLoop, hat]
    by_cases ht : t.tag = name
    · simp [ht]
    · simp [ht, ih]

/-- **`msg_find_tag`** finds the first tag of the name. -/
theorem msgFindTag_spec (hs : Stored h p txt m arr ptrs) (name : CString) :
    msgFindTag h p name = some (m.findTag name) := by
  rw [msgFindTag, message_eq hs.object]
  exact msgFindLoop_spec hs name m.tags [] rfl

/-- The text that `msg_format_simple` gives of a message. -/
def formatSimple (m : Message) : CString := m.message ++ m.tags.flatMap formatTag

theorem msgFormatLoop_spec (hs : Stored h p txt m arr ptrs) :
    ∀ (q tp : List MessageTag) (str : CString), m.tags = tp ++ q →
      msgFormatLoop h ⟨m.priority, txt, m.tags.length, arr⟩ str tp.length q.length =
        some (str ++ q.flatMap formatTag)
  | [], _, str, _ => by rw [List.flatMap_nil, List.append_nil]; rfl
  | t :: q, tp, str, hm => by
    obtain ⟨_, _, _, _, _, _, _, hat⟩ := tagAt_spec hs hm
    have ih := msgFormatLoop_spec hs q (tp ++ [t]) (str ++ formatTag t) (by rw [hm]; simp)
    rw [List.length_append, List.length_singleton] at ih
    rw [List.length_cons, msgFormatLoop, hat, List.flatMap_cons, ← List.append_assoc]
    exact ih

/-- **`msg_format_simple`** gives the text and the tags in order. -/
theorem msgFormatSimple_spec (hs : Stored h p txt m arr ptrs) :
    msgFormatSimple h p = some (formatSimple m) := by
  simp only [msgFormatSimple, message_eq hs.object, text_eq hs.text, Option.bind_eq_bind,
    Option.bind_some]
  exact msgFormatLoop_spec hs m.tags [] m.message rfl

theorem tagsFrom_spec (hs : Stored h p txt m arr ptrs) :
    ∀ (q tp : List MessageTag), m.tags = tp ++ q →
      tagsFrom h ⟨m.priority, txt, m.tags.length, arr⟩ tp.length q.length = some q
  | [], _, _ => rfl
  | t :: q, tp, hm => by
    obtain ⟨_, _, _, _, _, _, _, hat⟩ := tagAt_spec hs hm
    have ih := tagsFrom_spec hs q (tp ++ [t]) (by rw [hm]; simp)
    rw [List.length_append, List.length_singleton] at ih
    simp only [List.length_cons, tagsFrom, hat, ih, Option.bind_eq_bind, Option.bind_some]

/-- **The message can be read** where it is stored. -/
theorem msgRead_spec (hs : Stored h p txt m arr ptrs) : msgRead h p = some m := by
  have htags := tagsFrom_spec hs m.tags [] rfl
  rw [List.length_nil] at htags
  simp only [msgRead, message_eq hs.object, text_eq hs.text, Option.bind_eq_bind, Option.bind_some,
    htags]

end Reading

/-! ## Removing -/

/-- **`_msg_tag_clear`** gives back the tag and its two texts. -/
theorem msgTagClear_spec {h : Memory} {b : TagBlocks} {t : MessageTag} (ht : TagAt h b t)
    (hnodup : b.list.Nodup) :
    ∃ h', msgTagClear h b.self = some h' ∧ Accounts {x | x ∈ b.list} h ∅ h' := by
  simp only [TagBlocks.list, List.nodup_cons, List.mem_cons, List.not_mem_nil, or_false,
    not_or] at hnodup
  obtain ⟨⟨hself, hself'⟩, htv, -⟩ := hnodup
  have hne : b.self ≠ NULL := Blocks.Heap.ne_zero ht.object
  obtain ⟨h1, hfree1, hm1⟩ := gFree_block ht.tag
  have hvalue := hm1.stays ht.value fun he => htv (Set.mem_singleton_iff.mp he).symm
  have hobject1 := hm1.stays ht.object fun he => hself (Set.mem_singleton_iff.mp he)
  obtain ⟨h2, hfree2, hm2⟩ := gFree_block hvalue
  have hobject2 := hm2.stays hobject1 fun he => hself' (Set.mem_singleton_iff.mp he)
  obtain ⟨h3, hfree3, hm3⟩ := gFree_block hobject2
  refine ⟨h3, ?_, ?_⟩
  · simp only [msgTagClear, if_neg hne, ht.tagObject_eq, hfree1, hfree2, hfree3,
      Option.bind_eq_bind, Option.bind_some]
  · have hset : {x | x ∈ b.list} = ({b.tag} ∪ {b.value}) ∪ ({b.self} : Set Ptr) := by
      ext x
      simp only [TagBlocks.list, Set.mem_union, Set.mem_singleton_iff, Set.mem_ofPred_eq,
        List.mem_cons, List.not_mem_nil, or_false]
      tauto
    rw [hset]
    exact (hm1.release hm2).release hm3

/-- Of some tags the first is given back, and the others stay. -/
theorem msgTagClear_cons {h : Memory} {b : TagBlocks} {t : MessageTag} {ptrs : List TagBlocks}
    {tags : List MessageTag} (hb : TagAt h b t) (ht : TagsAt h ptrs tags)
    (hnodup : (tagBlocks (b :: ptrs)).Nodup) :
    ∃ h', msgTagClear h b.self = some h' ∧ TagsAt h' ptrs tags ∧ (tagBlocks ptrs).Nodup ∧
      Accounts {x | x ∈ b.list} h ∅ h' := by
  rw [tagBlocks_cons] at hnodup
  obtain ⟨hfirst, hrest, hdisjoint⟩ := List.nodup_append.mp hnodup
  obtain ⟨h', hclear, hm⟩ := msgTagClear_spec hb hfirst
  exact ⟨h', hclear, tagsAt_stay hm.toMoves ht fun x hx hmem => absurd rfl (hdisjoint x hmem x hx),
    hrest, hm⟩

/-- Of distinct blocks those of one tag are distinct, and not among the others. -/
theorem nodup_middle {txt : Ptr} {pp pq : List TagBlocks} {b : TagBlocks}
    (hnodup : (txt :: tagBlocks (pp ++ b :: pq)).Nodup) :
    b.list.Nodup ∧ (txt :: tagBlocks (pp ++ pq)).Nodup ∧
      ∀ x ∈ b.list, x ∉ txt :: tagBlocks (pp ++ pq) := by
  have hperm : (txt :: tagBlocks (pp ++ b :: pq)).Perm
      (b.list ++ (txt :: tagBlocks (pp ++ pq))) := by
    rw [List.perm_iff_count]
    intro x
    simp only [tagBlocks_append, tagBlocks_cons, List.count_cons, List.count_append]
    omega
  obtain ⟨hb, hrest, hdisjoint⟩ := List.nodup_append.mp (hperm.nodup_iff.mp hnodup)
  exact ⟨hb, hrest, fun x hx hmem => hdisjoint x hx x hmem rfl⟩

/-- What the `memmove` leaves, the last tag needing none. -/
theorem msgMoveTags_spec {self : MessageObject} {cs : List (Option Ptr)} {pp pq : List Ptr}
    {t : Ptr} (hcount : self.tagCount = pp.length + (pq.length + 1))
    (hholds : Holds cs (pp ++ t :: pq)) :
    ∃ cs', msgMoveTags self pp.length cs = some cs' ∧ Holds cs' (pp ++ pq) :=
  hholds.closeGap_or hcount

/-- Removing the tag at an index gives it back and closes the gap in the array. -/
theorem msgRemoveAt_spec {h : Memory} {p txt : Ptr} {m : Message} {arr : Ptr}
    {pp pq : List TagBlocks} {b : TagBlocks} {tp tq : List MessageTag} {t : MessageTag}
    (hs : Stored h p txt m arr (pp ++ b :: pq)) (hm : m.tags = tp ++ t :: tq)
    (htp : TagsAt h pp tp) (hb : TagAt h b t) (htq : TagsAt h pq tq) :
    ∃ h', msgRemoveAt h p ⟨m.priority, txt, m.tags.length, arr⟩ pp.length b.self = some h' ∧
      Leaves h p txt arr (pp ++ b :: pq) { m with tags := tp ++ tq } h' := by
  obtain ⟨cs, harr, hholds⟩ := hs.array_block (by rw [hm]; simp)
  obtain ⟨hbnodup, hrest, hnot⟩ := nodup_middle hs.nodup
  have hcount : m.tags.length = pp.length + (pq.length + 1) := by
    rw [hm, List.length_append, List.length_cons, htp.length_eq, htq.length_eq]
  obtain ⟨h1, hclear, hm1⟩ := msgTagClear_spec hb hbnodup
  have harr1 := hm1.stays harr fun hmem => content_of_blocks (hb.content hmem) harr
  rw [List.map_append, List.map_cons] at hholds
  obtain ⟨cs', hmove, hholds'⟩ : ∃ cs', msgMoveTags ⟨m.priority, txt, m.tags.length, arr⟩
      (pp.map TagBlocks.self).length cs = some cs' ∧
        Holds cs' (pp.map TagBlocks.self ++ pq.map TagBlocks.self) :=
    msgMoveTags_spec (by rw [List.length_map, List.length_map]; exact hcount) hholds
  rw [List.length_map] at hmove
  rw [← List.map_append] at hholds'
  obtain ⟨h2, hstore2, hself2, hm2⟩ := Blocks.accounts_store harr1 (.array cs')
  have hm12 : Accounts ({x | x ∈ b.list} ∪ {arr}) h {arr} h2 := by
    have hfirst := hm1.union {arr}
    rw [Set.empty_union] at hfirst
    exact hfirst.trans hm2
  -- the other texts and tags are not among what was given back
  have hkept : ∀ x ∈ txt :: tagBlocks (pp ++ pq), ∀ c, h.blocks x = some c → c.IsContent →
      h2.blocks x = some c := fun x hx c hc hcontent => by
    refine hm12.stays hc ?_
    rintro (hmem | he)
    · exact hnot x hmem hx
    · rw [Set.mem_singleton_iff.mp he] at hc
      exact content_of_blocks ⟨c, hc, hcontent⟩ harr
  have hp : p ∉ ({x | x ∈ b.list} ∪ {arr} : Set Nat) := by
    rintro (hmem | he)
    · exact content_of_blocks (hb.content hmem) hs.object
    · exact hs.ne_array he
  have htags : TagsAt h (pp ++ pq) (tp ++ tq) := List.rel_append htp htq
  obtain ⟨h3, hstore3, hs3, _, hm3⟩ := setArray_spec (m := { m with tags := tp ++ tq }) hs.object
    hm12 hp (cells_of_block hself2) hholds' (hkept txt List.mem_cons_self _ hs.text trivial)
    (htags.kept fun x hx => hkept x (List.mem_cons_of_mem _ hx)) hrest
  obtain ⟨h4, arr4, hfit, hs4, hm4⟩ := msgFit_spec hs3
  refine ⟨h4, ?_, arr4, pp ++ pq, hs4, ?_⟩
  · have hlen : (tp ++ tq).length = m.tags.length - 1 := by
      rw [hcount, List.length_append, ← htp.length_eq, ← htq.length_eq]
      omega
    rw [hlen] at hstore3
    simp only [msgRemoveAt, hclear, array_eq harr1, hmove, hstore2, hstore3, hfit,
      Option.bind_eq_bind, Option.bind_some]
  · have hall := (hm3.trans hm4).union {x | x ∈ txt :: tagBlocks (pp ++ pq)}
    have hset : owned p txt arr (pp ++ b :: pq) =
        insert p ({x | x ∈ b.list} ∪ {arr}) ∪ {x | x ∈ txt :: tagBlocks (pp ++ pq)} := by
      ext x
      simp only [owned, tagBlocks_append, tagBlocks_cons, Set.mem_union, Set.mem_insert_iff,
        Set.mem_singleton_iff, Set.mem_ofPred_eq, List.mem_cons, List.mem_append]
      tauto
    rw [hset]
    exact hall

/-- The loop of `msg_remove_tag` with `tp` behind it, none of it of the name. -/
theorem msgRemoveLoop_spec {h : Memory} {p txt : Ptr} {m : Message} {arr : Ptr}
    {ptrs : List TagBlocks} (hs : Stored h p txt m arr ptrs) (name : CString) :
    ∀ (q tp : List MessageTag), m.tags = tp ++ q →
      ∃ h', msgRemoveLoop h p ⟨m.priority, txt, m.tags.length, arr⟩ name tp.length q.length =
          some h' ∧
        Leaves h p txt arr ptrs { m with tags := tp ++ q.eraseP fun t => t.tag = name } h'
  | [], tp, hm => by
    rw [List.eraseP_nil, ← hm]
    exact ⟨h, rfl, Leaves.refl hs⟩
  | t :: q, tp, hm => by
    obtain ⟨pp, b, pq, rfl, htp, hb, htq, hat⟩ := tagAt_spec hs hm
    rw [List.length_cons, msgRemoveLoop, hat]
    by_cases ht : t.tag = name
    · obtain ⟨h', hremove, hleaves⟩ := msgRemoveAt_spec hs hm htp hb htq
      rw [htp.length_eq] at hremove
      rw [List.eraseP_cons_of_pos (by simpa using ht)]
      refine ⟨h', ?_, hleaves⟩
      simp only [Option.bind_eq_bind, Option.bind_some, if_pos ht, hremove]
    · obtain ⟨h', hloop, hleaves⟩ := msgRemoveLoop_spec hs name q (tp ++ [t]) (by rw [hm]; simp)
      rw [List.length_append, List.length_singleton] at hloop
      rw [List.append_assoc, List.singleton_append] at hleaves
      rw [List.eraseP_cons_of_neg (by simpa using ht)]
      refine ⟨h', ?_, hleaves⟩
      simp only [Option.bind_eq_bind, Option.bind_some, if_neg ht, hloop]

/-- **`msg_remove_tag`** removes the first tag of the name. -/
theorem msgRemoveTag_spec {h : Memory} {p txt : Ptr} {m : Message} {arr : Ptr}
    {ptrs : List TagBlocks} (hs : Stored h p txt m arr ptrs) (name : CString) :
    ∃ h', msgRemoveTag h p name = some h' ∧ Leaves h p txt arr ptrs (m.removeTag name) h' := by
  rw [msgRemoveTag, message_eq hs.object]
  exact msgRemoveLoop_spec hs name m.tags [] rfl

/-! ## Any calls -/

def messageCall (p : Ptr) (h : Memory) : MessageCall → Option Memory
  | .append tags => msgAppend h p tags
  | .removeTag tag => msgRemoveTag h p tag

/-- Calls on the message at `p`. -/
def messageRun (p : Ptr) (h : Memory) (calls : List MessageCall) : Option Memory :=
  calls.foldlM (messageCall p) h

theorem messageCall_spec {h : Memory} {p txt : Ptr} {m : Message} {arr : Ptr}
    {ptrs : List TagBlocks} (hs : Stored h p txt m arr ptrs) (call : MessageCall) :
    (messageCall p h call = none ∧ ¬ SizesFit m call) ∨
      ∃ h', messageCall p h call = some h' ∧ Leaves h p txt arr ptrs (call.apply m) h' := by
  cases call with
  | append tags =>
    obtain ⟨hfail, hlimit⟩ | ⟨h', arr', new, hdone, hs', -, hm⟩ := msgAppend_spec hs tags
    · exact .inl ⟨hfail, Nat.not_lt_of_le hlimit⟩
    · exact .inr ⟨h', hdone, arr', ptrs ++ new, hs', owned_accounts hm txt ptrs⟩
  | removeTag tag => exact .inr (msgRemoveTag_spec hs tag)

/-- **Any calls on a message** change the list of its tags, and only what it owns; a run fails
when a size leaves `gint`. -/
theorem messageRun_spec (calls : List MessageCall) :
    ∀ {h : Memory} {p txt : Ptr} {m : Message} {arr : Ptr} {ptrs : List TagBlocks},
      Stored h p txt m arr ptrs →
      (messageRun p h calls = none ∧ ¬ GuardedRun.EveryStep MessageCall.apply SizesFit m calls) ∨
        ∃ h', messageRun p h calls = some h' ∧
          Leaves h p txt arr ptrs (calls.foldl MessageCall.apply m) h' := by
  induction calls with
  | nil =>
    intro h p txt m arr ptrs hs
    exact .inr ⟨h, rfl, Leaves.refl hs⟩
  | cons call calls ih =>
    intro h p txt m arr ptrs hs
    rw [GuardedRun.everyStep_cons, messageRun, List.foldlM_cons]
    obtain ⟨hfail, hsizes⟩ | ⟨h1, hcall, arr1, ptrs1, hs1, hm1⟩ := messageCall_spec hs call
    · exact .inl ⟨by rw [hfail]; rfl, fun hall => hsizes hall.1⟩
    · rw [hcall, Option.bind_eq_bind, Option.bind_some]
      obtain ⟨hfail, hsizes⟩ | ⟨h2, hrun, arr2, ptrs2, hs2, hm2⟩ := ih hs1
      · exact .inl ⟨hfail, fun hall => hsizes hall.2⟩
      · exact .inr ⟨h2, hrun, arr2, ptrs2, hs2, hm1.trans hm2⟩

/-- **Calls on one message leave another as it is.** -/
theorem messageRun_other {h h' : Memory} {p txt q txt' arr arr' : Ptr} {m m' : Message}
    {ptrs ptrs' : List TagBlocks} {calls : List MessageCall} (hs : Stored h p txt m arr ptrs)
    (hs' : Stored h q txt' m' arr' ptrs')
    (hsep : Separate (owned q txt' arr' ptrs') (owned p txt arr ptrs))
    (hrun : messageRun p h calls = some h') :
    Stored h' q txt' m' arr' ptrs' := by
  obtain ⟨hfail, _⟩ | ⟨h1, hrun1, arr1, ptrs1, _, hm⟩ := messageRun_spec calls hs
  · rw [hfail] at hrun
    cases hrun
  · rw [hrun1] at hrun
    cases hrun
    exact hs'.stay hm.toMoves hsep

/-! ## New messages -/

/-- A new message owns its text, and nothing else. -/
theorem newMessage_spec (h : Memory) (priority : Int) (msg : CString) :
    ∃ h', newMessage h priority msg = (h.next + 1, h') ∧
      Stored h' (h.next + 1) h.next (msgCreate priority msg []) NULL [] ∧
      Accounts ∅ h (owned (h.next + 1) h.next NULL []) h' := by
  have hm1 := Blocks.accounts_alloc h (.text msg)
  have hm2 := Blocks.accounts_alloc (h.alloc (.text msg)).2 (.message ⟨priority, h.next, 0, NULL⟩)
  refine ⟨_, rfl, ⟨Blocks.Heap.alloc_self _ _, ?_, ⟨[], cells_null _, [], rfl⟩, .nil,
    List.nodup_singleton _⟩, ?_⟩
  · exact hm2.stays (Blocks.Heap.alloc_self h _) (Set.notMem_empty _)
  · have hsecond := hm2.null.union {h.next}
    rw [Set.empty_union] at hsecond
    have hset : owned (h.next + 1) h.next NULL [] =
        insert 0 {(h.alloc (.text msg)).2.next} ∪ {h.next} := by
      ext x
      simp only [owned, tagBlocks, List.flatMap_nil, Set.mem_union, Set.mem_insert_iff,
        Set.mem_singleton_iff, Set.mem_ofPred_eq, List.mem_singleton]
      show _ ↔ (x = NULL ∨ x = h.next + 1) ∨ x = h.next
      tauto
    rw [hset]
    exact hm1.trans hsecond

/-- **`msg_vcreate`** stores the message of its tags, which are there already. -/
theorem msgVcreate_spec {h : Memory} {new : List TagBlocks} {tags : List MessageTag}
    (ht : TagsAt h new tags) (hnodup : (tagBlocks new).Nodup)
    (hfit : sizeAfter 0 tags.length < gintLimit) (priority : Int) (msg : CString) :
    ∃ p txt h' arr, msgVcreate h priority msg (new.map TagBlocks.self) = some (p, h') ∧
      Stored h' p txt (msgCreate priority msg tags) arr new ∧
      Accounts {x | x ∈ tagBlocks new} h (owned p txt arr new) h' := by
  obtain ⟨h1, hnew, hs1, hm1⟩ := newMessage_spec h priority msg
  have ht1 := tagsAt_stay hm1.toMoves ht fun _ _ hx => absurd hx (Set.notMem_empty _)
  have hall : (h.next :: tagBlocks ([] ++ new)).Nodup := by
    refine List.nodup_cons.mpr ⟨fun hmem => ?_, hnodup⟩
    obtain ⟨c, hb, -⟩ := ht.content hmem
    exact absurd (Blocks.Heap.lt_next hb) (Nat.lt_irrefl _)
  obtain ⟨_, hlimit⟩ | ⟨h2, arr2, hrun, hs2, hm2⟩ :=
    msgAppendTags_spec hs1 ht1 hall (Nat.le_refl 0)
  · exact absurd hfit (Nat.not_lt_of_le hlimit)
  obtain ⟨h3, arr3, hfitted, hs3, hm3⟩ := msgFit_spec hs2
  refine ⟨h.next + 1, h.next, h3, arr3, ?_, hs3, ?_⟩
  · simp only [msgVcreate, hnew, hrun, hfitted, Option.bind_eq_bind, Option.bind_some]
  · have hfirst := hm1.union {x | x ∈ tagBlocks new}
    have hrest := (hm2.trans hm3).union {x | x ∈ h.next :: tagBlocks new}
    have hset : owned (h.next + 1) h.next NULL [] ∪ {x | x ∈ tagBlocks new} =
        {h.next + 1, NULL} ∪ {x | x ∈ h.next :: tagBlocks new} := by
      ext x
      simp only [owned, tagBlocks, List.flatMap_nil, Set.mem_union, Set.mem_ofPred_eq,
        List.mem_cons, List.not_mem_nil, or_false, or_assoc]
    rw [Set.empty_union, hset] at hfirst
    exact hfirst.trans hrest

/-- `msg_create`, with the tags of its arguments. -/
theorem msgCreate_spec (h : Memory) (priority : Int) (msg : CString) (tags : List MessageTag)
    (hfit : sizeAfter 0 tags.length < gintLimit) :
    ∃ p txt h' arr ptrs,
      msgVcreate (newTags tags h).2 priority msg (newTags tags h).1 = some (p, h') ∧
      Stored h' p txt (msgCreate priority msg tags) arr ptrs ∧
      Accounts ∅ h (owned p txt arr ptrs) h' := by
  obtain ⟨new, h1, hnew, ht, hnodup, -, hm1⟩ := newTags_spec tags h
  obtain ⟨p, txt, h2, arr, hcreate, hs, hm2⟩ := msgVcreate_spec ht hnodup hfit priority msg
  rw [hnew]
  exact ⟨p, txt, h2, arr, new, hcreate, hs, hm1.trans hm2⟩

end Memory

end Tinu
