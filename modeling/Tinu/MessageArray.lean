import Tinu.Lib.Cells
import Tinu.Lib.GuardedRun
import Tinu.Message

/-!
# The tag array of a message (`message.c`)

`m_tags` is an array that grows while tags are appended and is cut to `m_tag_count` at the end of
every call.  Here it is the array of its cells, in which an access outside it, or to a cell that
was not written, is a fault; so is a size that leaves `gint`.

* `msgAppendTag_spec` — a growing array has room for the tag that is written;
* `msgVappend_refines`, `msgRemoveTag_refines`, `msgFindTag_refines` — one call against the list of
  tags;
* `messageRun_refines` — any calls, as long as the sizes stay within `gint`.
-/

set_option autoImplicit false

namespace Tinu

open Cells (Holds)

/-! ## The functions of `message.c` -/

/-- `struct _Message`, with its array. -/
structure MessageArray where
  priority : Int
  message : CString
  tagCount : Nat
  tags : List (Option MessageTag)
  deriving DecidableEq, Repr

/-- The new size in `_msg_append_tag`; a shift out of `gint` has no result. -/
def msgGrow (size : Nat) : Option Nat :=
  if size = 0 then some 4 else if 2 * size < gintLimit then some (2 * size) else none

/-- The branch of `_msg_append_tag` that reallocates. -/
def msgMakeRoom (msg : MessageArray) (size : Nat) : Option (MessageArray × Nat) :=
  if msg.tagCount ≤ size then do
    let size ← msgGrow size
    some ({ msg with tags := Cells.renew msg.tags size }, size)
  else some (msg, size)

/-- `_msg_append_tag`. -/
def msgAppendTag (msg : MessageArray) (tag : MessageTag) (size : Nat) :
    Option (MessageArray × Nat) := do
  let (msg, size) ← msgMakeRoom msg size
  let tags ← Cells.write msg.tags msg.tagCount tag
  some ({ msg with tags := tags, tagCount := msg.tagCount + 1 }, size)

/-- The loop over the arguments. -/
def msgAppendTags : List MessageTag → MessageArray → Nat → Option (MessageArray × Nat)
  | [], msg, size => some (msg, size)
  | tag :: tags, msg, size => do
    let (msg, size) ← msgAppendTag msg tag size
    msgAppendTags tags msg size

/-- `g_renew (MessageTag *, self->m_tags, self->m_tag_count)`. -/
def MessageArray.fit (self : MessageArray) : MessageArray :=
  { self with tags := Cells.renew self.tags self.tagCount }

/-- `msg_vcreate` and `msg_create`. -/
def msgVcreate (priority : Int) (msg : CString) (tags : List MessageTag) : Option MessageArray := do
  let (self, _) ← msgAppendTags tags ⟨priority, msg, 0, []⟩ 0
  some self.fit

/-- `msg_vappend` and `msg_append`. -/
def msgVappend (self : MessageArray) (tags : List MessageTag) : Option MessageArray := do
  let (self, _) ← msgAppendTags tags self self.tagCount
  some self.fit

/-- The `memmove` of `msg_remove_tag`. -/
def msgMoveTags (self : MessageArray) (i : Nat) : Option (List (Option MessageTag)) :=
  if i + 1 ≠ self.tagCount then Cells.move self.tags i (i + 1) (self.tagCount - i - 1)
  else some self.tags

/-- The loop of `msg_remove_tag` from `i`, with as many rounds left as there are tags from there. -/
def msgRemoveLoop (self : MessageArray) (tag : CString) : Nat → Nat → Option MessageArray
  | _, 0 => some self
  | i, n + 1 => do
    let t ← Cells.read self.tags i
    if t.tag = tag then
      let tags ← msgMoveTags self i
      some (MessageArray.fit { self with tags := tags, tagCount := self.tagCount - 1 })
    else msgRemoveLoop self tag (i + 1) n

/-- `msg_remove_tag`. -/
def msgRemoveTag (self : MessageArray) (tag : CString) : Option MessageArray :=
  msgRemoveLoop self tag 0 self.tagCount

/-- The loop of `msg_find_tag`. -/
def msgFindLoop (self : MessageArray) (name : CString) : Nat → Nat → Option (Option MessageTag)
  | _, 0 => some none
  | i, n + 1 => do
    let t ← Cells.read self.tags i
    if t.tag = name then some (some t) else msgFindLoop self name (i + 1) n

/-- `msg_find_tag`. -/
def msgFindTag (self : MessageArray) (name : CString) : Option (Option MessageTag) :=
  msgFindLoop self name 0 self.tagCount

/-! ## The list that the array stands for -/

/-- Without the first tag of a name. -/
def Message.removeTag (m : Message) (tag : CString) : Message :=
  { m with tags := m.tags.eraseP fun t => t.tag = tag }

/-- The first tag of a name. -/
def Message.findTag (m : Message) (name : CString) : Option MessageTag :=
  m.tags.find? fun t => t.tag = name

/-- The array of a message between calls: its tags, and no cell more. -/
structure Refines (a : MessageArray) (m : Message) : Prop where
  priority : a.priority = m.priority
  message : a.message = m.message
  count : a.tagCount = m.tags.length
  cells : a.tags = m.tags.map some

/-- The array in the middle of a call: there may be room behind the tags. -/
structure Filling (a : MessageArray) (m : Message) : Prop where
  priority : a.priority = m.priority
  message : a.message = m.message
  count : a.tagCount = m.tags.length
  holds : Holds a.tags m.tags

theorem Refines.filling {self : MessageArray} {m : Message} (h : Refines self m) :
    Filling self m :=
  ⟨h.priority, h.message, h.count, [], by rw [h.cells, List.append_nil]⟩

/-- Cutting the array to its tags ends a call. -/
theorem Filling.fit {self : MessageArray} {m : Message} (h : Filling self m) :
    Refines self.fit m := by
  refine ⟨h.priority, h.message, h.count, ?_⟩
  have hcount := h.count
  exact (h.holds.renew (Nat.le_of_eq hcount.symm)).eq_map ((Cells.renew_length _ _).trans hcount)

/-! ## Sizes -/

/-- The size after tags were appended at a size. -/
def sizeAfter : Nat → Nat → Nat
  | size, 0 => size
  | size, k + 1 => sizeAfter (if size = 0 then 4 else 2 * size) k

theorem add_le_sizeAfter (size k : Nat) : size + k ≤ sizeAfter size k := by
  induction k generalizing size with
  | zero => exact Nat.le_refl _
  | succ k ih =>
    refine Nat.le_trans ?_ (ih _)
    split <;> omega

theorem le_sizeAfter (size k : Nat) : size ≤ sizeAfter size k :=
  Nat.le_trans (Nat.le_add_right size k) (add_le_sizeAfter size k)

theorem msgGrow_of_lt {size : Nat} (hfit : (if size = 0 then 4 else 2 * size) < gintLimit) :
    msgGrow size = some (if size = 0 then 4 else 2 * size) := by
  unfold msgGrow
  split
  · rfl
  · rename_i h0
    rw [if_neg h0] at hfit
    rw [if_pos hfit]

/-- A shift that has a result is the doubling. -/
theorem msgGrow_some {size size' : Nat} (h : msgGrow size = some size') :
    size' = (if size = 0 then 4 else 2 * size) ∧ size' < gintLimit := by
  unfold msgGrow at h
  split at h
  · rename_i h0
    cases h
    exact ⟨(if_pos h0).symm, by decide⟩
  · rename_i h0
    split at h
    · rename_i hlt
      cases h
      exact ⟨(if_neg h0).symm, hlt⟩
    · cases h

/-- When a size has no double, none of the sizes that follow is in `gint`. -/
theorem le_sizeAfter_of_none {size : Nat} (h : msgGrow size = none) (k : Nat) :
    gintLimit ≤ sizeAfter size (k + 1) := by
  by_contra hlt
  have hstep : (if size = 0 then 4 else 2 * size) < gintLimit :=
    Nat.lt_of_le_of_lt (le_sizeAfter _ k) (Nat.lt_of_not_le hlt)
  rw [msgGrow_of_lt hstep] at h
  cases h

/-- **The array grows before every write**, to more cells than it has tags. -/
theorem msgAppendTag_spec {self : MessageArray} {m : Message} {size : Nat} (h : Filling self m)
    (hsize : m.tags.length ≤ size) (hfit : (if size = 0 then 4 else 2 * size) < gintLimit)
    (tag : MessageTag) :
    ∃ self', msgAppendTag self tag size = some (self', if size = 0 then 4 else 2 * size) ∧
      Filling self' (msgAppend m [tag]) := by
  have hgrow := msgGrow_of_lt hfit
  have hroom : m.tags.length < if size = 0 then 4 else 2 * size := by
    split <;> omega
  have hcount : self.tagCount ≤ size := by rw [h.count]; exact hsize
  have hholds := h.holds.renew (Nat.le_of_lt hroom)
  obtain ⟨tags, hwrite, hholds', _⟩ := hholds.write_end
    (by rw [Cells.renew_length]; exact hroom) tag
  refine ⟨{ self with tags := tags, tagCount := self.tagCount + 1 }, ?_,
    ⟨h.priority, h.message, ?_, hholds'⟩⟩
  · rw [← h.count] at hwrite
    simp only [msgAppendTag, msgMakeRoom, if_pos hcount, hgrow, Option.bind_eq_bind,
      Option.bind_some, hwrite]
  · simp only [msgAppend, List.length_append, List.length_singleton, h.count]

theorem msgAppendTags_spec :
    ∀ (tags : List MessageTag) {self : MessageArray} {m : Message} {size : Nat}, Filling self m →
      m.tags.length ≤ size → sizeAfter size tags.length < gintLimit →
        ∃ self', msgAppendTags tags self size = some (self', sizeAfter size tags.length) ∧
          Filling self' (msgAppend m tags)
  | [], self, m, size, h, _, _ => by
    refine ⟨self, rfl, ?_⟩
    have hm : msgAppend m [] = m := by
      rw [msgAppend, List.append_nil]
    rw [hm]
    exact h
  | tag :: tags, self, m, size, h, hsize, hfit => by
    have hstep : (if size = 0 then 4 else 2 * size) < gintLimit :=
      Nat.lt_of_le_of_lt (le_sizeAfter _ _) hfit
    obtain ⟨self1, he, h1⟩ := msgAppendTag_spec h hsize hstep tag
    have hsize1 : (msgAppend m [tag]).tags.length ≤ if size = 0 then 4 else 2 * size := by
      simp only [msgAppend, List.length_append, List.length_singleton]
      split <;> omega
    obtain ⟨self2, he2, h2⟩ := msgAppendTags_spec tags h1 hsize1 hfit
    refine ⟨self2, ?_, ?_⟩
    · simp only [msgAppendTags, he, Option.bind_eq_bind, Option.bind_some, he2]
      rfl
    · have hm : msgAppend (msgAppend m [tag]) tags = msgAppend m (tag :: tags) := by
        simp only [msgAppend, List.append_assoc, List.singleton_append]
      rw [← hm]
      exact h2

/-! ## One call -/

/-- **`msg_vcreate`** makes the array of its tags. -/
theorem msgVcreate_refines (priority : Int) (msg : CString) {tags : List MessageTag}
    (hfit : sizeAfter 0 tags.length < gintLimit) :
    ∃ self, msgVcreate priority msg tags = some self ∧
      Refines self (msgCreate priority msg tags) := by
  have hempty : Filling ⟨priority, msg, 0, []⟩ (msgCreate priority msg []) := ⟨rfl, rfl, rfl, [], rfl⟩
  obtain ⟨self, he, h⟩ := msgAppendTags_spec tags hempty (Nat.zero_le _) hfit
  refine ⟨self.fit, ?_, h.fit⟩
  simp only [msgVcreate, he, Option.bind_eq_bind, Option.bind_some]

/-- **`msg_vappend`** appends to the list. -/
theorem msgVappend_refines {self : MessageArray} {m : Message} (h : Refines self m)
    {tags : List MessageTag} (hfit : sizeAfter m.tags.length tags.length < gintLimit) :
    ∃ self', msgVappend self tags = some self' ∧ Refines self' (msgAppend m tags) := by
  obtain ⟨self', he, h'⟩ := msgAppendTags_spec tags h.filling (Nat.le_refl _) hfit
  refine ⟨self'.fit, ?_, h'.fit⟩
  simp only [msgVappend, h.count, he, Option.bind_eq_bind, Option.bind_some]

theorem Refines.read {self : MessageArray} {m : Message} (h : Refines self m) {p q : List MessageTag}
    {t : MessageTag} (hm : m.tags = p ++ t :: q) : Cells.read self.tags p.length = some t := by
  have hi : p.length < m.tags.length := by simp [hm]
  rw [h.filling.holds.read hi]
  simp [hm]

/-- The loop of `msg_find_tag` with `p` behind it, none of it of the name. -/
theorem msgFindLoop_eq {self : MessageArray} {m : Message} (h : Refines self m) (name : CString) :
    ∀ (q p : List MessageTag), m.tags = p ++ q →
      msgFindLoop self name p.length q.length = some (q.find? fun t => t.tag = name)
  | [], _, _ => rfl
  | t :: q, p, hm => by
    have ih := msgFindLoop_eq h name q (p ++ [t]) (by rw [hm]; simp)
    rw [List.length_append, List.length_singleton] at ih
    rw [List.length_cons, msgFindLoop, h.read hm]
    by_cases ht : t.tag = name
    · simp [ht]
    · simp [ht, ih]

/-- **`msg_find_tag`** finds the first tag of the name. -/
theorem msgFindTag_refines {self : MessageArray} {m : Message} (h : Refines self m)
    (name : CString) : msgFindTag self name = some (m.findTag name) := by
  rw [msgFindTag, h.count]
  exact msgFindLoop_eq h name m.tags [] rfl

/-- What the `memmove` leaves, the last tag needing none. -/
theorem msgMoveTags_spec {self : MessageArray} {m : Message} (h : Refines self m)
    {p q : List MessageTag} {t : MessageTag} (hm : m.tags = p ++ t :: q) :
    ∃ tags, msgMoveTags self p.length = some tags ∧ Holds tags (p ++ q) := by
  have hcount : self.tagCount = p.length + (q.length + 1) := by
    rw [h.count, hm, List.length_append, List.length_cons]
  have hholds : Holds self.tags (p ++ t :: q) := hm ▸ h.filling.holds
  exact hholds.closeGap_or hcount

/-- The loop of `msg_remove_tag` with `p` behind it, none of it of the name. -/
theorem msgRemoveLoop_spec {self : MessageArray} {m : Message} (h : Refines self m)
    (tag : CString) :
    ∀ (q p : List MessageTag), m.tags = p ++ q →
      ∃ self', msgRemoveLoop self tag p.length q.length = some self' ∧
        Refines self' { m with tags := p ++ q.eraseP fun t => t.tag = tag }
  | [], p, hm => by
    refine ⟨self, rfl, ?_⟩
    rw [List.eraseP_nil, ← hm]
    exact h
  | t :: q, p, hm => by
    by_cases ht : t.tag = tag
    · obtain ⟨tags, hmove, hholds⟩ := msgMoveTags_spec h hm
      refine ⟨MessageArray.fit { self with tags := tags, tagCount := self.tagCount - 1 }, ?_, ?_⟩
      · rw [List.length_cons, msgRemoveLoop, h.read hm]
        simp only [Option.bind_eq_bind, Option.bind_some, ht, if_true, hmove]
      · rw [List.eraseP_cons_of_pos (by simpa using ht)]
        refine Filling.fit ⟨h.priority, h.message, ?_, hholds⟩
        show self.tagCount - 1 = (p ++ q).length
        rw [h.count, hm]
        simp
    · obtain ⟨self', he, h'⟩ := msgRemoveLoop_spec h tag q (p ++ [t]) (by rw [hm]; simp)
      refine ⟨self', ?_, ?_⟩
      · rw [List.length_append, List.length_singleton] at he
        rw [List.length_cons, msgRemoveLoop, h.read hm]
        simp only [Option.bind_eq_bind, Option.bind_some, if_neg ht, he]
      · rw [List.eraseP_cons_of_neg (by simpa using ht)]
        simpa using h'

/-- **`msg_remove_tag`** removes the first tag of the name. -/
theorem msgRemoveTag_refines {self : MessageArray} {m : Message} (h : Refines self m)
    (tag : CString) :
    ∃ self', msgRemoveTag self tag = some self' ∧ Refines self' (m.removeTag tag) := by
  rw [msgRemoveTag, h.count]
  exact msgRemoveLoop_spec h tag m.tags [] rfl

/-! ## Any calls -/

/-- A call on a message. -/
inductive MessageCall where
  | append (tags : List MessageTag)
  | removeTag (tag : CString)
  deriving DecidableEq, Repr

def messageCall (self : MessageArray) : MessageCall → Option MessageArray
  | .append tags => msgVappend self tags
  | .removeTag tag => msgRemoveTag self tag

/-- The call on the list. -/
def MessageCall.apply (m : Message) : MessageCall → Message
  | .append tags => msgAppend m tags
  | .removeTag tag => m.removeTag tag

/-- A message is created, and the calls are made. -/
def messageRun (priority : Int) (msg : CString) (tags : List MessageTag)
    (calls : List MessageCall) : Option MessageArray := do
  let self ← msgVcreate priority msg tags
  calls.foldlM messageCall self

/-- The sizes of a call stay within `gint`. -/
def SizesFit (m : Message) : MessageCall → Prop
  | .append tags => sizeAfter m.tags.length tags.length < gintLimit
  | .removeTag _ => True

theorem messageCall_refines {self : MessageArray} {m : Message} (h : Refines self m)
    {call : MessageCall} (hfit : SizesFit m call) :
    ∃ self', messageCall self call = some self' ∧ Refines self' (call.apply m) := by
  cases call with
  | append tags => exact msgVappend_refines h hfit
  | removeTag tag => exact msgRemoveTag_refines h tag

theorem messageCalls_refines (calls : List MessageCall) :
    ∀ {self : MessageArray} {m : Message}, Refines self m →
      GuardedRun.EveryStep MessageCall.apply SizesFit m calls →
        ∃ self', calls.foldlM messageCall self = some self' ∧
          Refines self' (calls.foldl MessageCall.apply m) := by
  induction calls with
  | nil => exact fun h _ => ⟨_, rfl, h⟩
  | cons call calls ih =>
    intro self m h hfit
    rw [GuardedRun.everyStep_cons] at hfit
    obtain ⟨self1, he, h1⟩ := messageCall_refines h hfit.1
    obtain ⟨self2, he2, h2⟩ := ih h1 hfit.2
    refine ⟨self2, ?_, h2⟩
    rw [List.foldlM_cons, he]
    exact he2

/-- **After any calls the array is the list of the tags**, no access having been outside it, as
long as its sizes stay within `gint`; and `msg_find_tag` finds the first tag of a name. -/
theorem messageRun_refines {priority : Int} {msg : CString} {tags : List MessageTag}
    {calls : List MessageCall} (hcreate : sizeAfter 0 tags.length < gintLimit)
    (hcalls : GuardedRun.EveryStep MessageCall.apply SizesFit (msgCreate priority msg tags) calls) :
    ∃ self, messageRun priority msg tags calls = some self ∧
      Refines self (calls.foldl MessageCall.apply (msgCreate priority msg tags)) ∧
      ∀ name, msgFindTag self name =
        some ((calls.foldl MessageCall.apply (msgCreate priority msg tags)).findTag name) := by
  obtain ⟨self0, hnew, h0⟩ := msgVcreate_refines priority msg hcreate
  obtain ⟨self, hrun, h⟩ := messageCalls_refines calls h0 hcalls
  refine ⟨self, ?_, h, fun name => msgFindTag_refines h name⟩
  rw [messageRun, hnew]
  exact hrun

/-- The first, and then the only tag is removed. -/
theorem messageRun_refines_calls :
    ∃ self, messageRun 4 "m".toList [⟨['a'], ['1']⟩, ⟨['b'], ['2']⟩]
        [.removeTag ['a'], .append [⟨['b'], ['3']⟩], .removeTag ['b'], .removeTag ['b'],
          .append [⟨['c'], ['4']⟩]] = some self ∧
      Refines self ⟨4, "m".toList, [⟨['c'], ['4']⟩]⟩ ∧
      msgFindTag self ['c'] = some (some ⟨['c'], ['4']⟩) ∧ msgFindTag self ['b'] = some none := by
  have hfit : GuardedRun.EveryStep MessageCall.apply SizesFit
      (msgCreate 4 "m".toList [⟨['a'], ['1']⟩, ⟨['b'], ['2']⟩])
      [.removeTag ['a'], .append [⟨['b'], ['3']⟩], .removeTag ['b'], .removeTag ['b'],
        .append [⟨['c'], ['4']⟩]] := by
    simp only [GuardedRun.everyStep_cons]
    refine ⟨trivial, ?_, trivial, trivial, ?_, GuardedRun.everyStep_nil _ _ _⟩
    · show sizeAfter _ _ < gintLimit
      decide
    · show sizeAfter _ _ < gintLimit
      decide
  obtain ⟨self, hrun, href, hfind⟩ := messageRun_refines (by decide) hfit
  exact ⟨self, hrun, href, hfind ['c'], hfind ['b']⟩

end Tinu
