import Tinu.MessageArray

/-!
# Messages of the C++ wrapper (`cxxwrap.cc`, `cxxwrap.h`)

A `CxxMessage` keeps a `std::map` beside the message that it wraps.  The keys of the map are
addresses, so the addresses of the strings are part of the state here; `strings` is what can be
read at them.

* `Coherent.names_ok` — a map with one entry for each tag lists the names of the message;
* `callOk_iff` — one call from there, against its guard;
* `cxxMessage_ok_iff` — any calls.
-/

set_option autoImplicit false

namespace Tinu

open GuardedRun

/-! ## The wrapper -/

/-- `struct _MessageTag`. -/
structure TagCell where
  tag : Ptr
  value : Ptr
  deriving DecidableEq, Repr

/-- `TagListWrapper`. -/
abbrev TagListWrapper := AList fun _ : Ptr => Ptr

/-- A `CxxMessage` with the message at `m_obj` and the strings in memory. -/
structure CxxMessage where
  strings : Ptr → Option CString
  priority : Int
  message : CString
  tags : List TagCell
  tagWrapper : TagListWrapper

/-- The string at an address. -/
def CxxMessage.str (a : CxxMessage) (p : Ptr) : CString := (a.strings p).getD []

/-- A tag, with its strings. -/
def CxxMessage.content (a : CxxMessage) (t : TagCell) : MessageTag := ⟨a.str t.tag, a.str t.value⟩

/-- The message at `m_obj`. -/
def CxxMessage.obj (a : CxxMessage) : Message := ⟨a.priority, a.message, a.tags.map a.content⟩

/-- The map that `wrap_tags` fills. -/
def wrapTags (tags : List TagCell) : TagListWrapper :=
  tags.foldl (fun w t => w.insert t.tag t.value) ∅

/-- The constructor. -/
def CxxMessage.wrap (strings : Ptr → Option CString) (priority : Int) (message : CString)
    (tags : List TagCell) : CxxMessage :=
  ⟨strings, priority, message, tags, wrapTags tags⟩

/-- `CxxMessage::operator[]`: what it returns, and the object after it. -/
def CxxMessage.index (a : CxxMessage) (tag : Ptr) : Ptr × CxxMessage :=
  match a.tagWrapper.lookup tag with
  | some value => (value, a)
  | none => (NULL, { a with tagWrapper := a.tagWrapper.insert tag NULL })

/-- `CxxMessage::add_tag_raw`. -/
def CxxMessage.addTagRaw (a : CxxMessage) (tag : TagCell) : CxxMessage :=
  { a with
    tags := a.tags ++ [tag]
    tagWrapper := a.tagWrapper.insert tag.tag tag.value }

/-- `CxxMessage::add_tag`; `msg_tag_str` puts its two strings at the addresses of `tag`. -/
def CxxMessage.addTag (a : CxxMessage) (key : Ptr) (value : CString) (tag : TagCell) : CxxMessage :=
  let t := msgTagStr (a.str key) value
  let strings := Function.update (Function.update a.strings tag.tag (some t.tag)) tag.value
    (some t.value)
  CxxMessage.addTagRaw { a with strings := strings } tag

/-- `_msg_tag_clear` on the strings. -/
def clearTag (strings : Ptr → Option CString) (t : TagCell) : Ptr → Option CString :=
  Function.update (Function.update strings t.tag none) t.value none

/-- `msg_remove_tag` on the message. -/
def CxxMessage.msgRemove (a : CxxMessage) (tag : Ptr) : CxxMessage :=
  match a.tags.find? fun t => a.str t.tag = a.str tag with
  | none => a
  | some t =>
    { a with
      tags := a.tags.eraseP fun t => a.str t.tag = a.str tag
      strings := clearTag a.strings t }

/-- `CxxMessage::remove_tag`. -/
def CxxMessage.removeTag (a : CxxMessage) (tag : Ptr) : CxxMessage :=
  if tag ∈ a.tagWrapper then a.msgRemove tag else a

/-- A call of the wrapper; between the calls the caller writes and frees strings of its own. -/
inductive CxxMessageCall where
  | addTag (key : Ptr) (value : CString) (tag : TagCell)
  | addTagRaw (tag : TagCell)
  | removeTag (tag : Ptr)
  | index (tag : Ptr)
  | callerString (p : Ptr) (string : Option CString)

/-- The object after a call. -/
def cxxMessageStep (a : CxxMessage) : CxxMessageCall → CxxMessage
  | .addTag key value tag => a.addTag key value tag
  | .addTagRaw tag => a.addTagRaw tag
  | .removeTag tag => a.removeTag tag
  | .index tag => (a.index tag).2
  | .callerString p string => { a with strings := Function.update a.strings p string }

/-! ## What the calls are given -/

/-- A message whose tags have strings of their own. -/
structure TagsWf (strings : Ptr → Option CString) (tags : List TagCell) : Prop where
  nodup : (tags.map TagCell.tag).Nodup
  readable : ∀ t ∈ tags, (strings t.tag).isSome ∧ (strings t.value).isSome
  null : strings NULL = none

/-- Names are strings, an allocation gives addresses that are not in use, a new tag has a name
of its own, and the caller does not write into the strings of the message. -/
def CallWf (a : CxxMessage) : CxxMessageCall → Prop
  | .addTag key _ tag => (a.strings key).isSome ∧ a.strings tag.tag = none ∧
      a.strings tag.value = none ∧ tag.tag ≠ tag.value ∧ tag.tag ≠ NULL ∧ tag.value ≠ NULL
  | .addTagRaw tag => (a.strings tag.tag).isSome ∧ (a.strings tag.value).isSome ∧
      tag.tag ∉ a.tags.map TagCell.tag
  | .removeTag tag => (a.strings tag).isSome
  | .index tag => (a.strings tag).isSome
  | .callerString p _ => p ≠ NULL ∧ ∀ t ∈ a.tags, p ≠ t.tag ∧ p ≠ t.value

instance (a : CxxMessage) : DecidablePred (CallWf a)
  | .addTag key _ _ => inferInstanceAs (Decidable ((a.strings key).isSome ∧ _))
  | .addTagRaw tag => inferInstanceAs (Decidable ((a.strings tag.tag).isSome ∧ _))
  | .removeTag tag => inferInstanceAs (Decidable ((a.strings tag).isSome = true))
  | .index tag => inferInstanceAs (Decidable ((a.strings tag).isSome = true))
  | .callerString p _ => inferInstanceAs (Decidable (p ≠ NULL ∧ _))

/-! ## What they should do -/

/-- `tags()` lists the names of the message. -/
structure NamesOk (a : CxxMessage) : Prop where
  readable : ∀ k ∈ a.tagWrapper, (a.strings k).isSome
  names : ∀ name, (∃ k ∈ a.tagWrapper, a.str k = name) ↔ ∃ t ∈ a.obj.tags, t.tag = name

/-- What `operator[]` should return for the tag that `msg_find_tag` finds. -/
def Finds (a : CxxMessage) (r : Ptr) : Option MessageTag → Prop
  | some t => a.strings r = some t.value
  | none => r = NULL

instance (a : CxxMessage) (r : Ptr) : DecidablePred (Finds a r)
  | some t => inferInstanceAs (Decidable (a.strings r = some t.value))
  | none => inferInstanceAs (Decidable (r = NULL))

/-- The effect of a call on the message, and the result. -/
def EffectOk (a : CxxMessage) : CxxMessageCall → Prop
  | .addTag key value tag =>
      (a.addTag key value tag).obj = msgAppend a.obj [msgTagStr (a.str key) value]
  | .addTagRaw tag => (a.addTagRaw tag).obj = msgAppend a.obj [a.content tag]
  | .removeTag tag => (a.removeTag tag).obj = a.obj.removeTag (a.str tag)
  | .index tag => Finds a (a.index tag).1 (a.obj.findTag (a.str tag)) ∧ (a.index tag).2.obj = a.obj
  | .callerString p string => (cxxMessageStep a (.callerString p string)).obj = a.obj

/-- A call does what it should, and `tags()` is right after it. -/
def CallOk (a : CxxMessage) (c : CxxMessageCall) : Prop :=
  EffectOk a c ∧ NamesOk (cxxMessageStep a c)

/-- A name that is looked up is the address of the name in a tag, which has the value of the first
tag of that name; a name that is removed is not there. -/
def CallGuard (a : CxxMessage) : CxxMessageCall → Prop
  | .index tag => ∃ t ∈ a.tags, t.tag = tag ∧
      ∀ u, a.obj.findTag (a.str tag) = some u → u.value = a.str t.value
  | .removeTag tag => ∀ t ∈ a.tags, a.str t.tag ≠ a.str tag
  | _ => True

/-! ## The map against the tags -/

/-- The map has the entry of each tag, and no other. -/
def Wrapped (tags : List TagCell) (w : TagListWrapper) : Prop :=
  ∀ k v, w.lookup k = some v ↔ ∃ t ∈ tags, t.tag = k ∧ t.value = v

theorem Wrapped.mem_iff {tags : List TagCell} {w : TagListWrapper} (h : Wrapped tags w) {k : Ptr} :
    k ∈ w ↔ k ∈ tags.map TagCell.tag := by
  rw [← AList.lookup_isSome, Option.isSome_iff_exists, List.mem_map]
  constructor
  · rintro ⟨v, hv⟩
    obtain ⟨t, ht, hk, -⟩ := (h k v).mp hv
    exact ⟨t, ht, hk⟩
  · rintro ⟨t, ht, hk⟩
    exact ⟨t.value, (h k t.value).mpr ⟨t, ht, hk, rfl⟩⟩

/-- A tag with a name of its own at the end. -/
theorem Wrapped.snoc {tags : List TagCell} {w : TagListWrapper} (h : Wrapped tags w) {t : TagCell}
    (ht : t.tag ∉ tags.map TagCell.tag) : Wrapped (tags ++ [t]) (w.insert t.tag t.value) := by
  have hnot : ∀ u ∈ tags, u.tag ≠ t.tag := fun u hu he => ht (List.mem_map.mpr ⟨u, hu, he⟩)
  intro k v
  by_cases hk : k = t.tag
  · subst hk
    rw [AList.lookup_insert, Option.some.injEq]
    constructor
    · intro hv
      exact ⟨t, by simp, rfl, hv⟩
    · rintro ⟨u, hu, huk, huv⟩
      rcases List.mem_append.mp hu with hu | hu
      · exact absurd huk (hnot u hu)
      · rw [← List.mem_singleton.mp hu]
        exact huv
  · rw [AList.lookup_insert_ne hk, h k v]
    constructor
    · rintro ⟨u, hu, he⟩
      exact ⟨u, List.mem_append_left _ hu, he⟩
    · rintro ⟨u, hu, huk, huv⟩
      rcases List.mem_append.mp hu with hu | hu
      · exact ⟨u, hu, huk, huv⟩
      · rw [List.mem_singleton.mp hu] at huk
        exact absurd huk.symm hk

/-- `wrap_tags`. -/
theorem wrapTags_wrapped (tags : List TagCell) (h : (tags.map TagCell.tag).Nodup) :
    Wrapped tags (wrapTags tags) := by
  induction tags using List.reverseRecOn with
  | nil =>
    intro k v
    simp [wrapTags]
  | append_singleton tags t ih =>
    rw [List.map_append, List.nodup_append] at h
    have ht : t.tag ∉ tags.map TagCell.tag := fun hm => h.2.2 _ hm _ (by simp) rfl
    have hlast : wrapTags (tags ++ [t]) = (wrapTags tags).insert t.tag t.value := by
      simp [wrapTags]
    rw [hlast]
    exact (ih h.1).snoc ht

/-- The object while every call has met its guard. -/
structure Coherent (a : CxxMessage) : Prop where
  tags : TagsWf a.strings a.tags
  wrapped : Wrapped a.tags a.tagWrapper

theorem coherent_wrap {strings : Ptr → Option CString} {tags : List TagCell}
    (h : TagsWf strings tags) (priority : Int) (message : CString) :
    Coherent (CxxMessage.wrap strings priority message tags) :=
  ⟨h, wrapTags_wrapped tags h.nodup⟩

theorem Coherent.names_ok {a : CxxMessage} (h : Coherent a) : NamesOk a := by
  constructor
  · intro k hk
    obtain ⟨t, ht, rfl⟩ := List.mem_map.mp (h.wrapped.mem_iff.mp hk)
    exact (h.tags.readable t ht).1
  · intro name
    constructor
    · rintro ⟨k, hk, rfl⟩
      obtain ⟨t, ht, rfl⟩ := List.mem_map.mp (h.wrapped.mem_iff.mp hk)
      exact ⟨a.content t, List.mem_map_of_mem ht, rfl⟩
    · rintro ⟨u, hu, rfl⟩
      obtain ⟨t, ht, rfl⟩ := List.mem_map.mp hu
      exact ⟨t.tag, h.wrapped.mem_iff.mpr (List.mem_map_of_mem ht), rfl⟩

/-! ## Adding -/

/-- A tag whose strings can be read, at the end. -/
theorem TagsWf.snoc {strings : Ptr → Option CString} {tags : List TagCell} {t : TagCell}
    (h : TagsWf strings tags) (ht : t.tag ∉ tags.map TagCell.tag)
    (hr : (strings t.tag).isSome ∧ (strings t.value).isSome) : TagsWf strings (tags ++ [t]) := by
  refine ⟨?_, ?_, h.null⟩
  · rw [List.map_append, List.nodup_append]
    refine ⟨h.nodup, List.nodup_singleton _, fun k hk l hl hkl => ?_⟩
    rw [hkl, List.mem_singleton.mp hl] at hk
    exact ht hk
  · intro u hu
    rcases List.mem_append.mp hu with hu | hu
    · exact h.readable u hu
    · rw [List.mem_singleton.mp hu]
      exact hr

theorem Coherent.addTagRaw {a : CxxMessage} (h : Coherent a) {t : TagCell}
    (ht : t.tag ∉ a.tags.map TagCell.tag)
    (hr : (a.strings t.tag).isSome ∧ (a.strings t.value).isSome) : Coherent (a.addTagRaw t) :=
  ⟨h.tags.snoc ht hr, h.wrapped.snoc ht⟩

theorem addTagRaw_obj (a : CxxMessage) (t : TagCell) :
    (a.addTagRaw t).obj = msgAppend a.obj [a.content t] := by
  have htags : (a.addTagRaw t).obj.tags = (a.tags ++ [t]).map a.content := rfl
  rw [List.map_append] at htags
  exact congrArg (Message.mk a.priority a.message) htags

/-- Strings written elsewhere leave a message as it was. -/
theorem Coherent.of_strings {a : CxxMessage} (h : Coherent a) {strings : Ptr → Option CString}
    (hnull : strings NULL = none)
    (hsame : ∀ t ∈ a.tags, strings t.tag = a.strings t.tag ∧ strings t.value = a.strings t.value) :
    Coherent { a with strings := strings } := by
  refine ⟨⟨h.tags.nodup, fun t ht => ?_, hnull⟩, h.wrapped⟩
  simp only [hsame t ht]
  exact h.tags.readable t ht

theorem obj_of_strings {a : CxxMessage} {strings : Ptr → Option CString}
    (hsame : ∀ t ∈ a.tags, strings t.tag = a.strings t.tag ∧ strings t.value = a.strings t.value) :
    CxxMessage.obj { a with strings := strings } = a.obj := by
  have htags : a.tags.map (CxxMessage.content { a with strings := strings }) =
      a.tags.map a.content := by
    refine List.map_congr_left fun t ht => ?_
    simp only [CxxMessage.content, CxxMessage.str, hsame t ht]
  unfold CxxMessage.obj
  rw [htags]

/-- The addresses of the strings of a message are in use. -/
theorem TagsWf.in_use {strings : Ptr → Option CString} {tags : List TagCell}
    (h : TagsWf strings tags) {t : TagCell} (ht : t ∈ tags) {p : Ptr} (hp : strings p = none) :
    t.tag ≠ p ∧ t.value ≠ p := by
  obtain ⟨htag, hvalue⟩ := h.readable t ht
  constructor
  · rintro rfl
    rw [hp] at htag
    exact absurd htag (by simp)
  · rintro rfl
    rw [hp] at hvalue
    exact absurd hvalue (by simp)

theorem addTag_spec {a : CxxMessage} (h : Coherent a) {key : Ptr} {value : CString} {t : TagCell}
    (hw : CallWf a (.addTag key value t)) :
    Coherent (a.addTag key value t) ∧
      (a.addTag key value t).obj = msgAppend a.obj [msgTagStr (a.str key) value] := by
  obtain ⟨-, htag, hvalue, hne, htag0, hvalue0⟩ := hw
  let m := msgTagStr (a.str key) value
  let strings := Function.update (Function.update a.strings t.tag (some m.tag)) t.value
    (some m.value)
  have hstag : strings t.tag = some m.tag := by simp [strings, hne]
  have hsvalue : strings t.value = some m.value := by simp [strings]
  have hother : ∀ p, p ≠ t.tag → p ≠ t.value → strings p = a.strings p :=
    fun p h1 h2 => by simp [strings, h1, h2]
  have hnull : strings NULL = none := by
    rw [hother NULL (Ne.symm htag0) (Ne.symm hvalue0)]
    exact h.tags.null
  have hsame : ∀ u ∈ a.tags, strings u.tag = a.strings u.tag ∧
      strings u.value = a.strings u.value := by
    intro u hu
    obtain ⟨h1, h2⟩ := h.tags.in_use hu htag
    obtain ⟨h3, h4⟩ := h.tags.in_use hu hvalue
    exact ⟨hother _ h1 h3, hother _ h2 h4⟩
  have hnot : t.tag ∉ a.tags.map TagCell.tag := by
    intro hm
    obtain ⟨u, hu, he⟩ := List.mem_map.mp hm
    exact (h.tags.in_use hu htag).1 he
  constructor
  · refine (h.of_strings hnull hsame).addTagRaw hnot ?_
    simp [hstag, hsvalue]
  · have hcontent : CxxMessage.content { a with strings := strings } t = m := by
      simp only [CxxMessage.content, CxxMessage.str, hstag, hsvalue, Option.getD_some]
    have hobj := addTagRaw_obj { a with strings := strings } t
    rw [hcontent, obj_of_strings hsame] at hobj
    exact hobj

/-! ## Looking up -/

/-- `msg_find_tag` looks at the names. -/
theorem obj_findTag (a : CxxMessage) (name : CString) :
    a.obj.findTag name = (a.tags.find? fun t => a.str t.tag = name).map a.content := by
  unfold Message.findTag CxxMessage.obj
  rw [List.find?_map]
  rfl

/-- A name that some tag has is found. -/
theorem findTag_of_mem {a : CxxMessage} {t : TagCell} (ht : t ∈ a.tags) :
    ∃ u, a.obj.findTag (a.str t.tag) = some u := by
  rw [← Option.isSome_iff_exists, obj_findTag, Option.isSome_map, List.find?_isSome]
  exact ⟨t, ht, by simp⟩

theorem Coherent.index {a : CxxMessage} (h : Coherent a) {t : TagCell} (ht : t ∈ a.tags) :
    a.index t.tag = (t.value, a) := by
  have hl : a.tagWrapper.lookup t.tag = some t.value := (h.wrapped _ _).mpr ⟨t, ht, rfl, rfl⟩
  simp [CxxMessage.index, hl]

theorem Coherent.strings_value {a : CxxMessage} (h : Coherent a) {t : TagCell} (ht : t ∈ a.tags) :
    a.strings t.value = some (a.str t.value) := by
  obtain ⟨v, hv⟩ := Option.isSome_iff_exists.mp (h.tags.readable t ht).2
  rw [CxxMessage.str, hv]
  rfl

/-- The address of a name in a tag. -/
theorem index_ok_iff {a : CxxMessage} (h : Coherent a) {t : TagCell} (ht : t ∈ a.tags) :
    CallOk a (.index t.tag) ↔ ∀ u, a.obj.findTag (a.str t.tag) = some u → u.value = a.str t.value := by
  obtain ⟨u, hu⟩ := findTag_of_mem ht
  have hstep : cxxMessageStep a (.index t.tag) = a := by
    rw [cxxMessageStep, h.index ht]
  have heffect : EffectOk a (.index t.tag) ↔ a.strings t.value = some u.value := by
    rw [EffectOk, h.index ht, hu]
    exact and_iff_left rfl
  have hok : CallOk a (.index t.tag) ↔ EffectOk a (.index t.tag) := by
    unfold CallOk
    rw [hstep]
    exact and_iff_left h.names_ok
  rw [hok, heffect, h.strings_value ht, Option.some.injEq, hu]
  constructor
  · rintro he w ⟨rfl⟩
    exact he.symm
  · intro hall
    exact (hall u rfl).symm

/-- **An address that is not the name of a tag** gets an entry of its own. -/
theorem index_new {a : CxxMessage} (h : Coherent a) {p : Ptr} (hp : p ∉ a.tags.map TagCell.tag) :
    ¬ CallOk a (.index p) := by
  have hlookup : a.tagWrapper.lookup p = none := by
    rw [AList.lookup_eq_none, h.wrapped.mem_iff]
    exact hp
  have hindex : a.index p = (NULL, { a with tagWrapper := a.tagWrapper.insert p NULL }) := by
    simp [CxxMessage.index, hlookup]
  rintro ⟨⟨hfinds, -⟩, hnames⟩
  rw [hindex] at hfinds
  cases hfind : a.obj.findTag (a.str p) with
  | some u =>
    -- a tag of that name has another address for it: the entry has no value
    rw [hfind] at hfinds
    have hnull : a.strings NULL = some u.value := hfinds
    rw [h.tags.null] at hnull
    exact absurd hnull (by simp)
  | none =>
    -- there is no such tag, but the name is listed from now on
    have hlisted := (hnames.names (a.str p)).mp ⟨p, by simp [cxxMessageStep, hindex], by
      simp [cxxMessageStep, hindex, CxxMessage.str]⟩
    rw [cxxMessageStep, hindex] at hlisted
    obtain ⟨u, hu, hname⟩ := hlisted
    rw [Message.findTag, List.find?_eq_none] at hfind
    exact hfind u hu (by simpa using hname)

/-! ## Removing -/

theorem removeTag_absent {a : CxxMessage} {p : Ptr} (h : Coherent a)
    (hp : ∀ t ∈ a.tags, a.str t.tag ≠ a.str p) : a.removeTag p = a := by
  have hnot : p ∉ a.tagWrapper := by
    rw [h.wrapped.mem_iff, List.mem_map]
    rintro ⟨t, ht, rfl⟩
    exact hp t ht rfl
  simp [CxxMessage.removeTag, hnot]

/-- **A name that some tag has**: either nothing is removed, or the entry of the tag that is gone
stays. -/
theorem removeTag_present {a : CxxMessage} {p : Ptr} (h : Coherent a)
    (hp : ∃ t ∈ a.tags, a.str t.tag = a.str p) : ¬ CallOk a (.removeTag p) := by
  rintro ⟨heffect, hnames⟩
  by_cases hmem : p ∈ a.tagWrapper
  · obtain ⟨u, hu⟩ : ∃ u, (a.tags.find? fun t => a.str t.tag = a.str p) = some u := by
      rw [← Option.isSome_iff_exists, List.find?_isSome]
      obtain ⟨t, ht, he⟩ := hp
      exact ⟨t, ht, by simpa using he⟩
    have hremove : a.removeTag p =
        { a with
          tags := a.tags.eraseP fun t => a.str t.tag = a.str p
          strings := clearTag a.strings u } := by
      simp [CxxMessage.removeTag, hmem, CxxMessage.msgRemove, hu]
    have hkey : u.tag ∈ a.tagWrapper :=
      h.wrapped.mem_iff.mpr (List.mem_map_of_mem (List.mem_of_find?_eq_some hu))
    rw [cxxMessageStep, hremove] at hnames
    have hread : (clearTag a.strings u u.tag).isSome := hnames.readable u.tag hkey
    have hnone : clearTag a.strings u u.tag = none := by
      unfold clearTag
      by_cases he : u.tag = u.value <;> simp [Function.update, he]
    rw [hnone] at hread
    exact absurd hread (by simp)
  · have hremove : a.removeTag p = a := by simp [CxxMessage.removeTag, hmem]
    have hobj : a.obj = a.obj.removeTag (a.str p) := by
      rw [EffectOk, hremove] at heffect
      exact heffect
    obtain ⟨t, ht, he⟩ := hp
    have hfirst : ∃ m ∈ a.obj.tags, m.tag = a.str p := ⟨a.content t, List.mem_map_of_mem ht, he⟩
    have hlength := congrArg (fun m => m.tags.length) hobj
    obtain ⟨m, hm, hname⟩ := hfirst
    rw [Message.removeTag, List.length_eraseP_of_mem hm (by simpa using hname)] at hlength
    have := List.length_pos_of_mem hm
    omega

/-! ## Any calls -/

/-- A call that meets its guard keeps the map and the tags together, and has its effect. -/
theorem step_of_guard {a : CxxMessage} (h : Coherent a) {c : CxxMessageCall} (hw : CallWf a c)
    (hg : CallGuard a c) : Coherent (cxxMessageStep a c) ∧ EffectOk a c := by
  cases c with
  | addTag key value tag => exact addTag_spec h hw
  | addTagRaw tag =>
    obtain ⟨hr, hv, hnot⟩ := hw
    exact ⟨h.addTagRaw hnot ⟨hr, hv⟩, addTagRaw_obj a tag⟩
  | removeTag p =>
    have hremove := removeTag_absent h hg
    have herase : a.obj.removeTag (a.str p) = a.obj := by
      have hnone : a.obj.tags.eraseP (fun t => t.tag = a.str p) = a.obj.tags := by
        refine List.eraseP_of_forall_not fun m hm => ?_
        obtain ⟨t, ht, rfl⟩ := List.mem_map.mp hm
        exact decide_eq_true_iff.not.mpr (hg t ht)
      rw [Message.removeTag, hnone]
    rw [cxxMessageStep, EffectOk, hremove, herase]
    exact ⟨h, rfl⟩
  | index p =>
    obtain ⟨t, ht, rfl, hfirst⟩ := hg
    have hok := (index_ok_iff h ht).mpr hfirst
    rw [cxxMessageStep, h.index ht]
    exact ⟨h, hok.1⟩
  | callerString p string =>
    obtain ⟨hnull, hother⟩ := hw
    have hsame : ∀ t ∈ a.tags,
        Function.update a.strings p string t.tag = a.strings t.tag ∧
          Function.update a.strings p string t.value = a.strings t.value := by
      intro t ht
      obtain ⟨h1, h2⟩ := hother t ht
      exact ⟨Function.update_of_ne h1.symm _ _, Function.update_of_ne h2.symm _ _⟩
    have hnone : Function.update a.strings p string NULL = none := by
      rw [Function.update_of_ne hnull.symm]
      exact h.tags.null
    exact ⟨h.of_strings hnone hsame, obj_of_strings hsame⟩

/-- **One call.** -/
theorem callOk_iff {a : CxxMessage} (h : Coherent a) {c : CxxMessageCall} (hw : CallWf a c) :
    CallOk a c ↔ CallGuard a c := by
  constructor
  · intro hok
    cases c with
    | addTag key value tag => trivial
    | addTagRaw tag => trivial
    | removeTag p =>
      intro t ht he
      exact removeTag_present h ⟨t, ht, he⟩ hok
    | index p =>
      by_cases hp : p ∈ a.tags.map TagCell.tag
      · obtain ⟨t, ht, rfl⟩ := List.mem_map.mp hp
        exact ⟨t, ht, rfl, (index_ok_iff h ht).mp hok⟩
      · exact absurd hok (index_new h hp)
    | callerString p string => trivial
  · intro hg
    obtain ⟨hcoherent, heffect⟩ := step_of_guard h hw hg
    exact ⟨heffect, hcoherent.names_ok⟩

/-- **The wrapper of a message**: `tags()` is right from the start, and every call of a run does
what it should exactly when every call meets its guard. -/
theorem cxxMessage_ok_iff {strings : Ptr → Option CString} {tags : List TagCell}
    (h : TagsWf strings tags) (priority : Int) (message : CString) (calls : List CxxMessageCall)
    (hcalls : EveryStep cxxMessageStep CallWf (CxxMessage.wrap strings priority message tags)
      calls) :
    (NamesOk (CxxMessage.wrap strings priority message tags) ∧
      EveryStep cxxMessageStep CallOk (CxxMessage.wrap strings priority message tags) calls) ↔
    EveryStep cxxMessageStep CallGuard (CxxMessage.wrap strings priority message tags) calls := by
  have hstart := coherent_wrap h priority message
  rw [and_iff_right hstart.names_ok]
  exact everyStep_iff (fun hi hw => callOk_iff hi hw)
    (fun hi hw hg => (step_of_guard hi hw hg).1) calls hstart hcalls

/-- The strings of a program: the name and the value of a tag at 8 and 16, a copy of the name
at 24, another name at 32. -/
def sampleStrings : Ptr → Option CString := fun p =>
  if p = 8 then some "a" else if p = 16 then some "1" else if p = 24 then some "a"
  else if p = 32 then some "b" else none

def sampleCalls : List CxxMessageCall := [.addTag 32 "2" ⟨40, 48⟩, .index 8, .index 40]

theorem sampleStrings_wf : TagsWf sampleStrings [⟨8, 16⟩] :=
  ⟨by decide, by decide, by decide⟩

/-- Each tag is read through the address of its name. -/
theorem cxxMessage_ok_reads :
    NamesOk (CxxMessage.wrap sampleStrings 6 "text" [⟨8, 16⟩]) ∧
      EveryStep cxxMessageStep CallOk (CxxMessage.wrap sampleStrings 6 "text" [⟨8, 16⟩])
        sampleCalls := by
  refine (cxxMessage_ok_iff sampleStrings_wf 6 "text" sampleCalls ?_).mpr ?_
  · simp only [sampleCalls, everyStep_cons]
    refine ⟨by decide, by decide, by decide, everyStep_nil _ _ _⟩
  · simp only [sampleCalls, everyStep_cons]
    refine ⟨trivial, ?_, ?_, everyStep_nil _ _ _⟩
    · exact ⟨⟨8, 16⟩, by decide, rfl, by decide⟩
    · exact ⟨⟨40, 48⟩, by decide, rfl, by decide⟩

/-- The same name at another address: there is no value, though the message has the tag. -/
theorem cxxMessage_copied_name :
    TagsWf sampleStrings [⟨8, 16⟩] ∧
      EveryStep cxxMessageStep CallWf (CxxMessage.wrap sampleStrings 6 "text" [⟨8, 16⟩])
        [.index 24] ∧
      ¬ (NamesOk (CxxMessage.wrap sampleStrings 6 "text" [⟨8, 16⟩]) ∧
        EveryStep cxxMessageStep CallOk (CxxMessage.wrap sampleStrings 6 "text" [⟨8, 16⟩])
          [.index 24]) := by
  refine ⟨sampleStrings_wf, ?_, ?_⟩
  · rw [everyStep_cons]
    exact ⟨by decide, everyStep_nil _ _ _⟩
  · rintro ⟨-, hok⟩
    obtain ⟨⟨hfinds, -⟩, -⟩ := (everyStep_cons.mp hok).1
    exact absurd hfinds (by decide)

end Tinu
