import Tinu.MessageArray

/-!
# The capacity of a tag array (`message.c`)

`_msg_append_tag` reallocates when `m_tag_count <= *size`.  As it then always has more cells than
tags, it reallocates for every tag, and the capacity of one call is doubled as often as tags are
appended, from 0 in `msg_vcreate` and from the number of tags in `msg_vappend`.

* `msgAppendTags_size` — the capacity after the tags of a call that succeeds;
* `capacityOk_iff_sizes` — the capacities of a call in numbers;
* `capacityOk_iff` — they stay within twice the tags for the first few tags only.
-/

set_option autoImplicit false

namespace Tinu

/-- What the two callers of `_msg_append_tag` start with: the message and its `size`. -/
inductive Appending : MessageArray → Nat → Message → Prop
  | vcreate (priority : Int) (msg : CString) :
      Appending ⟨priority, msg, 0, []⟩ 0 (msgCreate priority msg [])
  | vappend {self : MessageArray} {m : Message} (h : Refines self m) :
      Appending self self.tagCount m

theorem Appending.filling {self : MessageArray} {size : Nat} {m : Message}
    (h : Appending self size m) : Filling self m := by
  cases h with
  | vcreate priority msg => exact ⟨rfl, rfl, rfl, [], rfl⟩
  | vappend h => exact h.filling

theorem Appending.size_eq {self : MessageArray} {size : Nat} {m : Message}
    (h : Appending self size m) : size = m.tags.length := by
  cases h with
  | vcreate priority msg => rfl
  | vappend h => exact h.count

/-- After every tag of a call, the capacity is a positive `gint` beyond the index written, and at
most 4 or twice the tags stored. -/
def CapacityOk (self : MessageArray) (size : Nat) (tags : List MessageTag) : Prop :=
  ∀ front, front ≠ [] → front <+: tags →
    ∃ self' size', msgAppendTags front self size = some (self', size') ∧ 0 < size' ∧
      size' < gintLimit ∧ self'.tagCount - 1 < size' ∧ size' ≤ max 4 (2 * self'.tagCount)

theorem msgAppendTag_size {self self' : MessageArray} {m : Message} {size size' : Nat}
    {tag : MessageTag} (h : Filling self m) (hsize : m.tags.length ≤ size)
    (he : msgAppendTag self tag size = some (self', size')) :
    size' = (if size = 0 then 4 else 2 * size) ∧ Filling self' (msgAppend m [tag]) := by
  have hcount : self.tagCount ≤ size := by rw [h.count]; exact hsize
  cases hgrow : msgGrow size with
  | none => simp [msgAppendTag, msgMakeRoom, hcount, hgrow] at he
  | some size1 =>
    obtain ⟨hdouble, hlt⟩ := msgGrow_some hgrow
    rw [hdouble] at hlt
    obtain ⟨self1, hspec, hfill⟩ := msgAppendTag_spec h hsize hlt tag
    rw [hspec] at he
    cases he
    exact ⟨rfl, hfill⟩

/-- **The capacity after a call is the doubled one**, one doubling a tag. -/
theorem msgAppendTags_size :
    ∀ (tags : List MessageTag) {self self' : MessageArray} {m : Message} {size size' : Nat},
      Filling self m → m.tags.length ≤ size → msgAppendTags tags self size = some (self', size') →
        size' = sizeAfter size tags.length ∧ Filling self' (msgAppend m tags)
  | [], self, self', m, size, size', h, _, he => by
    cases he
    refine ⟨rfl, ?_⟩
    rw [msgAppend, List.append_nil]
    exact h
  | tag :: tags, self, self', m, size, size', h, hsize, he => by
    rw [msgAppendTags, Option.bind_eq_bind, Option.bind_eq_some_iff] at he
    obtain ⟨⟨self1, size1⟩, he1, he2⟩ := he
    obtain ⟨rfl, h1⟩ := msgAppendTag_size h hsize he1
    have hsize1 : (msgAppend m [tag]).tags.length ≤ if size = 0 then 4 else 2 * size := by
      simp only [msgAppend, List.length_append, List.length_singleton]
      split <;> omega
    obtain ⟨hsize', h2⟩ := msgAppendTags_size tags h1 hsize1 he2
    refine ⟨hsize', ?_⟩
    have hm : msgAppend (msgAppend m [tag]) tags = msgAppend m (tag :: tags) := by
      simp only [msgAppend, List.append_assoc, List.singleton_append]
    rw [← hm]
    exact h2

/-- **The capacities of a call in numbers**: after `k` tags it is `sizeAfter size k`. -/
theorem capacityOk_iff_sizes {self : MessageArray} {size : Nat} {m : Message}
    (h : Appending self size m) (tags : List MessageTag) :
    CapacityOk self size tags ↔ ∀ k, 0 < k → k ≤ tags.length →
      sizeAfter m.tags.length k < gintLimit ∧
        sizeAfter m.tags.length k ≤ max 4 (2 * (m.tags.length + k)) := by
  obtain rfl := h.size_eq
  constructor
  · intro hok k hk hle
    have hfront : (tags.take k).length = k := by rw [List.length_take]; omega
    have hne : tags.take k ≠ [] := by
      intro h0
      rw [h0, List.length_nil] at hfront
      omega
    obtain ⟨self', size', he, _, hlt, _, hmax⟩ := hok _ hne (List.take_prefix k tags)
    obtain ⟨rfl, hfill⟩ := msgAppendTags_size _ h.filling (Nat.le_refl _) he
    have hcount : self'.tagCount = m.tags.length + k := by
      rw [hfill.count, msgAppend, List.length_append, hfront]
    rw [hfront] at hlt hmax
    rw [← hcount]
    exact ⟨hlt, hmax⟩
  · intro hsizes front hne hpre
    have hpos : 0 < front.length := List.length_pos_iff.mpr hne
    obtain ⟨hlt, hmax⟩ := hsizes front.length hpos hpre.length_le
    obtain ⟨self', he, hfill⟩ := msgAppendTags_spec front h.filling (Nat.le_refl _) hlt
    have hcount : self'.tagCount = m.tags.length + front.length := by
      rw [hfill.count, msgAppend, List.length_append]
    have hroom := add_le_sizeAfter m.tags.length front.length
    rw [← hcount] at hroom hmax
    exact ⟨self', _, he, by omega, hlt, by omega, hmax⟩

/-- The doubled capacity stays within twice the tags up to the third tag, at most. -/
theorem sizes_le_iff {n k : Nat} (hfit : 2 * (n + k) < gintLimit) :
    (∀ j, 0 < j → j ≤ k → sizeAfter n j < gintLimit ∧ sizeAfter n j ≤ max 4 (2 * (n + j))) ↔
      k ≤ 1 ∨ n = 1 ∧ k ≤ 3 ∨ n = 2 ∧ k ≤ 2 := by
  have hlimit : 16 < gintLimit := by decide
  have hfour : 2 ≤ n → sizeAfter n 2 = 4 * n := by
    intro hn
    have h0 : n ≠ 0 := by omega
    have h1 : 2 * n ≠ 0 := by omega
    simp only [sizeAfter, if_neg h0, if_neg h1]
    omega
  constructor
  · intro hall
    by_contra hk
    have htwo := hall 2 (by omega) (by omega)
    by_cases h0 : n = 0
    · subst h0
      exact absurd htwo.2 (by decide)
    by_cases h1 : n = 1
    · subst h1
      exact absurd (hall 4 (by omega) (by omega)).2 (by decide)
    by_cases h2 : n = 2
    · subst h2
      exact absurd (hall 3 (by omega) (by omega)).2 (by decide)
    rw [hfour (by omega)] at htwo
    omega
  · intro hk j hj hjk
    have hone : j = 1 → sizeAfter n j = if n = 0 then 4 else 2 * n := by
      rintro rfl
      rfl
    by_cases h1 : j = 1
    · rw [hone h1]
      split <;> omega
    obtain ⟨rfl, hk⟩ | ⟨rfl, hk⟩ : n = 1 ∧ k ≤ 3 ∨ n = 2 ∧ k ≤ 2 := by omega
    · obtain rfl | rfl : j = 2 ∨ j = 3 := by omega
      · decide
      · decide
    · obtain rfl : j = 2 := by omega
      decide

/-- **The capacity of a call stays within 4 or twice the tags** exactly when the call appends at
most one tag, or up to three to a message of one tag, or two to a message of two. -/
theorem capacityOk_iff {self : MessageArray} {size : Nat} {m : Message}
    (h : Appending self size m) {tags : List MessageTag}
    (hfit : 2 * (m.tags.length + tags.length) < gintLimit) :
    CapacityOk self size tags ↔
      tags.length ≤ 1 ∨ m.tags.length = 1 ∧ tags.length ≤ 3 ∨
        m.tags.length = 2 ∧ tags.length ≤ 2 :=
  (capacityOk_iff_sizes h tags).trans (sizes_le_iff hfit)

/-- Three tags for a message of one. -/
theorem capacityOk_iff_three :
    CapacityOk ⟨4, ['m'], 1, [some ⟨['a'], ['1']⟩]⟩ 1
      [⟨['b'], ['2']⟩, ⟨['c'], ['3']⟩, ⟨['d'], ['4']⟩] := by
  have href : Refines ⟨4, ['m'], 1, [some ⟨['a'], ['1']⟩]⟩ ⟨4, ['m'], [⟨['a'], ['1']⟩]⟩ :=
    ⟨rfl, rfl, rfl, rfl⟩
  exact (capacityOk_iff (.vappend href) (by decide)).mpr (.inr (.inl ⟨rfl, by decide⟩))

/-- A message created with two tags: for the second one the capacity is 8. -/
theorem capacity_two_tags :
    ¬ ∀ (self : MessageArray) (size : Nat) (m : Message) (tags : List MessageTag),
      Appending self size m → 2 * (m.tags.length + tags.length) < gintLimit →
        CapacityOk self size tags := by
  intro hall
  have hok := hall _ _ _ [⟨['a'], ['1']⟩, ⟨['b'], ['2']⟩] (.vcreate 4 ['m']) (by decide)
  obtain ⟨self', size', he, _, _, _, hmax⟩ := hok _ (by simp) List.prefix_rfl
  cases he
  exact absurd hmax (by decide)

end Tinu
