import Mathlib

/-!
# A heap of blocks

Blocks are handed out at one address after the other.  No block is at address zero, and none at
an address that was not handed out: both are fields.  Writing to, or freeing, an address without
a block is a fault (`none`).

`Moves S h S' h'` says that who owns the blocks `S` takes the heap from `h` to `h'` and owns `S'`
there: other blocks stay, and what is new is fresh.

* `Moves.trans`, `Moves.union` — one move after another, and with blocks that are not touched;
* `Moves.stays`, `Moves.separate` — what another owner may rely on;
* `Accounts`, `Accounts.blocks_eq` — a move that loses no block;
* `accounts_alloc`, `accounts_store`, `accounts_free` — the operations.
-/

set_option autoImplicit false

namespace Blocks

variable {β : Type}

structure Heap (β : Type) where
  blocks : Nat → Option β
  next : Nat
  pos : 0 < next
  null : blocks 0 = none
  fresh : ∀ a, next ≤ a → blocks a = none

namespace Heap

def empty : Heap β := ⟨fun _ => none, 1, Nat.one_pos, rfl, fun _ _ => rfl⟩

theorem lt_next {h : Heap β} {a : Nat} {b : β} (ha : h.blocks a = some b) : a < h.next := by
  by_contra hle
  rw [h.fresh a (Nat.le_of_not_lt hle)] at ha
  cases ha

theorem ne_zero {h : Heap β} {a : Nat} {b : β} (ha : h.blocks a = some b) : a ≠ 0 := by
  rintro rfl
  rw [h.null] at ha
  cases ha

/-- A new block and its address. -/
def alloc (h : Heap β) (b : β) : Nat × Heap β :=
  (h.next,
    { blocks := Function.update h.blocks h.next (some b)
      next := h.next + 1
      pos := Nat.succ_pos _
      null := by
        rw [Function.update_of_ne (Nat.ne_of_lt h.pos)]
        exact h.null
      fresh := fun a ha => by
        rw [Function.update_of_ne (Nat.ne_of_gt ha)]
        exact h.fresh a (Nat.le_of_succ_le ha) })

/-- The heap with another content, or none, at an address with a block. -/
def set (h : Heap β) (a : Nat) (b : Option β) (ha : (h.blocks a).isSome) : Heap β :=
  { blocks := Function.update h.blocks a b
    next := h.next
    pos := h.pos
    null := by
      obtain ⟨c, hc⟩ := Option.isSome_iff_exists.mp ha
      rw [Function.update_of_ne (ne_zero hc).symm]
      exact h.null
    fresh := fun x hx => by
      obtain ⟨c, hc⟩ := Option.isSome_iff_exists.mp ha
      rw [Function.update_of_ne (Nat.ne_of_gt (Nat.lt_of_lt_of_le (lt_next hc) hx))]
      exact h.fresh x hx }

def store (h : Heap β) (a : Nat) (b : β) : Option (Heap β) :=
  if ha : (h.blocks a).isSome then some (h.set a (some b) ha) else none

def free (h : Heap β) (a : Nat) : Option (Heap β) :=
  if ha : (h.blocks a).isSome then some (h.set a none ha) else none

theorem alloc_self (h : Heap β) (b : β) : (h.alloc b).2.blocks h.next = some b :=
  Function.update_self _ _ _

theorem alloc_of_ne (h : Heap β) (b : β) {x : Nat} (hx : x ≠ h.next) :
    (h.alloc b).2.blocks x = h.blocks x :=
  Function.update_of_ne hx _ _

end Heap

/-- The owner of the blocks `S` in `h` goes on to `h'`, where it owns `S'`. -/
structure Moves (S : Set Nat) (h : Heap β) (S' : Set Nat) (h' : Heap β) : Prop where
  next_le : h.next ≤ h'.next
  kept : ∀ x, x < h.next → x ∉ S → h'.blocks x = h.blocks x
  owned : ∀ x ∈ S', x ∈ S ∨ h.next ≤ x ∨ x = 0

/-- Two owners have no block in common. -/
def Separate (S T : Set Nat) : Prop := ∀ x ∈ S, x ∈ T → x = 0

theorem Separate.symm {S T : Set Nat} (h : Separate S T) : Separate T S := fun x hT hS => h x hS hT

theorem Moves.refl (S : Set Nat) (h : Heap β) : Moves S h S h :=
  ⟨Nat.le_refl _, fun _ _ _ => rfl, fun _ hx => .inl hx⟩

/-- **One move after another.** -/
theorem Moves.trans {S S' S'' : Set Nat} {h h' h'' : Heap β} (h1 : Moves S h S' h')
    (h2 : Moves S' h' S'' h'') : Moves S h S'' h'' := by
  refine ⟨Nat.le_trans h1.next_le h2.next_le, fun x hx hS => ?_, fun x hx => ?_⟩
  · by_cases h0 : x = 0
    · rw [h0, h.null, h''.null]
    have hS' : x ∉ S' := by
      intro hmem
      obtain hmem | hle | hz := h1.owned x hmem
      · exact hS hmem
      · exact Nat.not_le_of_lt hx hle
      · exact h0 hz
    rw [h2.kept x (Nat.lt_of_lt_of_le hx h1.next_le) hS', h1.kept x hx hS]
  · obtain hmem | hle | hz := h2.owned x hx
    · exact h1.owned x hmem
    · exact .inr (.inl (Nat.le_trans h1.next_le hle))
    · exact .inr (.inr hz)

/-- A move of some of the blocks of an owner. -/
theorem Moves.union {S S' : Set Nat} {h h' : Heap β} (hm : Moves S h S' h') (T : Set Nat) :
    Moves (S ∪ T) h (S' ∪ T) h' := by
  refine ⟨hm.next_le, fun x hx hS => hm.kept x hx fun hmem => hS (.inl hmem), fun x hx => ?_⟩
  obtain hx | hx := hx
  · obtain hmem | hnew := hm.owned x hx
    · exact .inl (.inl hmem)
    · exact .inr hnew
  · exact .inl (.inr hx)

/-- **A block of another owner stays.** -/
theorem Moves.stays {S S' : Set Nat} {h h' : Heap β} (hm : Moves S h S' h') {x : Nat} {b : β}
    (hx : h.blocks x = some b) (hS : x ∉ S) : h'.blocks x = some b := by
  rw [hm.kept x (Heap.lt_next hx) hS, hx]

/-- **Owners that were separate stay so**, as what is new is fresh. -/
theorem Moves.separate {S S' T : Set Nat} {h h' : Heap β} (hm : Moves S h S' h')
    (hsep : Separate S T) (hT : ∀ x ∈ T, x < h.next) : Separate S' T := by
  intro x hS' hxT
  obtain hmem | hle | hz := hm.owned x hS'
  · exact hsep x hmem hxT
  · exact absurd (hT x hxT) (Nat.not_lt_of_le hle)
  · exact hz

/-! ## Moves that lose no block -/

/-- A move that accounts for every block: what is still there of `S`, and what is new, is in
`S'`. -/
structure Accounts (S : Set Nat) (h : Heap β) (S' : Set Nat) (h' : Heap β) : Prop extends
    Moves S h S' h' where
  live : ∀ x, x ∈ S ∨ h.next ≤ x → h'.blocks x ≠ none → x ∈ S'

theorem Accounts.refl (S : Set Nat) (h : Heap β) : Accounts S h S h := by
  refine ⟨Moves.refl S h, fun x hx hb => ?_⟩
  obtain hx | hx := hx
  · exact hx
  · exact absurd (h.fresh x hx) hb

/-- A block is live after two moves only if the first left it to the second, or the second made
it. -/
theorem Accounts.trans {S S' S'' : Set Nat} {h h' h'' : Heap β} (h1 : Accounts S h S' h')
    (h2 : Accounts S' h' S'' h'') : Accounts S h S'' h'' := by
  refine ⟨h1.toMoves.trans h2.toMoves, fun x hx hb => ?_⟩
  by_cases hS' : x ∈ S' ∨ h'.next ≤ x
  · exact h2.live x hS' hb
  · obtain ⟨hnot, hlt⟩ := not_or.mp hS'
    rw [h2.kept x (Nat.lt_of_not_le hlt) hnot] at hb
    exact absurd (h1.live x hx hb) hnot

theorem Accounts.union {S S' : Set Nat} {h h' : Heap β} (hm : Accounts S h S' h') (T : Set Nat) :
    Accounts (S ∪ T) h (S' ∪ T) h' := by
  refine ⟨hm.toMoves.union T, fun x hx hb => ?_⟩
  obtain (hx | hx) | hx := hx
  · exact .inl (hm.live x (.inl hx) hb)
  · exact .inr hx
  · exact .inl (hm.live x (.inr hx) hb)

/-- One owner gives up its blocks, then another. -/
theorem Accounts.release {S T : Set Nat} {h h' h'' : Heap β} (h1 : Accounts S h ∅ h')
    (h2 : Accounts T h' ∅ h'') : Accounts (S ∪ T) h ∅ h'' := by
  have hfirst := h1.union T
  rw [Set.empty_union] at hfirst
  exact hfirst.trans h2

/-- There is no block at the null address to account for. -/
theorem Accounts.null {S S' : Set Nat} {h h' : Heap β} (hm : Accounts S h S' h') :
    Accounts S h (insert 0 S') h' := by
  refine ⟨⟨hm.next_le, hm.kept, fun x hx => ?_⟩, fun x hx hb => .inr (hm.live x hx hb)⟩
  obtain rfl | hx := hx
  · exact .inr (.inr rfl)
  · exact hm.owned x hx

/-- **Where an owner started from nothing**, every block that it does not own is as before. -/
theorem Accounts.blocks_eq {S' : Set Nat} {h h' : Heap β} (hm : Accounts ∅ h S' h') {x : Nat}
    (hx : x ∉ S') : h'.blocks x = h.blocks x := by
  by_cases hlt : x < h.next
  · exact hm.kept x hlt (Set.notMem_empty x)
  · have hle := Nat.le_of_not_lt hlt
    rw [h.fresh x hle]
    by_contra hb
    exact hx (hm.live x (.inr hle) hb)

theorem accounts_alloc (h : Heap β) (b : β) : Accounts ∅ h {h.next} (h.alloc b).2 := by
  refine ⟨⟨Nat.le_succ _, fun x hx _ => Heap.alloc_of_ne h b (Nat.ne_of_lt hx), fun x hx => ?_⟩,
    fun x hx hb => ?_⟩
  · exact .inr (.inl (Nat.le_of_eq (Set.mem_singleton_iff.mp hx).symm))
  · by_contra hne
    rw [Heap.alloc_of_ne h b hne] at hb
    obtain hx | hx := hx
    · exact hx
    · exact hb (h.fresh x hx)

theorem Heap.set_blocks (h : Heap β) (a : Nat) (b : Option β) (ha : (h.blocks a).isSome) (x : Nat) :
    (h.set a b ha).blocks x = if x = a then b else h.blocks x :=
  Function.update_apply _ _ _ _

/-- Another content, or none, at an address. -/
theorem Heap.set_accounts (h : Heap β) (a : Nat) (b : Option β) (ha : (h.blocks a).isSome)
    {S : Set Nat} (hS : S ⊆ {a}) (hb : b ≠ none → a ∈ S) : Accounts {a} h S (h.set a b ha) := by
  refine ⟨⟨Nat.le_refl _, fun x _ hx => ?_, fun x hx => .inl (hS hx)⟩, fun x hx hlive => ?_⟩
  · rw [h.set_blocks, if_neg fun he => hx (Set.mem_singleton_iff.mpr he)]
  · rw [h.set_blocks] at hlive
    split at hlive
    · rename_i heq
      rw [heq]
      exact hb hlive
    · rename_i hne
      obtain hx | hx := hx
      · exact absurd hx hne
      · exact absurd (h.fresh x hx) hlive

theorem accounts_store {h : Heap β} {a : Nat} {b : β} (ha : h.blocks a = some b) (c : β) :
    ∃ h', h.store a c = some h' ∧ h'.blocks a = some c ∧ Accounts {a} h {a} h' := by
  have hsome : (h.blocks a).isSome := by rw [ha]; rfl
  refine ⟨h.set a (some c) hsome, dif_pos hsome, ?_, ?_⟩
  · rw [h.set_blocks, if_pos rfl]
  · exact h.set_accounts a (some c) hsome (Set.Subset.refl _) fun _ => rfl

theorem accounts_free {h : Heap β} {a : Nat} {b : β} (ha : h.blocks a = some b) :
    ∃ h', h.free a = some h' ∧ Accounts {a} h ∅ h' := by
  have hsome : (h.blocks a).isSome := by rw [ha]; rfl
  exact ⟨h.set a none hsome, dif_pos hsome,
    h.set_accounts a none hsome (Set.empty_subset _) fun hne => absurd rfl hne⟩

end Blocks
