import Tinu.Leakwatch
import Tinu.Lib.GuardedRun

/-!
# The live blocks

What a leak watch is for: the blocks obtained from the allocator since it was registered and not
yet released, each with its current address and size.

`table_live_blocks_iff` compares the table of a watch with the live blocks over whole sequences
of allocator calls: they agree throughout exactly when no call is one of the two that the watch
does not report (`Reported`), a successful `realloc(NULL, n)` and a `realloc(p, 0)` that released
a live block.
-/

set_option autoImplicit false

namespace Tinu

open GuardedRun TableView

/-- The size of each live block, by address. -/
abbrev LiveBlocks := AList fun _ : Ptr => Nat

def LiveBlocks.step (m : LiveBlocks) : AllocCall → LiveBlocks
  | .malloc size res => if res = NULL then m else m.insert res size
  | .realloc ptr newsize res =>
    if ptr = NULL then
      if res = NULL then m else m.insert res newsize
    else
      match m.lookup ptr with
      | none => m
      | some _ =>
        if res ≠ NULL then (m.erase ptr).insert res newsize
        else if newsize = 0 then m.erase ptr
        else m
  | .free ptr => m.erase ptr

/-- The number of bytes in live blocks. -/
def LiveBlocks.bytes (m : LiveBlocks) : Nat := total (fun size => size) m

/-- The allocator does not hand out the address of a live block, except that of the block it
resizes. -/
def AllocatorFresh (m : LiveBlocks) : AllocCall → Prop
  | .malloc _ res => res ≠ NULL → m.lookup res = none
  | .realloc ptr _ res => res ≠ NULL → res = ptr ∨ m.lookup res = none
  | .free _ => True

instance (m : LiveBlocks) : (c : AllocCall) → Decidable (AllocatorFresh m c)
  | .malloc _ res => inferInstanceAs (Decidable (res ≠ NULL → m.lookup res = none))
  | .realloc ptr _ res =>
    inferInstanceAs (Decidable (res ≠ NULL → res = ptr ∨ m.lookup res = none))
  | .free _ => inferInstanceAs (Decidable True)

/-- The call is neither a `realloc` of `NULL` that succeeds nor a `realloc` to size 0 that
releases a live block. -/
def Reported (m : LiveBlocks) : AllocCall → Prop
  | .realloc ptr newsize res =>
    if ptr = NULL then res = NULL
    else ¬ ((m.lookup ptr).isSome ∧ newsize = 0 ∧ res = NULL)
  | _ => True

/-- The table at `tbl` holds exactly the live blocks, each under its current address with its
current size, and the summary is their total size. -/
structure Tracks (tbl : Ptr) (st : LeakwatchState) (m : LiveBlocks) : Prop where
  blocks : Views MemoryEntry.size (st.tables tbl) m
  address : ∀ p e, (st.tables tbl).lookup p = some e → e.ptr = p
  summary : tinuLeakwatchSummary (st.tables tbl) = m.bytes % gsizeRange

/-! ## One call -/

/-- Entries are kept under their own address, and none under `NULL`. -/
structure Keyed (t : MemoryTable) : Prop where
  address : ∀ p e, t.lookup p = some e → e.ptr = p
  null : t.lookup NULL = none

theorem keyed_empty : Keyed ∅ := ⟨fun p e h => by simp at h, by simp⟩

theorem Keyed.insert {t : MemoryTable} (h : Keyed t) {e : MemoryEntry} (he : e.ptr ≠ NULL) :
    Keyed (t.insert e.ptr e) := by
  constructor
  · intro p e' hp
    by_cases hpe : p = e.ptr
    · subst hpe
      rw [AList.lookup_insert] at hp
      cases hp
      rfl
    · rw [AList.lookup_insert_ne hpe] at hp
      exact h.address p e' hp
  · rw [AList.lookup_insert_ne (Ne.symm he)]
    exact h.null

theorem Keyed.erase {t : MemoryTable} (h : Keyed t) (p : Ptr) : Keyed (t.erase p) := by
  constructor
  · intro q e hq
    by_cases hqp : q = p
    · subst hqp
      rw [AList.lookup_erase] at hq
      cases hq
    · rw [AList.lookup_erase_ne hqp] at hq
      exact h.address q e hq
  · by_cases hn : NULL = p
    · rw [← hn, AList.lookup_erase]
    · rw [AList.lookup_erase_ne hn]
      exact h.null

theorem Keyed.congr {t t' : MemoryTable} (h : Keyed t) (hl : ∀ x, t'.lookup x = t.lookup x) :
    Keyed t' := by
  constructor
  · intro p e hp
    rw [hl] at hp
    exact h.address p e hp
  · rw [hl]
    exact h.null

/-- What a reported call does to a table, by the shape of the call. -/
theorem apply_cases {t : MemoryTable} (hk : Keyed t) (c : AllocCall) (trace : TraceId) :
    (∃ size res, c = .malloc size res ∧ res ≠ NULL ∧
      c.apply trace t = t.insert res ⟨res, size, some trace, none⟩) ∨
    (∃ ptr newsize res e, c = .realloc ptr newsize res ∧ res ≠ NULL ∧ t.lookup ptr = some e ∧
      ∀ x, (c.apply trace t).lookup x =
        ((t.erase ptr).insert res ⟨res, newsize, e.origin, some trace⟩).lookup x) ∨
    (∃ ptr, c = .free ptr ∧ c.apply trace t = t.erase ptr) ∨
    (c.apply trace t = t ∧
      ((∃ size, c = .malloc size NULL) ∨ (∃ ptr newsize res, c = .realloc ptr newsize res ∧
        (res = NULL ∨ t.lookup ptr = none)))) := by
  cases c with
  | malloc size res =>
    by_cases hr : res = NULL
    · subst hr
      refine Or.inr (Or.inr (Or.inr ⟨?_, Or.inl ⟨size, rfl⟩⟩))
      simp [AllocCall.apply, AllocCall.alert]
    · refine Or.inl ⟨size, res, rfl, hr, ?_⟩
      simp [AllocCall.apply, AllocCall.alert, hr, applyAlert_malloc]
  | realloc ptr newsize res =>
    by_cases hr : res = NULL
    · subst hr
      refine Or.inr (Or.inr (Or.inr ⟨?_, Or.inr ⟨ptr, newsize, NULL, rfl, Or.inl rfl⟩⟩))
      simp [AllocCall.apply, AllocCall.alert]
    · cases he : t.lookup ptr with
      | none =>
        refine Or.inr (Or.inr (Or.inr ⟨?_, Or.inr ⟨ptr, newsize, res, rfl, Or.inr he⟩⟩))
        simp [AllocCall.apply, AllocCall.alert, hr, applyAlert_realloc_unknown he]
      | some e =>
        refine Or.inr (Or.inl ⟨ptr, newsize, res, e, rfl, hr, he, fun x => ?_⟩)
        have := @applyAlert_realloc_tracked ptr res newsize trace t e he (hk.address ptr e he) x
        simpa [AllocCall.apply, AllocCall.alert, hr] using this
  | free ptr => exact Or.inr (Or.inr (Or.inl ⟨ptr, rfl, rfl⟩))

/-- Every call keeps the table keyed by address. -/
theorem Keyed.apply {t : MemoryTable} (hk : Keyed t) (c : AllocCall) (trace : TraceId) :
    Keyed (c.apply trace t) := by
  rcases apply_cases hk c trace with ⟨size, res, rfl, hr, h⟩ | ⟨ptr, n, res, e, rfl, hr, _, h⟩ |
    ⟨ptr, rfl, h⟩ | ⟨h, _⟩
  · rw [h]
    exact @Keyed.insert _ hk ⟨res, size, some trace, none⟩ hr
  · exact (@Keyed.insert _ (hk.erase ptr) ⟨res, n, e.origin, some trace⟩ hr).congr h
  · rw [h]
    exact hk.erase ptr
  · rw [h]
    exact hk

/-- A view only depends on what is looked up. -/
theorem views_congr {t t' : MemoryTable} {m : LiveBlocks} (h : Views MemoryEntry.size t m)
    (hl : ∀ x, t'.lookup x = t.lookup x) : Views MemoryEntry.size t' m := by
  intro x
  rw [hl]
  exact h x

/-- **A reported call keeps the table a view of the live blocks.** -/
theorem Views.step {t : MemoryTable} {m : LiveBlocks} (hk : Keyed t)
    (hv : Views MemoryEntry.size t m) {c : AllocCall} (hg : Reported m c) (trace : TraceId) :
    Views MemoryEntry.size (c.apply trace t) (m.step c) := by
  rcases apply_cases hk c trace with ⟨size, res, rfl, hr, h⟩ | ⟨ptr, n, res, e, rfl, hr, he, h⟩ |
    ⟨ptr, rfl, h⟩ | ⟨h, hc⟩
  · rw [h]
    simp only [LiveBlocks.step, if_neg hr]
    exact hv.insert res _
  · have hp : ptr ≠ NULL := by
      rintro rfl
      rw [hk.null] at he
      cases he
    simp only [LiveBlocks.step, if_neg hp, hv.lookup_some he, ne_eq, hr, not_false_eq_true, if_true]
    exact views_congr ((hv.erase ptr).insert res _) h
  · rw [h]
    exact hv.erase ptr
  · rw [h]
    rcases hc with ⟨size, rfl⟩ | ⟨ptr, n, res, rfl, hc⟩
    · exact hv
    · by_cases hp : ptr = NULL
      · have hr : res = NULL := by simpa [Reported, hp] using hg
        simpa [LiveBlocks.step, hp, hr] using hv
      · cases hm : m.lookup ptr with
        | none => simpa [LiveBlocks.step, hp, hm] using hv
        | some size =>
          have hr : res = NULL := by
            rcases hc with hr | hn
            · exact hr
            · rw [hv.lookup_none hn] at hm
              cases hm
          have hn : n ≠ 0 := by
            intro hn
            simp [Reported, hp, hm, hr, hn] at hg
          simpa [LiveBlocks.step, hp, hm, hr, hn] using hv

/-- A call that is not reported makes the table differ from the live blocks. -/
theorem Views.differ {t : MemoryTable} {m : LiveBlocks} (hk : Keyed t)
    (hv : Views MemoryEntry.size t m) {c : AllocCall} (hf : AllocatorFresh m c)
    (hg : ¬ Reported m c) (trace : TraceId) :
    ¬ Views MemoryEntry.size (c.apply trace t) (m.step c) := by
  intro hv'
  cases c with
  | malloc size res => exact hg trivial
  | free ptr => exact hg trivial
  | realloc ptr newsize res =>
    by_cases hp : ptr = NULL
    · -- the new block is not in the table
      subst hp
      have hr : res ≠ NULL := by simpa [Reported] using hg
      have hsame : (AllocCall.realloc NULL newsize res).apply trace t = t := by
        simp [AllocCall.apply, AllocCall.alert, hr, applyAlert_realloc_unknown hk.null]
      have hold : m.lookup res = none := by
        rcases hf hr with rfl | hold
        · exact (hr rfl).elim
        · exact hold
      have := hv' res
      rw [hsame, hv res, hold] at this
      simp [LiveBlocks.step, hr] at this
    · -- the released block is still in the table
      have hg' : (m.lookup ptr).isSome ∧ newsize = 0 ∧ res = NULL := by
        simpa [Reported, hp] using hg
      obtain ⟨hm, rfl, rfl⟩ := hg'
      obtain ⟨size, hm⟩ := Option.isSome_iff_exists.mp hm
      have hsame : (AllocCall.realloc ptr 0 NULL).apply trace t = t := by
        simp [AllocCall.apply, AllocCall.alert]
      have := hv' ptr
      rw [hsame, hv ptr, hm] at this
      simp [LiveBlocks.step, hp, hm] at this

/-- The table is a keyed view of the live blocks. -/
theorem tracks_of_views {tbl : Ptr} {st : LeakwatchState} {m : LiveBlocks}
    (hk : Keyed (st.tables tbl)) (hv : Views MemoryEntry.size (st.tables tbl) m) :
    Tracks tbl st m := by
  refine ⟨hv, hk.address, ?_⟩
  rw [tinuLeakwatchSummary_eq, LiveBlocks.bytes, ← hv.total_eq]
  rfl

/-- One allocator call on the watch against one step of the live blocks. -/
theorem leakwatch_guarded (tbl : Ptr) : Guarded LeakwatchState.alloc LiveBlocks.step
    (fun st => Watching tbl st ∧ Keyed (st.tables tbl)) (Tracks tbl) AllocatorFresh Reported where
  inv_step := by
    rintro st c ⟨hw, hk⟩
    refine ⟨hw.alloc c, ?_⟩
    rw [hw.alloc_table]
    exact hk.apply c _
  agree_step := by
    rintro st m c ⟨hw, hk⟩ ha _ hg
    refine tracks_of_views ?_ ?_
    · rw [hw.alloc_table]
      exact hk.apply c _
    · rw [hw.alloc_table]
      exact Views.step hk ha.blocks hg _
  differ_step := by
    rintro st m c ⟨hw, hk⟩ ha hf hg ha'
    have := ha'.blocks
    rw [hw.alloc_table] at this
    exact Views.differ hk ha.blocks hf hg _ this

/-! ## Sequences of calls -/

/-- **The table of a watch holds exactly the live blocks as long as every call is one that the
watch reports.** -/
theorem table_live_blocks_iff {st : LeakwatchState} {lw tbl : Ptr}
    (hnew : ∀ w ∈ st.list, w.userData ≠ tbl) {calls : List AllocCall}
    (hfresh : EveryStep LiveBlocks.step AllocatorFresh ∅ calls) :
    AgreeThroughout LeakwatchState.alloc LiveBlocks.step (Tracks tbl)
        (tinuLeakwatchSimple st lw tbl) ∅ calls ↔
      EveryStep LiveBlocks.step Reported ∅ calls := by
  obtain ⟨hw, ht⟩ := @tinuLeakwatchSimple_watching st lw tbl hnew
  have hk : Keyed ((tinuLeakwatchSimple st lw tbl).tables tbl) := by
    rw [ht]
    exact keyed_empty
  refine (leakwatch_guarded tbl).run_iff calls ⟨hw, hk⟩ (tracks_of_views hk ?_) hfresh
  rw [ht]
  exact views_empty _

/-- A block is obtained, moved, and its old address reused. -/
theorem table_live_blocks_moved :
    AgreeThroughout LeakwatchState.alloc LiveBlocks.step (Tracks 8)
        (tinuLeakwatchSimple LeakwatchState.start 4 8) ∅
        [.malloc 10 16, .realloc 16 20 32, .malloc 5 16, .free 32] ↔
      EveryStep LiveBlocks.step Reported ∅
        [.malloc 10 16, .realloc 16 20 32, .malloc 5 16, .free 32] := by
  refine table_live_blocks_iff (by simp [LeakwatchState.start]) ?_
  simp only [everyStep_cons, everyStep_nil, and_true]
  decide

/-- A block obtained by `realloc` of `NULL` is not in the table. -/
theorem realloc_null_untracked :
    ¬ ∀ (st : LeakwatchState) (lw tbl : Ptr), (∀ w ∈ st.list, w.userData ≠ tbl) →
      ∀ calls : List AllocCall, EveryStep LiveBlocks.step AllocatorFresh ∅ calls →
        AgreeThroughout LeakwatchState.alloc LiveBlocks.step (Tracks tbl)
          (tinuLeakwatchSimple st lw tbl) ∅ calls := by
  intro h
  have := h LeakwatchState.start 4 8 (by simp [LeakwatchState.start]) [.realloc NULL 10 16]
    (by simp only [everyStep_cons, everyStep_nil, and_true]; decide) _ (List.prefix_refl _)
  have hview := this.blocks 16
  revert hview
  decide

end Tinu
