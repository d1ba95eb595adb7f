import Tinu.LeakModel

/-!
# The leak watch of the C++ wrapper (`cxxwrap.cc`)

`cxx_leakwatch_callback` decodes an alert into a call of `notify_alloc`, `notify_realloc` or
`notify_free`.  The object considered keeps a set of addresses: the result of an allocation is
added, a tracked source is replaced by the result, and what is given to `notify_free` is removed.
`g_leakwatch_list` holds watches of both kinds here.

* `ofLeak_alloc` — with simple watches alone this is the leak watch as it was;
* `alloc_table`, `alloc_object` — each table and each object sees every alert once;
* `cxx_agrees_iff` — the two views agree throughout exactly when no tracked address is released.
-/

set_option autoImplicit false

namespace Tinu

open GuardedRun

/-! ## The callback -/

/-- A call of a virtual method of `CxxLeakwatch`. -/
inductive Notification where
  | alloc (result : Ptr) (size : Nat)
  | realloc (source result : Ptr) (size : Nat)
  | free (pointer : Ptr)
  deriving DecidableEq, Repr

/-- `cxx_leakwatch_callback`: the method that it calls. -/
def cxxLeakwatchCallback (a : Alert) : Notification :=
  match a.operation with
  | .malloc => .alloc a.ptr a.size
  | .realloc => .realloc a.oldptr a.ptr a.size
  | .free => .free a.ptr

/-- The addresses that an object holds. -/
abbrev LiveAddresses := Finset Ptr

/-- What the methods of the object do. -/
def LiveAddresses.notify (live : LiveAddresses) : Notification → LiveAddresses
  | .alloc result _ => insert result live
  | .realloc source result _ => if source ∈ live then insert result (live.erase source) else live
  | .free pointer => live.erase pointer

/-- The object after an alert. -/
def notifyAlert (a : Alert) (live : LiveAddresses) : LiveAddresses :=
  live.notify (cxxLeakwatchCallback a)

/-! ## Watches of both kinds -/

/-- `m_callback` of a watch, with its `m_user_data`. -/
inductive WatchCallback where
  | simple (table : Ptr)
  | cxx (self : Ptr)
  deriving DecidableEq, Repr

/-- `g_leakwatch_list`, and what the callbacks of its watches work on. -/
structure WatchState where
  list : List WatchCallback
  tables : Ptr → MemoryTable
  objects : Ptr → LiveAddresses
  nextTrace : TraceId
  traceOps : List TraceOp

/-- One round of the loop of `_leakwatch_alert`.  The `CxxBacktrace` of the callback refers to the
trace as long as it lives. -/
def callWatch (a : Alert) (trace : TraceId) (st : WatchState) : WatchCallback → WatchState
  | .simple table =>
    let r := tinuLeakwatchSimpleCallback a trace (st.tables table)
    { st with
      tables := Function.update st.tables table r.1
      traceOps := st.traceOps ++ r.2 }
  | .cxx self =>
    { st with
      objects := Function.update st.objects self (notifyAlert a (st.objects self))
      traceOps := st.traceOps ++ [.reference trace, .unreference trace] }

/-- `_leakwatch_alert`. -/
def WatchState.alert (st : WatchState) (a : Alert) : WatchState :=
  let trace := st.nextTrace
  let st' := st.list.foldl (callWatch a trace)
    { st with nextTrace := trace + 1, traceOps := st.traceOps ++ [.create trace] }
  { st' with traceOps := st'.traceOps ++ [.unreference trace] }

/-- An allocator call, with the hooks installed. -/
def WatchState.alloc (st : WatchState) (c : AllocCall) : WatchState :=
  match c.alert with
  | some a => st.alert a
  | none => st

/-- The watches of `leakwatch.c` alone. -/
def WatchState.ofLeak (st : LeakwatchState) (objects : Ptr → LiveAddresses) : WatchState :=
  ⟨st.list.map fun w => .simple w.userData, st.tables, objects, st.nextTrace, st.traceOps⟩

theorem ofLeak_foldl (a : Alert) (trace : TraceId) (objects : Ptr → LiveAddresses) :
    ∀ (ws : List Leakwatch) (st : LeakwatchState),
      (ws.map fun w => WatchCallback.simple w.userData).foldl (callWatch a trace)
          (.ofLeak st objects) =
        .ofLeak (ws.foldl (alertWatch a trace) st) objects
  | [], _ => rfl
  | w :: ws, st => by
    rw [List.map_cons, List.foldl_cons, List.foldl_cons, ← ofLeak_foldl a trace objects ws]
    rfl

/-- **Simple watches alone** are told what they are told by the allocator hooks. -/
theorem ofLeak_alloc {st : LeakwatchState} (hhooks : st.hooks = AllocHooks.leakwatch)
    (hcount : 0 < st.count) (objects : Ptr → LiveAddresses) (c : AllocCall) :
    WatchState.ofLeak (st.alloc c) objects = (WatchState.ofLeak st objects).alloc c := by
  have hresume : ∀ st', WatchState.ofLeak (hookResume st') objects = .ofLeak st' objects := by
    intro st'
    unfold hookResume
    split <;> rfl
  have hpause : hookPause st = { st with hooks := AllocHooks.null } := if_pos hcount
  rw [alloc_eq_hooked hhooks]
  unfold hooked WatchState.alloc
  rw [hresume, hpause]
  cases c.alert with
  | none => rfl
  | some a =>
    have hfold := ofLeak_foldl a st.nextTrace objects st.list
      { st with
        hooks := AllocHooks.null
        nextTrace := st.nextTrace + 1
        traceOps := st.traceOps ++ [.create st.nextTrace] }
    exact congrArg (fun s : WatchState =>
      { s with traceOps := s.traceOps ++ [TraceOp.unreference st.nextTrace] }) hfold.symm

/-! ## Every alert is seen once -/

/-- A step of a loop that only one element `i` of the list can see through `view`. -/
theorem foldl_view_once {σ ι β : Type} (step : σ → ι → σ) (view : σ → β) (g : β → β) {i : ι}
    (hself : ∀ s, view (step s i) = g (view s))
    (hother : ∀ s j, j ≠ i → view (step s j) = view s) :
    ∀ (l : List ι), l.Nodup → i ∈ l → ∀ s, view (l.foldl step s) = g (view s) := by
  have hskip : ∀ (l : List ι), i ∉ l → ∀ s, view (l.foldl step s) = view s := by
    intro l
    induction l with
    | nil => exact fun _ s => rfl
    | cons j l ih =>
      intro hi s
      obtain ⟨hj, hl⟩ := List.ne_and_not_mem_of_not_mem_cons hi
      rw [List.foldl_cons, ih hl, hother s j hj.symm]
  intro l
  induction l with
  | nil => exact fun _ hi => absurd hi List.not_mem_nil
  | cons j l ih =>
    intro hnd hi s
    obtain ⟨hj, hnd⟩ := List.nodup_cons.mp hnd
    rw [List.foldl_cons]
    rcases List.mem_cons.mp hi with rfl | hi
    · rw [hskip l hj, hself]
    · rw [ih hnd hi, hother s j fun h => hj (h ▸ hi)]

/-- A table after an allocator call that its watch sees once. -/
theorem alloc_table {st : WatchState} {tbl : Ptr} (hnd : st.list.Nodup)
    (hmem : .simple tbl ∈ st.list) (c : AllocCall) :
    (st.alloc c).tables tbl = c.apply st.nextTrace (st.tables tbl) := by
  unfold WatchState.alloc AllocCall.apply
  cases c.alert with
  | none => rfl
  | some a =>
    refine foldl_view_once (callWatch a st.nextTrace) (fun s => s.tables tbl)
      (applyAlert a st.nextTrace) ?_ ?_ st.list hnd hmem _
    · intro s
      simp [callWatch, applyAlert]
    · intro s j hj
      cases j with
      | cxx self => rfl
      | simple table =>
        have hne : tbl ≠ table := fun h => hj (h ▸ rfl)
        simp [callWatch, Function.update_of_ne hne]

/-- An object after an allocator call that its watch sees once. -/
def AllocCall.notify (c : AllocCall) (live : LiveAddresses) : LiveAddresses :=
  match c.alert with
  | some a => notifyAlert a live
  | none => live

theorem alloc_object {st : WatchState} {self : Ptr} (hnd : st.list.Nodup)
    (hmem : .cxx self ∈ st.list) (c : AllocCall) :
    (st.alloc c).objects self = c.notify (st.objects self) := by
  unfold WatchState.alloc AllocCall.notify
  cases c.alert with
  | none => rfl
  | some a =>
    refine foldl_view_once (callWatch a st.nextTrace) (fun s => s.objects self)
      (notifyAlert a) ?_ ?_ st.list hnd hmem _
    · intro s
      simp [callWatch]
    · intro s j hj
      cases j with
      | simple table => rfl
      | cxx other =>
        have hne : self ≠ other := fun h => hj (h ▸ rfl)
        simp [callWatch, Function.update_of_ne hne]

theorem callWatch_list (a : Alert) (trace : TraceId) (ws : List WatchCallback) (st : WatchState) :
    (ws.foldl (callWatch a trace) st).list = st.list := by
  induction ws generalizing st with
  | nil => rfl
  | cons w ws ih =>
    rw [List.foldl_cons, ih]
    cases w <;> rfl

theorem alloc_list (st : WatchState) (c : AllocCall) : (st.alloc c).list = st.list := by
  unfold WatchState.alloc
  cases c.alert with
  | none => rfl
  | some a => exact callWatch_list a st.nextTrace st.list _

/-! ## The two views -/

/-- The object holds exactly the addresses in the table. -/
def SameLive (t : MemoryTable) (live : LiveAddresses) : Prop :=
  ∀ x, x ∈ live ↔ (t.lookup x).isSome

/-- The call does not release an address in the table. -/
def NotReleased (t : MemoryTable) (c : AllocCall) : Prop :=
  ∀ p, c = .free p → t.lookup p = none

theorem sameLive_empty : SameLive ∅ ∅ := fun x => by simp

theorem SameLive.insert {t : MemoryTable} {live : LiveAddresses} (h : SameLive t live) (p : Ptr)
    (e : MemoryEntry) : SameLive (t.insert p e) (insert p live) := by
  intro x
  by_cases hx : x = p
  · subst hx
    simp
  · rw [AList.lookup_insert_ne hx, Finset.mem_insert, ← h x]
    exact or_iff_right hx

theorem SameLive.erase {t : MemoryTable} {live : LiveAddresses} (h : SameLive t live) (p : Ptr) :
    SameLive (t.erase p) (live.erase p) := by
  intro x
  by_cases hx : x = p
  · subst hx
    simp
  · rw [AList.lookup_erase_ne hx, Finset.mem_erase, ← h x]
    exact and_iff_right hx

theorem SameLive.congr {t t' : MemoryTable} {live : LiveAddresses} (h : SameLive t live)
    (hl : ∀ x, t'.lookup x = t.lookup x) : SameLive t' live := by
  intro x
  rw [hl]
  exact h x

/-- **Allocations and reallocations are decoded alike.** -/
theorem SameLive.step {t : MemoryTable} {live : LiveAddresses} (hk : Keyed t)
    (h : SameLive t live) {c : AllocCall} (hg : NotReleased t c) (trace : TraceId) :
    SameLive (c.apply trace t) (c.notify live) := by
  have hnull : NULL ∉ live := by
    rw [h, hk.null]
    decide
  rcases apply_cases hk c trace with ⟨size, res, rfl, hr, ht⟩ | ⟨ptr, n, res, e, rfl, hr, he, ht⟩ |
    ⟨ptr, rfl, ht⟩ | ⟨ht, hc⟩
  · have hn : (AllocCall.malloc size res).notify live = Insert.insert res live := by
      simp [AllocCall.notify, AllocCall.alert, hr, notifyAlert, cxxLeakwatchCallback,
        LiveAddresses.notify]
    rw [ht, hn]
    exact h.insert res _
  · have hmem : ptr ∈ live := by
      rw [h, he]
      rfl
    have hn : (AllocCall.realloc ptr n res).notify live =
        Insert.insert res (live.erase ptr) := by
      simp [AllocCall.notify, AllocCall.alert, hr, notifyAlert, cxxLeakwatchCallback,
        LiveAddresses.notify, hmem]
    rw [hn]
    exact ((h.erase ptr).insert res _).congr ht
  · -- the object is told to remove `NULL`
    have hn : (AllocCall.free ptr).notify live = live := Finset.erase_eq_of_notMem hnull
    have hlook := hg ptr rfl
    rw [hn]
    refine h.congr fun x => ?_
    rw [ht]
    by_cases hx : x = ptr
    · rw [hx, AList.lookup_erase, hlook]
    · exact AList.lookup_erase_ne hx
  · have hn : c.notify live = live := by
      rcases hc with ⟨size, rfl⟩ | ⟨ptr, n, res, rfl, hc⟩
      · rfl
      · by_cases hr : res = NULL
        · simp [AllocCall.notify, AllocCall.alert, hr]
        · have hmem : ptr ∉ live := by
            rw [h, hc.resolve_left hr]
            decide
          simp [AllocCall.notify, AllocCall.alert, hr, notifyAlert, cxxLeakwatchCallback,
            LiveAddresses.notify, hmem]
    rw [ht, hn]
    exact h

/-- A release of a tracked address is lost on the object. -/
theorem SameLive.differ {t : MemoryTable} {live : LiveAddresses} (hk : Keyed t)
    (h : SameLive t live) {c : AllocCall} (hg : ¬ NotReleased t c) (trace : TraceId) :
    ¬ SameLive (c.apply trace t) (c.notify live) := by
  unfold NotReleased at hg
  push Not at hg
  obtain ⟨p, rfl, hlook⟩ := hg
  intro h'
  have hnull : NULL ∉ live := by
    rw [h, hk.null]
    decide
  have hn : (AllocCall.free p).notify live = live := Finset.erase_eq_of_notMem hnull
  have hp : p ∈ live := (h p).mpr (Option.isSome_iff_ne_none.mpr hlook)
  rw [hn] at h'
  have hgone := (h' p).mp hp
  have ht : ((AllocCall.free p).apply trace t).lookup p = none := AList.lookup_erase p t
  rw [ht] at hgone
  cases hgone

/-- The two watches are registered, and see every alert once. -/
structure BothWatch (tbl self : Ptr) (st : WatchState) : Prop where
  nodup : st.list.Nodup
  simple : .simple tbl ∈ st.list
  cxx : .cxx self ∈ st.list
  keyed : Keyed (st.tables tbl)

theorem bothWatch_guarded (tbl self : Ptr) :
    Guarded WatchState.alloc WatchState.alloc (BothWatch tbl self)
      (fun s t => s = t ∧ SameLive (s.tables tbl) (s.objects self)) (fun _ _ => True)
      (fun t c => NotReleased (t.tables tbl) c) where
  inv_step := by
    rintro s c ⟨hnd, hs, hc, hk⟩
    refine ⟨?_, ?_, ?_, ?_⟩
    · rwa [alloc_list]
    · rwa [alloc_list]
    · rwa [alloc_list]
    · rw [alloc_table hnd hs]
      exact hk.apply c _
  agree_step := by
    rintro s t c ⟨hnd, hs, hc, hk⟩ ⟨rfl, h⟩ _ hg
    refine ⟨rfl, ?_⟩
    rw [alloc_table hnd hs, alloc_object hnd hc]
    exact h.step hk hg _
  differ_step := by
    rintro s t c ⟨hnd, hs, hc, hk⟩ ⟨rfl, h⟩ _ hg ⟨_, h'⟩
    rw [alloc_table hnd hs, alloc_object hnd hc] at h'
    exact h.differ hk hg _ h'

/-- **The C++ view and the C view agree throughout exactly when no address that the table holds is
released.** -/
theorem cxx_agrees_iff {st : WatchState} {tbl self : Ptr} (hnd : st.list.Nodup)
    (hsimple : .simple tbl ∈ st.list) (hcxx : .cxx self ∈ st.list) (htbl : st.tables tbl = ∅)
    (hself : st.objects self = ∅) (calls : List AllocCall) :
    (∀ pre, pre <+: calls → SameLive ((pre.foldl WatchState.alloc st).tables tbl)
        ((pre.foldl WatchState.alloc st).objects self)) ↔
      ∀ pre p, pre ++ [.free p] <+: calls →
        ((pre.foldl WatchState.alloc st).tables tbl).lookup p = none := by
  have hk : Keyed (st.tables tbl) := by
    rw [htbl]
    exact keyed_empty
  have hstart : SameLive (st.tables tbl) (st.objects self) := by
    rw [htbl, hself]
    exact sameLive_empty
  have hiff := (bothWatch_guarded tbl self).run_iff calls ⟨hnd, hsimple, hcxx, hk⟩ ⟨rfl, hstart⟩
    fun _ _ _ => trivial
  constructor
  · intro h pre p hp
    exact hiff.mp (fun pre hpre => ⟨rfl, h pre hpre⟩) pre (.free p) hp p rfl
  · intro h pre hpre
    refine (hiff.mpr ?_ pre hpre).2
    rintro pre c hp p rfl
    exact h pre p hp

/-- One simple watch and one object. -/
def bothStart : WatchState := ⟨[.simple 8, .cxx 9], fun _ => ∅, fun _ => ∅, 0, []⟩

/-- A block is obtained and moved, and its old address reused. -/
theorem cxx_agrees_iff_moved :
    (∀ pre, pre <+: [AllocCall.malloc 10 16, .realloc 16 20 32, .malloc 5 16] →
      SameLive ((pre.foldl WatchState.alloc bothStart).tables 8)
        ((pre.foldl WatchState.alloc bothStart).objects 9)) ↔
    ∀ pre p, pre ++ [.free p] <+: [AllocCall.malloc 10 16, .realloc 16 20 32, .malloc 5 16] →
      ((pre.foldl WatchState.alloc bothStart).tables 8).lookup p = none :=
  cxx_agrees_iff (by decide) (by decide) (by decide) rfl rfl _

/-- A released block stays in the object. -/
theorem cxx_free_lost :
    ¬ ∀ (st : WatchState) (tbl self : Ptr), st.list.Nodup → .simple tbl ∈ st.list →
      .cxx self ∈ st.list → st.tables tbl = ∅ → st.objects self = ∅ →
        ∀ calls pre : List AllocCall, pre <+: calls →
          SameLive ((pre.foldl WatchState.alloc st).tables tbl)
            ((pre.foldl WatchState.alloc st).objects self) := by
  intro h
  have hsame := h bothStart 8 9 (by decide) (by decide) (by decide) rfl rfl
    [.malloc 10 16, .free 16] _ (List.prefix_refl _) 16
  revert hsame
  decide

end Tinu
