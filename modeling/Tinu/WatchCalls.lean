import Tinu.Leakwatch

/-!
# Registering and unregistering watches

The count, the list, the installed hooks and the saved ones are changed by different functions of
`leakwatch.c`.  `WatchInv` says how they belong together; `watches_bracketed` follows it over every
sequence of calls, from any state without watches.
-/

set_option autoImplicit false

namespace Tinu

/-- A call of `tinu_register_watch`, with the address of the new record, or of
`tinu_unregister_watch`; the allocator is called in between. -/
inductive WatchCall where
  | register (lw userData : Ptr)
  | unregister (handle : Ptr)
  | alloc (call : AllocCall)
  deriving DecidableEq, Repr

/-- The state after a call; `none` when an assertion fails. -/
def watchCall (st : LeakwatchState) : WatchCall → Option LeakwatchState
  | .register lw userData => some (tinuRegisterWatch st lw userData)
  | .unregister handle => (tinuUnregisterWatch st handle).map fun r => r.2.1
  | .alloc call => some (st.alloc call)

/-- The live handles: registered, and not unregistered since. -/
def handlesStep (live : List Ptr) : WatchCall → List Ptr
  | .register lw _ => lw :: live
  | .unregister handle => live.erase handle
  | .alloc _ => live

/-- The four pieces of state, with the hooks `base` that were there before the first watch. -/
structure WatchInv (base : AllocHooks) (live : List Ptr) (st : LeakwatchState) : Prop where
  handles : st.list.map Leakwatch.handle = live
  count : st.count = st.list.length
  idle : st.list = [] → st.hooks = base
  installed : st.list ≠ [] → st.hooks = AllocHooks.leakwatch ∧ st.saved = base ∧ st.init = true

theorem WatchInv.count_eq_zero {base : AllocHooks} {live : List Ptr} {st : LeakwatchState}
    (h : WatchInv base live st) : st.count = 0 ↔ st.list = [] := by
  rw [h.count, List.length_eq_zero_iff]

/-- A pause and a resume around a change of the list leave the hooks alone. -/
theorem WatchInv.bracket {base : AllocHooks} {live : List Ptr} {st : LeakwatchState}
    (h : WatchInv base live st) (ws : List Leakwatch) :
    hookResume { hookPause st with list := ws } = { st with list := ws } := by
  by_cases hl : st.list = []
  · have hc := h.count_eq_zero.mpr hl
    simp [hookPause, hookResume, hc]
  · have hc : 0 < st.count := Nat.pos_of_ne_zero fun hc => hl (h.count_eq_zero.mp hc)
    have hooks := (h.installed hl).1
    obtain ⟨list, count, init, hooks', saved, tables, nextTrace, traceOps⟩ := st
    simp only at hooks hc
    subst hooks
    simp [hookPause, hookResume, hc]

theorem WatchInv.register {base : AllocHooks} {live : List Ptr} {st : LeakwatchState}
    (h : WatchInv base live st) (lw userData : Ptr) :
    WatchInv base (lw :: live) (tinuRegisterWatch st lw userData) := by
  have hfields : (tinuRegisterWatch st lw userData).list = ⟨lw, userData⟩ :: st.list ∧
      (tinuRegisterWatch st lw userData).count = st.count + 1 ∧
      (tinuRegisterWatch st lw userData).hooks = AllocHooks.leakwatch ∧
      (tinuRegisterWatch st lw userData).saved = (if st.count = 0 then st.hooks else st.saved) ∧
      (tinuRegisterWatch st lw userData).init = true := by
    by_cases hc : st.count = 0 <;>
      simp [tinuRegisterWatch, tinuLeakwatchEnable, hookPause, hookResume, hc]
  obtain ⟨hlist, hcount, hhooks, hsaved, hinit⟩ := hfields
  refine ⟨?_, ?_, ?_, fun _ => ⟨hhooks, ?_, hinit⟩⟩
  · rw [hlist, List.map_cons, h.handles]
  · rw [hcount, hlist, List.length_cons, h.count]
  · intro hl
    rw [hlist] at hl
    cases hl
  · rw [hsaved]
    split
    next hc => exact h.idle (h.count_eq_zero.mp hc)
    next hc => exact (h.installed fun hl => hc (h.count_eq_zero.mpr hl)).2.1

theorem find_handle_isSome (list : List Leakwatch) (handle : Ptr) :
    (list.find? fun lw => lw.handle == handle).isSome ↔ handle ∈ list.map Leakwatch.handle := by
  rw [List.find?_isSome, List.mem_map]
  constructor
  · rintro ⟨w, hw, h⟩
    exact ⟨w, hw, beq_iff_eq.mp h⟩
  · rintro ⟨w, hw, h⟩
    exact ⟨w, hw, beq_iff_eq.mpr h⟩

theorem map_eraseP_handle (list : List Leakwatch) (handle : Ptr) :
    (list.eraseP fun lw => lw.handle == handle).map Leakwatch.handle =
      (list.map Leakwatch.handle).erase handle := by
  rw [List.erase_eq_eraseP', List.eraseP_map]
  rfl

/-- A handle that is not live: nothing changes. -/
theorem WatchInv.unregister_unknown {base : AllocHooks} {live : List Ptr} {st : LeakwatchState}
    (h : WatchInv base live st) {handle : Ptr} (hn : handle ∉ live) :
    ∃ msgs, tinuUnregisterWatch st handle = some (false, st, msgs) := by
  have hfind : ¬ (st.list.find? fun lw => lw.handle == handle).isSome := by
    rw [find_handle_isSome, h.handles]
    exact hn
  have herase : st.list.eraseP (fun lw => lw.handle == handle) = st.list := by
    refine List.eraseP_of_forall_not fun w hw hp => hn ?_
    rw [← h.handles, ← beq_iff_eq.mp hp]
    exact List.mem_map_of_mem hw
  have hlist : (hookPause st).list = st.list := (hookPause_same st).list
  unfold tinuUnregisterWatch
  split
  · exact ⟨_, rfl⟩
  · simp only [h.bracket, hlist, hfind, herase, Bool.false_eq_true, if_false]
    exact ⟨_, rfl⟩

/-- A live handle: its watch goes, and the hooks with the last one. -/
theorem WatchInv.unregister_live {base : AllocHooks} {live : List Ptr} {st : LeakwatchState}
    (h : WatchInv base live st) {handle : Ptr} (hm : handle ∈ live) :
    ∃ st', tinuUnregisterWatch st handle = some (true, st', []) ∧
      WatchInv base (live.erase handle) st' := by
  have hfind : (st.list.find? fun lw => lw.handle == handle).isSome := by
    rw [find_handle_isSome, h.handles]
    exact hm
  have hlist : (hookPause st).list = st.list := (hookPause_same st).list
  have hne : st.list ≠ [] := by
    intro hl
    rw [hl] at hfind
    cases hfind
  obtain ⟨hhooks, hsaved, hinit⟩ := h.installed hne
  obtain ⟨ws, hws⟩ : ∃ ws, ws = st.list.eraseP fun lw => lw.handle == handle := ⟨_, rfl⟩
  have hhandles : ws.map Leakwatch.handle = live.erase handle := by
    rw [hws, map_eraseP_handle, h.handles]
  have hlen : st.count = ws.length + 1 := by
    have hlive : live.length = st.count := by rw [← h.handles, List.length_map, h.count]
    have herase := List.length_erase_add_one hm
    rw [← hhandles, List.length_map] at herase
    omega
  have hrun : tinuUnregisterWatch st handle =
      (tinuLeakwatchDisable { st with list := ws }).map fun st => (true, st, []) := by
    unfold tinuUnregisterWatch
    rw [if_neg (by rw [hinit]; exact not_not_intro rfl)]
    simp only [h.bracket, hlist, hfind, ← hws, if_true]
  rw [hrun]
  unfold tinuLeakwatchDisable
  rw [if_neg (by rw [hlen]; exact Nat.succ_ne_zero _)]
  by_cases hlast : ws = []
  · subst hlast
    refine ⟨{ st with list := [], hooks := st.saved, saved := AllocHooks.null, count := 0 },
      ?_, ⟨hhandles, rfl, fun _ => hsaved, fun hl => absurd rfl hl⟩⟩
    simp [hlen]
  · have hcount : st.count ≠ 1 := by
      rw [hlen]
      exact fun hc => hlast (List.length_eq_zero_iff.mp (Nat.succ.inj hc))
    refine ⟨{ st with list := ws, count := st.count - 1 }, ?_, ⟨hhandles, ?_, ?_, ?_⟩⟩
    · rw [if_neg hcount]
      rfl
    · show st.count - 1 = ws.length
      rw [hlen, Nat.add_sub_cancel]
    · exact fun hl => absurd hl hlast
    · exact fun _ => ⟨hhooks, hsaved, hinit⟩

theorem leakwatchAlert_hooks (st : LeakwatchState) (a : Alert) :
    (leakwatchAlert st a).hooks = st.hooks := by
  have hloop : ∀ (trace : TraceId) (ws : List Leakwatch) (st : LeakwatchState),
      (ws.foldl (alertWatch a trace) st).hooks = st.hooks := by
    intro trace ws
    induction ws with
    | nil => exact fun st => rfl
    | cons w ws ih => exact fun st => ih (alertWatch a trace st w)
  exact hloop st.nextTrace st.list _

/-- The allocator is called. -/
theorem WatchInv.alloc {base : AllocHooks} {live : List Ptr} {st : LeakwatchState}
    (h : WatchInv base live st) (call : AllocCall) : WatchInv base live (st.alloc call) := by
  obtain ⟨hlist, hcount, hinit, hsaved⟩ := alloc_same st call
  have hhooks : (st.alloc call).hooks = st.hooks := by
    rw [alloc_eq]
    split
    · by_cases hl : st.list = []
      · have hc := h.count_eq_zero.mpr hl
        have hpause : hookPause st = st := if_neg (by omega)
        cases call.alert with
        | none => simp only [hooked, hpause, hookResume, hc, Nat.lt_irrefl, if_false]
        | some a =>
          have hca : (leakwatchAlert st a).count = 0 := (leakwatchAlert_same st a).count.trans hc
          simp only [hooked, hpause, hookResume, hca, Nat.lt_irrefl, if_false]
          exact leakwatchAlert_hooks st a
      · have hc : 0 < st.count := Nat.pos_of_ne_zero fun hc => hl (h.count_eq_zero.mp hc)
        rw [hooked_hooks hc, (h.installed hl).1]
    · rfl
  refine ⟨?_, ?_, ?_, ?_⟩
  · rw [hlist, h.handles]
  · rw [hcount, hlist, h.count]
  · rw [hlist, hhooks]
    exact h.idle
  · rw [hlist, hhooks, hsaved, hinit]
    exact h.installed

/-! ## Sequences of calls -/

/-- The states of a sequence of calls. -/
def watchCalls (st : LeakwatchState) (calls : List WatchCall) : Option LeakwatchState :=
  calls.foldlM watchCall st

theorem WatchInv.call {base : AllocHooks} {live : List Ptr} {st : LeakwatchState}
    (h : WatchInv base live st) (call : WatchCall) :
    ∃ st', watchCall st call = some st' ∧ WatchInv base (handlesStep live call) st' := by
  cases call with
  | register lw userData => exact ⟨_, rfl, h.register lw userData⟩
  | unregister handle =>
    by_cases hm : handle ∈ live
    · obtain ⟨st', hrun, hinv⟩ := h.unregister_live hm
      exact ⟨st', by rw [watchCall, hrun]; rfl, hinv⟩
    · obtain ⟨msgs, hrun⟩ := h.unregister_unknown hm
      refine ⟨st, by rw [watchCall, hrun]; rfl, ?_⟩
      rw [handlesStep, List.erase_of_not_mem hm]
      exact h
  | alloc call => exact ⟨_, rfl, h.alloc call⟩

theorem WatchInv.calls {base : AllocHooks} :
    ∀ (calls : List WatchCall) {live : List Ptr} {st : LeakwatchState}, WatchInv base live st →
      ∃ st', watchCalls st calls = some st' ∧ WatchInv base (calls.foldl handlesStep live) st'
  | [], _, st, h => ⟨st, rfl, h⟩
  | call :: calls, _, st, h => by
    obtain ⟨st₁, hrun₁, h₁⟩ := h.call call
    obtain ⟨st₂, hrun₂, h₂⟩ := WatchInv.calls calls h₁
    exact ⟨st₂, by rw [watchCalls, List.foldlM_cons, hrun₁]; exact hrun₂, h₂⟩

/-- **In every sequence of calls** no assertion fails, and after it: the list holds the live
handles, the count is its length, the hooks are those of the leak watch exactly while a watch is
registered, and otherwise the ones from before; unregistering succeeds exactly on a live handle,
and otherwise changes nothing. -/
theorem watches_bracketed {st₀ : LeakwatchState} (hlist : st₀.list = []) (hcount : st₀.count = 0)
    (hhooks : st₀.hooks ≠ AllocHooks.leakwatch) (calls : List WatchCall) :
    ∃ st, watchCalls st₀ calls = some st ∧
      st.list.map Leakwatch.handle = calls.foldl handlesStep [] ∧
      st.count = st.list.length ∧
      (st.hooks = AllocHooks.leakwatch ↔ st.list ≠ []) ∧
      (st.list = [] → st.hooks = st₀.hooks) ∧
      ∀ handle, ∃ res st' msgs, tinuUnregisterWatch st handle = some (res, st', msgs) ∧
        (res = true ↔ handle ∈ calls.foldl handlesStep []) ∧
        (res = false → st'.list = st.list ∧ st'.count = st.count ∧ st'.hooks = st.hooks) := by
  have hstart : WatchInv st₀.hooks [] st₀ := by
    refine ⟨?_, ?_, fun _ => rfl, fun hne => absurd hlist hne⟩
    · rw [hlist, List.map_nil]
    · rw [hlist, hcount, List.length_nil]
  obtain ⟨st, hrun, hinv⟩ := WatchInv.calls calls hstart
  refine ⟨st, hrun, hinv.handles, hinv.count, ⟨?_, fun hne => (hinv.installed hne).1⟩, hinv.idle,
    fun handle => ?_⟩
  · intro hh hl
    rw [hinv.idle hl] at hh
    exact hhooks hh
  · by_cases hm : handle ∈ calls.foldl handlesStep []
    · obtain ⟨st', hun, -⟩ := hinv.unregister_live hm
      exact ⟨true, st', [], hun, ⟨fun _ => hm, fun _ => rfl⟩, Bool.noConfusion⟩
    · obtain ⟨msgs, hun⟩ := hinv.unregister_unknown hm
      exact ⟨false, st, msgs, hun, ⟨Bool.noConfusion, fun h => absurd h hm⟩,
        fun _ => ⟨rfl, rfl, rfl⟩⟩

/-- Two watches, an unknown handle, and both unregistered in the other order. -/
theorem watches_bracketed_twice :
    ∃ st, watchCalls LeakwatchState.start [.register 8 16, .register 24 32, .unregister 40,
        .unregister 8, .unregister 24] = some st ∧
      st.list.map Leakwatch.handle = [] ∧
      st.count = st.list.length ∧
      (st.hooks = AllocHooks.leakwatch ↔ st.list ≠ []) ∧
      (st.list = [] → st.hooks = AllocHooks.null) ∧
      ∀ handle, ∃ res st' msgs, tinuUnregisterWatch st handle = some (res, st', msgs) ∧
        (res = true ↔ handle ∈ []) ∧
        (res = false → st'.list = st.list ∧ st'.count = st.count ∧ st'.hooks = st.hooks) :=
  watches_bracketed rfl rfl (by decide) _

end Tinu
