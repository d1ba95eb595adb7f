import Tinu.WatchCalls

/-!
# The allocator hooks at exit (`leakwatch.c`)

`_tinu_leakwatch_clear` puts the saved hooks back and forgets them.  The first watch gives it to
`atexit`, and the last one to go calls it as well; called twice, it clears the hooks.

* `ExitInv.calls` — which hooks are installed and which saved, over every sequence of calls;
* `exit_hooks_iff` — when the hooks from before the first watch are there after the exit.
-/

set_option autoImplicit false

namespace Tinu

/-- `_tinu_leakwatch_clear`. -/
def tinuLeakwatchClear (st : LeakwatchState) : LeakwatchState :=
  { st with hooks := st.saved, saved := AllocHooks.null }

/-- The function that `tinu_register_watch` gives to `atexit` is called. -/
def leakwatchExit (st : LeakwatchState) : LeakwatchState :=
  if st.init then tinuLeakwatchClear st else st

/-- What unregistering leaves of the saved hooks. -/
theorem disable_saved {st st' : LeakwatchState} (h : tinuLeakwatchDisable st = some st') :
    st'.init = st.init ∧ (st'.count = 0 → st'.saved = AllocHooks.null) := by
  unfold tinuLeakwatchDisable at h
  split at h
  · cases h
  · split at h
    · split at h
      · cases h
        exact ⟨rfl, fun _ => rfl⟩
      · cases h
    · cases h
      refine ⟨rfl, fun hzero => ?_⟩
      have hzero : st.count - 1 = 0 := hzero
      omega

theorem unregister_saved {st st' : LeakwatchState} {handle : Ptr} {msgs : List LogEntry}
    (h : tinuUnregisterWatch st handle = some (true, st', msgs)) :
    st'.init = st.init ∧ (st'.count = 0 → st'.saved = AllocHooks.null) := by
  unfold tinuUnregisterWatch at h
  split at h
  · cases h
  · simp only at h
    split at h
    · obtain ⟨st1, hdisable, heq⟩ := Option.map_eq_some_iff.mp h
      cases heq
      obtain ⟨hinit, hsaved⟩ := disable_saved hdisable
      refine ⟨hinit.trans ?_, hsaved⟩
      exact ((hookResume_same _).init).trans (hookPause_same st).init
    · cases h

/-! ## Sequences of calls -/

def WatchCall.registers : WatchCall → Bool
  | .register _ _ => true
  | _ => false

/-- Without a watch no hooks are saved; `registered` is whether there ever was one. -/
structure ExitInv (base : AllocHooks) (registered : Bool) (live : List Ptr) (st : LeakwatchState) :
    Prop extends WatchInv base live st where
  registered_eq : st.init = registered
  cleared : st.list = [] → st.saved = AllocHooks.null

theorem ExitInv.call {base : AllocHooks} {registered : Bool} {live : List Ptr}
    {st : LeakwatchState} (h : ExitInv base registered live st) (call : WatchCall) :
    ∃ st', watchCall st call = some st' ∧
      ExitInv base (registered || call.registers) (handlesStep live call) st' := by
  cases call with
  | register lw userData =>
    have hinv := h.toWatchInv.register lw userData
    have hne : (tinuRegisterWatch st lw userData).list ≠ [] := fun hl => by
      have hhandles := hinv.handles
      rw [hl] at hhandles
      cases hhandles
    refine ⟨_, rfl, hinv, ?_, fun hl => absurd hl hne⟩
    rw [(hinv.installed hne).2.2]
    exact (Bool.or_true _).symm
  | unregister handle =>
    have hsame : (registered || (WatchCall.unregister handle).registers) = registered :=
      Bool.or_false _
    rw [hsame]
    by_cases hm : handle ∈ live
    · obtain ⟨st', hrun, hinv⟩ := h.toWatchInv.unregister_live hm
      obtain ⟨hinit, hsaved⟩ := unregister_saved hrun
      refine ⟨st', by rw [watchCall, hrun]; rfl, hinv, hinit.trans h.registered_eq, fun hl => ?_⟩
      exact hsaved (hinv.count_eq_zero.mpr hl)
    · obtain ⟨msgs, hrun⟩ := h.toWatchInv.unregister_unknown hm
      refine ⟨st, by rw [watchCall, hrun]; rfl, ?_⟩
      rw [handlesStep, List.erase_of_not_mem hm]
      exact h
  | alloc call =>
    obtain ⟨hlist, -, hinit, hsaved⟩ := alloc_same st call
    refine ⟨_, rfl, h.toWatchInv.alloc call, ?_, ?_⟩
    · rw [hinit, h.registered_eq]
      exact (Bool.or_false _).symm
    · rw [hlist, hsaved]
      exact h.cleared

theorem ExitInv.calls {base : AllocHooks} :
    ∀ (calls : List WatchCall) {registered : Bool} {live : List Ptr} {st : LeakwatchState},
      ExitInv base registered live st →
        ∃ st', watchCalls st calls = some st' ∧
          ExitInv base (registered || calls.any WatchCall.registers)
            (calls.foldl handlesStep live) st'
  | [], registered, _, st, h => ⟨st, rfl, by rw [List.any_nil, Bool.or_false]; exact h⟩
  | call :: calls, registered, _, st, h => by
    obtain ⟨st1, hrun1, h1⟩ := h.call call
    obtain ⟨st2, hrun2, h2⟩ := ExitInv.calls calls h1
    refine ⟨st2, by rw [watchCalls, List.foldlM_cons, hrun1]; exact hrun2, ?_⟩
    rw [List.any_cons, ← Bool.or_assoc]
    exact h2

/-- **After the exit the hooks are those from before the first watch** exactly when there were none,
there never was a watch, or one is still registered. -/
theorem exit_hooks_iff {st₀ : LeakwatchState} (hlist : st₀.list = []) (hcount : st₀.count = 0)
    (hinit : st₀.init = false) (hsaved : st₀.saved = AllocHooks.null) (calls : List WatchCall) :
    ∃ st, watchCalls st₀ calls = some st ∧
      ((leakwatchExit st).hooks = st₀.hooks ↔
        st₀.hooks = AllocHooks.null ∨ calls.any WatchCall.registers = false ∨
          calls.foldl handlesStep [] ≠ []) := by
  have hstart : ExitInv st₀.hooks false [] st₀ := by
    refine ⟨⟨?_, ?_, fun _ => rfl, fun hne => absurd hlist hne⟩, hinit, fun _ => hsaved⟩
    · rw [hlist, List.map_nil]
    · rw [hlist, hcount, List.length_nil]
  obtain ⟨st, hrun, hinv⟩ := ExitInv.calls calls hstart
  refine ⟨st, hrun, ?_⟩
  have hreg := hinv.registered_eq
  rw [Bool.false_or] at hreg
  have hlive : st.list = [] ↔ calls.foldl handlesStep [] = [] := by
    rw [← hinv.handles, List.map_eq_nil_iff]
  cases hany : calls.any WatchCall.registers with
  | false =>
    -- then no watch is live, and nothing was given to `atexit`
    have hnone : st.list = [] := by
      by_contra hne
      have htrue := (hinv.installed hne).2.2
      rw [hreg, hany] at htrue
      cases htrue
    rw [leakwatchExit, hreg, hany, if_neg Bool.false_ne_true]
    exact iff_of_true (hinv.idle hnone) (.inr (.inl rfl))
  | true =>
    rw [leakwatchExit, hreg, hany, if_pos rfl]
    by_cases hnone : st.list = []
    · have hcleared : (tinuLeakwatchClear st).hooks = AllocHooks.null := hinv.cleared hnone
      rw [hcleared, hlive.mp hnone]
      simp [eq_comm]
    · have hback : (tinuLeakwatchClear st).hooks = st₀.hooks := (hinv.installed hnone).2.1
      exact iff_of_true hback (.inr (.inr (mt hlive.mpr hnone)))

/-- A process with hooks of its own, and a watch that is unregistered before the exit. -/
theorem exit_hooks_iff_own :
    ∃ st, watchCalls { LeakwatchState.start with hooks := ⟨.other 1, .other 2, .other 3⟩ }
        [.register 8 16, .alloc (.malloc 4 24), .unregister 8] = some st ∧
      ((leakwatchExit st).hooks = ⟨.other 1, .other 2, .other 3⟩ ↔
        (⟨.other 1, .other 2, .other 3⟩ : AllocHooks) = AllocHooks.null ∨
          [WatchCall.register 8 16, .alloc (.malloc 4 24), .unregister 8].any
            WatchCall.registers = false ∨
          [WatchCall.register 8 16, .alloc (.malloc 4 24), .unregister 8].foldl
            handlesStep [] ≠ []) :=
  exit_hooks_iff rfl rfl rfl rfl _

end Tinu
