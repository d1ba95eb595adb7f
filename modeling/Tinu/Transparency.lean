import Tinu.StatTotals

/-!
# The two ways to run one test

With `m_sighandle` a test runs in a context of its own, on a stack that is freed afterwards;
without, it is called directly, and the stack stays allocated.

* `runBranch_direct` — up to the signals the two runs differ by that one call of `g_free`;
* `reportedBytes_direct` — the leak watch reports it: the size of the stack is added;
* `sighandle_transparent_iff` — the runs are the same exactly when leaks are not watched.
-/

set_option autoImplicit false

namespace Tinu

open TableView

/-! ## The sizes in a table -/

/-- The sizes that a table holds. -/
def sizesIn (t : MemoryTable) (x : Ptr) : Option Nat := (t.lookup x).map MemoryEntry.size

/-- What an allocator call makes of the sizes. -/
def AllocCall.onSizes (c : AllocCall) (sizes : Ptr → Option Nat) (x : Ptr) : Option Nat :=
  match c with
  | .malloc size res => if res ≠ NULL ∧ x = res then some size else sizes x
  | .realloc ptr newsize res =>
    if res = NULL ∨ sizes ptr = none then sizes x
    else if x = res then some newsize
    else if x = ptr then none
    else sizes x
  | .free ptr => if x = ptr then none else sizes x

theorem sizesIn_insert (t : MemoryTable) (a : Ptr) (e : MemoryEntry) (x : Ptr) :
    sizesIn (t.insert a e) x = if x = a then some e.size else sizesIn t x := by
  unfold sizesIn
  by_cases hx : x = a
  · rw [if_pos hx, hx, AList.lookup_insert, Option.map_some]
  · rw [if_neg hx, AList.lookup_insert_ne hx]

theorem sizesIn_erase (t : MemoryTable) (a x : Ptr) :
    sizesIn (t.erase a) x = if x = a then none else sizesIn t x := by
  unfold sizesIn
  by_cases hx : x = a
  · rw [if_pos hx, hx, AList.lookup_erase, Option.map_none]
  · rw [if_neg hx, AList.lookup_erase_ne hx]

theorem apply_sizes (c : AllocCall) (trace : TraceId) (t : MemoryTable) (x : Ptr) :
    sizesIn (c.apply trace t) x = c.onSizes (sizesIn t) x := by
  cases c with
  | malloc size res =>
    by_cases hr : res = NULL
    · simp [AllocCall.apply, AllocCall.alert, AllocCall.onSizes, hr]
    · simp only [AllocCall.apply, AllocCall.alert, AllocCall.onSizes, hr, ne_eq, not_false_eq_true,
        if_true, true_and, applyAlert_malloc, sizesIn_insert]
  | free ptr => exact sizesIn_erase t ptr x
  | realloc ptr newsize res =>
    by_cases hr : res = NULL
    · simp [AllocCall.apply, AllocCall.alert, AllocCall.onSizes, hr]
    · simp only [AllocCall.apply, AllocCall.alert, AllocCall.onSizes, hr, ne_eq, not_false_eq_true,
        if_true, false_or]
      cases ht : t.lookup ptr with
      | none =>
        have hnone : sizesIn t ptr = none := by rw [sizesIn, ht, Option.map_none]
        rw [applyAlert_realloc_unknown ht, if_pos hnone]
      | some e =>
        have hsome : sizesIn t ptr ≠ none := by simp [sizesIn, ht]
        rw [if_neg hsome]
        by_cases hp : res = ptr
        · -- resized in place: the entry keeps its key
          subst hp
          simp only [applyAlert, tinuLeakwatchSimpleCallback, ht, if_true, sizesIn_insert]
          by_cases hx : x = res <;> simp [hx]
        · simp only [applyAlert, tinuLeakwatchSimpleCallback, ht, hp, if_false, hashTableInsert,
            hashTableRemove, sizesIn_insert, sizesIn_erase]

/-! ## A block that nothing else touches -/

/-- The call neither releases the block at `p`, nor hands it out. -/
def AllocCall.Avoids (p : Ptr) : AllocCall → Prop
  | .malloc _ res => res ≠ p
  | .realloc ptr _ res => ptr ≠ p ∧ res ≠ p
  | .free ptr => ptr ≠ p

/-- The block stays, with its size, over calls that avoid it. -/
theorem AllocCall.Avoids.onSizes {p : Ptr} {c : AllocCall} (h : c.Avoids p)
    (sizes : Ptr → Option Nat) : c.onSizes sizes p = sizes p := by
  cases c with
  | malloc size res => simp [AllocCall.onSizes, Ne.symm h]
  | realloc ptr newsize res => simp [AllocCall.onSizes, Ne.symm h.1, Ne.symm h.2]
  | free ptr => simp [AllocCall.onSizes, Ne.symm h]

/-- Apart from the block at `p`, which only `t'` has, the tables have blocks of the same sizes. -/
def Without (p : Ptr) (t t' : MemoryTable) : Prop :=
  ∀ x, sizesIn t x = if x = p then none else sizesIn t' x

theorem Without.apply {p : Ptr} {t t' : MemoryTable} (h : Without p t t') {c : AllocCall}
    (hc : c.Avoids p) (trace trace' : TraceId) :
    Without p (c.apply trace t) (c.apply trace' t') := by
  intro x
  rw [apply_sizes, apply_sizes]
  by_cases hx : x = p
  · rw [if_pos hx, hx, hc.onSizes, h p, if_pos rfl]
  · rw [if_neg hx]
    cases c with
    | malloc size res => simp only [AllocCall.onSizes, h x, if_neg hx]
    | realloc ptr newsize res => simp only [AllocCall.onSizes, h x, h ptr, if_neg hx, if_neg hc.1]
    | free ptr => simp only [AllocCall.onSizes, h x, if_neg hx]

theorem Without.summary {p : Ptr} {t t' : MemoryTable} (h : Without p t t') {size : Nat}
    (hp : sizesIn t' p = some size) :
    tinuLeakwatchSummary t' = (tinuLeakwatchSummary t + size) % gsizeRange := by
  obtain ⟨e, he, rfl⟩ := Option.map_eq_some_iff.mp hp
  have hrest : total MemoryEntry.size t = total MemoryEntry.size (t'.erase p) :=
    total_congr fun x => (h x).trans (sizesIn_erase t' p x).symm
  have hsum : ∀ t, tinuLeakwatchSummary t = total MemoryEntry.size t % gsizeRange :=
    tinuLeakwatchSummary_eq
  rw [hsum, hsum, total_erase he, hrest, Nat.mod_add_mod]

/-! ## Allocator calls on both sides -/

/-- The watch of table `tbl` has a block of a size at `p`. -/
structure Keeps (tbl p : Ptr) (size : Nat) (st : LeakwatchState) : Prop where
  watching : Watching tbl st
  kept : sizesIn (st.tables tbl) p = some size

theorem Keeps.alloc {tbl p : Ptr} {size : Nat} {st : LeakwatchState} (h : Keeps tbl p size st)
    {c : AllocCall} (hc : c.Avoids p) : Keeps tbl p size (st.alloc c) := by
  refine ⟨h.watching.alloc c, ?_⟩
  rw [h.watching.alloc_table, apply_sizes, hc.onSizes]
  exact h.kept

theorem Keeps.allocs {tbl p : Ptr} {size : Nat} :
    ∀ {cs : List AllocCall} {st : LeakwatchState}, Keeps tbl p size st →
      (∀ c ∈ cs, c.Avoids p) → Keeps tbl p size (cs.foldl LeakwatchState.alloc st)
  | [], _, h, _ => h
  | c :: _, _, h, hcs =>
    (h.alloc (hcs c List.mem_cons_self)).allocs fun c hc => hcs c (List.mem_cons_of_mem _ hc)

/-- The two watches differ by the block at `p`, which only `b` has. -/
structure Beside (tbl p : Ptr) (size : Nat) (a b : LeakwatchState) : Prop where
  watching : Watching tbl a
  keeps : Keeps tbl p size b
  tables : Without p (a.tables tbl) (b.tables tbl)

/-- They do so once the block is released on one side. -/
theorem Keeps.beside {tbl p : Ptr} {size : Nat} {st : LeakwatchState} (h : Keeps tbl p size st) :
    Beside tbl p size (st.alloc (.free p)) st := by
  refine ⟨h.watching.alloc _, h, fun x => ?_⟩
  rw [h.watching.alloc_table, apply_sizes]
  rfl

theorem Beside.alloc {tbl p : Ptr} {size : Nat} {a b : LeakwatchState}
    (h : Beside tbl p size a b) {c : AllocCall} (hc : c.Avoids p) :
    Beside tbl p size (a.alloc c) (b.alloc c) := by
  refine ⟨h.watching.alloc c, h.keeps.alloc hc, ?_⟩
  rw [h.watching.alloc_table, h.keeps.watching.alloc_table]
  exact h.tables.apply hc _ _

theorem Beside.allocs {tbl p : Ptr} {size : Nat} :
    ∀ {cs : List AllocCall} {a b : LeakwatchState}, Beside tbl p size a b →
      (∀ c ∈ cs, c.Avoids p) →
        Beside tbl p size (cs.foldl LeakwatchState.alloc a) (cs.foldl LeakwatchState.alloc b)
  | [], _, _, h, _ => h
  | c :: _, _, _, h, hcs =>
    (h.alloc (hcs c List.mem_cons_self)).allocs fun c hc => hcs c (List.mem_cons_of_mem _ hc)

/-! ## The stack of a test -/

/-- Only the runner releases the stack of the `n`-th test, and the allocator hands it out to
nobody else. -/
structure OwnStack (env : Env) (n : Nat) : Prop where
  exec : ∀ call c, Step.alloc c ∈ env.exec n call → c.Avoids (env.stackAddr n)
  hooks : ∀ evs, ∀ c ∈ env.hookAllocs evs, c.Avoids (env.stackAddr n)
  log : ∀ ms, ∀ c ∈ env.logAllocs ms, c.Avoids (env.stackAddr n)

/-- The stack is in the table of the runner's watch. -/
def StackKept (env : Env) (n : Nat) (st : RunState) : Prop :=
  Keeps (env.tableAddr n) (env.stackAddr n) env.stackSize st.leak

section StackKept

variable {env : Env} {n : Nat} (hown : OwnStack env n)
include hown

theorem StackKept.runHooks {st : RunState} (h : StackKept env n st) (e : HookEvent) :
    StackKept env n (runHooks env st e) := Keeps.allocs h (hown.hooks _)

theorem StackKept.emitLog {st : RunState} (h : StackKept env n st) (m : LogEntry) :
    StackKept env n (emitLog env st m) := Keeps.allocs h (hown.log _)

theorem StackKept.tinuTestAssert {st : RunState} (h : StackKept env n st) (a : Assertion) :
    StackKept env n (tinuTestAssert env st a) := by
  refine StackKept.emitLog hown ?_ _
  show StackKept env n (if ¬ a.condition then _ else _)
  split <;> exact h.runHooks hown _

theorem StackKept.runSteps :
    ∀ {steps : List Step} {st : RunState}, StackKept env n st →
      (∀ c, Step.alloc c ∈ steps → c.Avoids (env.stackAddr n)) →
        StackKept env n (runSteps env steps st).2
  | [], _, h, _ => h
  | .assert a :: _, _, h, hs =>
    (h.tinuTestAssert hown a).runSteps fun c hc => hs c (List.mem_cons_of_mem _ hc)
  | .alloc c :: _, st, h, hs => by
    have hstep : StackKept env n (st.allocs [c]) := Keeps.alloc h (hs c List.mem_cons_self)
    exact hstep.runSteps fun c hc => hs c (List.mem_cons_of_mem _ hc)
  | .raise .segv :: steps, st, h, hs => by
    rw [Tinu.runSteps]
    split
    · have hhandler : StackKept env n (tinuSignalHandler env st) := h.emitLog hown _
      exact hhandler.runSteps fun c hc => hs c (List.mem_cons_of_mem _ hc)
    · exact h
  | .raise .abrt :: _, _, h, _ => h

theorem StackKept.runChain :
    ∀ {calls : List UserCall} {st : RunState}, StackKept env n st →
      StackKept env n (runChain env n calls st).2
  | [], _, h => h
  | call :: calls, st, h => by
    have hcall : StackKept env n { st with calls := st.calls ++ [call] } := h
    have hsteps := hcall.runSteps hown (hown.exec call)
    rw [Tinu.runChain]
    cases hr : Tinu.runSteps env (env.exec n call) { st with calls := st.calls ++ [call] } with
    | mk sig st1 =>
      rw [hr] at hsteps
      cases sig with
      | some sig => exact hsteps
      | none => exact hsteps.runChain

theorem StackKept.testCaseRunIntern {st : RunState} (h : StackKept env n st) (test : TestCase) :
    StackKept env n (testCaseRunIntern env n test st).2 := by
  have hchain : StackKept env n (Tinu.runChain env n (chainCalls env n test)
      (Tinu.runHooks env st (.beforeTest test))).2 :=
    (h.runHooks hown (.beforeTest test)).runChain hown
  simp only [Tinu.testCaseRunIntern]
  cases hr : Tinu.runChain env n (chainCalls env n test)
      (Tinu.runHooks env st (.beforeTest test)) with
  | mk sig st1 =>
    rw [hr] at hchain
    cases sig with
    | some sig => exact hchain
    | none =>
      show StackKept env n (if st1.result = .none then { st1 with result := .passed } else st1)
      split <;> exact hchain

end StackKept

/-! ## The dispositions do not matter to a test without a signal -/

def RunState.withSignals (st : RunState) (signals : SignalState) : RunState :=
  { st with signals := signals }

theorem tinuTestAssert_withSignals (env : Env) (st : RunState) (signals : SignalState)
    (a : Assertion) :
    tinuTestAssert env (st.withSignals signals) a =
      (tinuTestAssert env st a).withSignals signals := by
  cases hc : a.condition <;> simp [tinuTestAssert, hc] <;> rfl

theorem runSteps_withSignals (env : Env) (signals : SignalState) :
    ∀ (steps : List Step) (st : RunState), signalIn steps = none →
      runSteps env steps (st.withSignals signals) =
        ((runSteps env steps st).1, (runSteps env steps st).2.withSignals signals)
  | [], _, _ => rfl
  | .assert a :: steps, st, h => by
    rw [runSteps, tinuTestAssert_withSignals, runSteps_withSignals env signals steps _ h]
    rfl
  | .alloc c :: steps, st, h => runSteps_withSignals env signals steps (st.allocs [c]) h
  | .raise _ :: _, _, h => nomatch h

theorem runChain_withSignals (env : Env) (n : Nat) (signals : SignalState) :
    ∀ (calls : List UserCall) (st : RunState), signalIn (stepsOf env n calls) = none →
      runChain env n calls (st.withSignals signals) =
        ((runChain env n calls st).1, (runChain env n calls st).2.withSignals signals)
  | [], _, _ => rfl
  | call :: calls, st, h => by
    have hsplit : stepsOf env n (call :: calls) = env.exec n call ++ stepsOf env n calls := rfl
    rw [hsplit, signalIn_append, Option.or_eq_none_iff] at h
    have hsteps : runSteps env (env.exec n call)
        { st.withSignals signals with calls := (st.withSignals signals).calls ++ [call] } = _ :=
      runSteps_withSignals env signals (env.exec n call) { st with calls := st.calls ++ [call] } h.1
    rw [runChain, runChain, hsteps]
    cases hr : runSteps env (env.exec n call) { st with calls := st.calls ++ [call] } with
    | mk sig st1 =>
      cases sig with
      | some sig => rfl
      | none => exact runChain_withSignals env n signals calls st1 h.2

theorem testCaseRunIntern_withSignals {env : Env} {n : Nat} {test : TestCase} (st : RunState)
    (signals : SignalState) (h : signalIn (testSteps env n test) = none) :
    testCaseRunIntern env n test (st.withSignals signals) =
      ((testCaseRunIntern env n test st).1,
        (testCaseRunIntern env n test st).2.withSignals signals) := by
  have hchain := runChain_withSignals env n signals (chainCalls env n test)
    (runHooks env st (.beforeTest test)) h
  have hhooks : runHooks env (st.withSignals signals) (.beforeTest test) =
      (runHooks env st (.beforeTest test)).withSignals signals := rfl
  simp only [testCaseRunIntern, hhooks, hchain]
  cases hr : runChain env n (chainCalls env n test) (runHooks env st (.beforeTest test)) with
  | mk sig st1 =>
    cases sig with
    | some sig => rfl
    | none => by_cases hn : st1.result = TestCaseResult.none <;> simp [RunState.withSignals, hn]

/-! ## The two runs -/

/-- The context with a mode of signal handling. -/
def TestContext.mode (c : TestContext) (sighandle : Bool) : TestContext :=
  { c with sighandle := sighandle }

variable {env : Env} {c : TestContext} {test : TestCase} {st : RunState}

/-- A test without a signal does not end the process, whatever the handlers are. -/
theorem not_dies_of_none {n : Nat} (hlive : signalIn (testSteps env n test) = none)
    (armed : Nat → Phase → Bool) : ¬ dies (env.outlived armed) c n test := by
  rintro ⟨-, hs⟩
  rw [testSteps_outlived_of_none hlive, hlive] at hs
  cases hs

/-- Without a signal **the runs differ by the release of the stack**, up to the signals. -/
theorem runBranch_direct (hctx : env.ctxFails st.executed.length = none)
    (hlive : signalIn (testSteps env st.executed.length test) = none)
    (hw : st.leak.Counted) :
    (runBranch env (c.mode false) test st).2 =
        (testCaseRunIntern env st.executed.length test
          (testCaseRunStart env c st.executed.length test st)).2 ∧
      ∃ signals, (runBranch env (c.mode true) test st).2 =
        (freeStack env st.executed.length
          (runBranch env (c.mode false) test st).2).withSignals signals := by
  have hres := (@testCaseRunStart_spec env c st.executed.length test st hw).1
  have harm : ArmedOver env (fun _ => (testCaseRunStart env c st.executed.length test st).armed)
      st.executed.length (testCaseRunStart env c st.executed.length test st).armed
      (chainCalls env st.executed.length test) := armedOver_const (.inr hlive)
  have hs := (@testCaseRunIntern_ran env
    (fun _ _ => (testCaseRunStart env c st.executed.length test st).armed) _ _ _ harm hres).1
  rw [testSteps_outlived_of_none hlive, hlive] at hs
  have hbody : testCaseRunIntern env st.executed.length test
      (signalOn (testCaseRunStart env c st.executed.length test st)) = _ :=
    testCaseRunIntern_withSignals (testCaseRunStart env c st.executed.length test st)
      (signalOn (testCaseRunStart env c st.executed.length test st)).signals hlive
  cases hr : testCaseRunIntern env st.executed.length test
      (testCaseRunStart env c st.executed.length test st) with
  | mk sig st1 =>
    rw [hr] at hs hbody
    obtain rfl : sig = none := hs
    have hdirect : runBranch env (c.mode false) test st = (true, st1) := by
      show runDirect env st.executed.length test
        (testCaseRunStart env c st.executed.length test st) = _
      rw [runDirect, hr]
    have hswitched : runBranch env (c.mode true) test st =
        (true, signalOff (freeStack env st.executed.length (st1.withSignals
          (signalOn (testCaseRunStart env c st.executed.length test st)).signals))) := by
      show runSwitched env st.executed.length test
        (testCaseRunStart env c st.executed.length test st) = _
      rw [runSwitched, hctx]
      show runInContext env st.executed.length test
        (signalOn (testCaseRunStart env c st.executed.length test st)) = _
      rw [runInContext, hbody]
    rw [hdirect, hswitched]
    exact ⟨rfl, _, rfl⟩

/-- The stack is allocated once the watch is on. -/
theorem stackKept_start {n : Nat} (hl : c.leakwatch = true)
    (hnew : ∀ w ∈ st.leak.list, w.userData ≠ env.tableAddr n) :
    StackKept env n (testCaseRunStart env c n test st) := by
  obtain ⟨hw, ht⟩ := @tinuLeakwatchSimple_watching st.leak (env.watchAddr n) (env.tableAddr n) hnew
  have hleak : (testCaseRunStart env c n test st).leak =
      (tinuLeakwatchSimple st.leak (env.watchAddr n) (env.tableAddr n)).alloc
        (.malloc env.stackSize (env.stackAddr n)) := by
    simp [testCaseRunStart, hl, RunState.allocs]
  have hne := env.stackAddr_ne n
  unfold StackKept
  rw [hleak]
  refine ⟨hw.alloc _, ?_⟩
  rw [hw.alloc_table, apply_sizes]
  simp [AllocCall.onSizes, hne]

/-- **The watch reports the stack** that only one of the runs frees. -/
theorem reportedBytes_direct (hl : c.leakwatch = true)
    (hctx : env.ctxFails st.executed.length = none)
    (hlive : signalIn (testSteps env st.executed.length test) = none)
    (hw : st.leak.Counted) (hown : OwnStack env st.executed.length)
    (hnew : ∀ w ∈ st.leak.list, w.userData ≠ env.tableAddr st.executed.length) :
    reportedBytes env st.executed.length test (runBranch env (c.mode false) test st).2 =
      (reportedBytes env st.executed.length test (runBranch env (c.mode true) test st).2 +
        env.stackSize) % gsizeRange := by
  obtain ⟨hdirect, signals, hswitched⟩ := @runBranch_direct env c test st hctx hlive hw
  have hkept : StackKept env st.executed.length (runBranch env (c.mode false) test st).2 := by
    rw [hdirect]
    exact (stackKept_start hl hnew).testCaseRunIntern hown test
  have hres : (runBranch env (c.mode false) test st).2.result ≠ .none := by
    have harm := @armedTest_const env (c.mode false) test st (.inr hlive)
    rw [(runBranch_atDone harm hw (not_dies_of_none hlive _)).2.result]
    exact verdictOf_ne_none _ _ _ _
  obtain ⟨m, hm⟩ : ∃ m, verdictMessage test (runBranch env (c.mode false) test st).2.result =
      some m := by
    cases hr : (runBranch env (c.mode false) test st).2.result with
    | none => exact absurd hr hres
    | _ => exact ⟨_, rfl⟩
  have hbeside := (Keeps.beside hkept).allocs
    (hown.log ((runBranch env (c.mode false) test st).2.log ++ [m]))
  have hm' : verdictMessage test ((freeStack env st.executed.length
      (runBranch env (c.mode false) test st).2).withSignals signals).result = some m := hm
  rw [reportedBytes, reportedBytes, hswitched]
  simp only [hm, hm']
  exact hbeside.tables.summary hbeside.keeps.kept

/-! ## Transparency -/

/-- The mode of signal handling makes no difference to the verdict, to the events and to the
statistics. -/
structure Transparent (env : Env) (c : TestContext) (test : TestCase) (st : RunState) : Prop where
  verdict : (testCaseRunSingleTest env (c.mode true) test st).1 =
    (testCaseRunSingleTest env (c.mode false) test st).1
  events : (testCaseRunSingleTest env (c.mode true) test st).2.events =
    (testCaseRunSingleTest env (c.mode false) test st).2.events
  statistics : ∀ (clock : Nat → Int) (k : Nat) (stat : TestStatistics),
    statRun clock k (((testCaseRunSingleTest env (c.mode true) test st).2.events.drop
        st.events.length).map .hook) stat =
      statRun clock k (((testCaseRunSingleTest env (c.mode false) test st).2.events.drop
        st.events.length).map .hook) stat

/-- The verdict and the events of a test without a signal, in either mode. -/
theorem single_mode (sighandle : Bool) (hctx : env.ctxFails st.executed.length = none)
    (hlive : signalIn (testSteps env st.executed.length test) = none)
    (hw : st.leak.Counted) :
    (testCaseRunSingleTest env (c.mode sighandle) test st).1 =
        some (earnedVerdict env st.executed.length test) ∧
      (testCaseRunSingleTest env (c.mode sighandle) test st).2.events = st.events ++
        (bodyEvents env st.executed.length test true ++
          (if c.leakwatch then [.leakInfo test (reportedBytes env st.executed.length test
            (runBranch env (c.mode sighandle) test st).2)] else []) ++
          [.afterTest test (earnedVerdict env st.executed.length test)]) := by
  have hfail : ctxFailed env (c.mode sighandle) st.executed.length = false := by
    simp [ctxFailed, hctx]
  have harm := @armedTest_const env (c.mode sighandle) test st (.inr hlive)
  have hsteps :=
    @testSteps_outlived_of_none env (fun _ _ => armedNow (c.mode sighandle) st) _ _ hlive
  have hfail' : ctxFailed (env.outlived fun _ _ => armedNow (c.mode sighandle) st)
      (c.mode sighandle) st.executed.length = false := hfail
  obtain ⟨st', hrun, _, _, he, _⟩ := single_finished harm hw (not_dies_of_none hlive _)
  rw [testBlock, verdictOf, hfail', earnedVerdict, bodyEvents, hsteps] at he
  rw [hrun, verdictOf, hfail', earnedVerdict, hsteps]
  exact ⟨rfl, he⟩

/-- **Signal handling makes no difference exactly when leaks are not watched.** -/
theorem sighandle_transparent_iff (hctx : env.ctxFails st.executed.length = none)
    (hlive : signalIn (testSteps env st.executed.length test) = none)
    (hw : st.leak.Counted) (hown : OwnStack env st.executed.length)
    (hnew : ∀ w ∈ st.leak.list, w.userData ≠ env.tableAddr st.executed.length) :
    Transparent env c test st ↔ c.leakwatch = false := by
  obtain ⟨hv, he⟩ := @single_mode env c test st true hctx hlive hw
  obtain ⟨hv', he'⟩ := @single_mode env c test st false hctx hlive hw
  constructor
  · intro h
    cases hl : c.leakwatch with
    | false => rfl
    | true =>
      have hbytes := @reportedBytes_direct env c test st hl hctx hlive hw hown hnew
      have hevents := h.events
      rw [he, he', hl] at hevents
      simp only [if_true, List.append_cancel_left_eq, List.append_cancel_right_eq,
        List.cons.injEq, HookEvent.leakInfo.injEq, true_and, and_true] at hevents
      have hpos := env.stackSize_pos
      have hlt := env.stackSize_lt
      rw [← hevents] at hbytes
      have hrange : reportedBytes env st.executed.length test
          (runBranch env (c.mode true) test st).2 < gsizeRange := by
        rw [hbytes]
        exact Nat.mod_lt _ (by decide)
      unfold gsizeRange at *
      omega
  · intro hl
    have hevents : (testCaseRunSingleTest env (c.mode true) test st).2.events =
        (testCaseRunSingleTest env (c.mode false) test st).2.events := by
      rw [he, he', hl]
      rfl
    exact ⟨hv.trans hv'.symm, hevents, fun clock k stat => by rw [hevents]⟩

/-- A test with a body that does nothing. -/
def plainTest : TestCase := ⟨2, ⟨1, "s"⟩, "a", none, none, some (.user 1), .data NULL, none⟩

theorem sighandle_transparent_plain :
    Transparent Env.idle (testContextInit true false) plainTest RunState.start := by
  have hown : OwnStack Env.idle 0 :=
    ⟨fun _ _ h => (List.not_mem_nil h).elim, fun _ _ h => (List.not_mem_nil h).elim,
      fun _ _ h => (List.not_mem_nil h).elim⟩
  exact (@sighandle_transparent_iff Env.idle (testContextInit true false) plainTest RunState.start
    rfl rfl rfl hown fun _ h => (List.not_mem_nil h).elim).mpr rfl

/-- With leaks watched, a test that allocates nothing leaks its stack in one of the two modes. -/
theorem direct_run_leaks_stack :
    ¬ ∀ (env : Env) (c : TestContext) (test : TestCase) (st : RunState),
      env.ctxFails st.executed.length = none →
        signalIn (testSteps env st.executed.length test) = none → st.leak.Counted →
          Transparent env c test st := by
  intro h
  have hevents := (h Env.idle (testContextInit true true) plainTest RunState.start rfl rfl
    rfl).events
  revert hevents
  decide

end Tinu
