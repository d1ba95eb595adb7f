import Tinu.StatTotals

/-!
# The blocks of the event stream

`IsStream` is the shape that the consumers of the hook events rely on: a block for each suite
that is run, and in it a block for each of its tests.

* `SuiteBlocks.isStream` — with every context switched to, the events of a run have that shape;
* `SuiteBlocks.ctxOk` — only then: a test whose context failed has no `BEFORE_TEST`;
* `hook_stream_iff` — both, for runs on registered names, with what the statistics make of it.
-/

set_option autoImplicit false

namespace Tinu

variable {env : Env} {c : TestContext}

/-! ## The shape -/

/-- The block of a test. -/
def IsTestBlock (leak : Bool) (t : TestCase) (evs : List HookEvent) : Prop :=
  ∃ (asserts : List Assertion) (signal : Option Signal) (bytes : Nat) (v : TestCaseResult),
    evs = .beforeTest t :: asserts.map Assertion.event ++ (signal.map Signal.event).toList ++
      (if leak then [.leakInfo t bytes] else []) ++ [.afterTest t v]

/-- The block of a suite of which the tests `p.2` are run. -/
def IsSuiteBlock (leak : Bool) (p : TestSuite × List TestCase) (evs : List HookEvent) : Prop :=
  ∃ (blocks : List (List HookEvent)) (res : Bool), List.Forall₂ (IsTestBlock leak) p.2 blocks ∧
    evs = .beforeSuite p.1 :: blocks.flatten ++ [.afterSuite p.1 res]

/-- A stream of events: the blocks of the suites of a selection. -/
def IsStream (leak : Bool) (sel : Selection) (evs : List HookEvent) : Prop :=
  ∃ blocks : List (List HookEvent), List.Forall₂ (IsSuiteBlock leak) sel blocks ∧
    evs = blocks.flatten

/-! ## The events of a run have it -/

theorem testBlock_isTestBlock {n : Nat} (t : TestCase) (bytes : Nat)
    (hctx : ctxFailed env c n = false) :
    IsTestBlock c.leakwatch t (testBlock env c n t bytes) := by
  refine ⟨assertsIn (testSteps env n t), signalIn (testSteps env n t), bytes,
    verdictOf env c n t, ?_⟩
  simp [testBlock, bodyEvents, hctx]

theorem TestBlocks.forall₂ {n : Nat} {ts : List TestCase} {evs : List HookEvent}
    (h : TestBlocks env c n ts evs) (hctx : CtxOk env c n ts) :
    ∃ blocks, List.Forall₂ (IsTestBlock c.leakwatch) ts blocks ∧ evs = blocks.flatten := by
  induction h with
  | nil n => exact ⟨[], .nil, rfl⟩
  | @cons n t ts evs bytes _ h ih =>
    obtain ⟨blocks, hb, rfl⟩ := ih hctx.tail
    exact ⟨_ :: blocks, .cons (testBlock_isTestBlock t bytes hctx.head) hb, rfl⟩

theorem TestBlocks.isSuiteBlock {n : Nat} {ts : List TestCase} {evs : List HookEvent}
    (h : TestBlocks env c n ts evs) (hctx : CtxOk env c n ts) (s : TestSuite) (res : Bool) :
    IsSuiteBlock c.leakwatch (s, ts) (.beforeSuite s :: evs ++ [.afterSuite s res]) := by
  obtain ⟨blocks, hb, rfl⟩ := h.forall₂ hctx
  exact ⟨blocks, res, hb, rfl⟩

/-- **The events of a complete run are a stream.** -/
theorem SuiteBlocks.isStream {n : Nat} {sel : Selection} {evs : List HookEvent}
    (h : SuiteBlocks env c n sel evs) (hctx : CtxOk env c n (Selection.tests sel)) :
    IsStream c.leakwatch sel evs := by
  induction h with
  | nil n => exact ⟨[], .nil, rfl⟩
  | @cons n s ts sel evs evs' hb hs ih =>
    have hlen : Selection.tests ((s, ts) :: sel) = ts ++ Selection.tests sel := rfl
    rw [hlen, CtxOk.append] at hctx
    obtain ⟨blocks, hblocks, rfl⟩ := ih hctx.2
    exact ⟨_ :: blocks, .cons (hb.isSuiteBlock hctx.1 s _) hblocks, rfl⟩

/-! ## A run that a test ended begins one -/

theorem exists_testBlock (leak : Bool) (t : TestCase) : ∃ evs, IsTestBlock leak t evs :=
  ⟨_, [], none, 0, .none, rfl⟩

theorem exists_testBlocks (leak : Bool) :
    ∀ ts : List TestCase, ∃ blocks, List.Forall₂ (IsTestBlock leak) ts blocks
  | [] => ⟨[], .nil⟩
  | t :: ts => by
    obtain ⟨b, hb⟩ := exists_testBlock leak t
    obtain ⟨blocks, h⟩ := exists_testBlocks leak ts
    exact ⟨b :: blocks, .cons hb h⟩

theorem exists_stream (leak : Bool) : ∀ sel : Selection, ∃ evs, IsStream leak sel evs
  | [] => ⟨[], [], .nil, rfl⟩
  | (s, ts) :: sel => by
    obtain ⟨blocks, hb⟩ := exists_testBlocks leak ts
    obtain ⟨_, rest, hrest, rfl⟩ := exists_stream leak sel
    exact ⟨_, _ :: rest, .cons ⟨blocks, true, hb, rfl⟩ hrest, rfl⟩

/-- The body of a test is the beginning of its block. -/
theorem bodyEvents_begin (leak : Bool) (n : Nat) (t : TestCase) (handled : Bool) :
    ∃ rest, IsTestBlock leak t (bodyEvents env n t handled ++ rest) := by
  refine ⟨(if leak then [.leakInfo t 0] else []) ++ [.afterTest t .none],
    assertsIn (testSteps env n t), if handled then signalIn (testSteps env n t) else none, 0,
    .none, ?_⟩
  cases handled <;> simp [bodyEvents]

theorem TestsCut.begin {n : Nat} {ts ran : List TestCase} {evs : List HookEvent}
    (h : TestsCut env c n ts ran evs) (hctx : CtxOk env c n ran) :
    ∃ rest blocks, List.Forall₂ (IsTestBlock c.leakwatch) ts blocks ∧
      evs ++ rest = blocks.flatten := by
  induction h with
  | @here n t ts handled hd =>
    obtain ⟨rest, hb⟩ := @bodyEvents_begin env c.leakwatch n t handled
    obtain ⟨blocks, hblocks⟩ := exists_testBlocks c.leakwatch ts
    refine ⟨rest ++ blocks.flatten, _ :: blocks, .cons hb hblocks, ?_⟩
    rw [List.flatten_cons, List.append_assoc]
  | @later n t ts ran evs bytes _ h ih =>
    obtain ⟨rest, blocks, hblocks, heq⟩ := ih hctx.tail
    refine ⟨rest, _ :: blocks, .cons (testBlock_isTestBlock t bytes hctx.head) hblocks, ?_⟩
    rw [List.flatten_cons, List.append_assoc, heq]

/-- **The events of a run that a test ended begin a stream.** -/
theorem SuitesCut.begin {n : Nat} {sel : Selection} {ran : List TestCase} {evs : List HookEvent}
    (h : SuitesCut env c n sel ran evs) (hctx : CtxOk env c n ran) :
    ∃ rest, IsStream c.leakwatch sel (evs ++ rest) := by
  induction h with
  | @here n s ts ran sel evs h =>
    obtain ⟨rest, blocks, hblocks, heq⟩ := h.begin hctx
    obtain ⟨_, suites, hsuites, rfl⟩ := exists_stream c.leakwatch sel
    refine ⟨rest ++ [.afterSuite s true] ++ suites.flatten, _ :: suites,
      .cons ⟨blocks, true, hblocks, rfl⟩ hsuites, ?_⟩
    rw [List.flatten_cons, ← heq]
    simp
  | @later n s ts ran sel evs evs' hb hs ih =>
    rw [CtxOk.append] at hctx
    obtain ⟨rest, suites, hsuites, heq⟩ := ih hctx.2
    refine ⟨rest, _ :: suites, .cons (hb.isSuiteBlock hctx.1 s (allPassed env c n ts)) hsuites, ?_⟩
    rw [List.flatten_cons, ← heq, List.append_assoc]

/-! ## A context that failed breaks it -/

def HookEvent.isBeforeTest : HookEvent → Bool
  | .beforeTest _ => true
  | _ => false

def HookEvent.isAfterTest : HookEvent → Bool
  | .afterTest _ _ => true
  | _ => false

/-- As many tests begin as end. -/
def Balanced (evs : List HookEvent) : Prop :=
  evs.countP HookEvent.isBeforeTest = evs.countP HookEvent.isAfterTest

theorem Balanced.append {evs evs' : List HookEvent} (h : Balanced evs) (h' : Balanced evs') :
    Balanced (evs ++ evs') := by
  unfold Balanced at *
  rw [List.countP_append, List.countP_append]
  omega

theorem balanced_flatten {α : Type} {R : α → List HookEvent → Prop}
    (hR : ∀ a evs, R a evs → Balanced evs) {as : List α} {blocks : List (List HookEvent)}
    (h : List.Forall₂ R as blocks) : Balanced blocks.flatten := by
  induction h with
  | nil => exact rfl
  | @cons a b as blocks hab _ ih =>
    rw [List.flatten_cons]
    exact (hR a b hab).append ih

theorem countP_asserts {p : HookEvent → Bool} (hp : ∀ a : Assertion, p a.event = false)
    (as : List Assertion) : (as.map Assertion.event).countP p = 0 := by
  rw [List.countP_eq_zero]
  intro e he
  obtain ⟨a, _, rfl⟩ := List.mem_map.mp he
  rw [hp a]
  decide

theorem countP_signal {p : HookEvent → Bool} (hp : ∀ signo : Signal, p signo.event = false)
    (signal : Option Signal) : ((signal.map Signal.event).toList).countP p = 0 := by
  cases signal with
  | none => rfl
  | some signo => simp [hp signo]

theorem isTestBlock_balanced {leak : Bool} {t : TestCase} {evs : List HookEvent}
    (h : IsTestBlock leak t evs) : Balanced evs := by
  obtain ⟨asserts, signal, bytes, v, rfl⟩ := h
  have hb : ∀ signo : Signal, HookEvent.isBeforeTest signo.event = false := by
    intro signo
    cases signo <;> rfl
  have ha : ∀ signo : Signal, HookEvent.isAfterTest signo.event = false := by
    intro signo
    cases signo <;> rfl
  have hab : (asserts.map Assertion.event).countP HookEvent.isBeforeTest = 0 :=
    countP_asserts (fun _ => rfl) asserts
  have haa : (asserts.map Assertion.event).countP HookEvent.isAfterTest = 0 :=
    countP_asserts (fun _ => rfl) asserts
  unfold Balanced
  simp only [List.cons_append, List.countP_cons, List.countP_append, hab, haa, countP_signal hb,
    countP_signal ha]
  cases leak <;> rfl

theorem isSuiteBlock_balanced {leak : Bool} {p : TestSuite × List TestCase}
    {evs : List HookEvent} (h : IsSuiteBlock leak p evs) : Balanced evs := by
  obtain ⟨blocks, res, hb, rfl⟩ := h
  have hall : Balanced blocks.flatten := balanced_flatten (fun _ _ => isTestBlock_balanced) hb
  have hfirst : Balanced [.beforeSuite p.1] := rfl
  have hlast : Balanced [.afterSuite p.1 res] := rfl
  exact (hfirst.append hall).append hlast

theorem isStream_balanced {leak : Bool} {sel : Selection} {evs : List HookEvent}
    (h : IsStream leak sel evs) : Balanced evs := by
  obtain ⟨blocks, hb, rfl⟩ := h
  exact balanced_flatten (fun _ _ => isSuiteBlock_balanced) hb

/-- The block of a test whose context failed has an end and no beginning. -/
theorem testBlock_failed {n : Nat} {t : TestCase} {bytes : Nat} (h : ctxFailed env c n = true) :
    (testBlock env c n t bytes).countP HookEvent.isBeforeTest = 0 ∧
      (testBlock env c n t bytes).countP HookEvent.isAfterTest = 1 := by
  cases hl : c.leakwatch <;>
    simp [testBlock, h, hl, HookEvent.isBeforeTest, HookEvent.isAfterTest]

/-- Tests never begin more often than they end, and less often if a context failed. -/
theorem TestBlocks.counts {n : Nat} {ts : List TestCase} {evs : List HookEvent}
    (h : TestBlocks env c n ts evs) :
    evs.countP HookEvent.isBeforeTest ≤ evs.countP HookEvent.isAfterTest ∧
      (Balanced evs → CtxOk env c n ts) := by
  induction h with
  | nil n => exact ⟨Nat.le_refl _, fun _ i hi => absurd hi (Nat.not_lt_zero i)⟩
  | @cons n t ts evs bytes _ h ih =>
    obtain ⟨hle, hctx⟩ := ih
    unfold Balanced at *
    rw [List.countP_append, List.countP_append]
    cases hf : ctxFailed env c n with
    | true =>
      obtain ⟨hb, ha⟩ := @testBlock_failed env c n t bytes hf
      rw [hb, ha]
      exact ⟨by omega, fun heq => by omega⟩
    | false =>
      have hblock := isTestBlock_balanced (testBlock_isTestBlock t bytes hf)
      unfold Balanced at hblock
      rw [hblock]
      refine ⟨by omega, fun heq => ?_⟩
      have hrest := hctx (by omega)
      intro i hi
      cases i with
      | zero => exact hf
      | succ i =>
        rw [List.length_cons] at hi
        have := hrest i (by omega)
        rwa [show n + (i + 1) = n + 1 + i by omega]

theorem SuiteBlocks.counts {n : Nat} {sel : Selection} {evs : List HookEvent}
    (h : SuiteBlocks env c n sel evs) :
    evs.countP HookEvent.isBeforeTest ≤ evs.countP HookEvent.isAfterTest ∧
      (Balanced evs → CtxOk env c n (Selection.tests sel)) := by
  induction h with
  | nil n => exact ⟨Nat.le_refl _, fun _ i hi => absurd hi (Nat.not_lt_zero i)⟩
  | @cons n s ts sel evs evs' hb hs ih =>
    obtain ⟨hle, hctx⟩ := hb.counts
    obtain ⟨hle', hctx'⟩ := ih
    have hlen : Selection.tests ((s, ts) :: sel) = ts ++ Selection.tests sel := rfl
    unfold Balanced at *
    rw [hlen, CtxOk.append]
    simp only [List.cons_append, List.countP_cons, List.countP_append, HookEvent.isBeforeTest,
      HookEvent.isAfterTest, List.countP_nil, Bool.false_eq_true, if_false, Nat.add_zero]
    refine ⟨by omega, fun heq => ?_⟩
    exact ⟨hctx (by omega), hctx' (by omega)⟩

/-! ## Runs on registered names -/

/-- A call whose names are registered, with what it is to run. -/
inductive Names (c : TestContext) : RunOp → Selection → Prop
  | all : Names c .all (c.suites.map fun s => (s, s.tests))
  | suite {s : TestSuite} (hs : s ∈ c.suites) : Names c (.suite s.name) [(s, s.tests)]
  | case {s : TestSuite} {t : TestCase} (hs : s ∈ c.suites) (ht : t ∈ s.tests) :
      Names c (.case s.name t.name) [(s, [t])]

theorem Names.opSelection (hc : ContextWf c) {op : RunOp} {sel : Selection} (h : Names c op sel) :
    opSelection c op = some sel := by
  cases h with
  | all => rfl
  | suite hs => simp [Tinu.opSelection, lookup_named hc hs]
  | @case s t hs ht =>
    simp [Tinu.opSelection, lookup_named hc hs, lookupCase_of_mem (hc.suites s hs) ht]

theorem opsSelection_of_names (hc : ContextWf c) {ops : List RunOp} {sels : List Selection}
    (h : List.Forall₂ (Names c) ops sels) : opsSelection c ops = sels.flatten := by
  induction h with
  | nil => rfl
  | @cons op sel ops sels hop _ ih =>
    have hcons : opsSelection c (op :: ops) =
        (opSelection c op).getD [] ++ opsSelection c ops := rfl
    rw [hcons, ih, hop.opSelection hc]
    rfl

/-- The events of a run are a stream for its selection, or the beginning of one if a test ended the
process; and after any number of them no hook of the statistics went through an unset pointer or
reported another test or suite. -/
structure HookStreamOk (env : Env) (c : TestContext) (sel : Selection) (ops : List RunOp)
    (st : RunState) : Prop where
  stream : match (runOps env c ops st).1 with
    | some _ => IsStream c.leakwatch sel (runEvents env c ops st)
    | none => ∃ rest, IsStream c.leakwatch sel (runEvents env c ops st ++ rest)
  statistics : ∀ (clock : Nat → Int) (is : List StatInput),
    is.filterMap StatInput.event <+: runEvents env c ops st →
      ∃ stat, statRun clock 0 is statNew = some (stat, [])

theorem ctxOk_iff {n : Nat} {ts : List TestCase} :
    CtxOk env c n ts ↔
      (c.sighandle = true → ∀ i, i < ts.length → env.ctxFails (n + i) = none) := by
  unfold CtxOk ctxFailed
  cases c.sighandle <;> simp

/-- **The events keep to the protocol exactly when every context is switched to.** -/
theorem hook_stream_iff {sighandle leakwatch : Bool} {regs : List RegisterOp}
    (hreg : registerAll (testContextInit sighandle leakwatch) regs = .ok c) {ops : List RunOp}
    {sels : List Selection} (hnames : List.Forall₂ (Names c) ops sels) {st : RunState}
    (hw : st.leak.Counted) :
    HookStreamOk env c sels.flatten ops st ↔
      (c.sighandle = true → ∀ i, i < (Selection.tests sels.flatten).length →
        env.ctxFails (st.executed.length + i) = none) := by
  have hsel := opsSelection_of_names (registerAll_spec hreg).1 hnames
  rw [← ctxOk_iff, ← hsel]
  constructor
  · intro h
    rcases @runEvents_spec env c ops st hw with ⟨⟨res, hres⟩, hb⟩ | ⟨_, ran, hb⟩
    · have hstream := h.stream
      rw [hres] at hstream
      exact hb.counts.2 (isStream_balanced hstream)
    · intro i _
      simp [ctxFailed, hb.sighandle]
  · intro hctx
    refine ⟨?_, ?_⟩
    · rcases @runEvents_spec env c ops st hw with ⟨⟨res, hres⟩, hb⟩ | ⟨hres, ran, hb⟩
      · rw [hres]
        exact hb.isStream (hctx.seen _ _)
      · rw [hres]
        exact hb.begin fun i hi => hctx.seen _ _ i (Nat.lt_of_lt_of_le hi hb.prefix.length_le)
    · intro clock is his
      obtain ⟨p, hp⟩ := runEvents_follow ops hw hctx his
      obtain ⟨stat, hrun, _⟩ := (statShape_keeps c.leakwatch).run clock is 0 (k := 0)
        (StatShape.idle statNew []) hp fun _ _ => trivial
      exact ⟨stat, hrun⟩

theorem hook_stream_aborting :
    HookStreamOk abortingEnv (pairContext true true)
      (List.flatten [(pairContext true true).suites.map fun s => (s, s.tests)]) [.all]
      RunState.start :=
  (@hook_stream_iff abortingEnv (pairContext true true) true true pairOps rfl [.all] _
    (.cons .all .nil) RunState.start rfl).mpr fun _ _ _ => rfl

/-- No test gets a context. -/
def contextlessEnv : Env := { Env.idle with ctxFails := fun _ => some .getcontext }

/-- Without a context, `AFTER_TEST` comes for a test that never began, and takes the statistics
through an unset pointer. -/
theorem failed_context_unmatched :
    ¬ ∀ (env : Env) (sighandle leakwatch : Bool) (regs : List RegisterOp) (c : TestContext)
        (ops : List RunOp) (sels : List Selection) (st : RunState),
      registerAll (testContextInit sighandle leakwatch) regs = .ok c →
        List.Forall₂ (Names c) ops sels → st.leak.Counted →
          HookStreamOk env c sels.flatten ops st := by
  intro h
  have hok := h contextlessEnv true false pairOps (pairContext true false) [.all] _
    RunState.start rfl (.cons .all .nil) rfl
  obtain ⟨stat, hrun⟩ := hok.statistics (fun n => n)
    ((runEvents contextlessEnv (pairContext true false) [.all] RunState.start).map .hook) (by
      rw [List.filterMap_map]
      exact (List.filterMap_some).symm ▸ List.prefix_rfl)
  have hfault : statRun (fun n => n) 0
      ((runEvents contextlessEnv (pairContext true false) [.all] RunState.start).map .hook)
      statNew = none := by decide
  rw [hfault] at hrun
  cases hrun

end Tinu
