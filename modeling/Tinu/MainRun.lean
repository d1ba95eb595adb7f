import Tinu.StatTotals

/-!
# The test runner (`main.c`)

`tinuMain` runs the tests registered in `g_main_test_context` as the options say, and hands the
statistics to the report module.  The context has no `m_suites` before the first registration; the
statistics hear the events through the hooks that `stat_start` registers.

* `statDeliverRun_eq` — what they hear is the event stream of the run;
* `runOp_ends` — how a run of the tests can end;
* `main_ok_iff` — the runner does what it is for exactly as long as a test is registered, no
  report is made of statistics that are not kept, and a suite that does not exist is not replaced
  by one that passes.
-/

set_option autoImplicit false

namespace Tinu

/-! ## The data -/

/-- `StatisticsVerbosity`. -/
inductive StatisticsVerbosity where
  | none
  | summary
  | suites
  | full
  | verbose
  deriving DecidableEq, Repr

/-- The value of the `enum`. -/
def StatisticsVerbosity.value : StatisticsVerbosity → Nat
  | .none => 0
  | .summary => 1
  | .suites => 2
  | .full => 3
  | .verbose => 4

/-- `struct _ReportModule`; `check` is what `m_check` answers. -/
structure ReportModule where
  name : CString
  check : Option (StatisticsVerbosity → Bool → Bool)

/-- A call of `m_handle`. -/
structure HandleCall where
  module : CString
  stat : TestStatistics
  verbosity : StatisticsVerbosity
  enableColour : Bool

/-- The options, with their defaults; `fileDestination` is one of the module `file`. -/
structure MainOptions where
  fancy : Bool := false
  sighandle : Bool := true
  leakwatch : Bool := false
  version : Bool := false
  statVerb : StatisticsVerbosity := .summary
  suite : Option CString := none
  testCase : Option CString := none
  file : Option CString := none
  report : Option CString := some "print"
  fileDestination : Option CString := none

/-- The world around the runner: what the tests do, whether a file can be opened in a mode, the
addresses of functions and of the statistics, the clock, and the messages logged after the events
so far. -/
structure MainWorld where
  env : Env
  fopen : CString → CString → Bool
  statFn : StatCallback → FnPtr
  statAddr : Ptr
  clock : Nat → Int
  heard : List HookEvent → List (Fin 8)
  statFn_inj : Function.Injective statFn

/-- A pointer that is followed without having been set. -/
inductive MainFault where
  | missingStat
  | uninitContext
  deriving DecidableEq, Repr

/-- How the process ends; `killed` is by a signal, or in a callback. -/
inductive MainExit where
  | fault (f : MainFault)
  | killed
  | exited (status : Nat)
  | returned (status : Nat)
  deriving DecidableEq, Repr

structure MainResult where
  exit : MainExit
  handled : List HandleCall
  state : RunState

/-! ## Registration -/

/-- `tinu_test_add` and `tinu_test_add_extended`; the context is `none` up to the first of them. -/
def tinuTestAdd (context : Option TestContext) (op : RegisterOp) :
    Except (List LogEntry) (Option TestContext) :=
  ((context.getD (testContextInit false false)).register op).map some

/-- The registrations of a program. -/
def tinuTestAddAll (ops : List RegisterOp) : Except (List LogEntry) (Option TestContext) :=
  ops.foldlM tinuTestAdd none

/-! ## Report modules -/

/-- `g_report_print_module`, with `test_report_print_check`. -/
def gReportPrintModule : ReportModule := ⟨"print", some fun _ _ => true⟩

/-- `g_report_progam_module`, with `test_report_program_check`. -/
def gReportProgramModule : ReportModule := ⟨"program", some fun _ _ => true⟩

/-- `g_report_file_module`, with `test_report_file_check`. -/
def gReportFileModule (w : MainWorld) (opts : MainOptions) : ReportModule :=
  ⟨"file", some fun _ _ => opts.fileDestination.any fun name => w.fopen name "w"⟩

/-- `g_report_modules` once `tinu_main` has added its own. -/
def reportModules (w : MainWorld) (modules : List ReportModule) (opts : MainOptions) :
    List ReportModule :=
  modules ++ [gReportPrintModule, gReportProgramModule, gReportFileModule w opts]

/-- `_tinu_test_find_module`. -/
def tinuTestFindModule (modules : List ReportModule) (name : CString) : Option ReportModule :=
  modules.find? fun mod => mod.name = name

/-- `mod->m_check && !mod->m_check(…)`. -/
def ReportModule.refuses (mod : ReportModule) (opts : MainOptions) : Bool :=
  mod.check.any fun check => ! check opts.statVerb opts.fancy

/-! ## What the statistics hear -/

/-- `g_stat_hooks`, one by one. -/
def StatCallback.each : List StatCallback :=
  [.assert, .caseBegin, .caseEnd, .suiteBegin, .suiteEnd, .leakwatch]

/-- A callback is called with an event; those of others do not touch the statistics. -/
def callHook (w : MainWorld) (now : Int) (e : HookEvent) (stat : TestStatistics)
    (call : FnPtr × Ptr) : Option (TestStatistics × List LogEntry) :=
  match StatCallback.each.find? fun callback => (w.statFn callback, w.statAddr) = call with
  | some callback => callback.run now stat e
  | none => some (stat, [])

/-- The calls of one event. -/
def callHooks (w : MainWorld) (now : Int) (e : HookEvent) :
    List (FnPtr × Ptr) → TestStatistics → Option (TestStatistics × List LogEntry)
  | [], stat => some (stat, [])
  | call :: calls, stat => do
    let (stat, msgs) ← callHook w now e stat call
    let (stat, msgs') ← callHooks w now e calls stat
    some (stat, msgs ++ msgs')

/-- The inputs one after the other, each event through the hooks. -/
def statDeliverRun (w : MainWorld) (hooks : HookTable) :
    Nat → List StatInput → TestStatistics → Option (TestStatistics × List LogEntry)
  | _, [], stat => some (stat, [])
  | k, i :: is, stat => do
    let (stat, msgs) ←
      match i with
      | .hook e => do
        let calls ← testRunHooks hooks e.id
        callHooks w (w.clock k) e calls stat
      | .message priority => some (statMessageCounter stat priority, [])
    let (stat, msgs') ← statDeliverRun w hooks (k + 1) is stat
    some (stat, msgs ++ msgs')

/-- The messages between the events; `before` are the events so far. -/
def statInputs (heard : List HookEvent → List (Fin 8)) :
    List HookEvent → List HookEvent → List StatInput
  | before, [] => (heard before).map .message
  | before, e :: evs =>
    (heard before).map .message ++ .hook e :: statInputs heard (before ++ [e]) evs

/-! ## `tinu_main` -/

/-- The run that the options ask for. -/
def MainOptions.runOp (opts : MainOptions) : RunOp :=
  match opts.suite with
  | some suite =>
    match opts.testCase with
    | some test => .case suite test
    | none => .suite suite
  | none => .all

/-- The flags of `g_main_test_context` are set. -/
def MainOptions.setFlags (opts : MainOptions) (c : TestContext) : TestContext :=
  { c with sighandle := opts.sighandle, leakwatch := opts.leakwatch }

/-- `stat_new` and `stat_start`, where they are called: the statistics, and the hooks. -/
def mainStart (w : MainWorld) (opts : MainOptions) (report : Option ReportModule) :
    Option (Option TestStatistics × HookTable) :=
  if report.isSome ∧ StatisticsVerbosity.none.value < opts.statVerb.value then
    (statStart w.statFn w.statAddr HookTable.init).map fun hooks => (some statNew, hooks)
  else some (none, HookTable.init)

/-- What is kept of the events of a run. -/
def mainHear (w : MainWorld) (hooks : HookTable) (evs : List HookEvent) :
    Option TestStatistics → Option (Option TestStatistics)
  | none => some none
  | some stat => (statDeliverRun w hooks 0 (statInputs w.heard [] evs) stat).map fun r => some r.1

def exitStatus (res : Bool) : Nat := if res then 0 else 1

/-- `test_context_destroy`, on the hooks, and the end of `tinu_main`. -/
def mainEnd (hooks : HookTable) (handled : List HandleCall) (res : Bool) (st : RunState) :
    MainResult :=
  match testUnregisterHook hooks .all none NULL with
  | none => ⟨.killed, handled, st⟩
  | some _ => ⟨.returned (exitStatus res), handled, st⟩

/-- `tinu_main` from the end of the run: `stat_stop`, `m_handle`, `stat_destroy`, which stops once
more, and what follows. -/
def mainReport (w : MainWorld) (opts : MainOptions) (report : Option ReportModule)
    (stat : Option TestStatistics) (hooks : HookTable) (res : Bool) (st : RunState) : MainResult :=
  match report with
  | none => mainEnd hooks [] res st
  | some mod =>
    match stat with
    | none => ⟨.fault .missingStat, [], st⟩
    | some stat =>
      match statStop w.statFn w.statAddr hooks with
      | none => ⟨.killed, [], st⟩
      | some hooks =>
        let call : HandleCall := ⟨mod.name, stat, opts.statVerb, opts.fancy⟩
        match statStop w.statFn w.statAddr hooks with
        | none => ⟨.killed, [call], st⟩
        | some hooks => mainEnd hooks [call] res st

/-- `tinu_main` from the flags of the context on. -/
def mainRun (w : MainWorld) (context : Option TestContext) (opts : MainOptions)
    (report : Option ReportModule) (st : RunState) : MainResult :=
  match mainStart w opts report with
  | none => ⟨.killed, [], st⟩
  | some (stat, hooks) =>
    match context.map opts.setFlags with
    -- all three ways of running tests start with `self->m_suites->len`
    | none => ⟨.fault .uninitContext, [], st⟩
    | some c =>
      let r := runOp w.env c st opts.runOp
      match mainHear w hooks (r.2.events.drop st.events.length) stat with
      | none => ⟨.killed, [], r.2⟩
      | some stat =>
        match r.1 with
        | none => ⟨.killed, [], r.2⟩
        | some res => mainReport w opts report stat hooks res r.2

/-- `signal(SIGSEGV, _tinu_signal_handler)`. -/
def installHandler (st : RunState) : RunState :=
  { st with signals := { st.signals with segv := .main } }

/-- `tinu_main`; `modules` were added before, and without options the command line was refused. -/
def tinuMain (w : MainWorld) (modules : List ReportModule) (context : Option TestContext)
    (opts : Option MainOptions) (st : RunState) : MainResult :=
  let st := installHandler st
  match opts with
  | none => ⟨.returned 1, [], st⟩
  | some opts =>
    let report := opts.report.bind (tinuTestFindModule (reportModules w modules opts))
    if opts.version then ⟨.exited 1, [], st⟩
    else if opts.report.isSome ∧ report.isNone then ⟨.returned 1, [], st⟩
    else if report.any (·.refuses opts) then ⟨.returned 1, [], st⟩
    else if opts.file.any fun name => ! w.fopen name "a" then ⟨.returned 1, [], st⟩
    else if opts.testCase.isSome ∧ opts.suite.isNone then ⟨.returned 1, [], st⟩
    else mainRun w context opts report st

/-! ## What the runner is for -/

/-- The settings are valid: the report module is registered and accepts its options, the log file
can be opened, and a test case is only given with a suite. -/
structure ValidSetting (w : MainWorld) (modules : List ReportModule) (opts : MainOptions) :
    Prop where
  version : opts.version = false
  registered : ∀ name, opts.report = some name →
    ∃ mod ∈ reportModules w modules opts, mod.name = name
  accepted : ∀ name mod, opts.report = some name →
    tinuTestFindModule (reportModules w modules opts) name = some mod → mod.refuses opts = false
  file : ∀ name, opts.file = some name → w.fopen name "a" = true
  testCase : opts.testCase.isSome → opts.suite.isSome

/-- The suite and the test case asked for are registered. -/
def Requested (c : TestContext) (opts : MainOptions) : Prop :=
  ∀ suite, opts.suite = some suite → ∃ s ∈ c.suites, s.name = suite ∧
    ∀ test, opts.testCase = some test → ∃ t ∈ s.tests, t.name = test

/-- The context as the run sees it. -/
def mainContext (context : Option TestContext) (opts : MainOptions) : TestContext :=
  opts.setFlags (context.getD (testContextInit false false))

/-- The world as the tests of the run see it: where they are called directly, `_tinu_signal_handler`
returns from a SIGSEGV if that is the first signal. -/
def MainWorld.seen (w : MainWorld) (context : Option TestContext) (opts : MainOptions)
    (st : RunState) : Env :=
  w.env.seen (mainContext context opts) (installHandler st)
    (selectedTests (mainContext context opts) opts.runOp)

/-- What `tinu_main` promises of the run from `st` with the result `r`: no missing object is used,
the handler gets the statistics of this run, and the status is 0 exactly when what was asked for
exists and every test that ran passed. -/
structure MainOk (w : MainWorld) (context : Option TestContext) (opts : MainOptions)
    (st : RunState) (r : MainResult) : Prop where
  noFault : ∀ f, r.exit ≠ .fault f
  handled : ∀ call ∈ r.handled, ∃ is msgs,
    is.filterMap StatInput.event = r.state.events.drop st.events.length ∧
      statRun w.clock 0 is statNew = some (call.stat, msgs)
  status : r.exit = .returned 0 ↔ Requested (mainContext context opts) opts ∧
    allPassed (w.seen context opts st) (mainContext context opts) st.executed.length
      (r.state.executed.drop st.executed.length) = true

/-- The suite asked for is registered, or the last one, which the lookup gives in its place, does
not pass: it lacks the test case asked for, or what is run of it fails. -/
def SuiteFound (env : Env) (c : TestContext) (opts : MainOptions) (n : Nat) : Prop :=
  ∀ suite, opts.suite = some suite → (∃ s ∈ c.suites, s.name = suite) ∨
    ∀ s, c.suites.getLast? = some s →
      match opts.testCase with
      | none => ∃ i t, s.tests[i]? = some t ∧ verdictOf env c (n + i) t ≠ .passed
      | some test => ∀ t ∈ s.tests, t.name = test → verdictOf env c n t ≠ .passed

/-- A report is made of statistics that are kept, unless a test ends the process before. -/
def ReportKept (env : Env) (c : TestContext) (opts : MainOptions) (n : Nat) : Prop :=
  opts.report = none ∨ opts.statVerb ≠ .none ∨ SomeDies env c n (selectedTests c opts.runOp)

/-! ## What is heard is what happened -/

variable {w : MainWorld}

theorem statInputs_event (heard : List HookEvent → List (Fin 8)) :
    ∀ evs before, (statInputs heard before evs).filterMap StatInput.event = evs := by
  have hmsgs : ∀ before, ((heard before).map StatInput.message).filterMap StatInput.event = [] := by
    intro before
    simp [List.filterMap_map, Function.comp_def, StatInput.event]
  intro evs
  induction evs with
  | nil => exact hmsgs
  | cons e evs ih =>
    intro before
    rw [statInputs, List.filterMap_append, hmsgs, List.nil_append, List.filterMap_cons]
    simp [StatInput.event, ih]

theorem StatCallback.mem_each (callback : StatCallback) : callback ∈ StatCallback.each := by
  cases callback <;> decide

/-- The address of a callback leads back to it. -/
theorem callHook_statFn (w : MainWorld) (now : Int) (e : HookEvent) (stat : TestStatistics)
    (callback : StatCallback) :
    callHook w now e stat (w.statFn callback, w.statAddr) = callback.run now stat e := by
  have hfind : (StatCallback.each.find? fun c =>
      (w.statFn c, w.statAddr) = (w.statFn callback, w.statAddr)) = some callback := by
    cases hf : StatCallback.each.find? fun c =>
        (w.statFn c, w.statAddr) = (w.statFn callback, w.statAddr) with
    | none =>
      have := List.find?_eq_none.mp hf callback callback.mem_each
      simp at this
    | some c =>
      have hc := List.find?_some hf
      rw [decide_eq_true_eq, Prod.mk.injEq] at hc
      rw [w.statFn_inj hc.1]
  rw [callHook, hfind]

/-- The hooks that `stat_start` left lead each event to its callback. -/
theorem callHooks_statCalls (w : MainWorld) (now : Int) (e : HookEvent) (stat : TestStatistics) :
    callHooks w now e (statCalls w.statFn w.statAddr e.id) stat = statHook now stat e := by
  cases hcb : gStatHooks e.id with
  | none => simp [statCalls, hcb, callHooks, statHook]
  | some callback =>
    have hcall := callHook_statFn w now e stat callback
    cases hr : callback.run now stat e <;>
      simp [statCalls, hcb, callHooks, statHook, hcall, hr]

/-- **The statistics hear the event stream of the run.** -/
theorem statDeliverRun_eq {hooks : HookTable}
    (hhooks : ∀ id, testRunHooks hooks id = some (statCalls w.statFn w.statAddr id)) :
    ∀ (is : List StatInput) (k : Nat) (stat : TestStatistics),
      statDeliverRun w hooks k is stat = statRun w.clock k is stat
  | [], k, stat => rfl
  | .message priority :: is, k, stat => by
    simp [statDeliverRun, statRun, statStep, statDeliverRun_eq hhooks is]
  | .hook e :: is, k, stat => by
    simp only [statDeliverRun, statRun, statStep, hhooks, Option.bind_eq_bind, Option.bind_some,
      callHooks_statCalls, statDeliverRun_eq hhooks is]

/-! ## How a run of the tests ends -/

variable {env : Env} {c : TestContext}

theorem overTests_getElem? {β : Type} (f : Nat → TestCase → β) :
    ∀ (ts : List TestCase) (n i : Nat), (overTests f n ts)[i]? = ts[i]?.map (f (n + i))
  | [], n, i => rfl
  | t :: ts, n, 0 => rfl
  | t :: ts, n, i + 1 => by
    rw [overTests, List.getElem?_cons_succ, List.getElem?_cons_succ, overTests_getElem? f ts,
      Nat.add_right_comm, Nat.add_assoc]

theorem allPassed_iff {n : Nat} {ts : List TestCase} :
    allPassed env c n ts = true ↔
      ∀ i t, ts[i]? = some t → verdictOf env c (n + i) t = .passed := by
  rw [allPassed, List.all_eq_true]
  constructor
  · intro h i t ht
    have hv : (verdicts env c n ts)[i]? = some (verdictOf env c (n + i) t) := by
      rw [verdicts, overTests_getElem?, ht, Option.map_some]
    exact beq_iff_eq.mp (h _ (List.mem_of_getElem? hv))
  · intro h v hv
    obtain ⟨i, hi⟩ := List.mem_iff_getElem?.mp hv
    rw [verdicts, overTests_getElem?] at hi
    obtain ⟨t, ht, rfl⟩ := Option.map_eq_some_iff.mp hi
    exact beq_iff_eq.mpr (h i t ht)

theorem allPassed_false {n i : Nat} {ts : List TestCase} {t : TestCase} (ht : ts[i]? = some t)
    (hv : verdictOf env c (n + i) t ≠ .passed) : allPassed env c n ts = false := by
  cases ha : allPassed env c n ts with
  | false => rfl
  | true => exact absurd (allPassed_iff.mp ha i t ht) hv

/-- A test that ends the process does not pass. -/
theorem SomeDies.allPassed {n : Nat} {ts : List TestCase} (h : SomeDies env c n ts) :
    allPassed env c n ts = false := by
  obtain ⟨i, t, ht, hsig, hraise⟩ := h
  refine allPassed_false ht ?_
  obtain ⟨sig, hs⟩ := Option.isSome_iff_exists.mp hraise
  have hv : verdictOf env c (n + i) t = sig.result := by
    simp [verdictOf, ctxFailed, hsig, earnedVerdict, hs]
  rw [hv]
  cases sig <;> decide

/-- How a call that runs tests ends: after all tests it selects, or in one of them. -/
inductive RunEnds (env : Env) (c : TestContext) (op : RunOp) (st : RunState) :
    Option Bool × RunState → Prop
  | finished {st' : RunState}
      (executed : st'.executed = st.executed ++ selectedTests c op)
      (lives : ¬ SomeDies env c st.executed.length (selectedTests c op))
      (events : CtxOk env c st.executed.length (selectedTests c op) →
        StreamPhase.idle.follow c.leakwatch (st'.events.drop st.events.length) = some .idle) :
      RunEnds env c op st (some (opResult env c st.executed.length op), st')
  | killed {st' : RunState} {ran : List TestCase} (executed : st'.executed = st.executed ++ ran)
      (within : ran <+: selectedTests c op) (dies : SomeDies env c st.executed.length ran) :
      RunEnds env c op st (none, st')

theorem runOp_ends {st : RunState} (hw : st.leak.Counted) (op : RunOp) :
    RunEnds (env.seen c st (selectedTests c op)) c op st (runOp env c st op) := by
  rcases @runOp_spec env c st hw op with ⟨st', evs, hrun, hk, hb, hm⟩ |
    ⟨st', ran, evs, hrun, hb, hm⟩
  · rw [hrun]
    refine .finished hm.executed hb.lives fun hctx => ?_
    rw [hm.events, List.drop_left]
    exact hb.follow hctx
  · rw [hrun]
    obtain ⟨i, ⟨⟨t, ht, hd⟩, -⟩, hran⟩ := hb.firstDies
    refine .killed hm.executed hb.prefix ⟨i, t, ?_, hd⟩
    rw [hran, List.getElem?_take_of_lt (Nat.lt_succ_self i), ht]

/-! ## What was asked for -/

theorem opSelection_of_requested {opts : MainOptions} (hc : ContextWf c)
    (h : Requested c opts) : opSelection c opts.runOp ≠ none := by
  unfold MainOptions.runOp
  cases hs : opts.suite with
  | none => simp [opSelection]
  | some suite =>
    obtain ⟨s, hmem, rfl, hcase⟩ := h suite hs
    have hlook := lookup_named hc hmem
    cases ht : opts.testCase with
    | none => simp [opSelection, hlook]
    | some test =>
      obtain ⟨t, htmem, rfl⟩ := hcase test ht
      simp [opSelection, hlook, lookupCase_of_mem (hc.suites s hmem) htmem]

theorem requested_of_opSelection {opts : MainOptions} (hc : ContextWf c)
    (hsuite : ∀ suite, opts.suite = some suite → ∃ s ∈ c.suites, s.name = suite)
    (h : opSelection c opts.runOp ≠ none) : Requested c opts := by
  intro suite hs
  obtain ⟨s, hmem, rfl⟩ := hsuite suite hs
  refine ⟨s, hmem, rfl, fun test ht => ?_⟩
  have hlook := lookup_named hc hmem
  cases hl : testLookupCase s test with
  | none => simp [MainOptions.runOp, hs, ht, opSelection, hlook, hl] at h
  | some t => exact ⟨t, lookupCase_mem hl⟩

theorem exists_not_passed_iff {n : Nat} {ts : List TestCase} :
    (∃ i t, ts[i]? = some t ∧ verdictOf env c (n + i) t ≠ .passed) ↔
      allPassed env c n ts = false := by
  rw [Bool.eq_false_iff, Ne, allPassed_iff]
  push Not
  rfl

/-- A call that selects tests returns whether they passed. -/
theorem opResult_eq (n : Nat) (op : RunOp) :
    opResult env c n op =
      ((opSelection c op).isSome && allPassed env c n (selectedTests c op)) := by
  cases hsel : opSelection c op with
  | none => simp [opResult, hsel]
  | some sel =>
    have htests : selectedTests c op = Selection.tests sel := by
      rw [selectedTests, hsel, Option.getD_some]
    rw [htests, ← suiteResults_all]
    simp [opResult, hsel]

/-- A call with a name that no suite has runs the last suite. -/
theorem suiteFound_unnamed {opts : MainOptions} {suite : CString} (hc : ContextWf c)
    (hs : opts.suite = some suite) (hnone : ∀ s ∈ c.suites, s.name ≠ suite) (n : Nat) :
    SuiteFound env c opts n ↔ opResult env c n opts.runOp = false := by
  have hlook := lookup_unnamed hnone
  have hfound : SuiteFound env c opts n ↔ ∀ s, c.suites.getLast? = some s →
      match opts.testCase with
      | none => ∃ i t, s.tests[i]? = some t ∧ verdictOf env c (n + i) t ≠ .passed
      | some test => ∀ t ∈ s.tests, t.name = test → verdictOf env c n t ≠ .passed := by
    unfold SuiteFound
    rw [hs]
    constructor
    · intro h
      refine (h suite rfl).resolve_left ?_
      rintro ⟨s, hmem, hn⟩
      exact hnone s hmem hn
    · exact fun h _ _ => Or.inr h
  rw [hfound, opResult_eq]
  cases hl : c.suites.getLast? with
  | none =>
    rw [hl] at hlook
    have hsel : opSelection c opts.runOp = none := by
      cases ht : opts.testCase <;> simp [MainOptions.runOp, hs, ht, opSelection, hlook]
    simp [hsel]
  | some s =>
    rw [hl] at hlook
    have hmem : s ∈ c.suites := List.mem_of_getLast? hl
    cases ht : opts.testCase with
    | none =>
      have hsel : opSelection c opts.runOp = some [(s, s.tests)] := by
        simp [MainOptions.runOp, hs, ht, opSelection, hlook]
      have htests : selectedTests c opts.runOp = s.tests := by
        rw [selectedTests, hsel]
        exact List.append_nil _
      rw [htests, hsel, Option.isSome_some, Bool.true_and, ← exists_not_passed_iff]
      simp
    | some test =>
      cases hcase : testLookupCase s test with
      | none =>
        have hsel : opSelection c opts.runOp = none := by
          simp [MainOptions.runOp, hs, ht, opSelection, hlook, hcase]
        have hno := lookupCase_none_iff.mp hcase
        rw [hsel, Option.isSome_none, Bool.false_and]
        refine iff_of_true (fun s' hs' t htmem hname => ?_) rfl
        obtain rfl := Option.some.inj hs'
        exact absurd (hname ▸ List.mem_map_of_mem htmem) hno
      | some t =>
        have hsel : opSelection c opts.runOp = some [(s, [t])] := by
          simp [MainOptions.runOp, hs, ht, opSelection, hlook, hcase]
        have htests : selectedTests c opts.runOp = [t] := by rw [selectedTests, hsel]; rfl
        obtain ⟨htmem, hname⟩ := lookupCase_mem hcase
        rw [htests, hsel, Option.isSome_some, Bool.true_and]
        have hpassed : allPassed env c n [t] = false ↔ verdictOf env c n t ≠ .passed := by
          simp [allPassed, verdicts, overTests]
        rw [hpassed]
        constructor
        · exact fun h => h s rfl t htmem hname
        · intro h s' hs' t' htmem' hname'
          obtain rfl := Option.some.inj hs'
          rwa [eq_of_key (hc.suites s hmem).testNames htmem' htmem (hname'.trans hname.symm)]

/-- **The status of a run that ended** is right exactly when no other suite stands in for the one
asked for. -/
theorem status_iff {opts : MainOptions} (hc : ContextWf c) (n : Nat) :
    (exitStatus (opResult env c n opts.runOp) = 0 ↔
        Requested c opts ∧ allPassed env c n (selectedTests c opts.runOp) = true) ↔
      SuiteFound env c opts n := by
  have hstatus : exitStatus (opResult env c n opts.runOp) = 0 ↔
      opResult env c n opts.runOp = true := by
    cases opResult env c n opts.runOp <;> simp [exitStatus]
  rw [hstatus]
  by_cases hname : ∀ suite, opts.suite = some suite → ∃ s ∈ c.suites, s.name = suite
  · have hreq : (opSelection c opts.runOp).isSome = true ↔ Requested c opts := by
      rw [Option.isSome_iff_ne_none]
      exact ⟨requested_of_opSelection hc hname, opSelection_of_requested hc⟩
    refine iff_of_true ?_ fun suite hs => Or.inl (hname suite hs)
    rw [opResult_eq, Bool.and_eq_true, hreq]
  · push Not at hname
    obtain ⟨suite, hs, hnone⟩ := hname
    have hnot : ¬ Requested c opts := by
      intro h
      obtain ⟨s, hmem, hn, -⟩ := h suite hs
      exact hnone s hmem hn
    rw [suiteFound_unnamed hc hs hnone]
    simp [hnot]

/-- Tests that do not all pass keep the condition. -/
theorem suiteFound_of_failed {opts : MainOptions} (hc : ContextWf c) {n : Nat}
    (h : allPassed env c n (selectedTests c opts.runOp) = false) : SuiteFound env c opts n := by
  rw [← status_iff hc, opResult_eq, h, Bool.and_false]
  simp [exitStatus]

/-! ## The end of `tinu_main` -/

theorem mainEnd_eq {hooks : HookTable} {es : TestHookID → List TestHookEntry}
    (ht : hooks.Holds es) (handled : List HandleCall) (res : Bool) (st : RunState) :
    mainEnd hooks handled res st = ⟨.returned (exitStatus res), handled, st⟩ := by
  obtain ⟨hooks', hstep, _⟩ := step_holds ht (.unregister .all none NULL)
  have hstep : testUnregisterHook hooks .all none NULL = some hooks' := hstep
  rw [mainEnd, hstep]

theorem mainReport_some {hooks : HookTable} {es : TestHookID → List TestHookEntry}
    (ht : hooks.Holds es) (opts : MainOptions) (mod : ReportModule) (stat : TestStatistics)
    (res : Bool) (st : RunState) :
    mainReport w opts (some mod) (some stat) hooks res st =
      ⟨.returned (exitStatus res), [⟨mod.name, stat, opts.statVerb, opts.fancy⟩], st⟩ := by
  have hstop : ∀ {hooks : HookTable} {es}, hooks.Holds es →
      ∃ hooks' es', statStop w.statFn w.statAddr hooks = some hooks' ∧ hooks'.Holds es' := by
    intro hooks es ht
    obtain ⟨hooks', hstep, ht'⟩ :=
      step_holds ht (.unregisterMultiple (fun id => (gStatHooks id).map w.statFn) w.statAddr)
    exact ⟨hooks', _, hstep, ht'⟩
  obtain ⟨hooks1, es1, h1, ht1⟩ := hstop ht
  obtain ⟨hooks2, es2, h2, ht2⟩ := hstop ht1
  simp only [mainReport, h1, h2, mainEnd_eq ht2]

/-- Without a report or without verbosity nothing is started. -/
theorem mainStart_none {opts : MainOptions} {report : Option ReportModule}
    (h : report = none ∨ opts.statVerb = .none) :
    mainStart w opts report = some (none, HookTable.init) := by
  rw [mainStart, if_neg]
  rintro ⟨hsome, hlt⟩
  rcases h with rfl | hv
  · cases hsome
  · rw [hv] at hlt
    exact Nat.lt_irrefl _ hlt

theorem mainStart_some {opts : MainOptions} {mod : ReportModule} (h : opts.statVerb ≠ .none) :
    ∃ hooks es, mainStart w opts (some mod) = some (some statNew, hooks) ∧ hooks.Holds es ∧
      ∀ id, testRunHooks hooks id = some (statCalls w.statFn w.statAddr id) := by
  have hlt : StatisticsVerbosity.none.value < opts.statVerb.value := by
    cases hv : opts.statVerb with
    | none => exact absurd hv h
    | _ => decide
  obtain ⟨hooks, hstep, ht⟩ := step_holds HookTable.init_holds
    (.registerMultiple (fun id => (gStatHooks id).map w.statFn) w.statAddr)
  have hstart : statStart w.statFn w.statAddr HookTable.init = some hooks := hstep
  obtain ⟨hooks', hstart', hcalls⟩ := statStart_delivers w.statFn w.statAddr HookTable.init_holds
  obtain rfl : hooks = hooks' := Option.some.inj (hstart.symm.trans hstart')
  refine ⟨hooks, _, ?_, ht, fun id => ?_⟩
  · rw [mainStart, if_pos ⟨rfl, hlt⟩, hstart, Option.map_some]
  · rw [hcalls id, hookCalls_nil, List.nil_append]

theorem mainStart_total (w : MainWorld) (opts : MainOptions) (report : Option ReportModule) :
    ∃ p, mainStart w opts report = some p := by
  by_cases h : report = none ∨ opts.statVerb = .none
  · exact ⟨_, mainStart_none h⟩
  · obtain ⟨hne, hverb⟩ := not_or.mp h
    obtain ⟨mod, rfl⟩ := Option.ne_none_iff_exists'.mp hne
    obtain ⟨hooks, es, hrun, _⟩ := @mainStart_some w opts mod hverb
    exact ⟨_, hrun⟩

/-- With every context switched to, the statistics of a complete run are kept without a fault. -/
theorem mainHear_some {hooks : HookTable}
    (hhooks : ∀ id, testRunHooks hooks id = some (statCalls w.statFn w.statAddr id))
    {leak : Bool} {evs : List HookEvent} {p : StreamPhase}
    (h : StreamPhase.idle.follow leak evs = some p) :
    ∃ stat, mainHear w hooks evs (some statNew) = some (some stat) := by
  have hfollow : StreamPhase.idle.follow leak
      ((statInputs w.heard [] evs).filterMap StatInput.event) = some p := by
    rw [statInputs_event, h]
  obtain ⟨stat, hrun, _⟩ := (statShape_keeps leak).run w.clock (statInputs w.heard [] evs) 0
    (k := 0) (StatShape.idle statNew []) hfollow fun _ _ => trivial
  have hrun : statRun w.clock 0 (statInputs w.heard [] evs) statNew = some (stat, []) := hrun
  exact ⟨stat, by rw [mainHear, statDeliverRun_eq hhooks, hrun]; rfl⟩

/-- What is kept is the statistics of the events. -/
theorem mainHear_eq {hooks : HookTable}
    (hhooks : ∀ id, testRunHooks hooks id = some (statCalls w.statFn w.statAddr id))
    {evs : List HookEvent} {stat : TestStatistics}
    (h : mainHear w hooks evs (some statNew) = some (some stat)) :
    ∃ is msgs, is.filterMap StatInput.event = evs ∧
      statRun w.clock 0 is statNew = some (stat, msgs) := by
  rw [mainHear, statDeliverRun_eq hhooks, Option.map_eq_some_iff] at h
  obtain ⟨⟨stat', msgs⟩, hrun, heq⟩ := h
  obtain rfl : stat' = stat := Option.some.inj heq
  exact ⟨_, msgs, statInputs_event w.heard evs [], hrun⟩

/-! ## When the runner does what it is for -/

variable {context : Option TestContext} {opts : MainOptions} {st : RunState}

theorem mainOk_killed {st' : RunState}
    (h : allPassed (w.seen context opts st) (mainContext context opts) st.executed.length
      (st'.executed.drop st.executed.length) = false) :
    MainOk w context opts st ⟨.killed, [], st'⟩ := by
  refine ⟨fun f hf => ?_, fun call hcall => absurd hcall List.not_mem_nil, ?_⟩
  · cases hf
  · refine iff_of_false (fun hex => ?_) fun hall => ?_
    · cases hex
    · rw [h] at hall
      cases hall.2

theorem not_mainOk_fault {f : MainFault} {handled : List HandleCall} {st' : RunState} :
    ¬ MainOk w context opts st ⟨.fault f, handled, st'⟩ := fun h => h.noFault f rfl

theorem mainOk_returned {handled : List HandleCall} {st' : RunState} {res : Bool}
    (hhandled : ∀ call ∈ handled, ∃ is msgs,
      is.filterMap StatInput.event = st'.events.drop st.events.length ∧
        statRun w.clock 0 is statNew = some (call.stat, msgs)) :
    MainOk w context opts st ⟨.returned (exitStatus res), handled, st'⟩ ↔
      (exitStatus res = 0 ↔ Requested (mainContext context opts) opts ∧
        allPassed (w.seen context opts st) (mainContext context opts) st.executed.length
          (st'.executed.drop st.executed.length) = true) := by
  constructor
  · intro h
    have hstatus := h.status
    rwa [MainExit.returned.injEq] at hstatus
  · intro h
    refine ⟨fun f hf => ?_, hhandled, ?_⟩
    · cases hf
    · rwa [MainExit.returned.injEq]

/-- A run that a test ended is as promised, and meets the condition. -/
theorem SomeDies.kept {env : Env} {c : TestContext} {n : Nat} {ran : List TestCase}
    (hc : ContextWf c) (h : SomeDies env c n ran) (hp : ran <+: selectedTests c opts.runOp) :
    ReportKept env c opts n ∧ SuiteFound env c opts n :=
  ⟨Or.inr (Or.inr (h.mono hp)), suiteFound_of_failed hc (h.mono hp).allPassed⟩

/-- Some context was not switched to, and its test has not passed. -/
theorem not_ctxOk {env : Env} {c : TestContext} {n : Nat} {ts : List TestCase}
    (h : ¬ CtxOk env c n ts) : allPassed env c n ts = false := by
  unfold CtxOk at h
  push Not at h
  obtain ⟨i, hi, hctx⟩ := h
  refine allPassed_false (List.getElem?_eq_getElem hi) ?_
  rw [verdictOf, if_pos (by simpa using hctx)]
  decide

/-- Without statistics a report is a fault, unless the run was ended. -/
theorem mainRun_silent_ok_iff {c : TestContext} (hc : ContextWf (opts.setFlags c))
    (hw : st.leak.Counted) {report : Option ReportModule}
    (hreport : report = none ↔ opts.report = none)
    (hstart : report = none ∨ opts.statVerb = .none) :
    MainOk w (some c) opts st (mainRun w (some c) opts report (installHandler st)) ↔
      ReportKept (w.seen (some c) opts st) (opts.setFlags c) opts st.executed.length ∧
        SuiteFound (w.seen (some c) opts st) (opts.setFlags c) opts st.executed.length := by
  have hends : RunEnds (w.seen (some c) opts st) (opts.setFlags c) opts.runOp (installHandler st)
      (runOp w.env (opts.setFlags c) (installHandler st) opts.runOp) :=
    @runOp_ends w.env (opts.setFlags c) (installHandler st) hw opts.runOp
  have hctx : mainContext (some c) opts = opts.setFlags c := rfl
  rw [mainRun, mainStart_none hstart]
  simp only [Option.map_some, mainHear]
  generalize runOp w.env (opts.setFlags c) (installHandler st) opts.runOp = r at hends ⊢
  cases hends with
  | @killed st' ran hx hp hd =>
    have hx : st'.executed = st.executed ++ ran := hx
    refine iff_of_true (mainOk_killed ?_) (hd.kept hc hp)
    rw [hx, List.drop_left, hctx]
    exact hd.allPassed
  | @finished st' hx hlives _ =>
    have hx : st'.executed = st.executed ++ selectedTests (opts.setFlags c) opts.runOp := hx
    cases report with
    | none =>
      simp only [mainReport]
      rw [mainEnd_eq HookTable.init_holds, mainOk_returned (by simp), hx, List.drop_left, hctx]
      have hstatus := @status_iff (w.seen (some c) opts st) _ opts hc st.executed.length
      exact ⟨fun h => ⟨Or.inl (hreport.mp rfl), hstatus.mp h⟩, fun h => hstatus.mpr h.2⟩
    | some mod =>
      refine iff_of_false not_mainOk_fault ?_
      rintro ⟨hkept | hkept | hkept, _⟩
      · cases hreport.mpr hkept
      · exact hkept (hstart.resolve_left (Option.some_ne_none mod))
      · exact hlives hkept

/-- With statistics that hear the run, a report is of that run. -/
theorem mainRun_kept_ok_iff {c : TestContext} (hc : ContextWf (opts.setFlags c))
    (hw : st.leak.Counted) (mod : ReportModule) (hverb : opts.statVerb ≠ .none) :
    MainOk w (some c) opts st (mainRun w (some c) opts (some mod) (installHandler st)) ↔
      ReportKept (w.seen (some c) opts st) (opts.setFlags c) opts st.executed.length ∧
        SuiteFound (w.seen (some c) opts st) (opts.setFlags c) opts st.executed.length := by
  have hends : RunEnds (w.seen (some c) opts st) (opts.setFlags c) opts.runOp (installHandler st)
      (runOp w.env (opts.setFlags c) (installHandler st) opts.runOp) :=
    @runOp_ends w.env (opts.setFlags c) (installHandler st) hw opts.runOp
  have hctx : mainContext (some c) opts = opts.setFlags c := rfl
  have hevs : (installHandler st).events = st.events := rfl
  obtain ⟨hooks, es, hrun, ht, hhooks⟩ := @mainStart_some w opts mod hverb
  rw [mainRun, hrun]
  simp only [Option.map_some]
  generalize runOp w.env (opts.setFlags c) (installHandler st) opts.runOp = r at hends ⊢
  cases hends with
  | @killed st' ran hx hp hd =>
    have hx : st'.executed = st.executed ++ ran := hx
    have hkilled : MainOk w (some c) opts st ⟨.killed, [], st'⟩ := by
      refine mainOk_killed ?_
      rw [hx, List.drop_left, hctx]
      exact hd.allPassed
    cases hh : mainHear w hooks (st'.events.drop (installHandler st).events.length)
        (some statNew) with
    | none => exact iff_of_true hkilled (hd.kept hc hp)
    | some stat => exact iff_of_true hkilled (hd.kept hc hp)
  | @finished st' hx hlives hevents =>
    have hx : st'.executed = st.executed ++ selectedTests (opts.setFlags c) opts.runOp := hx
    have hkept : ReportKept (w.seen (some c) opts st) (opts.setFlags c) opts st.executed.length :=
      Or.inr (Or.inl hverb)
    cases hh : mainHear w hooks (st'.events.drop (installHandler st).events.length)
        (some statNew) with
    | none =>
      -- the statistics stop at a test without a context, which has not passed
      have hnot : ¬ CtxOk (w.seen (some c) opts st) (opts.setFlags c) st.executed.length
          (selectedTests (opts.setFlags c) opts.runOp) := by
        intro hok
        obtain ⟨stat, hstat⟩ := mainHear_some hhooks (hevents hok)
        rw [hstat] at hh
        cases hh
      have hfailed := not_ctxOk hnot
      refine iff_of_true (mainOk_killed ?_) ⟨hkept, suiteFound_of_failed hc hfailed⟩
      rw [hx, List.drop_left, hctx]
      exact hfailed
    | some stat =>
      obtain ⟨stat, rfl⟩ : ∃ stat', stat = some stat' := by
        rw [mainHear, Option.map_eq_some_iff] at hh
        obtain ⟨r, _, rfl⟩ := hh
        exact ⟨_, rfl⟩
      simp only
      rw [mainReport_some ht, mainOk_returned, hx, List.drop_left, hctx]
      · have hstatus := @status_iff (w.seen (some c) opts st) _ opts hc st.executed.length
        exact ⟨fun h => ⟨hkept, hstatus.mp h⟩, fun h => hstatus.mpr h.2⟩
      · intro call hcall
        rw [List.mem_singleton.mp hcall]
        exact mainHear_eq hhooks hh

/-- **The run of a context** is as promised exactly under the condition. -/
theorem mainRun_ok_iff {c : TestContext} (hc : ContextWf (opts.setFlags c)) (hw : st.leak.Counted)
    {report : Option ReportModule} (hreport : report = none ↔ opts.report = none) :
    MainOk w (some c) opts st (mainRun w (some c) opts report (installHandler st)) ↔
      ReportKept (w.seen (some c) opts st) (opts.setFlags c) opts st.executed.length ∧
        SuiteFound (w.seen (some c) opts st) (opts.setFlags c) opts st.executed.length := by
  by_cases hstart : report = none ∨ opts.statVerb = .none
  · exact mainRun_silent_ok_iff hc hw hreport hstart
  · obtain ⟨hne, hverb⟩ := not_or.mp hstart
    obtain ⟨mod, rfl⟩ := Option.ne_none_iff_exists'.mp hne
    exact mainRun_kept_ok_iff hc hw mod hverb

/-- The context that registrations build: none without a registration. -/
theorem tinuTestAddAll_spec {ops : List RegisterOp} :
    ∀ {context : Option TestContext}, tinuTestAddAll ops = .ok context →
      (context = none ↔ ops = []) ∧ ∀ c, context = some c → ContextWf c := by
  refine foldlM_ok_induct (motive := fun ops context =>
    (context = none ↔ ops = []) ∧ ∀ c, context = some c → ContextWf c)
    ⟨iff_of_true rfl rfl, fun c hc => nomatch hc⟩ ?_
  rintro ops op context0 context ⟨_, hctx⟩ hstep
  have hwf : ContextWf (context0.getD (testContextInit false false)) := by
    cases context0 with
    | none => exact contextInit_wf false false
    | some c0 => exact hctx c0 rfl
  unfold tinuTestAdd at hstep
  cases hr : (context0.getD (testContextInit false false)).register op with
  | error e =>
    rw [hr] at hstep
    cases hstep
  | ok c =>
    rw [hr] at hstep
    obtain rfl : some c = context := Except.ok.inj hstep
    refine ⟨by simp, fun c' hc' => ?_⟩
    obtain rfl : c = c' := Option.some.inj hc'
    exact (register_spec hwf hr).1

/-- No report is asked for, or its module is found and accepts the options. -/
theorem ValidSetting.report_cases {modules : List ReportModule}
    (hvalid : ValidSetting w modules opts) :
    opts.report = none ∨ ∃ name mod, opts.report = some name ∧
      tinuTestFindModule (reportModules w modules opts) name = some mod ∧
      mod.refuses opts = false := by
  cases hr : opts.report with
  | none => exact Or.inl rfl
  | some name =>
    obtain ⟨mod, hmem, hname⟩ := hvalid.registered name hr
    have hsome : (tinuTestFindModule (reportModules w modules opts) name).isSome := by
      rw [tinuTestFindModule, List.find?_isSome]
      exact ⟨mod, hmem, by simpa using hname⟩
    obtain ⟨mod', hmod'⟩ := Option.isSome_iff_exists.mp hsome
    exact Or.inr ⟨name, mod', rfl, hmod', hvalid.accepted name mod' hr hmod'⟩

/-- With a valid setting `tinu_main` gets to the run. -/
theorem tinuMain_valid {modules : List ReportModule} (hvalid : ValidSetting w modules opts) :
    ∃ report : Option ReportModule, (report = none ↔ opts.report = none) ∧
      tinuMain w modules context (some opts) st =
        mainRun w context opts report (installHandler st) := by
  have hfile : (opts.file.any fun name => ! w.fopen name "a") = false := by
    cases hf : opts.file with
    | none => rfl
    | some name =>
      rw [Option.any_some, hvalid.file name hf]
      rfl
  have hcase : ¬ (opts.testCase.isSome ∧ opts.suite.isNone) := by
    rintro ⟨hsome, hnone⟩
    have hsuite := hvalid.testCase hsome
    rw [Option.isNone_iff_eq_none] at hnone
    rw [hnone] at hsuite
    cases hsuite
  rcases hvalid.report_cases with hr | ⟨name, mod, hr, hfind, hrefuses⟩
  · refine ⟨none, by simp [hr], ?_⟩
    simp only [tinuMain, hvalid.version, hr, Option.bind_none, Option.isSome_none, Option.any_none,
      Bool.false_eq_true, false_and, if_false, hfile, if_neg hcase]
  · refine ⟨some mod, by simp [hr], ?_⟩
    simp only [tinuMain, hvalid.version, hr, Option.bind_some, hfind, Option.any_some, hrefuses,
      Option.isNone_some, Bool.false_eq_true, and_false, if_false, hfile, if_neg hcase]

/-- **`tinu_main` does what it is for exactly when** a test is registered, no report is made of
statistics that were not kept, and no other suite passes in place of the one asked for. -/
theorem main_ok_iff {modules : List ReportModule} {ops : List RegisterOp}
    (hreg : tinuTestAddAll ops = .ok context) (hvalid : ValidSetting w modules opts)
    (hw : st.leak.Counted) :
    MainOk w context opts st (tinuMain w modules context (some opts) st) ↔
      ops ≠ [] ∧
        ReportKept (w.seen context opts st) (mainContext context opts) opts st.executed.length ∧
        SuiteFound (w.seen context opts st) (mainContext context opts) opts st.executed.length := by
  obtain ⟨hnone, hwf⟩ := tinuTestAddAll_spec hreg
  obtain ⟨report, hreport, hrun⟩ := @tinuMain_valid w context opts st modules hvalid
  rw [hrun]
  cases context with
  | none =>
    refine iff_of_false ?_ fun h => h.1 (hnone.mp rfl)
    obtain ⟨p, hstart⟩ := mainStart_total w opts report
    rw [mainRun, hstart]
    exact not_mainOk_fault
  | some c =>
    have hne : ops ≠ [] := fun h => Option.some_ne_none c (hnone.mpr h)
    have hc := hwf c rfl
    rw [mainRun_ok_iff ⟨hc.names, hc.addrs, hc.suites⟩ hw hreport]
    exact ⟨fun h => ⟨hne, h⟩, fun h => h.2⟩

/-- Tests do nothing, every file can be opened, and nothing is logged. -/
def MainWorld.quiet : MainWorld where
  env := Env.idle
  fopen _ _ := true
  statFn callback := match callback with
    | .assert => 11
    | .caseBegin => 12
    | .caseEnd => 13
    | .suiteBegin => 14
    | .suiteEnd => 15
    | .leakwatch => 16
  statAddr := 5
  clock k := k
  heard _ := []
  statFn_inj := by
    intro a b h
    cases a <;> cases b <;> first | rfl | cases h

/-- The default settings, with a verbosity, are valid. -/
theorem quiet_valid (verbosity : StatisticsVerbosity) :
    ValidSetting MainWorld.quiet [] { statVerb := verbosity } := by
  refine ⟨rfl, ?_, ?_, fun name h => (by cases h), fun h => (by cases h)⟩
  · intro name h
    obtain rfl := Option.some.inj h
    exact ⟨gReportPrintModule, List.mem_cons_self, rfl⟩
  · intro name mod h hmod
    obtain rfl := Option.some.inj h
    obtain rfl : gReportPrintModule = mod := Option.some.inj hmod
    rfl

theorem main_ok_iff_default :
    MainOk MainWorld.quiet (some (pairContext false false)) {} RunState.start
      (tinuMain MainWorld.quiet [] (some (pairContext false false)) (some {}) RunState.start) :=
  (@main_ok_iff MainWorld.quiet (some (pairContext false false)) {} RunState.start [] pairOps rfl
    (quiet_valid .summary) rfl).mpr
    ⟨by decide, Or.inr (Or.inl (by decide)), fun _ h => by cases h⟩

/-- A report without verbosity is made of statistics that do not exist, after the tests ran. -/
theorem silent_report_faults :
    ¬ ∀ (w : MainWorld) (modules : List ReportModule) (ops : List RegisterOp)
        (context : Option TestContext) (opts : MainOptions) (st : RunState),
      tinuTestAddAll ops = .ok context → ValidSetting w modules opts → st.leak.Counted →
        MainOk w context opts st (tinuMain w modules context (some opts) st) := by
  intro h
  have hok := h MainWorld.quiet [] pairOps (some (pairContext false false)) { statVerb := .none }
    RunState.start rfl (quiet_valid .none) rfl
  exact hok.noFault .missingStat (by decide)

/-- The first test does the steps, and the others nothing. -/
def MainWorld.doing (steps : List Step) : MainWorld :=
  { MainWorld.quiet with env := { Env.idle with exec := fun n _ => if n = 0 then steps else [] } }

/-- Without signal handling a test survives its first SIGSEGV, and the missing statistics are
stopped; it does not survive the second. -/
example :
    (tinuMain (.doing [.raise .segv]) [] (some (pairContext false false))
      (some { statVerb := .none, sighandle := false }) RunState.start).exit = .fault .missingStat ∧
    (tinuMain (.doing [.raise .segv, .raise .segv]) [] (some (pairContext false false))
      (some { statVerb := .none, sighandle := false }) RunState.start).exit = .killed := by decide

example : (tinuMain MainWorld.quiet [] none (some {}) RunState.start).exit =
    .fault .uninitContext := by decide

example : (tinuMain MainWorld.quiet [] (some (pairContext false false))
    (some { suite := some "t", report := none }) RunState.start).exit = .returned 0 := by decide

end Tinu
