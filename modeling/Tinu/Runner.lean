import Tinu.Leakwatch
import Tinu.Registry

/-!
# Running tests (`test.c`)

What the functions of a test do is given by an `Env`: for the `n`-th test that is run and each call
of one of its functions, the steps that call takes.  Hook callbacks observe: running a hook adds
an event to the stream, and may use the allocator.  A run that yields no result is one that
ended the process.  A fault is met again when its handler returns: it is two signals in a row.
-/

set_option autoImplicit false

namespace Tinu

/-- `TestCaseResult`. -/
inductive TestCaseResult where
  | none
  | passed
  | failed
  | abort
  | segfault
  | internal
  deriving DecidableEq, Repr

/-- A call of `_test_run_hooks`, with its arguments. -/
inductive HookEvent where
  | assert (condition : Bool) (file func : CString) (line : Int)
  | signalAbort
  | signalSegfault
  | beforeTest (test : TestCase)
  | afterTest (test : TestCase) (result : TestCaseResult)
  | beforeSuite (suite : TestSuite)
  | afterSuite (suite : TestSuite) (result : Bool)
  | leakInfo (test : TestCase) (bytes : Nat)
  deriving DecidableEq, Repr

/-- The signals that the runner handles. -/
inductive Signal where
  | abrt
  | segv
  deriving DecidableEq, Repr

/-- What is installed for a signal: `_signal_handler`; `_tinu_signal_handler` of `main.c`; or
something else, from which there is no return. -/
inductive Disposition where
  | runner
  | main
  | other (handler : FnPtr)
  deriving DecidableEq, Repr

def SIG_DFL : FnPtr := 0

/-- The dispositions, and `g_sigsegv_handler` and `g_sigabrt_handler`. -/
structure SignalState where
  segv : Disposition
  abrt : Disposition
  savedSegv : Disposition
  savedAbrt : Disposition
  deriving DecidableEq, Repr

/-! ## The functions of a test -/

inductive Phase where
  | setup
  | body
  | cleanup
  deriving DecidableEq, Repr

/-- A function of the caller that runs in a phase: with the test, whose user data it can read;
through a wrapper; or whatever a wrapper finds where there is no `TestSimplifiedFunctions`. -/
inductive CallTarget where
  | extended (fn : FnPtr) (userData : UserData)
  | simple (fn : FnPtr)
  | wild (ptr : Ptr)
  deriving DecidableEq, Repr

/-- A call of a function of the caller; `ctx` is the context pointer it is given. -/
structure UserCall where
  phase : Phase
  target : CallTarget
  ctx : Ptr
  deriving DecidableEq, Repr

/-- `m_setup`, `m_test` or `m_cleanup`. -/
def TestCase.fn (test : TestCase) : Phase → Option TestFn
  | .setup => test.setup
  | .body => test.test
  | .cleanup => test.cleanup

def TestSimplifiedFunctions.fn (func : TestSimplifiedFunctions) : Phase → Option FnPtr
  | .setup => func.setup
  | .body => func.function
  | .cleanup => func.cleanup

/-- `_test_setup_wrapper`, `_test_func_wrapper` and `_test_cleanup_wrapper`: the function called. -/
def testWrapper (phase : Phase) : UserData → Option CallTarget
  | .simplified func => (func.fn phase).map .simple
  | .data ptr => some (.wild ptr)

/-- The function of the caller that a phase of a test calls. -/
def TestCase.target (test : TestCase) (phase : Phase) : Option CallTarget :=
  match test.fn phase with
  | none => none
  | some (.user fn) => some (.extended fn test.userData)
  | some .wrapper => testWrapper phase test.userData

/-- What a function of a test does. -/
inductive Step where
  | assert (a : Assertion)
  | alloc (c : AllocCall)
  | raise (sig : Signal)
  deriving DecidableEq, Repr

/-- The call that fails when a context cannot be switched. -/
inductive CtxFailure where
  | getcontext
  | swapcontext
  deriving DecidableEq, Repr

/-- The world around the runner; the first argument of its functions is the number of tests run
before. -/
structure Env where
  exec : Nat → UserCall → List Step
  setupReturn : Nat → UserCall → Ptr
  ctxFails : Nat → Option CtxFailure
  errnoTag : Nat → MessageTag
  traceTag : List LogEntry → MessageTag
  watchAddr : Nat → Ptr
  tableAddr : Nat → Ptr
  stackAddr : Nat → Ptr
  stackSize : Nat
  hookAllocs : List HookEvent → List AllocCall
  logAllocs : List LogEntry → List AllocCall
  handlerTrace : Nat → List LogEntry
  traceLines : Int → TraceId → List LogEntry
  stackAddr_ne : ∀ n, stackAddr n ≠ NULL
  stackSize_pos : 0 < stackSize
  stackSize_lt : stackSize < gsizeRange

/-- The globals of `test.c`, and what has happened so far. -/
structure RunState where
  result : TestCaseResult
  signals : SignalState
  leak : LeakwatchState
  executed : List TestCase
  calls : List UserCall
  events : List HookEvent
  log : List LogEntry

/-- No test was run yet. -/
def RunState.start : RunState :=
  ⟨.none, ⟨.other NULL, .other NULL, .other NULL, .other NULL⟩, LeakwatchState.start, [], [], [], []⟩

/-- Functions of tests do nothing, and no system call fails. -/
def Env.idle : Env where
  exec _ _ := []
  setupReturn _ _ := NULL
  ctxFails _ := none
  errnoTag _ := ⟨"errno", "0"⟩
  traceTag _ := ⟨"trace", ""⟩
  watchAddr _ := 1
  tableAddr _ := 2
  stackAddr _ := 3
  stackSize := 256 * 1024
  hookAllocs _ := []
  logAllocs _ := []
  handlerTrace _ := []
  traceLines _ _ := []
  stackAddr_ne _ := by decide
  stackSize_pos := by decide
  stackSize_lt := by decide

/-! ## Hooks and messages -/

def RunState.allocs (st : RunState) (cs : List AllocCall) : RunState :=
  { st with leak := cs.foldl LeakwatchState.alloc st.leak }

/-- `_test_run_hooks`, as seen from the runner. -/
def runHooks (env : Env) (st : RunState) (e : HookEvent) : RunState :=
  RunState.allocs { st with events := st.events ++ [e] } (env.hookAllocs (st.events ++ [e]))

/-- A message is emitted. -/
def emitLog (env : Env) (st : RunState) (m : LogEntry) : RunState :=
  RunState.allocs { st with log := st.log ++ [m] } (env.logAllocs (st.log ++ [m]))

/-- `tinu_test_assert`. -/
def tinuTestAssert (env : Env) (st : RunState) (a : Assertion) : RunState :=
  let st := runHooks env st (.assert a.condition a.file a.func a.line)
  let st := if ¬ a.condition then { st with result := .failed } else st
  emitLog env st (.testAssert a)

/-! ## Signals -/

def SignalState.disposition (s : SignalState) : Signal → Disposition
  | .segv => s.segv
  | .abrt => s.abrt

/-- `_signal_on`. -/
def signalOn (st : RunState) : RunState :=
  { st with signals := ⟨.runner, .runner, st.signals.segv, st.signals.abrt⟩ }

/-- `_signal_off`. -/
def signalOff (st : RunState) : RunState :=
  { st with signals :=
      { st.signals with segv := st.signals.savedSegv, abrt := st.signals.savedAbrt } }

def Signal.number : Signal → Int
  | .abrt => 6
  | .segv => 11

def Signal.event : Signal → HookEvent
  | .abrt => .signalAbort
  | .segv => .signalSegfault

def Signal.result : Signal → TestCaseResult
  | .abrt => .abort
  | .segv => .segfault

def signalMessage (test : TestCase) (signo : Signal) : LogEntry :=
  .wrap LOG_ERR "Signal received while running a test"
    [msgTagInt "signal" signo.number, msgTagStr "suite" test.suite.name, msgTagStr "test" test.name]

/-- `_signal_handler`, up to its `setcontext`; `test` is `g_test_case_current`. -/
def signalHandler (env : Env) (n : Nat) (test : TestCase) (st : RunState) (signo : Signal) :
    RunState :=
  let st := emitLog env st (signalMessage test signo)
  let st := (env.handlerTrace n).foldl (emitLog env) st
  let st := runHooks env st signo.event
  { st with result := signo.result }

/-- `_tinu_signal_handler`, which returns. -/
def tinuSignalHandler (env : Env) (st : RunState) : RunState :=
  let st := emitLog env st (.wrap LOG_ERR "Segmentation fault" [env.traceTag st.log])
  { st with signals := { st.signals with segv := .other SIG_DFL } }

/-- A signal that does not come back to the test: whether it was the runner that handled it, and the
state after. -/
def deliver (env : Env) (n : Nat) (test : TestCase) (st : RunState) (signo : Signal) :
    Bool × RunState :=
  match st.signals.disposition signo with
  | .runner => (true, signalHandler env n test st signo)
  | _ => (false, st)

/-! ## One test -/

/-- The steps of one call, up to a signal whose handler does not return. -/
def runSteps (env : Env) : List Step → RunState → Option Signal × RunState
  | [], st => (none, st)
  | .assert a :: steps, st => runSteps env steps (tinuTestAssert env st a)
  | .alloc c :: steps, st => runSteps env steps (st.allocs [c])
  | .raise .segv :: steps, st =>
    if st.signals.segv = .main then runSteps env steps (tinuSignalHandler env st)
    else (some .segv, st)
  -- `abort` ends the process even if a handler returns
  | .raise .abrt :: _, st => (some .abrt, st)

/-- The functions of a test one after the other, up to a signal. -/
def runChain (env : Env) (n : Nat) : List UserCall → RunState → Option Signal × RunState
  | [], st => (none, st)
  | call :: calls, st =>
    match runSteps env (env.exec n call) { st with calls := st.calls ++ [call] } with
    | (some sig, st) => (some sig, st)
    | (none, st) => runChain env n calls st

def TestCase.call (test : TestCase) (phase : Phase) (ctx : Ptr) : Option UserCall :=
  (test.target phase).map fun target => ⟨phase, target, ctx⟩

/-- The calls that `_test_case_run_intern` makes: the setup, and with the context it returns the
test and the cleanup. -/
def chainCalls (env : Env) (n : Nat) (test : TestCase) : List UserCall :=
  let setup := test.call .setup NULL
  let ctx := (setup.map (env.setupReturn n)).getD NULL
  setup.toList ++ (test.call .body ctx).toList ++ (test.call .cleanup ctx).toList

/-- `_test_case_run_intern`, up to a signal. -/
def testCaseRunIntern (env : Env) (n : Nat) (test : TestCase) (st : RunState) :
    Option Signal × RunState :=
  let st := runHooks env st (.beforeTest test)
  match runChain env n (chainCalls env n test) st with
  | (some sig, st) => (some sig, st)
  | (none, st) => (none, if st.result = .none then { st with result := .passed } else st)

/-- `g_free(stack)`. -/
def freeStack (env : Env) (n : Nat) (st : RunState) : RunState :=
  st.allocs [.free (env.stackAddr n)]

def contextMessage (errno : MessageTag) : CtxFailure → LogEntry
  | .getcontext => .wrap LOG_ERR "Cannot get main context" [errno]
  | .swapcontext => .wrap LOG_ERR "Cannot change context" [errno]

/-- A `swapcontext` that succeeds, up to `_signal_off`: whether the process lives, and the state
after. -/
def runInContext (env : Env) (n : Nat) (test : TestCase) (st : RunState) : Bool × RunState :=
  match testCaseRunIntern env n test st with
  | (none, st) => (true, signalOff (freeStack env n st))
  | (some signo, st) =>
    match deliver env n test st signo with
    | (true, st) => (true, signalOff (freeStack env n st))
    | (false, st) => (false, st)

/-- The branch of `_test_case_run_single_test` with `m_sighandle` set.  On a failure the stack is
not freed and the signals are not restored. -/
def runSwitched (env : Env) (n : Nat) (test : TestCase) (st : RunState) : Bool × RunState :=
  match env.ctxFails n with
  | some f =>
    let st := emitLog env (signalOn st) (contextMessage (env.errnoTag n) f)
    (true, { st with result := .internal })
  | none => runInContext env n test (signalOn st)

/-- The other branch; no context is there for `_signal_handler` to go back to. -/
def runDirect (env : Env) (n : Nat) (test : TestCase) (st : RunState) : Bool × RunState :=
  match testCaseRunIntern env n test st with
  | (none, st) => (true, st)
  | (some signo, st) => (false, (deliver env n test st signo).2)

/-- The message of the `switch` of `_test_case_run_single_test`; there is none for the branch
with `g_assert_not_reached`. -/
def verdictMessage (test : TestCase) (result : TestCaseResult) : Option LogEntry :=
  let tags := [msgTagStr "case" test.name, msgTagStr "suite" test.suite.name]
  match result with
  | .passed => some (.wrap LOG_NOTICE "Test case run successfull" tags)
  | .failed => some (.wrap LOG_WARNING "Test case run failed" tags)
  | .abort => some (.wrap LOG_ERR "Test case run failed abruptly" tags)
  | .segfault => some (.wrap LOG_ERR "Test case run produced a segmentation fault" tags)
  | .internal => some (.wrap LOG_CRIT "Test case run failed due to an internal error" tags)
  | .none => none

/-- The leaks of a test that passed are dumped. -/
def dumpLeaks (env : Env) (table : MemoryTable) (st : RunState) : RunState :=
  if st.result = .passed then
    (tinuLeakwatchSimpleDump (env.traceLines LOG_WARNING) table LOG_WARNING).foldl (emitLog env) st
  else st

/-- The part of `_test_case_run_single_test` under `if (leak_handler)`. -/
def reportLeaks (env : Env) (n : Nat) (test : TestCase) (st : RunState) : Option RunState :=
  match tinuUnregisterWatch st.leak (env.watchAddr n) with
  | none => none
  | some (_, leak, msgs) =>
    let st := msgs.foldl (emitLog env) { st with leak := leak }
    let table := st.leak.tables (env.tableAddr n)
    let st := runHooks env st (.leakInfo test (tinuLeakwatchSummary table))
    let st := dumpLeaks env table st
    some { st with leak := st.leak.destroyTable (env.tableAddr n) }

/-- `_test_case_run_single_test` from `test_case_run_done`. -/
def testCaseRunDone (env : Env) (self : TestContext) (n : Nat) (test : TestCase) (st : RunState) :
    Option TestCaseResult × RunState :=
  match verdictMessage test st.result with
  | none => (none, st)
  | some m =>
    let st := emitLog env st m
    match if self.leakwatch then reportLeaks env n test st else some st with
    | none => (none, st)
    | some st =>
      let st := runHooks env st (.afterTest test st.result)
      (some st.result, st)

/-- `_test_case_run_single_test`, up to the `if (self->m_sighandle)`. -/
def testCaseRunStart (env : Env) (self : TestContext) (n : Nat) (test : TestCase) (st : RunState) :
    RunState :=
  let st := { st with executed := st.executed ++ [test] }
  let st :=
    if self.leakwatch then
      { st with leak := tinuLeakwatchSimple st.leak (env.watchAddr n) (env.tableAddr n) }
    else st
  let st := st.allocs [.malloc env.stackSize (env.stackAddr n)]
  { st with result := .none }

/-- `_test_case_run_single_test`. -/
def testCaseRunSingleTest (env : Env) (self : TestContext) (test : TestCase) (st : RunState) :
    Option TestCaseResult × RunState :=
  let n := st.executed.length
  let st := testCaseRunStart env self n test st
  match if self.sighandle then runSwitched env n test st else runDirect env n test st with
  | (false, st) => (none, st)
  | (true, st) => testCaseRunDone env self n test st

/-! ## Suites and selections -/

/-- The tests of `_test_suite_run`, one after the other. -/
def suiteLoop (env : Env) (self : TestContext) :
    List TestCase → Bool → RunState → Option Bool × RunState
  | [], res, st => (some res, st)
  | test :: tests, res, st =>
    match testCaseRunSingleTest env self test st with
    | (none, st) => (none, st)
    | (some r, st) => suiteLoop env self tests (res && r == .passed) st

def suiteMessage (suite : TestSuite) (res : Bool) : LogEntry :=
  .format (if res then LOG_DEBUG else LOG_WARNING) "Test suite run complete"
    [msgTagStr "suite" suite.name, msgTagBool "result" res]

/-- `_test_suite_run`, for the tests that it runs. -/
def suiteRunTests (env : Env) (self : TestContext) (suite : TestSuite) (tests : List TestCase)
    (st : RunState) : Option Bool × RunState :=
  let st := runHooks env st (.beforeSuite suite)
  match suiteLoop env self tests true st with
  | (none, st) => (none, st)
  | (some res, st) =>
    let st := emitLog env st (suiteMessage suite res)
    (some res, runHooks env st (.afterSuite suite res))

/-- `_test_suite_run`. -/
def testSuiteRun (env : Env) (self : TestContext) (suite : TestSuite) (test : Option TestCase)
    (st : RunState) : Option Bool × RunState :=
  suiteRunTests env self suite (match test with | some test => [test] | none => suite.tests) st

/-- The loop of `tinu_test_all_run`. -/
def allLoop (env : Env) (self : TestContext) :
    List TestSuite → Bool → RunState → Option Bool × RunState
  | [], res, st => (some res, st)
  | suite :: suites, res, st =>
    match testSuiteRun env self suite none st with
    | (none, st) => (none, st)
    | (some suiteRes, st) => allLoop env self suites (res && suiteRes) st

/-- `tinu_test_all_run`. -/
def tinuTestAllRun (env : Env) (self : TestContext) (st : RunState) : Option Bool × RunState :=
  allLoop env self self.suites true st

/-- `tinu_test_suite_run`. -/
def tinuTestSuiteRun (env : Env) (self : TestContext) (suiteName : CString) (st : RunState) :
    Option Bool × RunState :=
  match (testSuiteLookup self suiteName false).1 with
  | none =>
    (some false, emitLog env st (.wrap LOG_ERR "Suite does not exist" [msgTagStr "suite" suiteName]))
  | some suite => testSuiteRun env self suite none st

/-- `tinu_test_case_run`. -/
def tinuTestCaseRun (env : Env) (self : TestContext) (suiteName testName : CString)
    (st : RunState) : Option Bool × RunState :=
  match (testSuiteLookup self suiteName false).1 with
  | none =>
    (some false, emitLog env st (.wrap LOG_ERR "Suite does not exist" [msgTagStr "suite" suiteName]))
  | some suite =>
    match testLookupCase suite testName with
    | none =>
      (some false, emitLog env st (.wrap LOG_ERR "Test does not exist in suite"
        [msgTagStr "suite" suiteName, msgTagStr "case" testName]))
    | some test => testSuiteRun env self suite (some test) st

/-- A call that runs tests. -/
inductive RunOp where
  | all
  | suite (suite : CString)
  | case (suite test : CString)
  deriving DecidableEq, Repr

def runOp (env : Env) (self : TestContext) (st : RunState) : RunOp → Option Bool × RunState
  | .all => tinuTestAllRun env self st
  | .suite suite => tinuTestSuiteRun env self suite st
  | .case suite test => tinuTestCaseRun env self suite test st

/-- Calls one after the other, with what they return, as long as the process lives. -/
def runOps (env : Env) (self : TestContext) :
    List RunOp → RunState → Option (List Bool) × RunState
  | [], st => (some [], st)
  | op :: ops, st =>
    match runOp env self st op with
    | (none, st) => (none, st)
    | (some res, st) =>
      let r := runOps env self ops st
      (r.1.map fun rs => res :: rs, r.2)

end Tinu
