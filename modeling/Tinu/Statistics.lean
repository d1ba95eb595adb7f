import Tinu.HookProtocol
import Tinu.HookModel

/-!
# Test statistics (`statistics.c`)

`m_suite_current` and `m_test_current` point to the element that was appended last when they were
set, and appending sets them anew: they are indices here.  A hook that goes through a pointer
that is not set ends the process, and so has no result.

* `statStart_delivers` — once started, every event reaches its callback;
* `StatKeeps.run` — what each event and each message keeps holds after every stream of events
  that keeps to the protocol, however messages come between.
-/

set_option autoImplicit false

namespace Tinu

/-! ## The data -/

/-- `struct _StatTestInfo`; times are `clock_t`. -/
structure StatTestInfo where
  test : TestCase
  result : TestCaseResult
  start : Int
  stop : Int
  assertions : Nat
  assertionsPassed : Nat
  leakedBytes : Nat
  deriving DecidableEq, Repr

/-- `struct _StatSuiteInfo`. -/
structure StatSuiteInfo where
  suite : TestSuite
  result : Bool
  start : Int
  stop : Int
  assertions : Nat
  assertionsPassed : Nat
  tests : List StatTestInfo
  deriving DecidableEq, Repr

/-- `struct _TestStatistics`; the test is given by its suite and its place in that. -/
structure TestStatistics where
  testCurrent : Option (Nat × Nat)
  suiteCurrent : Option Nat
  messages : Fin 8 → Nat
  sigsegv : Nat
  passed : Nat
  failed : Nat
  suites : List StatSuiteInfo

/-- `stat_new`. -/
def statNew : TestStatistics := ⟨none, none, fun _ => 0, 0, 0, 0, []⟩

/-- `*m_suite_current`. -/
def TestStatistics.suite? (self : TestStatistics) : Option StatSuiteInfo :=
  self.suiteCurrent.bind fun i => self.suites[i]?

/-- `*m_test_current`. -/
def TestStatistics.test? (self : TestStatistics) : Option StatTestInfo :=
  self.testCurrent.bind fun p => self.suites[p.1]?.bind fun s => s.tests[p.2]?

/-- A write through `m_suite_current`. -/
def TestStatistics.onSuite (self : TestStatistics) (f : StatSuiteInfo → StatSuiteInfo) :
    Option TestStatistics :=
  match self.suiteCurrent with
  | none => none
  | some i => some { self with suites := self.suites.modify i f }

/-- A write through `m_test_current`. -/
def TestStatistics.onTest (self : TestStatistics) (f : StatTestInfo → StatTestInfo) :
    Option TestStatistics :=
  match self.testCurrent with
  | none => none
  | some (i, j) => some { self with
      suites := self.suites.modify i fun s => { s with tests := s.tests.modify j f } }

/-! ## The functions of `statistics.c` -/

/-- `_stat_message_counter`, with the priority of the message: one from `LOG_EMERG` to `LOG_DEBUG`. -/
def statMessageCounter (self : TestStatistics) (priority : Fin 8) : TestStatistics :=
  { self with
    messages := Function.update self.messages priority (guintIncr (self.messages priority)) }

/-- `_stat_hook_assert`. -/
def statHookAssert (self : TestStatistics) (condition : Bool) : Option TestStatistics := do
  let self ←
    if condition then do
      let self ← self.onSuite fun s => { s with assertionsPassed := guintIncr s.assertionsPassed }
      self.onTest fun t => { t with assertionsPassed := guintIncr t.assertionsPassed }
    else some self
  let self ← self.onSuite fun s => { s with assertions := guintIncr s.assertions }
  self.onTest fun t => { t with assertions := guintIncr t.assertions }

/-- `_stat_hook_case_begin`. -/
def statHookCaseBegin (now : Int) (self : TestStatistics) (test : TestCase) :
    Option TestStatistics := do
  let i ← self.suiteCurrent
  let suite ← self.suite?
  -- `memset` leaves `m_result` at 0, and that is `TEST_PASSED`
  let self ← self.onSuite fun s =>
    { s with tests := s.tests ++ [⟨test, .passed, now, 0, 0, 0, 0⟩] }
  some { self with testCurrent := some (i, suite.tests.length) }

def duplicateTestMessage (suite : StatSuiteInfo) (test : StatTestInfo) : LogEntry :=
  .wrap LOG_ERR "Duplicate test case in test statistics"
    [msgTagStr "suite" suite.suite.name, msgTagStr "testcase" test.test.name]

def duplicateSuiteMessage (suite : StatSuiteInfo) : LogEntry :=
  .wrap LOG_ERR "Duplicate suite in test statistics" [msgTagStr "suite" suite.suite.name]

/-- The `switch` of `_stat_hook_case_end`. -/
def TestStatistics.countVerdict (self : TestStatistics) : TestCaseResult → Option TestStatistics
  | .passed => some { self with passed := guintIncr self.passed }
  | .abort => some { self with failed := guintIncr self.failed }
  | .internal => some { self with failed := guintIncr self.failed }
  | .failed => some { self with failed := guintIncr self.failed }
  | .segfault =>
    some { self with sigsegv := guintIncr self.sigsegv, failed := guintIncr self.failed }
  | .none => none

/-- `_stat_hook_case_end`, with the messages it logs. -/
def statHookCaseEnd (now : Int) (self : TestStatistics) (test : TestCase)
    (result : TestCaseResult) : Option (TestStatistics × List LogEntry) := do
  let current ← self.test?
  if current.test ≠ test then
    let suite ← self.suite?
    some (self, [duplicateTestMessage suite current])
  else
    let self ← self.onTest fun t => { t with stop := now, result := result }
    let self ← self.countVerdict result
    some ({ self with testCurrent := none }, [])

/-- `_stat_hook_suite_begin`. -/
def statHookSuiteBegin (now : Int) (self : TestStatistics) (suite : TestSuite) : TestStatistics :=
  { self with
    suites := self.suites ++ [⟨suite, false, now, 0, 0, 0, []⟩]
    suiteCurrent := some self.suites.length }

/-- `_stat_hook_suite_end`, with the messages it logs. -/
def statHookSuiteEnd (now : Int) (self : TestStatistics) (suite : TestSuite) (result : Bool) :
    Option (TestStatistics × List LogEntry) := do
  let current ← self.suite?
  if current.suite ≠ suite then some (self, [duplicateSuiteMessage current])
  else
    let self ← self.onSuite fun s => { s with stop := now, result := result }
    some ({ self with suiteCurrent := none }, [])

/-- `_stat_hook_leakwatch`, with the messages it logs. -/
def statHookLeakwatch (self : TestStatistics) (test : TestCase) (bytes : Nat) :
    Option (TestStatistics × List LogEntry) := do
  let current ← self.test?
  if current.test ≠ test then
    let suite ← self.suite?
    some (self, [duplicateTestMessage suite current])
  else
    let self ← self.onTest fun t => { t with leakedBytes := bytes }
    some (self, [])

/-- The callbacks of the module. -/
inductive StatCallback where
  | assert
  | caseBegin
  | caseEnd
  | suiteBegin
  | suiteEnd
  | leakwatch
  deriving DecidableEq, Repr

/-- `g_stat_hooks`. -/
def gStatHooks : TestHookID → Option StatCallback
  | .assert => some .assert
  | .signalAbort => none
  | .signalSegfault => none
  | .beforeTest => some .caseBegin
  | .afterTest => some .caseEnd
  | .beforeSuite => some .suiteBegin
  | .afterSuite => some .suiteEnd
  | .leakInfo => some .leakwatch

def HookEvent.id : HookEvent → TestHookID
  | .assert _ _ _ _ => .assert
  | .signalAbort => .signalAbort
  | .signalSegfault => .signalSegfault
  | .beforeTest _ => .beforeTest
  | .afterTest _ _ => .afterTest
  | .beforeSuite _ => .beforeSuite
  | .afterSuite _ _ => .afterSuite
  | .leakInfo _ _ => .leakInfo

/-- A callback, with the arguments of an event; there is no result if it reads others. -/
def StatCallback.run (now : Int) (self : TestStatistics) :
    StatCallback → HookEvent → Option (TestStatistics × List LogEntry)
  | .assert, .assert condition _ _ _ => (statHookAssert self condition).map (·, [])
  | .caseBegin, .beforeTest test => (statHookCaseBegin now self test).map (·, [])
  | .caseEnd, .afterTest test result => statHookCaseEnd now self test result
  | .suiteBegin, .beforeSuite suite => some (statHookSuiteBegin now self suite, [])
  | .suiteEnd, .afterSuite suite result => statHookSuiteEnd now self suite result
  | .leakwatch, .leakInfo test bytes => statHookLeakwatch self test bytes
  | _, _ => none

/-- What an event does to the statistics, with the messages it logs. -/
def statHook (now : Int) (self : TestStatistics) (e : HookEvent) :
    Option (TestStatistics × List LogEntry) :=
  match gStatHooks e.id with
  | none => some (self, [])
  | some callback => callback.run now self e

/-- The registrations of `stat_start`; `fn` is where the callbacks are. -/
def statStart (fn : StatCallback → FnPtr) (self : Ptr) (hooks : HookTable) : Option HookTable :=
  testRegisterMultipleHooks hooks (fun id => (gStatHooks id).map fn) self

/-- Those of `stat_stop`. -/
def statStop (fn : StatCallback → FnPtr) (self : Ptr) (hooks : HookTable) : Option HookTable :=
  testUnregisterMultipleHooks hooks (fun id => (gStatHooks id).map fn) self

/-- What the statistics are told: an event, or a message of a priority. -/
inductive StatInput where
  | hook (e : HookEvent)
  | message (priority : Fin 8)
  deriving DecidableEq, Repr

def StatInput.event : StatInput → Option HookEvent
  | .hook e => some e
  | .message _ => none

def statStep (now : Int) (self : TestStatistics) :
    StatInput → Option (TestStatistics × List LogEntry)
  | .hook e => statHook now self e
  | .message priority => some (statMessageCounter self priority, [])

/-- The inputs one after the other, the first of them at `clock k`; the messages are those of the
error branches. -/
def statRun (clock : Nat → Int) :
    Nat → List StatInput → TestStatistics → Option (TestStatistics × List LogEntry)
  | _, [], self => some (self, [])
  | k, i :: is, self => do
    let (self, msgs) ← statStep (clock k) self i
    let (self, msgs') ← statRun clock (k + 1) is self
    some (self, msgs ++ msgs')

/-! ## Starting and stopping -/

/-- The call that an event leads to once the statistics at `self` were started. -/
def statCalls (fn : StatCallback → FnPtr) (self : Ptr) (id : TestHookID) : List (FnPtr × Ptr) :=
  ((gStatHooks id).map fun callback => (fn callback, self)).toList

/-- **Once started, every event leads to its callback**, after those registered before. -/
theorem statStart_delivers (fn : StatCallback → FnPtr) (self : Ptr) {hooks : HookTable}
    {es : TestHookID → List TestHookEntry} (ht : hooks.Holds es) :
    ∃ hooks', statStart fn self hooks = some hooks' ∧
      ∀ id, testRunHooks hooks' id = some (hookCalls (es id) ++ statCalls fn self id) := by
  obtain ⟨hooks', hstep, ht'⟩ :=
    step_holds ht (.registerMultiple (fun id => (gStatHooks id).map fn) self)
  refine ⟨hooks', hstep, fun id => ?_⟩
  rw [testRunHooks_holds ht' id]
  cases hcb : gStatHooks id <;> simp [codeLists, statCalls, hcb, hookCalls_append]

/-- Stopping leaves no callback for the events that the statistics listen to. -/
theorem statStop_silences (fn : StatCallback → FnPtr) (self : Ptr) {hooks : HookTable}
    {es : TestHookID → List TestHookEntry} (ht : hooks.Holds es) :
    ∃ hooks', statStop fn self hooks = some hooks' ∧
      ∀ id, testRunHooks hooks' id =
        some (if (gStatHooks id).isSome then [] else hookCalls (es id)) := by
  obtain ⟨hooks', hstep, ht'⟩ :=
    step_holds ht (.unregisterMultiple (fun id => (gStatHooks id).map fn) self)
  refine ⟨hooks', hstep, fun id => ?_⟩
  rw [testRunHooks_holds ht' id]
  cases hcb : gStatHooks id <;> simp [codeLists, hcb]

/-! ## Runs -/

/-- `I` holds of the statistics in each phase, after a number of events: each event that keeps to
the protocol is taken without a fault and without a message, and keeps `I` as long as `B` holds of
the number of events before it. -/
structure StatKeeps (leak : Bool) (B : Nat → Prop) (I : Nat → StreamPhase → TestStatistics → Prop) :
    Prop where
  step : ∀ {k : Nat} {p p' : StreamPhase} {e : HookEvent} {stat : TestStatistics}, I k p stat →
    p.step leak e = some p' → B k → ∀ now,
      ∃ stat', statHook now stat e = some (stat', []) ∧ I (k + 1) p' stat'
  message : ∀ {k : Nat} {p : StreamPhase} {stat : TestStatistics}, I k p stat →
    ∀ priority, I k p (statMessageCounter stat priority)

/-- **Whole streams** are taken without a fault and without a message of an error branch. -/
theorem StatKeeps.run {leak : Bool} {B : Nat → Prop}
    {I : Nat → StreamPhase → TestStatistics → Prop} (h : StatKeeps leak B I)
    (clock : Nat → Int) :
    ∀ (is : List StatInput) (n : Nat) {k : Nat} {p p' : StreamPhase} {stat : TestStatistics},
      I k p stat → p.follow leak (is.filterMap StatInput.event) = some p' →
      (∀ j, j < (is.filterMap StatInput.event).length → B (k + j)) →
      ∃ stat', statRun clock n is stat = some (stat', []) ∧
        I (k + (is.filterMap StatInput.event).length) p' stat'
  | [], n, k, p, p', stat, hi, hfollow, _ => by
    obtain rfl : p = p' := Option.some.inj hfollow
    exact ⟨stat, rfl, hi⟩
  | .message priority :: is, n, k, p, p', stat, hi, hfollow, hb => by
    obtain ⟨stat', hrun, hi'⟩ := h.run clock is (n + 1) (h.message hi priority) hfollow hb
    exact ⟨stat', by simp [statRun, statStep, hrun], hi'⟩
  | .hook e :: is, n, k, p, p', stat, hi, hfollow, hb => by
    have hevents : (StatInput.hook e :: is).filterMap StatInput.event =
        e :: is.filterMap StatInput.event := rfl
    rw [hevents, follow_cons] at hfollow
    rw [hevents, List.length_cons] at hb ⊢
    cases hp : p.step leak e with
    | none =>
      rw [hp] at hfollow
      cases hfollow
    | some q =>
      rw [hp, Option.bind_some] at hfollow
      have hshift : ∀ j, k + 1 + j = k + (j + 1) := fun j => by omega
      obtain ⟨stat1, hstep, h1⟩ := h.step hi hp (hb 0 (Nat.succ_pos _)) (clock n)
      obtain ⟨stat2, hrun, h2⟩ := h.run clock is (n + 1) h1 hfollow fun j hj => by
        rw [hshift]
        exact hb (j + 1) (Nat.succ_lt_succ hj)
      refine ⟨stat2, by simp [statRun, statStep, hstep, hrun], ?_⟩
      rwa [← hshift]

end Tinu
