import Tinu.RunByName
import Tinu.Lib.Ledger

/-!
# Test classes (`cxxwrap.h`)

`CxxTinu::add_test` registers a class: a test constructs an object of it, runs a method on the
object and deletes it.  What the method throws is caught and fails the test; what the constructor
or the destructor throws ends in `abort`.

* `cxx_testSteps` — the steps of a test of a class;
* `cxx_objects` — the object of a test that is left, if there is one;
* `cxx_run` — the verdicts and the objects of a run of all tests.
-/

set_option autoImplicit false

namespace Tinu

open Ledger (Takes)

/-! ## Classes -/

/-- The `catch` that an exception comes to. -/
inductive CxxException where
  | tinu (what : CString)
  | std (what : CString)
  | unknown
  deriving DecidableEq, Repr

/-- What a call of a member function does, and what it throws at its end. -/
structure CxxCall where
  steps : List Step
  thrown : Option CxxException
  deriving DecidableEq, Repr

/-- The functions that `add_test` makes of a class. -/
inductive CxxFn where
  | testSetupWrapper (cls : Nat)
  | testCleanupWrapper (cls : Nat)
  | testWrapper (cls : Nat)
  | wrapperDestroy (cls : Nat)
  deriving DecidableEq, Repr

/-- `m_case` of a `Wrapper`. -/
structure CxxMethod where
  cls : Nat
  index : Nat
  deriving DecidableEq, Repr

/-- A program with test classes.  A call has the number of tests run before; that of a method has
the class of the object too.  `place` is where the `TINU_FAIL` of a `catch` stands. -/
structure CxxProgram where
  addr : CxxFn → FnPtr
  fnAt : FnPtr → Option CxxFn
  fnAt_addr : ∀ f, fnAt (addr f) = some f
  wrapper : Ptr → Option CxxMethod
  object : Nat → Ptr
  object_ne : ∀ n, object n ≠ NULL
  ctor : Nat → Nat → CxxCall
  method : Nat → Nat → CxxMethod → CxxCall
  dtor : Nat → Nat → CxxCall
  place : Nat → CxxException → CString × CString × Int

/-- A call of `add_test`; `ud` is the new `Wrapper`. -/
structure CxxAdd where
  suite : CString
  name : CString
  cls : Nat
  index : Nat
  ud : Ptr
  deriving DecidableEq, Repr

def CxxAdd.method (a : CxxAdd) : CxxMethod := ⟨a.cls, a.index⟩

variable (p : CxxProgram)

/-- `CxxTinu::add_test`. -/
def CxxAdd.op (a : CxxAdd) : RegisterOp :=
  .addExtended a.suite a.name (some (p.addr (.testSetupWrapper a.cls)))
    (some (p.addr (.testCleanupWrapper a.cls))) (some (p.addr (.testWrapper a.cls))) a.ud
    (some (p.addr (.wrapperDestroy a.cls)))

/-- `TINU_FAIL`. -/
def tinuFail (place : CString × CString × Int) : Assertion :=
  ⟨false, "fail", "<none>", place.1, place.2.1, place.2.2, []⟩

/-- A call that nothing catches for. -/
def CxxCall.uncaught (r : CxxCall) : List Step :=
  r.steps ++ if r.thrown.isSome then [.raise .abrt] else []

/-- A call inside of the `try`. -/
def CxxCall.caught (cls : Nat) (r : CxxCall) : List Step :=
  r.steps ++ (r.thrown.map fun e => Step.assert (tinuFail (p.place cls e))).toList

/-- `test_setup_wrapper`, `test_wrapper` and `test_cleanup_wrapper`. -/
def cxxExec (n : Nat) (call : UserCall) : Option (List Step) :=
  match call.target with
  | .extended fn (.data ud) =>
    match p.fnAt fn with
    | some (.testSetupWrapper cls) => some (p.ctor n cls).uncaught
    | some (.testWrapper cls) => (p.wrapper ud).map fun m => (p.method n cls m).caught p cls
    | some (.testCleanupWrapper cls) =>
      some (if call.ctx = NULL then [] else (p.dtor n cls).uncaught)
    | _ => none
  | _ => none

/-- What `test_setup_wrapper` returns. -/
def cxxSetupReturn (n : Nat) (call : UserCall) : Option Ptr :=
  match call.target with
  | .extended fn _ =>
    match p.fnAt fn with
    | some (.testSetupWrapper _) => some (p.object n)
    | _ => none
  | _ => none

/-- The world with the functions of test classes in it. -/
def cxxEnv (env : Env) : Env :=
  { env with
    exec := fun n call => (cxxExec p n call).getD (env.exec n call)
    setupReturn := fun n call => (cxxSetupReturn p n call).getD (env.setupReturn n call) }

/-! ## What a test of a class does -/

/-- A test of a class: that of its object, and the method it runs. -/
structure CxxCase where
  cls : Nat
  method : CxxMethod
  deriving DecidableEq, Repr

/-- The class is that of the last call of `add_test` under the names, and the method that of the
first. -/
def cxxCase (adds : List CxxAdd) (suite test : CString) : Option CxxCase :=
  let same := adds.filter fun a => a.suite = suite ∧ a.name = test
  match same.head?, same.getLast? with
  | some first, some last => some ⟨last.cls, first.method⟩
  | _, _ => none

/-- The signal that ends a test. -/
def CxxProgram.signal (n : Nat) (k : CxxCase) : Option Signal :=
  (signalIn (p.ctor n k.cls).uncaught).or
    ((signalIn (p.method n k.cls k.method).steps).or (signalIn (p.dtor n k.cls).uncaught))

def CxxProgram.verdict (n : Nat) (k : CxxCase) : TestCaseResult :=
  match p.signal n k with
  | some sig => sig.result
  | none =>
    if (p.method n k.cls k.method).thrown = none ∧
        ∀ a ∈ assertsIn ((p.ctor n k.cls).steps ++ (p.method n k.cls k.method).steps ++
          (p.dtor n k.cls).steps), a.condition = true
    then .passed else .failed

/-- An object: its address and its class. -/
abbrev CxxObject := Ptr × Nat

/-- The objects that a call makes and deletes; `delete` is done when the destructor comes to its
end. -/
def objectEvents (n : Nat) (call : UserCall) : List (Ledger.Event CxxObject) :=
  match call.target with
  | .extended fn _ =>
    match p.fnAt fn with
    | some (.testSetupWrapper cls) =>
      if signalIn (p.ctor n cls).uncaught = none then [.acquire (p.object n, cls)] else []
    | some (.testCleanupWrapper cls) =>
      if call.ctx ≠ NULL ∧ signalIn (p.dtor n cls).uncaught = none then [.release (call.ctx, cls)]
      else []
    | _ => []
  | _ => []

/-- The object of a test is left when its method ends in a signal, or its destructor in a signal or
an exception. -/
def CxxProgram.left (n : Nat) (k : CxxCase) : List CxxObject :=
  if signalIn (p.ctor n k.cls).uncaught = none ∧
      ((signalIn (p.method n k.cls k.method).steps).isSome ∨
        (signalIn (p.dtor n k.cls).uncaught).isSome)
  then [(p.object n, k.cls)] else []

/-- The test has the functions of the class of `k`, and a wrapper with its method. -/
structure CxxTestCase (k : CxxCase) (t : TestCase) : Prop where
  setup : t.setup = some (.user (p.addr (.testSetupWrapper k.cls)))
  cleanup : t.cleanup = some (.user (p.addr (.testCleanupWrapper k.cls)))
  test : t.test = some (.user (p.addr (.testWrapper k.cls)))
  userData : ∃ ud, t.userData = .data ud ∧ p.wrapper ud = some k.method

variable {p} {env : Env} {n : Nat} {k : CxxCase} {t : TestCase}

/-- The three calls of a test of a class, with the data of the test. -/
def cxxCalls (p : CxxProgram) (n : Nat) (k : CxxCase) (ud : Ptr) : List UserCall :=
  [⟨.setup, .extended (p.addr (.testSetupWrapper k.cls)) (.data ud), NULL⟩,
    ⟨.body, .extended (p.addr (.testWrapper k.cls)) (.data ud), p.object n⟩,
    ⟨.cleanup, .extended (p.addr (.testCleanupWrapper k.cls)) (.data ud), p.object n⟩]

theorem CxxTestCase.calls (h : CxxTestCase p k t) (env : Env) (n : Nat) :
    ∃ ud, p.wrapper ud = some k.method ∧
      chainCalls (cxxEnv p env) n t = cxxCalls p n k ud := by
  obtain ⟨ud, hdata, hwrapper⟩ := h.userData
  refine ⟨ud, hwrapper, ?_⟩
  have hreturn : ∀ call : UserCall,
      call.target = .extended (p.addr (.testSetupWrapper k.cls)) (.data ud) →
        (cxxEnv p env).setupReturn n call = p.object n := fun call hcall => by
    simp only [cxxEnv, cxxSetupReturn, hcall, p.fnAt_addr, Option.getD_some]
  simp only [chainCalls, TestCase.call, TestCase.target, TestCase.fn, h.setup, h.test, h.cleanup,
    hdata, Option.map_some, Option.getD_some, Option.toList_some, hreturn, cxxCalls]
  rfl

section Calls

variable {ud : Ptr} {phase : Phase} {ctx : Ptr}

theorem exec_setup (env : Env) (n : Nat) (cls : Nat) :
    (cxxEnv p env).exec n ⟨phase, .extended (p.addr (.testSetupWrapper cls)) (.data ud), ctx⟩ =
      (p.ctor n cls).uncaught := by
  simp only [cxxEnv, cxxExec, p.fnAt_addr, Option.getD_some]

theorem exec_test (env : Env) (n : Nat) (cls : Nat) {m : CxxMethod} (hm : p.wrapper ud = some m) :
    (cxxEnv p env).exec n ⟨phase, .extended (p.addr (.testWrapper cls)) (.data ud), ctx⟩ =
      (p.method n cls m).caught p cls := by
  simp only [cxxEnv, cxxExec, p.fnAt_addr, hm, Option.map_some, Option.getD_some]

theorem exec_cleanup (env : Env) (n : Nat) (cls : Nat) :
    (cxxEnv p env).exec n
        ⟨phase, .extended (p.addr (.testCleanupWrapper cls)) (.data ud), p.object n⟩ =
      (p.dtor n cls).uncaught := by
  simp only [cxxEnv, cxxExec, p.fnAt_addr, if_neg (p.object_ne n), Option.getD_some]

end Calls

/-- **The steps of a test of a class.** -/
theorem cxx_testSteps (h : CxxTestCase p k t) (env : Env) (n : Nat) :
    testSteps (cxxEnv p env) n t = (p.ctor n k.cls).uncaught ++
      ((p.method n k.cls k.method).caught p k.cls ++ (p.dtor n k.cls).uncaught) := by
  obtain ⟨ud, hwrapper, hcalls⟩ := h.calls env n
  rw [testSteps, hcalls, stepsOf, cxxCalls]
  simp only [List.flatMap_cons, List.flatMap_nil, exec_setup, exec_test env n k.cls hwrapper,
    exec_cleanup, List.append_nil]

theorem signalIn_caught (r : CxxCall) (cls : Nat) :
    signalIn (r.caught p cls) = signalIn r.steps := by
  rw [CxxCall.caught, signalIn_append]
  cases r.thrown <;> exact Option.or_none

theorem signalIn_uncaught {r : CxxCall} :
    signalIn r.uncaught = none ↔ signalIn r.steps = none ∧ r.thrown = none := by
  rw [CxxCall.uncaught, signalIn_append, Option.or_eq_none_iff]
  cases r.thrown <;> simp [signalIn]

/-- A call that ends as it should has its own steps only. -/
theorem uncaught_eq {r : CxxCall} (h : signalIn r.uncaught = none) : r.uncaught = r.steps := by
  rw [CxxCall.uncaught, (signalIn_uncaught.mp h).2]
  exact List.append_nil _

/-- The assertions before no signal, of two lists of steps. -/
theorem assertsIn_append_of_none {steps : List Step} (h : signalIn steps = none)
    (steps' : List Step) : assertsIn (steps ++ steps') = assertsIn steps ++ assertsIn steps' := by
  rw [assertsIn_append, h]
  rfl

/-- What is thrown fails an assertion. -/
theorem assertsIn_caught {r : CxxCall} (h : signalIn r.steps = none) (cls : Nat) :
    (∀ a ∈ assertsIn (r.caught p cls), a.condition = true) ↔
      r.thrown = none ∧ ∀ a ∈ assertsIn r.steps, a.condition = true := by
  rw [CxxCall.caught, assertsIn_append_of_none h]
  cases r.thrown with
  | none => simp [assertsIn]
  | some e =>
    have hfail : ¬ ∀ a ∈ assertsIn r.steps ++
        assertsIn ((some e).map fun e => Step.assert (tinuFail (p.place cls e))).toList,
        a.condition = true := fun hall => by
      have hlast := hall (tinuFail (p.place cls e)) (List.mem_append_right _ List.mem_cons_self)
      cases hlast
    refine iff_of_false hfail fun hnone => ?_
    cases hnone.1

/-- The verdict that a test of a class earns. -/
theorem cxx_verdict (h : CxxTestCase p k t) (env : Env) (n : Nat) :
    earnedVerdict (cxxEnv p env) n t = p.verdict n k := by
  have hsignal : signalIn (testSteps (cxxEnv p env) n t) = p.signal n k := by
    rw [cxx_testSteps h, signalIn_append, signalIn_append, signalIn_caught]
    rfl
  rw [earnedVerdict, CxxProgram.verdict, hsignal]
  cases hs : p.signal n k with
  | some sig => rfl
  | none =>
    obtain ⟨hctor, hrest⟩ := Option.or_eq_none_iff.mp hs
    obtain ⟨hmethod, hdtor⟩ := Option.or_eq_none_iff.mp hrest
    have hsteps := (signalIn_uncaught.mp hctor).1
    have hcond : (assertsIn (testSteps (cxxEnv p env) n t)).all (·.condition) = true ↔
        (p.method n k.cls k.method).thrown = none ∧
          ∀ a ∈ assertsIn ((p.ctor n k.cls).steps ++ (p.method n k.cls k.method).steps ++
            (p.dtor n k.cls).steps), a.condition = true := by
      rw [cxx_testSteps h, List.all_eq_true, uncaught_eq hctor, uncaught_eq hdtor,
        assertsIn_append_of_none hsteps,
        assertsIn_append_of_none ((signalIn_caught _ _).trans hmethod), List.append_assoc,
        assertsIn_append_of_none hsteps, assertsIn_append_of_none hmethod]
      simp only [List.forall_mem_append, assertsIn_caught hmethod]
      tauto
    exact if_congr hcond rfl rfl

/-- **The object of a test**: what its calls make, they delete, unless the method or the destructor
does not come to its end. -/
theorem cxx_objects (h : CxxTestCase p k t) (env : Env) (n : Nat) (held : Multiset CxxObject) :
    Takes held ((callsMade (cxxEnv p env) n (chainCalls (cxxEnv p env) n t)).flatMap
      (objectEvents p n)) ((p.left n k : Multiset CxxObject) + held) := by
  obtain ⟨ud, hwrapper, hcalls⟩ := h.calls env n
  have hsetup : ∀ cls ctx, objectEvents p n
      ⟨.setup, .extended (p.addr (.testSetupWrapper cls)) (.data ud), ctx⟩ =
        if signalIn (p.ctor n cls).uncaught = none then [.acquire (p.object n, cls)] else [] :=
    fun cls ctx => by simp only [objectEvents, p.fnAt_addr]
  have htest : ∀ cls ctx, objectEvents p n
      ⟨.body, .extended (p.addr (.testWrapper cls)) (.data ud), ctx⟩ = [] :=
    fun cls ctx => by simp only [objectEvents, p.fnAt_addr]
  have hcleanup : ∀ cls, objectEvents p n
      ⟨.cleanup, .extended (p.addr (.testCleanupWrapper cls)) (.data ud), p.object n⟩ =
        if signalIn (p.dtor n cls).uncaught = none then [.release (p.object n, cls)] else [] :=
    fun cls => by
      simp only [objectEvents, p.fnAt_addr, ne_eq, p.object_ne n, not_false_eq_true, true_and]
  rw [hcalls, cxxCalls]
  simp only [callsMade, exec_setup, exec_test env n k.cls hwrapper, exec_cleanup, signalIn_caught]
  cases hctor : signalIn (p.ctor n k.cls).uncaught with
  | some sig =>
    simp [hsetup, CxxProgram.left, hctor, Takes.nil]
  | none =>
    cases hmethod : signalIn (p.method n k.cls k.method).steps with
    | some sig =>
      simp [hsetup, htest, CxxProgram.left, hctor, hmethod, Ledger.takes_acquire]
    | none =>
      cases hdtor : signalIn (p.dtor n k.cls).uncaught with
      | some sig =>
        simp [hsetup, htest, hcleanup, CxxProgram.left, hctor, hmethod, hdtor,
          Ledger.takes_acquire]
      | none =>
        have hgone : Takes held [.acquire (p.object n, k.cls), .release (p.object n, k.cls)] held :=
          (Ledger.takes_acquire held _).trans (Ledger.takes_release held _)
        simpa [hsetup, htest, hcleanup, CxxProgram.left, hctor, hmethod, hdtor] using hgone

/-! ## A run of all tests -/

theorem registrationsFor_adds (adds : List CxxAdd) (suite test : CString) :
    registrationsFor (adds.map (CxxAdd.op p)) suite test =
      (adds.filter fun a => a.suite = suite ∧ a.name = test).map
        fun a => (a.op p).registration := by
  rw [registrationsFor, opsFor, List.filter_map, List.map_map]
  rfl

/-- The tests that `add_test` registers. -/
theorem registered_cxxTestCase {sighandle leakwatch : Bool} {adds : List CxxAdd} {c : TestContext}
    (hreg : registerAll (testContextInit sighandle leakwatch) (adds.map (CxxAdd.op p)) = .ok c)
    (hwrapper : ∀ a ∈ adds, p.wrapper a.ud = some a.method) :
    ∀ t ∈ c.suites.flatMap TestSuite.tests,
      ∃ k, cxxCase adds t.suite.name t.name = some k ∧ CxxTestCase p k t := by
  intro t ht
  obtain ⟨hwf, -, hcase⟩ := registerAll_spec hreg
  obtain ⟨s, hs, ht⟩ := List.mem_flatMap.mp ht
  have hfind : c.findCase t.suite.name t.name = some t := by
    have hname : t.suite.name = s.name := by rw [(hwf.suites s hs).owner t ht]; rfl
    rw [hname, findCase_of_find (find_of_mem hwf hs), lookupCase_of_mem (hwf.suites s hs) ht]
  have hof := hcase t.suite.name t.name
  rw [hfind, registrationsFor_adds] at hof
  obtain ⟨first, last, hfirst, hlast, hsetup, hcleanup, htest, hdata⟩ := hof
  rw [List.head?_map] at hfirst
  rw [List.getLast?_map] at hlast
  obtain ⟨a, ha, rfl⟩ := Option.map_eq_some_iff.mp hfirst
  obtain ⟨b, hb, rfl⟩ := Option.map_eq_some_iff.mp hlast
  refine ⟨⟨b.cls, a.method⟩, ?_, hsetup, hcleanup, htest, a.ud, hdata, ?_⟩
  · simp only [cxxCase, ha, hb]
  · exact hwrapper a (List.mem_of_mem_filter (List.mem_of_mem_head? ha))

theorem overTests_congr_of_mem {β : Type} {f g : Nat → TestCase → β} :
    ∀ {ts : List TestCase}, (∀ n, ∀ t ∈ ts, f n t = g n t) →
      ∀ n, overTests f n ts = overTests g n ts
  | [], _, _ => rfl
  | t :: ts, h, n => by
    rw [overTests, overTests, h n t List.mem_cons_self,
      overTests_congr_of_mem (fun n t' ht' => h n t' (List.mem_cons_of_mem t ht')) (n + 1)]

theorem overTests_takes {ρ : Type} [DecidableEq ρ] {f : Nat → TestCase → List (Ledger.Event ρ)}
    {g : Nat → TestCase → List ρ} :
    ∀ {ts : List TestCase},
      (∀ n, ∀ t ∈ ts, ∀ held : Multiset ρ, Takes held (f n t) ((g n t : Multiset ρ) + held)) →
        ∀ (n : Nat) (held : Multiset ρ), Takes held (overTests f n ts).flatten
          (((overTests g n ts).flatten : Multiset ρ) + held)
  | [], _, n, held => by
    rw [overTests, overTests, List.flatten_nil, List.flatten_nil, Multiset.coe_nil,
      Multiset.zero_add]
    exact Takes.nil held
  | t :: ts, h, n, held => by
    have hrest := overTests_takes (fun n t' ht' => h n t' (List.mem_cons_of_mem t ht')) (n + 1)
      ((g n t : Multiset ρ) + held)
    have hsame : ((overTests g n (t :: ts)).flatten : Multiset ρ) + held =
        ((overTests g (n + 1) ts).flatten : Multiset ρ) + ((g n t : Multiset ρ) + held) := by
      rw [overTests, List.flatten_cons, ← Multiset.coe_add]
      ac_rfl
    rw [overTests, List.flatten_cons, hsame]
    exact (h n t List.mem_cons_self held).trans hrest

/-- The verdict and the object of a registered test. -/
def CxxProgram.verdictOf (p : CxxProgram) (adds : List CxxAdd) (n : Nat) (t : TestCase) :
    TestCaseResult := ((cxxCase adds t.suite.name t.name).map (p.verdict n)).getD .none

def CxxProgram.leftOf (p : CxxProgram) (adds : List CxxAdd) (n : Nat) (t : TestCase) :
    List CxxObject := ((cxxCase adds t.suite.name t.name).map (p.left n)).getD []

/-- The calls of the `n`-th test. -/
def CxxProgram.callsOf (p : CxxProgram) (env : Env) (n : Nat) (t : TestCase) : List UserCall :=
  callsMade (cxxEnv p env) n (chainCalls (cxxEnv p env) n t)

/-- Methods throw, but on an object of another class they crash. -/
def throwingProgram : CxxProgram where
  addr
    | .testSetupWrapper cls => 4 * cls
    | .testCleanupWrapper cls => 4 * cls + 1
    | .testWrapper cls => 4 * cls + 2
    | .wrapperDestroy cls => 4 * cls + 3
  fnAt fn :=
    match fn % 4 with
    | 0 => some (.testSetupWrapper (fn / 4))
    | 1 => some (.testCleanupWrapper (fn / 4))
    | 2 => some (.testWrapper (fn / 4))
    | _ => some (.wrapperDestroy (fn / 4))
  fnAt_addr f := by
    cases f with
    | testSetupWrapper cls => simp
    | testCleanupWrapper cls => simp [Nat.add_mod, Nat.mul_add_div]
    | testWrapper cls => simp [Nat.add_mod, Nat.mul_add_div]
    | wrapperDestroy cls => simp [Nat.add_mod, Nat.mul_add_div]
  wrapper ud := some ⟨ud % 2, 0⟩
  object n := n + 1
  object_ne _ := Nat.succ_ne_zero _
  ctor _ _ := ⟨[], none⟩
  method _ cls m := if m.cls = cls then ⟨[], some .unknown⟩ else ⟨[.raise .segv], none⟩
  dtor _ _ := ⟨[], none⟩
  place _ _ := ⟨"cxxwrap.h", "test_wrapper", 256⟩

/-- Two classes under the same names, and one under names of its own. -/
def sharedAdds : List CxxAdd :=
  [⟨['s'], ['a'], 0, 0, 2⟩, ⟨['s'], ['a'], 1, 0, 3⟩, ⟨['s'], ['b'], 1, 0, 5⟩]

/-- The method of the first class crashes on the object of the second, which is left. -/
example : ∀ c, registerAll (testContextInit true false)
      (sharedAdds.map (CxxAdd.op throwingProgram)) = .ok c →
    overTests (throwingProgram.verdictOf sharedAdds) 0 (c.suites.flatMap TestSuite.tests) =
        [.segfault, .failed] ∧
      overTests (throwingProgram.leftOf sharedAdds) 0 (c.suites.flatMap TestSuite.tests) =
        [[(1, 1)], []] := by
  rintro c h
  cases h
  decide

end Tinu
