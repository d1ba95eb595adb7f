import Tinu.RunByName

/-!
# Registering a test again

`last_registration_iff` — a test runs as its last registration says exactly when the first one
gave it the same user data, which is never updated.
-/

set_option autoImplicit false

namespace Tinu

variable {c : TestContext}

/-- The function that the caller of a registration wants in a phase. -/
def RegisterOp.wanted : RegisterOp → Phase → Option CallTarget
  | .add _ _ setup _ _, .setup => setup.map .simple
  | .add _ _ _ _ func, .body => func.map .simple
  | .add _ _ _ cleanup _, .cleanup => cleanup.map .simple
  | .addExtended _ _ setup _ _ userData _, .setup =>
    setup.map fun fn => .extended fn (.data userData)
  | .addExtended _ _ _ _ func userData _, .body => func.map fun fn => .extended fn (.data userData)
  | .addExtended _ _ _ cleanup _ userData _, .cleanup =>
    cleanup.map fun fn => .extended fn (.data userData)

def RegisterOp.call (op : RegisterOp) (phase : Phase) (ctx : Ptr) : Option UserCall :=
  (op.wanted phase).map fun target => ⟨phase, target, ctx⟩

/-- The setup, body and cleanup of a registration, with the context that the setup returns. -/
def RegisterOp.wantedCalls (env : Env) (n : Nat) (op : RegisterOp) : List UserCall :=
  let setup := op.call .setup NULL
  let ctx := (setup.map (env.setupReturn n)).getD NULL
  setup.toList ++ (op.call .body ctx).toList ++ (op.call .cleanup ctx).toList

/-- Running the test executes what the registration gave, with its user data: all of it, unless a
signal cuts it short. -/
def RunsAs (c : TestContext) (suite test : CString) (op : RegisterOp) : Prop :=
  ∃ t, c.findCase suite test = some t ∧ t.userData = op.registration.userData ∧
    ∀ (env : Env) (st : RunState), st.leak.Counted →
      ctxFailed env c st.executed.length = false →
      ∃ made, (tinuTestCaseRun env c suite test st).2.calls = st.calls ++ made ∧
        ChainMade (env.seen c st [t]) st.executed.length
          (op.wantedCalls env st.executed.length) made

/-- A test with the fields of a registration calls what it wants. -/
theorem target_eq_wanted {t : TestCase} {op : RegisterOp}
    (hsetup : t.setup = op.registration.setup) (hcleanup : t.cleanup = op.registration.cleanup)
    (htest : t.test = op.registration.func) (hdata : t.userData = op.registration.userData)
    (phase : Phase) : t.target phase = op.wanted phase := by
  have hfn : t.fn .setup = op.registration.setup ∧ t.fn .body = op.registration.func ∧
      t.fn .cleanup = op.registration.cleanup := ⟨hsetup, htest, hcleanup⟩
  obtain ⟨hfs, hfb, hfc⟩ := hfn
  cases op with
  | add suite test setup cleanup func =>
    cases phase <;> simp only [TestCase.target, hfs, hfb, hfc, hdata] <;> rfl
  | addExtended suite test setup cleanup func userData userDataCleanup =>
    cases phase with
    | setup => rw [TestCase.target, hfs, hdata]; cases setup <;> rfl
    | body => rw [TestCase.target, hfb, hdata]; cases func <;> rfl
    | cleanup => rw [TestCase.target, hfc, hdata]; cases cleanup <;> rfl

theorem chainCalls_eq_wanted {t : TestCase} {op : RegisterOp}
    (h : ∀ phase, t.target phase = op.wanted phase) (env : Env) (n : Nat) :
    chainCalls env n t = op.wantedCalls env n := by
  have hcall : ∀ phase ctx, t.call phase ctx = op.call phase ctx := fun phase ctx => by
    rw [TestCase.call, RegisterOp.call, h]
  simp only [chainCalls, RegisterOp.wantedCalls, hcall]

/-- The calls of a test that is run by its names. -/
theorem caseRun_calls {env : Env} {suite test : CString} {t : TestCase} {st : RunState}
    (ht : c.findCase suite test = some t) (hw : st.leak.Counted)
    (hctx : ctxFailed env c st.executed.length = false) :
    (tinuTestCaseRun env c suite test st).2.calls =
      st.calls ++ callsMade (env.seen c st [t]) st.executed.length
        (chainCalls env st.executed.length t) := by
  obtain ⟨s, hs, hl⟩ : ∃ s, c.find suite = some s ∧ testLookupCase s test = some t := by
    unfold TestContext.findCase at ht
    cases hf : c.find suite with
    | none =>
      rw [hf] at ht
      cases ht
    | some s =>
      rw [hf] at ht
      exact ⟨s, rfl, ht⟩
  have hsel : opSelection c (.case suite test) = some [(s, [t])] := by
    simp [opSelection, testSuiteLookup_find, hs, hl]
  have htests : selectedTests c (.case suite test) = [t] := by rw [selectedTests, hsel]; rfl
  have hcalls : callsOf (env.seen c st [t]) c st.executed.length t =
      callsMade (env.seen c st [t]) st.executed.length (chainCalls env st.executed.length t) := by
    have hctx : ctxFailed (env.seen c st [t]) c st.executed.length = false := hctx
    rw [callsOf, hctx]
    rfl
  have hspec := @runOp_spec env c st hw (.case suite test)
  rw [htests, hsel] at hspec
  rcases hspec with ⟨st', evs, hrun, _, _, hm⟩ | ⟨st', ran, evs, hrun, hb, hm⟩
  · have hc := hm.calls
    show (runOp env c st (.case suite test)).2.calls = _
    rw [hrun, hc, ← hcalls]
    simp [overTests]
  · have hran : ran = [t] := by
      cases hb with
      | here h =>
        cases h with
        | here => rfl
        | later _ _ h => cases h
      | later _ h => cases h
    have hc := hm.calls
    show (runOp env c st (.case suite test)).2.calls = _
    rw [hrun, hc, ← hcalls, hran]
    simp [overTests]

/-- **A test runs as it was last registered exactly when its first registration gave the same user
data.** -/
theorem last_registration_iff {sighandle leakwatch : Bool} {ops : List RegisterOp}
    (hreg : registerAll (testContextInit sighandle leakwatch) ops = .ok c) {suite test : CString}
    {first last : RegisterOp} (hfirst : (opsFor ops suite test).head? = some first)
    (hlast : (opsFor ops suite test).getLast? = some last) :
    RunsAs c suite test last ↔ first.registration.userData = last.registration.userData := by
  obtain ⟨_, _, hcase⟩ := registerAll_spec hreg
  have hof := hcase suite test
  have hhead : (registrationsFor ops suite test).head? = some first.registration := by
    rw [registrationsFor, List.head?_map, hfirst, Option.map_some]
  have htail : (registrationsFor ops suite test).getLast? = some last.registration := by
    rw [registrationsFor, List.getLast?_map, hlast, Option.map_some]
  cases hfc : c.findCase suite test with
  | none =>
    rw [hfc] at hof
    have hnil : registrationsFor ops suite test = [] := hof
    rw [hnil] at hhead
    cases hhead
  | some t =>
    rw [hfc] at hof
    obtain ⟨r1, r2, h1, h2, hsetup, hcleanup, htest, hdata⟩ := hof
    rw [hhead] at h1
    rw [htail] at h2
    obtain rfl := Option.some.inj h1
    obtain rfl := Option.some.inj h2
    constructor
    · rintro ⟨t', ht', hdata', -⟩
      rw [hfc] at ht'
      obtain rfl := Option.some.inj ht'
      rw [← hdata, hdata']
    · intro heq
      refine ⟨t, hfc, hdata.trans heq, fun env st hw hctx => ?_⟩
      refine ⟨_, caseRun_calls hfc hw hctx, ?_⟩
      rw [← chainCalls_eq_wanted (target_eq_wanted hsetup hcleanup htest (hdata.trans heq))]
      exact callsMade_spec _ st.executed.length _

/-- A test is registered again with another body, for the same user data. -/
theorem last_registration_same_data :
    RunsAs ⟨[⟨1, "s", [⟨2, ⟨1, "s"⟩, "t", none, none, some (.user 2), .data 7, none⟩]⟩], true, false,
      3⟩ "s" "t" (.addExtended "s" "t" none none (some 2) 7 none) :=
  (@last_registration_iff _ true false
    [.addExtended "s" "t" none none (some 1) 7 none,
      .addExtended "s" "t" none none (some 2) 7 none] rfl "s" "t" _ _ rfl rfl).mpr rfl

/-- Two registrations of one test with `test_add`. -/
def twiceOps : List RegisterOp :=
  [.add "s" "t" (some 1) (some 2) (some 3), .add "s" "t" (some 4) (some 5) (some 6)]

/-- The context after them. -/
def twiceContext : TestContext :=
  ⟨[⟨1, "s", [⟨2, ⟨1, "s"⟩, "t", some .wrapper, some .wrapper, some .wrapper,
    .simplified ⟨some 1, some 2, some 3⟩, some .gFree⟩]⟩], true, false, 3⟩

/-- After two `test_add` the functions of the first are executed. -/
theorem first_functions_stay :
    ¬ ∀ (sighandle leakwatch : Bool) (ops : List RegisterOp) (c : TestContext)
        (suite test : CString) (last : RegisterOp),
      registerAll (testContextInit sighandle leakwatch) ops = .ok c →
        (opsFor ops suite test).getLast? = some last → RunsAs c suite test last := by
  intro h
  obtain ⟨t, -, -, hruns⟩ := h true false twiceOps twiceContext "s" "t" _ rfl rfl
  obtain ⟨made, hcalls, hmade⟩ := hruns Env.idle RunState.start rfl rfl
  rw [seen_of_sighandle rfl] at hmade
  have hold : made = [⟨.setup, .simple 1, NULL⟩, ⟨.body, .simple 3, NULL⟩,
      ⟨.cleanup, .simple 2, NULL⟩] := by
    have : [] ++ made = (tinuTestCaseRun Env.idle twiceContext "s" "t" RunState.start).2.calls :=
      hcalls.symm
    rw [List.nil_append] at this
    rw [this]
    decide
  rcases hmade with ⟨-, hnew⟩ | ⟨_, _, _, _, _, hraise, _⟩
  · rw [hold] at hnew
    revert hnew
    decide
  · cases hraise

end Tinu
