import Tinu.Verdicts

/-!
# The protocol of hook events

`StreamPhase` says where a stream of events stands, for a consumer that sees nothing else; `step`
is the next phase, if the event may come there.

* `SuiteBlocks.follow` — the events of a run in which every context was switched to lead from
  `idle` back to `idle`;
* `SuitesCut.follow` — those of a run that a test ended are accepted too.
-/

set_option autoImplicit false

namespace Tinu

/-- Between suites; in a suite, where `ok` is whether every test so far passed; in a test, where
`good` is whether it can still pass. -/
inductive StreamPhase where
  | idle
  | inSuite (suite : TestSuite) (ok : Bool)
  | inTest (suite : TestSuite) (ok : Bool) (test : TestCase) (good signalled reported : Bool)
  deriving DecidableEq, Repr

/-- The phase after an event; `leak` is whether leaks are reported. -/
def StreamPhase.step (leak : Bool) : StreamPhase → HookEvent → Option StreamPhase
  | .idle, .beforeSuite s => some (.inSuite s true)
  | .inSuite s ok, .beforeTest t => some (.inTest s ok t true false false)
  | .inSuite s ok, .afterSuite s' res => if s' = s ∧ res = ok then some .idle else none
  | .inTest s ok t good false false, .assert b _ _ _ => some (.inTest s ok t (good && b) false false)
  | .inTest s ok t _ false false, .signalAbort => some (.inTest s ok t false true false)
  | .inTest s ok t _ false false, .signalSegfault => some (.inTest s ok t false true false)
  | .inTest s ok t good signalled false, .leakInfo t' _ =>
    if leak = true ∧ t' = t then some (.inTest s ok t good signalled true) else none
  | .inTest s ok t good _ reported, .afterTest t' v =>
    if reported = leak ∧ t' = t ∧ v ≠ .none ∧ (v = .passed → good = true) then
      some (.inSuite s (ok && v == .passed))
    else none
  | _, _ => none

/-- The phase after a list of events. -/
def StreamPhase.follow (leak : Bool) (p : StreamPhase) (evs : List HookEvent) :
    Option StreamPhase :=
  evs.foldlM (StreamPhase.step leak) p

variable {env : Env} {c : TestContext}

/-- Every step there is. -/
inductive StreamStep (leak : Bool) : StreamPhase → HookEvent → StreamPhase → Prop
  | suiteBegin (s : TestSuite) : StreamStep leak .idle (.beforeSuite s) (.inSuite s true)
  | suiteEnd (s : TestSuite) (ok : Bool) :
      StreamStep leak (.inSuite s ok) (.afterSuite s ok) .idle
  | caseBegin (s : TestSuite) (ok : Bool) (t : TestCase) :
      StreamStep leak (.inSuite s ok) (.beforeTest t) (.inTest s ok t true false false)
  | assert {s : TestSuite} {ok : Bool} {t : TestCase} {good : Bool} (condition : Bool)
      (file func : CString) (line : Int) :
      StreamStep leak (.inTest s ok t good false false) (.assert condition file func line)
        (.inTest s ok t (good && condition) false false)
  | signal {s : TestSuite} {ok : Bool} {t : TestCase} {good : Bool} (signo : Signal) :
      StreamStep leak (.inTest s ok t good false false) signo.event
        (.inTest s ok t false true false)
  | leakInfo {s : TestSuite} {ok : Bool} {t : TestCase} {good signalled : Bool} (bytes : Nat)
      (h : leak = true) :
      StreamStep leak (.inTest s ok t good signalled false) (.leakInfo t bytes)
        (.inTest s ok t good signalled true)
  | caseEnd {s : TestSuite} {ok : Bool} {t : TestCase} {good signalled : Bool}
      {v : TestCaseResult} (hv : v ≠ .none) (hp : v = .passed → good = true) :
      StreamStep leak (.inTest s ok t good signalled leak) (.afterTest t v)
        (.inSuite s (ok && v == .passed))

theorem StreamPhase.step_cases {leak : Bool} {p p' : StreamPhase} {e : HookEvent}
    (h : p.step leak e = some p') : StreamStep leak p e p' := by
  unfold StreamPhase.step at h
  split at h
  · cases h
    exact .suiteBegin _
  · cases h
    exact .caseBegin _ _ _
  · rw [Option.ite_none_right_eq_some] at h
    obtain ⟨⟨rfl, rfl⟩, h⟩ := h
    cases h
    exact .suiteEnd _ _
  · cases h
    exact .assert _ _ _ _
  · cases h
    exact .signal .abrt
  · cases h
    exact .signal .segv
  · rw [Option.ite_none_right_eq_some] at h
    obtain ⟨⟨hleak, rfl⟩, h⟩ := h
    cases h
    exact .leakInfo _ hleak
  · rw [Option.ite_none_right_eq_some] at h
    obtain ⟨⟨rfl, rfl, hv, hp⟩, h⟩ := h
    cases h
    exact .caseEnd hv hp
  · cases h

@[simp] theorem follow_nil (leak : Bool) (p : StreamPhase) : p.follow leak [] = some p := rfl

theorem follow_cons (leak : Bool) (p : StreamPhase) (e : HookEvent) (evs : List HookEvent) :
    p.follow leak (e :: evs) = (p.step leak e).bind fun p' => p'.follow leak evs := rfl

theorem follow_append (leak : Bool) (p : StreamPhase) (evs evs' : List HookEvent) :
    p.follow leak (evs ++ evs') = (p.follow leak evs).bind fun p' => p'.follow leak evs' := by
  unfold StreamPhase.follow
  rw [List.foldlM_append]
  rfl

/-- Every beginning of an accepted stream is accepted. -/
theorem follow_prefix {leak : Bool} {p p' : StreamPhase} {pre evs : List HookEvent}
    (h : p.follow leak evs = some p') (hp : pre <+: evs) : ∃ q, p.follow leak pre = some q := by
  obtain ⟨rest, rfl⟩ := hp
  rw [follow_append] at h
  cases hq : p.follow leak pre with
  | none =>
    rw [hq] at h
    cases h
  | some q => exact ⟨q, rfl⟩

/-! ## The events of one test -/

theorem follow_asserts (leak : Bool) (s : TestSuite) (ok : Bool) (t : TestCase) :
    ∀ (as : List Assertion) (good : Bool),
      (StreamPhase.inTest s ok t good false false).follow leak (as.map Assertion.event) =
        some (.inTest s ok t (good && as.all fun a => a.condition) false false)
  | [], good => by simp
  | a :: as, good => by
    rw [List.map_cons, follow_cons]
    show (StreamPhase.inTest s ok t (good && a.condition) false false).follow leak _ = _
    rw [follow_asserts leak s ok t as, List.all_cons, Bool.and_assoc]

/-- A test can still pass after its body if its assertions held and no signal came. -/
def bodyGood (env : Env) (n : Nat) (t : TestCase) (handled : Bool) : Bool :=
  ((assertsIn (testSteps env n t)).all fun a => a.condition) &&
    !(handled && (signalIn (testSteps env n t)).isSome)

theorem follow_bodyEvents (leak : Bool) (s : TestSuite) (ok : Bool) (n : Nat) (t : TestCase)
    (handled : Bool) :
    (StreamPhase.inSuite s ok).follow leak (bodyEvents env n t handled) =
      some (.inTest s ok t (bodyGood env n t handled)
        (handled && (signalIn (testSteps env n t)).isSome) false) := by
  have hstart : (StreamPhase.inSuite s ok).follow leak
      (.beforeTest t :: (assertsIn (testSteps env n t)).map Assertion.event) =
      some (.inTest s ok t ((assertsIn (testSteps env n t)).all fun a => a.condition) false
        false) := by
    rw [follow_cons]
    show (StreamPhase.inTest s ok t true false false).follow leak _ = _
    rw [follow_asserts, Bool.true_and]
  unfold bodyEvents
  rw [follow_append, hstart, Option.bind_some]
  cases handled with
  | false => simp [bodyGood]
  | true =>
    cases hs : signalIn (testSteps env n t) with
    | none => simp [bodyGood, hs]
    | some sig => cases sig <;> simp [bodyGood, hs, follow_cons, StreamPhase.step, Signal.event]

theorem earnedVerdict_passed {n : Nat} {t : TestCase} (h : earnedVerdict env n t = .passed) :
    bodyGood env n t true = true := by
  unfold earnedVerdict at h
  unfold bodyGood
  cases hs : signalIn (testSteps env n t) with
  | some sig =>
    simp only [hs] at h
    cases sig <;> cases h
  | none =>
    simp only [hs] at h
    split at h
    · rename_i hall
      simp [hall]
    · cases h

/-- **One test block leads from its suite back to it.** -/
theorem follow_testBlock (s : TestSuite) (ok : Bool) {n : Nat} {t : TestCase} (bytes : Nat)
    (hctx : ctxFailed env c n = false) :
    (StreamPhase.inSuite s ok).follow c.leakwatch (testBlock env c n t bytes) =
      some (.inSuite s (ok && verdictOf env c n t == .passed)) := by
  have hverdict : verdictOf env c n t = earnedVerdict env n t := by simp [verdictOf, hctx]
  have hgood : earnedVerdict env n t = .passed → bodyGood env n t true = true :=
    earnedVerdict_passed
  have hnone := earnedVerdict_ne_none env n t
  unfold testBlock
  rw [hctx, hverdict, follow_append, follow_append]
  simp only [Bool.false_eq_true, if_false]
  rw [follow_bodyEvents, Option.bind_some]
  cases hl : c.leakwatch with
  | true => simpa [follow_cons, StreamPhase.step, hnone] using hgood
  | false => simpa [follow_cons, StreamPhase.step, hnone] using hgood

/-! ## Whole runs -/

/-- Every context of the tests run was switched to. -/
def CtxOk (env : Env) (c : TestContext) (n : Nat) (ts : List TestCase) : Prop :=
  ∀ i, i < ts.length → ctxFailed env c (n + i) = false

/-- The handler of `main.c` has no part in the contexts. -/
theorem CtxOk.seen {n : Nat} {ts : List TestCase} (h : CtxOk env c n ts) (st : RunState)
    (ts' : List TestCase) : CtxOk (env.seen c st ts') c n ts := h

theorem CtxOk.head {n : Nat} {t : TestCase} {ts : List TestCase} (h : CtxOk env c n (t :: ts)) :
    ctxFailed env c n = false := h 0 (Nat.succ_pos _)

theorem CtxOk.append {n : Nat} {ts ts' : List TestCase} :
    CtxOk env c n (ts ++ ts') ↔ CtxOk env c n ts ∧ CtxOk env c (n + ts.length) ts' := by
  constructor
  · intro h
    refine ⟨fun i hi => h i (by rw [List.length_append]; omega), fun i hi => ?_⟩
    have := h (ts.length + i) (by rw [List.length_append]; omega)
    rwa [← Nat.add_assoc] at this
  · rintro ⟨h, h'⟩ i hi
    rw [List.length_append] at hi
    by_cases hlt : i < ts.length
    · exact h i hlt
    · have := h' (i - ts.length) (by omega)
      rwa [show n + ts.length + (i - ts.length) = n + i by omega] at this

theorem CtxOk.tail {n : Nat} {t : TestCase} {ts : List TestCase} (h : CtxOk env c n (t :: ts)) :
    CtxOk env c (n + 1) ts := (@CtxOk.append env c n [t] ts).mp h |>.2

theorem TestBlocks.follow (s : TestSuite) {n : Nat} {ts : List TestCase} {evs : List HookEvent}
    (h : TestBlocks env c n ts evs) (hctx : CtxOk env c n ts) (ok : Bool) :
    (StreamPhase.inSuite s ok).follow c.leakwatch evs =
      some (.inSuite s (ok && allPassed env c n ts)) := by
  induction h generalizing ok with
  | nil n => simp [allPassed, verdicts, overTests]
  | @cons n t ts evs bytes _ h ih =>
    rw [follow_append, follow_testBlock s ok bytes hctx.head, Option.bind_some, ih hctx.tail,
      Bool.and_assoc]
    rfl

/-- **The events of a complete run lead from `idle` to `idle`.** -/
theorem SuiteBlocks.follow {n : Nat} {sel : Selection} {evs : List HookEvent}
    (h : SuiteBlocks env c n sel evs) (hctx : CtxOk env c n (Selection.tests sel)) :
    StreamPhase.idle.follow c.leakwatch evs = some .idle := by
  induction h with
  | nil n => rfl
  | @cons n s ts sel evs evs' hb hs ih =>
    have hlen : Selection.tests ((s, ts) :: sel) = ts ++ Selection.tests sel := rfl
    rw [hlen, CtxOk.append] at hctx
    rw [follow_append, follow_append, follow_cons]
    show (((StreamPhase.inSuite s true).follow c.leakwatch evs).bind _).bind _ = _
    rw [hb.follow s hctx.1, Option.bind_some, follow_cons]
    simp [StreamPhase.step, ih hctx.2]

theorem TestsCut.follow (s : TestSuite) {n : Nat} {ts ran : List TestCase} {evs : List HookEvent}
    (h : TestsCut env c n ts ran evs) (hctx : CtxOk env c n ran) (ok : Bool) :
    ∃ p, (StreamPhase.inSuite s ok).follow c.leakwatch evs = some p := by
  induction h generalizing ok with
  | here handled h => exact ⟨_, follow_bodyEvents _ s ok _ _ handled⟩
  | @later n t ts ran evs bytes _ h ih =>
    rw [follow_append, follow_testBlock s ok bytes hctx.head, Option.bind_some]
    exact ih hctx.tail _

/-- **The events of a run that a test ended are accepted.** -/
theorem SuitesCut.follow {n : Nat} {sel : Selection} {ran : List TestCase} {evs : List HookEvent}
    (h : SuitesCut env c n sel ran evs) (hctx : CtxOk env c n ran) :
    ∃ p, StreamPhase.idle.follow c.leakwatch evs = some p := by
  induction h with
  | @here n s ts ran sel evs h =>
    rw [follow_cons]
    exact h.follow s hctx true
  | @later n s ts ran sel evs evs' hb hs ih =>
    rw [CtxOk.append] at hctx
    rw [follow_append, follow_append, follow_cons]
    show ∃ p, (((StreamPhase.inSuite s true).follow c.leakwatch evs).bind _).bind _ = some p
    rw [hb.follow s hctx.1, Option.bind_some, follow_cons]
    simpa [StreamPhase.step] using ih hctx.2

end Tinu
