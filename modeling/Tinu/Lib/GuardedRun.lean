import Mathlib

/-!
# Runs of a program against a reference, under a guard

Two deterministic machines read the same inputs: `code`, and the reference `spec`.  One step
keeps them in agreement exactly when a guard on the reference state and the input holds.  Then
a whole run agrees at every point exactly when every step of it meets the guard
(`Guarded.run_iff`).  `everyStep_iff` compares two properties of the steps of one machine.
-/

set_option autoImplicit false

namespace GuardedRun

variable {σ τ ι : Type}

/-- `P` holds of the state before, and the input of, every step of the run from `t`. -/
def EveryStep (spec : τ → ι → τ) (P : τ → ι → Prop) (t : τ) (is : List ι) : Prop :=
  ∀ pre i, pre ++ [i] <+: is → P (pre.foldl spec t) i

/-- The two machines agree after every prefix of the run. -/
def AgreeThroughout (code : σ → ι → σ) (spec : τ → ι → τ) (Agree : σ → τ → Prop) (s : σ) (t : τ)
    (is : List ι) : Prop :=
  ∀ pre, pre <+: is → Agree (pre.foldl code s) (pre.foldl spec t)

theorem everyStep_nil (spec : τ → ι → τ) (P : τ → ι → Prop) (t : τ) : EveryStep spec P t [] := by
  intro pre i h
  simp at h

theorem everyStep_cons {spec : τ → ι → τ} {P : τ → ι → Prop} {t : τ} {i : ι} {is : List ι} :
    EveryStep spec P t (i :: is) ↔ P t i ∧ EveryStep spec P (spec t i) is := by
  constructor
  · intro h
    refine ⟨h [] i (by simp), fun pre j hp => ?_⟩
    exact h (i :: pre) j (by simpa using hp)
  · rintro ⟨h0, h⟩ pre j hp
    cases pre with
    | nil =>
      have : j = i := by simpa using hp
      rw [this]; exact h0
    | cons k pre =>
      rw [List.cons_append, List.cons_prefix_cons] at hp
      obtain ⟨rfl, hp⟩ := hp
      exact h pre j hp

/-- **Two properties of single steps that agree where an invariant holds** hold of the same runs,
when the steps with the second one keep the invariant. -/
theorem everyStep_iff {step : τ → ι → τ} {Inv : τ → Prop} {Valid P Q : τ → ι → Prop}
    (hiff : ∀ {t i}, Inv t → Valid t i → (P t i ↔ Q t i))
    (hkeep : ∀ {t i}, Inv t → Valid t i → Q t i → Inv (step t i)) :
    ∀ (is : List ι) {t : τ}, Inv t → EveryStep step Valid t is →
      (EveryStep step P t is ↔ EveryStep step Q t is)
  | [], t, _, _ => ⟨fun _ => everyStep_nil _ _ _, fun _ => everyStep_nil _ _ _⟩
  | i :: is, t, ht, hv => by
    rw [everyStep_cons] at hv
    rw [everyStep_cons, everyStep_cons, hiff ht hv.1]
    refine and_congr_right fun hq => ?_
    exact everyStep_iff hiff hkeep is (hkeep ht hv.1 hq) hv.2

theorem agreeThroughout_cons {code : σ → ι → σ} {spec : τ → ι → τ} {Agree : σ → τ → Prop}
    {s : σ} {t : τ} {i : ι} {is : List ι} :
    AgreeThroughout code spec Agree s t (i :: is) ↔
      Agree s t ∧ AgreeThroughout code spec Agree (code s i) (spec t i) is := by
  constructor
  · intro h
    refine ⟨h [] List.nil_prefix, fun pre hp => ?_⟩
    exact h (i :: pre) (by simpa using hp)
  · rintro ⟨h0, h⟩ pre hp
    cases pre with
    | nil => exact h0
    | cons k pre =>
      rw [List.cons_prefix_cons] at hp
      obtain ⟨rfl, hp⟩ := hp
      exact h pre hp

/-- One step of the code against one step of the reference. -/
structure Guarded (code : σ → ι → σ) (spec : τ → ι → τ) (Inv : σ → Prop) (Agree : σ → τ → Prop)
    (Valid Guard : τ → ι → Prop) : Prop where
  inv_step : ∀ {s} i, Inv s → Inv (code s i)
  agree_step : ∀ {s t i}, Inv s → Agree s t → Valid t i → Guard t i → Agree (code s i) (spec t i)
  differ_step : ∀ {s t i}, Inv s → Agree s t → Valid t i → ¬ Guard t i →
    ¬ Agree (code s i) (spec t i)

variable {code : σ → ι → σ} {spec : τ → ι → τ} {Inv : σ → Prop} {Agree : σ → τ → Prop}
  {Valid Guard : τ → ι → Prop}

/-- **A run agrees throughout exactly when each of its steps meets the guard.** -/
theorem Guarded.run_iff (h : Guarded code spec Inv Agree Valid Guard) :
    ∀ (is : List ι) {s : σ} {t : τ}, Inv s → Agree s t → EveryStep spec Valid t is →
      (AgreeThroughout code spec Agree s t is ↔ EveryStep spec Guard t is)
  | [], s, t, _, ha, _ => by
    refine ⟨fun _ => everyStep_nil _ _ _, fun _ pre hp => ?_⟩
    rw [List.prefix_nil] at hp
    subst hp
    exact ha
  | i :: is, s, t, hi, ha, hv => by
    rw [everyStep_cons] at hv
    rw [agreeThroughout_cons, everyStep_cons]
    constructor
    · rintro ⟨_, hr⟩
      have hnext : Agree (code s i) (spec t i) := hr [] List.nil_prefix
      have hg : Guard t i := by
        by_contra hg
        exact h.differ_step hi ha hv.1 hg hnext
      exact ⟨hg, (h.run_iff is (h.inv_step i hi) hnext hv.2).mp hr⟩
    · rintro ⟨hg, hr⟩
      have hnext := h.agree_step hi ha hv.1 hg
      exact ⟨ha, (h.run_iff is (h.inv_step i hi) hnext hv.2).mpr hr⟩

end GuardedRun
