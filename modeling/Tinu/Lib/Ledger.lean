import Mathlib.Data.Multiset.Filter

/-!
# Ledgers

Events take resources and give them back.  `held` is what is held after a list of events; giving
back what is not held is a fault (`none`).

* `Takes.trans`, `Takes.frame` — one list of events after another, and with what it does not touch;
* `takes_acquire`, `takes_release`, `takes_releaseAll` — the events;
* `outstanding_eq`, `Takes.reclaim` — what is held of a kind, read off the events, and giving it
  all back;
* `Takes.unique` — what is held is determined.
-/

set_option autoImplicit false

namespace Ledger

variable {ρ : Type} [DecidableEq ρ]

inductive Event (ρ : Type) where
  | acquire (r : ρ)
  | release (r : ρ)
  deriving DecidableEq, Repr

def Event.step (held : Multiset ρ) : Event ρ → Option (Multiset ρ)
  | .acquire r => some (r ::ₘ held)
  | .release r => if r ∈ held then some (held.erase r) else none

/-- What is held after the events. -/
def held : Multiset ρ → List (Event ρ) → Option (Multiset ρ)
  | h, [] => some h
  | h, e :: es => (e.step h).bind fun h => held h es

/-- From `h` the events lead to `h'`, without a fault. -/
def Takes (h : Multiset ρ) (es : List (Event ρ)) (h' : Multiset ρ) : Prop := held h es = some h'

theorem Takes.nil (h : Multiset ρ) : Takes h [] h := rfl

theorem Takes.unique {h h' h'' : Multiset ρ} {es : List (Event ρ)} (h1 : Takes h es h')
    (h2 : Takes h es h'') : h' = h'' := Option.some.inj (h1.symm.trans h2)

theorem held_append (h : Multiset ρ) (es es' : List (Event ρ)) :
    held h (es ++ es') = (held h es).bind fun h => held h es' := by
  induction es generalizing h with
  | nil => rfl
  | cons e es ih =>
    rw [List.cons_append, held, held, Option.bind_assoc]
    exact congrArg _ (funext ih)

/-- **One list of events after another.** -/
theorem Takes.trans {h h' h'' : Multiset ρ} {es es' : List (Event ρ)} (h1 : Takes h es h')
    (h2 : Takes h' es' h'') : Takes h (es ++ es') h'' := by
  rw [Takes, held_append, h1]
  exact h2

theorem Takes.cons {h h' h'' : Multiset ρ} {e : Event ρ} {es : List (Event ρ)}
    (h1 : e.step h = some h') (h2 : Takes h' es h'') : Takes h (e :: es) h'' := by
  rw [Takes, held, h1]
  exact h2

theorem takes_acquire (h : Multiset ρ) (r : ρ) : Takes h [.acquire r] (r ::ₘ h) := rfl

theorem takes_release (h : Multiset ρ) (r : ρ) : Takes (r ::ₘ h) [.release r] h := by
  rw [Takes, held, Event.step, if_pos (Multiset.mem_cons_self r h), Multiset.erase_cons_head]
  rfl

/-- **What the events do not touch** is held on. -/
theorem Takes.frame {h h' : Multiset ρ} {es : List (Event ρ)} (ht : Takes h es h')
    (k : Multiset ρ) : Takes (h + k) es (h' + k) := by
  induction es generalizing h with
  | nil =>
    obtain rfl : h = h' := Option.some.inj ht
    exact Takes.nil _
  | cons e es ih =>
    obtain ⟨h1, hstep, hrest⟩ := Option.bind_eq_some_iff.mp ht
    refine Takes.cons ?_ (ih hrest)
    cases e with
    | acquire r =>
      obtain rfl : r ::ₘ h = h1 := Option.some.inj hstep
      rw [Event.step, Multiset.cons_add]
    | release r =>
      by_cases hr : r ∈ h
      · rw [Event.step, if_pos hr] at hstep
        obtain rfl := Option.some.inj hstep
        rw [Event.step, if_pos (Multiset.mem_add.mpr (.inl hr)), Multiset.erase_add_left_pos _ hr]
      · rw [Event.step, if_neg hr] at hstep
        cases hstep

/-- Everything is given back. -/
theorem takes_releaseAll : ∀ (rs : List ρ) (h : Multiset ρ),
    Takes ((rs : Multiset ρ) + h) (rs.map .release) h
  | [], h => by
    rw [Multiset.coe_nil, Multiset.zero_add]
    exact Takes.nil h
  | r :: rs, h => by
    rw [← Multiset.cons_coe, Multiset.cons_add]
    exact (takes_release _ r).trans (takes_releaseAll rs h)

/-- Everything is taken. -/
theorem takes_acquireAll : ∀ (rs : List ρ) (h : Multiset ρ),
    Takes h (rs.map .acquire) ((rs : Multiset ρ) + h)
  | [], h => by
    rw [Multiset.coe_nil, Multiset.zero_add]
    exact Takes.nil h
  | r :: rs, h => by
    have hrest := takes_acquireAll rs (r ::ₘ h)
    rw [← Multiset.cons_coe, Multiset.cons_add, ← Multiset.add_cons]
    exact (takes_acquire h r).trans hrest

/-! ## One kind of resource -/

/-- The resources of a kind that the events have taken and not given back. -/
def outstanding (kind : ρ → Bool) : List ρ → List (Event ρ) → List ρ
  | rs, [] => rs
  | rs, .acquire r :: es => outstanding kind (if kind r then r :: rs else rs) es
  | rs, .release r :: es => outstanding kind (rs.erase r) es

/-- They are what is held of the kind. -/
theorem outstanding_eq (kind : ρ → Bool) :
    ∀ (es : List (Event ρ)) {h h' : Multiset ρ} {rs : List ρ}, Takes h es h' →
      (rs : Multiset ρ) = h.filter (kind · = true) →
        (outstanding kind rs es : Multiset ρ) = h'.filter (kind · = true)
  | [], h, h', rs, ht, hrs => by
    obtain rfl : h = h' := Option.some.inj ht
    exact hrs
  | .acquire r :: es, h, h', rs, ht, hrs => by
    refine outstanding_eq kind es ht ?_
    by_cases hr : kind r = true
    · rw [if_pos hr, Multiset.filter_cons_of_pos (p := (kind · = true)) _ hr, ← hrs,
        Multiset.cons_coe]
    · rw [if_neg hr, Multiset.filter_cons_of_neg (p := (kind · = true)) _ hr, hrs]
  | .release r :: es, h, h', rs, ht, hrs => by
    by_cases hr : r ∈ h
    · rw [Takes, held, Event.step, if_pos hr, Option.bind_some] at ht
      refine outstanding_eq kind es ht ?_
      rw [← Multiset.coe_erase, hrs]
      obtain ⟨k, rfl⟩ := Multiset.exists_cons_of_mem hr
      rw [Multiset.erase_cons_head]
      by_cases hkind : kind r = true
      · rw [Multiset.filter_cons_of_pos (p := (kind · = true)) _ hkind, Multiset.erase_cons_head]
      · rw [Multiset.filter_cons_of_neg (p := (kind · = true)) _ hkind, Multiset.erase_of_notMem]
        exact fun hmem => hkind (Multiset.mem_filter.mp hmem).2
    · rw [Takes, held, Event.step, if_neg hr, Option.bind_none] at ht
      cases ht

/-- **Reclaiming a kind**: what is outstanding is given back, and the rest is held on. -/
theorem Takes.reclaim (kind : ρ → Bool) {h : Multiset ρ} {es : List (Event ρ)}
    (ht : Takes 0 es h) (k : Multiset ρ) :
    Takes (h + k) ((outstanding kind [] es).map .release)
      (h.filter (¬ kind · = true) + k) := by
  have hheld := outstanding_eq kind es ht (Multiset.filter_zero _).symm
  have hall := takes_releaseAll (outstanding kind [] es) (h.filter (¬ kind · = true) + k)
  rwa [hheld, ← Multiset.add_assoc, Multiset.filter_add_not] at hall

end Ledger
