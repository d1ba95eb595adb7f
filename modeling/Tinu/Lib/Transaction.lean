import Mathlib

/-!
# Programs that raise, over a database with a transaction

A session is what is committed, what the open transaction has made of it, and the variables of the
program.  A statement works on what is pending.  A `with` block commits what is pending when its
body returns, and goes back to what is committed when it raises; the variables survive both.

* `Keeps.bind`, `Keeps.forM` — what holds whether a program returns or raises;
* `Keeps.withBlock` — what holds of the committed and of the pending contents;
* `withBlock_error` — one that raises leaves what was committed before it;
* `forM_ok`, `forM_returns` — a loop that returns is a fold, and one whose steps return does so.
-/

set_option autoImplicit false

namespace Transaction

variable {ε σ τ δ ρ α β ι : Type}

/-! ## Programs that raise -/

/-- The state in which a program ended. -/
def final : EStateM.Result ε σ α → σ
  | .ok _ s => s
  | .error _ s => s

/-- The program ended with an exception. -/
def raised : EStateM.Result ε σ α → Bool
  | .ok _ _ => false
  | .error _ _ => true

@[simp] theorem final_ok (a : α) (s : σ) : final (.ok a s : EStateM.Result ε σ α) = s := rfl

@[simp] theorem final_error (e : ε) (s : σ) : final (.error e s : EStateM.Result ε σ α) = s := rfl

@[simp] theorem raised_ok (a : α) (s : σ) : raised (.ok a s : EStateM.Result ε σ α) = false := rfl

@[simp] theorem raised_error (e : ε) (s : σ) :
    raised (.error e s : EStateM.Result ε σ α) = true := rfl

/-- A program that did not raise returned. -/
theorem ok_of_not_raised {r : EStateM.Result ε σ α} (h : raised r = false) :
    ∃ a, r = .ok a (final r) := by
  cases r with
  | ok a s => exact ⟨a, rfl⟩
  | error e s => exact absurd h (by simp)

/-- `try: body`, `except: handler; raise`. -/
def recover (body : EStateM ε σ α) (handler : EStateM ε σ Unit) : EStateM ε σ α := fun s =>
  match body.run s with
  | .ok a s' => .ok a s'
  | .error e s' =>
    match handler.run s' with
    | .ok _ s'' => .error e s''
    | .error e' s'' => .error e' s''

theorem recover_ok {body : EStateM ε σ α} {s s' : σ} {a : α} (handler : EStateM ε σ Unit)
    (h : body.run s = .ok a s') : (recover body handler).run s = .ok a s' := by
  show recover body handler s = _
  simp only [recover, h]

theorem recover_error {body : EStateM ε σ α} {handler : EStateM ε σ Unit} {s s' s'' : σ} {e : ε}
    (h : body.run s = .error e s') (hh : handler.run s' = .ok () s'') :
    (recover body handler).run s = .error e s'' := by
  show recover body handler s = _
  simp only [recover, h, hh]

/-- The handler has the last word on the state. -/
theorem final_recover {body : EStateM ε σ α} {handler : EStateM ε σ Unit} {s s' : σ} {e : ε}
    (h : body.run s = .error e s') :
    final ((recover body handler).run s) = final (handler.run s') := by
  show final (recover body handler s) = _
  cases hh : handler.run s' with
  | ok u s'' => simp only [recover, h, hh, final_error, final_ok]
  | error e' s'' => simp only [recover, h, hh, final_error]

theorem bind_ok {prog : EStateM ε σ α} {rest : α → EStateM ε σ β} {s s' : σ} {a : α}
    (h : prog.run s = .ok a s') : (prog >>= rest).run s = (rest a).run s' := by
  rw [EStateM.run_bind, h]

theorem bind_error {prog : EStateM ε σ α} {s s' : σ} {e : ε} (rest : α → EStateM ε σ β)
    (h : prog.run s = .error e s') : (prog >>= rest).run s = .error e s' := by
  rw [EStateM.run_bind, h]

/-- A sequence that returns returned at each of its parts. -/
theorem ok_of_bind {prog : EStateM ε σ α} {rest : α → EStateM ε σ β} {s s' : σ} {b : β}
    (h : (prog >>= rest).run s = .ok b s') :
    ∃ a s₁, prog.run s = .ok a s₁ ∧ (rest a).run s₁ = .ok b s' := by
  cases hp : prog.run s with
  | ok a s₁ => exact ⟨a, s₁, rfl, by rwa [bind_ok hp] at h⟩
  | error e s₁ => rw [bind_error rest hp] at h; cases h

/-- **A loop that returns is a fold**, over the part of the state that it works on. -/
theorem forM_ok {step : ι → EStateM ε σ PUnit} (embed : τ → σ) {f : τ → ι → τ}
    (h : ∀ i t s', (step i).run (embed t) = .ok ⟨⟩ s' → s' = embed (f t i)) :
    ∀ (is : List ι) (t : τ) (s' : σ), (ForM.forM is step).run (embed t) = .ok ⟨⟩ s' →
      s' = embed (is.foldl f t)
  | [], t, s', hrun => by
    cases hrun
    rfl
  | i :: is, t, s', hrun => by
    rw [List.forM_cons] at hrun
    obtain ⟨_, s₁, hfirst, hrest⟩ := ok_of_bind hrun
    rw [h i t s₁ hfirst] at hrest
    exact forM_ok embed h is (f t i) s' hrest

/-- A loop whose steps all return returns. -/
theorem forM_returns {step : ι → EStateM ε σ PUnit}
    (h : ∀ i s, ∃ s', (step i).run s = .ok ⟨⟩ s') :
    ∀ (is : List ι) (s : σ), ∃ s', (ForM.forM is step).run s = .ok ⟨⟩ s'
  | [], s => ⟨s, rfl⟩
  | i :: is, s => by
    obtain ⟨s₁, hfirst⟩ := h i s
    rw [List.forM_cons, bind_ok hfirst]
    exact forM_returns h is s₁

/-! ## Invariants -/

/-- The invariant holds in the state in which the program ends, returned or raised. -/
def Keeps (I : σ → Prop) (prog : EStateM ε σ α) : Prop := ∀ s, I s → I (final (prog.run s))

variable {I : σ → Prop}

theorem Keeps.bind {prog : EStateM ε σ α} {rest : α → EStateM ε σ β} (h : Keeps I prog)
    (hr : ∀ a, Keeps I (rest a)) : Keeps I (prog >>= rest) := by
  intro s hs
  have hp := h s hs
  cases hrun : prog.run s with
  | ok a s' =>
    rw [hrun] at hp
    rw [bind_ok hrun]
    exact hr a s' hp
  | error e s' =>
    rw [hrun] at hp
    rw [bind_error rest hrun]
    exact hp

/-- A program that only reads. -/
theorem Keeps.reads {prog : EStateM ε σ α} (h : ∀ s, ∃ a, prog.run s = .ok a s) :
    Keeps I prog := by
  intro s hs
  obtain ⟨a, ha⟩ := h s
  rw [ha]
  exact hs

theorem Keeps.forM {step : ι → EStateM ε σ PUnit} (h : ∀ i, Keeps I (step i)) :
    ∀ is : List ι, Keeps I (ForM.forM is step)
  | [] => fun _ hs => hs
  | i :: is => by
    rw [List.forM_cons]
    exact (h i).bind fun _ => Keeps.forM h is

/-! ## Sessions -/

/-- What is committed, what is pending, and the variables of the program. -/
structure Session (δ ρ : Type) where
  committed : δ
  pending : δ
  vars : ρ

/-- A session with nothing pending. -/
def settled (d : δ) (v : ρ) : Session δ ρ := ⟨d, d, v⟩

/-- Nothing is pending. -/
def Session.Settled (s : Session δ ρ) : Prop := s.pending = s.committed

theorem settled_settled (d : δ) (v : ρ) : (settled d v).Settled := rfl

/-- A statement works on what is pending. -/
def execute (stmt : EStateM ε δ α) : EStateM ε (Session δ ρ) α := fun s =>
  match stmt.run s.pending with
  | .ok a d => .ok a { s with pending := d }
  | .error e d => .error e { s with pending := d }

/-- `with db: body`. -/
def withBlock (body : EStateM ε (Session δ ρ) α) : EStateM ε (Session δ ρ) α := fun s =>
  match body.run s with
  | .ok a s' => .ok a (settled s'.pending s'.vars)
  | .error e s' => .error e (settled s'.committed s'.vars)

theorem execute_ok {stmt : EStateM ε δ α} {s : Session δ ρ} {a : α} {d : δ}
    (h : stmt.run s.pending = .ok a d) :
    (execute stmt).run s = .ok a { s with pending := d } := by
  show execute stmt s = _
  simp only [execute, h]

theorem execute_error {stmt : EStateM ε δ α} {s : Session δ ρ} {e : ε} {d : δ}
    (h : stmt.run s.pending = .error e d) :
    (execute stmt).run s = .error e { s with pending := d } := by
  show execute stmt s = _
  simp only [execute, h]

theorem withBlock_ok {body : EStateM ε (Session δ ρ) α} {s s' : Session δ ρ} {a : α}
    (h : body.run s = .ok a s') :
    (withBlock body).run s = .ok a (settled s'.pending s'.vars) := by
  show withBlock body s = _
  simp only [withBlock, h]

theorem withBlock_raised {body : EStateM ε (Session δ ρ) α} {s s' : Session δ ρ} {e : ε}
    (h : body.run s = .error e s') :
    (withBlock body).run s = .error e (settled s'.committed s'.vars) := by
  show withBlock body s = _
  simp only [withBlock, h]

/-- The property holds of what is committed and of what is pending. -/
def Session.Holds (P : δ → Prop) (s : Session δ ρ) : Prop := P s.committed ∧ P s.pending

variable {P : δ → Prop}

theorem Keeps.execute {stmt : EStateM ε δ α} (h : Keeps P stmt) :
    Keeps (Session.Holds P) (execute stmt : EStateM ε (Session δ ρ) α) := by
  intro s hs
  have hd := h s.pending hs.2
  cases hrun : stmt.run s.pending with
  | ok a d => rw [hrun] at hd; rw [execute_ok hrun]; exact ⟨hs.1, hd⟩
  | error e d => rw [hrun] at hd; rw [execute_error hrun]; exact ⟨hs.1, hd⟩

theorem Keeps.withBlock {body : EStateM ε (Session δ ρ) α} (h : Keeps (Session.Holds P) body) :
    Keeps (Session.Holds P) (withBlock body) := by
  intro s hs
  have hb := h s hs
  cases hrun : body.run s with
  | ok a s' => rw [hrun] at hb; rw [withBlock_ok hrun]; exact ⟨hb.2, hb.2⟩
  | error e s' => rw [hrun] at hb; rw [withBlock_raised hrun]; exact ⟨hb.1, hb.1⟩

/-- A statement commits nothing. -/
theorem keeps_committed (stmt : EStateM ε δ α) (d : δ) :
    Keeps (fun s : Session δ ρ => s.committed = d) (Transaction.execute stmt) := by
  intro s hs
  cases hrun : stmt.run s.pending with
  | ok a d' => rw [execute_ok hrun]; exact hs
  | error e d' => rw [execute_error hrun]; exact hs

/-- **A `with` block that raises leaves what was committed before it**, when its body commits
nothing. -/
theorem withBlock_error {body : EStateM ε (Session δ ρ) α} {s : Session δ ρ} {e : ε}
    {s' : Session δ ρ} (hk : Keeps (fun t : Session δ ρ => t.committed = s.committed) body)
    (h : (Transaction.withBlock body).run s = .error e s') :
    s' = settled s.committed s'.vars := by
  have hb := hk s rfl
  cases hrun : body.run s with
  | ok a s₁ => rw [withBlock_ok hrun] at h; cases h
  | error e₁ s₁ =>
    rw [hrun] at hb
    rw [withBlock_raised hrun] at h
    cases h
    have hb : s₁.committed = s.committed := hb
    rw [hb]
    rfl

end Transaction
