import Mathlib

/-!
# Loops that fill a dictionary

`touch` changes the value under one key, created if there is none, by a step that may fail.

* `touch_foldlM` — inputs for one key, one after the other, are one `touch`;
* `foldlM_touch` — inputs for distinct new keys give each key its value;
* `foldlM_lift` — a loop over a part of a state is a loop over that part;
* `foldlM_blocks` — a loop over blocks of inputs, one for each key, gives each key what its block
  alone gives.
-/

set_option autoImplicit false

namespace Dict

variable {κ ν ι α : Type} [DecidableEq κ]

/-- The value under `k`, which is `new k` if there is none, goes through `f`. -/
def touch (new : κ → ν) (f : ν → Option ν) (k : κ) (m : AList fun _ : κ => ν) :
    Option (AList fun _ : κ => ν) :=
  (f ((m.lookup k).getD (new k))).map fun v => m.insert k v

/-- After an insertion under the key the value there is known. -/
theorem touch_insert (new : κ → ν) (f : ν → Option ν) (k : κ) (m : AList fun _ : κ => ν) (v : ν) :
    touch new f k (m.insert k v) = (f v).map fun v' => m.insert k v' := by
  unfold touch
  rw [AList.lookup_insert, Option.getD_some]
  cases f v with
  | none => rfl
  | some v' => rw [Option.map_some, Option.map_some, AList.insert_insert]

/-- Look up, creating what is not there, change the value and write it back. -/
theorem touch_lookup (new : κ → ν) (f : ν → Option ν) (k : κ) (m : AList fun _ : κ => ν) :
    (do
      let m' := if (m.lookup k).isNone then m.insert k (new k) else m
      let v ← m'.lookup k
      let v ← f v
      some (m'.insert k v)) = touch new f k m := by
  unfold touch
  cases h : m.lookup k with
  | none =>
    simp only [Option.isNone_none, if_true, AList.lookup_insert, Option.getD_none,
      Option.bind_eq_bind, Option.bind_some]
    cases f (new k) with
    | none => rfl
    | some v => rw [Option.bind_some, AList.insert_insert, Option.map_some]
  | some v =>
    simp only [Option.isNone_some, Bool.false_eq_true, if_false, h, Option.getD_some,
      Option.bind_eq_bind, Option.bind_some]
    cases f v with
    | none => rfl
    | some v' => rfl

/-- **Inputs for one key.** -/
theorem touch_foldlM (new : κ → ν) (f : ν → ι → Option ν) (k : κ) (i : ι) :
    ∀ (is : List ι) (m : AList fun _ : κ => ν),
      (i :: is).foldlM (fun m i => touch new (fun v => f v i) k m) m =
        touch new (fun v => (i :: is).foldlM f v) k m := by
  have hrest : ∀ (is : List ι) (m : AList fun _ : κ => ν) (v : ν),
      is.foldlM (fun m i => touch new (fun v => f v i) k m) (m.insert k v) =
        (is.foldlM f v).map fun v' => m.insert k v' := by
    intro is
    induction is with
    | nil => intro m v; rfl
    | cons i is ih =>
      intro m v
      rw [List.foldlM_cons, touch_insert, List.foldlM_cons]
      cases hf : f v i with
      | none => rfl
      | some v' => exact ih m v'
  intro is m
  have hfirst : touch new (fun v => f v i) k m =
      (f ((m.lookup k).getD (new k)) i).map fun v => m.insert k v := rfl
  have hall : touch new (fun v => (i :: is).foldlM f v) k m =
      ((i :: is).foldlM f ((m.lookup k).getD (new k))).map fun v => m.insert k v := rfl
  rw [hall, List.foldlM_cons, List.foldlM_cons, hfirst]
  cases f ((m.lookup k).getD (new k)) i with
  | none => rfl
  | some v' => exact hrest is m v'

/-- Each element has a value it is related to under its key, and there are no other keys. -/
structure Represents (key : α → κ) (R : α → ν → Prop) (xs : List α)
    (m : AList fun _ : κ => ν) : Prop where
  found : ∀ x ∈ xs, ∃ v, m.lookup (key x) = some v ∧ R x v
  only : ∀ k, k ∉ xs.map key → m.lookup k = none

/-- **Inputs for distinct keys** that are not there yet. -/
theorem foldlM_touch {new : κ → ν} {g : α → ν → Option ν} {key : α → κ} {R : α → ν → Prop} :
    ∀ (xs : List α) (m : AList fun _ : κ => ν), (xs.map key).Nodup →
      (∀ x ∈ xs, ∃ v, g x (new (key x)) = some v ∧ R x v) →
      (∀ x ∈ xs, m.lookup (key x) = none) →
      ∃ m', xs.foldlM (fun m x => touch new (g x) (key x) m) m = some m' ∧
        (∀ x ∈ xs, ∃ v, m'.lookup (key x) = some v ∧ R x v) ∧
        ∀ k, k ∉ xs.map key → m'.lookup k = m.lookup k
  | [], m, _, _, _ => ⟨m, rfl, fun x hx => (List.not_mem_nil hx).elim, fun _ _ => rfl⟩
  | x :: xs, m, hnd, hval, hnew => by
    rw [List.map_cons, List.nodup_cons] at hnd
    obtain ⟨v, hv, hR⟩ := hval x List.mem_cons_self
    have hx : touch new (g x) (key x) m = some (m.insert (key x) v) := by
      unfold touch
      rw [hnew x List.mem_cons_self, Option.getD_none, hv, Option.map_some]
    have hne : ∀ y ∈ xs, key y ≠ key x := fun y hy h => hnd.1 (h ▸ List.mem_map_of_mem hy)
    obtain ⟨m', hrun, hin, hout⟩ := foldlM_touch xs (m.insert (key x) v) hnd.2
      (fun y hy => hval y (List.mem_cons_of_mem _ hy)) fun y hy => by
        rw [AList.lookup_insert_ne (hne y hy)]
        exact hnew y (List.mem_cons_of_mem _ hy)
    refine ⟨m', ?_, ?_, ?_⟩
    · rw [List.foldlM_cons, hx]
      exact hrun
    · intro y hy
      rcases List.mem_cons.mp hy with rfl | hy
      · exact ⟨v, by rw [hout _ hnd.1, AList.lookup_insert], hR⟩
      · exact hin y hy
    · intro k hk
      rw [List.map_cons, List.mem_cons, not_or] at hk
      rw [hout k hk.2, AList.lookup_insert_ne hk.1]

/-- Of a loop over the entries only the one under `k` is left, when the others give nothing. -/
theorem entries_flatMap {β : Type} (m : AList fun _ : κ => ν) (k : κ) (f : ν → List β)
    (h : ∀ e ∈ m.entries, e.1 ≠ k → f e.2 = []) :
    (m.entries.flatMap fun e => f e.2) = ((m.lookup k).map f).getD [] := by
  have hlist : ∀ l : List (Σ _ : κ, ν), l.NodupKeys → (∀ e ∈ l, e.1 ≠ k → f e.2 = []) →
      (l.flatMap fun e => f e.2) = ((l.dlookup k).map f).getD [] := by
    intro l
    induction l with
    | nil => exact fun _ _ => rfl
    | cons e l ih =>
      intro hnd hl
      obtain ⟨a, v⟩ := e
      obtain ⟨ha, hnd⟩ := List.nodupKeys_cons.mp hnd
      have ih := ih hnd fun e he => hl e (List.mem_cons_of_mem _ he)
      rw [List.flatMap_cons, ih]
      by_cases hk : a = k
      · subst hk
        rw [List.dlookup_cons_eq, List.dlookup_eq_none.mpr ha]
        exact List.append_nil _
      · rw [List.dlookup_cons_ne l ⟨a, v⟩ (Ne.symm hk), hl ⟨a, v⟩ List.mem_cons_self hk]
        rfl
  exact hlist m.entries m.nodupKeys h

theorem foldlM_cons_of_some {σ ω : Type} {step : σ → ι → ω → Option σ} {s s' : σ} {i : ι} {o : ω}
    {is : List (ι × ω)} (h : step s i o = some s') :
    ((i, o) :: is).foldlM (fun s i => step s i.1 i.2) s =
      is.foldlM (fun s i => step s i.1 i.2) s' := by
  rw [List.foldlM_cons, h]
  rfl

/-- **A loop over a part of a state.** -/
theorem foldlM_lift {σ μ : Type} (embed : μ → σ) {step : σ → ι → Option σ} {g : μ → ι → Option μ} :
    ∀ {is : List ι}, (∀ m, ∀ i ∈ is, step (embed m) i = (g m i).map embed) →
      ∀ m, is.foldlM step (embed m) = (is.foldlM g m).map embed
  | [], _, m => rfl
  | i :: is, h, m => by
    rw [List.foldlM_cons, List.foldlM_cons, h m i List.mem_cons_self]
    cases g m i with
    | none => rfl
    | some m' => exact foldlM_lift embed (fun m i hi => h m i (List.mem_cons_of_mem _ hi)) m'

/-- A loop over blocks. -/
theorem foldlM_flatMap {σ : Type} (step : σ → ι → Option σ) (h : α → List ι) :
    ∀ (xs : List α) (s : σ),
      (xs.flatMap h).foldlM step s = xs.foldlM (fun s x => (h x).foldlM step s) s
  | [], _ => rfl
  | x :: xs, s => by
    rw [List.flatMap_cons, List.foldlM_append, List.foldlM_cons]
    cases (h x).foldlM step s with
    | none => rfl
    | some s' => exact foldlM_flatMap step h xs s'

/-- **A loop over blocks, one for each key.**  An input of the block of `x` changes the value under
the key of `x`, and no other. -/
theorem foldlM_blocks {σ β : Type} (embed : (AList fun _ : κ => ν) → σ) (step : σ → ι → Option σ)
    (items : α → List β) (enc : α → β → ι) {new : κ → ν} {parse : ν → β → Option ν} {key : α → κ}
    {R : α → ν → Prop} {xs : List α} (hnd : (xs.map key).Nodup)
    (hne : ∀ x ∈ xs, items x ≠ [])
    (hstep : ∀ x ∈ xs, ∀ i ∈ items x, ∀ m,
      step (embed m) (enc x i) = (touch new (fun v => parse v i) (key x) m).map embed)
    (hval : ∀ x ∈ xs, ∃ v, (items x).foldlM parse (new (key x)) = some v ∧ R x v) :
    ∃ m, (xs.flatMap fun x => (items x).map (enc x)).foldlM step (embed ∅) = some (embed m) ∧
      Represents key R xs m := by
  have hblock : ∀ m, ∀ x ∈ xs, ((items x).map (enc x)).foldlM step (embed m) =
      (touch new (fun v => (items x).foldlM parse v) (key x) m).map embed := by
    intro m x hx
    obtain ⟨i, is, his⟩ := List.exists_cons_of_ne_nil (hne x hx)
    rw [List.foldlM_map, foldlM_lift embed (fun m i hi => hstep x hx i hi m), his, touch_foldlM]
  obtain ⟨m, hrun, hfound, hother⟩ :=
    foldlM_touch (g := fun x v => (items x).foldlM parse v) xs ∅ hnd hval fun _ _ => rfl
  refine ⟨m, ?_, hfound, fun k hk => ?_⟩
  · rw [foldlM_flatMap, foldlM_lift embed hblock, hrun, Option.map_some]
  · rw [hother k hk, AList.lookup_empty]

end Dict
