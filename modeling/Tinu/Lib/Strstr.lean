import Mathlib

/-!
# The first occurrence of a pattern

`strstr pat s` is the rest of `s` from the first occurrence of `pat` on.  `Pieces pat s l` says
that `l` is what is left of `s` between the occurrences.

* `strstr_append`, `strstr_eq_none` — where the search ends;
* `strstr_some` — what it gives;
* `exists_pieces` — every string has pieces.
-/

set_option autoImplicit false

namespace Strstr

variable {α : Type} [DecidableEq α]

/-- The rest from the first occurrence on. -/
def strstr (pat : List α) : List α → Option (List α)
  | [] => if pat = [] then some [] else none
  | c :: s => if pat <+: c :: s then some (c :: s) else strstr pat s

/-- Nothing is found exactly without an occurrence. -/
theorem strstr_eq_none {pat : List α} : ∀ {s : List α}, strstr pat s = none ↔ ¬ pat <:+: s
  | [] => by
    rw [strstr, List.infix_nil]
    split <;> simp_all
  | c :: s => by
    rw [strstr, List.infix_cons_iff, not_or, ← strstr_eq_none]
    split <;> simp_all

/-- **The first occurrence is found**, when no other one begins before it. -/
theorem strstr_append {pat : List α} (hne : pat ≠ []) (rest : List α) :
    ∀ {s : List α}, ¬ pat <:+: s ++ pat.dropLast →
      strstr pat (s ++ (pat ++ rest)) = some (pat ++ rest)
  | [], _ => by
    obtain ⟨c, t, rfl⟩ := List.exists_cons_of_ne_nil hne
    exact if_pos (List.prefix_append _ _)
  | c :: s, h => by
    rw [List.cons_append] at h
    have hsplit : (s ++ (pat ++ rest)) = (s ++ pat.dropLast) ++ (pat.getLast hne :: rest) := by
      conv_lhs => rw [← List.dropLast_append_getLast hne]
      simp
    rw [List.cons_append, strstr, if_neg]
    · exact strstr_append hne rest fun hin => h (hin.trans (List.suffix_cons _ _).isInfix)
    · intro hpre
      rw [hsplit, ← List.cons_append] at hpre
      refine h (List.prefix_of_prefix_length_le hpre (List.prefix_append _ _) ?_).isInfix
      have hpos : 0 < pat.length := List.length_pos_iff.mpr hne
      simp only [List.length_cons, List.length_append, List.length_dropLast]
      omega

/-- What is found is an occurrence, with none before it. -/
theorem strstr_some {pat : List α} (hne : pat ≠ []) :
    ∀ {s pos : List α}, strstr pat s = some pos →
      ∃ front rest, s = front ++ (pat ++ rest) ∧ pos = pat ++ rest ∧ ¬ pat <:+: front
  | [], pos, h => by
    rw [strstr, if_neg hne] at h
    cases h
  | c :: s, pos, h => by
    rw [strstr] at h
    split at h
    · rename_i hpre
      cases h
      obtain ⟨rest, hrest⟩ := hpre
      exact ⟨[], rest, hrest.symm, hrest.symm, fun hin => hne (List.eq_nil_of_infix_nil hin)⟩
    · rename_i hpre
      obtain ⟨front, rest, rfl, rfl, hfree⟩ := strstr_some hne h
      refine ⟨c :: front, rest, rfl, rfl, fun hin => ?_⟩
      obtain hp | hi := List.infix_cons_iff.mp hin
      · exact hpre (hp.trans (List.prefix_append (c :: front) (pat ++ rest)))
      · exact hfree hi

/-- The string is the pieces with the pattern between them, and is not in any of them. -/
structure Pieces (pat s : List α) (pieces : List (List α)) : Prop where
  ne_nil : pieces ≠ []
  free : ∀ t ∈ pieces, ¬ pat <:+: t
  eq : s = pat.intercalate pieces

/-- **Every string has pieces.** -/
theorem exists_pieces {pat : List α} (hne : pat ≠ []) (s : List α) :
    ∃ pieces, Pieces pat s pieces := by
  induction hn : s.length using Nat.strong_induction_on generalizing s with
  | _ n ih =>
    cases hfind : strstr pat s with
    | none =>
      refine ⟨[s], List.cons_ne_nil _ _, fun t ht => ?_, List.intercalate_singleton.symm⟩
      rw [List.mem_singleton.mp ht]
      exact strstr_eq_none.mp hfind
    | some pos =>
      obtain ⟨front, rest, rfl, _, hfree⟩ := strstr_some hne hfind
      have hpos : 0 < pat.length := List.length_pos_iff.mpr hne
      have hlt : rest.length < n := by
        rw [← hn, List.length_append, List.length_append]
        omega
      obtain ⟨pieces, hpieces⟩ := ih rest.length hlt rest rfl
      refine ⟨front :: pieces, List.cons_ne_nil _ _, fun t ht => ?_, ?_⟩
      · obtain rfl | ht := List.mem_cons.mp ht
        · exact hfree
        · exact hpieces.free t ht
      · rw [List.intercalate_cons_of_ne_nil hpieces.ne_nil, ← hpieces.eq, List.append_assoc]

end Strstr
