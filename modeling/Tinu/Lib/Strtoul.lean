import Mathlib

/-!
# `strtoul` in base 10

Blanks, an optional sign and digits are read; `strtoul` gives the value modulo `2 ^ 64`, or the
largest number when there are too many digits, and what is behind the digits.  `Number` says what
a string is made of that is read to its end.

* `strtoul_of_number`, `number_of_strtoul` — the strings that are read to the end, and the value;
* `Number.eq_digits` — a number that is all digits has neither blanks nor a sign.
-/

set_option autoImplicit false

namespace Strtoul

/-- The range of an `unsigned long`. -/
def ulongRange : Nat := 2 ^ 64

/-- `isspace`. -/
def isSpace (c : Char) : Bool :=
  c = ' ' || c = '\t' || c = '\n' || c.toNat = 11 || c.toNat = 12 || c = '\r'

/-- The sign in front of a string, and what is behind it. -/
def splitSign : List Char → List Char × List Char
  | '+' :: s => (['+'], s)
  | '-' :: s => (['-'], s)
  | s => ([], s)

/-- The number that the digits stand for. -/
def decimalValue (digits : List Char) : Nat :=
  digits.foldl (fun n c => 10 * n + (c.toNat - '0'.toNat)) 0

/-- The value of the digits with the sign. -/
def signedValue (sign digits : List Char) : Nat :=
  let n := decimalValue digits
  if ulongRange ≤ n then ulongRange - 1
  else if sign = ['-'] then (ulongRange - n) % ulongRange
  else n

/-- `strtoul (s, &endl, 10)`: the value, and the string at `endl`. -/
def strtoul (s : List Char) : Nat × List Char :=
  let (sign, t) := splitSign (s.dropWhile isSpace)
  let digits := t.takeWhile Char.isDigit
  if digits = [] then (0, s) else (signedValue sign digits, t.dropWhile Char.isDigit)

/-- The string is made of blanks, a sign and digits. -/
structure Number (s blanks sign digits : List Char) : Prop where
  eq : s = blanks ++ (sign ++ digits)
  blanks : ∀ c ∈ blanks, isSpace c
  sign : sign = [] ∨ sign = ['+'] ∨ sign = ['-']
  ne_nil : digits ≠ []
  digits : ∀ c ∈ digits, c.isDigit

/-- A digit is not a blank. -/
theorem not_isSpace_of_isDigit {c : Char} (hc : c.isDigit = true) : isSpace c = false := by
  have hrange : 48 ≤ c.toNat ∧ c.toNat ≤ 57 := by
    simpa [Char.isDigit, UInt32.le_iff_toNat_le] using hc
  have hne : ∀ {d : Char}, d.toNat < 48 → c ≠ d := by
    rintro d hd rfl
    omega
  have hspace := hne (d := ' ') (by decide)
  have htab := hne (d := '\t') (by decide)
  have hnewline := hne (d := '\n') (by decide)
  have hreturn := hne (d := '\r') (by decide)
  simp only [isSpace, hspace, htab, hnewline, hreturn, decide_false, Bool.false_or, Bool.or_false,
    Bool.or_eq_false_iff, decide_eq_false_iff_not]
  omega

/-- What `splitSign` gives is the string. -/
theorem splitSign_append (s : List Char) : (splitSign s).1 ++ (splitSign s).2 = s := by
  unfold splitSign
  split <;> rfl

theorem splitSign_sign (s : List Char) :
    (splitSign s).1 = [] ∨ (splitSign s).1 = ['+'] ∨ (splitSign s).1 = ['-'] := by
  unfold splitSign
  split <;> simp

theorem splitSign_digits {c : Char} (hc : c.isDigit = true) (s : List Char) :
    splitSign (c :: s) = ([], c :: s) := by
  unfold splitSign
  split
  · rename_i heq
    rw [(List.cons.inj heq).1] at hc
    exact absurd hc (by decide)
  · rename_i heq
    rw [(List.cons.inj heq).1] at hc
    exact absurd hc (by decide)
  · rfl

namespace Number

variable {s blanks sign digits : List Char}

/-- What is behind the blanks starts with no blank. -/
theorem dropWhile_eq (h : Number s blanks sign digits) :
    s.dropWhile isSpace = sign ++ digits := by
  have hrest : (sign ++ digits).dropWhile isSpace = sign ++ digits := by
    obtain rfl | rfl | rfl := h.sign
    · obtain ⟨c, t, rfl⟩ := List.exists_cons_of_ne_nil h.ne_nil
      have hc := not_isSpace_of_isDigit (h.digits c List.mem_cons_self)
      simp [hc]
    · rfl
    · rfl
  rw [h.eq, List.dropWhile_append, List.dropWhile_eq_nil_iff.mpr h.blanks]
  exact hrest

theorem splitSign_eq (h : Number s blanks sign digits) :
    splitSign (sign ++ digits) = (sign, digits) := by
  obtain rfl | rfl | rfl := h.sign
  · obtain ⟨c, t, rfl⟩ := List.exists_cons_of_ne_nil h.ne_nil
    exact splitSign_digits (h.digits c List.mem_cons_self) t
  · rfl
  · rfl

/-- A number that is all digits has neither blanks nor a sign. -/
theorem eq_digits (h : Number s blanks sign digits) (hs : ∀ c ∈ s, c.isDigit) :
    blanks = [] ∧ sign = [] ∧ s = digits := by
  have hblanks : blanks = [] := by
    refine List.eq_nil_iff_forall_not_mem.mpr fun c hc => ?_
    have hdigit := hs c (by rw [h.eq]; exact List.mem_append_left _ hc)
    exact absurd (h.blanks c hc) (by rw [not_isSpace_of_isDigit hdigit]; decide)
  have hsign : sign = [] := by
    obtain h0 | rfl | rfl := h.sign
    · exact h0
    · exact absurd (hs '+' (by rw [h.eq]; simp)) (by decide)
    · exact absurd (hs '-' (by rw [h.eq]; simp)) (by decide)
  refine ⟨hblanks, hsign, ?_⟩
  rw [h.eq, hblanks, hsign, List.nil_append, List.nil_append]

/-- A number ends with a digit. -/
theorem exists_digit (h : Number s blanks sign digits) : ∃ c ∈ s, c.isDigit := by
  obtain ⟨c, t, hd⟩ := List.exists_cons_of_ne_nil h.ne_nil
  refine ⟨c, ?_, h.digits c (by rw [hd]; exact List.mem_cons_self)⟩
  rw [h.eq, hd]
  simp

end Number

/-- Digits are a number. -/
theorem number_of_digits {s : List Char} (hne : s ≠ []) (hs : ∀ c ∈ s, c.isDigit) :
    Number s [] [] s :=
  ⟨rfl, fun _ hc => (List.not_mem_nil hc).elim, .inl rfl, hne, hs⟩

theorem strtoul_nil : strtoul [] = (0, []) := rfl

/-- **A number is read to its end.** -/
theorem strtoul_of_number {s blanks sign digits : List Char} (h : Number s blanks sign digits) :
    strtoul s = (signedValue sign digits, []) := by
  have htake : digits.takeWhile Char.isDigit = digits := List.takeWhile_eq_self_iff.mpr h.digits
  have hdrop : digits.dropWhile Char.isDigit = [] := List.dropWhile_eq_nil_iff.mpr h.digits
  simp only [strtoul, h.dropWhile_eq, h.splitSign_eq, htake, hdrop, if_neg h.ne_nil]

/-- **What is read to its end** is a number, or empty. -/
theorem number_of_strtoul {s : List Char} (hend : (strtoul s).2 = []) :
    s = [] ∨ ∃ blanks sign digits, Number s blanks sign digits := by
  simp only [strtoul] at hend
  split at hend
  · exact .inl hend
  · rename_i hne
    have hdigits := List.dropWhile_eq_nil_iff.mp hend
    have htake := List.takeWhile_eq_self_iff.mpr hdigits
    rw [htake] at hne
    refine .inr ⟨s.takeWhile isSpace, (splitSign (s.dropWhile isSpace)).1,
      (splitSign (s.dropWhile isSpace)).2, ?_, fun c hc => List.mem_takeWhile_imp hc,
      splitSign_sign _, hne, hdigits⟩
    rw [splitSign_append, List.takeWhile_append_dropWhile]

end Strtoul
