import Mathlib.Data.List.Basic

/-!
# Format strings

`vprintf` writes a format with its arguments: `%d`, `%s`, each with a width `*` and the flag `-`.
`Prints fmt args text` says that the format with the arguments writes the text, whatever comes
behind either.

* `prints_plain`, `prints_conv`, `prints_width`, `prints_left` — text and directives;
* `Prints.append` — formats one after the other;
* `Prints.eq` — the whole call; arguments that are left over do not matter.
-/

set_option autoImplicit false

namespace Printf

inductive Arg where
  | int (n : Int)
  | str (s : List Char)
  deriving DecidableEq, Repr

/-- The digits of a number, and its sign. -/
def decimal (n : Int) : List Char :=
  if n < 0 then '-' :: Nat.toDigits 10 n.natAbs else Nat.toDigits 10 n.natAbs

/-- A conversion, of an argument of its kind. -/
def conv : Char → Arg → Option (List Char)
  | 'd', .int n => some (decimal n)
  | 's', .str s => some s
  | _, _ => none

/-- The text in a field; a negative width has the flag `-`. -/
def pad (left : Bool) (width : Int) (s : List Char) : List Char :=
  if left || decide (width < 0) then s ++ List.replicate (width.natAbs - s.length) ' '
  else List.replicate (width.natAbs - s.length) ' ' ++ s

/-- What is written; `none` when a directive is none of these, or lacks an argument of its kind. -/
def vprintf : List Char → List Arg → Option (List Char)
  | [], _ => some []
  | '%' :: '-' :: '*' :: k :: fmt, .int width :: a :: args => do
    let s ← conv k a
    let rest ← vprintf fmt args
    some (pad true width s ++ rest)
  | '%' :: '*' :: k :: fmt, .int width :: a :: args => do
    let s ← conv k a
    let rest ← vprintf fmt args
    some (pad false width s ++ rest)
  | '%' :: k :: fmt, a :: args => do
    let s ← conv k a
    let rest ← vprintf fmt args
    some (s ++ rest)
  | c :: fmt, args =>
    if c = '%' then none else (vprintf fmt args).map (c :: ·)

/-- The format with the arguments writes the text. -/
def Prints (fmt : List Char) (args : List Arg) (text : List Char) : Prop :=
  ∀ fmt' args', vprintf (fmt ++ fmt') (args ++ args') = (vprintf fmt' args').map (text ++ ·)

theorem prints_nil : Prints [] [] [] := by
  intro fmt' args'
  cases h : vprintf fmt' args' <;> simp [h]

theorem Prints.append {fmt fmt' : List Char} {args args' : List Arg} {text text' : List Char}
    (h : Prints fmt args text) (h' : Prints fmt' args' text') :
    Prints (fmt ++ fmt') (args ++ args') (text ++ text') := by
  intro fmt2 args2
  rw [List.append_assoc, List.append_assoc, h, h', Option.map_map]
  congr 1
  funext rest
  exact (List.append_assoc text text' rest).symm

/-- **The whole call.** -/
theorem Prints.eq {fmt : List Char} {args : List Arg} {text : List Char}
    (h : Prints fmt args text) (rest : List Arg) : vprintf fmt (args ++ rest) = some text := by
  have hall := h [] rest
  rwa [List.append_nil, vprintf, Option.map_some, List.append_nil] at hall

theorem prints_char {c : Char} (hc : c ≠ '%') : Prints [c] [] [c] := by
  intro fmt' args'
  rw [List.singleton_append, List.nil_append, vprintf]
  · rw [if_neg hc]
    rfl
  all_goals
    intros
    simp_all

/-- **Text without `%`** writes itself. -/
theorem prints_plain : ∀ {s : List Char}, '%' ∉ s → Prints s [] s
  | [], _ => prints_nil
  | c :: s, h => by
    rw [List.mem_cons, not_or] at h
    exact (prints_char (Ne.symm h.1)).append (prints_plain h.2)

theorem conv_some {k : Char} {a : Arg} {s : List Char} (h : conv k a = some s) :
    k ≠ '-' ∧ k ≠ '*' := by
  constructor <;>
    rintro rfl <;>
    cases h

/-- **A directive.** -/
theorem prints_conv {k : Char} {a : Arg} {s : List Char} (h : conv k a = some s) :
    Prints ['%', k] [a] s := by
  obtain ⟨hminus, hstar⟩ := conv_some h
  intro fmt' args'
  have hstep : vprintf ('%' :: k :: fmt') (a :: args') =
      (conv k a).bind fun s => (vprintf fmt' args').bind fun rest => some (s ++ rest) := by
    rw [vprintf]
    · rfl
    all_goals
      intros
      simp_all
  exact hstep.trans (by rw [h, Option.bind_some, Option.map_eq_bind]; rfl)

/-- **A directive with a width.** -/
theorem prints_width {k : Char} {a : Arg} {s : List Char} (h : conv k a = some s) (width : Int) :
    Prints ['%', '*', k] [.int width, a] (pad false width s) := by
  intro fmt' args'
  have hstep : vprintf ('%' :: '*' :: k :: fmt') (.int width :: a :: args') =
      (conv k a).bind fun s =>
        (vprintf fmt' args').bind fun rest => some (pad false width s ++ rest) := by
    rw [vprintf]
    rfl
  exact hstep.trans (by rw [h, Option.bind_some, Option.map_eq_bind]; rfl)

/-- **A directive that fills its field from the left.** -/
theorem prints_left {k : Char} {a : Arg} {s : List Char} (h : conv k a = some s) (width : Int) :
    Prints ['%', '-', '*', k] [.int width, a] (pad true width s) := by
  intro fmt' args'
  have hstep : vprintf ('%' :: '-' :: '*' :: k :: fmt') (.int width :: a :: args') =
      (conv k a).bind fun s =>
        (vprintf fmt' args').bind fun rest => some (pad true width s ++ rest) := by
    rw [vprintf]
    rfl
  exact hstep.trans (by rw [h, Option.bind_some, Option.map_eq_bind]; rfl)

end Printf
