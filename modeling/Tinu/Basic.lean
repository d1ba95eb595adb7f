import Mathlib

/-!
# Machine values shared by the modules

C strings are the characters before the terminating NUL; pointers are addresses, with `NULL`
at zero; function pointers are the addresses of C functions.  `gboolean` is `Bool`.
-/

set_option autoImplicit false

namespace Tinu

/-- A `gchar *` string. -/
abbrev CString := List Char

instance : Coe String CString := ⟨String.toList⟩

/-- A `gpointer`. -/
abbrev Ptr := Nat

def NULL : Ptr := 0

/-- The address of a C function. -/
abbrev FnPtr := Nat

/-- The range of a `guint32` counter. -/
def guint32Range : Nat := 2 ^ 32

/-- `x++` on a `guint` or `guint32`. -/
def guintIncr (x : Nat) : Nat := (x + 1) % guint32Range

theorem guintIncr_of_lt {x : Nat} (h : x + 1 < guint32Range) : guintIncr x = x + 1 :=
  Nat.mod_eq_of_lt h

/-- The first number that a `gint` does not hold. -/
def gintLimit : Nat := 2 ^ 31

/-- A number assigned to a `gint`, which keeps its low 32 bits. -/
def toGint (n : Nat) : Int := (n : Int).bmod (2 ^ 32)

theorem toGint_of_lt {n : Nat} (hn : n < gintLimit) : toGint n = n := by
  unfold gintLimit at hn
  exact Int.bmod_eq_of_le (by omega) (by omega)

/-- The range of a `gsize` on a 64-bit machine. -/
def gsizeRange : Nat := 2 ^ 64

end Tinu
