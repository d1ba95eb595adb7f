import Tinu.Basic
import Tinu.Lib.Strstr

/-!
# Texts of the reports (`report-external.c`, `report-standard.c`)

`_prg_report_replace` puts the name of the pass file in place of every `%s` of the command line of
an external report.  `_humanly_readable_size` gives an amount of memory in bytes, kB or MB; its
divisor for MB is a macro without parentheses.

* `strstr_placeholder` — a piece of the template is left at its end;
* `prgReportReplaceLoop_eq` — the loop, from any place between two pieces;
* `prgReportReplace_eq` — what is replaced;
* `printedBytes_eq`, `sizes_faithful_iff` — the bytes that a size stands for when it is read.
-/

set_option autoImplicit false

namespace Tinu

open Strstr (strstr Pieces)

/-! ## The command line of an external report -/

/-- The text that is replaced. -/
def placeholder : CString := ['%', 's']

theorem strstr_length_le {pos0 pos : CString} (h : strstr placeholder pos0 = some pos) :
    (pos.drop 2).length < pos0.length := by
  obtain ⟨front, rest, rfl, rfl, _⟩ := Strstr.strstr_some (by decide) h
  simp only [placeholder, List.length_drop, List.length_append, List.length_cons, List.length_nil]
  omega

/-- The loop of `_prg_report_replace`; both cursors are what is left of the template. -/
def prgReportReplaceLoop (argument string pos0 : CString) : CString :=
  match _hfind : strstr placeholder pos0 with
  | none => string ++ pos0
  | some pos =>
    prgReportReplaceLoop argument (string ++ pos0.take (pos0.length - pos.length) ++ argument)
      (pos.drop 2)
termination_by pos0.length
decreasing_by exact strstr_length_le _hfind

/-- `_prg_report_replace`. -/
def prgReportReplace (template argument : CString) : CString :=
  prgReportReplaceLoop argument [] template

/-- The search stops at the end of a piece, as the two characters differ. -/
theorem strstr_placeholder {t : CString} (ht : ¬ placeholder <:+: t) (rest : CString) :
    strstr placeholder (t ++ (placeholder ++ rest)) = some (placeholder ++ rest) := by
  refine Strstr.strstr_append (by decide) rest fun hin => ht ?_
  obtain ⟨a, b, hab⟩ := hin
  cases b using List.reverseRecOn with
  | nil =>
    have hlast := congrArg List.getLast? hab
    simp [placeholder] at hlast
  | append_singleton b c =>
    refine ⟨a, b, ?_⟩
    rw [← List.append_assoc] at hab
    exact (List.append_inj' hab rfl).1

/-- **One round**: the piece is appended, then the argument, and the scan goes on behind the
placeholder. -/
theorem prgReportReplaceLoop_some {argument string t rest : CString} (ht : ¬ placeholder <:+: t) :
    prgReportReplaceLoop argument string (t ++ (placeholder ++ rest)) =
      prgReportReplaceLoop argument (string ++ t ++ argument) rest := by
  rw [prgReportReplaceLoop]
  split
  · rename_i hfind
    rw [strstr_placeholder ht] at hfind
    cases hfind
  · rename_i pos hfind
    rw [strstr_placeholder ht] at hfind
    cases hfind
    have hfront : (t ++ (placeholder ++ rest)).take
        ((t ++ (placeholder ++ rest)).length - (placeholder ++ rest).length) = t := by
      rw [List.length_append, Nat.add_sub_cancel, List.take_left]
    rw [hfront]
    rfl

theorem prgReportReplaceLoop_none {argument string t : CString} (ht : ¬ placeholder <:+: t) :
    prgReportReplaceLoop argument string t = string ++ t := by
  rw [prgReportReplaceLoop]
  split
  · rfl
  · rename_i pos hfind
    rw [Strstr.strstr_eq_none.mpr ht] at hfind
    cases hfind

/-- **The loop** puts the argument between the pieces that are left. -/
theorem prgReportReplaceLoop_eq (argument : CString) :
    ∀ (pieces : List CString) (string : CString), pieces ≠ [] →
      (∀ t ∈ pieces, ¬ placeholder <:+: t) →
        prgReportReplaceLoop argument string (placeholder.intercalate pieces) =
          string ++ argument.intercalate pieces
  | [], _, hne, _ => absurd rfl hne
  | [t], string, _, hfree => by
    rw [List.intercalate_singleton, List.intercalate_singleton]
    exact prgReportReplaceLoop_none (hfree t List.mem_cons_self)
  | t :: u :: pieces, string, _, hfree => by
    have ih := prgReportReplaceLoop_eq argument (u :: pieces) (string ++ t ++ argument)
      (List.cons_ne_nil _ _) fun v hv => hfree v (List.mem_cons_of_mem _ hv)
    rw [List.intercalate_cons_cons, List.append_assoc,
      prgReportReplaceLoop_some (hfree t List.mem_cons_self), ih, List.intercalate_cons_cons]
    simp only [List.append_assoc]

/-- **Every `%s` of the template is replaced** by the argument, and nothing else: the template has
pieces without `%s`, and the result is made of these with the argument between them. -/
theorem prgReportReplace_eq (template argument : CString) :
    (∃ pieces, Pieces placeholder template pieces) ∧
      ∀ pieces, Pieces placeholder template pieces →
        prgReportReplace template argument = argument.intercalate pieces := by
  refine ⟨Strstr.exists_pieces (by decide) template, fun pieces hpieces => ?_⟩
  rw [hpieces.eq, prgReportReplace]
  exact prgReportReplaceLoop_eq argument pieces [] hpieces.ne_nil hpieces.free

/-- An argument that has a placeholder, and makes one with the end of a piece. -/
theorem prgReportReplace_eq_tricky :
    prgReportReplace "a %%s %s".toList "s%s".toList = "a %s%s s%s".toList := by
  have hpieces : Pieces placeholder "a %%s %s".toList ["a %".toList, " ".toList, []] :=
    ⟨by simp, by decide, by decide⟩
  rw [(prgReportReplace_eq _ _).2 _ hpieces]
  decide

/-! ## Amounts of memory -/

def SIZE_1KB : Nat := 1024

inductive SizeUnit where
  | B
  | kB
  | MB
  deriving DecidableEq, Repr

/-- The bytes of a unit. -/
def SizeUnit.bytes : SizeUnit → ℚ
  | .B => 1
  | .kB => 1024
  | .MB => 1024 * 1024

/-- `_humanly_readable_size`: the quantity, before it is rounded, and the unit behind it.
`(double)SIZE_1MB` is `(double)SIZE_1KB * 1024`, so only the first factor divides. -/
def humanlyReadableSize (size : Nat) : ℚ × SizeUnit :=
  if SIZE_1KB * 1024 ≤ size then ((size : ℚ) / SIZE_1KB * 1024, .MB)
  else if SIZE_1KB ≤ size then ((size : ℚ) / SIZE_1KB, .kB)
  else (((size % 2 ^ 32 : Nat) : ℚ), .B)

/-- The bytes that are read off what is printed. -/
def printedBytes (size : Nat) : ℚ :=
  (humanlyReadableSize size).1 * (humanlyReadableSize size).2.bytes

/-- **What is printed** stands for the size below a megabyte, and for 1024 * 1024 times the size
from there on. -/
theorem printedBytes_eq (size : Nat) :
    printedBytes size = if SIZE_1KB * 1024 ≤ size then (size : ℚ) * (1024 * 1024) else size := by
  have hkb : ((SIZE_1KB : Nat) : ℚ) = 1024 := by norm_num [SIZE_1KB]
  unfold printedBytes humanlyReadableSize
  split
  · rw [SizeUnit.bytes, hkb, div_mul_cancel₀ _ (by norm_num)]
  · split
    · rw [SizeUnit.bytes, hkb, div_mul_cancel₀ _ (by norm_num)]
    · rename_i hlt
      have hsmall : size % 2 ^ 32 = size := Nat.mod_eq_of_lt (by unfold SIZE_1KB at hlt; omega)
      rw [SizeUnit.bytes, hsmall, mul_one]

/-- **Two sizes are printed faithfully** exactly when the larger one is below a megabyte. -/
theorem sizes_faithful_iff {a b : Nat} (hab : a ≤ b) :
    (printedBytes a = a ∧ printedBytes b = b) ↔ b < SIZE_1KB * 1024 := by
  constructor
  · rintro ⟨_, hb⟩
    by_contra hge
    rw [printedBytes_eq, if_pos (Nat.le_of_not_lt hge)] at hb
    have hpos : (0 : ℚ) < b := by
      have hlarge : 0 < b := Nat.lt_of_lt_of_le (by decide) (Nat.le_of_not_lt hge)
      exact_mod_cast hlarge
    linarith
  · intro hlt
    rw [printedBytes_eq, printedBytes_eq, if_neg (Nat.not_le_of_lt hlt),
      if_neg (Nat.not_le_of_lt (Nat.lt_of_le_of_lt hab hlt))]
    exact ⟨rfl, rfl⟩

/-- Bytes and kilobytes. -/
theorem sizes_faithful_iff_kB :
    printedBytes 1000 = (1000 : Nat) ∧ printedBytes 5000 = (5000 : Nat) :=
  (sizes_faithful_iff (by decide)).mpr (by decide)

/-- A megabyte is printed as 1048576 MB. -/
theorem sizes_megabyte :
    ¬ (printedBytes 1 = (1 : Nat) ∧ printedBytes 1048576 = (1048576 : Nat)) := by
  rintro ⟨_, h⟩
  rw [printedBytes_eq, if_pos (by decide)] at h
  norm_num at h

end Tinu
