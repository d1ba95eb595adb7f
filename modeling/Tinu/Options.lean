import Tinu.Lib.Strtoul
import Tinu.MainRun
import Tinu.Names

/-!
# The levels given as options (`main.c`)

A level is given by its name or as a number, which `strtoul` reads: it takes the empty string for
zero, allows blanks and a sign, and its result is cut to the type of the level.

* `optKey_eq_iff` — a level that is read, against the one that is meant;
* `opt_ok_iff` — the two options.
-/

set_option autoImplicit false

namespace Tinu

open Strtoul (strtoul Number decimalValue signedValue)

/-! ## The callbacks of the options -/

/-- `StatisticsVerbosity_names`. -/
def statisticsVerbosityNames : List NameEntry :=
  [⟨StatisticsVerbosity.none.value, "none", 4⟩, ⟨StatisticsVerbosity.summary.value, "summary", 7⟩,
    ⟨StatisticsVerbosity.suites.value, "suites", 6⟩, ⟨StatisticsVerbosity.full.value, "full", 4⟩,
    ⟨StatisticsVerbosity.verbose.value, "verbose", 7⟩]

/-- A `GError`. -/
structure GError where
  domain : CString
  code : Nat
  message : CString
  deriving DecidableEq, Repr

/-- `g_opt_priority` and `g_opt_stat_verb`. -/
structure OptLevels where
  priority : Int := LOG_WARNING
  statVerb : Int := StatisticsVerbosity.summary.value
  deriving DecidableEq, Repr

/-- What a callback returns, the error it sets, and the variables after it. -/
structure OptResult where
  ok : Bool
  error : Option GError
  levels : OptLevels
  deriving DecidableEq, Repr

def MAIN_ERROR_OPTIONS : Nat := 0

/-- An `unsigned long` assigned to a `gint64`. -/
def toGint64 (n : Nat) : Int := (n : Int).bmod (2 ^ 64)

/-- The level in a callback, from the one that was looked up; -1 for none. -/
def optKey (key : Int) (assign : Nat → Int) (low high : Int) (value : CString) : Int :=
  if key = -1 then
    let (n, endl) := strtoul value
    if endl ≠ [] ∨ assign n < low ∨ high < assign n then -1 else assign n
  else key

/-- What a callback does with the level. -/
def optResult (key : Int) (message : CString) (levels : OptLevels) (set : Int → OptLevels) :
    OptResult :=
  if key = -1 then ⟨false, some ⟨"tinu-main-error", MAIN_ERROR_OPTIONS, message⟩, levels⟩
  else ⟨true, none, set key⟩

/-- `_tinu_opt_priority`. -/
def tinuOptPriority (value : CString) (levels : OptLevels) : OptResult :=
  optResult (optKey (msgGetPriorityValue value) toGint LOG_EMERG LOG_DEBUG value)
    ("Unknown priority `" ++ value ++ ['\''])
    levels fun key => { levels with priority := key }

/-- `_tinu_opt_stat_verb`. -/
def tinuOptStatVerb (value : CString) (levels : OptLevels) : OptResult :=
  optResult (optKey (tinuLookupName statisticsVerbosityNames value (-1) (-1)) toGint64
      StatisticsVerbosity.none.value StatisticsVerbosity.verbose.value value)
    ("Unknown statistics verbosity `" ++ value ++ ['\''])
    levels fun key => { levels with statVerb := key }

/-! ## What they should do -/

/-- The level that is meant: that of the name, or the digits, when they give one. -/
def levelOf (names : List NameEntry) (high : Int) (value : CString) : Option Int :=
  match names.find? fun e => e.name = value with
  | some e => some e.key
  | none =>
    if value ≠ [] ∧ value.all Char.isDigit ∧ (decimalValue value : Int) ≤ high then
      some (decimalValue value)
    else none

/-- The callback succeeds when a level is meant, and sets it; otherwise it sets the error. -/
structure OptOk (r : OptResult) (level : Option Int) (levels : OptLevels) (set : Int → OptLevels) :
    Prop where
  ok : r.ok = level.isSome
  set : ∀ key ∈ level, r.levels = set key
  error : level = none → r.error.isSome ∧ r.levels = levels

/-- The string is empty; or it is a number that the assignment takes into the range, and has
blanks or a sign, or is too large. -/
def Disguised (assign : Nat → Int) (low high : Int) (value : CString) : Prop :=
  value = [] ∨ ∃ blanks sign digits, Number value blanks sign digits ∧
    low ≤ assign (signedValue sign digits) ∧ assign (signedValue sign digits) ≤ high ∧
    (blanks ≠ [] ∨ sign ≠ [] ∨ high < decimalValue digits)

/-! ## One level -/

/-- Names of exact lengths without digits, for the levels in the range; the assignment keeps
these. -/
structure LevelsOk (names : List NameEntry) (assign : Nat → Int) (high : Int) : Prop where
  exact : ∀ e ∈ names, e.length = e.name.length
  plain : ∀ e ∈ names, e.name ≠ [] ∧ ∀ c ∈ e.name, c.isDigit = false
  keys : ∀ e ∈ names, 0 ≤ e.key
  assign : ∀ n : Nat, (n : Int) ≤ high → assign n = n
  high : 0 ≤ high ∧ high < Strtoul.ulongRange

theorem lookup_eq {names : List NameEntry} (hexact : ∀ e ∈ names, e.length = e.name.length)
    (value : CString) :
    tinuLookupName names value (-1) (-1) = keyOfName names value (-1) := by
  have hlookup : NameLookupOk names value (-1) (-1) := tinuLookupName_exact hexact (by omega) (-1)
  have hbytes : firstBytes value (-1) = value := List.take_length
  rw [NameLookupOk, hbytes] at hlookup
  exact hlookup

/-- A string that is disguised is not a name. -/
theorem Disguised.not_plain {assign : Nat → Int} {low high : Int} {value : CString}
    (hd : Disguised assign low high value) (hne : value ≠ []) :
    ∃ c ∈ value, c.isDigit = true := by
  obtain rfl | ⟨blanks, sign, digits, hnum, _⟩ := hd
  · exact absurd rfl hne
  · exact hnum.exists_digit

theorem signedValue_plain {digits : CString} (hlt : decimalValue digits < Strtoul.ulongRange) :
    signedValue [] digits = decimalValue digits := by
  simp only [signedValue, if_neg (Nat.not_le_of_lt hlt)]
  rfl

/-- A number that is not one of the levels in digits is read as a level when it is disguised. -/
theorem disguised_iff_of_number {assign : Nat → Int} {high : Int}
    {value blanks sign digits : CString}
    (hnum : Number value blanks sign digits)
    (hplain : ¬ ((∀ c ∈ value, c.isDigit) ∧ (decimalValue value : Int) ≤ high)) :
    Disguised assign 0 high value ↔
      0 ≤ assign (signedValue sign digits) ∧ assign (signedValue sign digits) ≤ high := by
  constructor
  · rintro (rfl | ⟨blanks', sign', digits', hnum', hlow, hhigh, _⟩)
    · obtain ⟨c, hc, _⟩ := hnum.exists_digit
      exact absurd hc List.not_mem_nil
    · have hsame := (Strtoul.strtoul_of_number hnum).symm.trans (Strtoul.strtoul_of_number hnum')
      rw [(Prod.mk.inj hsame).1]
      exact ⟨hlow, hhigh⟩
  · rintro ⟨hlow, hhigh⟩
    refine .inr ⟨blanks, sign, digits, hnum, hlow, hhigh, ?_⟩
    by_contra hall
    push Not at hall
    obtain ⟨rfl, rfl, hle⟩ := hall
    have hvalue : value = digits := hnum.eq
    subst hvalue
    exact hplain ⟨hnum.digits, hle⟩

/-- The number is taken when it is read to the end and lies in the range. -/
theorem optKey_none (assign : Nat → Int) (high : Int) (value : CString) :
    optKey (-1) assign 0 high value =
      if (strtoul value).2 = [] ∧ 0 ≤ assign (strtoul value).1 ∧
          assign (strtoul value).1 ≤ high then
        assign (strtoul value).1
      else -1 := by
  rw [optKey, if_pos rfl]
  generalize strtoul value = r
  obtain ⟨n, endl⟩ := r
  dsimp only
  by_cases hread : endl = [] ∧ 0 ≤ assign n ∧ assign n ≤ high
  · have hgood : ¬ (endl ≠ [] ∨ assign n < 0 ∨ high < assign n) := by
      rintro (hbad | hbad | hbad)
      · exact hbad hread.1
      · omega
      · omega
    exact (if_neg hgood).trans (if_pos hread).symm
  · have hbad : endl ≠ [] ∨ assign n < 0 ∨ high < assign n := by
      by_contra hgood
      push Not at hgood
      exact hread hgood
    exact (if_pos hbad).trans (if_neg hread).symm

theorem levelOf_digits {names : List NameEntry} {high : Int} {value : CString}
    (hfind : (names.find? fun e => e.name = value) = none) (hne : value ≠ [])
    (hplain : (∀ c ∈ value, c.isDigit) ∧ (decimalValue value : Int) ≤ high) :
    levelOf names high value = some (decimalValue value : Int) := by
  rw [levelOf, hfind]
  exact if_pos ⟨hne, List.all_eq_true.mpr hplain.1, hplain.2⟩

theorem levelOf_none {names : List NameEntry} {high : Int} {value : CString}
    (hfind : (names.find? fun e => e.name = value) = none)
    (hplain : value = [] ∨ ¬ ((∀ c ∈ value, c.isDigit) ∧ (decimalValue value : Int) ≤ high)) :
    levelOf names high value = none := by
  rw [levelOf, hfind]
  refine if_neg fun h => ?_
  obtain h0 | hno := hplain
  · exact h.1 h0
  · exact hno ⟨List.all_eq_true.mp h.2.1, h.2.2⟩

theorem not_disguised_of_digits {assign : Nat → Int} {low high : Int} {value : CString}
    (hne : value ≠ []) (hplain : (∀ c ∈ value, c.isDigit) ∧ (decimalValue value : Int) ≤ high) :
    ¬ Disguised assign low high value := by
  rintro (h0 | ⟨blanks, sign, digits, hnum, _, _, hbad⟩)
  · exact hne h0
  obtain ⟨rfl, rfl, rfl⟩ := hnum.eq_digits hplain.1
  obtain hbad | hbad | hbad := hbad
  · exact hbad rfl
  · exact hbad rfl
  · exact absurd hplain.2 (Int.not_le_of_gt hbad)

/-- What is not read to its end is no number. -/
theorem not_disguised_of_unread {assign : Nat → Int} {low high : Int} {value : CString}
    (hne : value ≠ []) (hend : (strtoul value).2 ≠ []) : ¬ Disguised assign low high value := by
  rintro (h0 | ⟨blanks, sign, digits, hnum, _⟩)
  · exact hne h0
  · exact hend (by rw [Strtoul.strtoul_of_number hnum])

/-- A number that is not a name. -/
theorem optKey_number_eq_iff {names : List NameEntry} {assign : Nat → Int} {high : Int}
    (hok : LevelsOk names assign high) {value blanks sign digits : CString}
    (hfind : (names.find? fun e => e.name = value) = none) (hne : value ≠ [])
    (hnum : Number value blanks sign digits) :
    optKey (-1) assign 0 high value = (levelOf names high value).getD (-1) ↔
      ¬ Disguised assign 0 high value := by
  obtain ⟨_, hlt⟩ := hok.high
  rw [optKey_none, Strtoul.strtoul_of_number hnum]
  dsimp only
  by_cases hplain : (∀ c ∈ value, c.isDigit) ∧ (decimalValue value : Int) ≤ high
  · obtain ⟨rfl, rfl, rfl⟩ := hnum.eq_digits hplain.1
    have hvalue : signedValue [] value = decimalValue value := signedValue_plain (by omega)
    have hassign := hok.assign _ hplain.2
    rw [levelOf_digits hfind hne hplain, hvalue, hassign, if_pos ⟨rfl, by omega, hplain.2⟩,
      Option.getD_some]
    simp only [not_disguised_of_digits hne hplain, not_false_eq_true]
  · rw [levelOf_none hfind (.inr hplain), disguised_iff_of_number hnum hplain, Option.getD_none]
    by_cases hrange : 0 ≤ assign (signedValue sign digits) ∧
        assign (signedValue sign digits) ≤ high
    · have hkey : assign (signedValue sign digits) ≠ -1 := by omega
      rw [if_pos ⟨rfl, hrange⟩]
      simp only [hkey, hrange, and_self, not_true_eq_false]
    · rw [if_neg fun h => hrange h.2]
      simp only [hrange, not_false_eq_true]

/-- **A string that is not a name**: its number is the level that is meant, unless it is
disguised. -/
theorem optKey_none_eq_iff {names : List NameEntry} {assign : Nat → Int} {high : Int}
    (hok : LevelsOk names assign high) {value : CString}
    (hfind : (names.find? fun e => e.name = value) = none) :
    optKey (-1) assign 0 high value = (levelOf names high value).getD (-1) ↔
      ¬ Disguised assign 0 high value := by
  obtain ⟨hzero, _⟩ := hok.high
  by_cases hnil : value = []
  · subst hnil
    have hassign : assign 0 = 0 := hok.assign 0 hzero
    have hd : Disguised assign 0 high [] := .inl rfl
    rw [optKey_none, levelOf_none hfind (.inl rfl), Strtoul.strtoul_nil]
    simp [hassign, hzero, hd]
  by_cases hend : (strtoul value).2 = []
  · obtain h0 | ⟨blanks, sign, digits, hnum⟩ := Strtoul.number_of_strtoul hend
    · exact absurd h0 hnil
    · exact optKey_number_eq_iff hok hfind hnil hnum
  · have hplain : ¬ ((∀ c ∈ value, c.isDigit) ∧ (decimalValue value : Int) ≤ high) := fun h =>
      hend (by rw [Strtoul.strtoul_of_number (Strtoul.number_of_digits hnil h.1)])
    rw [optKey_none, if_neg fun h => hend h.1, levelOf_none hfind (.inr hplain), Option.getD_none]
    simp only [not_disguised_of_unread hnil hend, not_false_eq_true]

/-- **The level that is read is the one that is meant**, unless the string is disguised. -/
theorem optKey_eq_iff {names : List NameEntry} {assign : Nat → Int} {high : Int}
    (hok : LevelsOk names assign high) (value : CString) :
    optKey (tinuLookupName names value (-1) (-1)) assign 0 high value =
      (levelOf names high value).getD (-1) ↔ ¬ Disguised assign 0 high value := by
  rw [lookup_eq hok.exact, keyOfName]
  cases hfind : names.find? fun e => e.name = value with
  | none => exact optKey_none_eq_iff hok hfind
  | some e =>
    have hmem := List.mem_of_find?_eq_some hfind
    have hname : e.name = value := by simpa using List.find?_some hfind
    obtain ⟨hne, hdigits⟩ := hok.plain e hmem
    have hkey := hok.keys e hmem
    rw [hname] at hne hdigits
    have hnot : ¬ Disguised assign 0 high value := by
      intro hd
      obtain ⟨c, hc, hdigit⟩ := hd.not_plain hne
      rw [hdigits c hc] at hdigit
      cases hdigit
    have hlevel : levelOf names high value = some e.key := by rw [levelOf, hfind]
    have hne1 : e.key ≠ -1 := by omega
    rw [hlevel, Option.map_some, Option.getD_some, optKey, if_neg hne1]
    simp only [hnot, not_false_eq_true]

/-! ## The options -/

theorem optOk_iff {key : Int} {message : CString} {levels : OptLevels} {set : Int → OptLevels}
    {level : Option Int} (hset : Function.Injective set) (hlevel : ∀ x ∈ level, x ≠ -1) :
    OptOk (optResult key message levels set) level levels set ↔ key = level.getD (-1) := by
  unfold optResult
  cases level with
  | none =>
    split
    · rename_i hkey
      exact ⟨fun _ => hkey, fun _ => ⟨rfl, fun _ h => (Option.not_mem_none _ h).elim,
        fun _ => ⟨rfl, rfl⟩⟩⟩
    · rename_i hkey
      exact ⟨fun h => absurd h.ok (by simp), fun h => absurd h hkey⟩
  | some x =>
    have hx := hlevel x rfl
    split
    · rename_i hkey
      refine ⟨fun h => absurd h.ok (by simp), fun h => absurd ?_ hx⟩
      exact h.symm.trans hkey
    · refine ⟨fun h => hset (h.set x rfl), fun h => ⟨rfl, fun y hy => ?_, fun h => by cases h⟩⟩
      rw [h, ← Option.mem_some_iff.mp hy]
      rfl

theorem levelOf_ne {names : List NameEntry} {assign : Nat → Int} {high : Int}
    (hok : LevelsOk names assign high) (value : CString) :
    ∀ x ∈ levelOf names high value, x ≠ -1 := by
  intro x hx
  unfold levelOf at hx
  split at hx
  · rename_i e hfind
    have hkey := hok.keys e (List.mem_of_find?_eq_some hfind)
    cases hx
    omega
  · split at hx
    · cases hx
      omega
    · cases hx

theorem toGint64_of_lt {n : Nat} (hn : n < 2 ^ 63) : toGint64 n = n :=
  Int.bmod_eq_of_le (by omega) (by omega)

theorem priority_levelsOk : LevelsOk messagePriorityNames toGint LOG_DEBUG where
  exact := by decide +kernel
  plain := by simp [messagePriorityNames]
  keys := by decide
  assign n hn := toGint_of_lt (by simp only [LOG_DEBUG] at hn; unfold gintLimit; omega)
  high := by decide

theorem statVerb_levelsOk :
    LevelsOk statisticsVerbosityNames toGint64 StatisticsVerbosity.verbose.value where
  exact := by decide +kernel
  plain := by simp [statisticsVerbosityNames]
  keys := by decide
  assign n hn := toGint64_of_lt (by simp only [StatisticsVerbosity.value] at hn; omega)
  high := by decide

/-- **The options of the levels** do what they should for every string that is not disguised: it
is not empty, and not a number that has blanks or a sign, or is too large, and that the assignment
takes into the range. -/
theorem opt_ok_iff (value : CString) (levels : OptLevels) :
    (OptOk (tinuOptPriority value levels) (levelOf messagePriorityNames LOG_DEBUG value) levels
        (fun key => { levels with priority := key }) ↔
      ¬ Disguised toGint LOG_EMERG LOG_DEBUG value) ∧
    (OptOk (tinuOptStatVerb value levels)
        (levelOf statisticsVerbosityNames StatisticsVerbosity.verbose.value value) levels
        (fun key => { levels with statVerb := key }) ↔
      ¬ Disguised toGint64 StatisticsVerbosity.none.value StatisticsVerbosity.verbose.value
        value) := by
  constructor
  · refine (optOk_iff ?_ (levelOf_ne priority_levelsOk value)).trans
      (optKey_eq_iff priority_levelsOk value)
    exact fun x y h => congrArg OptLevels.priority h
  · refine (optOk_iff ?_ (levelOf_ne statVerb_levelsOk value)).trans
      (optKey_eq_iff statVerb_levelsOk value)
    exact fun x y h => congrArg OptLevels.statVerb h

/-- The empty string is priority 0, and so is 2^32; `" +3"` is verbosity 3. -/
theorem opt_disguised :
    ¬ OptOk (tinuOptPriority [] {}) (levelOf messagePriorityNames LOG_DEBUG []) {}
        (fun key => { priority := key }) ∧
      ¬ OptOk (tinuOptPriority "4294967296".toList {})
        (levelOf messagePriorityNames LOG_DEBUG "4294967296".toList) {}
        (fun key => { priority := key }) ∧
      ¬ OptOk (tinuOptStatVerb " +3".toList {})
        (levelOf statisticsVerbosityNames StatisticsVerbosity.verbose.value " +3".toList) {}
        (fun key => { statVerb := key }) := by
  refine ⟨fun h => ?_, fun h => ?_, fun h => ?_⟩
  · exact absurd h.ok (by decide +kernel)
  · exact absurd h.ok (by decide +kernel)
  · exact absurd h.ok (by decide +kernel)

end Tinu
