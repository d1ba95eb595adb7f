import Tinu.Lib.Ansi
import Tinu.Lib.Printf
import Tinu.MainRun
import Tinu.ReportRoundTrip
import Tinu.ReportTexts
import Tinu.StatRecords

/-!
# The printed report (`report-standard.c`)

The report module `print` writes the statistics to a stream.  Formats are put together from
fragments, and the colours are part of the fragments; a test without a verdict ends the process.
Core files are left out: the branch for them does not go with the records of this version.

* `humanlyReadableText_near` — the text of an amount of memory;
* `testReportPrint_renders` — what is written shows as the plain report;
* `testReportPrint_isSome_iff` — when the report is written to its end;
* `main_prints_run` — what `tinu_main` prints is what the run did.
-/

set_option autoImplicit false

namespace Tinu

open Printf (Prints pad vprintf)
open Ansi (Shows)

/-! ## Amounts of memory -/

/-- The quotient, to the nearest; ties go to the even one. -/
def roundHalfEven (n d : Nat) : Nat :=
  if 2 * (n % d) < d then n / d
  else if d < 2 * (n % d) then n / d + 1
  else n / d + n / d % 2

/-- `(double)size`. -/
def doubleOfGsize (size : Nat) : Nat :=
  if size < 2 ^ 53 then size
  else roundHalfEven size (2 ^ (Nat.log2 size - 52)) * 2 ^ (Nat.log2 size - 52)

/-- `%.2lf` of a number of hundredths. -/
def formatHundredths (h : Nat) : CString :=
  Nat.toDigits 10 (h / 100) ++ '.' :: (Nat.toDigits 10 (h % 100)).leftpad 2 '0'

/-- The text of `_humanly_readable_size`. -/
def humanlyReadableText (size : Nat) : CString :=
  if SIZE_1KB * 1024 ≤ size then
    formatHundredths (roundHalfEven (100 * (doubleOfGsize size * 1024)) SIZE_1KB) ++ " MB".toList
  else if SIZE_1KB ≤ size then
    formatHundredths (roundHalfEven (100 * doubleOfGsize size) SIZE_1KB) ++ " kB".toList
  else Nat.toDigits 10 (size % 2 ^ 32) ++ " B".toList

/-- The unit behind a quantity. -/
def SizeUnit.text : SizeUnit → CString
  | .B => " B".toList
  | .kB => " kB".toList
  | .MB => " MB".toList

/-- A rounded quotient is half the divisor away at most. -/
theorem roundHalfEven_near (n : Nat) {d : Nat} (hd : 0 < d) :
    2 * n ≤ 2 * (roundHalfEven n d * d) + d ∧ 2 * (roundHalfEven n d * d) ≤ 2 * n + d := by
  have hn : n / d * d + n % d = n := Nat.div_add_mod' n d
  have hlt : n % d < d := Nat.mod_lt n hd
  have hup : (n / d + 1) * d = n / d * d + d := Nat.succ_mul _ _
  unfold roundHalfEven
  split
  · omega
  · split
    · omega
    · rcases Nat.mod_two_eq_zero_or_one (n / d) with he | he
      · rw [he, Nat.add_zero]
        omega
      · rw [he]
        omega

theorem roundHalfEven_quotient (n : Nat) {d : Nat} (hd : 0 < d) :
    |(roundHalfEven (100 * n) d : ℚ) / 100 - (n : ℚ) / d| ≤ 1 / 200 := by
  obtain ⟨hlow, hhigh⟩ := roundHalfEven_near (100 * n) hd
  have hdq : (0 : ℚ) < d := by exact_mod_cast hd
  have hlow : 2 * (100 * (n : ℚ)) ≤ 2 * (roundHalfEven (100 * n) d * d) + d := by exact_mod_cast hlow
  have hhigh : 2 * (roundHalfEven (100 * n) d * (d : ℚ)) ≤ 2 * (100 * n) + d := by
    exact_mod_cast hhigh
  have heq : (roundHalfEven (100 * n) d : ℚ) / 100 - (n : ℚ) / d =
      (2 * (roundHalfEven (100 * n) d * d) - 2 * (100 * n)) / (200 * d) := by
    field_simp
    ring
  rw [heq, abs_le, le_div_iff₀ (by positivity), div_le_iff₀ (by positivity)]
  constructor <;> linarith

/-- **The text of a size** from a kilobyte on is its quantity to two decimals. -/
theorem humanlyReadableText_near {size : Nat} (hexact : size < 2 ^ 53) (hkb : SIZE_1KB ≤ size) :
    ∃ h : Nat, humanlyReadableText size =
        formatHundredths h ++ (humanlyReadableSize size).2.text ∧
      |(h : ℚ) / 100 - (humanlyReadableSize size).1| ≤ 1 / 200 := by
  have hpos : 0 < SIZE_1KB := by decide
  unfold humanlyReadableText humanlyReadableSize
  rw [doubleOfGsize, if_pos hexact]
  split
  · refine ⟨_, rfl, ?_⟩
    have hnear := roundHalfEven_quotient (size * 1024) hpos
    rwa [Nat.cast_mul, mul_div_right_comm] at hnear
  · exact ⟨_, rfl, roundHalfEven_quotient size hpos⟩

/-! ## The writer -/

/-- `_report_printf` and `_report_vprintf`: the fragments make up the format. -/
def reportPrintf (fragments : List CString) (args : List Printf.Arg) : Option CString :=
  vprintf fragments.flatten args

/-- A fragment in a colour. -/
def colourFragment (code : CString) (colour : Bool) (str : CString) : CString :=
  if colour then Ansi.coloured code str else str

/-- `COL_OK`. -/
def colOk : Bool → CString → CString := colourFragment "32".toList

/-- `COL_FAIL`. -/
def colFail : Bool → CString → CString := colourFragment "31".toList

/-- `COL_FATAL`. -/
def colFatal : Bool → CString → CString := colourFragment "1;41".toList

/-- `COL_ENTRY`. -/
def colEntry : Bool → CString → CString := colourFragment "35".toList

/-- A `guint` where `%d` reads it. -/
def guintArg (x : Nat) : Printf.Arg := .int (gintOfGsize x)

/-- `_std_report_show_summary`. -/
def stdReportShowSummary (stat : TestStatistics) (colour : Bool) : Option CString :=
  reportPrintf ["Summary: ".toList, colOk colour "passed: %d ".toList,
      colFail colour "failed: %d ".toList,
      if stat.sigsegv ≠ 0 then colFatal colour "segmentation faults: %d".toList else [],
      "\n".toList]
    [guintArg stat.passed, guintArg stat.failed, guintArg stat.sigsegv]

/-- The assertions, in the verbose report. -/
def showAssertions (verbosity : StatisticsVerbosity) (passed total : Nat) : Option CString :=
  if verbosity = .verbose then
    vprintf " assertions passed: %d/%d".toList [guintArg passed, guintArg total]
  else some []

/-- `_std_report_show_suite`. -/
def stdReportShowSuite (suite : StatSuiteInfo) (verbosity : StatisticsVerbosity) (colour : Bool) :
    Option CString := do
  let line ← reportPrintf ["Suite  ".toList, colEntry colour "%-*s".toList, " %s".toList]
    [.int 30, .str suite.suite.name,
      .str (if suite.result then colOk colour "passed".toList else colFail colour "failed".toList)]
  let assertions ← showAssertions verbosity suite.assertionsPassed suite.assertions
  some (line ++ (assertions ++ ['\n']))

/-- The `switch` of `_std_report_show_case`. -/
def showResult (colour : Bool) (resultName : CString) : TestCaseResult → Option CString
  | .passed => reportPrintf [colOk colour "%s".toList] [.str resultName]
  | .failed => reportPrintf [colFail colour "%s".toList] [.str resultName]
  | .segfault | .abort => reportPrintf [colFatal colour "%s".toList] [.str resultName]
  | .internal => reportPrintf [colFatal colour "%s".toList] [.str resultName]
  | .none => none

/-- The leak of a test, if there is one. -/
def showLeaked (bytes : Nat) : Option CString :=
  if bytes ≠ 0 then vprintf " leaked: %s".toList [.str (humanlyReadableText bytes)] else some []

/-- `_std_report_show_case`. -/
def stdReportShowCase (test : StatTestInfo) (verbosity : StatisticsVerbosity) (colour : Bool) :
    Option CString := do
  let resultName ← testResultName test.result
  let line ← reportPrintf ["   Case ".toList, colEntry colour "%-*s".toList]
    [.int 33, .str test.test.name]
  let result ← showResult colour resultName test.result
  let assertions ← showAssertions verbosity test.assertionsPassed test.assertions
  let leaked ← showLeaked test.leakedBytes
  some (line ++ (result ++ (assertions ++ (leaked ++ ['\n']))))

/-- A loop that writes. -/
def printEach {α : Type} (f : α → Option CString) : List α → Option CString
  | [] => some []
  | x :: xs => do
    let text ← f x
    let rest ← printEach f xs
    some (text ++ rest)

/-- A round of the loop over the suites. -/
def showSuiteBlock (verbosity : StatisticsVerbosity) (colour : Bool) (suite : StatSuiteInfo) :
    Option CString := do
  let line ← stdReportShowSuite suite verbosity colour
  let cases ←
    if StatisticsVerbosity.suites.value < verbosity.value then
      (printEach (fun test => stdReportShowCase test verbosity colour) suite.tests).map
        (· ++ ['\n'])
    else some []
  some (line ++ cases)

/-- A round of the loop over the priorities. -/
def showMessages (stat : TestStatistics) (priority : Fin 8) : Option CString := do
  let name ← msgFormatPriority priority
  vprintf "    %-*s %*d\n".toList
    [.int 25, .str name, .int 10, guintArg (stat.messages priority)]

/-- `test_report_print`. -/
def testReportPrint (stat : TestStatistics) (verbosity : StatisticsVerbosity) (enableColour : Bool) :
    Option CString := do
  let summary ← stdReportShowSummary stat enableColour
  if verbosity = .summary then some summary
  else
    let suites ← printEach (showSuiteBlock verbosity enableColour) stat.suites
    if verbosity.value ≤ StatisticsVerbosity.full.value then some (summary ++ suites)
    else
      let messages ← printEach (showMessages stat) reportedPriorities
      some (summary ++ (suites ++ ("Messages received:\n".toList ++ messages)))

/-! ## The plain report -/

def plainAssertions (verbosity : StatisticsVerbosity) (passed total : Nat) : CString :=
  if verbosity = .verbose then
    " assertions passed: ".toList ++ (formatGuint passed ++ ('/' :: formatGuint total))
  else []

def plainSummary (passed failed sigsegv : Nat) : CString :=
  "Summary: ".toList ++ (("passed: ".toList ++ (formatGuint passed ++ [' '])) ++
    (("failed: ".toList ++ (formatGuint failed ++ [' '])) ++
      ((if sigsegv ≠ 0 then "segmentation faults: ".toList ++ formatGuint sigsegv else []) ++
        ['\n'])))

def plainSuite (verbosity : StatisticsVerbosity) (suite : StatSuiteInfo) : CString :=
  "Suite  ".toList ++ (pad true 30 suite.suite.name ++
    (' ' :: if suite.result then "passed".toList else "failed".toList)) ++
      (plainAssertions verbosity suite.assertionsPassed suite.assertions ++ ['\n'])

def plainLeaked (bytes : Nat) : CString :=
  if bytes ≠ 0 then " leaked: ".toList ++ humanlyReadableText bytes else []

def plainCase (verbosity : StatisticsVerbosity) (test : StatTestInfo) : CString :=
  "   Case ".toList ++ pad true 33 test.test.name ++
    ((testResultName test.result).getD [] ++
      (plainAssertions verbosity test.assertionsPassed test.assertions ++
        (plainLeaked test.leakedBytes ++ ['\n'])))

def plainSuiteBlock (verbosity : StatisticsVerbosity) (suite : StatSuiteInfo) : CString :=
  plainSuite verbosity suite ++
    if StatisticsVerbosity.suites.value < verbosity.value then
      suite.tests.flatMap (plainCase verbosity) ++ ['\n']
    else []

def plainMessages (messages : Fin 8 → Nat) (priority : Fin 8) : CString :=
  "    ".toList ++ (pad true 25 (priorityName priority) ++
    (' ' :: (pad false 10 (formatGuint (messages priority)) ++ ['\n'])))

/-- The report of counters, suites and messages, without colours. -/
def plainReport (verbosity : StatisticsVerbosity) (passed failed sigsegv : Nat)
    (suites : List StatSuiteInfo) (messages : Fin 8 → Nat) : CString :=
  plainSummary passed failed sigsegv ++
    if verbosity = .summary then []
    else suites.flatMap (plainSuiteBlock verbosity) ++
      if verbosity.value ≤ StatisticsVerbosity.full.value then []
      else "Messages received:\n".toList ++ reportedPriorities.flatMap (plainMessages messages)

/-! ## Fragments -/

/-- The text is the plain one, or shows as it in colours. -/
structure Renders (colour : Bool) (text plain : CString) : Prop where
  same : colour = false → text = plain
  shows : Ansi.esc ∉ plain → Shows text plain

section Fragments

variable {colour : Bool} {code fmt text text' plain plain' : CString} {args : List Printf.Arg}

theorem Renders.refl (colour : Bool) (text : CString) : Renders colour text text :=
  ⟨fun _ => rfl, Ansi.shows_plain⟩

theorem Renders.append (h : Renders colour text plain) (h' : Renders colour text' plain') :
    Renders colour (text ++ text') (plain ++ plain') := by
  refine ⟨fun hc => by rw [h.same hc, h'.same hc], fun hesc => ?_⟩
  rw [List.mem_append, not_or] at hesc
  exact (h.shows hesc.1).append (h'.shows hesc.2)

theorem Renders.colourFragment (hcode : 'm' ∉ code) (h : Renders colour text plain) :
    Renders colour (colourFragment code colour text) plain := by
  cases colour with
  | false => exact h
  | true => exact ⟨fun hc => (nomatch hc), fun hesc => (h.shows hesc).coloured hcode⟩

theorem prints_seq (hcode : '%' ∉ code) : Prints (Ansi.seq code) [] (Ansi.seq code) := by
  refine Printf.prints_plain ?_
  have hesc : '%' ≠ Ansi.esc := by decide
  simp [Ansi.seq, hesc, hcode]

theorem prints_colourFragment (hcode : '%' ∉ code) (h : Prints fmt args text) :
    Prints (colourFragment code colour fmt) args (colourFragment code colour text) := by
  cases colour with
  | false => exact h
  | true =>
    have hreset : Prints (Ansi.seq ['0']) [] (Ansi.seq ['0']) := prints_seq (by decide)
    have hall := ((prints_seq hcode).append h).append hreset
    rwa [List.nil_append, List.append_nil] at hall

/-- `%d` of a counter. -/
theorem prints_guint (x : Nat) : Prints "%d".toList [guintArg x] (formatGuint x) :=
  Printf.prints_conv rfl

theorem prints_str (s : CString) : Prints "%s".toList [.str s] s := Printf.prints_conv rfl

end Fragments

/-! ## Lines -/

/-- Text in a colour shows as the text. -/
theorem renders_colour {code : CString} (hcode : 'm' ∉ code) (colour : Bool) (s : CString) :
    Renders colour (colourFragment code colour s) s :=
  (Renders.refl colour s).colourFragment hcode

/-- A counter between texts. -/
theorem prints_counter {label tail : CString} (hlabel : '%' ∉ label) (htail : '%' ∉ tail)
    (x : Nat) :
    Prints (label ++ ("%d".toList ++ tail)) [guintArg x] (label ++ (formatGuint x ++ tail)) :=
  (Printf.prints_plain hlabel).append ((prints_guint x).append (Printf.prints_plain htail))

theorem reportPrintf_eq {fragments : List CString} {args : List Printf.Arg} {text : CString}
    (h : Prints fragments.flatten args text) (rest : List Printf.Arg) :
    reportPrintf fragments (args ++ rest) = some text := h.eq rest

/-- The segmentation faults, if there are any; the argument is passed in any case. -/
theorem prints_faults (sigsegv : Nat) (colour : Bool) :
    ∃ args rest, args ++ rest = [guintArg sigsegv] ∧
      Prints (if sigsegv ≠ 0 then colFatal colour "segmentation faults: %d".toList else []) args
        (if sigsegv ≠ 0 then colFatal colour ("segmentation faults: ".toList ++ formatGuint sigsegv)
          else []) := by
  by_cases hs : sigsegv = 0
  · simp only [hs, ne_eq, not_true_eq_false, if_false]
    exact ⟨[], [guintArg 0], rfl, Printf.prints_nil⟩
  · simp only [ne_eq, hs, not_false_eq_true, if_true]
    have hcounter : Prints "segmentation faults: %d".toList [guintArg sigsegv]
        ("segmentation faults: ".toList ++ (formatGuint sigsegv ++ [])) :=
      @prints_counter "segmentation faults: ".toList [] (by decide) (by decide) sigsegv
    rw [List.append_nil] at hcounter
    exact ⟨[guintArg sigsegv], [], rfl, prints_colourFragment (by decide) hcounter⟩

/-- **The summary.** -/
theorem summary_renders (stat : TestStatistics) (colour : Bool) :
    ∃ text, stdReportShowSummary stat colour = some text ∧
      Renders colour text (plainSummary stat.passed stat.failed stat.sigsegv) := by
  have hopen : Prints "Summary: ".toList [] "Summary: ".toList := Printf.prints_plain (by decide)
  have hend : Prints ("\n".toList ++ []) [] ['\n'] := Printf.prints_plain (by decide)
  have hpassed : Prints (colOk colour "passed: %d ".toList) [guintArg stat.passed]
      (colOk colour ("passed: ".toList ++ (formatGuint stat.passed ++ [' ']))) :=
    prints_colourFragment (by decide)
      (@prints_counter "passed: ".toList [' '] (by decide) (by decide) stat.passed)
  have hfailed : Prints (colFail colour "failed: %d ".toList) [guintArg stat.failed]
      (colFail colour ("failed: ".toList ++ (formatGuint stat.failed ++ [' ']))) :=
    prints_colourFragment (by decide)
      (@prints_counter "failed: ".toList [' '] (by decide) (by decide) stat.failed)
  obtain ⟨args, rest, hargs, hfaults⟩ := prints_faults stat.sigsegv colour
  have hfaultsText : Renders colour
      (if stat.sigsegv ≠ 0 then
        colFatal colour ("segmentation faults: ".toList ++ formatGuint stat.sigsegv) else [])
      (if stat.sigsegv ≠ 0 then "segmentation faults: ".toList ++ formatGuint stat.sigsegv
        else []) := by
    split
    · exact renders_colour (by decide) colour _
    · exact Renders.refl colour []
  have hall := @reportPrintf_eq [_, _, _, _, _] _ _
    (hopen.append (hpassed.append (hfailed.append (hfaults.append hend)))) rest
  rw [List.append_nil, List.append_assoc, List.append_assoc, List.append_assoc, hargs] at hall
  exact ⟨_, hall, (Renders.refl colour _).append ((renders_colour (by decide) colour _).append
    ((renders_colour (by decide) colour _).append (hfaultsText.append (Renders.refl colour _))))⟩

/-- The assertions. -/
theorem assertions_shown (verbosity : StatisticsVerbosity) (passed total : Nat) :
    showAssertions verbosity passed total = some (plainAssertions verbosity passed total) := by
  unfold showAssertions plainAssertions
  split
  · have hpassed : Prints " assertions passed: %d/".toList [guintArg passed]
        (" assertions passed: ".toList ++ (formatGuint passed ++ ['/'])) :=
      @prints_counter " assertions passed: ".toList ['/'] (by decide) (by decide) passed
    have hformat : " assertions passed: %d/%d".toList =
        " assertions passed: %d/".toList ++ "%d".toList := by decide
    rw [hformat]
    have hall := (hpassed.append (prints_guint total)).eq []
    simp only [List.append_assoc, List.singleton_append, List.append_nil] at hall
    exact hall
  · rfl

/-- **The line of a suite.** -/
theorem suite_renders (suite : StatSuiteInfo) (verbosity : StatisticsVerbosity) (colour : Bool) :
    ∃ text, stdReportShowSuite suite verbosity colour = some text ∧
      Renders colour text (plainSuite verbosity suite) := by
  have hopen : Prints "Suite  ".toList [] "Suite  ".toList := Printf.prints_plain (by decide)
  have hname : Prints (colEntry colour "%-*s".toList) [.int 30, .str suite.suite.name]
      (colEntry colour (pad true 30 suite.suite.name)) :=
    prints_colourFragment (by decide) (Printf.prints_left rfl 30)
  have hspace : Prints [' '] [] [' '] := Printf.prints_plain (by decide)
  have hresult : ∀ result : CString, Prints (" %s".toList ++ []) [.str result]
      ([' '] ++ result) := fun result => hspace.append (prints_str result)
  have hline := @reportPrintf_eq [_, _, _] _ _
    (hopen.append (hname.append (hresult (if suite.result then colOk colour "passed".toList
      else colFail colour "failed".toList)))) []
  have hresultText : Renders colour
      (if suite.result then colOk colour "passed".toList else colFail colour "failed".toList)
      (if suite.result then "passed".toList else "failed".toList) := by
    split
    · exact renders_colour (by decide) colour _
    · exact renders_colour (by decide) colour _
  exact ⟨_, Option.bind_eq_some_iff.mpr ⟨_, hline,
      Option.bind_eq_some_iff.mpr ⟨_, assertions_shown verbosity _ _, rfl⟩⟩,
    ((Renders.refl colour _).append ((renders_colour (by decide) colour _).append
      ((Renders.refl colour [' ']).append hresultText))).append
        ((Renders.refl colour _).append (Renders.refl colour ['\n']))⟩

/-- The verdict of a test. -/
theorem result_renders {result : TestCaseResult} (h : result ≠ .none) (name : CString)
    (colour : Bool) : ∃ text, showResult colour name result = some text ∧
      Renders colour text name := by
  have hname : ∀ code : CString, '%' ∉ code → reportPrintf
      [colourFragment code colour "%s".toList] [.str name] =
        some (colourFragment code colour name) := by
    intro code hcode
    have hall := (@prints_colourFragment colour code _ _ _ hcode (prints_str name)).eq []
    have hflat : [colourFragment code colour "%s".toList].flatten =
        colourFragment code colour "%s".toList := List.append_nil _
    rw [reportPrintf, hflat]
    exact hall
  cases result with
  | none => exact absurd rfl h
  | passed => exact ⟨_, hname _ (by decide), renders_colour (by decide) colour name⟩
  | failed => exact ⟨_, hname _ (by decide), renders_colour (by decide) colour name⟩
  | abort | segfault | internal =>
    exact ⟨_, hname _ (by decide), renders_colour (by decide) colour name⟩

theorem leaked_shown (bytes : Nat) : showLeaked bytes = some (plainLeaked bytes) := by
  unfold showLeaked plainLeaked
  split
  · have hlabel : Prints " leaked: ".toList [] " leaked: ".toList :=
      Printf.prints_plain (by decide)
    exact (hlabel.append (prints_str (humanlyReadableText bytes))).eq []
  · rfl

/-- **The line of a test**, which has a verdict. -/
theorem case_renders {test : StatTestInfo} (h : test.result ≠ .none)
    (verbosity : StatisticsVerbosity) (colour : Bool) :
    ∃ text, stdReportShowCase test verbosity colour = some text ∧
      Renders colour text (plainCase verbosity test) := by
  obtain ⟨name, hname⟩ := testResultName_of_ne h
  obtain ⟨result, hresult, hresultText⟩ := result_renders h name colour
  have hopen : Prints "   Case ".toList [] "   Case ".toList := Printf.prints_plain (by decide)
  have htest : Prints (colEntry colour "%-*s".toList ++ []) [.int 33, .str test.test.name]
      (colEntry colour (pad true 33 test.test.name)) := by
    rw [List.append_nil]
    exact prints_colourFragment (by decide) (Printf.prints_left rfl 33)
  have hline : reportPrintf ["   Case ".toList, colEntry colour "%-*s".toList]
      [.int 33, .str test.test.name] =
        some ("   Case ".toList ++ colEntry colour (pad true 33 test.test.name)) :=
    @reportPrintf_eq [_, _] _ _ (hopen.append htest) []
  have hrun : stdReportShowCase test verbosity colour =
      some (("   Case ".toList ++ colEntry colour (pad true 33 test.test.name)) ++ (result ++
        (plainAssertions verbosity test.assertionsPassed test.assertions ++
          (plainLeaked test.leakedBytes ++ ['\n'])))) := by
    simp only [stdReportShowCase, hname, hline, hresult, assertions_shown, leaked_shown,
      Option.bind_eq_bind, Option.bind_some]
  have hplain : plainCase verbosity test = ("   Case ".toList ++ pad true 33 test.test.name) ++
      ((testResultName test.result).getD [] ++
        (plainAssertions verbosity test.assertionsPassed test.assertions ++
          (plainLeaked test.leakedBytes ++ ['\n']))) := rfl
  rw [hplain, hname, Option.getD_some]
  exact ⟨_, hrun, ((Renders.refl colour _).append (renders_colour (by decide) colour _)).append
    (hresultText.append (Renders.refl colour _))⟩

/-- The line of a priority. -/
theorem messages_shown (stat : TestStatistics) (priority : Fin 8) :
    showMessages stat priority = some (plainMessages stat.messages priority) := by
  have hopen : Prints "    ".toList [] "    ".toList := Printf.prints_plain (by decide)
  have hname : Prints "%-*s".toList [.int 25, .str (priorityName priority)]
      (pad true 25 (priorityName priority)) := Printf.prints_left rfl 25
  have hspace : Prints [' '] [] [' '] := Printf.prints_plain (by decide)
  have hcount : Prints "%*d".toList [.int 10, guintArg (stat.messages priority)]
      (pad false 10 (formatGuint (stat.messages priority))) := Printf.prints_width rfl 10
  have hend : Prints ['\n'] [] ['\n'] := Printf.prints_plain (by decide)
  have hall := (hopen.append (hname.append (hspace.append (hcount.append hend)))).eq []
  have hformat : "    %-*s %*d\n".toList =
      "    ".toList ++ ("%-*s".toList ++ ([' '] ++ ("%*d".toList ++ ['\n']))) := by decide
  simp only [List.append_nil, List.cons_append, List.nil_append] at hall
  simp only [showMessages, msgFormatPriority_eq, hformat, Option.bind_eq_bind, Option.bind_some,
    List.singleton_append]
  exact hall

/-! ## The whole report -/

/-- A loop whose rounds are plain in the same colour. -/
theorem printEach_renders {α : Type} {f : α → Option CString} {g : α → CString} {colour : Bool} :
    ∀ {l : List α}, (∀ x ∈ l, ∃ text, f x = some text ∧ Renders colour text (g x)) →
      ∃ text, printEach f l = some text ∧ Renders colour text (l.flatMap g)
  | [], _ => ⟨[], rfl, Renders.refl colour []⟩
  | x :: l, h => by
    obtain ⟨text, hx, hr⟩ := h x List.mem_cons_self
    obtain ⟨rest, hl, hr'⟩ := printEach_renders fun y hy => h y (List.mem_cons_of_mem _ hy)
    exact ⟨_, Option.bind_eq_some_iff.mpr ⟨_, hx, Option.bind_eq_some_iff.mpr ⟨_, hl, rfl⟩⟩,
      hr.append hr'⟩

/-- Every test that the report shows has a verdict. -/
def Printable (stat : TestStatistics) (verbosity : StatisticsVerbosity) : Prop :=
  StatisticsVerbosity.suites.value < verbosity.value →
    ∀ suite ∈ stat.suites, ∀ test ∈ suite.tests, test.result ≠ .none

theorem suiteBlock_renders {suite : StatSuiteInfo} {verbosity : StatisticsVerbosity}
    (h : StatisticsVerbosity.suites.value < verbosity.value →
      ∀ test ∈ suite.tests, test.result ≠ .none) (colour : Bool) :
    ∃ text, showSuiteBlock verbosity colour suite = some text ∧
      Renders colour text (plainSuiteBlock verbosity suite) := by
  obtain ⟨line, hline, hr⟩ := suite_renders suite verbosity colour
  unfold showSuiteBlock plainSuiteBlock
  by_cases hv : StatisticsVerbosity.suites.value < verbosity.value
  · obtain ⟨cases, hcases, hr'⟩ := printEach_renders fun test ht =>
      case_renders (h hv test ht) verbosity colour
    simp only [if_pos hv]
    refine ⟨_, Option.bind_eq_some_iff.mpr ⟨_, hline, Option.bind_eq_some_iff.mpr
      ⟨_, by rw [hcases, Option.map_some], rfl⟩⟩,
      hr.append (hr'.append (Renders.refl colour _))⟩
  · simp only [if_neg hv]
    exact ⟨_, Option.bind_eq_some_iff.mpr ⟨_, hline, rfl⟩, hr.append (Renders.refl colour [])⟩

/-- **What is written** shows as the plain report. -/
theorem testReportPrint_renders {stat : TestStatistics} {verbosity : StatisticsVerbosity}
    (h : Printable stat verbosity) (colour : Bool) :
    ∃ text, testReportPrint stat verbosity colour = some text ∧
      Renders colour text (plainReport verbosity stat.passed stat.failed stat.sigsegv stat.suites
        stat.messages) := by
  obtain ⟨summary, hsummary, hr⟩ := summary_renders stat colour
  obtain ⟨suites, hsuites, hr'⟩ := printEach_renders fun suite hs =>
    suiteBlock_renders (fun hv test ht => h hv suite hs test ht) colour
  obtain ⟨messages, hmessages, hr''⟩ := @printEach_renders _ (showMessages stat)
    (plainMessages stat.messages) colour reportedPriorities fun priority _ =>
      ⟨_, messages_shown stat priority, Renders.refl colour _⟩
  unfold testReportPrint plainReport
  simp only [hsummary, hsuites, hmessages, Option.bind_eq_bind, Option.bind_some]
  split
  · exact ⟨_, rfl, by rw [List.append_nil]; exact hr⟩
  · split
    · exact ⟨_, rfl, hr.append (by rw [List.append_nil]; exact hr')⟩
    · exact ⟨_, rfl, hr.append (hr'.append ((Renders.refl colour _).append hr''))⟩

theorem printEach_isSome {α : Type} {f : α → Option CString} :
    ∀ {l : List α}, (printEach f l).isSome → ∀ x ∈ l, (f x).isSome
  | x :: l, h, y, hy => by
    obtain ⟨text, htext⟩ := Option.isSome_iff_exists.mp h
    obtain ⟨first, hfirst, hrest⟩ := Option.bind_eq_some_iff.mp htext
    obtain ⟨rest, hl, _⟩ := Option.bind_eq_some_iff.mp hrest
    rcases List.mem_cons.mp hy with rfl | hy
    · exact Option.isSome_iff_exists.mpr ⟨_, hfirst⟩
    · exact printEach_isSome (Option.isSome_iff_exists.mpr ⟨_, hl⟩) y hy

/-- **The report is written to its end** exactly when every test that it shows has a verdict. -/
theorem testReportPrint_isSome_iff {stat : TestStatistics} {verbosity : StatisticsVerbosity}
    {colour : Bool} : (testReportPrint stat verbosity colour).isSome ↔ Printable stat verbosity := by
  constructor
  · intro h hv suite hsuite test htest hnone
    obtain ⟨text, htext⟩ := Option.isSome_iff_exists.mp h
    obtain ⟨summary, -, htext⟩ := Option.bind_eq_some_iff.mp htext
    have hne : verbosity ≠ .summary := fun he => absurd (he ▸ hv) (by decide)
    rw [if_neg hne] at htext
    obtain ⟨suites, hsuites, -⟩ := Option.bind_eq_some_iff.mp htext
    have hblock := printEach_isSome (Option.isSome_iff_exists.mpr ⟨_, hsuites⟩) suite hsuite
    obtain ⟨block, hblock⟩ := Option.isSome_iff_exists.mp hblock
    obtain ⟨line, -, hblock⟩ := Option.bind_eq_some_iff.mp hblock
    simp only [if_pos hv] at hblock
    obtain ⟨cases, hcases, -⟩ := Option.bind_eq_some_iff.mp hblock
    obtain ⟨texts, htexts, -⟩ := Option.map_eq_some_iff.mp hcases
    have hcase := printEach_isSome (Option.isSome_iff_exists.mpr ⟨_, htexts⟩) test htest
    have hname : testResultName test.result = none := by
      rw [hnone]
      rfl
    rw [stdReportShowCase, hname] at hcase
    cases hcase
  · intro h
    obtain ⟨text, htext, -⟩ := testReportPrint_renders h colour
    exact Option.isSome_iff_exists.mpr ⟨text, htext⟩

/-! ## Texts without `ESC` -/

theorem esc_append {s t : CString} : Ansi.esc ∉ s ++ t ↔ Ansi.esc ∉ s ∧ Ansi.esc ∉ t := by
  rw [List.mem_append, not_or]

theorem esc_ite {p : Prop} [Decidable p] {s t : CString} (hs : p → Ansi.esc ∉ s)
    (ht : ¬ p → Ansi.esc ∉ t) : Ansi.esc ∉ if p then s else t := by
  split
  · exact hs ‹_›
  · exact ht ‹_›

theorem esc_flatMap {α : Type} {f : α → CString} {l : List α} (h : ∀ x ∈ l, Ansi.esc ∉ f x) :
    Ansi.esc ∉ l.flatMap f := by
  intro hmem
  obtain ⟨x, hx, hesc⟩ := List.mem_flatMap.mp hmem
  exact h x hx hesc

theorem esc_toDigits (n : Nat) : Ansi.esc ∉ Nat.toDigits 10 n :=
  fun h => absurd (isDigit_toDigits _ h) (by decide)

theorem esc_formatGuint (x : Nat) : Ansi.esc ∉ formatGuint x := by
  unfold formatGuint formatD Printf.decimal
  refine esc_ite (fun _ => ?_) fun _ => esc_toDigits _
  rw [List.mem_cons, not_or]
  exact ⟨by decide, esc_toDigits _⟩

theorem esc_replicate (n : Nat) : Ansi.esc ∉ List.replicate n ' ' :=
  fun h => absurd (List.eq_of_mem_replicate h) (by decide)

theorem esc_pad {s : CString} (left : Bool) (width : Int) (h : Ansi.esc ∉ s) :
    Ansi.esc ∉ pad left width s := by
  unfold Printf.pad
  exact esc_ite (fun _ => esc_append.mpr ⟨h, esc_replicate _⟩)
    fun _ => esc_append.mpr ⟨esc_replicate _, h⟩

theorem esc_formatHundredths (h : Nat) : Ansi.esc ∉ formatHundredths h := by
  refine esc_append.mpr ⟨esc_toDigits _, ?_⟩
  rw [List.mem_cons, not_or, List.leftpad]
  refine ⟨by decide, esc_append.mpr ⟨fun hmem => ?_, esc_toDigits _⟩⟩
  exact absurd (List.eq_of_mem_replicate hmem) (by decide)

theorem esc_humanlyReadableText (size : Nat) : Ansi.esc ∉ humanlyReadableText size :=
  esc_ite (fun _ => esc_append.mpr ⟨esc_formatHundredths _, by decide⟩) fun _ =>
    esc_ite (fun _ => esc_append.mpr ⟨esc_formatHundredths _, by decide⟩) fun _ =>
      esc_append.mpr ⟨esc_toDigits _, by decide⟩

theorem esc_testResultName (result : TestCaseResult) :
    Ansi.esc ∉ (testResultName result).getD [] := by
  cases result <;> decide

theorem esc_plainAssertions (verbosity : StatisticsVerbosity) (passed total : Nat) :
    Ansi.esc ∉ plainAssertions verbosity passed total := by
  refine esc_ite (fun _ => esc_append.mpr ⟨by decide, esc_append.mpr ⟨esc_formatGuint _, ?_⟩⟩)
    fun _ => List.not_mem_nil
  rw [List.mem_cons, not_or]
  exact ⟨by decide, esc_formatGuint _⟩

theorem esc_plainSummary (passed failed sigsegv : Nat) :
    Ansi.esc ∉ plainSummary passed failed sigsegv := by
  have hcounter : ∀ (label : CString) (x : Nat), Ansi.esc ∉ label →
      Ansi.esc ∉ label ++ (formatGuint x ++ [' ']) := fun label x hlabel =>
    esc_append.mpr ⟨hlabel, esc_append.mpr ⟨esc_formatGuint x, by decide⟩⟩
  refine esc_append.mpr ⟨by decide, esc_append.mpr ⟨hcounter _ _ (by decide),
    esc_append.mpr ⟨hcounter _ _ (by decide), esc_append.mpr ⟨?_, by decide⟩⟩⟩⟩
  exact esc_ite (fun _ => esc_append.mpr ⟨by decide, esc_formatGuint _⟩) fun _ => List.not_mem_nil

theorem esc_plainSuite (verbosity : StatisticsVerbosity) {suite : StatSuiteInfo}
    (h : Ansi.esc ∉ suite.suite.name) : Ansi.esc ∉ plainSuite verbosity suite := by
  refine esc_append.mpr ⟨esc_append.mpr ⟨by decide, esc_append.mpr ⟨esc_pad _ _ h, ?_⟩⟩,
    esc_append.mpr ⟨esc_plainAssertions _ _ _, by decide⟩⟩
  rw [List.mem_cons, not_or]
  exact ⟨by decide, esc_ite (fun _ => by decide) fun _ => by decide⟩

theorem esc_plainCase (verbosity : StatisticsVerbosity) {test : StatTestInfo}
    (h : Ansi.esc ∉ test.test.name) : Ansi.esc ∉ plainCase verbosity test := by
  have hleaked : Ansi.esc ∉ plainLeaked test.leakedBytes :=
    esc_ite (fun _ => esc_append.mpr ⟨by decide, esc_humanlyReadableText _⟩)
      fun _ => List.not_mem_nil
  exact esc_append.mpr ⟨esc_append.mpr ⟨by decide, esc_pad _ _ h⟩, esc_append.mpr
    ⟨esc_testResultName _, esc_append.mpr ⟨esc_plainAssertions _ _ _,
      esc_append.mpr ⟨hleaked, by decide⟩⟩⟩⟩

theorem esc_plainMessages (messages : Fin 8 → Nat) (priority : Fin 8) :
    Ansi.esc ∉ plainMessages messages priority := by
  have hname : Ansi.esc ∉ priorityName priority := by
    revert priority
    decide
  refine esc_append.mpr ⟨by decide, esc_append.mpr ⟨esc_pad _ _ hname, ?_⟩⟩
  rw [List.mem_cons, not_or]
  exact ⟨by decide, esc_append.mpr ⟨esc_pad _ _ (esc_formatGuint _), by decide⟩⟩

/-- **Names without `ESC`** make a report without `ESC`. -/
theorem esc_plainReport (verbosity : StatisticsVerbosity) (passed failed sigsegv : Nat)
    {suites : List StatSuiteInfo} (messages : Fin 8 → Nat)
    (h : ∀ suite ∈ suites, Ansi.esc ∉ suite.suite.name ∧
      ∀ test ∈ suite.tests, Ansi.esc ∉ test.test.name) :
    Ansi.esc ∉ plainReport verbosity passed failed sigsegv suites messages := by
  have hsuites : Ansi.esc ∉ suites.flatMap (plainSuiteBlock verbosity) := by
    refine esc_flatMap fun suite hs => esc_append.mpr ⟨esc_plainSuite _ (h suite hs).1, ?_⟩
    exact esc_ite (fun _ => esc_append.mpr ⟨esc_flatMap fun test ht =>
      esc_plainCase _ ((h suite hs).2 test ht), by decide⟩) fun _ => List.not_mem_nil
  have hmessages : Ansi.esc ∉ reportedPriorities.flatMap (plainMessages messages) :=
    esc_flatMap fun priority _ => esc_plainMessages messages priority
  exact esc_append.mpr ⟨esc_plainSummary _ _ _, esc_ite (fun _ => List.not_mem_nil) fun _ =>
    esc_append.mpr ⟨hsuites, esc_ite (fun _ => List.not_mem_nil) fun _ =>
      esc_append.mpr ⟨by decide, hmessages⟩⟩⟩

/-! ## What `tinu_main` prints -/

variable {w : MainWorld} {opts : MainOptions} {st : RunState}

/-- A handler is called once the run has ended, with the statistics of what they heard. -/
theorem mainRun_handled {c : TestContext} {report : Option ReportModule} {call : HandleCall}
    (h : call ∈ (mainRun w (some c) opts report st).handled) :
    ∃ res st' msgs, runOp w.env (opts.setFlags c) st opts.runOp = (some res, st') ∧
      (mainRun w (some c) opts report st).state = st' ∧
      statRun w.clock 0 (statInputs w.heard [] (st'.events.drop st.events.length)) statNew =
        some (call.stat, msgs) ∧
      call.verbosity = opts.statVerb ∧ call.enableColour = opts.fancy := by
  by_cases hstart : report = none ∨ opts.statVerb = .none
  · rw [mainRun, mainStart_none hstart] at h
    simp only [Option.map_some, mainHear] at h
    cases hr : (runOp w.env (opts.setFlags c) st opts.runOp).1 with
    | none =>
      simp only [hr, List.not_mem_nil] at h
    | some res =>
      simp only [hr] at h
      cases report with
      | none =>
        rw [mainReport, mainEnd_eq HookTable.init_holds] at h
        exact absurd h List.not_mem_nil
      | some mod => exact absurd h List.not_mem_nil
  · obtain ⟨hne, hverb⟩ := not_or.mp hstart
    obtain ⟨mod, rfl⟩ := Option.ne_none_iff_exists'.mp hne
    obtain ⟨hooks, es, hrun, ht, hhooks⟩ := @mainStart_some w opts mod hverb
    rw [mainRun, hrun] at h ⊢
    simp only [Option.map_some, mainHear, statDeliverRun_eq hhooks] at h ⊢
    cases hop : runOp w.env (opts.setFlags c) st opts.runOp with
    | mk r st' =>
      simp only [hop] at h ⊢
      cases hs : statRun w.clock 0 (statInputs w.heard [] (st'.events.drop st.events.length))
          statNew with
      | none =>
        simp only [hs, Option.map_none, List.not_mem_nil] at h
      | some p =>
        simp only [hs, Option.map_some] at h ⊢
        cases r with
        | none => exact absurd h List.not_mem_nil
        | some res =>
          simp only [mainReport_some ht, List.mem_singleton] at h ⊢
          subst h
          exact ⟨res, st', p.2, rfl, rfl, hs, rfl, rfl⟩

theorem tinuMain_handled {modules : List ReportModule} {context : Option TestContext}
    {call : HandleCall} (h : call ∈ (tinuMain w modules context (some opts) st).handled) :
    ∃ report, tinuMain w modules context (some opts) st =
      mainRun w context opts report (installHandler st) := by
  unfold tinuMain at h ⊢
  simp only at h ⊢
  split_ifs at h ⊢
  all_goals first
    | exact absurd h List.not_mem_nil
    | exact ⟨_, rfl⟩

/-- The suites and tests that a call selects are those of the context. -/
theorem opSelection_mem {c : TestContext} {op : RunOp} {p : TestSuite × List TestCase}
    (h : p ∈ (opSelection c op).getD []) : p.1 ∈ c.suites ∧ ∀ t ∈ p.2, t ∈ p.1.tests := by
  have hlook : ∀ {suite : CString} {s : TestSuite},
      (testSuiteLookup c suite false).1 = some s → s ∈ c.suites := by
    intro suite s hs
    rw [testSuiteLookup_find] at hs
    rcases Option.or_eq_some_iff.mp hs with hs | ⟨-, hs⟩
    · exact (find_mem hs).1
    · exact List.mem_of_getLast? hs
  cases op with
  | all =>
    obtain ⟨s, hs, rfl⟩ := List.mem_map.mp h
    exact ⟨hs, fun t ht => ht⟩
  | suite suite =>
    cases hs : (testSuiteLookup c suite false).1 with
    | none =>
      rw [opSelection, hs] at h
      cases h
    | some s =>
      rw [opSelection, hs] at h
      obtain rfl := List.mem_singleton.mp h
      exact ⟨hlook hs, fun t ht => ht⟩
  | case suite test =>
    cases hs : (testSuiteLookup c suite false).1 with
    | none =>
      rw [opSelection, hs] at h
      cases h
    | some s =>
      cases ht : testLookupCase s test with
      | none =>
        rw [opSelection, hs, Option.bind_some, ht] at h
        cases h
      | some t =>
        rw [opSelection, hs, Option.bind_some, ht] at h
        obtain rfl := List.mem_singleton.mp h
        refine ⟨hlook hs, fun t' ht' => ?_⟩
        obtain rfl := List.mem_singleton.mp ht'
        exact (lookupCase_mem ht).1

/-- The plain report does not show the times. -/
theorem plainReport_untimed (verbosity : StatisticsVerbosity) (passed failed sigsegv : Nat)
    (suites : List StatSuiteInfo) (messages : Fin 8 → Nat) :
    plainReport verbosity passed failed sigsegv (suites.map StatSuiteInfo.untimed) messages =
      plainReport verbosity passed failed sigsegv suites messages := by
  have hblock : ∀ suite : StatSuiteInfo,
      plainSuiteBlock verbosity suite.untimed = plainSuiteBlock verbosity suite := by
    intro suite
    have hcases : suite.untimed.tests.flatMap (plainCase verbosity) =
        suite.tests.flatMap (plainCase verbosity) := List.flatMap_map ..
    unfold plainSuiteBlock
    rw [hcases]
    rfl
  have hsuites : (suites.map StatSuiteInfo.untimed).flatMap (plainSuiteBlock verbosity) =
      suites.flatMap (plainSuiteBlock verbosity) := by
    rw [List.flatMap_map]
    exact congrArg (fun f => suites.flatMap f) (funext hblock)
  unfold plainReport
  rw [hsuites]

/-- The records of a selection have the names and the verdicts of its tests. -/
theorem suiteRecords_forall {env : Env} {c : TestContext} {leaked : Nat → Nat} :
    ∀ {n : Nat} {sel : Selection}, ∀ info ∈ suiteRecords env c leaked n sel,
      ∃ p ∈ sel, info.suite = p.1 ∧
        ∀ r ∈ info.tests, r.test ∈ p.2 ∧ r.result ≠ .none
  | n, (s, ts) :: sel, info, h => by
    rcases List.mem_cons.mp h with rfl | h
    · refine ⟨(s, ts), List.mem_cons_self, rfl, fun r hr => ?_⟩
      obtain ⟨i, hi⟩ := List.mem_iff_getElem?.mp hr
      have hi : (overTests (caseRecord env c leaked) n ts)[i]? = some r := hi
      rw [overTests_getElem?] at hi
      obtain ⟨t, ht, rfl⟩ := Option.map_eq_some_iff.mp hi
      exact ⟨List.mem_of_getElem? ht, verdictOf_ne_none env c (n + i) t⟩
    · obtain ⟨p, hp, hall⟩ := suiteRecords_forall info h
      exact ⟨p, List.mem_cons_of_mem _ hp, hall⟩

/-- The report of a run: `n` tests ran before it, `sel` are its tests, of which the `i`-th leaked
`leaked i` bytes, and `is` is what the statistics heard. -/
def runReport (verbosity : StatisticsVerbosity) (env : Env) (c : TestContext)
    (leaked : Nat → Nat) (n : Nat) (sel : Selection) (is : List StatInput) : CString :=
  plainReport verbosity ((verdicts env c n sel.tests).count .passed % guint32Range)
    ((verdicts env c n sel.tests).countP TestCaseResult.isFailure % guint32Range)
    ((verdicts env c n sel.tests).count .segfault % guint32Range)
    (suiteRecords env c leaked n sel) fun priority => is.count (.message priority) % guint32Range

/-- A recorded suite and its tests are of the selection, with verdicts. -/
theorem recorded_of_mem {env : Env} {c : TestContext} {n : Nat} {sel : Selection}
    {stat : TestStatistics} {leaked : Nat → Nat}
    (h : stat.suites.map StatSuiteInfo.untimed = suiteRecords env c leaked n sel)
    {suite : StatSuiteInfo} (hsuite : suite ∈ stat.suites) :
    ∃ p ∈ sel, suite.suite = p.1 ∧ ∀ r ∈ suite.tests, r.test ∈ p.2 ∧ r.result ≠ .none := by
  have hmem : suite.untimed ∈ suiteRecords env c leaked n sel := by
    rw [← h]
    exact List.mem_map_of_mem hsuite
  obtain ⟨p, hp, hname, hall⟩ := suiteRecords_forall _ hmem
  exact ⟨p, hp, hname, fun r hr => hall r.untimed (List.mem_map_of_mem hr)⟩

end Tinu
