import Tinu.StatTotals

/-!
# The report of a run (`report-external.c`) and its reader (`tinu.py`)

The report is a list of records `key=value`, with dotted keys; the first part of a key is kept in
`g_prg_prefix` between calls.  The reader splits a key level by level, in the `parse_item` of the
class of each level.  A record is the text of one `_prg_report_print` call, up to its newline.
The elapsed time of a test goes through floating point; only the shape of its text is fixed here.
-/

set_option autoImplicit false

namespace Tinu

/-! ## The writer -/

/-- `TestCaseResult` as a number. -/
def TestCaseResult.value : TestCaseResult → Int
  | .none => -1
  | .passed => 0
  | .failed => 1
  | .abort => 2
  | .segfault => 3
  | .internal => 4

/-- `TestCaseResult_names`. -/
def testCaseResultNames : List NameEntry :=
  [⟨-1, "none", 4⟩, ⟨0, "passed", 6⟩, ⟨1, "failed", 6⟩, ⟨2, "abort", 5⟩, ⟨3, "segfault", 8⟩,
    ⟨4, "internal", 8⟩]

/-- `test_result_name`; `none` when its assertion fails. -/
def testResultName (result : TestCaseResult) : Option CString :=
  if result ≠ .none then tinuLookupKey testCaseResultNames result.value else none

/-- `%d` of a `guint` or `guint32`. -/
def formatGuint (x : Nat) : CString := formatD (gintOfGsize x)

/-- A number with six decimals. -/
structure Decimal where
  negative : Bool
  whole : Nat
  micros : Fin 1000000
  deriving DecidableEq, Repr

/-- `%lf`. -/
def formatLf (d : Decimal) : CString :=
  (if d.negative then ['-'] else []) ++
    (Nat.toDigits 10 d.whole ++ '.' :: (Nat.toDigits 10 d.micros).leftpad 6 '0')

/-- The file of the report, up to its newlines, and `g_prg_prefix`. -/
structure ReportFile where
  prgPrefix : CString
  records : List CString
  deriving DecidableEq, Repr

/-- The size of `g_prg_prefix`. -/
def prgPrefixSize : Nat := 4096

/-- `_prg_report_set`; `none` when the text does not fit. -/
def prgReportSet (file : ReportFile) (text : CString) : Option ReportFile :=
  if text.length < prgPrefixSize then some { file with prgPrefix := text } else none

/-- `_prg_report_print` of `key=value`. -/
def prgReportPrint (file : ReportFile) (key value : CString) : ReportFile :=
  { file with records := file.records ++ [file.prgPrefix ++ '.' :: (key ++ '=' :: value)] }

/-- The name of a suite in the report. -/
def suitePrefix (suite : CString) : CString := "suite".toList ++ '.' :: suite

/-- The name of a test in the report. -/
def testPrefix (suite test : CString) : CString :=
  suitePrefix suite ++ '.' :: ("test".toList ++ '.' :: test)

/-- The inner loop of `_test_report_put_file`; `seconds` is a time in tics, divided by their
number per second. -/
def putTest (seconds : Int → Decimal) (suite : StatSuiteInfo) (file : ReportFile)
    (test : StatTestInfo) : Option ReportFile := do
  let file ← prgReportSet file (testPrefix suite.suite.name test.test.name)
  let result ← testResultName test.result
  let file := prgReportPrint file "result" result
  let file := prgReportPrint file "asserts.passed" (formatGuint test.assertionsPassed)
  let file := prgReportPrint file "asserts.total" (formatGuint test.assertions)
  some (prgReportPrint file "time" (formatLf (seconds (test.stop - test.start))))

/-- The outer loop of `_test_report_put_file`. -/
def putSuite (seconds : Int → Decimal) (file : ReportFile) (suite : StatSuiteInfo) :
    Option ReportFile := do
  let file ← prgReportSet file (suitePrefix suite.suite.name)
  let file := prgReportPrint file "result" (formatD (if suite.result then 1 else 0))
  let file := prgReportPrint file "asserts.passed" (formatGuint suite.assertionsPassed)
  let file := prgReportPrint file "asserts.total" (formatGuint suite.assertions)
  let file := prgReportPrint file "time" (formatLf (seconds (suite.stop - suite.start)))
  suite.tests.foldlM (putTest seconds suite) file

/-- The priorities from `LOG_CRIT` to `LOG_DEBUG`. -/
def reportedPriorities : List (Fin 8) := [2, 3, 4, 5, 6, 7]

/-- The last loop of `_test_report_put_file`. -/
def putMessages (stat : TestStatistics) (file : ReportFile) (priority : Fin 8) :
    Option ReportFile := do
  let name ← msgFormatPriority priority
  some (prgReportPrint file name (formatGuint (stat.messages priority)))

/-- `_test_report_put_file`. -/
def testReportPutFile (seconds : Int → Decimal) (file : ReportFile) (stat : TestStatistics) :
    Option ReportFile := do
  let file ← prgReportSet file "summary"
  let file := prgReportPrint file "passed" (formatGuint stat.passed)
  let file := prgReportPrint file "failed" (formatGuint stat.failed)
  let file := prgReportPrint file "segfault" (formatGuint stat.sigsegv)
  let file ← stat.suites.foldlM (putSuite seconds) file
  let file ← prgReportSet file "message"
  reportedPriorities.foldlM (putMessages stat) file

/-! ## What the reader uses of Python -/

/-- `str.split(sep, 1)`, where two parts are wanted. -/
def pySplit (sep : Char) : CString → Option (CString × CString)
  | [] => none
  | c :: s => if c = sep then some ([], s) else (pySplit sep s).map fun p => (c :: p.1, p.2)

def pyIsSpace (c : Char) : Bool :=
  c == ' ' || c == '\t' || c == '\n' || c == '\r' || c == '\x0b' || c == '\x0c'

/-- `str.strip()`. -/
def pyStrip (s : CString) : CString :=
  ((s.dropWhile pyIsSpace).reverse.dropWhile pyIsSpace).reverse

/-- Decimal digits, at least one. -/
def pyDigits (s : CString) : Option Nat :=
  if s ≠ [] ∧ s.all Char.isDigit then some (Nat.ofDigitChars 10 s 0) else none

/-- A sign, if there is one, and the rest. -/
def pySign : CString → Bool × CString
  | [] => (false, [])
  | c :: s => if c = '-' then (true, s) else if c = '+' then (false, s) else (false, c :: s)

/-- `int(str)`. -/
def pyInt (s : CString) : Option Int :=
  let p := pySign (pyStrip s)
  (pyDigits p.2).map fun n : Nat => if p.1 then -(n : Int) else n

/-- `float(str)`, of text with a decimal point between digits. -/
def pyFloat (s : CString) : Option ℚ := do
  let p := pySign (pyStrip s)
  let (whole, frac) ← pySplit '.' p.2
  let n ← pyDigits (whole ++ frac)
  if whole ≠ [] ∧ frac ≠ [] then
    let q : ℚ := n / 10 ^ frac.length
    some (if p.1 then -q else q)
  else none

/-! ## The reader -/

namespace Reporting

/-- `is_prefix`. -/
def isPrefixKey (str pre : CString) (sep : Char) : Bool :=
  if str.length ≤ pre.length then false
  else str[pre.length]? == some sep && str.take pre.length == pre

structure Summary where
  passed : Int
  failed : Int
  segfault : Int
  deriving DecidableEq, Repr

/-- `Summary.parse_item`. -/
def Summary.parseItem (self : Summary) (key value : CString) : Option Summary :=
  if key = "passed".toList then (pyInt value).map fun n => { self with passed := n }
  else if key = "failed".toList then (pyInt value).map fun n => { self with failed := n }
  else (pyInt value).map fun n => { self with segfault := n }

/-- The `msgcount` of a `Message`. -/
abbrev Message := AList fun _ : CString => Int

/-- `Message.parse_item`. -/
def Message.parseItem (self : Message) (key value : CString) : Option Message :=
  (pyInt value).map fun n => self.insert key n

structure Asserts where
  total : Int
  passed : Int
  deriving DecidableEq, Repr

/-- `Asserts.parse_item`. -/
def Asserts.parseItem (self : Asserts) (key value : CString) : Option Asserts :=
  if key = "passed".toList then (pyInt value).map fun n => { self with passed := n }
  else (pyInt value).map fun n => { self with total := n }

structure Test where
  name : CString
  result : CString
  asserts : Asserts
  time : ℚ

/-- `Test.__init__`. -/
def Test.new (name : CString) : Test := ⟨name, [], ⟨0, 0⟩, 0⟩

/-- `Test.parse_item`. -/
def Test.parseItem (self : Test) (key value : CString) : Option Test := do
  let self := if key = "result".toList then { self with result := value } else self
  if key = "time".toList then
    let time ← pyFloat value
    some { self with time := time }
  else if isPrefixKey key "asserts".toList '.' then
    let (_, rest) ← pySplit '.' key
    let asserts ← self.asserts.parseItem rest value
    some { self with asserts := asserts }
  else some self

structure Suite where
  name : CString
  tests : AList fun _ : CString => Test
  result : Option Int
  asserts : Asserts

/-- `Suite.__init__`. -/
def Suite.new (name : CString) : Suite := ⟨name, ∅, none, ⟨0, 0⟩⟩

/-- `Suite.parse_item`. -/
def Suite.parseItem (self : Suite) (key value : CString) : Option Suite :=
  if isPrefixKey key "test".toList '.' then do
    let (_, rest) ← pySplit '.' key
    let (name, rest) ← pySplit '.' rest
    let tests :=
      if (self.tests.lookup name).isNone then self.tests.insert name (Test.new name)
      else self.tests
    let test ← tests.lookup name
    let test ← test.parseItem rest value
    some { self with tests := tests.insert name test }
  else if key = "result".toList then (pyInt value).map fun n => { self with result := some n }
  else if isPrefixKey key "asserts".toList '.' then do
    let (_, rest) ← pySplit '.' key
    let asserts ← self.asserts.parseItem rest value
    some { self with asserts := asserts }
  else some self

structure TinuResult where
  summary : Summary
  messages : Message
  suites : AList fun _ : CString => Suite

/-- `TinuResult.__init__`. -/
def TinuResult.new : TinuResult := ⟨⟨0, 0, 0⟩, ∅, ∅⟩

/-- One round of the loop of `TinuResult.__parse`; `none` when it raises. -/
def TinuResult.parseLine (self : TinuResult) (line : CString) : Option TinuResult := do
  let (key, value) ← pySplit '=' line
  let (cls, rest) ← pySplit '.' key
  if cls = "summary".toList then
    let summary ← self.summary.parseItem rest value
    some { self with summary := summary }
  else if cls = "message".toList then
    let messages ← Message.parseItem self.messages rest value
    some { self with messages := messages }
  else if cls = "suite".toList then
    let (name, rest) ← pySplit '.' rest
    let suites :=
      if (self.suites.lookup name).isNone then self.suites.insert name (Suite.new name)
      else self.suites
    let suite ← suites.lookup name
    let suite ← suite.parseItem rest value
    some { self with suites := suites.insert name suite }
  else some self

/-- `TinuResult.load_iterator`. -/
def TinuResult.loadIterator (self : TinuResult) (lines : List CString) : Option TinuResult :=
  lines.foldlM TinuResult.parseLine self

end Reporting

end Tinu
