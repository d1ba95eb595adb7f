import Tinu.Lib.Dict
import Tinu.Report

/-!
# The reader gets back what the writer wrote

* `pyInt_formatGuint`, `pyFloat_formatLf` — the reader's numbers invert the writer's;
* `testReportPutFile_records` — the records of a report, level by level;
* `TinuResult.parseLine_suite`, `Suite.parseItem_test` — a record goes to the level it came from,
  whatever the names in it;
* `report_reads_back` — the round trip.
-/

set_option autoImplicit false

namespace Tinu

open Reporting

/-! ## Splitting -/

/-- The first separator is the one that was put there. -/
theorem pySplit_append {sep : Char} :
    ∀ {a b : CString}, sep ∉ a → pySplit sep (a ++ sep :: b) = some (a, b)
  | [], b, _ => by rw [List.nil_append, pySplit, if_pos rfl]
  | c :: a, b, h => by
    rw [List.mem_cons, not_or] at h
    rw [List.cons_append, pySplit, if_neg (Ne.symm h.1), pySplit_append h.2, Option.map_some]

/-- A prefix is found where it was put. -/
theorem isPrefixKey_append (pre rest : CString) (sep : Char) :
    isPrefixKey (pre ++ sep :: rest) pre sep = true := by
  have hlen : ¬ (pre ++ sep :: rest).length ≤ pre.length := by
    rw [List.length_append, List.length_cons]
    omega
  rw [isPrefixKey, if_neg hlen, List.getElem?_append_right (Nat.le_refl _), Nat.sub_self,
    List.getElem?_cons_zero, List.take_left, beq_self_eq_true, beq_self_eq_true, Bool.and_self]

/-! ## Numbers -/

theorem pyIsSpace_of_isDigit {c : Char} (h : c.isDigit = true) : pyIsSpace c = false := by
  have hne : ∀ d : Char, d.isDigit = false → (c == d) = false := by
    intro d hd
    rw [beq_eq_false_iff_ne]
    rintro rfl
    rw [h] at hd
    exact Bool.noConfusion hd
  unfold pyIsSpace
  rw [hne _ (by decide), hne _ (by decide), hne _ (by decide), hne _ (by decide),
    hne _ (by decide), hne _ (by decide)]
  rfl

theorem dropWhile_space {s : CString} (h : ∀ c ∈ s, pyIsSpace c = false) :
    s.dropWhile pyIsSpace = s := by
  cases s with
  | nil => rfl
  | cons c s => rw [List.dropWhile_cons, h c List.mem_cons_self]; rfl

theorem pyStrip_of_no_space {s : CString} (h : ∀ c ∈ s, pyIsSpace c = false) : pyStrip s = s := by
  unfold pyStrip
  rw [dropWhile_space h, dropWhile_space fun c hc => h c (List.mem_reverse.mp hc),
    List.reverse_reverse]

/-- Text that starts with a digit has no sign. -/
theorem pySign_of_isDigit {c : Char} {s : CString} (h : c.isDigit = true) :
    pySign (c :: s) = (false, c :: s) := by
  have hminus : c ≠ '-' := by rintro rfl; exact absurd h (by decide)
  have hplus : c ≠ '+' := by rintro rfl; exact absurd h (by decide)
  rw [pySign, if_neg hminus, if_neg hplus]

theorem isDigit_toDigits {n : Nat} : ∀ c ∈ Nat.toDigits 10 n, c.isDigit = true :=
  fun _ hc => Nat.isDigit_of_mem_toDigits (by decide) (by decide) hc

theorem pySign_append {s t : CString} (hne : s ≠ []) (h : ∀ c ∈ s, c.isDigit = true) :
    pySign (s ++ t) = (false, s ++ t) := by
  cases s with
  | nil => exact absurd rfl hne
  | cons c s => exact pySign_of_isDigit (h c List.mem_cons_self)

theorem pyDigits_of_isDigit {s : CString} (hne : s ≠ []) (h : ∀ c ∈ s, c.isDigit = true) :
    pyDigits s = some (Nat.ofDigitChars 10 s 0) := by
  rw [pyDigits, if_pos ⟨hne, List.all_eq_true.mpr h⟩]

theorem pyInt_toDigits (n : Nat) : pyInt (Nat.toDigits 10 n) = some (n : Int) := by
  have hsign : pySign (Nat.toDigits 10 n) = (false, Nat.toDigits 10 n) := by
    have h := @pySign_append _ [] (@Nat.toDigits_ne_nil n 10) isDigit_toDigits
    rwa [List.append_nil] at h
  unfold pyInt
  rw [pyStrip_of_no_space fun c hc => pyIsSpace_of_isDigit (isDigit_toDigits c hc), hsign]
  simp only [pyDigits_of_isDigit Nat.toDigits_ne_nil isDigit_toDigits, Option.map_some,
    Nat.ofDigitChars_ten_toDigits, Bool.false_eq_true, if_false]

theorem formatD_natCast (n : Nat) : formatD (n : Int) = Nat.toDigits 10 n := by
  rw [formatD, Printf.decimal, if_neg (by omega), Int.natAbs_natCast]

/-- **`int` inverts `%d` of a counter.** -/
theorem pyInt_formatGuint {x : Nat} (h : x < 2 ^ 31) : pyInt (formatGuint x) = some (x : Int) := by
  have hx : gintOfGsize x = (x : Int) := by
    unfold gintOfGsize
    omega
  rw [formatGuint, hx, formatD_natCast, pyInt_toDigits]

theorem pyInt_formatD_bool (b : Bool) :
    pyInt (formatD (if b then 1 else 0)) = some (if b then 1 else 0) := by
  cases b with
  | false => exact (congrArg pyInt (formatD_natCast 0)).trans (pyInt_toDigits 0)
  | true => exact (congrArg pyInt (formatD_natCast 1)).trans (pyInt_toDigits 1)

/-- The decimals of `%lf`. -/
theorem isDigit_micros (d : Decimal) :
    ∀ c ∈ (Nat.toDigits 10 d.micros).leftpad 6 '0', c.isDigit = true := by
  intro c hc
  rw [List.leftpad, List.mem_append] at hc
  rcases hc with hc | hc
  · rw [List.eq_of_mem_replicate hc]
    decide
  · exact isDigit_toDigits c hc

/-- **`float` takes what `%lf` prints.** -/
theorem pyFloat_formatLf (d : Decimal) : ∃ q, pyFloat (formatLf d) = some q := by
  obtain ⟨w, hw⟩ : ∃ w, w = Nat.toDigits 10 d.whole := ⟨_, rfl⟩
  obtain ⟨m, hm⟩ : ∃ m, m = (Nat.toDigits 10 d.micros).leftpad 6 '0' := ⟨_, rfl⟩
  have hwd : ∀ c ∈ w, c.isDigit = true := hw ▸ isDigit_toDigits
  have hmd : ∀ c ∈ m, c.isDigit = true := hm ▸ isDigit_micros d
  have hwne : w ≠ [] := hw ▸ Nat.toDigits_ne_nil
  have hmne : m ≠ [] := by
    rw [hm, List.leftpad]
    exact List.append_ne_nil_of_right_ne_nil _ Nat.toDigits_ne_nil
  have hspace : ∀ c ∈ formatLf d, pyIsSpace c = false := by
    intro c hc
    rw [formatLf, ← hw, ← hm, List.mem_append, List.mem_append, List.mem_cons] at hc
    rcases hc with hc | hc | rfl | hc
    · cases hneg : d.negative with
      | false => rw [hneg] at hc; exact absurd hc List.not_mem_nil
      | true => rw [hneg] at hc; rw [List.mem_singleton.mp hc]; decide
    · exact pyIsSpace_of_isDigit (hwd c hc)
    · decide
    · exact pyIsSpace_of_isDigit (hmd c hc)
  have hsign : pySign (formatLf d) = (d.negative, w ++ '.' :: m) := by
    rw [formatLf, ← hw, ← hm]
    cases d.negative with
    | false => exact @pySign_append w ('.' :: m) hwne hwd
    | true => rfl
  have hdot : '.' ∉ w := fun h => absurd (hwd _ h) (by decide)
  have hdigits : pyDigits (w ++ m) = some (Nat.ofDigitChars 10 (w ++ m) 0) :=
    pyDigits_of_isDigit (List.append_ne_nil_of_left_ne_nil hwne _) fun c hc =>
      (List.mem_append.mp hc).elim (hwd c) (hmd c)
  unfold pyFloat
  rw [pyStrip_of_no_space hspace, hsign]
  simp only [pySplit_append hdot, hdigits, Option.bind_eq_bind, Option.bind_some, if_pos,
    ne_eq, hwne, hmne, not_false_eq_true, and_self]
  exact ⟨_, rfl⟩

/-! ## The records of a report -/

/-- A key and its value, without the part of the key that its level adds. -/
abbrev Item := CString × CString

/-- The key of an item of the part `name` of the class `cls`. -/
def nested (cls name key : CString) : CString := cls ++ '.' :: (name ++ '.' :: key)

/-- The text of an item. -/
def line (i : Item) : CString := i.1 ++ '=' :: i.2

def summaryItems (stat : TestStatistics) : List Item :=
  [("passed", formatGuint stat.passed), ("failed", formatGuint stat.failed),
    ("segfault", formatGuint stat.sigsegv)]

def testItems (seconds : Int → Decimal) (test : StatTestInfo) : List Item :=
  [("result", (testResultName test.result).getD []),
    ("asserts.passed", formatGuint test.assertionsPassed),
    ("asserts.total", formatGuint test.assertions),
    ("time", formatLf (seconds (test.stop - test.start)))]

/-- The items of a suite, without its tests. -/
def ownItems (seconds : Int → Decimal) (suite : StatSuiteInfo) : List Item :=
  [("result", formatD (if suite.result then 1 else 0)),
    ("asserts.passed", formatGuint suite.assertionsPassed),
    ("asserts.total", formatGuint suite.assertions),
    ("time", formatLf (seconds (suite.stop - suite.start)))]

/-- An item of a test among those of its suite. -/
def inTestItem (test : StatTestInfo) (i : Item) : Item :=
  (nested "test".toList test.test.name i.1, i.2)

def suiteItems (seconds : Int → Decimal) (suite : StatSuiteInfo) : List Item :=
  ownItems seconds suite ++
    suite.tests.flatMap fun test => (testItems seconds test).map (inTestItem test)

/-- An item of a suite in the report. -/
def inSuiteItem (suite : StatSuiteInfo) (i : Item) : Item :=
  (nested "suite".toList suite.suite.name i.1, i.2)

/-- The name of a priority. -/
def priorityName (priority : Fin 8) : CString := (msgFormatPriority priority).getD []

theorem msgFormatPriority_eq :
    ∀ priority : Fin 8, msgFormatPriority priority = some (priorityName priority) := by decide

def messageItem (stat : TestStatistics) (priority : Fin 8) : Item :=
  (priorityName priority, formatGuint (stat.messages priority))

/-- An item of a class without parts. -/
def inClass (cls : CString) (i : Item) : Item := (cls ++ '.' :: i.1, i.2)

/-- The items of a report. -/
def reportItems (seconds : Int → Decimal) (stat : TestStatistics) : List Item :=
  (summaryItems stat).map (inClass "summary") ++
    (stat.suites.flatMap fun suite => (suiteItems seconds suite).map (inSuiteItem suite)) ++
      reportedPriorities.flatMap fun p => [messageItem stat p].map (inClass "message")

/-! ## One item, read -/

theorem eq_notMem_key {cls key : CString} (hcls : '=' ∉ cls) (hkey : '=' ∉ key) :
    '=' ∉ cls ++ '.' :: key := by
  rw [List.mem_append, List.mem_cons, not_or, not_or]
  exact ⟨hcls, by decide, hkey⟩

theorem assertsPassed_key :
    "asserts.passed".toList = "asserts".toList ++ '.' :: "passed".toList := by decide

theorem assertsTotal_key :
    "asserts.total".toList = "asserts".toList ++ '.' :: "total".toList := by decide

namespace Reporting

theorem Asserts.parseItem_passed {asserts : Asserts} {value : CString} {n : Int}
    (h : pyInt value = some n) :
    asserts.parseItem "passed".toList value = some { asserts with passed := n } := by
  rw [Asserts.parseItem, if_pos rfl, h, Option.map_some]

theorem Asserts.parseItem_total {asserts : Asserts} {value : CString} {n : Int}
    (h : pyInt value = some n) :
    asserts.parseItem "total".toList value = some { asserts with total := n } := by
  rw [Asserts.parseItem, if_neg (by decide), h, Option.map_some]

theorem Summary.parseItem_passed {summary : Summary} {value : CString} {n : Int}
    (h : pyInt value = some n) :
    summary.parseItem "passed".toList value = some { summary with passed := n } := by
  rw [Summary.parseItem, if_pos rfl, h, Option.map_some]

theorem Summary.parseItem_failed {summary : Summary} {value : CString} {n : Int}
    (h : pyInt value = some n) :
    summary.parseItem "failed".toList value = some { summary with failed := n } := by
  rw [Summary.parseItem, if_neg (by decide), if_pos rfl, h, Option.map_some]

theorem Summary.parseItem_segfault {summary : Summary} {value : CString} {n : Int}
    (h : pyInt value = some n) :
    summary.parseItem "segfault".toList value = some { summary with segfault := n } := by
  rw [Summary.parseItem, if_neg (by decide), if_neg (by decide), h, Option.map_some]

theorem Test.parseItem_result (test : Test) (value : CString) :
    test.parseItem "result".toList value = some { test with result := value } := rfl

theorem Test.parseItem_time (test : Test) {value : CString} {q : ℚ} (h : pyFloat value = some q) :
    test.parseItem "time".toList value = some { test with time := q } := by
  have hstep : test.parseItem "time".toList value =
      (pyFloat value).bind fun time => some { test with time := time } := rfl
  rw [hstep, h, Option.bind_some]

theorem Test.parseItem_asserts (test : Test) {key value : CString} {asserts : Asserts}
    (h : test.asserts.parseItem key value = some asserts) :
    test.parseItem ("asserts".toList ++ '.' :: key) value =
      some { test with asserts := asserts } := by
  have hresult : "asserts".toList ++ '.' :: key ≠ "result".toList :=
    fun h => absurd (List.cons.inj h).1 (by decide)
  have htime : "asserts".toList ++ '.' :: key ≠ "time".toList :=
    fun h => absurd (List.cons.inj h).1 (by decide)
  rw [Test.parseItem, if_neg hresult, if_neg htime, if_pos (isPrefixKey_append _ _ _),
    @pySplit_append '.' _ _ (by decide)]
  show (test.asserts.parseItem key value).bind
    (fun asserts => some { test with asserts := asserts }) = _
  rw [h, Option.bind_some]

theorem Suite.parseItem_result (suite : Suite) {value : CString} {n : Int}
    (h : pyInt value = some n) :
    suite.parseItem "result".toList value = some { suite with result := some n } := by
  have hstep : suite.parseItem "result".toList value =
      (pyInt value).map fun n => { suite with result := some n } := rfl
  rw [hstep, h, Option.map_some]

theorem Suite.parseItem_time (suite : Suite) (value : CString) :
    suite.parseItem "time".toList value = some suite := rfl

theorem Suite.parseItem_asserts (suite : Suite) {key value : CString} {asserts : Asserts}
    (h : suite.asserts.parseItem key value = some asserts) :
    suite.parseItem ("asserts".toList ++ '.' :: key) value =
      some { suite with asserts := asserts } := by
  have htest : isPrefixKey ("asserts".toList ++ '.' :: key) "test".toList '.' = false := rfl
  have hresult : "asserts".toList ++ '.' :: key ≠ "result".toList :=
    fun h => absurd (List.cons.inj h).1 (by decide)
  rw [Suite.parseItem, htest, if_neg Bool.false_ne_true, if_neg hresult,
    if_pos (isPrefixKey_append _ _ _), @pySplit_append '.' _ _ (by decide)]
  show (suite.asserts.parseItem key value).bind
    (fun asserts => some { suite with asserts := asserts }) = _
  rw [h, Option.bind_some]

/-- An item of a test goes to that test, whatever its name is. -/
theorem Suite.parseItem_test (suite : Suite) {name : CString} (hname : '.' ∉ name)
    (key value : CString) :
    suite.parseItem (nested "test".toList name key) value =
      (Dict.touch Test.new (fun test => test.parseItem key value) name suite.tests).map
        fun tests => { suite with tests := tests } := by
  rw [Suite.parseItem, nested, if_pos (isPrefixKey_append _ _ _),
    @pySplit_append '.' _ _ (by decide), ← Dict.touch_lookup]
  simp only [pySplit_append hname, Option.bind_eq_bind, Option.bind_some, Option.map_bind,
    Function.comp_def, Option.map_some]

/-- A record with both of its separators. -/
theorem TinuResult.parseLine_of_split (res : TinuResult) {line key value cls rest : CString}
    (hline : pySplit '=' line = some (key, value)) (hkey : pySplit '.' key = some (cls, rest)) :
    res.parseLine line =
      if cls = "summary".toList then
        (res.summary.parseItem rest value).map fun summary => { res with summary := summary }
      else if cls = "message".toList then
        (Message.parseItem res.messages rest value).map fun messages =>
          { res with messages := messages }
      else if cls = "suite".toList then
        (pySplit '.' rest).bind fun p =>
          (Dict.touch Suite.new (fun suite => suite.parseItem p.2 value) p.1 res.suites).map
            fun suites => { res with suites := suites }
      else some res := by
  rw [TinuResult.parseLine, hline, Option.bind_eq_bind, Option.bind_some]
  simp only [hkey, ← Dict.touch_lookup, Option.bind_eq_bind, Option.bind_some, Option.bind_assoc,
    Option.map_eq_bind, Function.comp_def]

theorem TinuResult.parseLine_summary (res : TinuResult) {key : CString} (value : CString)
    (hkey : '=' ∉ key) :
    res.parseLine (("summary".toList ++ '.' :: key) ++ '=' :: value) =
      (res.summary.parseItem key value).map fun summary => { res with summary := summary } := by
  rw [res.parseLine_of_split (pySplit_append (eq_notMem_key (by decide) hkey))
    (pySplit_append (by decide)), if_pos rfl]

theorem TinuResult.parseLine_message (res : TinuResult) {key : CString} (value : CString)
    (hkey : '=' ∉ key) :
    res.parseLine (("message".toList ++ '.' :: key) ++ '=' :: value) =
      (Message.parseItem res.messages key value).map fun messages =>
        { res with messages := messages } := by
  rw [res.parseLine_of_split (pySplit_append (eq_notMem_key (by decide) hkey))
    (pySplit_append (by decide)), if_neg (by decide), if_pos rfl]

/-- An item of a suite goes to that suite, whatever its name is. -/
theorem TinuResult.parseLine_suite (res : TinuResult) {name key : CString} (value : CString)
    (hname : '.' ∉ name ∧ '=' ∉ name) (hkey : '=' ∉ key) :
    res.parseLine (nested "suite".toList name key ++ '=' :: value) =
      (Dict.touch Suite.new (fun suite => suite.parseItem key value) name res.suites).map
        fun suites => { res with suites := suites } := by
  have heq := @eq_notMem_key "suite".toList _ (by decide) (eq_notMem_key hname.2 hkey)
  rw [nested, res.parseLine_of_split (pySplit_append heq) (pySplit_append (by decide)),
    if_neg (by decide), if_neg (by decide), if_pos rfl, pySplit_append hname.1, Option.bind_some]

end Reporting

/-- The keys of a test, and of a suite itself. -/
def blockKeys : List CString := ["result", "asserts.passed", "asserts.total", "time"]

theorem eq_notMem_blockKeys : ∀ key ∈ blockKeys, '=' ∉ key := by decide

theorem testItems_keys {seconds : Int → Decimal} {info : StatTestInfo} {i : Item}
    (h : i ∈ testItems seconds info) : '=' ∉ i.1 :=
  eq_notMem_blockKeys i.1 (List.mem_map_of_mem (f := Prod.fst) h)

theorem ownItems_keys {seconds : Int → Decimal} {info : StatSuiteInfo} {i : Item}
    (h : i ∈ ownItems seconds info) : '=' ∉ i.1 :=
  eq_notMem_blockKeys i.1 (List.mem_map_of_mem (f := Prod.fst) h)

theorem summaryItems_keys {stat : TestStatistics} {i : Item} (h : i ∈ summaryItems stat) :
    '=' ∉ i.1 :=
  (by decide : ∀ key ∈ (["passed", "failed", "segfault"] : List CString), '=' ∉ key) i.1
    (List.mem_map_of_mem (f := Prod.fst) h)

theorem eq_notMem_test : '=' ∉ "test".toList := by decide

theorem priorityName_keys : ∀ priority, '=' ∉ priorityName priority := by decide

theorem mem_reportedPriorities :
    ∀ priority : Fin 8, LOG_CRIT ≤ (priority : Nat) → priority ∈ reportedPriorities := by decide

theorem priorityNames_nodup : (reportedPriorities.map priorityName).Nodup := by decide

theorem summary_fits : "summary".toList.length < prgPrefixSize := by decide

theorem message_fits : "message".toList.length < prgPrefixSize := by decide

section

-- From here on the texts are not looked into.
attribute [local irreducible] String.toList

/-! ## What the writer writes -/

/-- A test that the report can hold. -/
structure ReportableTest (suite : CString) (test : StatTestInfo) : Prop where
  name : testValidateName test.test.name = true
  fits : (testPrefix suite test.test.name).length < prgPrefixSize
  result : test.result ≠ .none
  passed : test.assertionsPassed < 2 ^ 31
  total : test.assertions < 2 ^ 31

/-- A suite that the report can hold. -/
structure ReportableSuite (suite : StatSuiteInfo) : Prop where
  name : testValidateName suite.suite.name = true
  fits : (suitePrefix suite.suite.name).length < prgPrefixSize
  passed : suite.assertionsPassed < 2 ^ 31
  total : suite.assertions < 2 ^ 31
  nodup : (suite.tests.map fun t => t.test.name).Nodup
  tests : ∀ test ∈ suite.tests, ReportableTest suite.suite.name test

/-- Statistics that the report can hold. -/
structure Reportable (stat : TestStatistics) : Prop where
  passed : stat.passed < 2 ^ 31
  failed : stat.failed < 2 ^ 31
  sigsegv : stat.sigsegv < 2 ^ 31
  messages : ∀ priority, stat.messages priority < 2 ^ 31
  nodup : (stat.suites.map fun s => s.suite.name).Nodup
  suites : ∀ suite ∈ stat.suites, ReportableSuite suite

/-- A suite that the writer gets through: its prefixes fit, and its tests have results. -/
structure WritableSuite (suite : StatSuiteInfo) : Prop where
  fits : (suitePrefix suite.suite.name).length < prgPrefixSize
  tests : ∀ test ∈ suite.tests, (testPrefix suite.suite.name test.test.name).length < prgPrefixSize
  results : ∀ test ∈ suite.tests, test.result ≠ .none

theorem ReportableSuite.writable {suite : StatSuiteInfo} (h : ReportableSuite suite) :
    WritableSuite suite :=
  ⟨h.fits, fun test ht => (h.tests test ht).fits, fun test ht => (h.tests test ht).result⟩

/-- The step adds the items to the records; it needs `P` of the prefix, and keeps it. -/
def Puts (P : CString → Prop) (step : ReportFile → Option ReportFile) (is : List Item) : Prop :=
  ∀ file : ReportFile, P file.prgPrefix →
    ∃ file', step file = some file' ∧ P file'.prgPrefix ∧
      file'.records = file.records ++ is.map line

theorem Puts.foldlM {α : Type} {P : CString → Prop} {step : ReportFile → α → Option ReportFile}
    {items : α → List Item} :
    ∀ {xs : List α}, (∀ x ∈ xs, Puts P (fun file => step file x) (items x)) →
      Puts P (fun file => xs.foldlM step file) (xs.flatMap items)
  | [], _, file, hP => ⟨file, rfl, hP, (List.append_nil _).symm⟩
  | x :: xs, h, file, hP => by
    obtain ⟨file₁, hx, hP₁, hr₁⟩ := h x List.mem_cons_self file hP
    obtain ⟨file₂, hxs, hP₂, hr₂⟩ :=
      Puts.foldlM (fun y hy => h y (List.mem_cons_of_mem _ hy)) file₁ hP₁
    refine ⟨file₂, ?_, hP₂, ?_⟩
    · show (x :: xs).foldlM step file = some file₂
      rw [List.foldlM_cons, show step file x = some file₁ from hx]
      exact hxs
    · rw [hr₂, hr₁, List.flatMap_cons, List.map_append, List.append_assoc]

theorem prgReportSet_of_fits {file : ReportFile} {text : CString}
    (h : text.length < prgPrefixSize) :
    prgReportSet file text = some { file with prgPrefix := text } := if_pos h

theorem testResultName_of_ne {result : TestCaseResult} (h : result ≠ .none) :
    ∃ name, testResultName result = some name := by
  cases result with
  | none => exact absurd rfl h
  | passed | failed | abort | segfault | internal => exact ⟨_, rfl⟩

theorem suitePrefix_append (suite rest : CString) :
    suitePrefix suite ++ rest = "suite".toList ++ '.' :: (suite ++ rest) :=
  List.append_assoc "suite".toList ('.' :: suite) rest

theorem putTest_puts {seconds : Int → Decimal} {suite : StatSuiteInfo} {test : StatTestInfo}
    (hfits : (testPrefix suite.suite.name test.test.name).length < prgPrefixSize)
    (hresult : test.result ≠ .none) :
    Puts (fun _ => True) (fun file => putTest seconds suite file test)
      (((testItems seconds test).map (inTestItem test)).map (inSuiteItem suite)) := by
  intro file _
  obtain ⟨name, hname⟩ := testResultName_of_ne hresult
  simp only [putTest, prgReportSet_of_fits hfits, hname, Option.bind_eq_bind, Option.bind_some]
  refine ⟨_, rfl, trivial, ?_⟩
  simp only [prgReportPrint, testPrefix, suitePrefix_append, testItems, hname, Option.getD_some,
    List.map_cons, List.map_nil, inTestItem, inSuiteItem, nested, line, List.append_assoc,
    List.cons_append, List.nil_append]

theorem putSuite_puts {seconds : Int → Decimal} {suite : StatSuiteInfo}
    (h : WritableSuite suite) :
    Puts (fun _ => True) (fun file => putSuite seconds file suite)
      ((suiteItems seconds suite).map (inSuiteItem suite)) := by
  intro file _
  simp only [putSuite, prgReportSet_of_fits h.fits, Option.bind_eq_bind, Option.bind_some]
  obtain ⟨file', hrun, -, hrecords⟩ :=
    Puts.foldlM (fun test ht =>
      @putTest_puts seconds suite test (h.tests test ht) (h.results test ht)) _ trivial
  refine ⟨file', hrun, trivial, ?_⟩
  rw [hrecords]
  simp only [prgReportPrint, suitePrefix_append, suiteItems, ownItems, List.map_cons, List.map_flatMap,
    inSuiteItem, nested, line, List.append_assoc, List.cons_append, List.nil_append]

theorem putMessages_puts (stat : TestStatistics) (priority : Fin 8) :
    Puts (fun pre => pre = "message".toList) (fun file => putMessages stat file priority)
      ([messageItem stat priority].map (inClass "message")) := by
  intro file hpre
  simp only [putMessages, msgFormatPriority_eq, Option.bind_eq_bind, Option.bind_some]
  refine ⟨_, rfl, hpre, ?_⟩
  simp only [prgReportPrint, hpre, List.map_cons, List.map_nil, line, inClass, messageItem,
    List.append_assoc, List.cons_append]

/-- **The records of a report**, whatever the prefix was before. -/
theorem testReportPutFile_records {seconds : Int → Decimal} {stat : TestStatistics}
    (h : ∀ suite ∈ stat.suites, WritableSuite suite) (file : ReportFile) :
    ∃ file', testReportPutFile seconds file stat = some file' ∧
      file'.records = file.records ++ (reportItems seconds stat).map line := by
  have hsummary := summary_fits
  have hmessage := message_fits
  have hsuites := Puts.foldlM fun suite hs => @putSuite_puts seconds suite (h suite hs)
  have hmessages := @Puts.foldlM _ _ _ _ reportedPriorities fun p _ => putMessages_puts stat p
  obtain ⟨file₁, hrun₁, -, hrecords₁⟩ := hsuites
    ⟨"summary", file.records ++ ((summaryItems stat).map (inClass "summary")).map line⟩ trivial
  obtain ⟨file₂, hrun₂, -, hrecords₂⟩ := hmessages ⟨"message", file₁.records⟩ rfl
  refine ⟨file₂, ?_, ?_⟩
  · simp only [summaryItems, inClass, line, List.map_cons, List.map_nil] at hrun₁
    simp only [testReportPutFile, prgReportSet_of_fits hsummary, prgReportSet_of_fits hmessage,
      prgReportPrint, Option.bind_eq_bind, Option.bind_some, List.append_assoc, List.cons_append,
      List.nil_append] at hrun₁ ⊢
    rw [hrun₁]
    exact hrun₂
  · rw [hrecords₂, hrecords₁, reportItems, List.map_append, List.map_append]
    simp only [List.append_assoc]

/-! ## What the reader reads -/

/-- What the reader has of the assertions agrees with the counters. -/
structure AssertsAgree (passed total : Nat) (asserts : Asserts) : Prop where
  passed : asserts.passed = (passed : Int)
  total : asserts.total = (total : Int)

/-- What the reader has of a test agrees with the statistics. -/
structure TestAgrees (info : StatTestInfo) (test : Test) : Prop where
  name : test.name = info.test.name
  result : testResultName info.result = some test.result
  asserts : AssertsAgree info.assertionsPassed info.assertions test.asserts

/-- What the reader has of a suite agrees with the statistics, with exactly the same tests. -/
structure SuiteAgrees (info : StatSuiteInfo) (suite : Suite) : Prop where
  name : suite.name = info.suite.name
  result : suite.result = some (if info.result then 1 else 0)
  asserts : AssertsAgree info.assertionsPassed info.assertions suite.asserts
  tests : Dict.Represents (fun t : StatTestInfo => t.test.name) TestAgrees info.tests suite.tests

/-- What the reader has agrees with the statistics, with exactly the same suites. -/
structure ReportAgrees (stat : TestStatistics) (res : TinuResult) : Prop where
  summary : res.summary = ⟨stat.passed, stat.failed, stat.sigsegv⟩
  messages : ∀ priority : Fin 8, LOG_CRIT ≤ (priority : Nat) → ∃ name,
    msgFormatPriority priority = some name ∧
      res.messages.lookup name = some (stat.messages priority : Int)
  suites : Dict.Represents (fun s : StatSuiteInfo => s.suite.name) SuiteAgrees stat.suites
    res.suites

/-- The items of a test give the test. -/
theorem testItems_read {seconds : Int → Decimal} {suite : CString} {info : StatTestInfo}
    (h : ReportableTest suite info) :
    ∃ test, (testItems seconds info).foldlM (fun test i => Test.parseItem test i.1 i.2)
      (Test.new info.test.name) = some test ∧ TestAgrees info test := by
  obtain ⟨name, hname⟩ := testResultName_of_ne h.result
  obtain ⟨q, hq⟩ := pyFloat_formatLf (seconds (info.stop - info.start))
  have hpassed := fun a => @Asserts.parseItem_passed a _ _ (pyInt_formatGuint h.passed)
  have htotal := fun a => @Asserts.parseItem_total a _ _ (pyInt_formatGuint h.total)
  refine ⟨⟨info.test.name, name, ⟨info.assertions, info.assertionsPassed⟩, q⟩, ?_, rfl, hname,
    rfl, rfl⟩
  rw [testItems, hname, Option.getD_some, assertsPassed_key, assertsTotal_key,
    Dict.foldlM_cons_of_some (Test.parseItem_result _ name),
    Dict.foldlM_cons_of_some (Test.parseItem_asserts _ (hpassed _)),
    Dict.foldlM_cons_of_some (Test.parseItem_asserts _ (htotal _)),
    Dict.foldlM_cons_of_some (Test.parseItem_time _ hq)]
  rfl

/-- The items of a suite itself. -/
theorem ownItems_read {seconds : Int → Decimal} {info : StatSuiteInfo} (h : ReportableSuite info)
    (tests : AList fun _ : CString => Test) :
    (ownItems seconds info).foldlM (fun suite i => Suite.parseItem suite i.1 i.2)
        ⟨info.suite.name, tests, none, ⟨0, 0⟩⟩ =
      some ⟨info.suite.name, tests, some (if info.result then 1 else 0),
        ⟨info.assertions, info.assertionsPassed⟩⟩ := by
  have hpassed := fun a => @Asserts.parseItem_passed a _ _ (pyInt_formatGuint h.passed)
  have htotal := fun a => @Asserts.parseItem_total a _ _ (pyInt_formatGuint h.total)
  rw [ownItems, assertsPassed_key, assertsTotal_key,
    Dict.foldlM_cons_of_some (Suite.parseItem_result _ (pyInt_formatD_bool info.result)),
    Dict.foldlM_cons_of_some (Suite.parseItem_asserts _ (hpassed _)),
    Dict.foldlM_cons_of_some (Suite.parseItem_asserts _ (htotal _)),
    Dict.foldlM_cons_of_some (Suite.parseItem_time _ _)]
  rfl

theorem suiteItems_keys {seconds : Int → Decimal} {info : StatSuiteInfo}
    (h : ReportableSuite info) : ∀ i ∈ suiteItems seconds info, '=' ∉ i.1 := by
  intro i hi
  rw [suiteItems, List.mem_append, List.mem_flatMap] at hi
  rcases hi with hi | ⟨test, ht, hi⟩
  · exact ownItems_keys hi
  · obtain ⟨j, hj, rfl⟩ := List.mem_map.mp hi
    have hname := (validateName_iff _).mp (h.tests test ht).name
    exact eq_notMem_key eq_notMem_test (eq_notMem_key hname.2 (testItems_keys hj))

/-- The items of a suite give the suite, with its tests. -/
theorem suiteItems_read {seconds : Int → Decimal} {info : StatSuiteInfo}
    (h : ReportableSuite info) :
    ∃ suite, (suiteItems seconds info).foldlM (fun suite i => Suite.parseItem suite i.1 i.2)
      (Suite.new info.suite.name) = some suite ∧ SuiteAgrees info suite := by
  let embed (tests : AList fun _ : CString => Test) : Suite :=
    ⟨info.suite.name, tests, some (if info.result then 1 else 0),
      ⟨info.assertions, info.assertionsPassed⟩⟩
  have hstep : ∀ test ∈ info.tests, ∀ i ∈ testItems seconds test, ∀ m,
      Suite.parseItem (embed m) (inTestItem test i).1 (inTestItem test i).2 =
        (Dict.touch Test.new (fun t => Test.parseItem t i.1 i.2) test.test.name m).map embed :=
    fun test ht i _ m => (embed m).parseItem_test
      ((validateName_iff _).mp (h.tests test ht).name).1 i.1 i.2
  obtain ⟨tests, hrun, htests⟩ := Dict.foldlM_blocks embed (fun suite i => suite.parseItem i.1 i.2)
    (testItems seconds) inTestItem h.nodup (fun _ _ => List.cons_ne_nil _ _) hstep
    fun test ht => testItems_read (h.tests test ht)
  refine ⟨embed tests, ?_, rfl, rfl, ⟨rfl, rfl⟩, htests⟩
  rw [suiteItems, List.foldlM_append, Suite.new, ownItems_read h, Option.bind_eq_bind,
    Option.bind_some]
  exact hrun

theorem line_inClass (cls : CString) (i : Item) :
    line (inClass cls i) = (cls ++ '.' :: i.1) ++ '=' :: i.2 := rfl

theorem line_inSuiteItem (suite : StatSuiteInfo) (i : Item) :
    line (inSuiteItem suite i) = nested "suite".toList suite.suite.name i.1 ++ '=' :: i.2 := rfl

/-- The summary of a report, read. -/
theorem summary_read {stat : TestStatistics} (h : Reportable stat) :
    ((summaryItems stat).map (inClass "summary")).foldlM (fun res i => res.parseLine (line i))
        TinuResult.new =
      some ⟨⟨stat.passed, stat.failed, stat.sigsegv⟩, ∅, ∅⟩ := by
  let embed (summary : Summary) : TinuResult := ⟨summary, ∅, ∅⟩
  have hstep : ∀ m, ∀ i ∈ summaryItems stat, (embed m).parseLine (line (inClass "summary" i)) =
      (m.parseItem i.1 i.2).map embed := by
    intro m i hi
    rw [line_inClass]
    exact (embed m).parseLine_summary i.2 (summaryItems_keys hi)
  have hitems : (summaryItems stat).foldlM (fun s i => Summary.parseItem s i.1 i.2) ⟨0, 0, 0⟩ =
      some ⟨stat.passed, stat.failed, stat.sigsegv⟩ := by
    rw [summaryItems,
      Dict.foldlM_cons_of_some (Summary.parseItem_passed (pyInt_formatGuint h.passed)),
      Dict.foldlM_cons_of_some (Summary.parseItem_failed (pyInt_formatGuint h.failed)),
      Dict.foldlM_cons_of_some (Summary.parseItem_segfault (pyInt_formatGuint h.sigsegv))]
    rfl
  have hlift := @Dict.foldlM_lift Item TinuResult Summary embed
    (fun res i => res.parseLine (line (inClass "summary" i))) (fun s i => s.parseItem i.1 i.2) _
    hstep ⟨0, 0, 0⟩
  rw [hitems, Option.map_some] at hlift
  rw [List.foldlM_map]
  exact hlift

/-- The suites of a report, read. -/
theorem suites_read {seconds : Int → Decimal} {stat : TestStatistics} (h : Reportable stat)
    (summary : Summary) :
    ∃ suites, (stat.suites.flatMap fun s => (suiteItems seconds s).map (inSuiteItem s)).foldlM
        (fun res i => TinuResult.parseLine res (line i)) ⟨summary, ∅, ∅⟩ =
      some ⟨summary, ∅, suites⟩ ∧
        Dict.Represents (fun s : StatSuiteInfo => s.suite.name) SuiteAgrees stat.suites suites := by
  let embed (suites : AList fun _ : CString => Suite) : TinuResult := ⟨summary, ∅, suites⟩
  have hstep : ∀ s ∈ stat.suites, ∀ i ∈ suiteItems seconds s, ∀ m,
      (embed m).parseLine (line (inSuiteItem s i)) =
        (Dict.touch Suite.new (fun t => Suite.parseItem t i.1 i.2) s.suite.name m).map embed := by
    intro s hs i hi m
    rw [line_inSuiteItem]
    exact (embed m).parseLine_suite i.2 ((validateName_iff _).mp (h.suites s hs).name)
      (suiteItems_keys (h.suites s hs) i hi)
  have hne : ∀ s ∈ stat.suites, suiteItems seconds s ≠ [] := by
    intro s _
    rw [suiteItems, ownItems]
    exact List.cons_ne_nil _ _
  exact Dict.foldlM_blocks embed (fun res i => res.parseLine (line i)) (suiteItems seconds)
    inSuiteItem h.nodup hne hstep fun s hs => suiteItems_read (h.suites s hs)

/-- The message counts of a report, read. -/
theorem messages_read {stat : TestStatistics} (h : Reportable stat) (summary : Summary)
    (suites : AList fun _ : CString => Suite) :
    ∃ messages, (reportedPriorities.flatMap fun p =>
        [messageItem stat p].map (inClass "message")).foldlM
          (fun res i => TinuResult.parseLine res (line i)) ⟨summary, ∅, suites⟩ =
      some ⟨summary, messages, suites⟩ ∧
        Dict.Represents priorityName (fun p n => n = (stat.messages p : Int)) reportedPriorities
          messages := by
  let embed (messages : Reporting.Message) : TinuResult := ⟨summary, messages, suites⟩
  have hstep : ∀ p ∈ reportedPriorities, ∀ i ∈ [messageItem stat p], ∀ m,
      (embed m).parseLine (line (inClass "message" i)) =
        (Dict.touch (fun _ => (0 : Int)) (fun _ => pyInt i.2) (priorityName p) m).map embed := by
    intro p _ i hi m
    rw [List.mem_singleton] at hi
    subst hi
    rw [line_inClass]
    exact @TinuResult.parseLine_message (embed m) (messageItem stat p).1 (messageItem stat p).2
      (priorityName_keys p)
  have hval : ∀ p ∈ reportedPriorities, ∃ n : Int,
      [messageItem stat p].foldlM (fun _ i => pyInt i.2) 0 = some n ∧ n = stat.messages p := by
    intro p _
    refine ⟨stat.messages p, ?_, rfl⟩
    rw [List.foldlM_cons, messageItem, pyInt_formatGuint (h.messages p)]
    rfl
  exact Dict.foldlM_blocks embed (fun res i => TinuResult.parseLine res (line i))
    (fun p => [messageItem stat p]) (fun _ => inClass "message") priorityNames_nodup
    (fun _ _ => List.cons_ne_nil _ _) hstep hval

end

/-- **The reader gets back what the writer wrote**, whatever names the suites and the tests
have. -/
theorem report_reads_back (seconds : Int → Decimal) {stat : TestStatistics} (h : Reportable stat)
    (pre : CString) :
    ∃ file res, testReportPutFile seconds ⟨pre, []⟩ stat = some file ∧
      TinuResult.new.loadIterator file.records = some res ∧ ReportAgrees stat res := by
  obtain ⟨file, hput, hrecords⟩ := @testReportPutFile_records seconds stat
    (fun suite hs => (h.suites suite hs).writable) ⟨pre, []⟩
  obtain ⟨suites, hsuites, hsuitesAgree⟩ := @suites_read seconds stat h
    ⟨stat.passed, stat.failed, stat.sigsegv⟩
  obtain ⟨messages, hmessages, hmessagesAgree⟩ := messages_read h
    ⟨stat.passed, stat.failed, stat.sigsegv⟩ suites
  refine ⟨file, ⟨⟨stat.passed, stat.failed, stat.sigsegv⟩, messages, suites⟩, hput, ?_, rfl, ?_,
    hsuitesAgree⟩
  · rw [hrecords, List.nil_append, TinuResult.loadIterator, List.foldlM_map, reportItems,
      List.foldlM_append, List.foldlM_append, summary_read h, Option.bind_eq_bind,
      Option.bind_some, hsuites, Option.bind_some]
    exact hmessages
  · intro p hp
    obtain ⟨n, hn, rfl⟩ := hmessagesAgree.found p (mem_reportedPriorities p hp)
    exact ⟨priorityName p, msgFormatPriority_eq p, hn⟩

instance (suite : CString) (test : StatTestInfo) : Decidable (ReportableTest suite test) :=
  decidable_of_iff (testValidateName test.test.name = true ∧
      (testPrefix suite test.test.name).length < prgPrefixSize ∧ test.result ≠ .none ∧
        test.assertionsPassed < 2 ^ 31 ∧ test.assertions < 2 ^ 31)
    ⟨fun ⟨h₁, h₂, h₃, h₄, h₅⟩ => ⟨h₁, h₂, h₃, h₄, h₅⟩, fun h => ⟨h.1, h.2, h.3, h.4, h.5⟩⟩

instance (suite : StatSuiteInfo) : Decidable (ReportableSuite suite) :=
  decidable_of_iff (testValidateName suite.suite.name = true ∧
      (suitePrefix suite.suite.name).length < prgPrefixSize ∧ suite.assertionsPassed < 2 ^ 31 ∧
        suite.assertions < 2 ^ 31 ∧ (suite.tests.map fun t => t.test.name).Nodup ∧
          ∀ test ∈ suite.tests, ReportableTest suite.suite.name test)
    ⟨fun ⟨h₁, h₂, h₃, h₄, h₅, h₆⟩ => ⟨h₁, h₂, h₃, h₄, h₅, h₆⟩,
      fun h => ⟨h.1, h.2, h.3, h.4, h.5, h.6⟩⟩

instance (stat : TestStatistics) : Decidable (Reportable stat) :=
  decidable_of_iff (stat.passed < 2 ^ 31 ∧ stat.failed < 2 ^ 31 ∧ stat.sigsegv < 2 ^ 31 ∧
      (∀ priority, stat.messages priority < 2 ^ 31) ∧
        (stat.suites.map fun s => s.suite.name).Nodup ∧
          ∀ suite ∈ stat.suites, ReportableSuite suite)
    ⟨fun ⟨h₁, h₂, h₃, h₄, h₅, h₆⟩ => ⟨h₁, h₂, h₃, h₄, h₅, h₆⟩,
      fun h => ⟨h.1, h.2, h.3, h.4, h.5, h.6⟩⟩

/-- A test with the name `name`, of the suite `test`. -/
def oddTest (name : CString) (result : TestCaseResult) (asserts : Nat) : StatTestInfo :=
  ⟨⟨3, ⟨1, "test"⟩, name, none, none, some (.user 4), .data NULL, none⟩, result, 0, 5, asserts,
    asserts, 0⟩

/-- The names are those of keys and of classes, and the empty name. -/
def oddStatistics : TestStatistics :=
  ⟨none, none, fun priority => priority, 1, 1, 1,
    [⟨⟨1, "test", []⟩, false, 0, 15, 3, 3,
      [oddTest "asserts" .passed 2, oddTest "" .segfault 0, oddTest "result" .failed 1]⟩,
    ⟨⟨2, "", []⟩, true, 15, 15, 0, 0, []⟩]⟩

/-- 100 tics a second. -/
def hundredths (tics : Int) : Decimal :=
  ⟨tics < 0, tics.natAbs / 100, ⟨tics.natAbs % 100 * 10000, by omega⟩⟩

theorem report_reads_back_odd :
    ∃ file res, testReportPutFile hundredths ⟨"", []⟩ oddStatistics = some file ∧
      TinuResult.new.loadIterator file.records = some res ∧ ReportAgrees oddStatistics res :=
  report_reads_back hundredths (by decide) ""

example : ((testReportPutFile hundredths ⟨"", []⟩ oddStatistics).map fun file =>
    (file.records.drop 7).take 2) =
      some ["suite.test.test.asserts.result=passed".toList,
        "suite.test.test.asserts.asserts.passed=2".toList] := by decide +kernel

end Tinu
