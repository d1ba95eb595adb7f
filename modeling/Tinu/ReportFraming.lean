import Tinu.Lib.Lines
import Tinu.ReportRoundTrip

/-!
# The records of a report as lines of a file

The writer ends each record with a newline; `load_file` splits the file at newlines, and takes the
end of each line off.  Names keep everything that `_test_validate_name` lets through.

* `loadFile_records_iff` — records whose values are plain come back exactly when none of them has
  a newline;
* `writable_of_put` — the writer gets through only if every prefix fits into its buffer;
* `framing_iff` — for the records of a report, in terms of the names.
-/

set_option autoImplicit false

namespace Tinu

open Reporting

/-- What is in the file. -/
def ReportFile.text (file : ReportFile) : CString := Lines.terminated '\n' file.records

/-- One round of the loop of `__load_iterator`. -/
def stripLineEnd (line : CString) : CString :=
  if line.drop (line.length - 2) = ['\r', '\n'] then line.dropLast.dropLast
  else if line.getLast? = some '\n' then line.dropLast
  else line

/-- `TinuResult.load_file`, up to `__parse`. -/
def loadFile (text : CString) : List CString := (Lines.split '\n' text).map stripLineEnd

/-! ## One line -/

theorem stripLineEnd_newline {r : CString} (h : r.getLast? ≠ some '\r') :
    stripLineEnd (r ++ ['\n']) = r := by
  have hcr : (r ++ ['\n']).drop ((r ++ ['\n']).length - 2) ≠ ['\r', '\n'] := by
    cases r using List.reverseRecOn with
    | nil => decide
    | append_singleton s c =>
      have hlen : (s ++ [c] ++ ['\n']).length - 2 = s.length := by simp
      rw [hlen, List.append_assoc, List.drop_left]
      intro heq
      rw [List.getLast?_concat] at h
      exact h (congrArg some (List.cons.inj heq).1)
  rw [stripLineEnd, if_neg hcr, if_pos List.getLast?_concat, List.dropLast_concat]

/-- Records that do not end in a carriage return come back exactly when none has a newline. -/
theorem loadFile_records_iff {records : List CString}
    (hend : ∀ r ∈ records, r.getLast? ≠ some '\r') :
    loadFile (Lines.terminated '\n' records) = records ↔ ∀ r ∈ records, '\n' ∉ r := by
  constructor
  · intro h
    rw [← Lines.length_split_terminated_iff, ← @List.length_map _ _ _ stripLineEnd]
    exact congrArg List.length h
  · intro h
    rw [loadFile, Lines.split_terminated h, List.map_map]
    refine (List.map_congr_left fun r hr => ?_).trans (List.map_id records)
    exact stripLineEnd_newline (hend r hr)

/-! ## Values -/

/-- Text without an end of line. -/
structure PlainText (s : CString) : Prop where
  ne_nil : s ≠ []
  newline : '\n' ∉ s
  carriage : '\r' ∉ s

instance (s : CString) : Decidable (PlainText s) :=
  decidable_of_iff (s ≠ [] ∧ '\n' ∉ s ∧ '\r' ∉ s)
    ⟨fun h => ⟨h.1, h.2.1, h.2.2⟩, fun h => ⟨h.1, h.2, h.3⟩⟩

theorem plainText_of_forall {s : CString} (hne : s ≠ [])
    (h : ∀ c ∈ s, c.isDigit = true ∨ c = '-' ∨ c = '.') : PlainText s := by
  refine ⟨hne, fun hmem => ?_, fun hmem => ?_⟩
  · exact absurd (h _ hmem) (by decide)
  · exact absurd (h _ hmem) (by decide)

theorem plainText_formatD (n : Int) : PlainText (formatD n) := by
  have hdigit : ∀ c ∈ Nat.toDigits 10 n.natAbs, c.isDigit = true ∨ c = '-' ∨ c = '.' :=
    fun c hc => Or.inl (isDigit_toDigits c hc)
  unfold formatD Printf.decimal
  split
  · refine plainText_of_forall (List.cons_ne_nil _ _) fun c hc => ?_
    rcases List.mem_cons.mp hc with rfl | hc
    · exact Or.inr (Or.inl rfl)
    · exact hdigit c hc
  · exact plainText_of_forall Nat.toDigits_ne_nil hdigit

theorem plainText_formatGuint (x : Nat) : PlainText (formatGuint x) := plainText_formatD _

theorem plainText_formatLf (d : Decimal) : PlainText (formatLf d) := by
  refine plainText_of_forall ?_ fun c hc => ?_
  · rw [formatLf]
    exact List.append_ne_nil_of_right_ne_nil _
      (List.append_ne_nil_of_left_ne_nil Nat.toDigits_ne_nil _)
  · rw [formatLf, List.mem_append, List.mem_append, List.mem_cons] at hc
    rcases hc with hc | hc | rfl | hc
    · cases hneg : d.negative with
      | false => rw [hneg] at hc; exact absurd hc List.not_mem_nil
      | true => rw [hneg] at hc; exact Or.inr (Or.inl (List.mem_singleton.mp hc))
    · exact Or.inl (isDigit_toDigits c hc)
    · exact Or.inr (Or.inr rfl)
    · exact Or.inl (isDigit_micros d c hc)

theorem plainText_result : ∀ {result : TestCaseResult}, result ≠ .none →
    PlainText ((testResultName result).getD []) := by
  intro result h
  cases result with
  | none => exact absurd rfl h
  | passed | failed | abort | segfault | internal => decide

/-! ## Items -/

/-- The record of an item with a plain value does not end in a carriage return, and has a newline
exactly when its key has one. -/
theorem line_getLast? {i : Item} (h : PlainText i.2) : (line i).getLast? ≠ some '\r' := by
  rw [line, List.getLast?_append_of_ne_nil _ (List.cons_ne_nil _ _)]
  intro hlast
  obtain ⟨c, s, hs⟩ := List.exists_cons_of_ne_nil h.ne_nil
  rw [hs, List.getLast?_cons_cons, ← hs] at hlast
  exact h.carriage (List.mem_of_getLast? hlast)

theorem newline_mem_line {i : Item} (h : PlainText i.2) : '\n' ∈ line i ↔ '\n' ∈ i.1 := by
  rw [line, List.mem_append, List.mem_cons]
  refine or_iff_left ?_
  rintro (heq | hmem)
  · exact absurd heq (by decide)
  · exact h.newline hmem

theorem newline_mem_nested {cls name key : CString} (hcls : '\n' ∉ cls) :
    '\n' ∈ nested cls name key ↔ '\n' ∈ name ∨ '\n' ∈ key := by
  have hdot : '\n' ≠ '.' := by decide
  simp [nested, hcls, hdot]

theorem newline_notMem_blockKeys : ∀ key ∈ blockKeys, '\n' ∉ key := by decide

/-- A key of a block is not the name of anything. -/
theorem newline_notMem_test {seconds : Int → Decimal} {test : StatTestInfo} {i : Item}
    (h : i ∈ testItems seconds test) : '\n' ∉ i.1 :=
  newline_notMem_blockKeys i.1 (List.mem_map_of_mem (f := Prod.fst) h)

theorem newline_notMem_own {seconds : Int → Decimal} {suite : StatSuiteInfo} {i : Item}
    (h : i ∈ ownItems seconds suite) : '\n' ∉ i.1 :=
  newline_notMem_blockKeys i.1 (List.mem_map_of_mem (f := Prod.fst) h)

theorem plainText_test {seconds : Int → Decimal} {test : StatTestInfo}
    (hres : test.result ≠ .none) : ∀ i ∈ testItems seconds test, PlainText i.2 := by
  intro i hi
  simp only [testItems, List.mem_cons, List.not_mem_nil, or_false] at hi
  rcases hi with rfl | rfl | rfl | rfl <;> dsimp only
  · exact plainText_result hres
  · exact plainText_formatGuint _
  · exact plainText_formatGuint _
  · exact plainText_formatLf _

theorem plainText_own {seconds : Int → Decimal} {suite : StatSuiteInfo} :
    ∀ i ∈ ownItems seconds suite, PlainText i.2 := by
  intro i hi
  simp only [ownItems, List.mem_cons, List.not_mem_nil, or_false] at hi
  rcases hi with rfl | rfl | rfl | rfl <;> dsimp only
  · exact plainText_formatD _
  · exact plainText_formatGuint _
  · exact plainText_formatGuint _
  · exact plainText_formatLf _

/-- **The items of a report, case by case**: of the summary, of a suite, of a test, of a
priority. -/
theorem reportItems_forall {seconds : Int → Decimal} {stat : TestStatistics} {good : Item → Prop}
    (hsummary : ∀ i ∈ summaryItems stat, good (inClass "summary" i))
    (hsuite : ∀ suite ∈ stat.suites, ∀ i ∈ ownItems seconds suite, good (inSuiteItem suite i))
    (htest : ∀ suite ∈ stat.suites, ∀ test ∈ suite.tests, ∀ i ∈ testItems seconds test,
      good (inSuiteItem suite (inTestItem test i)))
    (hmessage : ∀ p, good (inClass "message" (messageItem stat p))) :
    ∀ i ∈ reportItems seconds stat, good i := by
  intro i hi
  rw [reportItems, List.mem_append, List.mem_append] at hi
  rcases hi with (hi | hi) | hi
  · obtain ⟨j, hj, rfl⟩ := List.mem_map.mp hi
    exact hsummary j hj
  · obtain ⟨suite, hs, hi⟩ := List.mem_flatMap.mp hi
    obtain ⟨j, hj, rfl⟩ := List.mem_map.mp hi
    rw [suiteItems, List.mem_append, List.mem_flatMap] at hj
    rcases hj with hj | ⟨test, ht, hj⟩
    · exact hsuite suite hs j hj
    · obtain ⟨k, hk, rfl⟩ := List.mem_map.mp hj
      exact htest suite hs test ht k hk
  · obtain ⟨p, _, hi⟩ := List.mem_flatMap.mp hi
    obtain ⟨j, hj, rfl⟩ := List.mem_map.mp hi
    rw [List.mem_singleton.mp hj]
    exact hmessage p

/-- Every value of a report is plain. -/
theorem plainText_report {seconds : Int → Decimal} {stat : TestStatistics}
    (hres : ∀ suite ∈ stat.suites, ∀ test ∈ suite.tests, test.result ≠ .none) :
    ∀ i ∈ reportItems seconds stat, PlainText i.2 := by
  refine reportItems_forall (fun i hi => ?_) (fun suite _ i hi => plainText_own i hi)
    (fun suite hs test ht i hi => plainText_test (hres suite hs test ht) i hi) fun p => ?_
  · simp only [summaryItems, List.mem_cons, List.not_mem_nil, or_false] at hi
    rcases hi with rfl | rfl | rfl <;> dsimp only [inClass] <;> exact plainText_formatGuint _
  · dsimp only [inClass, messageItem]
    exact plainText_formatGuint _

/-- No name in the statistics has a newline. -/
def OneLineNames (stat : TestStatistics) : Prop :=
  ∀ suite ∈ stat.suites, '\n' ∉ suite.suite.name ∧ ∀ test ∈ suite.tests, '\n' ∉ test.test.name

theorem newline_notMem_words : '\n' ∉ "suite".toList ∧ '\n' ∉ "test".toList ∧
    '\n' ∉ "summary".toList ∧ '\n' ∉ "message".toList := by decide

theorem newline_notMem_summary : ∀ key ∈ (["passed", "failed", "segfault"] : List CString),
    '\n' ∉ key := by decide

theorem newline_notMem_priority : ∀ priority, '\n' ∉ priorityName priority := by decide

theorem newline_notMem_inClass {cls : CString} {i : Item} (hcls : '\n' ∉ cls) (hi : '\n' ∉ i.1) :
    '\n' ∉ (inClass cls i).1 := by
  rw [inClass, List.mem_append, List.mem_cons, not_or, not_or]
  exact ⟨hcls, by decide, hi⟩

/-- **The keys of a report have a newline exactly when a name has one.** -/
theorem keys_oneLine_iff {seconds : Int → Decimal} {stat : TestStatistics} :
    (∀ i ∈ reportItems seconds stat, '\n' ∉ i.1) ↔ OneLineNames stat := by
  obtain ⟨hsuite, htest, hsummary, hmessage⟩ := newline_notMem_words
  constructor
  · intro h suite hs
    have hsub : ∀ j ∈ suiteItems seconds suite, '\n' ∉ nested "suite" suite.suite.name j.1 := by
      intro j hj
      refine h (inSuiteItem suite j) ?_
      rw [reportItems, List.mem_append, List.mem_append]
      exact Or.inl (Or.inr (List.mem_flatMap.mpr ⟨suite, hs, List.mem_map_of_mem hj⟩))
    refine ⟨fun hname => ?_, fun test ht hname => ?_⟩
    · refine hsub _ (List.mem_append_left _ List.mem_cons_self) ?_
      exact (newline_mem_nested hsuite).mpr (Or.inl hname)
    · have hitem : ("result".toList, (testResultName test.result).getD []) ∈
          testItems seconds test := List.mem_cons_self
      refine hsub _ (List.mem_append_right _
        (List.mem_flatMap.mpr ⟨test, ht, List.mem_map_of_mem hitem⟩)) ?_
      exact (newline_mem_nested hsuite).mpr
        (Or.inr ((newline_mem_nested htest).mpr (Or.inl hname)))
  · intro h
    refine reportItems_forall (fun i hi => ?_) (fun suite hs i hi => ?_)
      (fun suite hs test ht i hi => ?_) fun p => ?_
    · exact newline_notMem_inClass hsummary
        (newline_notMem_summary i.1 (List.mem_map_of_mem (f := Prod.fst) hi))
    · rw [inSuiteItem, newline_mem_nested hsuite, not_or]
      exact ⟨(h suite hs).1, newline_notMem_own hi⟩
    · obtain ⟨hname, htests⟩ := h suite hs
      rw [inSuiteItem, newline_mem_nested hsuite, not_or, inTestItem, newline_mem_nested htest,
        not_or]
      exact ⟨hname, htests test ht, newline_notMem_test hi⟩
    · exact newline_notMem_inClass hmessage (newline_notMem_priority p)

/-! ## The prefix buffer -/

/-- Every prefix of the report fits into its buffer, with the byte that ends it. -/
def PrefixesFit (stat : TestStatistics) : Prop :=
  ∀ suite ∈ stat.suites, (suitePrefix suite.suite.name).length < prgPrefixSize ∧
    ∀ test ∈ suite.tests, (testPrefix suite.suite.name test.test.name).length < prgPrefixSize

theorem foldlM_some_mem {α σ : Type} {step : σ → α → Option σ} :
    ∀ {xs : List α} {s s' : σ}, xs.foldlM step s = some s' →
      ∀ x ∈ xs, ∃ a b, step a x = some b
  | y :: xs, s, s', h, x, hx => by
    rw [List.foldlM_cons, Option.bind_eq_bind, Option.bind_eq_some_iff] at h
    obtain ⟨s1, h1, h⟩ := h
    rcases List.mem_cons.mp hx with rfl | hx
    · exact ⟨s, s1, h1⟩
    · exact foldlM_some_mem h x hx

theorem fits_of_set {file file' : ReportFile} {text : CString}
    (h : prgReportSet file text = some file') : text.length < prgPrefixSize := by
  rw [prgReportSet, Option.ite_none_right_eq_some] at h
  exact h.1

/-- **The writer gets through only if every prefix fits.** -/
theorem prefixesFit_of_put {seconds : Int → Decimal} {file file' : ReportFile}
    {stat : TestStatistics} (h : testReportPutFile seconds file stat = some file') :
    PrefixesFit stat := by
  simp only [testReportPutFile, Option.bind_eq_bind, Option.bind_eq_some_iff] at h
  obtain ⟨_, _, _, hsuites, _⟩ := h
  intro suite hs
  obtain ⟨a, b, hput⟩ := foldlM_some_mem hsuites suite hs
  simp only [putSuite, Option.bind_eq_bind, Option.bind_eq_some_iff] at hput
  obtain ⟨_, hset, htests⟩ := hput
  refine ⟨fits_of_set hset, fun test ht => ?_⟩
  obtain ⟨a', b', hputTest⟩ := foldlM_some_mem htests test ht
  simp only [putTest, Option.bind_eq_bind, Option.bind_eq_some_iff] at hputTest
  obtain ⟨_, hset', _⟩ := hputTest
  exact fits_of_set hset'

/-! ## Framing -/

/-- The writer gets through without leaving its buffer, and the file splits into the records that
it wrote: as many lines, each equal to its record. -/
def FramingOk (seconds : Int → Decimal) (pre : CString) (stat : TestStatistics) : Prop :=
  ∃ file, testReportPutFile seconds ⟨pre, []⟩ stat = some file ∧
    loadFile file.text = file.records

/-- **The records of a report are framed exactly when every prefix fits into its buffer and no
name has a newline.** -/
theorem framing_iff (seconds : Int → Decimal) (pre : CString) {stat : TestStatistics}
    (hres : ∀ suite ∈ stat.suites, ∀ test ∈ suite.tests, test.result ≠ .none) :
    FramingOk seconds pre stat ↔ PrefixesFit stat ∧ OneLineNames stat := by
  have hplain := @plainText_report seconds stat hres
  have hlines : ∀ {file : ReportFile}, file.records = (reportItems seconds stat).map line →
      (loadFile file.text = file.records ↔ OneLineNames stat) := by
    intro file hrecords
    have hend : ∀ r ∈ file.records, r.getLast? ≠ some '\r' := by
      intro r hr
      rw [hrecords] at hr
      obtain ⟨i, hi, rfl⟩ := List.mem_map.mp hr
      exact line_getLast? (hplain i hi)
    rw [ReportFile.text, loadFile_records_iff hend, hrecords, ← @keys_oneLine_iff seconds,
      List.forall_mem_map]
    exact forall₂_congr fun i hi => not_congr (newline_mem_line (hplain i hi))
  constructor
  · rintro ⟨file, hput, hload⟩
    have hfit := prefixesFit_of_put hput
    have hwritable : ∀ suite ∈ stat.suites, WritableSuite suite := fun suite hs =>
      ⟨(hfit suite hs).1, (hfit suite hs).2, hres suite hs⟩
    obtain ⟨file', hput', hrecords⟩ :=
      @testReportPutFile_records seconds stat hwritable ⟨pre, []⟩
    obtain rfl : file = file' := Option.some.inj (hput.symm.trans hput')
    exact ⟨hfit, (hlines hrecords).mp hload⟩
  · rintro ⟨hfit, hnames⟩
    obtain ⟨file, hput, hrecords⟩ := @testReportPutFile_records seconds stat
      (fun suite hs => ⟨(hfit suite hs).1, (hfit suite hs).2, hres suite hs⟩) ⟨pre, []⟩
    exact ⟨file, hput, (hlines hrecords).mpr hnames⟩

theorem framing_iff_odd :
    FramingOk hundredths "" oddStatistics ↔ PrefixesFit oddStatistics ∧ OneLineNames oddStatistics :=
  framing_iff hundredths "" (by decide)

/-- A suite whose name has two lines. -/
def twoLineStatistics : TestStatistics :=
  ⟨none, none, fun _ => 0, 0, 0, 0, [⟨⟨1, "a\nb", []⟩, true, 0, 0, 0, 0, []⟩]⟩

/-- A name with a newline cuts its records in two. -/
theorem newline_cuts_records :
    ¬ ∀ (seconds : Int → Decimal) (pre : CString) (stat : TestStatistics),
      (∀ suite ∈ stat.suites, testValidateName suite.suite.name = true ∧
        ∀ test ∈ suite.tests, testValidateName test.test.name = true ∧ test.result ≠ .none) →
      FramingOk seconds pre stat := by
  intro h
  obtain ⟨file, hput, hload⟩ := h hundredths "" twoLineStatistics (by decide)
  have hcut : (testReportPutFile hundredths ⟨"", []⟩ twoLineStatistics).map (fun file =>
      ((loadFile file.text).length, file.records.length)) = some (17, 13) := by decide +kernel
  rw [hput, Option.map_some, hload, Option.some.injEq, Prod.mk.injEq] at hcut
  have hlength := hcut.1.symm.trans hcut.2
  revert hlength
  decide

end Tinu
