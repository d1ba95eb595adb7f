import Tinu.Lib.Dict
import Tinu.MainRun

/-!
# Collected tests (`tinu_create_metafile` and `meta.c`)

`collect` reads the marker lines of one source file into a dictionary of its own; `generate` makes a
row of the table for each object collected, and `tinuUseMetainfo` registers the rows.  The order in
which a dictionary lists its values is a parameter.

* `collect_describes` — the objects of a file are the pairs that it marks;
* `useMetainfo_rows` — the table registers one operation for each object;
* `meta_ok_iff` — the tests registered are the pairs marked, with the functions marked, exactly
  when the last file that marks a pair has all the markers of that pair.
-/

set_option autoImplicit false

namespace Tinu

/-! ## Collecting (`tinu_create_metafile`) -/

/-- What `\s` matches. -/
def reSpace (c : Char) : Bool :=
  c = ' ' || c = '\t' || c = '\n' || c = '\r' || c = Char.ofNat 11 || c = Char.ofNat 12

/-- `pattern.sub('', line)`. -/
def patternSub (line : CString) : CString := line.filter fun c => ! reSpace c

/-- The kinds of markers, by the attribute that they set. -/
inductive MarkerKind where
  | function
  | setup
  | cleanup
  deriving DecidableEq, Repr

/-- `FUNC_PREFIX`, `SETUP_PREFIX` and `CLEANUP_PREFIX`. -/
def MarkerKind.opening : MarkerKind → CString
  | .function => "TEST_FUNCTION("
  | .setup => "TEST_SETUP("
  | .cleanup => "TEST_CLEANUP("

/-- The name of the attribute. -/
def MarkerKind.key : MarkerKind → CString
  | .function => "function"
  | .setup => "setup"
  | .cleanup => "cleanup"

/-- `class TestCaseInfo`. -/
structure TestCaseInfo where
  suite : CString
  test : CString
  function : Bool
  setup : Bool
  cleanup : Bool
  deriving DecidableEq, Repr

/-- `TestCaseInfo.__init__`. -/
def TestCaseInfo.init (suite test : CString) : TestCaseInfo := ⟨suite, test, false, false, false⟩

/-- `TestCaseInfo.has`. -/
def TestCaseInfo.has (self : TestCaseInfo) : MarkerKind → TestCaseInfo
  | .function => { self with function := true }
  | .setup => { self with setup := true }
  | .cleanup => { self with cleanup := true }

/-- `getattr(self, key)`. -/
def TestCaseInfo.getattr (self : TestCaseInfo) : MarkerKind → Bool
  | .function => self.function
  | .setup => self.setup
  | .cleanup => self.cleanup

/-- The inner dictionaries of `mapping`. -/
abbrev TestMap := AList fun _ : CString => TestCaseInfo

/-- `mapping` of `collect`. -/
abbrev Mapping := AList fun _ : CString => TestMap

/-- The order in which dictionaries list their values. -/
structure DictOrder where
  suites : Mapping → List TestMap
  tests : TestMap → List TestCaseInfo
  suites_perm : ∀ m, (suites m).Perm (m.entries.map Sigma.snd)
  tests_perm : ∀ m, (tests m).Perm (m.entries.map Sigma.snd)

/-- The arguments between the parentheses of a line that is a marker of the kind. -/
def markerArgs (kind : MarkerKind) (line : CString) : Option (List CString) :=
  if kind.opening <+: line ∧ line.getLast? = some ')' then
    some ((line.drop kind.opening.length).dropLast.splitOn ',')
  else none

/-- The three statements of `__process` on `mapping`. -/
def Mapping.mark (mapping : Mapping) (kind : MarkerKind) (suite case : CString) : Mapping :=
  let tests := (mapping.lookup suite).getD ∅
  let info := (tests.lookup case).getD (TestCaseInfo.init suite case)
  mapping.insert suite (tests.insert case (info.has kind))

/-- `__process`; `none` when there are not two arguments to unpack. -/
def process (line : CString) (mapping : Mapping) (kind : MarkerKind) : Option Mapping :=
  match markerArgs kind line with
  | none => some mapping
  | some [suite, case] => some (mapping.mark kind suite case)
  | some _ => none

/-- The body of the loop over the lines of a file. -/
def collectLine (mapping : Mapping) (line : CString) : Option Mapping :=
  [MarkerKind.function, .setup, .cleanup].foldlM (process (patternSub line)) mapping

/-- `MetainfoCollector.collect`: what is appended to `__tests`. -/
def collect (order : DictOrder) (infile : List CString) : Option (List TestCaseInfo) := do
  let mapping ← infile.foldlM collectLine ∅
  some ((order.suites mapping).flatMap order.tests)

/-- The loop over the arguments of the tool. -/
def collectAll (order : DictOrder) (files : List (List CString)) : Option (List TestCaseInfo) :=
  files.foldlM (fun tests file => (collect order file).map fun more => tests ++ more) []

/-! ## Generating -/

/-- An initializer in the generated table. -/
inductive CInit where
  | str (text : CString)
  | addr (symbol : CString)
  | null
  deriving DecidableEq, Repr

/-- The C function that a marker of the kind declares. -/
def testSymbol (kind : MarkerKind) (suite test : CString) : CString :=
  "test_" ++ kind.key ++ "_" ++ suite ++ "_" ++ test

/-- `__append_function`. -/
def TestCaseInfo.appendFunction (self : TestCaseInfo) (kind : MarkerKind) : CInit :=
  if self.getattr kind then .addr (testSymbol kind self.suite self.test) else .null

/-- `TestCaseInfo.generate_meta_entry`. -/
def TestCaseInfo.generateMetaEntry (self : TestCaseInfo) : List CInit :=
  [.str self.suite, .str self.test, self.appendFunction .setup, self.appendFunction .cleanup,
    self.appendFunction .function]

/-- The table of `MetainfoCollector.generate`. -/
def generate (tests : List TestCaseInfo) : List (List CInit) :=
  tests.map TestCaseInfo.generateMetaEntry ++ [[.null, .null, .null, .null, .null]]

/-! ## Registering (`meta.c`) -/

/-- `struct _TinuMetaInfo`. -/
structure TinuMetaInfo where
  suite : Option CString
  test : Option CString
  setup : Option FnPtr
  cleanup : Option FnPtr
  case : Option FnPtr
  deriving DecidableEq, Repr

/-- An initializer of a `const gchar *`. -/
def CInit.toString : CInit → Option CString
  | .str text => some text
  | _ => none

/-- An initializer of a function pointer; `link` is where the functions are. -/
def CInit.toFn (link : CString → FnPtr) : CInit → Option FnPtr
  | .addr symbol => some (link symbol)
  | _ => none

/-- A row of the table, as the compiler reads it. -/
def TinuMetaInfo.ofInits (link : CString → FnPtr) : List CInit → Option TinuMetaInfo
  | [suite, test, setup, cleanup, case] =>
    some ⟨suite.toString, test.toString, setup.toFn link, cleanup.toFn link, case.toFn link⟩
  | _ => none

/-- `tinu_use_metainfo`; there is no result when the table has no end, or a registration ends the
process. -/
def tinuUseMetainfo : List TinuMetaInfo → Option TestContext → Option (Option TestContext)
  | [], _ => none
  | row :: rows, context =>
    match row.suite with
    | none => some context
    | some suite => do
      let test ← row.test
      let context ←
        (tinuTestAdd context
          (.addExtended suite test row.setup row.cleanup row.case NULL none)).toOption
      tinuUseMetainfo rows context

/-- The whole way from the source files to the registered tests. -/
def useMetafile (order : DictOrder) (link : CString → FnPtr) (files : List (List CString)) :
    Option (Option TestContext) := do
  let tests ← collectAll order files
  let metainfo ← (generate tests).mapM (TinuMetaInfo.ofInits link)
  tinuUseMetainfo metainfo none

/-! ## What the tool is for -/

/-- The file marks the pair with the kind. -/
def marks (file : List CString) (kind : MarkerKind) (suite test : CString) : Bool :=
  file.any fun line => markerArgs kind (patternSub line) = some [suite, test]

/-- Some file does. -/
def marked (files : List (List CString)) (kind : MarkerKind) (suite test : CString) : Bool :=
  files.any fun file => marks file kind suite test

/-- No part of a C identifier has a character that the name check refuses, or that a string literal
does not take as it is. -/
def isCName (name : CString) : Bool :=
  name.all fun c => ! (c = '.' || c = '=' || c = Char.ofNat 34 || c = Char.ofNat 92)

/-- Every marker line has two arguments; the macros paste them into the names of functions. -/
def WellMarked (file : List CString) : Prop :=
  ∀ line ∈ file, ∀ kind args, markerArgs kind (patternSub line) = some args →
    ∃ suite test, args = [suite, test] ∧ isCName suite = true ∧ isCName test = true

instance (file : List CString) : Decidable (WellMarked file) :=
  decidable_of_iff (∀ line ∈ file, ∀ kind ∈ [MarkerKind.function, .setup, .cleanup],
      ∀ args ∈ (markerArgs kind (patternSub line)).toList,
        args = [args.headD [], args.getLastD []] ∧ isCName (args.headD []) = true ∧
          isCName (args.getLastD []) = true) <| by
    constructor
    · intro h line hline kind args hargs
      have hk : kind ∈ [MarkerKind.function, .setup, .cleanup] := by cases kind <;> decide
      exact ⟨_, _, h line hline kind hk args (Option.mem_toList.mpr hargs)⟩
    · intro h line hline kind _ args hargs
      obtain ⟨suite, test, rfl, hs, ht⟩ := h line hline kind args (Option.mem_toList.mp hargs)
      exact ⟨rfl, hs, ht⟩

/-- The phase that a marked function is for. -/
def MarkerKind.phase : MarkerKind → Phase
  | .function => .body
  | .setup => .setup
  | .cleanup => .cleanup

/-- The tests registered are the pairs marked, each with the functions marked for it. -/
def MetaOk (link : CString → FnPtr) (files : List (List CString)) (c : TestContext) : Prop :=
  ∀ suite test,
    ((c.findCase suite test).isSome ↔ ∃ kind, marked files kind suite test = true) ∧
      ∀ t, c.findCase suite test = some t → ∀ kind : MarkerKind, t.fn kind.phase =
        if marked files kind suite test then some (.user (link (testSymbol kind suite test)))
        else none

/-- The last file that marks a pair has all the markers of the pair. -/
def LastFileComplete (files : List (List CString)) : Prop :=
  ∀ before file after suite test, files = before ++ file :: after →
    (∃ kind, marks file kind suite test = true) →
    (∀ kind, marked after kind suite test = false) →
      ∀ kind, marked files kind suite test = true → marks file kind suite test = true

/-! ## The dictionary of one file -/

/-- The object of a pair. -/
def Mapping.info (m : Mapping) (suite test : CString) : Option TestCaseInfo :=
  (m.lookup suite).bind fun tests => tests.lookup test

/-- The dictionary has an object for each pair marked, with the kinds marked. -/
def Describes (marks : MarkerKind → CString → CString → Prop) (m : Mapping) : Prop :=
  ∀ suite test, match m.info suite test with
    | none => ∀ kind, ¬ marks kind suite test
    | some info => info.suite = suite ∧ info.test = test ∧ (∃ kind, marks kind suite test) ∧
        ∀ kind, info.getattr kind = true ↔ marks kind suite test

theorem describes_empty : Describes (fun _ _ _ => False) ∅ := fun _ _ _ => id

theorem Mapping.info_mark (m : Mapping) (kind : MarkerKind) (suite case : CString) :
    (m.mark kind suite case).info suite case =
      some (((m.info suite case).getD (TestCaseInfo.init suite case)).has kind) := by
  unfold Mapping.info Mapping.mark
  rw [AList.lookup_insert, Option.bind_some, AList.lookup_insert]
  cases m.lookup suite with
  | none => rfl
  | some tests => rfl

theorem Mapping.info_mark_ne (m : Mapping) (kind : MarkerKind) {suite case suite' case' : CString}
    (h : ¬ (suite' = suite ∧ case' = case)) :
    (m.mark kind suite case).info suite' case' = m.info suite' case' := by
  unfold Mapping.info Mapping.mark
  by_cases hs : suite' = suite
  · subst hs
    have hc : case' ≠ case := fun hc => h ⟨rfl, hc⟩
    rw [AList.lookup_insert, Option.bind_some, AList.lookup_insert_ne hc]
    cases m.lookup suite' with
    | none => rfl
    | some tests => rfl
  · rw [AList.lookup_insert_ne hs]

theorem TestCaseInfo.getattr_has (info : TestCaseInfo) (kind kind' : MarkerKind) :
    (info.has kind).getattr kind' = true ↔ info.getattr kind' = true ∨ kind' = kind := by
  cases kind <;> cases kind' <;> simp [TestCaseInfo.has, TestCaseInfo.getattr]

theorem TestCaseInfo.names_has (info : TestCaseInfo) (kind : MarkerKind) :
    (info.has kind).suite = info.suite ∧ (info.has kind).test = info.test := by
  cases kind <;> exact ⟨rfl, rfl⟩

theorem TestCaseInfo.getattr_init (suite test : CString) (kind : MarkerKind) :
    (TestCaseInfo.init suite test).getattr kind = false := by
  cases kind <;> rfl

/-- **One marker** is added to the object of its pair. -/
theorem Describes.mark {ms : MarkerKind → CString → CString → Prop} {m : Mapping}
    (h : Describes ms m) (kind : MarkerKind) (suite case : CString) :
    Describes (fun k s c => ms k s c ∨ (k = kind ∧ s = suite ∧ c = case))
      (m.mark kind suite case) := by
  intro s c
  have hold := h s c
  by_cases hsc : s = suite ∧ c = case
  · obtain ⟨rfl, rfl⟩ := hsc
    rw [Mapping.info_mark]
    cases hi : m.info s c with
    | none =>
      rw [hi] at hold
      refine ⟨?_, ?_, ⟨kind, Or.inr ⟨rfl, rfl, rfl⟩⟩, fun k => ?_⟩
      · exact (TestCaseInfo.names_has _ kind).1
      · exact (TestCaseInfo.names_has _ kind).2
      · rw [Option.getD_none, TestCaseInfo.getattr_has, TestCaseInfo.getattr_init]
        simp [hold k]
    | some info =>
      rw [hi] at hold
      obtain ⟨hs, hc, _, hk⟩ := hold
      refine ⟨?_, ?_, ⟨kind, Or.inr ⟨rfl, rfl, rfl⟩⟩, fun k => ?_⟩
      · exact (TestCaseInfo.names_has info kind).1.trans hs
      · exact (TestCaseInfo.names_has info kind).2.trans hc
      · rw [Option.getD_some, TestCaseInfo.getattr_has, hk k]
        simp
  · rw [Mapping.info_mark_ne m kind hsc]
    have hsame : ∀ k, (ms k s c ∨ (k = kind ∧ s = suite ∧ c = case)) ↔ ms k s c :=
      fun k => or_iff_left fun hk => hsc hk.2
    cases hi : m.info s c with
    | none =>
      rw [hi] at hold
      exact fun k hk => hold k ((hsame k).mp hk)
    | some info =>
      rw [hi] at hold
      obtain ⟨hs, hc, ⟨k0, hk0⟩, hk⟩ := hold
      exact ⟨hs, hc, ⟨k0, Or.inl hk0⟩, fun k => (hk k).trans (hsame k).symm⟩

theorem Describes.congr {ms ms' : MarkerKind → CString → CString → Prop} {m : Mapping}
    (h : Describes ms m) (hms : ∀ k s c, ms k s c ↔ ms' k s c) : Describes ms' m := by
  have : ms = ms' := funext fun k => funext fun s => funext fun c => propext (hms k s c)
  rwa [← this]

/-- A line is at most one marker. -/
theorem process_describes {ms : MarkerKind → CString → CString → Prop} {m : Mapping}
    (h : Describes ms m) (line : CString)
    (hline : ∀ kind args, markerArgs kind line = some args → ∃ suite test, args = [suite, test]) :
    ∀ kinds : List MarkerKind, ∃ m', kinds.foldlM (process line) m = some m' ∧
      Describes (fun k s c => ms k s c ∨ (k ∈ kinds ∧ markerArgs k line = some [s, c])) m' := by
  intro kinds
  induction kinds generalizing ms m with
  | nil => exact ⟨m, rfl, h.congr fun k s c => by simp⟩
  | cons kind kinds ih =>
    obtain ⟨m1, h1, hd1⟩ : ∃ m1, process line m kind = some m1 ∧ Describes
        (fun k s c => ms k s c ∨ (k = kind ∧ markerArgs k line = some [s, c])) m1 := by
      unfold process
      cases ha : markerArgs kind line with
      | none =>
        refine ⟨m, rfl, h.congr fun k s c => (or_iff_left ?_).symm⟩
        rintro ⟨rfl, hk⟩
        rw [ha] at hk
        cases hk
      | some args =>
        obtain ⟨suite, test, rfl⟩ := hline kind args ha
        refine ⟨_, rfl, (h.mark kind suite test).congr fun k s c => or_congr_right ?_⟩
        constructor
        · rintro ⟨rfl, rfl, rfl⟩
          exact ⟨rfl, ha⟩
        · rintro ⟨rfl, hk⟩
          rw [ha, Option.some.injEq, List.cons.injEq, List.cons.injEq] at hk
          exact ⟨rfl, hk.1.symm, hk.2.1.symm⟩
    obtain ⟨m2, h2, hd2⟩ := ih hd1
    refine ⟨m2, by rw [List.foldlM_cons, h1]; exact h2, hd2.congr fun k s c => ?_⟩
    rw [List.mem_cons, or_assoc, or_and_right]

theorem MarkerKind.mem_each (kind : MarkerKind) :
    kind ∈ [MarkerKind.function, .setup, .cleanup] := by
  cases kind <;> decide

/-- **The objects of a file are the pairs that it marks.** -/
theorem collect_describes {ms : MarkerKind → CString → CString → Prop} :
    ∀ (infile : List CString) {m : Mapping}, Describes ms m → WellMarked infile →
      ∃ m', infile.foldlM collectLine m = some m' ∧
        Describes (fun k s c => ms k s c ∨ marks infile k s c = true) m'
  | [], m, h, _ => ⟨m, rfl, h.congr fun k s c => by simp [marks]⟩
  | line :: infile, m, h, hw => by
    obtain ⟨m1, h1, hd1⟩ := process_describes h (patternSub line)
      (fun kind args ha => by
        obtain ⟨suite, test, hargs, _⟩ := hw line List.mem_cons_self kind args ha
        exact ⟨suite, test, hargs⟩) [MarkerKind.function, .setup, .cleanup]
    obtain ⟨m2, h2, hd2⟩ := collect_describes infile hd1 fun l hl =>
      hw l (List.mem_cons_of_mem line hl)
    refine ⟨m2, ?_, hd2.congr fun k s c => ?_⟩
    · rw [List.foldlM_cons, collectLine, h1]
      exact h2
    · rw [or_assoc]
      refine or_congr_right ?_
      simp [marks, k.mem_each]

/-! ## The rows of one file -/

/-- The object that a file has for a pair. -/
def fileInfo (file : List CString) (suite test : CString) : Option TestCaseInfo :=
  if marks file .function suite test || marks file .setup suite test ||
      marks file .cleanup suite test then
    some ⟨suite, test, marks file .function suite test, marks file .setup suite test,
      marks file .cleanup suite test⟩
  else none

/-- The row is of the pair. -/
def TestCaseInfo.isFor (suite test : CString) (info : TestCaseInfo) : Bool :=
  info.suite = suite ∧ info.test = test

theorem fileInfo_none {file : List CString} {suite test : CString} :
    fileInfo file suite test = none ↔ ∀ kind, marks file kind suite test = false := by
  rw [fileInfo, ite_eq_right_iff]
  constructor
  · intro h kind
    cases hk : marks file kind suite test with
    | false => rfl
    | true => cases kind <;> simp [hk] at h
  · intro h hor
    simp [h] at hor

/-- A file that has an object for the pair has a marker of it. -/
theorem exists_marks {file : List CString} {suite test : CString} :
    (∃ kind, marks file kind suite test = true) ↔ ∃ info, fileInfo file suite test = some info := by
  rw [← Option.ne_none_iff_exists', Ne, fileInfo_none, not_forall]
  exact exists_congr fun kind => (Bool.not_eq_false _).symm.to_iff

theorem fileInfo_some {file : List CString} {suite test : CString} {info : TestCaseInfo}
    (h : fileInfo file suite test = some info) :
    (info.suite = suite ∧ info.test = test) ∧
      ∀ kind, info.getattr kind = marks file kind suite test := by
  rw [fileInfo, Option.ite_none_right_eq_some] at h
  obtain ⟨_, h⟩ := h
  obtain rfl := Option.some.inj h
  refine ⟨⟨rfl, rfl⟩, fun kind => ?_⟩
  cases kind <;> rfl

/-- The dictionary of a file has the objects that the file has. -/
theorem Describes.info_eq {file : List CString} {m : Mapping}
    (h : Describes (fun k s c => marks file k s c = true) m) (suite test : CString) :
    m.info suite test = fileInfo file suite test := by
  have hd := h suite test
  cases hi : m.info suite test with
  | none =>
    rw [hi] at hd
    exact (fileInfo_none.mpr fun kind => Bool.eq_false_iff.mpr (hd kind)).symm
  | some info =>
    rw [hi] at hd
    obtain ⟨hs, ht, ⟨k0, hk0⟩, hk⟩ := hd
    have hattr : ∀ kind, info.getattr kind = marks file kind suite test := fun kind =>
      Bool.eq_iff_iff.mpr (hk kind)
    cases hf : fileInfo file suite test with
    | none =>
      rw [fileInfo_none.mp hf k0] at hk0
      cases hk0
    | some info' =>
      obtain ⟨⟨hs', ht'⟩, hattr'⟩ := fileInfo_some hf
      have h1 := (hattr .function).trans (hattr' .function).symm
      have h2 := (hattr .setup).trans (hattr' .setup).symm
      have h3 := (hattr .cleanup).trans (hattr' .cleanup).symm
      obtain ⟨s1, t1, f1, u1, c1⟩ := info
      obtain ⟨s2, t2, f2, u2, c2⟩ := info'
      rw [Option.some.injEq, TestCaseInfo.mk.injEq]
      exact ⟨hs.trans hs'.symm, ht.trans ht'.symm, h1, h2, h3⟩

/-- An object has the names that it is listed under. -/
theorem Describes.names {file : List CString} {m : Mapping}
    (h : Describes (fun k s c => marks file k s c = true) m) :
    ∀ e ∈ m.entries, ∀ e' ∈ e.2.entries, e'.2.suite = e.1 ∧ e'.2.test = e'.1 := by
  intro e he e' he'
  have hinfo : m.info e.1 e'.1 = some e'.2 := by
    have h1 : m.lookup e.1 = some e.2 := AList.mem_lookup_iff.mpr he
    have h2 : e.2.lookup e'.1 = some e'.2 := AList.mem_lookup_iff.mpr he'
    rw [Mapping.info, h1, Option.bind_some, h2]
  have hd := h e.1 e'.1
  rw [hinfo] at hd
  exact ⟨hd.1, hd.2.1⟩

/-- However the dictionaries list their values, they list all of them. -/
theorem DictOrder.perm (order : DictOrder) (m : Mapping) :
    ((order.suites m).flatMap order.tests).Perm
      (m.entries.flatMap fun e => e.2.entries.map Sigma.snd) := by
  have h1 := List.Perm.flatMap_left (order.suites m) fun d _ => order.tests_perm d
  have h2 := (order.suites_perm m).flatMap_right fun d : TestMap => d.entries.map Sigma.snd
  rw [List.flatMap_map] at h2
  exact h1.trans h2

/-- One suite has one object for a pair, or none. -/
theorem tests_filter {suite : CString} (d : TestMap) (test : CString)
    (hnames : ∀ e ∈ d.entries, e.2.suite = suite ∧ e.2.test = e.1) :
    (d.entries.map Sigma.snd).filter (TestCaseInfo.isFor suite test) =
      (d.lookup test).toList := by
  have hfor : ∀ e ∈ d.entries, [e.2].filter (TestCaseInfo.isFor suite test) =
      if e.1 = test then [e.2] else [] := by
    intro e he
    obtain ⟨hs, ht⟩ := hnames e he
    simp [List.filter_cons, TestCaseInfo.isFor, hs, ht]
  rw [List.map_eq_flatMap, List.filter_flatMap, Dict.entries_flatMap d test fun info =>
    [info].filter (TestCaseInfo.isFor suite test)]
  · cases hl : d.lookup test with
    | none => rfl
    | some info =>
      have he : ⟨test, info⟩ ∈ d.entries := AList.mem_lookup_iff.mp hl
      exact (hfor _ he).trans (if_pos rfl)
  · intro e he hne
    exact (hfor e he).trans (if_neg hne)

/-- There is one row for each object. -/
theorem rows_filter (order : DictOrder) {file : List CString} {m : Mapping}
    (h : Describes (fun k s c => marks file k s c = true) m) (suite test : CString) :
    ((order.suites m).flatMap order.tests).filter (TestCaseInfo.isFor suite test) =
      (fileInfo file suite test).toList := by
  have hcanon : (m.entries.flatMap fun e => e.2.entries.map Sigma.snd).filter
      (TestCaseInfo.isFor suite test) = (fileInfo file suite test).toList := by
    rw [← h.info_eq, List.filter_flatMap, Mapping.info]
    rw [Dict.entries_flatMap m suite fun d =>
      (d.entries.map Sigma.snd).filter (TestCaseInfo.isFor suite test)]
    · cases hl : m.lookup suite with
      | none => rfl
      | some d => exact tests_filter d test (h.names ⟨suite, d⟩ (AList.mem_lookup_iff.mp hl))
    · intro e he hne
      rw [List.filter_eq_nil_iff]
      intro info hinfo hfor
      obtain ⟨e', he', rfl⟩ := List.mem_map.mp hinfo
      simp only [TestCaseInfo.isFor, decide_eq_true_eq] at hfor
      exact hne ((h.names e he e' he').1.symm.trans hfor.1)
  have hfilter := (order.perm m).filter (TestCaseInfo.isFor suite test)
  rw [hcanon] at hfilter
  cases hf : fileInfo file suite test with
  | none =>
    rw [hf] at hfilter
    exact List.perm_nil.mp hfilter
  | some info =>
    rw [hf] at hfilter
    exact List.perm_singleton.mp hfilter

/-- **The rows of one file.** -/
theorem collect_rows (order : DictOrder) {file : List CString} (hw : WellMarked file) :
    ∃ rows, collect order file = some rows ∧
      (∀ suite test, rows.filter (TestCaseInfo.isFor suite test) =
        (fileInfo file suite test).toList) ∧
      ∀ info ∈ rows, isCName info.suite = true ∧ isCName info.test = true := by
  obtain ⟨m, hrun, hd⟩ := collect_describes file describes_empty hw
  have hd : Describes (fun k s c => marks file k s c = true) m :=
    hd.congr fun k s c => by simp
  have hfilter := rows_filter order hd
  refine ⟨_, by rw [collect, hrun]; rfl, hfilter, fun info hinfo => ?_⟩
  have hmem : info ∈ ((order.suites m).flatMap order.tests).filter
      (TestCaseInfo.isFor info.suite info.test) :=
    List.mem_filter.mpr ⟨hinfo, by simp [TestCaseInfo.isFor]⟩
  rw [hfilter, Option.mem_toList] at hmem
  -- the pair is marked by a line, and its arguments are names
  obtain ⟨kind, hkind⟩ := exists_marks.mpr ⟨info, hmem⟩
  obtain ⟨line, hline, hargs⟩ := List.any_eq_true.mp hkind
  obtain ⟨suite, test, heq, hs, ht⟩ := hw line hline kind _ (of_decide_eq_true hargs)
  rw [List.cons.injEq, List.cons.injEq] at heq
  rw [heq.1, heq.2.1]
  exact ⟨hs, ht⟩

/-- **The rows of all files**, in the order of the files. -/
theorem collectAll_rows (order : DictOrder) :
    ∀ {files : List (List CString)}, (∀ file ∈ files, WellMarked file) → ∀ init,
      ∃ rows, files.foldlM (fun tests file =>
          (collect order file).map fun more => tests ++ more) init = some (init ++ rows) ∧
        (∀ suite test, rows.filter (TestCaseInfo.isFor suite test) =
          files.filterMap fun file => fileInfo file suite test) ∧
        ∀ info ∈ rows, isCName info.suite = true ∧ isCName info.test = true
  | [], _, init => ⟨[], by rw [List.append_nil]; rfl, fun _ _ => rfl, fun _ h => nomatch h⟩
  | file :: files, hw, init => by
    obtain ⟨rows, hrows, hfilter, hnames⟩ := collect_rows order (hw file List.mem_cons_self)
    obtain ⟨more, hmore, hfilter', hnames'⟩ :=
      collectAll_rows order (fun f hf => hw f (List.mem_cons_of_mem file hf)) (init ++ rows)
    refine ⟨rows ++ more, ?_, fun suite test => ?_, fun info hinfo => ?_⟩
    · rw [List.foldlM_cons, hrows, ← List.append_assoc]
      exact hmore
    · rw [List.filter_append, hfilter, hfilter', List.filterMap_cons]
      cases fileInfo file suite test with
      | none => rfl
      | some info => rfl
    · rcases List.mem_append.mp hinfo with hinfo | hinfo
      · exact hnames info hinfo
      · exact hnames' info hinfo

/-! ## The registrations of the table -/

/-- The function pointer of a row. -/
def TestCaseInfo.fnPtr (link : CString → FnPtr) (info : TestCaseInfo) (kind : MarkerKind) :
    Option FnPtr :=
  if info.getattr kind then some (link (testSymbol kind info.suite info.test)) else none

/-- The registration of a row. -/
def TestCaseInfo.op (link : CString → FnPtr) (info : TestCaseInfo) : RegisterOp :=
  .addExtended info.suite info.test (info.fnPtr link .setup) (info.fnPtr link .cleanup)
    (info.fnPtr link .function) NULL none

theorem appendFunction_toFn (link : CString → FnPtr) (info : TestCaseInfo) (kind : MarkerKind) :
    (info.appendFunction kind).toFn link = info.fnPtr link kind := by
  unfold TestCaseInfo.appendFunction TestCaseInfo.fnPtr
  split <;> rfl

/-- The row of an object. -/
def TestCaseInfo.row (link : CString → FnPtr) (info : TestCaseInfo) : TinuMetaInfo :=
  ⟨some info.suite, some info.test, info.fnPtr link .setup, info.fnPtr link .cleanup,
    info.fnPtr link .function⟩

theorem generate_rows (link : CString → FnPtr) (tests : List TestCaseInfo) :
    (generate tests).mapM (TinuMetaInfo.ofInits link) =
      some (tests.map (TestCaseInfo.row link) ++ [⟨none, none, none, none, none⟩]) := by
  unfold generate
  induction tests with
  | nil => rfl
  | cons info tests ih =>
    have hrow : TinuMetaInfo.ofInits link info.generateMetaEntry = some (info.row link) := by
      simp [TestCaseInfo.generateMetaEntry, TinuMetaInfo.ofInits, appendFunction_toFn,
        CInit.toString, TestCaseInfo.row]
    rw [List.map_cons, List.cons_append, List.mapM_cons, hrow, ih]
    rfl

/-- **The table registers one test for each object**, up to one that ends the process. -/
theorem useMetainfo_rows (link : CString → FnPtr) (tests : List TestCaseInfo)
    (context : Option TestContext) :
    tinuUseMetainfo (tests.map (TestCaseInfo.row link) ++ [⟨none, none, none, none, none⟩])
        context =
      ((tests.map (TestCaseInfo.op link)).foldlM tinuTestAdd context).toOption := by
  induction tests generalizing context with
  | nil => rfl
  | cons info tests ih =>
    rw [List.map_cons, List.cons_append, List.map_cons, List.foldlM_cons]
    have hadd : tinuUseMetainfo (info.row link ::
        (tests.map (TestCaseInfo.row link) ++ [⟨none, none, none, none, none⟩])) context =
        (tinuTestAdd context (info.op link)).toOption.bind fun context =>
          tinuUseMetainfo (tests.map (TestCaseInfo.row link) ++ [⟨none, none, none, none, none⟩])
            context := rfl
    rw [hadd]
    cases tinuTestAdd context (info.op link) with
    | error e => rfl
    | ok context' => exact ih context'

/-- The registrations of a program build what they build in a context of its own. -/
theorem addAll_registerAll :
    ∀ (ops : List RegisterOp) {context context' : Option TestContext},
      ops.foldlM tinuTestAdd context = .ok context' →
        ops.foldlM TestContext.register (context.getD (testContextInit false false)) =
          .ok (context'.getD (testContextInit false false))
  | [], context, context', h => by
    obtain rfl : context = context' := Except.ok.inj h
    rfl
  | op :: ops, context, context', h => by
    rw [List.foldlM_cons] at h ⊢
    unfold tinuTestAdd at h
    cases hr : (context.getD (testContextInit false false)).register op with
    | error e =>
      rw [hr] at h
      cases h
    | ok c =>
      rw [hr] at h
      exact addAll_registerAll ops h

/-- Registrations under valid names do not end the process. -/
theorem register_total (c : TestContext) {op : RegisterOp}
    (hs : testValidateName op.registration.suite = true)
    (ht : testValidateName op.registration.test = true) : ∃ c', c.register op = .ok c' := by
  unfold TestContext.register testAddExtended
  simp only [hs, ht, not_true_eq_false, if_false]
  have hlook : ∃ s c', testSuiteLookup c op.registration.suite true = (some s, c') := by
    cases hf : c.find op.registration.suite with
    | none => exact ⟨_, _, testSuiteLookup_new_none hf⟩
    | some s => exact ⟨_, _, testSuiteLookup_new_some hf⟩
  obtain ⟨s, c', hlook⟩ := hlook
  rw [hlook]
  cases hl : testLookupCase s op.registration.test with
  | none => exact ⟨_, by simp only [hl]; rfl⟩
  | some t => exact ⟨_, by simp only [hl]; rfl⟩

theorem addAll_total :
    ∀ (ops : List RegisterOp) (context : Option TestContext),
      (∀ op ∈ ops, testValidateName op.registration.suite = true ∧
        testValidateName op.registration.test = true) →
      ∃ context', ops.foldlM tinuTestAdd context = .ok context'
  | [], context, _ => ⟨context, rfl⟩
  | op :: ops, context, hnames => by
    obtain ⟨hs, ht⟩ := hnames op List.mem_cons_self
    obtain ⟨c, hc⟩ := register_total (context.getD (testContextInit false false)) hs ht
    have hadd : tinuTestAdd context op = .ok (some c) := by
      unfold tinuTestAdd
      rw [hc]
      rfl
    obtain ⟨context', hrest⟩ :=
      addAll_total ops (some c) fun op' h => hnames op' (List.mem_cons_of_mem op h)
    refine ⟨context', ?_⟩
    rw [List.foldlM_cons, hadd]
    exact hrest

theorem validateName_of_isCName : ∀ {name : CString}, isCName name = true →
    testValidateName name = true
  | [], _ => rfl
  | c :: name, h => by
    rw [isCName, List.all_cons, Bool.and_eq_true] at h
    have hc : ¬ (c = '.' ∨ c = '=') := by
      rintro (rfl | rfl) <;> exact absurd h.1 (by decide)
    rw [testValidateName, if_neg hc]
    exact validateName_of_isCName h.2

/-! ## The tests registered -/

theorem marked_of_mem {files : List (List CString)} {file : List CString} (hf : file ∈ files)
    {kind : MarkerKind} {suite test : CString} (h : marks file kind suite test = true) :
    marked files kind suite test = true := List.any_eq_true.mpr ⟨file, hf, h⟩

theorem fileInfos_nil {files : List (List CString)} {suite test : CString} :
    files.filterMap (fun file => fileInfo file suite test) = [] ↔
      ∀ kind, marked files kind suite test = false := by
  rw [List.filterMap_eq_nil_iff]
  constructor
  · intro h kind
    rw [marked, List.any_eq_false]
    intro file hf
    rw [fileInfo_none.mp (h file hf) kind]
    decide
  · intro h file hf
    refine fileInfo_none.mpr fun kind => ?_
    exact Bool.eq_false_iff.mpr (List.any_eq_false.mp (h kind) file hf)

/-- What the last file that marks a pair has for it comes last. -/
theorem fileInfos_getLast? {before after : List (List CString)} {file : List CString}
    {suite test : CString} {info : TestCaseInfo} (hfile : fileInfo file suite test = some info)
    (hafter : ∀ kind, marked after kind suite test = false) :
    ((before ++ file :: after).filterMap fun file => fileInfo file suite test).getLast? =
      some info := by
  rw [List.filterMap_append, List.filterMap_cons, hfile, fileInfos_nil.mpr hafter]
  exact List.getLast?_concat

/-- There is such a file for every pair that is marked. -/
theorem last_file {files : List (List CString)} {suite test : CString} {info : TestCaseInfo}
    (h : (files.filterMap fun file => fileInfo file suite test).getLast? = some info) :
    ∃ before file after, files = before ++ file :: after ∧
      fileInfo file suite test = some info ∧ ∀ kind, marked after kind suite test = false := by
  rw [List.getLast?_filterMap, List.findSome?_eq_some_iff] at h
  obtain ⟨after, file, before, hfiles, hfile, hafter⟩ := h
  refine ⟨before.reverse, file, after.reverse, ?_, hfile, ?_⟩
  · have hrev := congrArg List.reverse hfiles
    simpa using hrev
  · rw [← fileInfos_nil, List.filterMap_eq_nil_iff]
    intro f hf
    exact hafter f (List.mem_reverse.mp hf)

/-- The registrations of a pair are those of its rows. -/
theorem registrationsFor_ops (link : CString → FnPtr) (tests : List TestCaseInfo)
    (suite test : CString) :
    registrationsFor (tests.map (TestCaseInfo.op link)) suite test =
      (tests.filter (TestCaseInfo.isFor suite test)).map
        fun info => (info.op link).registration := by
  rw [registrationsFor, opsFor, List.filter_map, List.map_map]
  rfl

/-- What a registered test has, when its pair was last registered for `info`. -/
theorem CaseOf.fn_eq {link : CString → FnPtr} {infos : List TestCaseInfo} {t : TestCase}
    (h : CaseOf (infos.map fun info => (info.op link).registration) (some t)) :
    ∃ info, infos.getLast? = some info ∧
      ∀ kind : MarkerKind, t.fn kind.phase = (info.fnPtr link kind).map .user := by
  obtain ⟨first, last, _, hlast, hsetup, hcleanup, htest, _⟩ := h
  rw [List.getLast?_map, Option.map_eq_some_iff] at hlast
  obtain ⟨info, hinfo, rfl⟩ := hlast
  refine ⟨info, hinfo, fun kind => ?_⟩
  cases kind with
  | function => exact htest
  | setup => exact hsetup
  | cleanup => exact hcleanup

/-- The test of each pair is what the rows of the pair make of it. -/
def FromRows (link : CString → FnPtr) (files : List (List CString)) (c : TestContext) : Prop :=
  ∀ suite test, CaseOf ((files.filterMap fun file => fileInfo file suite test).map
    fun info => (info.op link).registration) (c.findCase suite test)

theorem useMetafile_fromRows (order : DictOrder) (link : CString → FnPtr)
    {files : List (List CString)} (hw : ∀ file ∈ files, WellMarked file) :
    ∃ context, useMetafile order link files = some context ∧
      FromRows link files (context.getD (testContextInit false false)) := by
  obtain ⟨tests, hcollect, hfilter, hnames⟩ := collectAll_rows order hw []
  obtain ⟨context, hadd⟩ := addAll_total (tests.map (TestCaseInfo.op link)) none fun op hop => by
    obtain ⟨info, hinfo, rfl⟩ := List.mem_map.mp hop
    exact ⟨validateName_of_isCName (hnames info hinfo).1,
      validateName_of_isCName (hnames info hinfo).2⟩
  refine ⟨context, ?_, fun suite test => ?_⟩
  · have hall : collectAll order files = some tests := hcollect
    unfold useMetafile
    rw [hall, Option.bind_eq_bind, Option.bind_some, generate_rows, Option.bind_eq_bind,
      Option.bind_some, useMetainfo_rows, hadd]
    rfl
  · obtain ⟨_, _, hcase⟩ := registerAll_spec (addAll_registerAll _ hadd)
    rw [← hfilter, ← registrationsFor_ops]
    exact hcase suite test

variable {link : CString → FnPtr} {files : List (List CString)} {c : TestContext}

/-- The functions registered are those of the last file, and they are all there is. -/
theorem FromRows.complete (h : FromRows link files c) (hok : MetaOk link files c) :
    LastFileComplete files := by
  intro before file after suite test hfiles hfile hafter kind hkind
  obtain ⟨hsome, hfns⟩ := hok suite test
  obtain ⟨t, ht⟩ := Option.isSome_iff_exists.mp (hsome.mpr ⟨kind, hkind⟩)
  have hof := h suite test
  rw [ht] at hof
  obtain ⟨info, hinfo, hfn⟩ := hof.fn_eq
  obtain ⟨info', hinfo'⟩ := exists_marks.mp hfile
  rw [hfiles, fileInfos_getLast? hinfo' hafter] at hinfo
  obtain rfl := Option.some.inj hinfo
  have hptr := (hfn kind).symm.trans (hfns t ht kind)
  rw [if_pos hkind] at hptr
  rw [← (fileInfo_some hinfo').2 kind]
  by_contra hno
  rw [TestCaseInfo.fnPtr, if_neg hno] at hptr
  cases hptr

theorem FromRows.metaOk (h : FromRows link files c) (hlast : LastFileComplete files) :
    MetaOk link files c := by
  intro suite test
  have hof := h suite test
  cases hf : c.findCase suite test with
  | none =>
    rw [hf] at hof
    have hmarks := fileInfos_nil.mp (List.map_eq_nil_iff.mp hof)
    refine ⟨iff_of_false (by decide) ?_, fun t ht => nomatch ht⟩
    rintro ⟨kind, hkind⟩
    rw [hmarks kind] at hkind
    cases hkind
  | some t =>
    rw [hf] at hof
    obtain ⟨info, hinfo, hfn⟩ := hof.fn_eq
    obtain ⟨before, file, after, hfiles, hfile, hafter⟩ := last_file hinfo
    obtain ⟨⟨hs, ht⟩, hattr⟩ := fileInfo_some hfile
    have hmem : file ∈ files := by rw [hfiles]; simp
    have hmarks := exists_marks.mpr ⟨info, hfile⟩
    refine ⟨iff_of_true rfl ?_, ?_⟩
    · obtain ⟨kind, hkind⟩ := hmarks
      exact ⟨kind, marked_of_mem hmem hkind⟩
    · intro t' ht' kind
      obtain rfl := Option.some.inj ht'
      rw [hfn kind, TestCaseInfo.fnPtr, hattr kind, hs, ht]
      by_cases hk : marked files kind suite test = true
      · rw [if_pos hk, if_pos (hlast before file after suite test hfiles hmarks hafter kind hk)]
        rfl
      · rw [if_neg hk, if_neg fun h => hk (marked_of_mem hmem h)]
        rfl

/-- **The tests registered are the pairs marked, with the functions marked, exactly when the last
file that marks a pair has all the markers of that pair.** -/
theorem meta_ok_iff (order : DictOrder) (link : CString → FnPtr) {files : List (List CString)}
    (hw : ∀ file ∈ files, WellMarked file) :
    ∃ context, useMetafile order link files = some context ∧
      (MetaOk link files (context.getD (testContextInit false false)) ↔
        LastFileComplete files) := by
  obtain ⟨context, hrun, hrows⟩ := useMetafile_fromRows order link hw
  exact ⟨context, hrun, hrows.complete, hrows.metaOk⟩

/-- Dictionaries list their values in the order of their entries. -/
def DictOrder.entries : DictOrder :=
  ⟨fun m => m.entries.map Sigma.snd, fun m => m.entries.map Sigma.snd, fun _ => .refl _,
    fun _ => .refl _⟩

/-- One file with a test and its setup, and another one with a second test. -/
def completeFiles : List (List CString) :=
  [["TEST_SETUP(s, t)", "static int x;", "  TEST_FUNCTION(s,\tt)"], ["TEST_FUNCTION(s, u)"]]

theorem meta_ok_iff_complete :
    ∃ context, useMetafile .entries (fun _ => 1) completeFiles = some context ∧
      (MetaOk (fun _ => 1) completeFiles (context.getD (testContextInit false false)) ↔
        LastFileComplete completeFiles) :=
  meta_ok_iff .entries (fun _ => 1) (by decide)

/-- The setup of a test is marked in a later file than its body. -/
def splitFiles : List (List CString) := [["TEST_FUNCTION(s, t)"], ["TEST_SETUP(s, t)"]]

/-- The later row leaves the test without a body. -/
theorem later_row_erases :
    ¬ ∀ (order : DictOrder) (link : CString → FnPtr) (files : List (List CString)),
      (∀ file ∈ files, WellMarked file) → ∃ context, useMetafile order link files = some context ∧
        MetaOk link files (context.getD (testContextInit false false)) := by
  intro h
  obtain ⟨context, hrun, hok⟩ := h .entries (fun _ => 1) splitFiles (by decide)
  have hbody : (useMetafile .entries (fun _ => 1) splitFiles).map (fun c =>
      ((c.getD (testContextInit false false)).findCase "s" "t").map TestCase.test) =
        some (some none) := by decide
  rw [hrun, Option.map_some, Option.some.injEq, Option.map_eq_some_iff] at hbody
  obtain ⟨t, ht, hnone⟩ := hbody
  have hfn := (hok "s" "t").2 t ht .function
  rw [if_pos (by decide)] at hfn
  have hfn : t.test = some (.user 1) := hfn
  rw [hnone] at hfn
  cases hfn

end Tinu
