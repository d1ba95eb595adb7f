import Tinu.Lib.CLexer
import Tinu.Metainfo

/-!
# The generated file (`tinu_create_metafile` and `meta.h`)

`generateText` is the text that the tool writes.  It is read back as C: `readC` takes the text into
prototypes, the table and the main function, `checkC` looks at the types, and `runMain` is what the
main function registers.

* `lexes_generateText` — the tokens of the text;
* `readItems_tokens` — tokens are read back as the declarations that they are of;
* `checkC_metafile` — the declarations have the types that they need;
* `metafile_reads_back` — the text is what was meant exactly when the names are words;
* `metafile_main` — the program made of the text registers what the table does.
-/

set_option autoImplicit false

namespace Tinu

open CLexer

/-! ## The text -/

/-- `"// BEGIN info for %s:%s"` and `"// END info for %s:%s"`. -/
def TestCaseInfo.infoLine (self : TestCaseInfo) (mark : CString) : CString :=
  '/' :: '/' :: ((mark ++ (self.suite ++ ':' :: self.test)) ++ ['\n'])

/-- What the function of a marker returns. -/
def MarkerKind.result : MarkerKind → CString
  | .function => "void"
  | .setup => "gpointer"
  | .cleanup => "void"

/-- The end of its prototype. -/
def MarkerKind.arguments : MarkerKind → CString
  | .function => "TestCase *, gpointer);\n"
  | .setup => "TestCase *);\n"
  | .cleanup => "TestCase *, gpointer);\n"

/-- A prototype of `generate_declaration`; `is not None` holds of a flag that is not set. -/
def TestCaseInfo.prototypeText (self : TestCaseInfo) (kind : MarkerKind) : CString :=
  kind.result ++ ' ' :: (testSymbol kind self.suite self.test ++ '(' :: kind.arguments)

def beginMark : CString := " BEGIN info for "

def endMark : CString := " END info for "

/-- `TestCaseInfo.generate_declaration`. -/
def TestCaseInfo.generateDeclaration (self : TestCaseInfo) : CString :=
  self.infoLine beginMark ++
    ([MarkerKind.function, .setup, .cleanup].flatMap self.prototypeText ++ self.infoLine endMark)

/-- An entity of `generate_meta_entry`. -/
def CInit.text : CInit → CString
  | .str text => Char.ofNat 34 :: (text ++ [Char.ofNat 34])
  | .addr symbol => '&' :: symbol
  | .null => "NULL"

def rowOpening : CString := "  \x7b "

def rowClosing : CString := "\x7d,\n"

/-- `"  { %s },"`. -/
def rowText (entities : List CInit) : CString :=
  rowOpening ++ (List.intercalate [',', ' '] (entities.map CInit.text) ++ ' ' :: rowClosing)

def fileOpening : CString :=
  "/** THIS IS A GENERATED FILE, DO NOT MODIFY DIRECTLY! */\n\n#include <tinu.h>\n\n"

def tableOpening : CString := "const TinuMetaInfo __tinu_generated_meta_info[] = \x7b\n"

def tableClosing : CString := "\x7d;\n"

def mainText : CString := "\nDEFINE_MAIN_FUNCTION(__tinu_generated_meta_info)\n"

/-- `MetainfoCollector.generate`: what it writes. -/
def generateText (tests : List TestCaseInfo) (enableMain : Bool) : CString :=
  fileOpening ++ (tests.flatMap (fun test => test.generateDeclaration ++ ['\n']) ++
    (tableOpening ++ ((generate tests).flatMap rowText ++
      (tableClosing ++ if enableMain then mainText else []))))

/-! ## C -/

/-- What the file has at its top level; parameters are kept as their tokens. -/
inductive CItem where
  | directive (text : CString)
  | prototype (result name : CString) (params : List (List Token))
  | array (type name : CString) (rows : List (List CInit))
  | main (info : CString)
  deriving DecidableEq, Repr

def nullWord : CString := "NULL"

def constWord : CString := "const"

def mainWord : CString := "DEFINE_MAIN_FUNCTION"

/-- The tokens of an initializer. -/
def CInit.tokens : CInit → List Token
  | .str text => [.str text]
  | .addr symbol => [.punct '&', .word symbol]
  | .null => [.word nullWord]

/-- The initializer that the tokens are. -/
def readInit : List Token → Option CInit
  | [.str text] => some (.str text)
  | [.punct c, .word symbol] => if c = '&' then some (.addr symbol) else none
  | [.word w] => if w = nullWord then some .null else none
  | _ => none

/-- The tokens of a row of the table. -/
def rowTokens (row : List CInit) : List Token :=
  .punct '\x7b' ::
    (List.intercalate [.punct ','] (row.map CInit.tokens) ++ [.punct '\x7d', .punct ','])

/-- A row, behind its opening brace. -/
def readRow (ts : List Token) : Option (List CInit × List Token) :=
  match ts.dropWhile (· ≠ .punct '\x7d') with
  | _ :: .punct c :: rest =>
    if c = ',' then
      (((ts.takeWhile (· ≠ .punct '\x7d')).splitOn (.punct ',')).mapM readInit).map (·, rest)
    else none
  | _ => none

/-- The end of a table, behind its closing brace. -/
def readTableEnd (ts : List Token) : Option (List (List CInit) × List Token) :=
  if ts.head? = some (.punct ';') then some ([], ts.tail) else none

/-- The rows, up to the end of the table. -/
def readRows : Nat → List Token → Option (List (List CInit) × List Token)
  | _, [] => none
  | 0, t :: ts => if t = .punct '\x7d' then readTableEnd ts else none
  | fuel + 1, t :: ts =>
    if t = .punct '\x7d' then readTableEnd ts
    else if t = .punct '\x7b' then do
      let row ← readRow ts
      let rows ← readRows fuel row.2
      some (row.1 :: rows.1, rows.2)
    else none

/-- The tokens of a declaration. -/
def CItem.tokens : CItem → List Token
  | .directive text => [.directive text]
  | .prototype result name params =>
    .word result :: .word name :: .punct '(' ::
      (List.intercalate [.punct ','] params ++ [.punct ')', .punct ';'])
  | .array type name rows =>
    .word constWord :: .word type :: .word name :: .punct '[' :: .punct ']' :: .punct '=' ::
      .punct '\x7b' :: (rows.flatMap rowTokens ++ [.punct '\x7d', .punct ';'])
  | .main info => [.word mainWord, .punct '(', .word info, .punct ')']

/-- A prototype, behind its opening parenthesis. -/
def readPrototype (result name : CString) (ts : List Token) : Option (CItem × List Token) :=
  match ts.dropWhile (· ≠ .punct ')') with
  | _ :: .punct c :: rest =>
    if c = ';' then
      some (.prototype result name ((ts.takeWhile (· ≠ .punct ')')).splitOn (.punct ',')), rest)
    else none
  | _ => none

/-- A declaration, behind its first word. -/
def readDeclaration (fuel : Nat) (first : CString) : List Token → Option (CItem × List Token)
  | .punct c :: .word info :: .punct d :: rest =>
    if first = mainWord ∧ c = '(' ∧ d = ')' then some (.main info, rest) else none
  | .word name :: .punct c :: ts =>
    if c = '(' then readPrototype first name ts else none
  | .word type :: .word name :: .punct a :: .punct b :: .punct c :: .punct d :: ts =>
    if first = constWord ∧ a = '[' ∧ b = ']' ∧ c = '=' ∧ d = '\x7b' then
      (readRows fuel ts).map fun (rows, rest) => (.array type name rows, rest)
    else none
  | _ => none

/-- The declarations of a file. -/
def readItems : Nat → List Token → Option (List CItem)
  | _, [] => some []
  | fuel + 1, .directive text :: ts => (readItems fuel ts).map (.directive text :: ·)
  | fuel + 1, .word first :: ts => do
    let item ← readDeclaration fuel first ts
    (readItems fuel item.2).map (item.1 :: ·)
  | _, _ => none

/-- The text of a file. -/
def readC (text : CString) : Option (List CItem) := do
  let ts ← CLexer.tokens text
  readItems ts.length ts

/-! ## What was meant -/

/-- The parameters of the function of a marker. -/
def MarkerKind.params : MarkerKind → List (List Token)
  | .function => [[.word "TestCase", .punct '*'], [.word "gpointer"]]
  | .setup => [[.word "TestCase", .punct '*']]
  | .cleanup => [[.word "TestCase", .punct '*'], [.word "gpointer"]]

/-- The prototype of a function of the test. -/
def TestCaseInfo.prototype (self : TestCaseInfo) (kind : MarkerKind) : CItem :=
  .prototype kind.result (testSymbol kind self.suite self.test) kind.params

def tinuHeader : CString := "include <tinu.h>"

def metaInfoType : CString := "TinuMetaInfo"

def metaInfoName : CString := "__tinu_generated_meta_info"

/-- The declarations of the file. -/
def metafileItems (tests : List TestCaseInfo) (enableMain : Bool) : List CItem :=
  .directive tinuHeader ::
    (tests.flatMap (fun test => [MarkerKind.function, .setup, .cleanup].map test.prototype) ++
      .array metaInfoType metaInfoName (generate tests) ::
        if enableMain then [.main metaInfoName] else [])

/-! ## Types -/

/-- A field of `TinuMetaInfo`. -/
inductive FieldType where
  | text
  | fn (result : CString) (params : List (List Token))
  deriving DecidableEq, Repr

/-- `TestFunction`, `TestSetup` and `TestCleanup`. -/
def MarkerKind.fieldType (kind : MarkerKind) : FieldType := .fn kind.result kind.params

/-- The fields of `TinuMetaInfo`. -/
def metaInfoFields : List FieldType :=
  [.text, .text, MarkerKind.setup.fieldType, MarkerKind.cleanup.fieldType,
    MarkerKind.function.fieldType]

/-- What is declared so far. -/
structure Declared where
  headers : List CString
  functions : List (CString × FieldType)
  arrays : List CString
  deriving Repr

/-- An initializer has the type of its field. -/
def CInit.fits (declared : Declared) : FieldType → CInit → Bool
  | _, .null => true
  | .text, .str _ => true
  | .fn result params, .addr symbol => declared.functions.contains (symbol, .fn result params)
  | _, _ => false

/-- A row has no more initializers than there are fields, and they have their types. -/
def rowFits (declared : Declared) (row : List CInit) : Bool :=
  row.length ≤ metaInfoFields.length &&
    (metaInfoFields.zip row).all fun field => field.2.fits declared field.1

/-- A declaration: no function is declared anew with another type, and what is used is declared. -/
def checkItem (declared : Declared) : CItem → Option Declared
  | .directive text => some { declared with headers := text :: declared.headers }
  | .prototype result name params =>
    if declared.functions.all fun f => f.1 ≠ name || f.2 = .fn result params then
      some { declared with functions := (name, .fn result params) :: declared.functions }
    else none
  | .array type name rows =>
    if declared.headers.contains tinuHeader ∧ type = metaInfoType ∧
        rows.all (rowFits declared) then
      some { declared with arrays := name :: declared.arrays }
    else none
  | .main info =>
    if declared.headers.contains tinuHeader ∧ declared.arrays.contains info then some declared
    else none

/-- The types of a file. -/
def checkC (items : List CItem) : Bool := (items.foldlM checkItem ⟨[], [], []⟩).isSome

/-! ## The program -/

/-- The argument of `DEFINE_MAIN_FUNCTION`. -/
def CItem.mainInfo : CItem → Option CString
  | .main info => some info
  | _ => none

/-- The table of the name. -/
def CItem.tableRows (name : CString) : CItem → Option (List (List CInit))
  | .array _ n rows => if n = name then some rows else none
  | _ => none

/-- What the main function registers, before `tinu_main`. -/
def runMain (link : CString → FnPtr) (items : List CItem) : Option (Option TestContext) := do
  let info ← items.findSome? CItem.mainInfo
  let rows ← items.findSome? (CItem.tableRows info)
  let metainfo ← rows.mapM (TinuMetaInfo.ofInits link)
  tinuUseMetainfo metainfo none

/-- Every marker line has two arguments, and they are words. -/
def WordMarked (file : List CString) : Prop :=
  ∀ line ∈ file, ∀ kind args, markerArgs kind (patternSub line) = some args →
    ∃ suite test, args = [suite, test] ∧ isWord suite = true ∧ isWord test = true

/-! ## The tokens of the text -/

/-- A word has no letter that a literal or a line does not take. -/
theorem isWordChar_ne {c d : Char} (h : isWordChar c = true) (hd : isWordChar d = false) :
    c ≠ d := by
  rintro rfl
  rw [h] at hd
  cases hd

theorem word_isStr {w : CString} (h : isWord w = true) : w.all isStrChar = true := by
  rw [List.all_eq_true]
  intro c hc
  have hword := List.all_eq_true.mp h c hc
  have hquote := isWordChar_ne hword (by decide : isWordChar (Char.ofNat 34) = false)
  have hslash := isWordChar_ne hword (by decide : isWordChar (Char.ofNat 92) = false)
  have hend := isWordChar_ne hword (by decide : isWordChar '\n' = false)
  simp [isStrChar, hquote, hslash, hend]

theorem word_isLine {w : CString} (h : isWord w = true) : w.all isLineChar = true := by
  rw [List.all_eq_true]
  intro c hc
  have hword := List.all_eq_true.mp h c hc
  have hslash := isWordChar_ne hword (by decide : isWordChar (Char.ofNat 92) = false)
  have hend := isWordChar_ne hword (by decide : isWordChar '\n' = false)
  simp [isLineChar, hslash, hend]

theorem word_isCName {w : CString} (h : isWord w = true) : isCName w = true := by
  rw [isCName, List.all_eq_true]
  intro c hc
  have hword := List.all_eq_true.mp h c hc
  have hdot := isWordChar_ne hword (by decide : isWordChar '.' = false)
  have heq := isWordChar_ne hword (by decide : isWordChar '=' = false)
  have hquote := isWordChar_ne hword (by decide : isWordChar (Char.ofNat 34) = false)
  have hslash := isWordChar_ne hword (by decide : isWordChar (Char.ofNat 92) = false)
  simp [hdot, heq, hquote, hslash]

theorem isWord_append {v w : CString} :
    isWord (v ++ w) = true ↔ isWord v = true ∧ isWord w = true := by
  rw [isWord, List.all_append, Bool.and_eq_true]
  exact Iff.rfl

theorem isWord_testSymbol {kind : MarkerKind} {suite test : CString} :
    isWord (testSymbol kind suite test) = true ↔ isWord suite = true ∧ isWord test = true := by
  have hkey : isWord kind.key = true := by cases kind <;> decide
  have hopen : isWord "test_" = true := by decide
  have hsep : isWord "_" = true := by decide
  unfold testSymbol
  rw [isWord_append, isWord_append, isWord_append, isWord_append, isWord_append]
  tauto

theorem testSymbol_ne_nil (kind : MarkerKind) (suite test : CString) :
    testSymbol kind suite test ≠ [] := by
  intro h
  have hhead : (testSymbol kind suite test).head? = some 't' := by cases kind <;> rfl
  rw [h] at hhead
  cases hhead

variable {info : TestCaseInfo}

theorem lexes_infoLine (hs : isWord info.suite = true) (ht : isWord info.test = true)
    {mark : CString} (hmark : mark.all isLineChar = true) : Lexes (info.infoLine mark) [] := by
  refine lexes_line ?_
  have hcolon : isLineChar ':' = true := by decide
  rw [List.all_append, List.all_append, List.all_cons, hmark, word_isLine hs, word_isLine ht,
    hcolon]
  rfl

theorem lexes_prototype (hs : isWord info.suite = true) (ht : isWord info.test = true)
    (kind : MarkerKind) : Lexes (info.prototypeText kind) (info.prototype kind).tokens := by
  have hresult : LexesBefore kind.result [.word kind.result] :=
    lexes_word (by cases kind <;> decide) (by cases kind <;> decide)
  have hsymbol : LexesBefore (testSymbol kind info.suite info.test)
      [.word (testSymbol kind info.suite info.test)] :=
    lexes_word (testSymbol_ne_nil kind _ _) (isWord_testSymbol.mpr ⟨hs, ht⟩)
  have hargs : Lexes ('(' :: kind.arguments) (.punct '(' ::
      (List.intercalate [Token.punct ','] kind.params ++ [Token.punct ')', .punct ';'])) := by
    cases kind <;> decide
  have hblank : Lexes [' '] [] := by decide
  have hname := hsymbol.cons (by decide) hargs
  have hall := hresult.cons (by decide) (hblank.append hname)
  exact hall

theorem lexes_declaration (hs : isWord info.suite = true) (ht : isWord info.test = true) :
    Lexes info.generateDeclaration
      (([MarkerKind.function, .setup, .cleanup].map info.prototype).flatMap CItem.tokens) := by
  have hbegin : Lexes (info.infoLine beginMark) [] := lexes_infoLine hs ht (by decide)
  have hend : Lexes (info.infoLine endMark) [] := lexes_infoLine hs ht (by decide)
  have hprotos := Lexes.flatMap [MarkerKind.function, .setup, .cleanup] fun kind _ =>
    lexes_prototype hs ht kind
  have hall := hbegin.append (hprotos.append hend)
  rw [List.nil_append, List.append_nil, ← List.flatMap_map] at hall
  exact hall

/-- The words and strings of an initializer. -/
def CInit.Ok : CInit → Prop
  | .str text => text.all isStrChar = true
  | .addr symbol => symbol ≠ [] ∧ isWord symbol = true
  | .null => True

theorem lexes_init {init : CInit} (h : init.Ok) : LexesBefore init.text init.tokens := by
  cases init with
  | str text => exact (lexes_str h).before
  | addr symbol =>
    have hamp : Lexes ['&'] [.punct '&'] := by decide
    exact hamp.append_before (lexes_word h.1 h.2)
  | null => exact lexes_word (by decide) (by decide)

theorem lexes_row {row : List CInit} (h : ∀ init ∈ row, init.Ok) :
    Lexes (rowText row) (rowTokens row) := by
  have hopening : Lexes rowOpening [.punct '\x7b'] := by decide
  have hclosing : Lexes (' ' :: rowClosing) [.punct '\x7d', .punct ','] := by decide
  have hinits := LexesBefore.intercalate (by decide) (by decide : Lexes [',', ' '] [.punct ','])
    row fun init hinit => lexes_init (h init hinit)
  exact hopening.append (hinits.cons (by decide) hclosing)

theorem appendFunction_ok (hs : isWord info.suite = true) (ht : isWord info.test = true)
    (kind : MarkerKind) : (info.appendFunction kind).Ok := by
  unfold TestCaseInfo.appendFunction
  split
  · exact ⟨testSymbol_ne_nil kind _ _, isWord_testSymbol.mpr ⟨hs, ht⟩⟩
  · trivial

theorem generate_ok {tests : List TestCaseInfo}
    (h : ∀ info ∈ tests, isWord info.suite = true ∧ isWord info.test = true) :
    ∀ row ∈ generate tests, ∀ init ∈ row, init.Ok := by
  intro row hrow init hinit
  rcases List.mem_append.mp hrow with hrow | hrow
  · obtain ⟨info, hinfo, rfl⟩ := List.mem_map.mp hrow
    obtain ⟨hs, ht⟩ := h info hinfo
    simp only [TestCaseInfo.generateMetaEntry, List.mem_cons, List.not_mem_nil, or_false] at hinit
    rcases hinit with rfl | rfl | rfl | rfl | rfl
    · exact word_isStr hs
    · exact word_isStr ht
    · exact appendFunction_ok hs ht .setup
    · exact appendFunction_ok hs ht .cleanup
    · exact appendFunction_ok hs ht .function
  · rw [List.mem_singleton.mp hrow] at hinit
    simp only [List.mem_cons, List.not_mem_nil, or_false, or_self] at hinit
    rw [hinit]
    trivial

/-- **The tokens of the text.** -/
theorem lexes_generateText {tests : List TestCaseInfo} (enableMain : Bool)
    (h : ∀ info ∈ tests, isWord info.suite = true ∧ isWord info.test = true) :
    Lexes (generateText tests enableMain)
      ((metafileItems tests enableMain).flatMap CItem.tokens) := by
  have hopening : Lexes fileOpening [.directive tinuHeader] := by decide +kernel
  have hdecls : Lexes (tests.flatMap fun test => test.generateDeclaration ++ ['\n'])
      (tests.flatMap fun test =>
        ([MarkerKind.function, .setup, .cleanup].map test.prototype).flatMap CItem.tokens) := by
    refine Lexes.flatMap tests fun info hinfo => ?_
    obtain ⟨hs, ht⟩ := h info hinfo
    have hline := (lexes_declaration hs ht).append (by decide : Lexes ['\n'] [])
    rw [List.append_nil] at hline
    exact hline
  have htable : Lexes tableOpening [.word constWord, .word metaInfoType, .word metaInfoName,
      .punct '[', .punct ']', .punct '=', .punct '\x7b'] := by decide
  have hrows := Lexes.flatMap (generate tests) fun row hrow =>
    lexes_row (generate_ok h row hrow)
  have hclosing : Lexes tableClosing [.punct '\x7d', .punct ';'] := by decide
  have hmain : Lexes (if enableMain then mainText else [])
      ((if enableMain then [CItem.main metaInfoName] else []).flatMap CItem.tokens) := by
    cases enableMain <;> decide
  have hall := hopening.append
    (hdecls.append (htable.append (hrows.append (hclosing.append hmain))))
  have htokens : (metafileItems tests enableMain).flatMap CItem.tokens =
      [Token.directive tinuHeader] ++ ((tests.flatMap fun test =>
        ([MarkerKind.function, .setup, .cleanup].map test.prototype).flatMap CItem.tokens) ++
      ([Token.word constWord, .word metaInfoType, .word metaInfoName, .punct '[', .punct ']',
        .punct '=', .punct '\x7b'] ++ ((generate tests).flatMap rowTokens ++
      ([Token.punct '\x7d', .punct ';'] ++
        (if enableMain then [CItem.main metaInfoName] else []).flatMap CItem.tokens)))) := by
    rw [metafileItems, List.flatMap_cons, List.flatMap_append, List.flatMap_cons,
      List.flatMap_assoc]
    simp only [CItem.tokens, List.append_assoc, List.cons_append, List.nil_append]
  rw [htokens]
  exact hall

/-! ## Reading tokens -/

theorem ne_punct_of_not_mem {c : Char} {ts : List Token} (h : Token.punct c ∉ ts) :
    ∀ t ∈ ts, decide (t ≠ .punct c) = true := by
  intro t ht
  rw [decide_eq_true_eq]
  rintro rfl
  exact h ht

theorem takeWhile_punct {c : Char} {ts : List Token} (h : Token.punct c ∉ ts) (rest : List Token) :
    (ts ++ .punct c :: rest).takeWhile (· ≠ .punct c) = ts := by
  rw [List.takeWhile_append_of_pos (ne_punct_of_not_mem h), List.takeWhile_cons_of_neg (by simp),
    List.append_nil]

theorem dropWhile_punct {c : Char} {ts : List Token} (h : Token.punct c ∉ ts) (rest : List Token) :
    (ts ++ .punct c :: rest).dropWhile (· ≠ .punct c) = .punct c :: rest := by
  rw [List.dropWhile_append_of_pos (ne_punct_of_not_mem h), List.dropWhile_cons_of_neg (by simp)]

theorem mem_intercalate {t : Token} {c : Char} :
    ∀ {parts : List (List Token)}, t ∈ List.intercalate [Token.punct c] parts →
      t = .punct c ∨ ∃ part ∈ parts, t ∈ part
  | [], h => by simp at h
  | [part], h => by
    rw [List.intercalate_singleton] at h
    exact Or.inr ⟨part, List.mem_cons_self, h⟩
  | part :: q :: parts, h => by
    rw [List.intercalate_cons_cons, List.mem_append, List.mem_append, List.mem_singleton] at h
    rcases h with (h | h) | h
    · exact Or.inr ⟨part, List.mem_cons_self, h⟩
    · exact Or.inl h
    · rcases mem_intercalate h with h | ⟨p, hp, ht⟩
      · exact Or.inl h
      · exact Or.inr ⟨p, List.mem_cons_of_mem part hp, ht⟩

theorem punct_not_mem_tokens {c : Char} (hc : c ≠ '&') (init : CInit) :
    Token.punct c ∉ init.tokens := by
  cases init <;> simp [CInit.tokens, hc]

theorem readInit_tokens (init : CInit) : readInit init.tokens = some init := by
  cases init <;> rfl

theorem mapM_readInit : ∀ row : List CInit, (row.map CInit.tokens).mapM readInit = some row
  | [] => rfl
  | init :: row => by
    rw [List.map_cons, List.mapM_cons, readInit_tokens, mapM_readInit row]
    rfl

/-- **A row** is read back. -/
theorem readRow_tokens {row : List CInit} (hne : row ≠ []) (rest : List Token) :
    readRow (List.intercalate [Token.punct ','] (row.map CInit.tokens) ++
      ([Token.punct '\x7d', .punct ','] ++ rest)) = some (row, rest) := by
  have hclose : Token.punct '\x7d' ∉ List.intercalate [Token.punct ','] (row.map CInit.tokens) := by
    intro hmem
    rcases mem_intercalate hmem with h | ⟨part, hpart, h⟩
    · cases h
    · obtain ⟨init, _, rfl⟩ := List.mem_map.mp hpart
      exact punct_not_mem_tokens (by decide) init h
  have hsplit : (List.intercalate [Token.punct ','] (row.map CInit.tokens)).splitOn (.punct ',') =
      row.map CInit.tokens := by
    refine List.splitOn_intercalate _ ?_ (by simpa using hne)
    intro part hpart
    obtain ⟨init, _, rfl⟩ := List.mem_map.mp hpart
    exact punct_not_mem_tokens (by decide) init
  unfold readRow
  rw [List.cons_append, takeWhile_punct hclose, dropWhile_punct hclose, hsplit, mapM_readInit]
  rfl

/-- **The rows of a table**, when there is fuel for each. -/
theorem readRows_tokens : ∀ {rows : List (List CInit)} {fuel : Nat}, (∀ row ∈ rows, row ≠ []) →
    rows.length ≤ fuel → ∀ rest : List Token,
      readRows fuel (rows.flatMap rowTokens ++ ([Token.punct '\x7d', .punct ';'] ++ rest)) =
        some (rows, rest)
  | [], fuel, _, _, rest => by
    rw [List.flatMap_nil, List.nil_append, List.cons_append]
    cases fuel <;> rfl
  | row :: rows, 0, _, hfuel, _ => absurd hfuel (Nat.not_succ_le_zero _)
  | row :: rows, fuel + 1, hne, hfuel, rest => by
    have hrow := readRow_tokens (hne row List.mem_cons_self)
      (rows.flatMap rowTokens ++ ([Token.punct '\x7d', .punct ';'] ++ rest))
    have hrows := @readRows_tokens rows fuel
      (fun r hr => hne r (List.mem_cons_of_mem row hr)) (Nat.le_of_succ_le_succ hfuel) rest
    rw [List.flatMap_cons, rowTokens, List.cons_append, List.cons_append, List.append_assoc,
      List.append_assoc, readRows, if_neg (by decide), if_pos rfl, hrow, Option.bind_eq_bind,
      Option.bind_some, hrows]
    rfl

/-- What a declaration needs to be read back. -/
def CItem.Readable : CItem → Prop
  | .directive _ => True
  | .prototype _ _ params => params ≠ [] ∧
      ∀ param ∈ params, Token.punct ',' ∉ param ∧ Token.punct ')' ∉ param
  | .array _ _ rows => ∀ row ∈ rows, row ≠ []
  | .main _ => True

theorem readPrototype_tokens {result name : CString} {params : List (List Token)}
    (h : (CItem.prototype result name params).Readable) (rest : List Token) :
    readPrototype result name (List.intercalate [Token.punct ','] params ++
      ([Token.punct ')', .punct ';'] ++ rest)) = some (.prototype result name params, rest) := by
  obtain ⟨hne, hparams⟩ := h
  have hclose : Token.punct ')' ∉ List.intercalate [Token.punct ','] params := by
    intro hmem
    rcases mem_intercalate hmem with h | ⟨part, hpart, h⟩
    · cases h
    · exact (hparams part hpart).2 h
  have hsplit : (List.intercalate [Token.punct ','] params).splitOn (.punct ',') = params :=
    List.splitOn_intercalate _ (fun part hpart => (hparams part hpart).1) hne
  unfold readPrototype
  rw [List.cons_append, takeWhile_punct hclose, dropWhile_punct hclose, hsplit]
  rfl

theorem rows_length_le (rows : List (List CInit)) :
    rows.length ≤ (rows.flatMap rowTokens).length := by
  induction rows with
  | nil => exact Nat.zero_le _
  | cons row rows ih =>
    rw [List.flatMap_cons, List.length_append, List.length_cons, rowTokens, List.length_cons]
    omega

/-- **A declaration** is read back, when there is fuel for the rows of a table. -/
theorem readItems_cons {item : CItem} (h : item.Readable) {fuel : Nat}
    (hfuel : item.tokens.length ≤ fuel + 1) (rest : List Token) :
    readItems (fuel + 1) (item.tokens ++ rest) = (readItems fuel rest).map (item :: ·) := by
  cases item with
  | directive text => rfl
  | prototype result name params =>
    have hdecl : readDeclaration fuel result (.word name :: .punct '(' ::
        (List.intercalate [Token.punct ','] params ++ ([Token.punct ')', .punct ';'] ++ rest))) =
        some (.prototype result name params, rest) := by
      rw [readDeclaration, if_pos rfl, readPrototype_tokens h]
    rw [CItem.tokens, List.cons_append, List.cons_append, List.cons_append, List.append_assoc,
      readItems, hdecl]
    rfl
  | array type name rows =>
    have hlen := rows_length_le rows
    have hrows : readRows fuel
        (rows.flatMap rowTokens ++ ([Token.punct '\x7d', .punct ';'] ++ rest)) =
          some (rows, rest) := by
      refine readRows_tokens h ?_ rest
      simp only [CItem.tokens, List.length_cons, List.length_append] at hfuel
      omega
    have hdecl : readDeclaration fuel constWord (.word type :: .word name :: .punct '[' ::
        .punct ']' :: .punct '=' :: .punct '\x7b' ::
          (rows.flatMap rowTokens ++ ([Token.punct '\x7d', .punct ';'] ++ rest))) =
        some (.array type name rows, rest) := by
      rw [readDeclaration, if_pos ⟨rfl, rfl, rfl, rfl, rfl⟩, hrows]
      rfl
    rw [CItem.tokens, List.cons_append, List.cons_append, List.cons_append, List.cons_append,
      List.cons_append, List.cons_append, List.cons_append, List.append_assoc, readItems, hdecl]
    rfl
  | main info =>
    have hdecl : readDeclaration fuel mainWord (.punct '(' :: .word info :: .punct ')' :: rest) =
        some (.main info, rest) := by
      rw [readDeclaration, if_pos ⟨rfl, rfl, rfl⟩]
    rw [CItem.tokens, List.cons_append, List.cons_append, List.cons_append, List.singleton_append,
      readItems, hdecl]
    rfl

theorem tokens_length_pos (item : CItem) : 0 < item.tokens.length := by
  cases item <;> exact Nat.succ_pos _

/-- **Declarations are read back** from their tokens. -/
theorem readItems_tokens : ∀ {items : List CItem} {fuel : Nat}, (∀ item ∈ items, item.Readable) →
    (items.flatMap CItem.tokens).length ≤ fuel →
      readItems fuel (items.flatMap CItem.tokens) = some items
  | [], fuel, _, _ => by rw [List.flatMap_nil]; cases fuel <;> rfl
  | item :: items, 0, _, hfuel => by
    have hpos := tokens_length_pos item
    rw [List.flatMap_cons, List.length_append] at hfuel
    omega
  | item :: items, fuel + 1, hread, hfuel => by
    have hpos := tokens_length_pos item
    rw [List.flatMap_cons, List.length_append] at hfuel
    have hrest := @readItems_tokens items fuel
      (fun it h => hread it (List.mem_cons_of_mem item h)) (by omega)
    rw [List.flatMap_cons, readItems_cons (hread item List.mem_cons_self) (by omega), hrest]
    rfl

/-! ## What can be read -/

/-- What is left behind two tokens of the rest. -/
theorem suffix_of_dropWhile {p : Token → Bool} {ts after : List Token} {t u : Token}
    (h : ts.dropWhile p = t :: u :: after) : after <:+ ts := by
  have hdrop : t :: u :: after <:+ ts := h ▸ List.dropWhile_suffix p
  exact (List.suffix_append [t, u] after).trans hdrop

theorem readRow_suffix {ts rest : List Token} {row : List CInit}
    (h : readRow ts = some (row, rest)) : rest <:+ ts := by
  unfold readRow at h
  split at h
  · next first c after heq =>
    rw [Option.ite_none_right_eq_some, Option.map_eq_some_iff] at h
    obtain ⟨_, _, _, hrest⟩ := h
    obtain rfl := (Prod.mk.inj hrest).2
    exact suffix_of_dropWhile heq
  · cases h

theorem readTableEnd_suffix {ts rest : List Token} {rows : List (List CInit)}
    (h : readTableEnd ts = some (rows, rest)) : rest <:+ ts := by
  rw [readTableEnd, Option.ite_none_right_eq_some, Option.some.injEq] at h
  obtain rfl := (Prod.mk.inj h.2).2
  exact List.tail_suffix ts

theorem readRows_suffix : ∀ {fuel : Nat} {ts rest : List Token} {rows : List (List CInit)},
    readRows fuel ts = some (rows, rest) → rest <:+ ts
  | fuel, [], rest, rows, h => by cases fuel <;> cases h
  | 0, t :: ts, rest, rows, h => by
    rw [readRows, Option.ite_none_right_eq_some] at h
    exact (readTableEnd_suffix h.2).trans (List.suffix_cons t ts)
  | fuel + 1, t :: ts, rest, rows, h => by
    refine List.IsSuffix.trans ?_ (List.suffix_cons t ts)
    rw [readRows] at h
    split_ifs at h
    · exact readTableEnd_suffix h
    · rw [Option.bind_eq_bind, Option.bind_eq_some_iff] at h
      obtain ⟨row, hrow, h⟩ := h
      rw [Option.bind_eq_bind, Option.bind_eq_some_iff] at h
      obtain ⟨more, hmore, h⟩ := h
      obtain rfl := (Prod.mk.inj (Option.some.inj h)).2
      exact (readRows_suffix hmore).trans (readRow_suffix hrow)

theorem readPrototype_suffix {result name : CString} {ts rest : List Token} {item : CItem}
    (h : readPrototype result name ts = some (item, rest)) :
    rest <:+ ts ∧ ∃ params, item = .prototype result name params := by
  unfold readPrototype at h
  split at h
  · next first c after heq =>
    rw [Option.ite_none_right_eq_some, Option.some.injEq] at h
    obtain ⟨hitem, rfl⟩ := Prod.mk.inj h.2
    exact ⟨suffix_of_dropWhile heq, _, hitem.symm⟩
  · cases h

/-- The name of a prototype is a word of the text. -/
def CItem.NamedIn (ts : List Token) : CItem → Prop
  | .prototype _ name _ => .word name ∈ ts
  | _ => True

theorem CItem.NamedIn.mono {item : CItem} {ts us : List Token} (h : item.NamedIn ts)
    (hsub : ∀ t ∈ ts, t ∈ us) : item.NamedIn us := by
  cases item with
  | prototype result name params => exact hsub _ h
  | directive | array | main => trivial

theorem readDeclaration_named {fuel : Nat} {first : CString} {ts rest : List Token} {item : CItem}
    (h : readDeclaration fuel first ts = some (item, rest)) : rest <:+ ts ∧ item.NamedIn ts := by
  unfold readDeclaration at h
  split at h
  · next c info d after =>
    rw [Option.ite_none_right_eq_some, Option.some.injEq] at h
    obtain ⟨rfl, rfl⟩ := Prod.mk.inj h.2
    exact ⟨List.suffix_append [Token.punct c, .word info, .punct d] after, trivial⟩
  · next name c after =>
    rw [Option.ite_none_right_eq_some] at h
    obtain ⟨hrest, params, rfl⟩ := readPrototype_suffix h.2
    exact ⟨hrest.trans (List.suffix_append [Token.word name, .punct c] after),
      List.mem_cons_self⟩
  · next type name a b c d after =>
    rw [Option.ite_none_right_eq_some, Option.map_eq_some_iff] at h
    obtain ⟨_, rows, hrows, heq⟩ := h
    obtain ⟨rfl, rfl⟩ := Prod.mk.inj heq
    exact ⟨(readRows_suffix hrows).trans (List.suffix_append
      [Token.word type, .word name, .punct a, .punct b, .punct c, .punct d] after), trivial⟩
  · cases h

/-- **The names that are read are words of the text.** -/
theorem readItems_named : ∀ {fuel : Nat} {ts : List Token} {items : List CItem},
    readItems fuel ts = some items → ∀ item ∈ items, item.NamedIn ts
  | fuel, [], items, h => by
    obtain rfl : [] = items := by cases fuel <;> exact Option.some.inj h
    exact fun item hitem => nomatch hitem
  | 0, t :: ts, items, h => by cases t <;> cases h
  | fuel + 1, .directive text :: ts, items, h => by
    rw [readItems, Option.map_eq_some_iff] at h
    obtain ⟨more, hmore, rfl⟩ := h
    intro item hitem
    rcases List.mem_cons.mp hitem with rfl | hitem
    · trivial
    · exact (readItems_named hmore item hitem).mono fun t ht => List.mem_cons_of_mem _ ht
  | fuel + 1, .word first :: ts, items, h => by
    rw [readItems, Option.bind_eq_bind, Option.bind_eq_some_iff] at h
    obtain ⟨⟨it, rest⟩, hdecl, h⟩ := h
    obtain ⟨more, hmore, rfl⟩ := Option.map_eq_some_iff.mp h
    obtain ⟨hrest, hnamed⟩ := readDeclaration_named hdecl
    intro item hitem
    rcases List.mem_cons.mp hitem with rfl | hitem
    · exact hnamed.mono fun t ht => List.mem_cons_of_mem _ ht
    · refine (readItems_named hmore item hitem).mono fun t ht => ?_
      exact List.mem_cons_of_mem _ (hrest.subset ht)
  | fuel + 1, .str text :: ts, items, h => nomatch h
  | fuel + 1, .punct c :: ts, items, h => nomatch h

/-- The declarations that are meant can be read back. -/
theorem metafile_readable (tests : List TestCaseInfo) (enableMain : Bool) :
    ∀ item ∈ metafileItems tests enableMain, item.Readable := by
  intro item hitem
  rcases List.mem_cons.mp hitem with rfl | hitem
  · trivial
  rcases List.mem_append.mp hitem with hitem | hitem
  · obtain ⟨test, _, hproto⟩ := List.mem_flatMap.mp hitem
    obtain ⟨kind, _, rfl⟩ := List.mem_map.mp hproto
    cases kind <;> exact ⟨by decide, by decide⟩
  rcases List.mem_cons.mp hitem with rfl | hitem
  · intro row hrow
    rcases List.mem_append.mp hrow with hrow | hrow
    · obtain ⟨info, _, rfl⟩ := List.mem_map.mp hrow
      exact List.cons_ne_nil _ _
    · rw [List.mem_singleton.mp hrow]
      exact List.cons_ne_nil _ _
  · cases enableMain with
    | true =>
      rw [List.mem_singleton.mp hitem]
      trivial
    | false => cases hitem

theorem readC_generateText {tests : List TestCaseInfo} (enableMain : Bool)
    (h : ∀ info ∈ tests, isWord info.suite = true ∧ isWord info.test = true) :
    readC (generateText tests enableMain) = some (metafileItems tests enableMain) := by
  rw [readC, tokens_of_lexes (lexes_generateText enableMain h), Option.bind_eq_bind,
    Option.bind_some]
  exact readItems_tokens (metafile_readable tests enableMain) le_rfl

/-- **The text is read back as what was meant exactly when the names are words**, whatever tests
were collected. -/
theorem metafile_reads_back (tests : List TestCaseInfo) (enableMain : Bool) :
    readC (generateText tests enableMain) = some (metafileItems tests enableMain) ↔
      ∀ info ∈ tests, isWord info.suite = true ∧ isWord info.test = true := by
  refine ⟨fun h info hinfo => ?_, readC_generateText enableMain⟩
  rw [readC, Option.bind_eq_bind, Option.bind_eq_some_iff] at h
  obtain ⟨ts, hts, hitems⟩ := h
  -- the prototype of the test has a name, and the names that are read are words
  have hmem : info.prototype .function ∈ metafileItems tests enableMain := by
    refine List.mem_cons_of_mem _ (List.mem_append_left _ ?_)
    exact List.mem_flatMap.mpr ⟨info, hinfo, List.mem_cons_self⟩
  have hnamed : Token.word (testSymbol .function info.suite info.test) ∈ ts :=
    readItems_named hitems _ hmem
  exact isWord_testSymbol.mp (isWord_of_mem_tokens hts hnamed)

/-! ## Types -/

/-- Functions of different kinds have different names. -/
theorem testSymbol_kind {kind kind' : MarkerKind} {suite test suite' test' : CString}
    (h : testSymbol kind suite test = testSymbol kind' suite' test') : kind = kind' := by
  have hletter : ∀ (k : MarkerKind) (s t : CString), (testSymbol k s t)[5]? = k.key.head? := by
    intro k s t
    cases k <;> rfl
  have hkey := (hletter kind suite test).symm.trans
    ((congrArg (·[5]?) h).trans (hletter kind' suite' test'))
  cases kind <;> cases kind' <;> first | rfl | exact absurd hkey (by decide)

/-- What a prototype of a test declares. -/
def TestCaseInfo.declares (info : TestCaseInfo) (kind : MarkerKind) : CString × FieldType :=
  (testSymbol kind info.suite info.test, kind.fieldType)

/-- The functions declared are those of tests. -/
def Declared.OfTests (d : Declared) : Prop :=
  ∀ f ∈ d.functions, ∃ info : TestCaseInfo, ∃ kind, f = info.declares kind

/-- **One prototype** is declared anew with no other type. -/
theorem checkItem_prototype {d : Declared} (h : d.OfTests) (info : TestCaseInfo)
    (kind : MarkerKind) : checkItem d (info.prototype kind) =
      some { d with functions := info.declares kind :: d.functions } := by
  refine if_pos ?_
  rw [List.all_eq_true]
  intro f hf
  obtain ⟨info', kind', rfl⟩ := h f hf
  by_cases hname : testSymbol kind' info'.suite info'.test = testSymbol kind info.suite info.test
  · obtain rfl := testSymbol_kind hname
    simp [TestCaseInfo.declares, MarkerKind.fieldType]
  · simp [TestCaseInfo.declares, hname]

/-- **The prototypes**: all of them are declared, and nothing else is. -/
theorem check_prototypes : ∀ (ps : List (TestCaseInfo × MarkerKind)) {d : Declared}, d.OfTests →
    ∃ functions, (ps.map fun p => p.1.prototype p.2).foldlM checkItem d =
        some { d with functions := functions } ∧
      (∀ f ∈ d.functions, f ∈ functions) ∧ ∀ p ∈ ps, p.1.declares p.2 ∈ functions
  | [], d, _ => ⟨d.functions, rfl, fun _ h => h, fun _ h => nomatch h⟩
  | (info, kind) :: ps, d, h => by
    have hnext : Declared.OfTests { d with functions := info.declares kind :: d.functions } := by
      intro f hf
      rcases List.mem_cons.mp hf with rfl | hf
      · exact ⟨info, kind, rfl⟩
      · exact h f hf
    obtain ⟨functions, hrun, hkept, hall⟩ := check_prototypes ps hnext
    refine ⟨functions, ?_, fun f hf => hkept f (List.mem_cons_of_mem _ hf), fun p hp => ?_⟩
    · rw [List.map_cons, List.foldlM_cons, checkItem_prototype h]
      exact hrun
    · rcases List.mem_cons.mp hp with rfl | hp
      · exact hkept _ List.mem_cons_self
      · exact hall p hp

theorem appendFunction_fits {d : Declared} {kind : MarkerKind}
    (h : info.declares kind ∈ d.functions) :
    (info.appendFunction kind).fits d kind.fieldType = true := by
  unfold TestCaseInfo.appendFunction
  split
  · exact List.contains_iff_mem.mpr h
  · cases kind <;> rfl

/-- **The rows** have the types of the fields, when the functions of each kind are declared. -/
theorem rowFits_generate {d : Declared} {tests : List TestCaseInfo}
    (h : ∀ info ∈ tests, ∀ kind, info.declares kind ∈ d.functions) :
    (generate tests).all (rowFits d) = true := by
  rw [List.all_eq_true]
  intro row hrow
  rcases List.mem_append.mp hrow with hrow | hrow
  · obtain ⟨info, hinfo, rfl⟩ := List.mem_map.mp hrow
    have hfits : ∀ kind, (info.appendFunction kind).fits d kind.fieldType = true :=
      fun kind => appendFunction_fits (h info hinfo kind)
    have hall : (metaInfoFields.zip info.generateMetaEntry).all
        (fun field => field.2.fits d field.1) = true := by
      have htext : ∀ text, (CInit.str text).fits d .text = true := fun _ => rfl
      simp only [metaInfoFields, TestCaseInfo.generateMetaEntry, List.zip_cons_cons,
        List.zip_nil_right, List.all_cons, List.all_nil, htext, hfits, Bool.and_self]
    rw [rowFits, hall, Bool.and_true]
    rfl
  · rw [List.mem_singleton.mp hrow]
    rfl

/-- **The declarations have the types that they need**, whatever the names are. -/
theorem checkC_metafile (tests : List TestCaseInfo) (enableMain : Bool) :
    checkC (metafileItems tests enableMain) = true := by
  have hprotos : tests.flatMap (fun test =>
      [MarkerKind.function, .setup, .cleanup].map test.prototype) =
      (tests.flatMap fun test => [MarkerKind.function, .setup, .cleanup].map fun kind =>
        (test, kind)).map fun p => p.1.prototype p.2 := by
    rw [List.map_flatMap]
    rfl
  obtain ⟨functions, hrun, _, hall⟩ := check_prototypes
    (tests.flatMap fun test => [MarkerKind.function, .setup, .cleanup].map fun kind =>
      (test, kind)) (d := ⟨[tinuHeader], [], []⟩) fun f hf => nomatch hf
  have hrows := @rowFits_generate ⟨[tinuHeader], functions, []⟩ tests
    fun info hinfo kind => hall (info, kind) (List.mem_flatMap.mpr
      ⟨info, hinfo, List.mem_map.mpr ⟨kind, kind.mem_each, rfl⟩⟩)
  have hincluded : [tinuHeader].contains tinuHeader = true := by decide
  have hnamed : [metaInfoName].contains metaInfoName = true := by decide
  have htable : checkItem ⟨[tinuHeader], functions, []⟩
      (.array metaInfoType metaInfoName (generate tests)) =
      some ⟨[tinuHeader], functions, [metaInfoName]⟩ :=
    if_pos ⟨hincluded, rfl, hrows⟩
  have hmain : ∃ d, (if enableMain then [CItem.main metaInfoName] else []).foldlM checkItem
      ⟨[tinuHeader], functions, [metaInfoName]⟩ = some d := by
    cases enableMain with
    | true =>
      refine ⟨⟨[tinuHeader], functions, [metaInfoName]⟩, ?_⟩
      rw [if_pos rfl, List.foldlM_cons, checkItem, if_pos ⟨hincluded, hnamed⟩]
      rfl
    | false => exact ⟨_, rfl⟩
  obtain ⟨d, hd⟩ := hmain
  have hheader : checkItem ⟨[], [], []⟩ (.directive tinuHeader) = some ⟨[tinuHeader], [], []⟩ := rfl
  rw [checkC, metafileItems, List.foldlM_cons, hheader, Option.bind_eq_bind, Option.bind_some,
    List.foldlM_append, hprotos, hrun, Option.bind_eq_bind, Option.bind_some, List.foldlM_cons,
    htable, Option.bind_eq_bind, Option.bind_some, hd]
  rfl

/-! ## The program -/

theorem findSome_prototypes {β : Type} {f : CItem → Option β}
    (hf : ∀ result name params, f (.prototype result name params) = none)
    (tests : List TestCaseInfo) (items : List CItem) :
    (tests.flatMap (fun test => [MarkerKind.function, .setup, .cleanup].map test.prototype) ++
      items).findSome? f = items.findSome? f := by
  have hnone : (tests.flatMap fun test =>
      [MarkerKind.function, .setup, .cleanup].map test.prototype).findSome? f = none := by
    rw [List.findSome?_eq_none_iff]
    intro item hitem
    obtain ⟨test, _, hproto⟩ := List.mem_flatMap.mp hitem
    obtain ⟨kind, _, rfl⟩ := List.mem_map.mp hproto
    exact hf _ _ _
  rw [List.findSome?_append, hnone, Option.none_or]

/-- The main function registers the rows of the table. -/
theorem runMain_metafile (link : CString → FnPtr) (tests : List TestCaseInfo) :
    runMain link (metafileItems tests true) =
      ((generate tests).mapM (TinuMetaInfo.ofInits link)).bind fun metainfo =>
        tinuUseMetainfo metainfo none := by
  have hinfo : (metafileItems tests true).findSome? CItem.mainInfo = some metaInfoName := by
    rw [metafileItems, List.findSome?_cons]
    exact findSome_prototypes (fun _ _ _ => rfl) tests _
  have hrows : (metafileItems tests true).findSome? (CItem.tableRows metaInfoName) =
      some (generate tests) := by
    rw [metafileItems, List.findSome?_cons]
    exact findSome_prototypes (fun _ _ _ => rfl) tests _
  rw [runMain, hinfo, Option.bind_eq_bind, Option.bind_some, hrows]
  rfl

theorem WordMarked.wellMarked {file : List CString} (h : WordMarked file) : WellMarked file := by
  intro line hline kind args hargs
  obtain ⟨suite, test, heq, hs, ht⟩ := h line hline kind args hargs
  exact ⟨suite, test, heq, word_isCName hs, word_isCName ht⟩

theorem WordMarked.words {file : List CString} (h : WordMarked file) {kind : MarkerKind}
    {suite test : CString} (hmarks : marks file kind suite test = true) :
    isWord suite = true ∧ isWord test = true := by
  obtain ⟨line, hline, hargs⟩ := List.any_eq_true.mp hmarks
  obtain ⟨s, t, heq, hs, ht⟩ := h line hline kind _ (of_decide_eq_true hargs)
  rw [List.cons.injEq, List.cons.injEq] at heq
  rw [heq.1, heq.2.1]
  exact ⟨hs, ht⟩

/-- The tests that are collected have words for names. -/
theorem collected_words (order : DictOrder) {files : List (List CString)}
    (hw : ∀ file ∈ files, WordMarked file) : ∃ tests, collectAll order files = some tests ∧
      ∀ info ∈ tests, isWord info.suite = true ∧ isWord info.test = true := by
  obtain ⟨tests, hcollect, hfilter, _⟩ :=
    collectAll_rows order (fun f hf => (hw f hf).wellMarked) []
  refine ⟨tests, hcollect, fun info hinfo => ?_⟩
  have hmem : info ∈ tests.filter (TestCaseInfo.isFor info.suite info.test) :=
    List.mem_filter.mpr ⟨hinfo, by simp [TestCaseInfo.isFor]⟩
  rw [hfilter, List.mem_filterMap] at hmem
  obtain ⟨file, hfile, hsome⟩ := hmem
  obtain ⟨kind, hkind⟩ := exists_marks.mpr ⟨info, hsome⟩
  exact (hw file hfile).words hkind

/-- **The program made of the text registers what the table does**: from the marked lines to the
text, to its declarations, to the tests that the main function registers. -/
theorem metafile_main (order : DictOrder) (link : CString → FnPtr) {files : List (List CString)}
    (hw : ∀ file ∈ files, WordMarked file) :
    ∃ tests items context, collectAll order files = some tests ∧
      readC (generateText tests true) = some items ∧ checkC items = true ∧
      runMain link items = some context ∧ useMetafile order link files = some context ∧
      FromRows link files (context.getD (testContextInit false false)) := by
  obtain ⟨tests, hcollect, hwords⟩ := collected_words order hw
  obtain ⟨context, huse, hrows⟩ := useMetafile_fromRows order link fun f hf => (hw f hf).wellMarked
  refine ⟨tests, _, context, hcollect, readC_generateText true hwords, checkC_metafile tests true,
    ?_, huse, hrows⟩
  rw [useMetafile, hcollect, Option.bind_eq_bind, Option.bind_some] at huse
  rw [runMain_metafile]
  exact huse

/-- A file that marks one test. -/
def oneTestFile : List CString := ["TEST_FUNCTION(list, insert)", "x"]

theorem oneTestFile_wordMarked : WordMarked oneTestFile := by
  have hargs : ∀ line ∈ oneTestFile, ∀ kind ∈ [MarkerKind.function, .setup, .cleanup],
      markerArgs kind (patternSub line) = none ∨
        markerArgs kind (patternSub line) = some [("list" : CString), ("insert" : CString)] := by
    decide
  intro line hline kind args h
  rcases hargs line hline kind kind.mem_each with hnone | hsome
  · rw [hnone] at h
    cases h
  · rw [hsome] at h
    obtain rfl := Option.some.inj h
    exact ⟨_, _, rfl, by decide, by decide⟩

theorem metafile_main_list :
    ∃ tests items context, collectAll .entries [oneTestFile] = some tests ∧
      readC (generateText tests true) = some items ∧ checkC items = true ∧
      runMain (fun _ => 7) items = some context ∧
      useMetafile .entries (fun _ => 7) [oneTestFile] = some context ∧
      FromRows (fun _ => 7) [oneTestFile] (context.getD (testContextInit false false)) :=
  metafile_main .entries (fun _ => 7) fun file hfile => by
    rw [List.mem_singleton.mp hfile]
    exact oneTestFile_wordMarked

end Tinu
