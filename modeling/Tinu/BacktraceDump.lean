import Tinu.BacktraceFrames
import Tinu.DwarfLoad
import Tinu.ReportRoundTrip
import Tinu.Lib.Joined
import Tinu.Lib.Lines

/-!
# Dumping a backtrace (`backtrace.c`)

In a file every frame is a line, and one more with its location when the debug information has one;
what was dumped is read back from the lines.  In the tag of a message the names are joined.

* `lineinfo_eq` — the location that the loaded debug information gives an address;
* `readDump_frames` — the frames and locations of a text;
* `dump_reads_back` — from the debug information and the call stack to the text, and back;
* `msgTagTrace_reads_back` — the names in a tag, and when they are read back.
-/

set_option autoImplicit false

namespace Tinu

/-! ## The functions -/

/-- `_backtrace_get_lineinfo`: whether it found a location, and `*file` and `*lineno`.  There is no
result when `dw_lookup` returns a value that was not set. -/
def backtraceGetLineinfo (quarkToString : Nat → CString) (dwarf : Option DwarfHandle)
    (entry : BacktraceEntry) : Option (Option (CString × Nat)) :=
  match dwarf with
  | none => some none
  | some handle =>
    match dwLookup handle entry.ptr 0x30 with
    | .null => some none
    | .entry e => some (some (quarkToString e.source, (e.lineno % 2 ^ 32).toNat))
    | .indeterminate => none

/-- `"%*c"` with a blank; `m_indent` was a `guint8`. -/
def indentation (indent : Nat) : CString := List.replicate (max indent 1) ' '

def invalidFrame : CString := "<invalid frame>"

def locationMark : CString := "\tlocation: "

/-- `"%s:%d"`, with a `guint32` for the number. -/
def locationText (location : CString × Nat) : CString :=
  location.1 ++ ':' :: formatD (toGint location.2)

/-- `_backtrace_dump_file_callback`; the entry that is invalid is none. -/
def backtraceDumpFileCallback (lineinfo : BacktraceEntry → Option (Option (CString × Nat)))
    (indent : Nat) : Option BacktraceEntry → Option CString
  | none => some (indentation indent ++ (invalidFrame ++ ['\n']))
  | some entry => do
    let location ← lineinfo entry
    let line := indentation indent ++ (entry.function ++ ['\n'])
    match location with
    | some location => some (line ++ (locationMark ++ (locationText location ++ ['\n'])))
    | none => some line

/-- `backtrace_dump_file`. -/
def backtraceDumpFile (e : Resolver)
    (lineinfo : BacktraceEntry → Option (Option (CString × Nat))) (self : Backtrace)
    (indent : Nat) : Option CString := do
  let entries ← backtraceDump e self
  let texts ← entries.mapM (backtraceDumpFileCallback lineinfo indent)
  some texts.flatten

/-! ## Reading a dump -/

/-- What the lines say of a frame. -/
structure DumpedFrame where
  name : CString
  location : Option (CString × Int)
  deriving DecidableEq, Repr

/-- A number as `"%d"` writes it. -/
def readInt : CString → Int
  | '-' :: s => -(Nat.ofDigitChars 10 s 0 : Int)
  | s => Nat.ofDigitChars 10 s 0

/-- The number is behind the last colon. -/
def readLocation (s : CString) : CString × Int :=
  ((((s.reverse.dropWhile (· ≠ ':')).drop 1).reverse),
    readInt (s.reverse.takeWhile (· ≠ ':')).reverse)

/-- One line, from the last on: the frames so far, and the location for the next. -/
def readDumpLine (indent : Nat) (line : CString)
    (st : List DumpedFrame × Option (CString × Int)) :
    List DumpedFrame × Option (CString × Int) :=
  if locationMark <+: line then (st.1, some (readLocation (line.drop locationMark.length)))
  else (⟨line.drop (max indent 1), st.2⟩ :: st.1, none)

def readDump (indent : Nat) (text : CString) : List DumpedFrame :=
  (((Lines.split '\n' text).map List.dropLast).foldr (readDumpLine indent) ([], none)).1

theorem readInt_formatD (n : Int) : readInt (formatD n) = n := by
  have hdigits : ∀ m : Nat, readInt (Nat.toDigits 10 m) = m := fun m => by
    cases hm : Nat.toDigits 10 m with
    | nil => exact absurd hm Nat.toDigits_ne_nil
    | cons c s =>
      have hc : c ≠ '-' := fun hc => by
        have hdigit := @isDigit_toDigits m c (by rw [hm]; exact List.mem_cons_self)
        rw [hc] at hdigit
        cases hdigit
      rw [readInt, ← hm, Nat.ofDigitChars_ten_toDigits]
      rintro s' h
      exact hc (List.cons.inj h).1
  unfold formatD Printf.decimal
  split
  · rw [readInt, Nat.ofDigitChars_ten_toDigits]
    omega
  · rw [hdigits]
    omega

theorem not_mem_formatD {c : Char} (hdigit : c.isDigit = false) (hminus : c ≠ '-') (n : Int) :
    c ∉ formatD n := by
  have hdigits : c ∉ Nat.toDigits 10 n.natAbs := fun hc => by
    rw [isDigit_toDigits c hc] at hdigit
    cases hdigit
  unfold formatD Printf.decimal
  split
  · exact fun h => (List.mem_cons.mp h).elim hminus hdigits
  · exact hdigits

/-- **A location is read back**, whatever its file is called. -/
theorem readLocation_text (location : CString × Nat) :
    readLocation (locationText location) = (location.1, toGint location.2) := by
  have hcolon : ':' ∉ formatD (toGint location.2) := not_mem_formatD (by decide) (by decide) _
  have hback : (locationText location).reverse =
      (formatD (toGint location.2)).reverse ++ ':' :: location.1.reverse := by
    rw [locationText, List.reverse_append, List.reverse_cons, List.append_assoc]
    rfl
  have hnumber : ∀ c ∈ (formatD (toGint location.2)).reverse, (decide (c ≠ ':')) = true :=
    fun c hc => decide_eq_true fun h => hcolon (List.mem_reverse.mp (h ▸ hc))
  rw [readLocation, hback, List.takeWhile_append_of_pos hnumber,
    List.dropWhile_append_of_pos hnumber]
  simp [readInt_formatD]

/-! ## The lines of a dump -/

/-- What is dumped of a frame: its name, and its location. -/
abbrev FrameText := CString × Option (CString × Nat)

def frameLines (indent : Nat) (f : FrameText) : List CString :=
  (indentation indent ++ f.1) :: (f.2.map fun l => locationMark ++ locationText l).toList

def FrameText.dumped (f : FrameText) : DumpedFrame := ⟨f.1, f.2.map fun l => (l.1, toGint l.2)⟩

/-- Nothing in the lines of the frame is a line of its own. -/
structure FrameText.OneLine (f : FrameText) : Prop where
  name : '\n' ∉ f.1
  file : ∀ l ∈ f.2, '\n' ∉ l.1

theorem frameLines_newline {indent : Nat} {f : FrameText} (h : f.OneLine) :
    ∀ line ∈ frameLines indent f, '\n' ∉ line := by
  intro line hline hnewline
  rcases List.mem_cons.mp hline with rfl | hline
  · rcases List.mem_append.mp hnewline with hindent | hname
    · exact absurd (List.eq_of_mem_replicate hindent) (by decide)
    · exact h.name hname
  · cases hf : f.2 with
    | none =>
      rw [hf] at hline
      cases hline
    | some l =>
      rw [hf, Option.map_some, Option.toList_some, List.mem_singleton] at hline
      rw [hline, locationText] at hnewline
      rcases List.mem_append.mp hnewline with hmark | htext
      · exact absurd hmark (by decide)
      · rcases List.mem_append.mp htext with hfile | hnumber
        · exact h.file l hf hfile
        · rcases List.mem_cons.mp hnumber with hcolon | hnumber
          · cases hcolon
          · exact not_mem_formatD (by decide) (by decide) _ hnumber

/-- The lines of one frame, read from behind. -/
theorem readDumpLine_frame (indent : Nat) (f : FrameText) (fs : List DumpedFrame) :
    (frameLines indent f).foldr (readDumpLine indent) (fs, none) = (f.dumped :: fs, none) := by
  have hname : ∀ location, readDumpLine indent (indentation indent ++ f.1) (fs, location) =
      (⟨f.1, location⟩ :: fs, none) := fun location => by
    have hblank : ¬ locationMark <+: indentation indent ++ f.1 := fun h => by
      obtain ⟨n, hn⟩ : ∃ n, max indent 1 = n + 1 := ⟨max indent 1 - 1, by omega⟩
      rw [indentation, hn, List.replicate_succ] at h
      obtain ⟨rest, hrest⟩ := h
      cases hrest
    rw [readDumpLine, if_neg hblank, indentation, List.drop_left' List.length_replicate]
  have hlocation : ∀ l : CString × Nat,
      readDumpLine indent (locationMark ++ locationText l) (fs, none) =
        (fs, some (l.1, toGint l.2)) := fun l => by
    rw [readDumpLine, if_pos (List.prefix_append _ _), List.drop_left, readLocation_text]
  rw [frameLines, List.foldr_cons, FrameText.dumped]
  cases f.2 with
  | none => exact hname none
  | some l =>
    rw [Option.map_some, Option.map_some, Option.toList_some, List.foldr_cons, List.foldr_nil,
      hlocation]
    exact hname _

/-- **The frames of a dump are read back**, with their locations. -/
theorem readDump_frames (indent : Nat) {fs : List FrameText} (h : ∀ f ∈ fs, f.OneLine) :
    readDump indent (Lines.terminated '\n' (fs.flatMap (frameLines indent))) =
      fs.map FrameText.dumped := by
  have hlines : ∀ line ∈ fs.flatMap (frameLines indent), '\n' ∉ line := fun line hline => by
    obtain ⟨f, hf, hline⟩ := List.mem_flatMap.mp hline
    exact frameLines_newline (h f hf) line hline
  have hfold : ∀ fs : List FrameText,
      (fs.flatMap (frameLines indent)).foldr (readDumpLine indent) ([], none) =
        (fs.map FrameText.dumped, none) := fun fs => by
    induction fs with
    | nil => rfl
    | cons f fs ih =>
      rw [List.flatMap_cons, List.foldr_append, ih, readDumpLine_frame, List.map_cons]
  have hdrop : ∀ ls : List CString, (ls.map fun l => l ++ ['\n']).map List.dropLast = ls :=
    fun ls => by simp [Function.comp_def]
  rw [readDump, Lines.split_terminated hlines, hdrop, hfold]

/-- What the callback makes of an entry. -/
def frameText (lineinfo : BacktraceEntry → Option (Option (CString × Nat))) :
    Option BacktraceEntry → Option FrameText
  | none => some (invalidFrame, none)
  | some entry => (lineinfo entry).map fun location => (entry.function, location)

theorem dumpFileCallback_eq (lineinfo : BacktraceEntry → Option (Option (CString × Nat)))
    (indent : Nat) (entry : Option BacktraceEntry) :
    backtraceDumpFileCallback lineinfo indent entry =
      (frameText lineinfo entry).map fun f => Lines.terminated '\n' (frameLines indent f) := by
  cases entry with
  | none =>
    rw [backtraceDumpFileCallback]
    simp [frameText, Lines.terminated, frameLines]
  | some entry =>
    rw [backtraceDumpFileCallback, frameText]
    cases lineinfo entry with
    | none => rfl
    | some location =>
      cases location <;> simp [Lines.terminated, frameLines]

/-! ## The locations -/

section Locations

variable {quarkFromString : CString → Nat} {quarkToString : Nat → CString}

/-- What the debug information says of a row. -/
def LineRow.location (r : LineRow) : CString × Int := (r.source, gintOfLineno r.lineno)

/-- The row that `dw_lookup` takes of a unit: the first above the address, or else the last. -/
def KeptUnit.rowAt (k : KeptUnit) (ptr : Ptr) : Option LineRow :=
  (k.rows.find? fun r => ptr < dwarfAddrToGpointer r.addr).or k.rows.getLast?

/-- The unit that it takes. -/
def unitAt (ks : List KeptUnit) (ptr : Ptr) : Option KeptUnit :=
  ks.find? fun k => dwarfAddrToGpointer k.low ≤ ptr ∧ ptr ≤ dwarfAddrToGpointer k.high

def locationAt (ks : List KeptUnit) (ptr : Ptr) : Option (CString × Int) :=
  (unitAt ks ptr).bind fun k => (k.rowAt ptr).map LineRow.location

/-- What an entry of the handle says. -/
def DwarfEntry.location (quarkToString : Nat → CString) (e : DwarfEntry) : CString × Int :=
  (quarkToString e.source, e.lineno)

theorem loadRows_find (hquark : ∀ s, quarkToString (quarkFromString s) = s) (ptr : Ptr) :
    ∀ (rows : List LineRow) (next : Nat),
      ((loadRows quarkFromString next rows).find? fun e => ptr < e.pointer).map
          (DwarfEntry.location quarkToString) =
        (rows.find? fun r => ptr < dwarfAddrToGpointer r.addr).map LineRow.location
  | [], _ => rfl
  | r :: rows, next => by
    rw [loadRows, List.find?_cons, List.find?_cons]
    by_cases hr : ptr < dwarfAddrToGpointer r.addr
    · simp [hr, DwarfEntry.location, LineRow.location, hquark]
    · simp only [hr, decide_false]
      exact loadRows_find hquark ptr rows (next + 1)

theorem loadRows_getLast (hquark : ∀ s, quarkToString (quarkFromString s) = s) :
    ∀ (rows : List LineRow) (next : Nat),
      (loadRows quarkFromString next rows).getLast?.map (DwarfEntry.location quarkToString) =
        rows.getLast?.map LineRow.location
  | [], _ => rfl
  | [r], next => by simp [loadRows, DwarfEntry.location, LineRow.location, hquark]
  | r :: r' :: rows, next => by
    have ih := loadRows_getLast hquark (r' :: rows) (next + 1)
    rw [loadRows] at ih
    rw [loadRows, loadRows, List.getLast?_cons_cons, List.getLast?_cons_cons]
    exact ih

/-- The entry taken of a unit. -/
def DwarfCompUnit.entryAt (u : DwarfCompUnit) (ptr : Ptr) : Option DwarfEntry :=
  (u.entries.find? fun e => ptr < e.pointer).or u.entries.getLast?

theorem loadUnits_find (hquark : ∀ s, quarkToString (quarkFromString s) = s) (ptr : Ptr) :
    ∀ (ks : List KeptUnit) (next : Nat),
      ((loadUnits quarkFromString next ks).find? fun u => u.lowpc ≤ ptr ∧ ptr ≤ u.highpc).map
          (fun u => (u.entryAt ptr).map (DwarfEntry.location quarkToString)) =
        (unitAt ks ptr).map fun k => (k.rowAt ptr).map LineRow.location
  | [], _ => rfl
  | k :: ks, next => by
    rw [loadUnits, unitAt, List.find?_cons, List.find?_cons]
    by_cases hk : dwarfAddrToGpointer k.low ≤ ptr ∧ ptr ≤ dwarfAddrToGpointer k.high
    · simp only [hk, and_self, decide_true, Option.map_some, DwarfCompUnit.entryAt,
        KeptUnit.rowAt, Option.map_or, loadRows_find hquark, loadRows_getLast hquark]
    · simp only [hk, decide_false]
      exact loadUnits_find hquark ptr ks (next + k.rows.length)

/-- **What the loaded debug information says of an address**, when every unit has a row. -/
theorem lineinfo_eq (hquark : ∀ s, quarkToString (quarkFromString s) = s) {ks : List KeptUnit}
    (hrows : ∀ k ∈ ks, k.rows ≠ []) (name : CString) (next : Nat) (entry : BacktraceEntry) :
    backtraceGetLineinfo quarkToString (some ⟨name, loadUnits quarkFromString next ks⟩) entry =
      some ((locationAt ks entry.ptr).map fun l => (l.1, (l.2 % 2 ^ 32).toNat)) := by
  have hfind := loadUnits_find hquark entry.ptr ks next
  rw [locationAt]
  cases hu : foundUnit ⟨name, loadUnits quarkFromString next ks⟩ entry.ptr with
  | none =>
    have hnull := @dwLookup_none _ _ 0x30 hu
    rw [foundUnit] at hu
    rw [hu, Option.map_none] at hfind
    rw [Option.map_eq_none_iff.mp hfind.symm]
    simp only [backtraceGetLineinfo, hnull]
    rfl
  | some u =>
    have hu' := hu
    rw [foundUnit] at hu'
    rw [hu', Option.map_some] at hfind
    obtain ⟨k, hk, hrow⟩ := Option.map_eq_some_iff.mp hfind.symm
    have hmem : k ∈ ks := List.mem_of_find?_eq_some hk
    cases he : u.entryAt entry.ptr with
    | none =>
      rw [he, Option.map_none, Option.map_eq_none_iff, KeptUnit.rowAt, Option.or_eq_none_iff,
        List.getLast?_eq_none_iff] at hrow
      exact absurd hrow.2 (hrows k hmem)
    | some d =>
      have hentry := @dwLookup_some _ _ 0x30 _ hu _ he
      rw [he] at hrow
      rw [hk, Option.bind_some, hrow]
      simp only [backtraceGetLineinfo, hentry]
      rfl

end Locations

/-! ## From the debug information to the text -/

/-- A number that goes through a `guint32`. -/
theorem toGint_emod (z : Int) : toGint (z % 2 ^ 32).toNat = z.bmod (2 ^ 32) := by
  have hpos : 0 ≤ z % (2 : Int) ^ 32 := Int.emod_nonneg _ (by norm_num)
  unfold toGint
  rw [Int.toNat_of_nonneg hpos]
  exact Int.emod_bmod z (2 ^ 32)

theorem bmod_gintOfLineno (lineno : DwarfUnsigned) :
    (gintOfLineno lineno).bmod (2 ^ 32) = gintOfLineno lineno := by
  unfold gintOfLineno
  exact BitVec.toInt_bmod_cancel _

/-- A location is that of some row. -/
theorem locationAt_row {ks : List KeptUnit} {ptr : Ptr} {l : CString × Int}
    (h : locationAt ks ptr = some l) : ∃ k ∈ ks, ∃ r ∈ k.rows, r.location = l := by
  obtain ⟨k, hk, hrow⟩ := Option.bind_eq_some_iff.mp h
  obtain ⟨r, hr, hl⟩ := Option.map_eq_some_iff.mp hrow
  refine ⟨k, List.mem_of_find?_eq_some hk, r, ?_, hl⟩
  rcases Option.or_eq_some_iff.mp hr with hfind | ⟨-, hlast⟩
  · exact List.mem_of_find?_eq_some hfind
  · exact List.mem_of_getLast? hlast

/-- What `_backtrace_resolve_info` gives for a frame, when `info` is what `dladdr` says of it. -/
def frameEntry (e : Resolver) (info : Ptr → DlInfo) (f : Ptr) : Option BacktraceEntry :=
  if f = NULL then none else some (resolveEntry e (info f) f)

/-- What a dump should say of a frame. -/
def dumpedFrame (e : Resolver) (info : Ptr → DlInfo) (ks : List KeptUnit) (f : Ptr) : DumpedFrame :=
  if f = NULL then ⟨invalidFrame, none⟩
  else ⟨(resolveEntry e (info f) f).function, locationAt ks f⟩

/-- What it writes of a frame. -/
def writtenFrame (e : Resolver) (info : Ptr → DlInfo) (ks : List KeptUnit) (f : Ptr) : FrameText :=
  if f = NULL then (invalidFrame, none)
  else ((resolveEntry e (info f) f).function,
    (locationAt ks f).map fun l => (l.1, (l.2 % 2 ^ 32).toNat))

section Written

variable {e : Resolver} {info : Ptr → DlInfo} {ks : List KeptUnit}

theorem backtraceResolveInfo_eq {f : Ptr} (hdladdr : f ≠ NULL → e.dladdr f = some (info f)) :
    backtraceResolveInfo e f = some (frameEntry e info f) := by
  by_cases hf : f = NULL
  · rw [backtraceResolveInfo, frameEntry, if_pos hf, if_pos hf]
  · rw [backtraceResolveInfo, frameEntry, if_neg hf, if_neg hf, hdladdr hf, Option.map_some]

theorem frameText_eq {quarkFromString : CString → Nat} {quarkToString : Nat → CString}
    (hquark : ∀ s, quarkToString (quarkFromString s) = s) (hrows : ∀ k ∈ ks, k.rows ≠ [])
    (name : CString) (f : Ptr) :
    frameText (backtraceGetLineinfo quarkToString (some ⟨name, loadUnits quarkFromString 1 ks⟩))
      (frameEntry e info f) = some (writtenFrame e info ks f) := by
  by_cases hf : f = NULL
  · simp only [writtenFrame, frameEntry, if_pos hf, frameText]
  · simp only [writtenFrame, frameEntry, if_neg hf, frameText, lineinfo_eq hquark hrows,
      Option.map_some]
    rfl

theorem writtenFrame_dumped (f : Ptr) :
    (writtenFrame e info ks f).dumped = dumpedFrame e info ks f := by
  by_cases hf : f = NULL
  · simp only [writtenFrame, dumpedFrame, if_pos hf, FrameText.dumped, Option.map_none]
  · simp only [writtenFrame, dumpedFrame, if_neg hf, FrameText.dumped, Option.map_map]
    refine congrArg (DumpedFrame.mk _) ((Option.map_congr fun l hl => ?_).trans Option.map_id')
    obtain ⟨k, -, r, -, rfl⟩ := locationAt_row hl
    exact congrArg (Prod.mk r.source) ((toGint_emod _).trans (bmod_gintOfLineno r.lineno))

theorem writtenFrame_oneLine (hfiles : ∀ k ∈ ks, ∀ r ∈ k.rows, '\n' ∉ r.source) {f : Ptr}
    (hname : '\n' ∉ (resolveEntry e (info f) f).function) : (writtenFrame e info ks f).OneLine := by
  by_cases hf : f = NULL
  · rw [writtenFrame, if_pos hf]
    exact ⟨by decide, fun l hl => nomatch hl⟩
  · rw [writtenFrame, if_neg hf]
    refine ⟨hname, fun l hl => ?_⟩
    obtain ⟨l', hl', rfl⟩ := Option.map_eq_some_iff.mp hl
    obtain ⟨k, hk, r, hr, rfl⟩ := locationAt_row hl'
    exact hfiles k hk r hr

end Written

/-- **From the debug information and the call stack to the text, and back**: when `dladdr` knows the
frames, the dump of a backtrace has every frame from `skip` on, with its name and the location of
the row that `dw_lookup` takes. -/
theorem dump_reads_back {quarkFromString : CString → Nat} {quarkToString : Nat → CString}
    {name : CString} {units : List DebugUnit} {h : DwarfHandle}
    (hload : dwNew quarkFromString name (debugReport units) = some (some h))
    (hquark : ∀ s, quarkToString (quarkFromString s) = s)
    (hrows : ∀ k ∈ units.filterMap DebugUnit.kept, k.rows ≠ []) {e : Resolver}
    {info : Ptr → DlInfo} {stack : List Ptr}
    (hdladdr : ∀ f ∈ stack, f ≠ NULL → e.dladdr f = some (info f))
    (hnames : ∀ f ∈ stack, '\n' ∉ (resolveEntry e (info f) f).function)
    (hfiles : ∀ k ∈ units.filterMap DebugUnit.kept, ∀ r ∈ k.rows, '\n' ∉ r.source)
    (depth skip indent : Nat) :
    ∃ text, backtraceDumpFile e (backtraceGetLineinfo quarkToString (some h))
        (backtraceCreateDepth stack depth skip).1 indent = some text ∧
      readDump indent text = ((stack.take MAX_DEPTH).drop skip).map
        (dumpedFrame e info (units.filterMap DebugUnit.kept)) := by
  generalize hks : units.filterMap DebugUnit.kept = ks at hrows hfiles ⊢
  have hhandle : h = ⟨name, loadUnits quarkFromString 1 ks⟩ := by
    rw [dwNew_debugReport, hks] at hload
    split at hload
    · exact (Option.some.inj (Option.some.inj hload)).symm
    · cases hload
  subst hhandle
  have hkept : (backtraceCreateDepth stack depth skip).1 =
      (backtraceCreateDepth (stack.take MAX_DEPTH) depth skip).1 := by
    simp only [backtraceCreateDepth, List.take_take, min_self]
  have hmem : ∀ f ∈ (stack.take MAX_DEPTH).drop skip, f ∈ stack := fun f hf =>
    List.mem_of_mem_take (List.mem_of_mem_drop hf)
  have hdump : backtraceDump e (backtraceCreateDepth (stack.take MAX_DEPTH) depth skip).1 =
      some (((stack.take MAX_DEPTH).drop skip).map (frameEntry e info)) := by
    rw [backtraceDump_eq e (List.length_take_le MAX_DEPTH stack),
      mapM_eq_some fun f hf => backtraceResolveInfo_eq (hdladdr f (hmem f hf))]
  have hwritten : (((stack.take MAX_DEPTH).drop skip).map (frameEntry e info)).mapM
      (backtraceDumpFileCallback (backtraceGetLineinfo quarkToString
        (some ⟨name, loadUnits quarkFromString 1 ks⟩)) indent) =
      some (((stack.take MAX_DEPTH).drop skip).map fun f =>
        Lines.terminated '\n' (frameLines indent (writtenFrame e info ks f))) := by
    rw [List.mapM_map]
    refine mapM_eq_some fun f _ => ?_
    rw [Function.comp_apply, dumpFileCallback_eq, frameText_eq hquark hrows, Option.map_some]
  refine ⟨Lines.terminated '\n' ((((stack.take MAX_DEPTH).drop skip).map
    (writtenFrame e info ks)).flatMap (frameLines indent)), ?_, ?_⟩
  · rw [backtraceDumpFile, hkept, hdump]
    simp only [Option.bind_eq_bind, Option.bind_some, hwritten]
    simp only [Lines.terminated, ← List.flatMap_def, List.flatMap_assoc, List.flatMap_map]
  · have honeLine : ∀ f ∈ ((stack.take MAX_DEPTH).drop skip).map (writtenFrame e info ks),
        f.OneLine := fun f hf => by
      obtain ⟨a, ha, rfl⟩ := List.mem_map.mp hf
      exact writtenFrame_oneLine hfiles (hnames a (hmem a ha))
    rw [readDump_frames indent honeLine, List.map_map]
    exact List.map_congr_left fun f _ => writtenFrame_dumped f

/-- The quark of a string, and the string of a quark. -/
def encodedQuark (s : CString) : Nat := Encodable.encode (s.map Char.toNat)

def decodedQuark (n : Nat) : CString :=
  (((Encodable.decode n : Option (List Nat)).getD []).map Char.ofNat)

/-- A function from 16 to 31, with two rows. -/
def twoRows : List DebugUnit :=
  [⟨some [⟨"a:b.c".toList, 16, 3⟩, ⟨"a:b.c".toList, 24, 4⟩], some 16, some 32⟩]

theorem dump_reads_back_two :
    ∃ h, dwNew encodedQuark [] (debugReport twoRows) = some (some h) ∧
      ∃ text, backtraceDumpFile addressResolver (backtraceGetLineinfo decodedQuark (some h))
          (backtraceCreateDepth [1, 20, 40, 0] 2 1).1 4 = some text ∧
        readDump 4 text =
          [⟨['f'], some ("a:b.c".toList, 4)⟩, ⟨['f'], none⟩, ⟨invalidFrame, none⟩] :=
  ⟨_, (dwNew_debugReport _ _).trans (if_pos (by decide)),
    dump_reads_back ((dwNew_debugReport [] twoRows).trans (if_pos (by decide)))
      (fun s => by simp [encodedQuark, decodedQuark, Function.comp_def]) (by decide)
      (fun f _ _ => (rfl : addressResolver.dladdr f = some (addressInfo f))) (by decide)
      (by decide) 2 1 4⟩

/-! ## The tag of a backtrace -/

/-- The loop of `msg_tag_trace`. -/
def msgTagTraceLoop (e : Resolver) (trace : Backtrace) : Nat → Nat → CString → Option CString
  | _, 0, str => some str
  | i, n + 1, str => do
    let symbol ← trace.symbols[i]?
    let entry ← backtraceResolveInfo e symbol
    match entry with
    | some entry => msgTagTraceLoop e trace (i + 1) n (str ++ (entry.function ++ [',', ' ']))
    | none => msgTagTraceLoop e trace (i + 1) n (str ++ ['?', '?', '?', ',', ' '])

/-- `msg_tag_trace`; the length is a `gsize`, also that of no text. -/
def msgTagTrace (e : Resolver) (tag : CString) (trace : Backtrace) : Option MessageTag := do
  let str ← msgTagTraceLoop e trace 0 trace.length []
  some ⟨tag, str.take ((str.length + (gsizeRange - 2)) % gsizeRange)⟩

/-- What the tag says of a frame. -/
def tracedName (e : Resolver) (info : Ptr → DlInfo) (f : Ptr) : CString :=
  if f = NULL then ['?', '?', '?'] else (resolveEntry e (info f) f).function

theorem msgTagTraceLoop_eq {e : Resolver} {info : Ptr → DlInfo} {trace : Backtrace}
    (hdladdr : ∀ f ∈ trace.symbols, f ≠ NULL → e.dladdr f = some (info f)) :
    ∀ (n i : Nat) (str : CString), i + n = trace.symbols.length →
      msgTagTraceLoop e trace i n str = some (str ++
        ((trace.symbols.drop i).map (tracedName e info)).flatMap fun name => name ++ [',', ' '])
  | 0, i, str, hn => by
    rw [List.drop_eq_nil_of_le (by omega)]
    simp [msgTagTraceLoop]
  | n + 1, i, str, hn => by
    have hi : i < trace.symbols.length := by omega
    have hrest := fun str => msgTagTraceLoop_eq hdladdr n (i + 1) str (by omega)
    rw [msgTagTraceLoop, List.getElem?_eq_getElem hi, List.drop_eq_getElem_cons hi, List.map_cons,
      List.flatMap_cons, Option.bind_eq_bind, Option.bind_some, Option.bind_eq_bind,
      backtraceResolveInfo_eq (hdladdr _ (List.getElem_mem hi)), Option.bind_some, tracedName,
      frameEntry]
    by_cases hnull : trace.symbols[i] = NULL
    · rw [if_pos hnull, if_pos hnull]
      exact (hrest _).trans (by rw [List.append_assoc]; rfl)
    · rw [if_neg hnull, if_neg hnull]
      exact (hrest _).trans (by rw [List.append_assoc])

/-- The last separator is cut off; no text stays as it is. -/
theorem take_joined {names : List CString}
    (hfits : (names.flatMap fun name => name ++ [',', ' ']).length < gsizeRange) :
    (names.flatMap fun name => name ++ [',', ' ']).take
        (((names.flatMap fun name => name ++ [',', ' ']).length + (gsizeRange - 2)) % gsizeRange) =
      Joined.joined ',' ' ' names := by
  cases names with
  | nil => exact List.take_nil
  | cons name names =>
    have hsep := @Joined.flatMap_append_sep Char ',' ' ' (name :: names) (List.cons_ne_nil _ _)
    rw [hsep] at hfits ⊢
    have hlen : (Joined.joined ',' ' ' (name :: names) ++ [',', ' ']).length =
        (Joined.joined ',' ' ' (name :: names)).length + 2 := List.length_append
    rw [hlen] at hfits ⊢
    have hcut : ((Joined.joined ',' ' ' (name :: names)).length + 2 + (gsizeRange - 2)) %
        gsizeRange = (Joined.joined ',' ' ' (name :: names)).length := by
      have hrange : 2 ≤ gsizeRange := by decide
      have hsum : (Joined.joined ',' ' ' (name :: names)).length + 2 + (gsizeRange - 2) =
          (Joined.joined ',' ' ' (name :: names)).length + gsizeRange := by omega
      rw [hsum, Nat.add_mod_right, Nat.mod_eq_of_lt (by omega)]
    rw [hcut, List.take_left]

/-- **The tag of a backtrace** has the names of the frames, joined, when `dladdr` knows the frames;
they are read back exactly when no name has a comma and a blank in it, as those of functions with
two parameters do. -/
theorem msgTagTrace_reads_back {e : Resolver} {info : Ptr → DlInfo} {stack : List Ptr}
    (hdladdr : ∀ f ∈ stack, f ≠ NULL → e.dladdr f = some (info f)) (tag : CString)
    (depth skip : Nat) {names : List CString}
    (hnames : names = ((stack.take MAX_DEPTH).drop skip).map (tracedName e info))
    (hfits : (names.flatMap fun name => name ++ [',', ' ']).length < gsizeRange) :
    ∃ value, msgTagTrace e tag (backtraceCreateDepth stack depth skip).1 = some ⟨tag, value⟩ ∧
      value = Joined.joined ',' ' ' names ∧
      (names ≠ [] → (Joined.split ',' ' ' value = names ↔ ∀ n ∈ names, ¬ [',', ' '] <:+: n)) := by
  have hkept : (backtraceCreateDepth stack depth skip).1 =
      ⟨1, (stack.take MAX_DEPTH).length - skip, (stack.take MAX_DEPTH).drop skip⟩ := by
    rw [← backtraceCreateDepth_eq (List.length_take_le MAX_DEPTH stack) depth skip]
    simp only [backtraceCreateDepth, List.take_take, min_self]
  have hsymbols : ∀ f ∈ (stack.take MAX_DEPTH).drop skip, f ≠ NULL →
      e.dladdr f = some (info f) := fun f hf =>
    hdladdr f (List.mem_of_mem_take (List.mem_of_mem_drop hf))
  refine ⟨_, ?_, rfl, fun hne => Joined.split_joined_iff (by decide) hne⟩
  rw [hkept, msgTagTrace, msgTagTraceLoop_eq hsymbols _ 0 [] (by simp), List.drop_zero, ← hnames,
    List.nil_append, Option.bind_eq_bind, Option.bind_some, take_joined hfits]

/-- Two functions, one of them with two parameters. -/
def overloadInfo (addr : Ptr) : DlInfo :=
  ⟨none, some (if addr = 1 then "f(int, int)".toList else ['g']), addr⟩

def overloadResolver : Resolver :=
  ⟨fun addr => if addr ≤ 2 then some (overloadInfo addr) else none, id, fun _ => none⟩

theorem msgTagTrace_reads_back_two :
    ∃ value, msgTagTrace overloadResolver "trace" (backtraceCreateDepth [2, 1] 4096 0).1 =
        some ⟨"trace", value⟩ ∧
      value = Joined.joined ',' ' ' [['g'], "f(int, int)".toList] ∧
      ([['g'], "f(int, int)".toList] ≠ [] →
        (Joined.split ',' ' ' value = [['g'], "f(int, int)".toList] ↔
          ∀ n ∈ [['g'], "f(int, int)".toList], ¬ [',', ' '] <:+: n)) :=
  msgTagTrace_reads_back (show ∀ f ∈ [2, 1], f ≠ NULL →
    overloadResolver.dladdr f = some (overloadInfo f) by decide) "trace" 4096 0 rfl (by decide)

end Tinu
