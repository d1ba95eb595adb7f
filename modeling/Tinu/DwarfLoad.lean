import Tinu.Dwarf

/-!
# Loading debug information (`dwarf.c`)

`libdwarf` is what it reports: the compilation units of a file, each with the answers to the calls
that `_dw_process_unit` makes.  `DebugUnit` is a unit reported without an error.

* `dwarfAddrToGpointer_eq_iff` — the addresses that the conversion keeps;
* `dwUnits_eq` — what the two loops build from a report without errors;
* `dwNew_loaded_iff` — the handle is the debug information exactly when the conversion keeps every
  address, and no unit has more rows than a `gint` counts;
* `loaded_wf` — then `dw_lookup` gets a handle as it needs it.
-/

set_option autoImplicit false

namespace Tinu

/-! ## What `libdwarf` reports -/

/-- A `Dwarf_Addr` or a `Dwarf_Unsigned`. -/
abbrev DwarfUnsigned := BitVec 64

/-- The answer to a call: `DW_DLV_OK`, `DW_DLV_NO_ENTRY` or `DW_DLV_ERROR`. -/
inductive DwarfRet (α : Type) where
  | ok (value : α)
  | noEntry
  | error
  deriving DecidableEq, Repr

/-- The calls about one line. -/
structure LineReport where
  linesrc : DwarfRet CString
  lineaddr : DwarfRet DwarfUnsigned
  lineno : DwarfRet DwarfUnsigned
  deriving DecidableEq, Repr

/-- The calls about one compilation unit. -/
structure UnitReport where
  siblingof : DwarfRet Unit
  srclines : DwarfRet (List LineReport)
  lowpc : DwarfRet DwarfUnsigned
  highpc : DwarfRet DwarfUnsigned
  deriving DecidableEq, Repr

/-- The calls about a file; `last` is the answer of `dwarf_next_cu_header` after the last unit. -/
structure FileReport where
  opened : Bool
  init : DwarfRet Unit
  units : List UnitReport
  last : DwarfRet Unit
  deriving DecidableEq, Repr

/-! ## The functions of `dwarf.c` -/

/-- `DWARF_ADDR_TO_GPOINTER`: by way of an `int`. -/
def dwarfAddrToGpointer (addr : DwarfUnsigned) : Ptr := ((addr.setWidth 32).signExtend 64).toNat

/-- `(gint)lineno`. -/
def gintOfLineno (lineno : DwarfUnsigned) : Int := (lineno.setWidth 32).toInt

section Load

variable (quarkFromString : CString → Nat)

/-- The loop of `_dw_process_unit`: without a value when an answer is not `DW_DLV_OK`, and without a
result when `i` leaves `gint`.  `next` is the next address to allocate at. -/
def dwProcessLines : List LineReport → Nat → Nat → List DwarfEntry →
    Option (Option (List DwarfEntry × Nat))
  | [], _, next, entries => some (some (entries, next))
  | line :: lines, i, next, entries =>
    match line.linesrc, line.lineaddr, line.lineno with
    | .ok filename, .ok lineaddr, .ok lineno =>
      let entry := ⟨next, quarkFromString filename, dwarfAddrToGpointer lineaddr,
        gintOfLineno lineno⟩
      if i + 1 < gintLimit then dwProcessLines lines (i + 1) (next + 1) (entries ++ [entry])
      else none
    | _, _, _ => some none

/-- `_dw_process_unit`: what it returns, and the unit. -/
def dwProcessUnit (unit : UnitReport) (next : Nat) :
    Option (Bool × Option DwarfCompUnit × Nat) :=
  match unit.srclines with
  | .noEntry => some (true, none, next)
  | .error => some (false, none, next)
  | .ok lines =>
    match unit.lowpc with
    | .noEntry => some (true, none, next)
    | .error => some (false, none, next)
    | .ok low =>
      match unit.highpc with
      | .noEntry => some (true, none, next)
      | .error => some (false, none, next)
      | .ok high =>
        match dwProcessLines quarkFromString lines 0 next [] with
        | none => none
        | some none => some (false, none, next)
        | some (some (entries, next)) =>
          some (true, some ⟨entries, dwarfAddrToGpointer low, dwarfAddrToGpointer high⟩, next)

/-- The loop of `dw_new`. -/
def dwUnits : List UnitReport → Nat → List DwarfCompUnit → Option (Option (List DwarfCompUnit))
  | [], _, units => some (some units)
  | unit :: rest, next, units =>
    match unit.siblingof with
    | .ok _ =>
      match dwProcessUnit quarkFromString unit next with
      | none => none
      | some (false, _, _) => some none
      | some (true, none, next) => dwUnits rest next units
      | some (true, some u, next) => dwUnits rest next (units ++ [u])
    | _ => some none

/-- `dw_new`; the inner `none` is `NULL`. -/
def dwNew (name : CString) (file : FileReport) : Option (Option DwarfHandle) :=
  if ¬ file.opened then some none
  else
    match file.init with
    | .error => some none
    | .noEntry => some (some ⟨name, []⟩)
    | .ok _ =>
      match dwUnits quarkFromString file.units 1 [] with
      | none => none
      | some none => some none
      | some (some units) =>
        match file.last with
        | .error => some none
        | _ => some (some ⟨name, units⟩)

end Load

/-! ## Reports without errors -/

/-- A row of a line table. -/
structure LineRow where
  source : CString
  addr : DwarfUnsigned
  lineno : DwarfUnsigned
  deriving DecidableEq, Repr

/-- A compilation unit, with what it has of lines and bounds. -/
structure DebugUnit where
  lines : Option (List LineRow)
  low : Option DwarfUnsigned
  high : Option DwarfUnsigned
  deriving DecidableEq, Repr

/-- A unit that has all of them. -/
structure KeptUnit where
  rows : List LineRow
  low : DwarfUnsigned
  high : DwarfUnsigned
  deriving DecidableEq, Repr

def DebugUnit.kept : DebugUnit → Option KeptUnit
  | ⟨some rows, some low, some high⟩ => some ⟨rows, low, high⟩
  | _ => none

def DwarfRet.ofOption {α : Type} : Option α → DwarfRet α
  | some value => .ok value
  | none => .noEntry

def LineRow.report (row : LineRow) : LineReport := ⟨.ok row.source, .ok row.addr, .ok row.lineno⟩

def DebugUnit.report (u : DebugUnit) : UnitReport :=
  ⟨.ok (), .ofOption (u.lines.map fun rows => rows.map LineRow.report), .ofOption u.low,
    .ofOption u.high⟩

/-- A file with the units, reported without an error. -/
def debugReport (units : List DebugUnit) : FileReport :=
  ⟨true, .ok (), units.map DebugUnit.report, .noEntry⟩

/-- The unit was loaded: its bounds and its rows, with their addresses as numbers. -/
structure UnitLoaded (quarkFromString : CString → Nat) (k : KeptUnit) (u : DwarfCompUnit) :
    Prop where
  lowpc : u.lowpc = k.low.toNat
  highpc : u.highpc = k.high.toNat
  entries : List.Forall₂ (fun row e => e.source = quarkFromString row.source ∧
    e.pointer = row.addr.toNat) k.rows u.entries

/-- `dw_new` gives a handle with the units that have lines and bounds, in order. -/
def Loaded (quarkFromString : CString → Nat) (units : List DebugUnit)
    (res : Option (Option DwarfHandle)) : Prop :=
  ∃ h, res = some (some h) ∧
    List.Forall₂ (UnitLoaded quarkFromString) (units.filterMap DebugUnit.kept) h.entries

/-! ## The conversion -/

/-- The address is that of its low 32 bits, with their sign. -/
def FitsInt (addr : DwarfUnsigned) : Prop := addr.toNat < 2 ^ 31 ∨ 2 ^ 64 - 2 ^ 31 ≤ addr.toNat

instance (addr : DwarfUnsigned) : Decidable (FitsInt addr) :=
  inferInstanceAs (Decidable (_ ∨ _))

theorem signExtend_setWidth_iff (a : BitVec 64) :
    ((a.setWidth 32).signExtend 64).toNat = a.toNat ↔
      a.toNat < 2 ^ 31 ∨ 2 ^ 64 - 2 ^ 31 ≤ a.toNat := by
  have hlt := a.isLt
  rw [BitVec.toNat_signExtend, BitVec.toNat_setWidth, BitVec.toNat_setWidth,
    BitVec.msb_eq_decide, BitVec.toNat_setWidth]
  by_cases hmsb : 2 ^ 31 ≤ a.toNat % 2 ^ 32
  · simp only [Nat.reducePow, Nat.reduceSub, decide_eq_true_eq] at *
    rw [if_pos hmsb]
    omega
  · simp only [Nat.reducePow, Nat.reduceSub, decide_eq_true_eq] at *
    rw [if_neg hmsb]
    omega

/-- **The conversion keeps the addresses of the lowest and of the highest 2 GiB**, and no other. -/
theorem dwarfAddrToGpointer_eq_iff (addr : DwarfUnsigned) :
    dwarfAddrToGpointer addr = addr.toNat ↔ FitsInt addr := signExtend_setWidth_iff addr

/-! ## The loops -/

section Loops

variable (quarkFromString : CString → Nat)

/-- The entries of rows, allocated from an address on. -/
def loadRows : Nat → List LineRow → List DwarfEntry
  | _, [] => []
  | next, row :: rows =>
    ⟨next, quarkFromString row.source, dwarfAddrToGpointer row.addr, gintOfLineno row.lineno⟩ ::
      loadRows (next + 1) rows

def loadUnits : Nat → List KeptUnit → List DwarfCompUnit
  | _, [] => []
  | next, k :: ks =>
    ⟨loadRows quarkFromString next k.rows, dwarfAddrToGpointer k.low, dwarfAddrToGpointer k.high⟩ ::
      loadUnits (next + k.rows.length) ks

variable {quarkFromString}

/-- The loop over the lines, as far as `i` goes. -/
theorem dwProcessLines_eq :
    ∀ (rows : List LineRow) {i : Nat} (next : Nat) (entries : List DwarfEntry), i < gintLimit →
      dwProcessLines quarkFromString (rows.map LineRow.report) i next entries =
        if i + rows.length < gintLimit then
          some (some (entries ++ loadRows quarkFromString next rows, next + rows.length))
        else none
  | [], i, next, entries, hi => by
    rw [List.length_nil, Nat.add_zero, if_pos hi]
    simp [dwProcessLines, loadRows]
  | row :: rows, i, next, entries, hi => by
    have hsum : i + 1 + rows.length = i + (row :: rows).length := by
      rw [List.length_cons]
      omega
    rw [List.map_cons, dwProcessLines, LineRow.report]
    simp only
    by_cases hnext : i + 1 < gintLimit
    · rw [if_pos hnext, dwProcessLines_eq rows (next + 1) _ hnext, hsum]
      have hcells : next + 1 + rows.length = next + (row :: rows).length := by
        rw [List.length_cons]
        omega
      rw [hcells, List.append_assoc]
      rfl
    · rw [if_neg hnext, if_neg (by omega)]

/-- The rows of the units are few enough for the counter. -/
def RowsFit (k : KeptUnit) : Prop := k.rows.length < gintLimit

instance (k : KeptUnit) : Decidable (RowsFit k) := inferInstanceAs (Decidable (_ < _))

/-- One unit: skipped, loaded, or without a result. -/
theorem dwProcessUnit_eq (u : DebugUnit) (next : Nat) :
    (u.kept = none → dwProcessUnit quarkFromString u.report next = some (true, none, next)) ∧
      ∀ k, u.kept = some k → dwProcessUnit quarkFromString u.report next =
        if RowsFit k then
          some (true, some ⟨loadRows quarkFromString next k.rows, dwarfAddrToGpointer k.low,
            dwarfAddrToGpointer k.high⟩, next + k.rows.length)
        else none := by
  obtain ⟨lines, low, high⟩ := u
  cases lines with
  | none => exact ⟨fun _ => rfl, fun k hk => nomatch hk⟩
  | some rows =>
    cases low with
    | none => exact ⟨fun _ => rfl, fun k hk => nomatch hk⟩
    | some low =>
      cases high with
      | none => exact ⟨fun _ => rfl, fun k hk => nomatch hk⟩
      | some high =>
        refine ⟨fun hk => (nomatch hk), fun k hk => ?_⟩
        obtain rfl := Option.some.inj hk
        have hlines := @dwProcessLines_eq quarkFromString rows 0 next [] (by decide)
        rw [Nat.zero_add, List.nil_append] at hlines
        by_cases hlen : rows.length < gintLimit
        · have hfit : RowsFit ⟨rows, low, high⟩ := hlen
          rw [if_pos hlen] at hlines
          rw [if_pos hfit]
          simp only [dwProcessUnit, DebugUnit.report, DwarfRet.ofOption, Option.map_some, hlines]
        · have hfit : ¬ RowsFit ⟨rows, low, high⟩ := hlen
          rw [if_neg hlen] at hlines
          rw [if_neg hfit]
          simp only [dwProcessUnit, DebugUnit.report, DwarfRet.ofOption, Option.map_some, hlines]

/-- **The loop over the units** builds those that have lines and bounds, in order. -/
theorem dwUnits_eq :
    ∀ (units : List DebugUnit) (next : Nat) (acc : List DwarfCompUnit),
      dwUnits quarkFromString (units.map DebugUnit.report) next acc =
        if ∀ k ∈ units.filterMap DebugUnit.kept, RowsFit k then
          some (some (acc ++ loadUnits quarkFromString next (units.filterMap DebugUnit.kept)))
        else none
  | [], next, acc => by simp [dwUnits, loadUnits]
  | u :: units, next, acc => by
    obtain ⟨hskip, hload⟩ := @dwProcessUnit_eq quarkFromString u next
    have hsibling : u.report.siblingof = .ok () := rfl
    rw [List.map_cons, dwUnits, hsibling]
    simp only
    cases hk : u.kept with
    | none =>
      rw [hskip hk, List.filterMap_cons_none hk]
      exact dwUnits_eq units next acc
    | some k =>
      rw [hload k hk, List.filterMap_cons_some hk]
      by_cases hfit : RowsFit k
      · rw [if_pos hfit]
        simp only [List.forall_mem_cons, hfit, true_and]
        rw [dwUnits_eq units (next + k.rows.length), List.append_assoc]
        rfl
      · rw [if_neg hfit, if_neg fun hall => hfit (hall k List.mem_cons_self)]

theorem dwNew_debugReport (name : CString) (units : List DebugUnit) :
    dwNew quarkFromString name (debugReport units) =
      if ∀ k ∈ units.filterMap DebugUnit.kept, RowsFit k then
        some (some ⟨name, loadUnits quarkFromString 1 (units.filterMap DebugUnit.kept)⟩)
      else none := by
  have hopened : (debugReport units).opened = true := rfl
  have hinit : (debugReport units).init = .ok () := rfl
  have hunits := @dwUnits_eq quarkFromString units 1 []
  rw [List.nil_append] at hunits
  rw [dwNew, hopened, hinit]
  by_cases hfit : ∀ k ∈ units.filterMap DebugUnit.kept, RowsFit k
  · rw [if_pos hfit] at hunits ⊢
    simp only [not_true_eq_false, if_false, debugReport, hunits]
  · rw [if_neg hfit] at hunits ⊢
    simp only [not_true_eq_false, if_false, debugReport, hunits]

end Loops

/-! ## What loading is for -/

theorem loadRows_iff {quarkFromString : CString → Nat} (next : Nat) (rows : List LineRow) :
    List.Forall₂ (fun row e => e.source = quarkFromString row.source ∧
        e.pointer = row.addr.toNat) rows (loadRows quarkFromString next rows) ↔
      ∀ row ∈ rows, FitsInt row.addr := by
  induction rows generalizing next with
  | nil => simp [loadRows]
  | cons row rows ih =>
    rw [loadRows, List.forall₂_cons, ih, List.forall_mem_cons]
    simp only [true_and, dwarfAddrToGpointer_eq_iff]

/-- The conversion keeps the addresses of the unit. -/
def AddrsFit (k : KeptUnit) : Prop :=
  FitsInt k.low ∧ FitsInt k.high ∧ ∀ row ∈ k.rows, FitsInt row.addr

theorem loadUnits_iff {quarkFromString : CString → Nat} (next : Nat) (ks : List KeptUnit) :
    List.Forall₂ (UnitLoaded quarkFromString) ks (loadUnits quarkFromString next ks) ↔
      ∀ k ∈ ks, AddrsFit k := by
  induction ks generalizing next with
  | nil => simp [loadUnits]
  | cons k ks ih =>
    rw [loadUnits, List.forall₂_cons, ih, List.forall_mem_cons]
    refine and_congr_left fun _ => ?_
    constructor
    · rintro ⟨hlow, hhigh, hrows⟩
      exact ⟨(dwarfAddrToGpointer_eq_iff _).mp hlow, (dwarfAddrToGpointer_eq_iff _).mp hhigh,
        (loadRows_iff next k.rows).mp hrows⟩
    · rintro ⟨hlow, hhigh, hrows⟩
      exact ⟨(dwarfAddrToGpointer_eq_iff _).mpr hlow, (dwarfAddrToGpointer_eq_iff _).mpr hhigh,
        (loadRows_iff next k.rows).mpr hrows⟩

/-- **The handle is the debug information exactly when** the conversion keeps every address of the
units that have lines and bounds, and a `gint` counts the rows of each. -/
theorem dwNew_loaded_iff (quarkFromString : CString → Nat) (name : CString)
    (units : List DebugUnit) :
    Loaded quarkFromString units (dwNew quarkFromString name (debugReport units)) ↔
      ∀ k ∈ units.filterMap DebugUnit.kept, AddrsFit k ∧ RowsFit k := by
  rw [dwNew_debugReport]
  constructor
  · rintro ⟨h, hres, hloaded⟩
    by_cases hfit : ∀ k ∈ units.filterMap DebugUnit.kept, RowsFit k
    · rw [if_pos hfit] at hres
      obtain rfl := Option.some.inj (Option.some.inj hres)
      exact fun k hk => ⟨(loadUnits_iff 1 _).mp hloaded k hk, hfit k hk⟩
    · rw [if_neg hfit] at hres
      cases hres
  · intro hall
    rw [if_pos fun k hk => (hall k hk).2]
    exact ⟨_, rfl, (loadUnits_iff 1 _).mpr fun k hk => (hall k hk).1⟩

/-- A unit that begins at 2 GiB. -/
def highUnit : DebugUnit := ⟨some [⟨"a.c".toList, 2 ^ 31, 1⟩], some (2 ^ 31), some (2 ^ 31 + 16)⟩

/-- Such a unit is loaded at other addresses. -/
theorem dwNew_moved :
    ¬ ∀ (quarkFromString : CString → Nat) (name : CString) (units : List DebugUnit),
      Loaded quarkFromString units (dwNew quarkFromString name (debugReport units)) := by
  intro hall
  have hfit := (dwNew_loaded_iff _ _ _).mp (hall (fun _ => 0) [] [highUnit])
  exact absurd (hfit ⟨[⟨"a.c".toList, 2 ^ 31, 1⟩], 2 ^ 31, 2 ^ 31 + 16⟩ (by decide)).1.1 (by decide)

/-! ## What loading is for the lookup -/

theorem loadRows_addrs {quarkFromString : CString → Nat} (next : Nat) (rows : List LineRow) :
    (loadRows quarkFromString next rows).map DwarfEntry.addr = List.range' next rows.length := by
  induction rows generalizing next with
  | nil => rfl
  | cons row rows ih =>
    rw [loadRows, List.map_cons, ih, List.length_cons, List.range'_succ]

theorem loadUnits_addrs {quarkFromString : CString → Nat} (next : Nat) (ks : List KeptUnit) :
    ∃ n, ((loadUnits quarkFromString next ks).flatMap DwarfCompUnit.entries).map DwarfEntry.addr =
      List.range' next n := by
  induction ks generalizing next with
  | nil => exact ⟨0, rfl⟩
  | cons k ks ih =>
    obtain ⟨n, hn⟩ := ih (next + k.rows.length)
    refine ⟨k.rows.length + n, ?_⟩
    rw [loadUnits, List.flatMap_cons, List.map_append, loadRows_addrs, hn, List.range'_append_1]

/-- The ranges of debug information are disjoint, and its line tables sorted. -/
structure DebugWf (ks : List KeptUnit) : Prop where
  disjoint : ks.Pairwise fun k k' => ∀ ptr : Nat,
    ¬ ((k.low.toNat ≤ ptr ∧ ptr < k.high.toNat) ∧ (k'.low.toNat ≤ ptr ∧ ptr < k'.high.toNat))
  sorted : ∀ k ∈ ks, k.rows.Pairwise fun row row' => row.addr.toNat ≤ row'.addr.toNat

/-- What relates the members of one list relates their counterparts. -/
theorem forall₂_pairwise {α β : Type} {P : α → β → Prop} {R : α → α → Prop} {S : β → β → Prop}
    (hRS : ∀ {a a' b b'}, P a b → P a' b' → R a a' → S b b') {l : List α} {l' : List β}
    (hl : List.Forall₂ P l l') (hR : l.Pairwise R) : l'.Pairwise S := by
  induction hl with
  | nil => exact List.Pairwise.nil
  | @cons a b l l' hab hl ih =>
    obtain ⟨ha, hrest⟩ := List.pairwise_cons.mp hR
    refine List.pairwise_cons.mpr ⟨fun b' hb' => ?_, ih hrest⟩
    obtain ⟨i, hi, rfl⟩ := List.mem_iff_getElem.mp hb'
    have hlt : i < l.length := hl.length_eq ▸ hi
    exact hRS hab (hl.get hlt hi) (ha _ (List.getElem_mem hlt))

theorem forall₂_right {α β : Type} {P : α → β → Prop} {l : List α} {l' : List β}
    (hl : List.Forall₂ P l l') {b : β} (hb : b ∈ l') : ∃ a ∈ l, P a b := by
  obtain ⟨i, hi, rfl⟩ := List.mem_iff_getElem.mp hb
  have hlt : i < l.length := hl.length_eq ▸ hi
  exact ⟨l[i], List.getElem_mem hlt, hl.get hlt hi⟩

/-- **Debug information that is loaded as it is makes a handle as `dw_lookup` needs it.** -/
theorem loaded_wf {quarkFromString : CString → Nat} {name : CString} {units : List DebugUnit}
    (hwf : DebugWf (units.filterMap DebugUnit.kept))
    (hfit : ∀ k ∈ units.filterMap DebugUnit.kept, AddrsFit k ∧ RowsFit k) :
    ∃ h, dwNew quarkFromString name (debugReport units) = some (some h) ∧ HandleWf h := by
  have hloaded := (@loadUnits_iff quarkFromString 1 _).mpr
    fun k hk => (hfit k hk).1
  refine ⟨⟨name, loadUnits quarkFromString 1 (units.filterMap DebugUnit.kept)⟩, ?_, ?_, ?_, ?_⟩
  · rw [dwNew_debugReport, if_pos fun k hk => (hfit k hk).2]
  · refine forall₂_pairwise (fun hu hv hdisj ptr hc => hdisj ptr ?_) hloaded hwf.disjoint
    simp only [DwarfCompUnit.contains, hu.lowpc, hu.highpc, hv.lowpc, hv.highpc] at hc
    exact hc
  · intro u hu
    obtain ⟨k, hk, hku⟩ := forall₂_right hloaded hu
    refine forall₂_pairwise (fun he he' hle => ?_) hku.entries (hwf.sorted k hk)
    rw [he.2, he'.2]
    exact hle
  · obtain ⟨n, hn⟩ := @loadUnits_addrs quarkFromString 1
      (units.filterMap DebugUnit.kept)
    show (((loadUnits quarkFromString 1 (units.filterMap DebugUnit.kept)).flatMap
      DwarfCompUnit.entries).map DwarfEntry.addr).Nodup
    rw [hn]
    exact List.nodup_range'

end Tinu
