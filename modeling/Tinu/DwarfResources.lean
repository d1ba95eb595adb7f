import Tinu.DwarfLoad
import Tinu.Lib.Ledger

/-!
# The resources of the debug information (`dwarf.c`, `backtrace.c`)

`dw_new` and `dw_destroy` as the blocks and the objects of `libdwarf` that they take and give back.
A block is named by what it is for, the `i`-th header of the file and the `j`-th line of its unit.
`dwarf_finish` gives back every object of the file that is still there.  The errors of `libdwarf`
are not followed.  There is no result where a value is handed on that was not set, or a `NULL` to
`dwarf_finish`, of which nothing is known.

* `dwNewEvents_result` — the events belong to the load of `dwNew`;
* `unitsEvents_isSome`, `dwNewEvents_isSome` — when there is a result;
* `unitEvents_takes`, `unitsEvents_takes` — what one unit, and all of them, leave;
* `dwNew_takes`, `dwDestroy_takes` — what a handle holds, and what is left of it;
* `backtraceProcess_ledger` — what is left when a process exits, and when exiting is a fault.
-/

set_option autoImplicit false

namespace Tinu

open Ledger (Takes)

/-! ## Events -/

inductive DwResource where
  | handle
  | filename
  | fd
  | debug
  | die (i : Nat)
  | linebuf (i : Nat)
  | linesrc (i j : Nat)
  | unit (i : Nat)
  | unitNode (i : Nat)
  | entry (i j : Nat)
  | entryNode (i j : Nat)
  deriving DecidableEq, Repr

/-- The objects of `libdwarf` that belong to a `Dwarf_Debug`. -/
def DwResource.ofDebug : DwResource → Bool
  | .die _ | .linebuf _ | .linesrc _ _ => true
  | _ => false

abbrev DwEvent := Ledger.Event DwResource

/-- A unit of a handle: its header, and the number of its entries. -/
structure LoadedUnit where
  header : Nat
  entries : Nat
  deriving DecidableEq, Repr

/-- The loop of `_dw_process_unit`, and whether it got to its end. -/
def processLinesEvents (i : Nat) : List LineReport → Nat → Option (List DwEvent × Bool)
  | [], _ => some ([], true)
  | line :: lines, j =>
    match line.linesrc with
    | .ok _ =>
      match line.lineaddr, line.lineno with
      | .ok _, .ok _ =>
        if j + 1 < gintLimit then
          (processLinesEvents i lines (j + 1)).map fun r =>
            (.acquire (.linesrc i j) :: .acquire (.entry i j) :: .acquire (.entryNode i j) :: r.1,
              r.2)
        else none
      | _, _ => some ([.acquire (.linesrc i j)], false)
    | _ => some ([], false)

/-- The end of `_dw_process_unit`. -/
def exitEvents (i : Nat) : List DwEvent := [.release (.linebuf i), .release (.die i)]

/-- `_dw_process_unit`: what it returns, and the number of entries of the unit. -/
def processUnitEvents (i : Nat) (unit : UnitReport) :
    Option (List DwEvent × Bool × Option Nat) :=
  match unit.srclines with
  -- the `return` before the end
  | .noEntry => some ([], true, none)
  -- `dwarf_srclines_dealloc` is given the number of lines, which was not set
  | .error => none
  | .ok lines =>
    match unit.lowpc with
    | .noEntry => some (.acquire (.linebuf i) :: exitEvents i, true, none)
    | .error => some (.acquire (.linebuf i) :: exitEvents i, false, none)
    | .ok _ =>
      match unit.highpc with
      | .noEntry => some (.acquire (.linebuf i) :: exitEvents i, true, none)
      | .error => some (.acquire (.linebuf i) :: exitEvents i, false, none)
      | .ok _ =>
        (processLinesEvents i lines 0).map fun r =>
          ([.acquire (.linebuf i), .acquire (.unit i)] ++ r.1 ++ exitEvents i, r.2,
            if r.2 then some lines.length else none)

/-- The loop of `dw_new`: the units of the handle, and whether no call failed. -/
def unitsEvents : Nat → List UnitReport → Option (List DwEvent × List LoadedUnit × Bool)
  | _, [] => some ([], [], true)
  | i, unit :: rest =>
    match unit.siblingof with
    | .ok _ =>
      match processUnitEvents i unit with
      | none => none
      | some (evs, false, _) => some (.acquire (.die i) :: evs, [], false)
      | some (evs, true, none) =>
        (unitsEvents (i + 1) rest).map fun r => (.acquire (.die i) :: evs ++ r.1, r.2)
      | some (evs, true, some n) =>
        (unitsEvents (i + 1) rest).map fun r =>
          (.acquire (.die i) :: evs ++ (.acquire (.unitNode i) :: r.1), ⟨i, n⟩ :: r.2.1, r.2.2)
    | _ => some ([], [], false)

/-- `_dw_clean_handle`. -/
def cleanHandleEvents (u : LoadedUnit) : List DwEvent :=
  (List.range u.entries).map (fun j => .release (.entry u.header j)) ++
    ((List.range u.entries).map (fun j => .release (.entryNode u.header j)) ++
      [.release (.unit u.header)])

/-- `dw_destroy`. -/
def dwDestroyEvents (units : List LoadedUnit) : List DwEvent :=
  units.flatMap cleanHandleEvents ++ [.release .filename, .release .handle]

/-- `close`, which gives nothing back for the -1 of a file that was not opened. -/
def closeEvents (opened : Bool) : List DwEvent := if opened then [.release .fd] else []

/-- `dwarf_finish` after the events: it gives back what is left of the objects. -/
def dwarfFinishEvents (evs : List DwEvent) : List DwEvent :=
  (Ledger.outstanding DwResource.ofDebug [] evs).map .release ++ [.release .debug]

/-- `dw_new`, and the units of the handle unless it returns `NULL`. -/
def dwNewEvents (file : FileReport) : Option (List DwEvent × Option (List LoadedUnit)) :=
  if ¬ file.opened then
    some ([.acquire .handle, .acquire .filename] ++ closeEvents file.opened ++ dwDestroyEvents [],
      none)
  else
    match file.init with
    | .error =>
      some ([.acquire .handle, .acquire .filename, .acquire .fd] ++ closeEvents file.opened ++
        dwDestroyEvents [], none)
    -- `dwarf_finish` is given `NULL`
    | .noEntry => none
    | .ok _ =>
      match unitsEvents 0 file.units with
      | none => none
      | some (evs, units, ok) =>
        let load := [.acquire .handle, .acquire .filename, .acquire .fd, .acquire .debug] ++
          (evs ++ closeEvents file.opened ++ dwarfFinishEvents evs)
        if ok = false then some (load ++ dwDestroyEvents units, none)
        else
          match file.last with
          | .error => some (load ++ dwDestroyEvents units, none)
          | _ => some (load, some units)

/-! ## The load that the events belong to -/

section Result

variable (quarkFromString : CString → Nat)

theorem processLinesEvents_result (i : Nat) :
    ∀ (lines : List LineReport) (j next : Nat) (entries : List DwarfEntry),
      (processLinesEvents i lines j).map (fun r => if r.2 then some (entries.length + lines.length)
        else none) =
      (dwProcessLines quarkFromString lines j next entries).map fun r => r.map fun p => p.1.length
  | [], j, next, entries => by simp [processLinesEvents, dwProcessLines]
  | line :: lines, j, next, entries => by
    have ih := fun e => processLinesEvents_result i lines (j + 1) (next + 1) (entries ++ [e])
    unfold processLinesEvents dwProcessLines
    cases line.linesrc <;> cases line.lineaddr <;> cases line.lineno <;> try rfl
    simp only
    split
    · rw [← ih, Option.map_map]
      congr 1
      funext r
      cases hr : r.2 <;> simp [hr, Nat.add_comm, Nat.add_left_comm]
    · rfl

theorem processUnitEvents_result {i : Nat} {unit : UnitReport}
    {r : List DwEvent × Bool × Option Nat} (h : processUnitEvents i unit = some r) (next : Nat) :
    (dwProcessUnit quarkFromString unit next).map
      (fun r => (r.1, r.2.1.map fun u => u.entries.length)) = some r.2 := by
  unfold processUnitEvents at h
  unfold dwProcessUnit
  cases hsrc : unit.srclines with
  | noEntry =>
    simp only [hsrc] at h
    cases h
    rfl
  | error =>
    simp only [hsrc] at h
    cases h
  | ok lines =>
    cases hlow : unit.lowpc with
    | noEntry | error =>
      simp only [hsrc, hlow] at h
      cases h
      rfl
    | ok low =>
      cases hhigh : unit.highpc with
      | noEntry | error =>
        simp only [hsrc, hlow, hhigh] at h
        cases h
        rfl
      | ok high =>
        simp only [hsrc, hlow, hhigh] at h ⊢
        have hlines := processLinesEvents_result quarkFromString i lines 0 next []
        obtain ⟨⟨evs, ok⟩, hev, rfl⟩ := Option.map_eq_some_iff.mp h
        rw [hev, Option.map_some] at hlines
        obtain ⟨q, hdw, hq⟩ := Option.map_eq_some_iff.mp hlines.symm
        rw [hdw]
        cases q with
        | none =>
          cases ok with
          | false => rfl
          | true => cases hq
        | some p =>
          cases ok with
          | false => cases hq
          | true => simpa using hq

theorem unitsEvents_result :
    ∀ {units : List UnitReport} {i : Nat} {r : List DwEvent × List LoadedUnit × Bool},
      unitsEvents i units = some r → ∀ (next : Nat) (loaded : List DwarfCompUnit),
        (dwUnits quarkFromString units next loaded).map
            (fun r => r.map fun us => us.map fun u => u.entries.length) =
          some (if r.2.2 then
            some (loaded.map (fun u => u.entries.length) ++ r.2.1.map LoadedUnit.entries) else none)
  | [], i, r, h, next, loaded => by
    cases h
    simp [dwUnits]
  | unit :: rest, i, r, h, next, loaded => by
    unfold unitsEvents at h
    unfold dwUnits
    cases hsib : unit.siblingof with
    | noEntry | error =>
      simp only [hsib] at h
      cases h
      rfl
    | ok _ =>
      simp only [hsib] at h ⊢
      cases hev : processUnitEvents i unit with
      | none =>
        rw [hev] at h
        cases h
      | some p =>
        have hunit := processUnitEvents_result quarkFromString hev next
        obtain ⟨⟨res', unit', next'⟩, hdw, hp⟩ := Option.map_eq_some_iff.mp hunit
        obtain ⟨evs, res, n⟩ := p
        obtain ⟨rfl, rfl⟩ := Prod.mk.inj hp
        rw [hev] at h
        rw [hdw]
        cases res' with
        | false =>
          cases h
          rfl
        | true =>
          cases unit' with
          | none =>
            obtain ⟨r', hrest, rfl⟩ := Option.map_eq_some_iff.mp h
            exact unitsEvents_result hrest next' loaded
          | some u =>
            obtain ⟨r', hrest, rfl⟩ := Option.map_eq_some_iff.mp h
            have ih := unitsEvents_result hrest next' (loaded ++ [u])
            simp only [ih, List.map_append, List.append_assoc, List.map_cons, List.map_nil,
              List.singleton_append]

/-- **The events are those of the load**: the handle has the units of `dwNew`. -/
theorem dwNewEvents_result (name : CString) {file : FileReport}
    {r : List DwEvent × Option (List LoadedUnit)} (h : dwNewEvents file = some r) :
    (dwNew quarkFromString name file).map
        (fun r => r.map fun h => h.entries.map fun u => u.entries.length) =
      some (r.2.map fun units => units.map LoadedUnit.entries) := by
  unfold dwNewEvents at h
  unfold dwNew
  cases hopened : file.opened with
  | false =>
    simp only [hopened, Bool.false_eq_true, not_false_eq_true, if_true] at h ⊢
    cases h
    rfl
  | true =>
    simp only [hopened, not_true_eq_false, if_false] at h ⊢
    cases hinit : file.init with
    | error =>
      simp only [hinit] at h
      cases h
      rfl
    | noEntry =>
      simp only [hinit] at h
      cases h
    | ok _ =>
      simp only [hinit] at h ⊢
      cases hev : unitsEvents 0 file.units with
      | none =>
        rw [hev] at h
        cases h
      | some q =>
        obtain ⟨evs, units, ok⟩ := q
        have hunits := unitsEvents_result quarkFromString hev 1 []
        obtain ⟨us, hdw, hus⟩ := Option.map_eq_some_iff.mp hunits
        rw [hev] at h
        rw [hdw]
        cases ok with
        | false =>
          cases h
          obtain rfl := Option.map_eq_none_iff.mp hus
          rfl
        | true =>
          obtain ⟨us, rfl, hus⟩ := Option.map_eq_some_iff.mp hus
          simp only [Bool.true_eq_false, if_false] at h ⊢
          cases hlast : file.last with
          | error =>
            simp only [hlast] at h
            cases h
            rfl
          | noEntry | ok _ =>
            simp only [hlast] at h
            cases h
            simpa using hus

end Result

/-! ## What one unit leaves -/

/-- The blocks of a unit, in the order in which they are given back. -/
def LoadedUnit.blocks (u : LoadedUnit) : List DwResource :=
  (List.range u.entries).map (.entry u.header) ++
    ((List.range u.entries).map (.entryNode u.header) ++ [.unit u.header])

def LineReport.good (line : LineReport) : Bool :=
  match line.linesrc, line.lineaddr, line.lineno with
  | .ok _, .ok _, .ok _ => true
  | _, _, _ => false

/-- The lines before the first that has an answer missing. -/
def goodLines (lines : List LineReport) : Nat := (lines.takeWhile LineReport.good).length

/-- The lines that were asked for their source with success: the good ones, and that after them when
it is a later answer that is missing. -/
def sourcedLines : List LineReport → Nat
  | [] => 0
  | line :: lines =>
    if line.good then sourcedLines lines + 1
    else
      match line.linesrc with
      | .ok _ => 1
      | _ => 0

/-- What becomes of a unit; one that is cut is lost with its entries so far. -/
inductive UnitFate where
  | noLines
  | noBounds
  | kept (entries : Nat)
  | unset
  | failed
  | cut (entries sources : Nat)
  deriving DecidableEq, Repr

def UnitReport.fate (unit : UnitReport) : UnitFate :=
  match unit.srclines, unit.lowpc, unit.highpc with
  | .noEntry, _, _ => .noLines
  | .error, _, _ => .unset
  | .ok _, .noEntry, _ => .noBounds
  | .ok _, .error, _ => .failed
  | .ok _, .ok _, .noEntry => .noBounds
  | .ok _, .ok _, .error => .failed
  | .ok lines, .ok _, .ok _ =>
    if lines.all LineReport.good then .kept lines.length
    else .cut (goodLines lines) (sourcedLines lines)

/-- What `_dw_process_unit` returns then. -/
def UnitFate.result : UnitFate → Bool × Option Nat
  | .noLines | .noBounds => (true, none)
  | .kept n => (true, some n)
  | .unset | .failed | .cut _ _ => (false, none)

/-- It comes to its end: the number of lines was set, and `i` stays in `gint`. -/
def UnitFate.returns : UnitFate → Bool
  | .unset => false
  | .kept n | .cut n _ => decide (n < gintLimit)
  | _ => true

/-- The blocks that it leaves of the unit with a header. -/
def UnitFate.blocks (i : Nat) : UnitFate → List DwResource
  | .kept n | .cut n _ => LoadedUnit.blocks ⟨i, n⟩
  | _ => []

/-- The objects that it leaves. -/
def UnitFate.objects (i : Nat) : UnitFate → List DwResource
  | .noLines => [.die i]
  | .kept n | .cut _ n => (List.range n).map (.linesrc i)
  | _ => []

/-- The resources of a number of lines, from the `j`-th on. -/
def lineResources (i j entries sources : Nat) : Multiset DwResource :=
  ((List.range' j entries).map (.entry i) ++ (List.range' j entries).map (.entryNode i) ++
    (List.range' j sources).map (.linesrc i) : List DwResource)

theorem goodLines_cons {line : LineReport} (hgood : line.good = true) (lines : List LineReport) :
    goodLines (line :: lines) = goodLines lines + 1 := by
  rw [goodLines, List.takeWhile_cons_of_pos hgood, List.length_cons, goodLines]

theorem goodLines_all {lines : List LineReport} (hall : lines.all LineReport.good = true) :
    goodLines lines = lines.length ∧ sourcedLines lines = lines.length := by
  constructor
  · rw [goodLines, List.takeWhile_eq_self_iff.mpr (List.all_eq_true.mp hall)]
  · induction lines with
    | nil => rfl
    | cons line lines ih =>
      rw [List.all_cons, Bool.and_eq_true] at hall
      rw [sourcedLines, if_pos hall.1, ih hall.2, List.length_cons]

/-- One good line. -/
theorem processLinesEvents_good (i : Nat) {line : LineReport} (hgood : line.good = true)
    (lines : List LineReport) (j : Nat) :
    processLinesEvents i (line :: lines) j =
      if j + 1 < gintLimit then
        (processLinesEvents i lines (j + 1)).map fun r =>
          (.acquire (.linesrc i j) :: .acquire (.entry i j) :: .acquire (.entryNode i j) :: r.1,
            r.2)
      else none := by
  unfold LineReport.good at hgood
  rw [processLinesEvents]
  cases h1 : line.linesrc <;> cases h2 : line.lineaddr <;> cases h3 : line.lineno <;>
    simp only [h1, h2, h3, Bool.false_eq_true] at hgood ⊢

/-- A line with an answer missing. -/
theorem processLinesEvents_bad (i : Nat) {line : LineReport} (hbad : line.good = false)
    (lines : List LineReport) (j : Nat) :
    processLinesEvents i (line :: lines) j =
      some (((List.range' j (sourcedLines (line :: lines))).map fun j => .acquire (.linesrc i j)),
        false) := by
  rw [sourcedLines, hbad, processLinesEvents]
  unfold LineReport.good at hbad
  cases h1 : line.linesrc <;> cases h2 : line.lineaddr <;> cases h3 : line.lineno <;>
    simp [h1, h2, h3] at hbad ⊢

/-- **The loop of `_dw_process_unit`** comes to its end when `i` stays in `gint`. -/
theorem processLinesEvents_isSome (i : Nat) :
    ∀ (lines : List LineReport) (j : Nat), j < gintLimit →
      (processLinesEvents i lines j).isSome = decide (j + goodLines lines < gintLimit)
  | [], j, hj => (decide_eq_true hj).symm
  | line :: lines, j, hj => by
    cases hgood : line.good with
    | true =>
      have hcount : j + (goodLines lines + 1) = j + 1 + goodLines lines := by omega
      rw [processLinesEvents_good i hgood, goodLines_cons hgood, hcount]
      split
      · rename_i hnext
        rw [Option.isSome_map, processLinesEvents_isSome i lines (j + 1) hnext]
      · rename_i hnext
        exact (decide_eq_false (by omega)).symm
    | false =>
      rw [processLinesEvents_bad i hgood, goodLines,
        List.takeWhile_cons_of_neg (by rw [hgood]; exact Bool.false_ne_true)]
      exact (decide_eq_true hj).symm

/-- What the loop leaves, and whether every line was good. -/
theorem processLinesEvents_takes (i : Nat) :
    ∀ {lines : List LineReport} {j : Nat} {evs : List DwEvent} {ok : Bool},
      processLinesEvents i lines j = some (evs, ok) →
        ok = lines.all LineReport.good ∧ ∀ h : Multiset DwResource,
          Takes h evs (lineResources i j (goodLines lines) (sourcedLines lines) + h)
  | [], j, _, _, h => by
    cases h
    refine ⟨rfl, fun h => ?_⟩
    rw [show lineResources i j (goodLines []) (sourcedLines []) = 0 from rfl, Multiset.zero_add]
    exact Takes.nil h
  | line :: lines, j, evs, ok, h => by
    cases hgood : line.good with
    | true =>
      rw [processLinesEvents_good i hgood] at h
      split at h
      · obtain ⟨⟨evs', ok'⟩, hrest, heq⟩ := Option.map_eq_some_iff.mp h
        cases heq
        obtain ⟨rfl, htakes⟩ := processLinesEvents_takes i hrest
        refine ⟨by rw [List.all_cons, hgood, Bool.true_and], fun h => ?_⟩
        have hfirst : Takes h [.acquire (.linesrc i j), .acquire (.entry i j),
            .acquire (.entryNode i j)]
            (.entryNode i j ::ₘ .entry i j ::ₘ .linesrc i j ::ₘ h) := rfl
        have hsame : lineResources i j (goodLines (line :: lines)) (sourcedLines (line :: lines)) +
              h = lineResources i (j + 1) (goodLines lines) (sourcedLines lines) +
                (.entryNode i j ::ₘ .entry i j ::ₘ .linesrc i j ::ₘ h) := by
          rw [goodLines_cons hgood, sourcedLines, if_pos hgood]
          simp only [lineResources, List.range'_succ, List.map_cons, ← Multiset.coe_add,
            ← Multiset.cons_coe, ← Multiset.singleton_add]
          ac_rfl
        rw [hsame]
        exact hfirst.trans (htakes _)
      · cases h
    | false =>
      rw [processLinesEvents_bad i hgood] at h
      cases h
      refine ⟨by rw [List.all_cons, hgood, Bool.false_and], fun h => ?_⟩
      have hnone : goodLines (line :: lines) = 0 := by
        rw [goodLines, List.takeWhile_cons_of_neg (by rw [hgood]; exact Bool.false_ne_true)]
        rfl
      have hall := Ledger.takes_acquireAll
        ((List.range' j (sourcedLines (line :: lines))).map (DwResource.linesrc i)) h
      rw [List.map_map] at hall
      rw [hnone]
      exact hall

/-- `_dw_process_unit` returns when its loop does, and its arguments were set. -/
theorem processUnitEvents_isSome (i : Nat) (unit : UnitReport) :
    (processUnitEvents i unit).isSome = unit.fate.returns := by
  unfold processUnitEvents UnitReport.fate
  cases unit.srclines with
  | noEntry => rfl
  | error => rfl
  | ok lines =>
    cases unit.lowpc with
    | noEntry => rfl
    | error => rfl
    | ok low =>
      cases unit.highpc with
      | noEntry => rfl
      | error => rfl
      | ok high =>
        simp only [Option.isSome_map]
        rw [processLinesEvents_isSome i lines 0 (by decide), Nat.zero_add]
        split
        · rename_i hall
          rw [(goodLines_all hall).1, UnitFate.returns]
        · rfl

/-- **What one unit leaves**, once its `die` was taken. -/
theorem unitEvents_takes {i : Nat} {unit : UnitReport} {evs : List DwEvent} {ok : Bool}
    {n : Option Nat} (h : processUnitEvents i unit = some (evs, ok, n)) :
    (ok, n) = unit.fate.result ∧
      Takes {.die i} evs (unit.fate.blocks i + unit.fate.objects i : Multiset DwResource) := by
  have hend : ∀ h : Multiset DwResource,
      Takes (DwResource.linebuf i ::ₘ DwResource.die i ::ₘ h) (exitEvents i) h := fun h =>
    (Ledger.takes_release _ (DwResource.linebuf i)).trans (Ledger.takes_release h (.die i))
  have hexit : Takes {DwResource.die i} (.acquire (.linebuf i) :: exitEvents i) 0 :=
    (Ledger.takes_acquire _ (DwResource.linebuf i)).trans (hend 0)
  unfold processUnitEvents at h
  unfold UnitReport.fate
  cases h1 : unit.srclines with
  | noEntry =>
    simp only [h1] at h ⊢
    cases h
    exact ⟨rfl, Takes.nil _⟩
  | error =>
    simp only [h1] at h
    cases h
  | ok lines =>
    cases h2 : unit.lowpc with
    | noEntry | error =>
      simp only [h1, h2] at h ⊢
      cases h
      exact ⟨rfl, hexit⟩
    | ok low =>
      cases h3 : unit.highpc with
      | noEntry | error =>
        simp only [h1, h2, h3] at h ⊢
        cases h
        exact ⟨rfl, hexit⟩
      | ok high =>
        simp only [h1, h2, h3] at h ⊢
        obtain ⟨⟨evs', ok'⟩, hlines, heq⟩ := Option.map_eq_some_iff.mp h
        cases heq
        obtain ⟨rfl, htakes⟩ := processLinesEvents_takes i hlines
        have hblocks : Takes {DwResource.die i} ([.acquire (.linebuf i), .acquire (.unit i)] ++
            evs' ++ exitEvents i)
            ((LoadedUnit.blocks ⟨i, goodLines lines⟩ : Multiset DwResource) +
              ((List.range (sourcedLines lines)).map (.linesrc i) : List DwResource)) := by
          have hstart : Takes {DwResource.die i} [.acquire (.linebuf i), .acquire (.unit i)]
              (DwResource.unit i ::ₘ DwResource.linebuf i ::ₘ {DwResource.die i}) := rfl
          have hsame : lineResources i 0 (goodLines lines) (sourcedLines lines) +
                (DwResource.unit i ::ₘ DwResource.linebuf i ::ₘ {DwResource.die i}) =
              DwResource.linebuf i ::ₘ DwResource.die i ::ₘ
                ((LoadedUnit.blocks ⟨i, goodLines lines⟩ : Multiset DwResource) +
                  ((List.range (sourcedLines lines)).map (.linesrc i) : List DwResource)) := by
            simp only [lineResources, LoadedUnit.blocks, List.range_eq_range', ← Multiset.coe_add,
              ← Multiset.singleton_add, Multiset.coe_singleton]
            ac_rfl
          have hentries := hstart.trans (htakes _)
          rw [hsame] at hentries
          exact hentries.trans (hend _)
        cases hall : lines.all LineReport.good with
        | false => exact ⟨rfl, hblocks⟩
        | true =>
          obtain ⟨hgood, hsourced⟩ := goodLines_all hall
          rw [hgood, hsourced] at hblocks
          exact ⟨rfl, hblocks⟩

/-! ## What a load and the end of a handle leave -/

/-- What the loop of `dw_new` leaves: the units of the handle, the blocks that nothing points to any
more, the objects, and whether no call failed. -/
structure Loading where
  kept : List LoadedUnit
  lost : List DwResource
  objects : List DwResource
  ok : Bool
  deriving DecidableEq, Repr

def loading : Nat → List UnitReport → Loading
  | _, [] => ⟨[], [], [], true⟩
  | i, unit :: rest =>
    match unit.siblingof with
    | .ok _ =>
      let next := loading (i + 1) rest
      let objects := unit.fate.objects i
      match unit.fate with
      | .noLines | .noBounds => { next with objects := objects ++ next.objects }
      | .kept n => { next with kept := ⟨i, n⟩ :: next.kept, objects := objects ++ next.objects }
      | .unset | .failed => ⟨[], [], objects, false⟩
      | .cut n _ => ⟨[], LoadedUnit.blocks ⟨i, n⟩, objects, false⟩
    | _ => ⟨[], [], [], false⟩

/-- Every unit that the loop of `dw_new` comes to returns. -/
def unitsReturn : List UnitReport → Bool
  | [] => true
  | unit :: rest =>
    match unit.siblingof with
    | .ok _ => unit.fate.returns && (!unit.fate.result.1 || unitsReturn rest)
    | _ => true

theorem unitsEvents_isSome :
    ∀ (units : List UnitReport) (i : Nat), (unitsEvents i units).isSome = unitsReturn units
  | [], _ => rfl
  | unit :: rest, i => by
    have hreturns := processUnitEvents_isSome i unit
    unfold unitsEvents unitsReturn
    cases unit.siblingof with
    | noEntry | error => rfl
    | ok _ =>
      simp only
      cases hev : processUnitEvents i unit with
      | none =>
        rw [← hreturns, hev]
        rfl
      | some r =>
        obtain ⟨evs, ok, n⟩ := r
        obtain ⟨hres, -⟩ := unitEvents_takes hev
        have ih := unitsEvents_isSome rest (i + 1)
        rw [← hreturns, hev, ← hres, Option.isSome_some, Bool.true_and]
        cases ok with
        | false => rfl
        | true => cases n <;> simp [Option.isSome_map, ih]

/-- The nodes of the list of units; `_dw_clean_handle` is not given them. -/
def unitNodes (units : List LoadedUnit) : List DwResource := units.map fun u => .unitNode u.header

/-- What a handle with these units holds. -/
def unitBlocks (units : List LoadedUnit) : List DwResource := units.flatMap LoadedUnit.blocks

/-- The blocks that are held for them. -/
def Loading.blocks (l : Loading) : Multiset DwResource :=
  (unitBlocks l.kept : Multiset DwResource) + (unitNodes l.kept + l.lost : Multiset DwResource)

/-- What is held for them. -/
def Loading.held (l : Loading) : Multiset DwResource := l.blocks + (l.objects : Multiset DwResource)

theorem Loading.held_objects (l : Loading) (objects : List DwResource) :
    ({ l with objects := objects ++ l.objects } : Loading).held =
      l.held + (objects : Multiset DwResource) := by
  simp only [Loading.held, Loading.blocks, ← Multiset.coe_add]
  ac_rfl

theorem Loading.held_kept (l : Loading) (u : LoadedUnit) (objects : List DwResource) :
    ({ l with kept := u :: l.kept, objects := objects ++ l.objects } : Loading).held =
      l.held + (DwResource.unitNode u.header ::ₘ
        ((u.blocks : Multiset DwResource) + (objects : Multiset DwResource))) := by
  simp only [Loading.held, Loading.blocks, unitBlocks, unitNodes, List.flatMap_cons, List.map_cons,
    ← Multiset.coe_add, ← Multiset.cons_coe, ← Multiset.singleton_add]
  ac_rfl

/-- **What all units leave.** -/
theorem unitsEvents_takes :
    ∀ {units : List UnitReport} {i : Nat} {evs : List DwEvent} {kept : List LoadedUnit}
      {ok : Bool}, unitsEvents i units = some (evs, kept, ok) →
        (kept, ok) = ((loading i units).kept, (loading i units).ok) ∧
          Takes 0 evs (loading i units).held
  | [], _, _, _, _, h => by
    cases h
    exact ⟨rfl, Takes.nil _⟩
  | unit :: rest, i, evs, kept, ok, h => by
    unfold unitsEvents at h
    unfold loading
    cases hsib : unit.siblingof with
    | noEntry | error =>
      simp only [hsib] at h
      cases h
      exact ⟨rfl, Takes.nil _⟩
    | ok _ =>
      simp only [hsib] at h ⊢
      cases hunit : processUnitEvents i unit with
      | none =>
        rw [hunit] at h
        cases h
      | some r =>
        obtain ⟨uevs, uok, n⟩ := r
        obtain ⟨hres, htakes⟩ := unitEvents_takes hunit
        have hdie : Takes 0 (.acquire (.die i) :: uevs)
            (unit.fate.blocks i + unit.fate.objects i : Multiset DwResource) :=
          (Ledger.takes_acquire 0 (DwResource.die i)).trans htakes
        -- the units after it, when this one does not end the loop
        have hnext : ∀ {evs' : List DwEvent} {kept' : List LoadedUnit} {ok' : Bool},
            unitsEvents (i + 1) rest = some (evs', kept', ok') →
              (kept', ok') = ((loading (i + 1) rest).kept, (loading (i + 1) rest).ok) ∧
              ∀ k, Takes k evs' ((loading (i + 1) rest).held + k) := fun hrest => by
          obtain ⟨hkept, htakes⟩ := unitsEvents_takes hrest
          refine ⟨hkept, fun k => ?_⟩
          have hframe := htakes.frame k
          rwa [Multiset.zero_add] at hframe
        rw [hunit] at h
        cases hfate : unit.fate with
        | unset | failed =>
          rw [hfate] at hres hdie
          cases hres
          cases h
          exact ⟨rfl, hdie⟩
        | cut m k =>
          rw [hfate] at hres hdie
          cases hres
          cases h
          refine ⟨rfl, ?_⟩
          simpa only [Loading.held, Loading.blocks, unitBlocks, unitNodes, List.flatMap_nil,
            List.map_nil, Multiset.coe_nil, Multiset.zero_add, UnitFate.blocks] using hdie
        | noLines | noBounds =>
          rw [hfate] at hres hdie
          cases hres
          obtain ⟨⟨evs', kept', ok'⟩, hrest, heq⟩ := Option.map_eq_some_iff.mp h
          cases heq
          obtain ⟨hkept, htakes⟩ := hnext hrest
          refine ⟨hkept, ?_⟩
          rw [Loading.held_objects]
          simp only [UnitFate.blocks, Multiset.coe_nil, Multiset.zero_add] at hdie
          exact hdie.trans (htakes _)
        | kept m =>
          rw [hfate] at hres hdie
          cases hres
          obtain ⟨⟨evs', kept', ok'⟩, hrest, heq⟩ := Option.map_eq_some_iff.mp h
          cases heq
          obtain ⟨hkept, htakes⟩ := hnext hrest
          cases hkept
          refine ⟨rfl, ?_⟩
          rw [Loading.held_kept]
          exact hdie.trans
            ((Ledger.takes_acquire _ (DwResource.unitNode i)).trans (htakes _))

/-! ## The objects and the blocks -/

theorem LoadedUnit.blocks_ofDebug (u : LoadedUnit) : ∀ r ∈ u.blocks, r.ofDebug = false := by
  intro r hr
  simp only [LoadedUnit.blocks, List.mem_append, List.mem_map, List.mem_singleton] at hr
  rcases hr with ⟨_, _, rfl⟩ | ⟨_, _, rfl⟩ | rfl <;> rfl

theorem UnitFate.objects_ofDebug (i : Nat) (fate : UnitFate) :
    ∀ r ∈ fate.objects i, r.ofDebug = true := by
  intro r hr
  cases fate with
  | noLines =>
    rw [List.mem_singleton.mp hr]
    rfl
  | kept n | cut _ n =>
    obtain ⟨_, _, rfl⟩ := List.mem_map.mp hr
    rfl
  | noBounds | unset | failed => cases hr

theorem loading_objects :
    ∀ (units : List UnitReport) (i : Nat), ∀ r ∈ (loading i units).objects, r.ofDebug = true
  | [], _, _, hr => (List.not_mem_nil hr).elim
  | unit :: rest, i, r, hr => by
    have hunit := unit.fate.objects_ofDebug i r
    have hrest := loading_objects rest (i + 1) r
    unfold loading at hr
    cases hsib : unit.siblingof with
    | noEntry | error =>
      simp only [hsib] at hr
      cases hr
    | ok _ =>
      cases hfate : unit.fate with
      | noLines | noBounds | kept _ =>
        simp only [hsib, hfate] at hr
        rw [hfate] at hunit
        exact (List.mem_append.mp hr).elim hunit hrest
      | unset | failed | cut _ _ =>
        simp only [hsib, hfate] at hr
        rw [hfate] at hunit
        exact hunit hr

theorem loading_lost :
    ∀ (units : List UnitReport) (i : Nat), ∀ r ∈ (loading i units).lost, r.ofDebug = false
  | [], _, _, hr => (List.not_mem_nil hr).elim
  | unit :: rest, i, r, hr => by
    have hrest := loading_lost rest (i + 1) r
    unfold loading at hr
    cases hsib : unit.siblingof with
    | noEntry | error =>
      simp only [hsib] at hr
      cases hr
    | ok _ =>
      cases hfate : unit.fate with
      | noLines | noBounds | kept _ =>
        simp only [hsib, hfate] at hr
        exact hrest hr
      | unset | failed =>
        simp only [hsib, hfate] at hr
        cases hr
      | cut n _ =>
        simp only [hsib, hfate] at hr
        exact LoadedUnit.blocks_ofDebug _ r hr

/-- Of what the loop leaves `dwarf_finish` gives back the objects, and no block. -/
theorem loading_reclaimed (units : List UnitReport) :
    (loading 0 units).held.filter (¬ DwResource.ofDebug · = true) = (loading 0 units).blocks := by
  have hobjects : ((loading 0 units).objects : Multiset DwResource).filter
      (¬ DwResource.ofDebug · = true) = 0 :=
    Multiset.filter_eq_nil.mpr fun r hr hnot => hnot (loading_objects units 0 r hr)
  have hblocks : (loading 0 units).blocks.filter (¬ DwResource.ofDebug · = true) =
      (loading 0 units).blocks := by
    refine Multiset.filter_eq_self.mpr fun r hr => ?_
    rw [Bool.not_eq_true]
    simp only [Loading.blocks, Multiset.mem_add, Multiset.mem_coe] at hr
    rcases hr with hunit | hnode | hlost
    · obtain ⟨u, -, hr⟩ := List.mem_flatMap.mp hunit
      exact u.blocks_ofDebug r hr
    · obtain ⟨u, -, rfl⟩ := List.mem_map.mp hnode
      rfl
    · exact loading_lost units 0 r hlost
  rw [Loading.held, Multiset.filter_add, hobjects, hblocks, Multiset.add_zero]

theorem cleanHandleEvents_eq (u : LoadedUnit) : cleanHandleEvents u = u.blocks.map .release := by
  simp [cleanHandleEvents, LoadedUnit.blocks, Function.comp_def]

theorem dwDestroyEvents_eq (units : List LoadedUnit) :
    dwDestroyEvents units = (unitBlocks units ++ [DwResource.filename, .handle]).map .release := by
  have hunits : units.flatMap cleanHandleEvents = (unitBlocks units).map .release := by
    rw [unitBlocks, List.map_flatMap]
    exact List.flatMap_congr fun u _ => cleanHandleEvents_eq u
  rw [dwDestroyEvents, hunits, List.map_append]
  rfl

/-- What a handle is: its own two blocks and those of its units. -/
def handleBlocks (units : List LoadedUnit) : Multiset DwResource :=
  (unitBlocks units : Multiset DwResource) + ([.filename, .handle] : List DwResource)

/-- **`dw_destroy` gives a handle back**, and no more. -/
theorem dwDestroy_takes (units : List LoadedUnit) (h : Multiset DwResource) :
    Takes (handleBlocks units + h) (dwDestroyEvents units) h := by
  have hall := Ledger.takes_releaseAll (unitBlocks units ++ [DwResource.filename, .handle]) h
  rw [← Multiset.coe_add, ← dwDestroyEvents_eq] at hall
  exact hall

/-- The load of a file, with the answers of the calls around the loop. -/
def FileReport.load (file : FileReport) : Loading :=
  match file.opened, file.init with
  | true, .ok _ =>
    let l := loading 0 file.units
    { l with ok := l.ok && decide (file.last ≠ .error) }
  | _, _ => ⟨[], [], [], false⟩

/-- The load comes to its end. -/
def FileReport.returns (file : FileReport) : Bool :=
  match file.opened, file.init with
  | false, _ => true
  | true, .error => true
  | true, .noEntry => false
  | true, .ok _ => unitsReturn file.units

/-- What is left of a load when its handle is not counted: the nodes of its list of units, and the
blocks of a unit that was cut. -/
def FileReport.left (file : FileReport) : Multiset DwResource :=
  (unitNodes file.load.kept : Multiset DwResource) + file.load.lost

theorem dwNewEvents_isSome (file : FileReport) : (dwNewEvents file).isSome = file.returns := by
  have hunits := unitsEvents_isSome file.units 0
  unfold dwNewEvents FileReport.returns
  cases file.opened with
  | false => rfl
  | true =>
    cases file.init with
    | error | noEntry => rfl
    | ok _ =>
      simp only [not_true_eq_false, if_false]
      rw [← hunits]
      cases unitsEvents 0 file.units with
      | none => rfl
      | some r =>
        simp only
        split
        · rfl
        · split <;> rfl

/-- **What a load holds**: the handle, when there is one, and what is left of the load. -/
theorem dwNew_takes {file : FileReport} {evs : List DwEvent} {res : Option (List LoadedUnit)}
    (h : dwNewEvents file = some (evs, res)) :
    res = (if file.load.ok then some file.load.kept else none) ∧
      Takes 0 evs (res.elim 0 handleBlocks + file.left) := by
  have hnames : Takes 0 [.acquire DwResource.handle, .acquire .filename] (handleBlocks []) := rfl
  have hend : Takes (handleBlocks []) (dwDestroyEvents []) 0 := dwDestroy_takes [] 0
  have hfd : ∀ h : Multiset DwResource, Takes h [.acquire .fd, .release .fd] h := fun h =>
    (Ledger.takes_acquire h DwResource.fd).trans (Ledger.takes_release h .fd)
  unfold dwNewEvents at h
  unfold FileReport.left FileReport.load
  cases hopened : file.opened with
  | false =>
    simp only [hopened, Bool.false_eq_true, not_false_eq_true, if_true] at h
    cases h
    exact ⟨rfl, hnames.trans hend⟩
  | true =>
    simp only [hopened, not_true_eq_false, if_false] at h
    cases hinit : file.init with
    | error =>
      simp only [hinit] at h
      cases h
      exact ⟨rfl, (hnames.trans (hfd _)).trans hend⟩
    | noEntry =>
      simp only [hinit] at h
      cases h
    | ok _ =>
      simp only [hinit] at h ⊢
      cases hunits : unitsEvents 0 file.units with
      | none =>
        rw [hunits] at h
        cases h
      | some r =>
        obtain ⟨uevs, kept, ok⟩ := r
        obtain ⟨hkept, hloop⟩ := unitsEvents_takes hunits
        obtain ⟨rfl, rfl⟩ := Prod.mk.inj hkept
        rw [hunits] at h
        have hload : Takes 0 ([.acquire .handle, .acquire .filename, .acquire .fd,
            .acquire .debug] ++ (uevs ++ closeEvents true ++ dwarfFinishEvents uevs))
            ((loading 0 file.units).blocks + handleBlocks []) := by
          have hstart : Takes (handleBlocks []) [.acquire .fd, .acquire .debug]
              (.fd ::ₘ .debug ::ₘ handleBlocks []) := by
            rw [Multiset.cons_swap]
            rfl
          have hframe := hloop.frame (.fd ::ₘ .debug ::ₘ handleBlocks [])
          rw [Multiset.zero_add, Multiset.add_cons] at hframe
          have hclose := Ledger.takes_release
            ((loading 0 file.units).held + .debug ::ₘ handleBlocks []) DwResource.fd
          have hfinish := hloop.reclaim DwResource.ofDebug (.debug ::ₘ handleBlocks [])
          rw [loading_reclaimed, Multiset.add_cons (.debug) (loading 0 file.units).blocks]
            at hfinish
          have hdebug := Ledger.takes_release
            ((loading 0 file.units).blocks + handleBlocks []) DwResource.debug
          exact (hnames.trans hstart).trans ((hframe.trans hclose).trans (hfinish.trans hdebug))
        have hheld : (loading 0 file.units).blocks + handleBlocks [] =
            handleBlocks (loading 0 file.units).kept +
              ((unitNodes (loading 0 file.units).kept : Multiset DwResource) +
                (loading 0 file.units).lost) := by
          have hnone : handleBlocks [] = ([.filename, .handle] : List DwResource) :=
            Multiset.zero_add _
          rw [hnone, Loading.blocks, handleBlocks]
          ac_rfl
        rw [hheld] at hload
        have hundo := hload.trans (dwDestroy_takes _ _)
        cases hok : (loading 0 file.units).ok with
        | false =>
          simp only [hok, if_true] at h
          cases h
          refine ⟨rfl, ?_⟩
          rw [Option.elim_none, Multiset.zero_add]
          exact hundo
        | true =>
          simp only [hok, Bool.true_eq_false, if_false] at h
          cases hlast : file.last with
          | error =>
            simp only [hlast] at h
            cases h
            refine ⟨rfl, ?_⟩
            rw [Option.elim_none, Multiset.zero_add]
            exact hundo
          | noEntry | ok _ =>
            simp only [hlast] at h
            cases h
            exact ⟨rfl, hload⟩

/-! ## A process -/

/-- The state of `backtrace.c`, the functions given to `atexit`, and the events so far. -/
structure BacktraceState where
  gBacktraceInit : Bool
  gBacktraceDwarf : Option (List LoadedUnit)
  atexit : Nat
  events : List DwEvent
  deriving DecidableEq, Repr

def BacktraceState.start : BacktraceState := ⟨false, none, 0, []⟩

/-- `_backtrace_init`; the report is that of the program file at the time. -/
def backtraceInit (file : FileReport) (s : BacktraceState) : Option BacktraceState :=
  if s.gBacktraceInit then some s
  else
    (dwNewEvents file).map fun r => ⟨true, r.2, s.atexit + 1, s.events ++ r.1⟩

/-- A `backtrace_create` for each report. -/
def backtraceCalls : List FileReport → BacktraceState → Option BacktraceState
  | [], s => some s
  | file :: files, s => (backtraceInit file s).bind (backtraceCalls files)

/-- `_backtrace_cleanup`; `NULL` is a fault. -/
def backtraceCleanup (s : BacktraceState) : Option (List DwEvent) :=
  s.gBacktraceDwarf.map dwDestroyEvents

/-- The functions given to `atexit`, one after another. -/
def runAtexit (s : BacktraceState) : Nat → Option (List DwEvent)
  | 0 => some []
  | n + 1 => (backtraceCleanup s).bind fun evs => (runAtexit s n).map fun evs' => evs ++ evs'

/-- The exit of the process. -/
def backtraceExit (s : BacktraceState) : Option (List DwEvent) := runAtexit s s.atexit

theorem backtraceCalls_of_init {s : BacktraceState} (hinit : s.gBacktraceInit = true) :
    ∀ files : List FileReport, backtraceCalls files s = some s
  | [] => rfl
  | file :: files => by
    rw [backtraceCalls, backtraceInit, if_pos hinit]
    exact backtraceCalls_of_init hinit files

/-- **A process that takes backtraces**: the program file is loaded once, by the first, and the
process goes on exactly when the load comes to its end.  Exiting is then a fault exactly when the
load failed; otherwise the handle is given back, but not the nodes of its list of units. -/
theorem backtraceProcess_ledger (file : FileReport) (files : List FileReport) :
    ((backtraceCalls (file :: files) .start).isSome = file.returns) ∧
      ∀ s ∈ backtraceCalls (file :: files) .start,
        (backtraceExit s = none ↔ file.load.ok = false) ∧
          Takes 0 (s.events ++ (backtraceExit s).getD []) file.left := by
  constructor
  · have hstart : ¬ BacktraceState.start.gBacktraceInit = true := Bool.false_ne_true
    rw [← dwNewEvents_isSome, backtraceCalls, backtraceInit, if_neg hstart]
    cases dwNewEvents file with
    | none => rfl
    | some r =>
      rw [Option.map_some, Option.bind_some, backtraceCalls_of_init rfl]
      rfl
  · intro s h
    obtain ⟨s1, hfirst, hrest⟩ := Option.bind_eq_some_iff.mp h
    obtain ⟨⟨evs, res⟩, hnew, rfl⟩ := Option.map_eq_some_iff.mp hfirst
    rw [backtraceCalls_of_init rfl] at hrest
    cases hrest
    obtain ⟨rfl, htakes⟩ := dwNew_takes hnew
    cases hok : file.load.ok with
    | false =>
      rw [hok] at htakes
      refine ⟨iff_of_true rfl rfl, ?_⟩
      have hleft : (none : Option (List LoadedUnit)).elim 0 handleBlocks + file.left = file.left :=
        Multiset.zero_add _
      rw [← hleft]
      exact htakes.trans (Takes.nil _)
    | true =>
      rw [hok] at htakes
      have hexit : backtraceExit ⟨true, some file.load.kept, 1, evs⟩ =
          some (dwDestroyEvents file.load.kept ++ []) := rfl
      have hstate : (⟨true, if true = true then some file.load.kept else none,
          BacktraceState.start.atexit + 1, BacktraceState.start.events ++ evs⟩ : BacktraceState) =
          ⟨true, some file.load.kept, 1, evs⟩ := rfl
      rw [hstate, hexit]
      refine ⟨iff_of_false (Option.some_ne_none _) (by decide), ?_⟩
      rw [Option.getD_some, List.append_nil]
      exact htakes.trans (dwDestroy_takes file.load.kept file.left)

/-- A unit without lines, one with a line, and one whose line has no number. -/
def stubFile : FileReport where
  opened := true
  init := .ok ()
  units := [⟨.ok (), .noEntry, .noEntry, .noEntry⟩,
    ⟨.ok (), .ok [⟨.ok "a.c".toList, .ok 1, .ok 1⟩], .ok 0, .ok 9⟩,
    ⟨.ok (), .ok [⟨.ok "b.c".toList, .ok 10, .noEntry⟩], .ok 10, .ok 19⟩]
  last := .noEntry

/-- It comes to its end, exiting is a fault, and the node of the unit and the unit that was cut are
left. -/
theorem stubFile_ledger :
    stubFile.left = ([.unitNode 1, .unit 2] : List DwResource) ∧
      ((backtraceCalls [stubFile, stubFile] .start).isSome = true) ∧
      ∀ s ∈ backtraceCalls [stubFile, stubFile] .start,
        backtraceExit s = none ∧ Takes 0 (s.events ++ (backtraceExit s).getD []) stubFile.left := by
  obtain ⟨hreturns, hall⟩ := backtraceProcess_ledger stubFile [stubFile]
  exact ⟨rfl, hreturns, fun s hs => ⟨(hall s hs).1.mpr rfl, (hall s hs).2⟩⟩

end Tinu
