import Tinu.Basic

/-!
# Looking up an address (`dwarf.c`)

A handle is a list of compilation units, each with the range of its code and the entries of its
line table.  `dw_lookup` goes through the units, then through the entries of the one it found, and
returns the value that the second loop leaves in `entry`.

* `lookupUnit_eq`, `lookupEntry_eq` — what the two loops leave;
* `dwLookup_ok_iff` — the lookup gives the entry of an address exactly when no range comes near it,
  or all entries of the unit found are at or below it.
-/

set_option autoImplicit false

namespace Tinu

/-! ## The data -/

/-- `struct _DwarfEntry`, with the address that it was allocated at. -/
structure DwarfEntry where
  addr : Ptr
  source : Nat
  pointer : Ptr
  lineno : Int
  deriving DecidableEq, Repr

/-- `struct _DwarfCompUnit`. -/
structure DwarfCompUnit where
  entries : List DwarfEntry
  lowpc : Ptr
  highpc : Ptr
  deriving DecidableEq, Repr

/-- `struct _DwarfHandle`. -/
structure DwarfHandle where
  filename : CString
  entries : List DwarfCompUnit
  deriving DecidableEq, Repr

/-! ## `dw_lookup` -/

/-- What `dw_lookup` returns: a pointer, or the value of a variable that was not set. -/
inductive LookupResult where
  | null
  | entry (e : DwarfEntry)
  | indeterminate
  deriving DecidableEq, Repr

/-- The loop that finds the compilation unit. -/
def lookupUnit (ptr : Ptr) : List DwarfCompUnit → Option DwarfCompUnit
  | [] => none
  | unit :: act =>
    if ptr ≥ unit.lowpc ∧ ptr ≤ unit.highpc then some unit else lookupUnit ptr act

/-- The loop that finds the nearest line number, with the value of `entry` before it. -/
def lookupEntry (ptr : Ptr) : List DwarfEntry → Option DwarfEntry → Option DwarfEntry
  | [], entry => entry
  | entry :: act, _ => if ptr < entry.pointer then some entry else lookupEntry ptr act (some entry)

/-- `dw_lookup`; the tolerance is not used. -/
def dwLookup (self : DwarfHandle) (ptr : Ptr) (_tolerance : Nat) : LookupResult :=
  match lookupUnit ptr self.entries with
  | none => .null
  | some unit =>
    match lookupEntry ptr unit.entries none with
    | none => .indeterminate
    | some entry => .entry entry

/-! ## What the loops leave -/

theorem lookupUnit_eq (ptr : Ptr) (units : List DwarfCompUnit) :
    lookupUnit ptr units = units.find? fun u => u.lowpc ≤ ptr ∧ ptr ≤ u.highpc := by
  induction units with
  | nil => rfl
  | cons unit act ih =>
    rw [lookupUnit, List.find?_cons]
    by_cases h : unit.lowpc ≤ ptr ∧ ptr ≤ unit.highpc
    · simp [h]
    · rw [if_neg h, ih]
      simp [h]

/-- **The second loop leaves the first entry behind the address**, or else the last one. -/
theorem lookupEntry_eq (ptr : Ptr) (entries : List DwarfEntry) (entry : Option DwarfEntry) :
    lookupEntry ptr entries entry =
      (entries.find? fun e => ptr < e.pointer).or (entries.getLast?.or entry) := by
  induction entries generalizing entry with
  | nil => rfl
  | cons e act ih =>
    rw [lookupEntry, List.find?_cons]
    by_cases h : ptr < e.pointer
    · simp [h]
    · rw [if_neg h, ih]
      cases act <;> simp [h, List.getLast?_cons]

/-! ## What the lookup is for -/

/-- The range of a unit, without its end. -/
def DwarfCompUnit.contains (u : DwarfCompUnit) (ptr : Ptr) : Prop :=
  u.lowpc ≤ ptr ∧ ptr < u.highpc

/-- The ranges of the units are disjoint, the entries of each are sorted, and no two entries are
at one address. -/
structure HandleWf (h : DwarfHandle) : Prop where
  disjoint : h.entries.Pairwise fun u v => ∀ ptr, ¬ (u.contains ptr ∧ v.contains ptr)
  sorted : ∀ u ∈ h.entries, u.entries.Pairwise fun e e' => e.pointer ≤ e'.pointer
  addrs : ((h.entries.flatMap DwarfCompUnit.entries).map DwarfEntry.addr).Nodup

/-- `e` is an entry of the unit at or below the address, with none between. -/
def Nearest (u : DwarfCompUnit) (ptr : Ptr) (e : DwarfEntry) : Prop :=
  e ∈ u.entries ∧ e.pointer ≤ ptr ∧ ∀ e' ∈ u.entries, ¬ (e.pointer < e'.pointer ∧ e'.pointer ≤ ptr)

/-- The result is the nearest entry of the unit that contains the address, and `NULL` if no unit
does, or it has no entry at or below the address. -/
structure LookupOk (h : DwarfHandle) (ptr : Ptr) (res : LookupResult) : Prop where
  found : ∀ u ∈ h.entries, u.contains ptr → (∃ e ∈ u.entries, e.pointer ≤ ptr) →
    ∃ e, res = .entry e ∧ Nearest u ptr e
  missing : (∀ u ∈ h.entries, u.contains ptr → ∀ e ∈ u.entries, ptr < e.pointer) → res = .null

/-- The first unit whose range, with both its bounds, comes near the address. -/
def foundUnit (h : DwarfHandle) (ptr : Ptr) : Option DwarfCompUnit :=
  h.entries.find? fun u => u.lowpc ≤ ptr ∧ ptr ≤ u.highpc

/-- No range comes near the address with either bound, or the first that does has it below its end
and only entries at or below it. -/
def LookupWorks (h : DwarfHandle) (ptr : Ptr) : Prop :=
  (∀ u ∈ h.entries, ¬ (u.lowpc ≤ ptr ∧ ptr ≤ u.highpc)) ∨
    ∃ u, foundUnit h ptr = some u ∧ ptr < u.highpc ∧ u.entries ≠ [] ∧
      ∀ e ∈ u.entries, e.pointer ≤ ptr

/-- Units that share an entry are one. -/
theorem HandleWf.unit_eq {h : DwarfHandle} (hh : HandleWf h) {u v : DwarfCompUnit}
    (hu : u ∈ h.entries) (hv : v ∈ h.entries) {e : DwarfEntry} (heu : e ∈ u.entries)
    (hev : e ∈ v.entries) : u = v := by
  have haddrs := hh.addrs
  rw [List.map_flatMap, List.nodup_flatMap] at haddrs
  by_contra hne
  have hsymm : Std.Symm (Function.onFun List.Disjoint fun u : DwarfCompUnit =>
      u.entries.map DwarfEntry.addr) := ⟨fun _ _ hd => hd.symm⟩
  have hdisj := haddrs.2.forall hu hv hne
  exact hdisj (List.mem_map_of_mem heu) (List.mem_map_of_mem hev)

theorem HandleWf.contains_eq {h : DwarfHandle} (hh : HandleWf h) {u v : DwarfCompUnit}
    (hu : u ∈ h.entries) (hv : v ∈ h.entries) {ptr : Ptr} (hcu : u.contains ptr)
    (hcv : v.contains ptr) : u = v := by
  by_contra hne
  have hsymm : Std.Symm fun u v : DwarfCompUnit => ∀ ptr, ¬ (u.contains ptr ∧ v.contains ptr) :=
    ⟨fun _ _ hd ptr hc => hd ptr hc.symm⟩
  exact hh.disjoint.forall hu hv hne ptr ⟨hcu, hcv⟩

/-- In a sorted line table the last entry has none behind it. -/
theorem nearest_getLast {u : DwarfCompUnit} {ptr : Ptr} {e : DwarfEntry}
    (hsorted : u.entries.Pairwise fun e e' => e.pointer ≤ e'.pointer)
    (hlast : u.entries.getLast? = some e) (hle : e.pointer ≤ ptr) : Nearest u ptr e := by
  obtain ⟨pre, hpre⟩ := List.getLast?_eq_some_iff.mp hlast
  refine ⟨List.mem_of_getLast? hlast, hle, fun e' he' hbetween => ?_⟩
  rw [hpre] at hsorted he'
  rcases List.mem_append.mp he' with hm | hm
  · have hle' := (List.pairwise_append.mp hsorted).2.2 e' hm e List.mem_cons_self
    exact absurd hbetween.1 (Nat.not_lt.mpr hle')
  · rw [List.mem_singleton.mp hm] at hbetween
    exact absurd hbetween.1 (Nat.lt_irrefl _)

section Lookup

variable {h : DwarfHandle} {ptr : Ptr} {tolerance : Nat} {u : DwarfCompUnit}

theorem foundUnit_mem (hu : foundUnit h ptr = some u) :
    u ∈ h.entries ∧ u.lowpc ≤ ptr ∧ ptr ≤ u.highpc := by
  refine ⟨List.mem_of_find?_eq_some hu, ?_⟩
  simpa using List.find?_some hu

theorem dwLookup_none (hu : foundUnit h ptr = none) : dwLookup h ptr tolerance = .null := by
  rw [foundUnit] at hu
  rw [dwLookup, lookupUnit_eq, hu]

theorem dwLookup_some (hu : foundUnit h ptr = some u) {e : DwarfEntry}
    (he : (u.entries.find? fun e => ptr < e.pointer).or u.entries.getLast? = some e) :
    dwLookup h ptr tolerance = .entry e := by
  rw [foundUnit] at hu
  rw [dwLookup, lookupUnit_eq, hu]
  simp only [lookupEntry_eq, Option.or_none, he]

/-- **In a unit the lookup gives one of its entries**, or nothing defined if it has none. -/
theorem dwLookup_unit (hu : foundUnit h ptr = some u) :
    (∃ e ∈ u.entries, dwLookup h ptr tolerance = .entry e) ∨
      (u.entries = [] ∧ dwLookup h ptr tolerance = .indeterminate) := by
  cases he : (u.entries.find? fun e => ptr < e.pointer).or u.entries.getLast? with
  | some e =>
    refine Or.inl ⟨e, ?_, dwLookup_some hu he⟩
    rcases Option.or_eq_some_iff.mp he with hfind | ⟨_, hlast⟩
    · exact List.mem_of_find?_eq_some hfind
    · exact List.mem_of_getLast? hlast
  | none =>
    refine Or.inr ⟨List.getLast?_eq_none_iff.mp (Option.or_eq_none_iff.mp he).2, ?_⟩
    rw [foundUnit] at hu
    rw [dwLookup, lookupUnit_eq, hu]
    simp only [lookupEntry_eq, Option.or_none, he]

/-- A right answer in a unit is a right answer for the address. -/
theorem lookupOk_of_nearest (hh : HandleWf h) (hu : u ∈ h.entries) (hcu : u.contains ptr)
    {e : DwarfEntry} (hnear : Nearest u ptr e) : LookupOk h ptr (.entry e) := by
  refine ⟨fun v hv hcv _ => ?_, fun hmissing => ?_⟩
  · obtain rfl := hh.contains_eq hu hv hcu hcv
    exact ⟨e, rfl, hnear⟩
  · exact absurd hnear.2.1 (Nat.not_le.mpr (hmissing u hu hcu e hnear.1))

/-- What a right answer says of the unit that the first loop found. -/
theorem found_of_lookupOk (hh : HandleWf h) (hu : foundUnit h ptr = some u)
    (hok : LookupOk h ptr (dwLookup h ptr tolerance)) :
    ptr < u.highpc ∧ u.entries ≠ [] ∧ ∀ e ∈ u.entries, e.pointer ≤ ptr := by
  have hin := @dwLookup_unit h ptr tolerance u hu
  -- the result is not `NULL`, so some unit contains the address and has an entry for it
  have hnull : dwLookup h ptr tolerance ≠ .null := by
    rcases hin with ⟨e, _, hres⟩ | ⟨_, hres⟩
    · rw [hres]
      exact fun hn => nomatch hn
    · rw [hres]
      exact fun hn => nomatch hn
  obtain ⟨v, hv, hcv, hev⟩ : ∃ v ∈ h.entries, v.contains ptr ∧ ∃ e ∈ v.entries,
      e.pointer ≤ ptr := by
    by_contra hno
    refine hnull (hok.missing fun v hv hcv e he => ?_)
    by_contra hle
    exact hno ⟨v, hv, hcv, e, he, Nat.not_lt.mp hle⟩
  obtain ⟨e, hres, hmem, hle, _⟩ := hok.found v hv hcv hev
  obtain rfl : u = v := by
    rcases hin with ⟨e', he', hres'⟩ | ⟨_, hres'⟩
    · obtain rfl : e' = e := LookupResult.entry.inj (hres'.symm.trans hres)
      exact hh.unit_eq (foundUnit_mem hu).1 hv he' hmem
    · cases hres'.symm.trans hres
  refine ⟨hcv.2, List.ne_nil_of_mem hmem, fun e' he' => ?_⟩
  by_contra hgt
  -- otherwise the second loop stops at an entry behind the address
  obtain ⟨e1, he1⟩ : ∃ e1, (u.entries.find? fun e => ptr < e.pointer) = some e1 := by
    refine Option.isSome_iff_exists.mp (List.find?_isSome.mpr ⟨e', he', ?_⟩)
    simpa using hgt
  have hstop := @dwLookup_some h ptr tolerance u hu e1 (by rw [he1]; rfl)
  obtain rfl : e1 = e := LookupResult.entry.inj (hstop.symm.trans hres)
  have hbehind : ptr < e1.pointer := by simpa using List.find?_some he1
  exact absurd hle (Nat.not_le.mpr hbehind)

/-- **The lookup gives the entry of an address exactly when** no range comes near it, or it is below
the end of the first that does, whose entries are all at or below it. -/
theorem dwLookup_ok_iff (hh : HandleWf h) (ptr : Ptr) (tolerance : Nat) :
    LookupOk h ptr (dwLookup h ptr tolerance) ↔ LookupWorks h ptr := by
  cases hfind : foundUnit h ptr with
  | none =>
    have hnone : ∀ u ∈ h.entries, ¬ (u.lowpc ≤ ptr ∧ ptr ≤ u.highpc) := by
      intro u hu
      have hno := List.find?_eq_none.mp hfind u hu
      simpa using hno
    refine iff_of_true ⟨fun u hu hc _ => ?_, fun _ => dwLookup_none hfind⟩ (Or.inl hnone)
    exact absurd ⟨hc.1, Nat.le_of_lt hc.2⟩ (hnone u hu)
  | some u =>
    obtain ⟨hu, hlow, hhigh⟩ := foundUnit_mem hfind
    constructor
    · exact fun hok => Or.inr ⟨u, hfind, found_of_lookupOk hh hfind hok⟩
    · rintro (hno | ⟨u', hfind', hlt, hne, hall⟩)
      · exact absurd ⟨hlow, hhigh⟩ (hno u hu)
      obtain rfl : u = u' := Option.some.inj (hfind.symm.trans hfind')
      obtain ⟨e, hlast⟩ : ∃ e, u.entries.getLast? = some e := by
        cases hl : u.entries.getLast? with
        | none => exact absurd (List.getLast?_eq_none_iff.mp hl) hne
        | some e => exact ⟨e, rfl⟩
      have hstop : (u.entries.find? fun e => ptr < e.pointer) = none := by
        refine List.find?_eq_none.mpr fun e' he' => ?_
        simpa using hall e' he'
      rw [dwLookup_some hfind (by rw [hstop, hlast]; rfl)]
      exact lookupOk_of_nearest hh hu ⟨hlow, hlt⟩
        (nearest_getLast (hh.sorted u hu) hlast (hall e (List.mem_of_getLast? hlast)))

end Lookup

/-- A unit of two entries, with another one behind it. -/
def sampleHandle : DwarfHandle :=
  ⟨"a.out".toList, [⟨[⟨1, 7, 10, 3⟩, ⟨2, 7, 14, 4⟩], 10, 20⟩, ⟨[⟨3, 8, 20, 1⟩], 20, 30⟩]⟩

theorem sampleHandle_wf : HandleWf sampleHandle where
  disjoint := by
    simp only [sampleHandle, DwarfCompUnit.contains, List.pairwise_cons, List.mem_singleton]
    refine ⟨?_, fun _ h => absurd h List.not_mem_nil, List.Pairwise.nil⟩
    rintro v rfl ptr ⟨⟨_, hu⟩, ⟨hv, _⟩⟩
    exact absurd hv (Nat.not_le.mpr hu)
  sorted := by simp [sampleHandle]
  addrs := by decide

theorem dwLookup_ok_after : LookupOk sampleHandle 16 (dwLookup sampleHandle 16 48) :=
  (dwLookup_ok_iff sampleHandle_wf 16 48).mpr
    (Or.inr ⟨⟨[⟨1, 7, 10, 3⟩, ⟨2, 7, 14, 4⟩], 10, 20⟩, by decide, by decide, by decide, by decide⟩)

/-- Between two entries the lookup gives the later one. -/
theorem dwLookup_between :
    ¬ ∀ (h : DwarfHandle) (ptr : Ptr) (tolerance : Nat), HandleWf h →
      LookupOk h ptr (dwLookup h ptr tolerance) := by
  intro hall
  have hok := hall sampleHandle 12 48 sampleHandle_wf
  obtain ⟨e, hres, _, hle, _⟩ := hok.found ⟨[⟨1, 7, 10, 3⟩, ⟨2, 7, 14, 4⟩], 10, 20⟩ (by decide)
    ⟨by decide, by decide⟩ ⟨⟨1, 7, 10, 3⟩, by decide, by decide⟩
  have hgot : dwLookup sampleHandle 12 48 = .entry ⟨2, 7, 14, 4⟩ := by decide
  obtain rfl := LookupResult.entry.inj (hgot.symm.trans hres)
  exact absurd hle (by decide)

end Tinu
