import Tinu.Message

/-!
# Looking up names (`names.c`)

An entry with its exact length matches its name only.  For an entry of negative length only the
bytes of the string that is looked up are compared, so it matches every string that its name
starts with.

* `find?_or` — the first item with one of two properties;
* `tinuLookupName_eq` — what is found: an entry whose name starts with the string, or else the
  entry of the name;
* `tinuLookupName_exact` — tables of exact lengths;
* `tinuLookupName_ok_iff` — any table.
-/

set_option autoImplicit false

namespace Tinu

/-! ## The functions of `names.c` -/

/-- `strncmp (s, t, n) == 0`. -/
def strncmpEq (s t : CString) (n : Nat) : Bool := s.take n == t.take n

/-- The number of bytes that are looked up. -/
def lookupLength (name : CString) (length : Int) : Nat :=
  if 0 ≤ length then length.toNat else name.length

/-- The loop of `tinu_lookup_name` stops at the entry. -/
def nameMatches (name : CString) (rlen : Nat) (e : NameEntry) : Bool :=
  if 0 ≤ e.length ∧ e.length ≠ rlen then false else strncmpEq e.name name rlen

/-- `tinu_lookup_name`. -/
def tinuLookupName (table : List NameEntry) (name : CString) (length errkey : Int) : Int :=
  match table.find? (nameMatches name (lookupLength name length)) with
  | none => errkey
  | some e => e.key

/-- `*length` in `tinu_lookup_key`. -/
def entryLength (e : NameEntry) : Int := if 0 ≤ e.length then e.length else e.name.length

/-- `tinu_lookup_key`, with the length. -/
def tinuLookupKeyLength (table : List NameEntry) (key : Int) : Option (CString × Int) :=
  (table.find? fun e => e.key == key).map fun e => (e.name, entryLength e)

/-- `msg_get_priority_value`. -/
def msgGetPriorityValue (name : CString) : Int := tinuLookupName messagePriorityNames name (-1) (-1)

/-! ## What they should do -/

/-- Every entry gives the length of its name, or a negative one. -/
def EntriesOk (table : List NameEntry) : Prop :=
  ∀ e ∈ table, e.length = e.name.length ∨ e.length < 0

/-- The bytes that are looked up. -/
def firstBytes (name : CString) (length : Int) : CString := name.take (lookupLength name length)

/-- The key of the first entry of the name. -/
def keyOfName (table : List NameEntry) (name : CString) (errkey : Int) : Int :=
  ((table.find? fun e => e.name = name).map NameEntry.key).getD errkey

/-- `tinu_lookup_name` gives the key of the name. -/
def NameLookupOk (table : List NameEntry) (name : CString) (length errkey : Int) : Prop :=
  tinuLookupName table name length errkey = keyOfName table (firstBytes name length) errkey

/-- The name and length of a key give it back. -/
def NameRoundTripOk (table : List NameEntry) (key errkey : Int) : Prop :=
  ∃ name length, tinuLookupKeyLength table key = some (name, length) ∧
    tinuLookupName table name length errkey = key

/-- The first entry of negative length whose name starts with the string, before those of the
name itself. -/
def firstExtension (table : List NameEntry) (name : CString) : Option NameEntry :=
  (table.takeWhile fun e => e.name ≠ name).find? fun e => e.length < 0 ∧ name <+: e.name

/-! ## The entry that is found -/

/-- The first item with one of two properties has the first of them before any has the other, or
is the first with the other. -/
theorem find?_or {α : Type} (p q : α → Bool) (l : List α) :
    l.find? (fun a => p a || q a) = ((l.takeWhile fun a => !q a).find? p).or (l.find? q) := by
  induction l with
  | nil => rfl
  | cons a l ih =>
    cases hq : q a with
    | true => simp [hq]
    | false =>
      cases hp : p a with
      | true => simp [hp, hq]
      | false => simp [hp, hq, ih]

theorem firstBytes_length {name : CString} {length : Int} (hle : length ≤ name.length) :
    (firstBytes name length).length = lookupLength name length := by
  rw [firstBytes, List.length_take, lookupLength]
  split <;> omega

/-- An entry matches the strings its name starts with, when its length is negative; and its
name. -/
theorem nameMatches_eq {e : NameEntry} (he : e.length = e.name.length ∨ e.length < 0)
    {name : CString} {length : Int} (hle : length ≤ name.length) :
    nameMatches name (lookupLength name length) e =
      (decide (e.length < 0 ∧ firstBytes name length <+: e.name) ||
        decide (e.name = firstBytes name length)) := by
  have hlen := firstBytes_length hle
  have hcmp : strncmpEq e.name name (lookupLength name length) = true ↔
      firstBytes name length <+: e.name := by
    rw [strncmpEq, beq_iff_eq, List.prefix_iff_eq_take, hlen]
    exact eq_comm
  rw [Bool.eq_iff_iff, Bool.or_eq_true, decide_eq_true_iff, decide_eq_true_iff, nameMatches]
  by_cases hneg : e.length < 0
  · rw [if_neg (fun h => absurd h.1 (Int.not_le_of_gt hneg)), hcmp]
    constructor
    · exact fun h => .inl ⟨hneg, h⟩
    · rintro (h | h)
      · exact h.2
      · rw [h]
  · have hexact := he.resolve_right hneg
    by_cases hn : e.name.length = lookupLength name length
    · rw [if_neg (by omega), hcmp]
      constructor
      · exact fun h => .inr (h.eq_of_length (hlen.trans hn.symm)).symm
      · rintro (h | h)
        · exact absurd h.1 hneg
        · rw [h]
    · rw [if_pos (by omega)]
      constructor
      · exact fun h => absurd h Bool.false_ne_true
      · rintro (h | h)
        · exact absurd h.1 hneg
        · exact absurd (by rw [h, hlen]) hn

/-- **What is found**: an entry whose name starts with the string, if one stands before the entry
of the name, or else that one. -/
theorem tinuLookupName_eq {table : List NameEntry} (hentries : EntriesOk table) {name : CString}
    {length : Int} (hle : length ≤ name.length) (errkey : Int) :
    tinuLookupName table name length errkey =
      ((firstExtension table (firstBytes name length)).map NameEntry.key).getD
        (keyOfName table (firstBytes name length) errkey) := by
  have hfind : table.find? (nameMatches name (lookupLength name length)) =
      (firstExtension table (firstBytes name length)).or
        (table.find? fun e => e.name = firstBytes name length) := by
    rw [List.find?_congr fun e he => nameMatches_eq (hentries e he) hle, find?_or, firstExtension]
    simp only [decide_not]
  rw [tinuLookupName, hfind, keyOfName]
  cases firstExtension table (firstBytes name length) with
  | some b => rfl
  | none =>
    cases table.find? fun e => e.name = firstBytes name length with
    | none => rfl
    | some e => rfl

/-- **A table of exact lengths** is looked up by name. -/
theorem tinuLookupName_exact {table : List NameEntry}
    (hexact : ∀ e ∈ table, e.length = e.name.length) {name : CString} {length : Int}
    (hle : length ≤ name.length) (errkey : Int) : NameLookupOk table name length errkey := by
  have hnone : firstExtension table (firstBytes name length) = none := by
    rw [firstExtension, List.find?_eq_none]
    intro e he
    have hlen := hexact e ((List.takeWhile_prefix _).mem he)
    simp only [decide_eq_true_eq, not_and]
    omega
  rw [NameLookupOk, tinuLookupName_eq (fun e he => .inl (hexact e he)) hle, hnone]
  rfl

/-! ## Any table -/

/-- An item is the first of its value, where the values are distinct. -/
theorem find?_of_nodup {α β : Type} [DecidableEq β] {f : α → β} {l : List α}
    (hnodup : (l.map f).Nodup) {a : α} (ha : a ∈ l) : (l.find? fun b => f b = f a) = some a := by
  cases hfind : l.find? fun b => f b = f a with
  | none => exact absurd (decide_eq_true rfl) (List.find?_eq_none.mp hfind a ha)
  | some b =>
    have heq : f b = f a := by simpa using List.find?_some hfind
    rw [List.inj_on_of_nodup_map hnodup (List.mem_of_find?_eq_some hfind) ha heq]

theorem entryLength_eq {e : NameEntry} (he : e.length = e.name.length ∨ e.length < 0) :
    entryLength e = e.name.length := by
  unfold entryLength
  split <;> omega

theorem nameLookupOk_iff {table : List NameEntry} (hentries : EntriesOk table) {name : CString}
    {length : Int} (hle : length ≤ name.length) (errkey : Int) :
    NameLookupOk table name length errkey ↔ ∀ b ∈ firstExtension table (firstBytes name length),
      b.key = keyOfName table (firstBytes name length) errkey := by
  rw [NameLookupOk, tinuLookupName_eq hentries hle]
  cases firstExtension table (firstBytes name length) with
  | none => simp
  | some b => simp

/-- A string is looked up whole at its own length. -/
theorem firstBytes_self (name : CString) : firstBytes name name.length = name := by
  rw [firstBytes, lookupLength, if_pos (Int.natCast_nonneg _), Int.toNat_natCast, List.take_length]

/-- A key is given the name and the length of its entry. -/
theorem tinuLookupKeyLength_of_mem {table : List NameEntry} (hentries : EntriesOk table)
    (hkeys : (table.map NameEntry.key).Nodup) {e : NameEntry} (he : e ∈ table) :
    tinuLookupKeyLength table e.key = some (e.name, (e.name.length : Int)) := by
  have hfind : (table.find? fun b => b.key == e.key) = some e := find?_of_nodup hkeys he
  rw [tinuLookupKeyLength, hfind, Option.map_some, entryLength_eq (hentries e he)]

/-- An entry that extends a name has another key. -/
theorem firstExtension_key_ne {table : List NameEntry} (hkeys : (table.map NameEntry.key).Nodup)
    {e b : NameEntry} (he : e ∈ table) (hext : firstExtension table e.name = some b) :
    b.key ≠ e.key := by
  have hmem := List.mem_of_find?_eq_some hext
  have hne : b.name ≠ e.name := by simpa using List.mem_takeWhile_imp hmem
  have hb : b ∈ table := (List.takeWhile_prefix _).mem hmem
  exact fun heq => hne (congrArg NameEntry.name (List.inj_on_of_nodup_map hkeys hb he heq))

/-- The entry of a name that is looked up by its length. -/
theorem nameRoundTripOk_iff {table : List NameEntry} (hentries : EntriesOk table)
    (hnames : (table.map NameEntry.name).Nodup) (hkeys : (table.map NameEntry.key).Nodup)
    {e : NameEntry} (he : e ∈ table) (errkey : Int) :
    NameRoundTripOk table e.key errkey ↔ firstExtension table e.name = none := by
  have hkey := tinuLookupKeyLength_of_mem hentries hkeys he
  have hname : keyOfName table e.name errkey = e.key := by
    rw [keyOfName, find?_of_nodup hnames he]
    rfl
  have hlookup := tinuLookupName_eq hentries (Int.le_refl (e.name.length : Int)) errkey
  rw [firstBytes_self, hname] at hlookup
  have hround : NameRoundTripOk table e.key errkey ↔
      tinuLookupName table e.name e.name.length errkey = e.key := by
    constructor
    · rintro ⟨name, length, hget, hback⟩
      rw [hkey] at hget
      cases hget
      exact hback
    · exact fun h => ⟨_, _, hkey, h⟩
  rw [hround, hlookup]
  cases hext : firstExtension table e.name with
  | none => simp
  | some b => simp [firstExtension_key_ne hkeys he hext]

/-- **Looking up a name** is exact, and undoes looking up a key, exactly when no entry of negative
length whose name properly extends the string is met first, or the one that is has the right
key. -/
theorem tinuLookupName_ok_iff {table : List NameEntry} (hentries : EntriesOk table) :
    (∀ (name : CString) (length errkey : Int), length ≤ name.length →
      (NameLookupOk table name length errkey ↔ ∀ b ∈ firstExtension table (firstBytes name length),
        b.key = keyOfName table (firstBytes name length) errkey)) ∧
    ((table.map NameEntry.name).Nodup → (table.map NameEntry.key).Nodup →
      ∀ e ∈ table, ∀ errkey,
        (NameRoundTripOk table e.key errkey ↔ firstExtension table e.name = none)) :=
  ⟨fun _ _ errkey hle => nameLookupOk_iff hentries hle errkey,
    fun hnames hkeys _ he errkey => nameRoundTripOk_iff hentries hnames hkeys he errkey⟩

/-- `"alert"` is found, and given back, in front of `"alerting"`. -/
theorem tinuLookupName_ok_iff_mixed :
    NameLookupOk [⟨1, "alert".toList, 5⟩, ⟨2, "alerting".toList, -1⟩] "alert!".toList 5 (-1) ∧
      NameRoundTripOk [⟨1, "alert".toList, 5⟩, ⟨2, "alerting".toList, -1⟩] 1 (-1) := by
  have hentries : EntriesOk [⟨1, "alert".toList, 5⟩, ⟨2, "alerting".toList, -1⟩] := by
    unfold EntriesOk
    decide
  obtain ⟨hlookup, hround⟩ := tinuLookupName_ok_iff hentries
  exact ⟨(hlookup "alert!".toList 5 (-1) (by decide)).mpr (by decide),
    (hround (by decide) (by decide) ⟨1, "alert".toList, 5⟩ (by decide) (-1)).mpr (by decide)⟩

/-- `"a"` is taken for `"ab"`. -/
theorem tinuLookupName_extension :
    EntriesOk [⟨1, ['a', 'b'], -1⟩, ⟨2, ['a'], 1⟩] ∧
      ¬ NameLookupOk [⟨1, ['a', 'b'], -1⟩, ⟨2, ['a'], 1⟩] ['a'] (-1) (-1) ∧
      ¬ NameRoundTripOk [⟨1, ['a', 'b'], -1⟩, ⟨2, ['a'], 1⟩] 2 (-1) := by
  refine ⟨by unfold EntriesOk; decide, by unfold NameLookupOk; decide, ?_⟩
  rintro ⟨name, length, hget, hback⟩
  cases hget
  exact absurd hback (by decide)

end Tinu
