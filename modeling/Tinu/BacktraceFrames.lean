import Tinu.Message

/-!
# The frames of a backtrace (`backtrace.c`, `cxxwrap.cc`)

`backtrace_create_depth` keeps the frames of the call stack from `skip` on; it takes the depth for
its warnings only.  `CxxBacktrace::at` lets the index pass that is one too large, and the entry that
it gives never had its `m_function` set, which the destructor frees.

* `backtraceCreateDepth_eq` — the frames that are kept;
* `backtraceDump_eq`, `backtraceLine_eq`, `cxxBacktraceAt_eq` — what is visited, and what is at an
  index;
* `cxxEntryDestroy_cxxEntry` — no entry can be destroyed;
* `traceOk_iff` — the three accessors against the frames that were asked for.
-/

set_option autoImplicit false

namespace Tinu

/-! ## The data -/

def MAX_DEPTH : Nat := 4096

/-- `Dl_info`. -/
structure DlInfo where
  fname : Option CString
  sname : Option CString
  saddr : Ptr
  deriving DecidableEq, Repr

/-- `BacktraceEntry`; `BACKTRACE_ENTRY_INVALID` and `NULL` are no entry. -/
structure BacktraceEntry where
  ptr : Ptr
  offset : Nat
  function : CString
  file : Option CString
  deriving DecidableEq, Repr

/-- `dladdr`, where none is that it returns zero, `g_demangler` and `backtrace_resolv_lines`. -/
structure Resolver where
  dladdr : Ptr → Option DlInfo
  demangler : CString → CString
  resolvLines : Option BacktraceEntry → Option (CString × Nat)

/-- `struct _Backtrace`. -/
structure Backtrace where
  refcnt : Int
  length : Nat
  symbols : List Ptr
  deriving DecidableEq, Repr

/-- A member of an object, which holds anything until it is written. -/
inductive Member (α : Type) where
  | unset
  | set (value : α)
  deriving DecidableEq, Repr

/-- `CxxBacktrace::Entry`. -/
structure CxxBacktraceEntry where
  obj : Option BacktraceEntry
  function : Member (Option CString)
  source : CString
  line : Nat
  deriving DecidableEq, Repr

/-- How a call of `CxxBacktrace::at` ends. -/
inductive AtResult where
  | throws (what : CString)
  | entry (e : CxxBacktraceEntry)
  deriving DecidableEq, Repr

/-! ## The functions -/

/-- The entry of an address and its `Dl_info`. -/
def resolveEntry (e : Resolver) (info : DlInfo) (addr : Ptr) : BacktraceEntry :=
  { ptr := addr
    offset := (addr + (gsizeRange - info.saddr)) % gsizeRange
    function := (info.sname.map e.demangler).getD "<unknown>"
    file := info.fname }

/-- `_backtrace_resolve_info`.  There is no result when `dladdr` fails: the `if` ends in a
semicolon, so the `Dl_info` is read that was not set. -/
def backtraceResolveInfo (e : Resolver) (addr : Ptr) : Option (Option BacktraceEntry) :=
  if addr = NULL then some none
  else (e.dladdr addr).map fun info => some (resolveEntry e info addr)

/-- The tags of the warnings. -/
def depthTags (depth skip : Nat) : List MessageTag :=
  [msgTagInt "depth" (toGint depth), msgTagInt "skip" (toGint skip)]

/-- `backtrace_create_depth` on a call stack, with the messages that it logs. -/
def backtraceCreateDepth (stack : List Ptr) (depth skip : Nat) : Backtrace × List Message :=
  let buffer := stack.take MAX_DEPTH
  let nptr := buffer.length
  let exceeded :=
    if MAX_DEPTH < depth then
      [msgCreate LOG_WARNING "Requested depth exceeded maximum depth" (depthTags depth skip)]
    else []
  if nptr ≤ skip then
    (⟨1, 0, []⟩, exceeded ++ [msgCreate LOG_WARNING "Backtrace empty" (depthTags depth skip)])
  else (⟨1, nptr - skip, (buffer.drop skip).take (nptr - skip)⟩, exceeded)

/-- `backtrace_depth`. -/
def backtraceDepth (self : Backtrace) : Nat := self.length

/-- The loop of `backtrace_dump`: what the callback is called with. -/
def backtraceDumpLoop (e : Resolver) (self : Backtrace) :
    Nat → Nat → Option (List (Option BacktraceEntry))
  | _, 0 => some []
  | i, n + 1 => do
    let symbol ← self.symbols[i]?
    let entry ← backtraceResolveInfo e symbol
    let entries ← backtraceDumpLoop e self (i + 1) n
    some (entry :: entries)

/-- `backtrace_dump`. -/
def backtraceDump (e : Resolver) (self : Backtrace) : Option (List (Option BacktraceEntry)) :=
  backtraceDumpLoop e self 0 self.length

/-- `backtrace_line`. -/
def backtraceLine (e : Resolver) (self : Backtrace) (index : Nat) :
    Option (Option BacktraceEntry) :=
  if self.length ≤ index then some none
  else (self.symbols[index]?).bind (backtraceResolveInfo e)

/-- `backtrace_entry_destroy`: the strings that it frees, and no result for `NULL`. -/
def backtraceEntryDestroy (self : Option BacktraceEntry) : Option (List (Option CString)) :=
  self.map fun entry => [some entry.function, entry.file]

/-- `CxxBacktrace::Entry::Entry`, which does not set `m_function`. -/
def cxxEntry (e : Resolver) (entry : Option BacktraceEntry) : CxxBacktraceEntry :=
  match e.resolvLines entry with
  | some (source, line) => ⟨entry, .unset, source, line⟩
  | none => ⟨entry, .unset, "(unknown)", 0⟩

/-- `CxxBacktrace::Entry::~Entry`: the strings that it frees, and no result when it frees what was
never set. -/
def cxxEntryDestroy (self : CxxBacktraceEntry) : Option (List (Option CString)) := do
  let freed ← backtraceEntryDestroy self.obj
  match self.function with
  | .unset => none
  | .set none => some freed
  | .set (some function) => some (freed ++ [some function])

/-- `CxxBacktrace::at`. -/
def cxxBacktraceAt (e : Resolver) (self : Backtrace) (i : Nat) : Option AtResult :=
  if backtraceDepth self < i then some (.throws "Index out of range")
  else (backtraceLine e self i).map fun entry => .entry (cxxEntry e entry)

/-! ## What they should do -/

/-- The frames that are asked for. -/
def frames (stack : List Ptr) (depth skip : Nat) : List Ptr := (stack.drop skip).take depth

/-- The object stands for the frame with the entry, and can be destroyed as every object is. -/
structure CxxBacktraceEntry.Of (e : Resolver) (entry : BacktraceEntry) (c : CxxBacktraceEntry) :
    Prop where
  obj : c.obj = some entry
  location : (c.source, c.line) = (e.resolvLines (some entry)).getD ("(unknown)", 0)
  destroyed : cxxEntryDestroy c ≠ none

/-- The trace has the frames, in order, and the accessors give the one at the index, or say that
there is none. -/
structure TraceOk (e : Resolver) (info : Ptr → DlInfo) (trace : Backtrace) (asked : List Ptr)
    (i : Nat) : Prop where
  count : backtraceDepth trace = asked.length
  dump : backtraceDump e trace = some (asked.map fun f => some (resolveEntry e (info f) f))
  inside : ∀ f ∈ asked[i]?, backtraceLine e trace i = some (some (resolveEntry e (info f) f)) ∧
    ∃ c, cxxBacktraceAt e trace i = some (.entry c) ∧ c.Of e (resolveEntry e (info f) f)
  outside : asked[i]? = none → backtraceLine e trace i = some none ∧
    ∃ what, cxxBacktraceAt e trace i = some (.throws what)

/-! ## The frames -/

theorem frames_length (stack : List Ptr) (depth skip : Nat) :
    (frames stack depth skip).length = min depth (stack.length - skip) := by
  rw [frames, List.length_take, List.length_drop]

/-- **The frames that are kept** are all from `skip` on, whatever the depth. -/
theorem backtraceCreateDepth_eq {stack : List Ptr} (hstack : stack.length ≤ MAX_DEPTH)
    (depth skip : Nat) :
    (backtraceCreateDepth stack depth skip).1 = ⟨1, stack.length - skip, stack.drop skip⟩ := by
  have hbuffer : stack.take MAX_DEPTH = stack := List.take_of_length_le hstack
  simp only [backtraceCreateDepth, hbuffer]
  split
  · rename_i hle
    rw [List.drop_eq_nil_of_le hle, Nat.sub_eq_zero_of_le hle]
  · rw [List.take_of_length_le (Nat.le_of_eq List.length_drop)]

/-- The depth of a trace is that of the stack, less the frames that are skipped. -/
theorem backtraceDepth_eq {stack : List Ptr} (hstack : stack.length ≤ MAX_DEPTH)
    (depth skip : Nat) :
    backtraceDepth (backtraceCreateDepth stack depth skip).1 = stack.length - skip := by
  rw [backtraceCreateDepth_eq hstack, backtraceDepth]

/-- The loop of `backtrace_dump` visits what is left. -/
theorem backtraceDumpLoop_eq (e : Resolver) (self : Backtrace) :
    ∀ (n i : Nat), i + n = self.symbols.length →
      backtraceDumpLoop e self i n = (self.symbols.drop i).mapM (backtraceResolveInfo e)
  | 0, i, hn => by
    rw [List.drop_eq_nil_of_le (by omega)]
    rfl
  | n + 1, i, hn => by
    have hi : i < self.symbols.length := by omega
    rw [backtraceDumpLoop, List.getElem?_eq_getElem hi,
      backtraceDumpLoop_eq e self n (i + 1) (by omega), List.drop_eq_getElem_cons hi,
      List.mapM_cons]
    rfl

/-- **`backtrace_dump`** visits the frames that are kept. -/
theorem backtraceDump_eq (e : Resolver) {stack : List Ptr} (hstack : stack.length ≤ MAX_DEPTH)
    (depth skip : Nat) :
    backtraceDump e (backtraceCreateDepth stack depth skip).1 =
      (stack.drop skip).mapM (backtraceResolveInfo e) := by
  rw [backtraceCreateDepth_eq hstack]
  exact backtraceDumpLoop_eq e _ _ 0 (by rw [Nat.zero_add, List.length_drop])

/-- **`backtrace_line`** gives the frame at the index. -/
theorem backtraceLine_eq (e : Resolver) {stack : List Ptr} (hstack : stack.length ≤ MAX_DEPTH)
    (depth skip i : Nat) :
    backtraceLine e (backtraceCreateDepth stack depth skip).1 i =
      ((stack.drop skip)[i]?.map (backtraceResolveInfo e)).getD (some none) := by
  rw [backtraceCreateDepth_eq hstack, backtraceLine]
  dsimp only
  split
  · rename_i hle
    rw [List.getElem?_eq_none (by rw [List.length_drop]; exact hle)]
    rfl
  · rename_i hlt
    rw [List.getElem?_eq_getElem (by rw [List.length_drop]; omega)]
    rfl

/-- **`CxxBacktrace::at`** gives the frame at the index, and throws behind the one after the
last. -/
theorem cxxBacktraceAt_eq (e : Resolver) {stack : List Ptr} (hstack : stack.length ≤ MAX_DEPTH)
    (depth skip i : Nat) :
    cxxBacktraceAt e (backtraceCreateDepth stack depth skip).1 i =
      if stack.length - skip < i then some (.throws "Index out of range")
      else (backtraceLine e (backtraceCreateDepth stack depth skip).1 i).map fun entry =>
        .entry (cxxEntry e entry) := by
  rw [cxxBacktraceAt, backtraceDepth_eq hstack]

/-- **No entry can be destroyed**: the destructor frees the member that the constructor left. -/
theorem cxxEntryDestroy_cxxEntry (e : Resolver) (entry : Option BacktraceEntry) :
    cxxEntryDestroy (cxxEntry e entry) = none := by
  have hunset : (cxxEntry e entry).function = .unset := by
    unfold cxxEntry
    split <;> rfl
  rw [cxxEntryDestroy, hunset]
  cases backtraceEntryDestroy (cxxEntry e entry).obj <;> rfl

theorem mapM_eq_some {α β : Type} {f : α → Option β} {g : α → β} :
    ∀ {l : List α}, (∀ a ∈ l, f a = some (g a)) → l.mapM f = some (l.map g)
  | [], _ => rfl
  | a :: l, h => by
    rw [List.mapM_cons, h a List.mem_cons_self,
      mapM_eq_some fun b hb => h b (List.mem_cons_of_mem a hb)]
    rfl

/-- **The trace is the one that was asked for**, and its accessors agree with it, exactly when the
depth does not cut the stack off and the index is behind the one after the last frame: at a frame
there is an object that cannot be destroyed. -/
theorem traceOk_iff (e : Resolver) {info : Ptr → DlInfo} {stack : List Ptr}
    (hstack : stack.length ≤ MAX_DEPTH) (hframes : ∀ f ∈ stack, f ≠ NULL)
    (hdladdr : ∀ f ∈ stack, e.dladdr f = some (info f)) (depth skip i : Nat) :
    TraceOk e info (backtraceCreateDepth stack depth skip).1 (frames stack depth skip) i ↔
      stack.length - skip ≤ depth ∧ stack.length - skip < i := by
  have hdepth := backtraceDepth_eq hstack depth skip
  have hlen : (stack.drop skip).length = stack.length - skip := List.length_drop
  have hmem : ∀ f ∈ stack.drop skip, f ∈ stack := fun f hf => (List.drop_suffix skip stack).mem hf
  have hline := backtraceLine_eq e hstack depth skip i
  have hat := cxxBacktraceAt_eq e hstack depth skip i
  constructor
  · intro h
    have hle : stack.length - skip ≤ depth := by
      have hcount := h.count
      rw [hdepth, frames_length] at hcount
      omega
    refine ⟨hle, ?_⟩
    by_contra hlt
    rw [if_neg hlt] at hat
    cases hi : (frames stack depth skip)[i]? with
    | none =>
      -- behind the last frame there is an entry that stands for no frame
      obtain ⟨hnull, what, hthrows⟩ := h.outside hi
      rw [hat, hnull] at hthrows
      cases hthrows
    | some f =>
      obtain ⟨hentry, c, hc, hof⟩ := h.inside f hi
      rw [hat, hentry] at hc
      cases hc
      exact hof.destroyed (cxxEntryDestroy_cxxEntry e _)
  · rintro ⟨hle, hi⟩
    have hall : frames stack depth skip = stack.drop skip :=
      List.take_of_length_le (by rw [hlen]; exact hle)
    have hnone : (stack.drop skip)[i]? = none :=
      List.getElem?_eq_none (by rw [hlen]; exact Nat.le_of_lt hi)
    rw [hnone] at hline
    rw [if_pos hi] at hat
    refine ⟨?_, ?_, ?_, fun _ => ⟨hline, _, hat⟩⟩
    · rw [hdepth, hall, hlen]
    · rw [backtraceDump_eq e hstack, hall, mapM_eq_some fun f hf => ?_]
      rw [backtraceResolveInfo, if_neg (hframes f (hmem f hf)), hdladdr f (hmem f hf),
        Option.map_some]
    · intro f hf
      rw [hall, hnone] at hf
      cases hf

/-- What is said of every address: a function of its own. -/
def addressInfo (addr : Ptr) : DlInfo := ⟨none, some ['f'], addr⟩

/-- Every address is a function of its own, without lines. -/
def addressResolver : Resolver := ⟨fun addr => some (addressInfo addr), id, fun _ => none⟩

/-- Two of three frames are kept, and there is none at the index 3. -/
theorem traceOk_iff_three :
    TraceOk addressResolver addressInfo (backtraceCreateDepth [1, 2, 3] 8 1).1
      (frames [1, 2, 3] 8 1) 3 :=
  (traceOk_iff addressResolver (by decide) (by decide) (fun _ _ => rfl) 8 1 3).mpr (by decide)

/-- A depth of one keeps three frames; the object of the first frame cannot be destroyed; and the
index behind the last frame does not throw. -/
theorem traceOk_depth_one :
    ¬ TraceOk addressResolver addressInfo (backtraceCreateDepth [1, 2, 3] 1 0).1
        (frames [1, 2, 3] 1 0) 4 ∧
      ¬ TraceOk addressResolver addressInfo (backtraceCreateDepth [1, 2, 3] 3 0).1
        (frames [1, 2, 3] 3 0) 0 ∧
      ¬ TraceOk addressResolver addressInfo (backtraceCreateDepth [1, 2, 3] 3 0).1
        (frames [1, 2, 3] 3 0) 3 := by
  refine ⟨fun h => absurd h.count (by decide), fun h => ?_, fun h => ?_⟩
  · obtain ⟨-, c, hat, hof⟩ := h.inside 1 rfl
    cases hat
    exact hof.destroyed rfl
  · obtain ⟨_, what, hat⟩ := h.outside rfl
    cases hat

end Tinu
