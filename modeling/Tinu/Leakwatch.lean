import Tinu.Lib.TableView
import Tinu.Log

/-!
# The leak watch (`leakwatch.c`)

The allocator hooks of the C library tell every registered watch about the calls they see.  A
`tinu_leakwatch_simple` watch keeps a table of blocks, by address.  `Backtrace` objects are known
by their number; what is done to their reference counts is recorded in order.

* `Watching.alloc` — while a watch is registered, one allocator call is one `applyAlert` on its
  table, whatever other watches there are;
* `applyAlert_malloc`, `applyAlert_realloc`, `applyAlert_free` — what that does to the table.
-/

set_option autoImplicit false

namespace Tinu

/-- The number of a `Backtrace`. -/
abbrev TraceId := Nat

/-- `struct _MemoryEntry`. -/
structure MemoryEntry where
  ptr : Ptr
  size : Nat
  origin : Option TraceId
  last : Option TraceId
  deriving DecidableEq, Repr

/-- The `GHashTable` of a watch: entries by address. -/
abbrev MemoryTable := AList fun _ : Ptr => MemoryEntry

/-- What happens to a `Backtrace`. -/
inductive TraceOp where
  | create (trace : TraceId)
  | reference (trace : TraceId)
  | unreference (trace : TraceId)
  deriving DecidableEq, Repr

/-- `backtrace_unreference`; `NULL` is ignored. -/
def backtraceUnreference (trace : Option TraceId) : List TraceOp :=
  (trace.map .unreference).toList

inductive LeakwatchOperation where
  | malloc
  | realloc
  | free
  deriving DecidableEq, Repr

/-- The arguments of an `AllocCallback`, up to the trace. -/
structure Alert where
  operation : LeakwatchOperation
  oldptr : Ptr
  ptr : Ptr
  size : Nat
  deriving DecidableEq, Repr

/-! ## The table of a simple watch -/

/-- `_memory_entry_destroy`. -/
def memoryEntryDestroy (self : MemoryEntry) : List TraceOp :=
  backtraceUnreference self.origin ++ backtraceUnreference self.last

/-- The entry that a table drops under a key, destroyed. -/
def dropped (self : MemoryTable) (key : Ptr) : List TraceOp :=
  ((self.lookup key).map memoryEntryDestroy).getD []

/-- `g_hash_table_insert`; an old value under the key is destroyed. -/
def hashTableInsert (self : MemoryTable) (key : Ptr) (value : MemoryEntry) :
    MemoryTable × List TraceOp :=
  (self.insert key value, dropped self key)

/-- `g_hash_table_remove`. -/
def hashTableRemove (self : MemoryTable) (key : Ptr) : MemoryTable × List TraceOp :=
  (self.erase key, dropped self key)

/-- `_tinu_leakwatch_simple_callback`. -/
def tinuLeakwatchSimpleCallback (a : Alert) (trace : TraceId) (self : MemoryTable) :
    MemoryTable × List TraceOp :=
  match a.operation with
  | .malloc =>
    let entry : MemoryEntry := ⟨a.ptr, a.size, some trace, none⟩
    let r := hashTableInsert self a.ptr entry
    (r.1, .reference trace :: r.2)
  | .realloc =>
    match self.lookup a.oldptr with
    | none => (self, [])
    | some oldentry =>
      if a.ptr = a.oldptr then
        (self.insert a.oldptr { oldentry with last := some trace, size := a.size },
          backtraceUnreference oldentry.last ++ [.reference trace])
      else
        let entry : MemoryEntry := ⟨a.ptr, a.size, oldentry.origin, some trace⟩
        let r := hashTableRemove self a.oldptr
        let r' := hashTableInsert r.1 a.ptr entry
        (r'.1, (oldentry.origin.map .reference).toList ++ .reference trace :: (r.2 ++ r'.2))
  | .free => hashTableRemove self a.oldptr

/-- The table after an alert. -/
def applyAlert (a : Alert) (trace : TraceId) (self : MemoryTable) : MemoryTable :=
  (tinuLeakwatchSimpleCallback a trace self).1

/-- `tinu_leakwatch_summary`, with `_tinu_leakwatch_summary` for each entry. -/
def tinuLeakwatchSummary (result : MemoryTable) : Nat :=
  result.entries.foldl (fun res e => (res + e.2.size) % gsizeRange) 0

/-- A `gsize` passed as a `gint`. -/
def gintOfGsize (size : Nat) : Int := ((size : Int) + 2 ^ 31) % 2 ^ 32 - 2 ^ 31

/-- `_tinu_leakwatch_simple_dump`; `traceLines` gives the lines of a dumped trace. -/
def dumpEntry (traceLines : TraceId → List LogEntry) (priority : Int) (self : MemoryEntry) :
    List LogEntry :=
  .format priority "Memory leak found"
      [msgTagPtr "pointer" self.ptr, msgTagInt "size" (gintOfGsize self.size)] ::
    (match self.origin with
      | some trace => .format priority "  Original allocator" [] :: traceLines trace
      | none => []) ++
    (match self.last with
      | some trace => .format priority "  Last (re)allocator" [] :: traceLines trace
      | none => [])

/-- `tinu_leakwatch_simple_dump`. -/
def tinuLeakwatchSimpleDump (traceLines : TraceId → List LogEntry) (result : MemoryTable)
    (loglevel : Int) : List LogEntry :=
  result.entries.flatMap fun e => dumpEntry traceLines loglevel e.2

/-! ## Watches and allocator hooks -/

/-- `struct _Leakwatch` of a simple watch; `userData` is the address of its table. -/
structure Leakwatch where
  handle : Ptr
  userData : Ptr
  deriving DecidableEq, Repr

/-- What is in an allocator hook: the function of the leak watch, or another one. -/
inductive AllocHook where
  | leakwatch
  | other (fn : FnPtr)
  deriving DecidableEq, Repr

/-- `__malloc_hook`, `__realloc_hook` and `__free_hook`. -/
structure AllocHooks where
  malloc : AllocHook
  realloc : AllocHook
  free : AllocHook
  deriving DecidableEq, Repr

def AllocHooks.null : AllocHooks := ⟨.other NULL, .other NULL, .other NULL⟩

/-- `_leakwatch_malloc`, `_leakwatch_realloc` and `_leakwatch_free`. -/
def AllocHooks.leakwatch : AllocHooks := ⟨.leakwatch, .leakwatch, .leakwatch⟩

/-- The globals of `leakwatch.c`, the allocator hooks and the tables. -/
structure LeakwatchState where
  list : List Leakwatch
  count : Nat
  init : Bool
  hooks : AllocHooks
  saved : AllocHooks
  tables : Ptr → MemoryTable
  nextTrace : TraceId
  traceOps : List TraceOp

/-- No watch is registered. -/
def LeakwatchState.start : LeakwatchState :=
  ⟨[], 0, false, AllocHooks.null, AllocHooks.null, fun _ => ∅, 0, []⟩

/-- `g_hash_table_destroy` of a table. -/
def LeakwatchState.destroyTable (st : LeakwatchState) (tbl : Ptr) : LeakwatchState :=
  { st with
    tables := Function.update st.tables tbl ∅
    traceOps := st.traceOps ++ (st.tables tbl).entries.flatMap fun e => memoryEntryDestroy e.2 }

/-- `_hook_pause`. -/
def hookPause (st : LeakwatchState) : LeakwatchState :=
  if st.count > 0 then { st with hooks := AllocHooks.null } else st

/-- `_hook_resume`. -/
def hookResume (st : LeakwatchState) : LeakwatchState :=
  if st.count > 0 then { st with hooks := AllocHooks.leakwatch } else st

/-- One round of the loop of `_leakwatch_alert`. -/
def alertWatch (a : Alert) (trace : TraceId) (st : LeakwatchState) (cb : Leakwatch) :
    LeakwatchState :=
  let r := tinuLeakwatchSimpleCallback a trace (st.tables cb.userData)
  { st with
    tables := Function.update st.tables cb.userData r.1
    traceOps := st.traceOps ++ r.2 }

/-- `_leakwatch_alert`. -/
def leakwatchAlert (st : LeakwatchState) (a : Alert) : LeakwatchState :=
  let trace := st.nextTrace
  let st' := st.list.foldl (alertWatch a trace)
    { st with nextTrace := trace + 1, traceOps := st.traceOps ++ [.create trace] }
  { st' with traceOps := st'.traceOps ++ [.unreference trace] }

/-- `_leakwatch_malloc`; `res` is what the allocator returned. -/
def leakwatchMalloc (st : LeakwatchState) (size : Nat) (res : Ptr) : LeakwatchState :=
  let st := hookPause st
  hookResume (if res ≠ NULL then leakwatchAlert st ⟨.malloc, NULL, res, size⟩ else st)

/-- `_leakwatch_realloc`. -/
def leakwatchRealloc (st : LeakwatchState) (ptr : Ptr) (newsize : Nat) (res : Ptr) :
    LeakwatchState :=
  let st := hookPause st
  hookResume (if res ≠ NULL then leakwatchAlert st ⟨.realloc, ptr, res, newsize⟩ else st)

/-- `_leakwatch_free`. -/
def leakwatchFree (st : LeakwatchState) (ptr : Ptr) : LeakwatchState :=
  hookResume (leakwatchAlert (hookPause st) ⟨.free, ptr, NULL, 0⟩)

/-- A call of the allocator, with its result; `NULL` is a failure, or a release by
`realloc(ptr, 0)`. -/
inductive AllocCall where
  | malloc (size : Nat) (res : Ptr)
  | realloc (ptr : Ptr) (newsize : Nat) (res : Ptr)
  | free (ptr : Ptr)
  deriving DecidableEq, Repr

/-- The C library runs the hook of an allocator call. -/
def LeakwatchState.alloc (st : LeakwatchState) : AllocCall → LeakwatchState
  | .malloc size res => if st.hooks.malloc = .leakwatch then leakwatchMalloc st size res else st
  | .realloc ptr newsize res =>
    if st.hooks.realloc = .leakwatch then leakwatchRealloc st ptr newsize res else st
  | .free ptr => if st.hooks.free = .leakwatch then leakwatchFree st ptr else st

/-- `_tinu_leakwatch_enable`. -/
def tinuLeakwatchEnable (st : LeakwatchState) : LeakwatchState :=
  let st := if st.count = 0 then { st with saved := st.hooks, hooks := AllocHooks.leakwatch } else st
  { st with count := st.count + 1 }

/-- `tinu_register_watch`; `lw` is the address of the new record. -/
def tinuRegisterWatch (st : LeakwatchState) (lw : Ptr) (userData : Ptr) : LeakwatchState :=
  let st := hookPause (tinuLeakwatchEnable { st with init := true })
  hookResume { st with list := ⟨lw, userData⟩ :: st.list }

/-- `tinu_leakwatch_simple`; `result` is the address of the new table. -/
def tinuLeakwatchSimple (st : LeakwatchState) (lw : Ptr) (result : Ptr) : LeakwatchState :=
  tinuRegisterWatch { st with tables := Function.update st.tables result ∅ } lw result

/-- `_tinu_leakwatch_disable`; `none` when one of its assertions fails. -/
def tinuLeakwatchDisable (st : LeakwatchState) : Option LeakwatchState :=
  if st.count = 0 then none
  else if st.count = 1 then
    if st.list.isEmpty then
      some { st with hooks := st.saved, saved := AllocHooks.null, count := st.count - 1 }
    else none
  else some { st with count := st.count - 1 }

/-- `tinu_unregister_watch`, with the messages it emits. -/
def tinuUnregisterWatch (st : LeakwatchState) (handle : Ptr) :
    Option (Bool × LeakwatchState × List LogEntry) :=
  if ¬ st.init then
    some (false, st, [.wrap LOG_EMERG "Leakwatch subsystem uninitialized" []])
  else
    let st := hookPause st
    let act := st.list.find? fun lw => lw.handle == handle
    let st := hookResume { st with list := st.list.eraseP fun lw => lw.handle == handle }
    if act.isSome then (tinuLeakwatchDisable st).map fun st => (true, st, [])
    else
      some (false, st, [.wrap LOG_WARNING "Leakwatch handle is not registered"
        [msgTagPtr "handle" handle]])

/-! ## One alert on one table -/

theorem applyAlert_malloc (res : Ptr) (size : Nat) (trace : TraceId) (t : MemoryTable) :
    applyAlert ⟨.malloc, NULL, res, size⟩ trace t = t.insert res ⟨res, size, some trace, none⟩ :=
  rfl

theorem applyAlert_realloc_unknown {ptr res : Ptr} {size : Nat} {trace : TraceId}
    {t : MemoryTable} (h : t.lookup ptr = none) :
    applyAlert ⟨.realloc, ptr, res, size⟩ trace t = t := by
  simp [applyAlert, tinuLeakwatchSimpleCallback, h]

/-- A tracked block moves: its entry goes to the new address with the new size. -/
theorem applyAlert_realloc_tracked {ptr res : Ptr} {size : Nat} {trace : TraceId}
    {t : MemoryTable} {e : MemoryEntry} (h : t.lookup ptr = some e) (he : e.ptr = ptr) :
    ∀ x, (applyAlert ⟨.realloc, ptr, res, size⟩ trace t).lookup x =
      ((t.erase ptr).insert res ⟨res, size, e.origin, some trace⟩).lookup x := by
  intro x
  by_cases hr : res = ptr
  · subst hr
    rw [TableView.lookup_erase_insert]
    simp [applyAlert, tinuLeakwatchSimpleCallback, h, ← he]
  · simp [applyAlert, tinuLeakwatchSimpleCallback, h, hr, hashTableInsert, hashTableRemove]

/-- The summary is the sum of the sizes. -/
theorem tinuLeakwatchSummary_eq (t : MemoryTable) :
    tinuLeakwatchSummary t = (t.entries.map fun e => e.2.size).sum % gsizeRange := by
  have hfold : ∀ (l : List (Σ _ : Ptr, MemoryEntry)) (acc : Nat),
      l.foldl (fun res e => (res + e.2.size) % gsizeRange) (acc % gsizeRange) =
        (acc + (l.map fun e => e.2.size).sum) % gsizeRange := by
    intro l
    induction l with
    | nil => intro acc; simp
    | cons e l ih =>
      intro acc
      rw [List.foldl_cons, Nat.mod_add_mod, ih, List.map_cons, List.sum_cons, Nat.add_assoc]
  have := hfold t.entries 0
  simpa [tinuLeakwatchSummary] using this

/-! ## What allocator calls leave alone -/

/-- The alert that an allocator call raises, if any. -/
def AllocCall.alert : AllocCall → Option Alert
  | .malloc size res => if res ≠ NULL then some ⟨.malloc, NULL, res, size⟩ else none
  | .realloc ptr newsize res => if res ≠ NULL then some ⟨.realloc, ptr, res, newsize⟩ else none
  | .free ptr => some ⟨.free, ptr, NULL, 0⟩

/-- A table after an allocator call that its watch sees. -/
def AllocCall.apply (c : AllocCall) (trace : TraceId) (t : MemoryTable) : MemoryTable :=
  match c.alert with
  | some a => applyAlert a trace t
  | none => t

/-- What a hook function of the leak watch does, given the alert it raises. -/
def hooked (st : LeakwatchState) (a : Option Alert) : LeakwatchState :=
  hookResume (match a with
    | some a => leakwatchAlert (hookPause st) a
    | none => hookPause st)

/-- The two states have the same watches, registered in the same way. -/
structure SameWatches (a b : LeakwatchState) : Prop where
  list : b.list = a.list
  count : b.count = a.count
  init : b.init = a.init
  saved : b.saved = a.saved

theorem SameWatches.refl (a : LeakwatchState) : SameWatches a a := ⟨rfl, rfl, rfl, rfl⟩

theorem SameWatches.trans {a b c : LeakwatchState} (h : SameWatches a b) (h' : SameWatches b c) :
    SameWatches a c :=
  ⟨h'.list.trans h.list, h'.count.trans h.count, h'.init.trans h.init, h'.saved.trans h.saved⟩

theorem hookPause_same (st : LeakwatchState) : SameWatches st (hookPause st) := by
  unfold hookPause
  split <;> exact ⟨rfl, rfl, rfl, rfl⟩

theorem hookResume_same (st : LeakwatchState) : SameWatches st (hookResume st) := by
  unfold hookResume
  split <;> exact ⟨rfl, rfl, rfl, rfl⟩

theorem foldl_alertWatch_same (a : Alert) (trace : TraceId) :
    ∀ (ws : List Leakwatch) (st : LeakwatchState),
      SameWatches st (ws.foldl (alertWatch a trace) st)
  | [], st => SameWatches.refl st
  | w :: ws, st => by
    have hstep : SameWatches st (alertWatch a trace st w) := ⟨rfl, rfl, rfl, rfl⟩
    exact hstep.trans (foldl_alertWatch_same a trace ws _)

theorem leakwatchAlert_same (st : LeakwatchState) (a : Alert) :
    SameWatches st (leakwatchAlert st a) := by
  obtain ⟨hl, hc, hi, hs⟩ := foldl_alertWatch_same a st.nextTrace st.list
    { st with nextTrace := st.nextTrace + 1, traceOps := st.traceOps ++ [.create st.nextTrace] }
  exact ⟨hl, hc, hi, hs⟩

theorem hooked_same (st : LeakwatchState) (a : Option Alert) : SameWatches st (hooked st a) := by
  cases a with
  | none => exact (hookPause_same st).trans (hookResume_same _)
  | some a =>
    exact (hookPause_same st).trans ((leakwatchAlert_same _ a).trans (hookResume_same _))

/-- The hook that the C library runs for a call. -/
def AllocCall.hook (hooks : AllocHooks) : AllocCall → AllocHook
  | .malloc _ _ => hooks.malloc
  | .realloc _ _ _ => hooks.realloc
  | .free _ => hooks.free

theorem alloc_eq (st : LeakwatchState) (c : AllocCall) :
    st.alloc c = if c.hook st.hooks = .leakwatch then hooked st c.alert else st := by
  cases c with
  | malloc size res =>
    by_cases hr : res = NULL <;>
      simp [LeakwatchState.alloc, AllocCall.hook, leakwatchMalloc, AllocCall.alert, hooked, hr]
  | realloc ptr newsize res =>
    by_cases hr : res = NULL <;>
      simp [LeakwatchState.alloc, AllocCall.hook, leakwatchRealloc, AllocCall.alert, hooked, hr]
  | free ptr => rfl

/-- **An allocator call changes no registration.** -/
theorem alloc_same (st : LeakwatchState) (c : AllocCall) : SameWatches st (st.alloc c) := by
  rw [alloc_eq]
  split
  · exact hooked_same st _
  · exact SameWatches.refl st

theorem foldl_alloc_same (cs : List AllocCall) (st : LeakwatchState) :
    SameWatches st (cs.foldl LeakwatchState.alloc st) := by
  induction cs generalizing st with
  | nil => exact SameWatches.refl st
  | cons c cs ih => exact (alloc_same st c).trans (ih _)

/-- The watches are counted. -/
def LeakwatchState.Counted (st : LeakwatchState) : Prop := st.count = st.list.length

theorem SameWatches.counted {a b : LeakwatchState} (h : SameWatches a b) (ha : a.Counted) :
    b.Counted :=
  h.count.trans (ha.trans (congrArg List.length h.list.symm))

theorem tinuLeakwatchSimple_fields (st : LeakwatchState) (lw tbl : Ptr) :
    (tinuLeakwatchSimple st lw tbl).list = ⟨lw, tbl⟩ :: st.list ∧
      (tinuLeakwatchSimple st lw tbl).count = st.count + 1 ∧
      (tinuLeakwatchSimple st lw tbl).init = true := by
  by_cases hc : st.count = 0 <;>
    simp [tinuLeakwatchSimple, tinuRegisterWatch, tinuLeakwatchEnable, hookPause, hookResume, hc]

/-- **Unregistering the newest watch succeeds**, and leaves the others. -/
theorem tinuUnregisterWatch_newest {st : LeakwatchState} {lw tbl : Ptr} {ws : List Leakwatch}
    (hinit : st.init = true) (hlist : st.list = ⟨lw, tbl⟩ :: ws)
    (hcount : st.count = ws.length + 1) :
    ∃ st', tinuUnregisterWatch st lw = some (true, st', []) ∧ st'.list = ws ∧
      st'.Counted ∧ st'.tables = st.tables := by
  cases ws with
  | nil =>
    have hc : st.count = 1 := hcount
    refine ⟨_, by simp [tinuUnregisterWatch, hookPause, hookResume, tinuLeakwatchDisable, hinit,
      hlist, hc]; rfl, ?_⟩
    simp [LeakwatchState.Counted]
  | cons w ws =>
    have hc : st.count = ws.length + 2 := hcount
    refine ⟨_, by simp [tinuUnregisterWatch, hookPause, hookResume, tinuLeakwatchDisable, hinit,
      hlist, hc]; rfl, ?_⟩
    simp [LeakwatchState.Counted]

/-! ## One allocator call while a watch is registered -/

@[simp] theorem alertWatch_tables_self (a : Alert) (trace : TraceId) (st : LeakwatchState)
    (cb : Leakwatch) :
    (alertWatch a trace st cb).tables cb.userData = applyAlert a trace (st.tables cb.userData) := by
  simp [alertWatch, applyAlert]

theorem alertWatch_tables_ne {a : Alert} {trace : TraceId} {st : LeakwatchState} {cb : Leakwatch}
    {tbl : Ptr} (h : cb.userData ≠ tbl) :
    (alertWatch a trace st cb).tables tbl = st.tables tbl := by
  simp [alertWatch, Function.update_of_ne (Ne.symm h)]

theorem foldl_alertWatch_other {a : Alert} {trace : TraceId} {tbl : Ptr} :
    ∀ {ws : List Leakwatch} {st : LeakwatchState}, (∀ w ∈ ws, w.userData ≠ tbl) →
      (ws.foldl (alertWatch a trace) st).tables tbl = st.tables tbl
  | [], _, _ => rfl
  | w :: ws, st, h => by
    rw [List.foldl_cons, foldl_alertWatch_other fun w' hw' => h w' (List.mem_cons_of_mem _ hw')]
    exact alertWatch_tables_ne (h w List.mem_cons_self)

/-- Exactly one of the watches fills the table `tbl`. -/
def OnceIn (tbl : Ptr) (ws : List Leakwatch) : Prop :=
  ∃ before w after, ws = before ++ w :: after ∧ w.userData = tbl ∧
    (∀ w' ∈ before, w'.userData ≠ tbl) ∧ ∀ w' ∈ after, w'.userData ≠ tbl

/-- The watch with table `tbl` is registered, once, and sees the allocator. -/
structure Watching (tbl : Ptr) (st : LeakwatchState) : Prop where
  hooks : st.hooks = AllocHooks.leakwatch
  count : 0 < st.count
  once : OnceIn tbl st.list

theorem foldl_alertWatch_once {a : Alert} {trace : TraceId} {tbl : Ptr} {ws : List Leakwatch}
    {st : LeakwatchState} (h : OnceIn tbl ws) :
    (ws.foldl (alertWatch a trace) st).tables tbl = applyAlert a trace (st.tables tbl) := by
  obtain ⟨before, w, after, hl, rfl, hb, ha⟩ := h
  rw [hl, List.foldl_append, List.foldl_cons, foldl_alertWatch_other ha, alertWatch_tables_self,
    foldl_alertWatch_other hb]

theorem hooked_hooks {st : LeakwatchState} (hc : 0 < st.count) (a : Option Alert) :
    (hooked st a).hooks = AllocHooks.leakwatch := by
  have hcount : ∀ st' : LeakwatchState, SameWatches st st' →
      (hookResume st').hooks = AllocHooks.leakwatch := by
    intro st' h
    rw [hookResume, h.count, if_pos hc]
  cases a with
  | none => exact hcount _ (hookPause_same st)
  | some a => exact hcount _ ((hookPause_same st).trans (leakwatchAlert_same _ a))

/-- With the hooks installed, **one allocator call is at most one alert**. -/
theorem alloc_eq_hooked {st : LeakwatchState} (h : st.hooks = AllocHooks.leakwatch)
    (c : AllocCall) : st.alloc c = hooked st c.alert := by
  have hc : c.hook st.hooks = .leakwatch := by
    rw [h]
    cases c <;> rfl
  rw [alloc_eq, if_pos hc]

/-- A watch stays registered over an allocator call. -/
theorem Watching.alloc {tbl : Ptr} {st : LeakwatchState} (h : Watching tbl st) (c : AllocCall) :
    Watching tbl (st.alloc c) := by
  have hs := alloc_same st c
  refine ⟨?_, ?_, ?_⟩
  · rw [alloc_eq_hooked h.hooks]
    exact hooked_hooks h.count c.alert
  · rw [hs.count]
    exact h.count
  · rw [hs.list]
    exact h.once

/-- Its table after the call. -/
theorem Watching.alloc_table {tbl : Ptr} {st : LeakwatchState} (h : Watching tbl st)
    (c : AllocCall) : (st.alloc c).tables tbl = c.apply st.nextTrace (st.tables tbl) := by
  have hc := h.count
  rw [alloc_eq_hooked h.hooks]
  cases ha : c.alert with
  | none => simp [AllocCall.apply, ha, hooked, hookPause, hookResume, hc]
  | some a =>
    have hp : OnceIn tbl (hookPause st).list := by simpa [hookPause, hc] using h.once
    have htab : (leakwatchAlert (hookPause st) a).tables tbl =
        applyAlert a (hookPause st).nextTrace ((hookPause st).tables tbl) :=
      foldl_alertWatch_once hp
    have hres : ∀ st' : LeakwatchState, (hookResume st').tables = st'.tables := by
      intro st'
      unfold hookResume
      split <;> rfl
    simp only [hooked, hres, htab, AllocCall.apply, ha]
    simp [hookPause, hc]

/-- Registering a simple watch: it is watching, with an empty table. -/
theorem tinuLeakwatchSimple_watching {st : LeakwatchState} {lw tbl : Ptr}
    (hnew : ∀ w ∈ st.list, w.userData ≠ tbl) :
    Watching tbl (tinuLeakwatchSimple st lw tbl) ∧
      (tinuLeakwatchSimple st lw tbl).tables tbl = ∅ := by
  have hlist : (tinuLeakwatchSimple st lw tbl).list = ⟨lw, tbl⟩ :: st.list := by
    by_cases hc : st.count = 0 <;>
      simp [tinuLeakwatchSimple, tinuRegisterWatch, tinuLeakwatchEnable, hookPause, hookResume, hc]
  refine ⟨⟨?_, ?_, [], ⟨lw, tbl⟩, st.list, hlist, rfl, ?_, hnew⟩, ?_⟩
  · simp [tinuLeakwatchSimple, tinuRegisterWatch, tinuLeakwatchEnable, hookPause, hookResume]
  · simp [tinuLeakwatchSimple, tinuRegisterWatch, tinuLeakwatchEnable, hookPause, hookResume]
  · intro w hw
    cases hw
  · by_cases hc : st.count = 0 <;>
      simp [tinuLeakwatchSimple, tinuRegisterWatch, tinuLeakwatchEnable, hookPause, hookResume, hc]

end Tinu
