import Tinu.Leakwatch
import Tinu.Lib.RefCount

/-!
# The reference counts of backtraces

A `Backtrace` is held by the slots `m_origin` and `m_last` of the entries of all tables, and by
`_leakwatch_alert` while it runs.  `WatchStep` is what can happen to the leak watch: tables come
with their watches, allocator calls raise alerts, watches are unregistered, and tables without a
watch are destroyed.

* `turns_callback` — one watch, told about one event, turns the slots of its table before into
  those after, while the alert holds the trace;
* `backtraces_counted` — after every run, the counts of all traces are their slots.
-/

set_option autoImplicit false

namespace Tinu

open TableView (sumOver sumOver_erase sumOver_erase_of_none sumOver_insert)

/-! ## `m_refcnt` -/

/-- The operation of the library, on the traces. -/
def TraceOp.op : TraceOp → RefCount.Op TraceId
  | .create trace => .create trace
  | .reference trace => .reference trace
  | .unreference trace => .unreference trace

/-- `backtrace_create`, `backtrace_reference` and `backtrace_unreference` on the `m_refcnt` of the
traces that are allocated; `none` when the trace is not one of them, or for a new trace is. -/
def TraceOp.apply (refcnt : TraceId → Option Nat) : TraceOp → Option (TraceId → Option Nat)
  | .create trace =>
    if (refcnt trace).isNone then some (Function.update refcnt trace (some 1)) else none
  | .reference trace =>
    (refcnt trace).map fun n => Function.update refcnt trace (some (n + 1))
  | .unreference trace =>
    (refcnt trace).map fun n =>
      Function.update refcnt trace (if n - 1 = 0 then none else some (n - 1))

theorem TraceOp.apply_eq (refcnt : TraceId → Option Nat) (op : TraceOp) :
    op.apply refcnt = op.op.apply refcnt := by
  cases op <;> rfl

/-- The operations on the counts, one after the other. -/
def runTraceOps (ops : List TraceOp) : Option (TraceId → Option Nat) :=
  ops.foldlM (fun refcnt op => op.apply refcnt) fun _ => none

/-! ## Slots -/

/-- The slots of an entry, by trace. -/
def MemoryEntry.slots (e : MemoryEntry) : TraceId → Nat :=
  RefCount.slot e.origin + RefCount.slot e.last

/-- The slots of a table, by trace. -/
def slotsIn (t : MemoryTable) : TraceId → Nat := sumOver MemoryEntry.slots t

/-- The slots of the tables at the addresses `live`, by trace. -/
def slotsOf (live : Finset Ptr) (tables : Ptr → MemoryTable) : TraceId → Nat :=
  ∑ tbl ∈ live, slotsIn (tables tbl)

theorem slots_apply (e : MemoryEntry) (trace : TraceId) :
    e.slots trace = (if e.origin = some trace then 1 else 0) +
      if e.last = some trace then 1 else 0 := by
  have hslot : ∀ s : Option TraceId, RefCount.slot s trace = if s = some trace then 1 else 0 := by
    intro s
    cases s with
    | none => rfl
    | some t =>
      by_cases ht : t = trace
      · subst ht
        rw [if_pos rfl]
        exact Pi.single_eq_same t 1
      · rw [if_neg fun h => ht (Option.some.inj h)]
        exact Pi.single_eq_of_ne (Ne.symm ht) 1
  rw [MemoryEntry.slots, Pi.add_apply, hslot, hslot]

/-! ## One event on one table -/

/-- The operations turn references into others. -/
abbrev Turns (ops : List TraceOp) (c c' : TraceId → Nat) : Prop :=
  RefCount.Turns (ops.map TraceOp.op) c c'

theorem Turns.append {ops ops' : List TraceOp} {c c' c'' : TraceId → Nat} (h : Turns ops c c')
    (h' : Turns ops' c' c'') : Turns (ops ++ ops') c c'' := by
  unfold Turns
  rw [List.map_append]
  exact RefCount.Turns.append h h'

theorem Turns.cons {op : TraceOp} {ops : List TraceOp} {c c' c'' : TraceId → Nat}
    (h : Turns [op] c c') (h' : Turns ops c' c'') : Turns (op :: ops) c c'' := h.append h'

theorem turns_backtraceUnreference (c : TraceId → Nat) (trace : Option TraceId) :
    Turns (backtraceUnreference trace) (RefCount.slot trace + c) c := by
  cases trace with
  | none =>
    rw [RefCount.slot_none, zero_add]
    exact RefCount.Turns.nil c
  | some trace => exact RefCount.turns_unreference c trace

theorem turns_memoryEntryDestroy (c : TraceId → Nat) (e : MemoryEntry) :
    Turns (memoryEntryDestroy e) (e.slots + c) c := by
  have horigin := turns_backtraceUnreference (RefCount.slot e.last + c) e.origin
  rw [← add_assoc] at horigin
  exact horigin.append (turns_backtraceUnreference c e.last)

/-- What a table drops takes its slots away. -/
theorem turns_dropped (c : TraceId → Nat) (t : MemoryTable) (key : Ptr) :
    Turns (dropped t key) (slotsIn t + c) (slotsIn (t.erase key) + c) := by
  unfold dropped slotsIn
  cases h : t.lookup key with
  | none =>
    rw [sumOver_erase_of_none h]
    exact RefCount.Turns.nil _
  | some e =>
    rw [sumOver_erase h, add_assoc]
    exact turns_memoryEntryDestroy _ e

/-- An optional reference, taken while another holder has it. -/
theorem turns_reference_slot {c : TraceId → Nat} {trace : Option TraceId}
    (h : ∀ t, trace = some t → c t ≠ 0) :
    Turns (trace.map TraceOp.reference).toList c (RefCount.slot trace + c) := by
  cases trace with
  | none =>
    rw [RefCount.slot_none, zero_add]
    exact RefCount.Turns.nil c
  | some t => exact RefCount.turns_reference (h t rfl)

theorem slots_origin_pos {e : MemoryEntry} {trace : TraceId} (h : e.origin = some trace) :
    e.slots trace ≠ 0 := by
  rw [slots_apply, if_pos h]
  omega

/-- A block that stays in place: the reference to the last trace is replaced. -/
theorem turns_realloc_in_place {t : MemoryTable} {ptr : Ptr} {size : Nat} {e : MemoryEntry}
    {trace : TraceId} {c : TraceId → Nat} (h : t.lookup ptr = some e)
    (hc : ∀ d : TraceId → Nat, (d + c) trace ≠ 0) :
    Turns (backtraceUnreference e.last ++ [.reference trace]) (slotsIn t + c)
      (slotsIn (t.insert ptr { e with last := some trace, size := size }) + c) := by
  have hold : slotsIn t + c = RefCount.slot e.last +
      (RefCount.slot e.origin + slotsIn (t.erase ptr) + c) := by
    unfold slotsIn
    rw [sumOver_erase h, MemoryEntry.slots]
    abel
  have hnew : slotsIn (t.insert ptr { e with last := some trace, size := size }) + c =
      RefCount.one trace + (RefCount.slot e.origin + slotsIn (t.erase ptr) + c) := by
    unfold slotsIn
    rw [sumOver_insert, MemoryEntry.slots, RefCount.slot_some]
    abel
  rw [hold, hnew]
  exact (turns_backtraceUnreference _ e.last).append (RefCount.turns_reference (hc _))

/-- A block that moves: the new entry takes its references before the old one is destroyed. -/
theorem turns_realloc_moved {t : MemoryTable} {oldptr ptr : Ptr} {size : Nat} {e : MemoryEntry}
    {trace : TraceId} {c : TraceId → Nat} (h : t.lookup oldptr = some e)
    (hc : ∀ d : TraceId → Nat, (d + c) trace ≠ 0) :
    Turns ((e.origin.map .reference).toList ++
        .reference trace :: (dropped t oldptr ++ dropped (t.erase oldptr) ptr))
      (slotsIn t + c)
      (slotsIn ((t.erase oldptr).insert ptr ⟨ptr, size, e.origin, some trace⟩) + c) := by
  have horigin : ∀ trace, e.origin = some trace → (slotsIn t + c) trace ≠ 0 := by
    intro trace ht
    have hslots := slots_origin_pos ht
    unfold slotsIn
    rw [sumOver_erase h, Pi.add_apply, Pi.add_apply]
    omega
  have htrace : RefCount.slot e.origin + (slotsIn t + c) =
      RefCount.slot e.origin + slotsIn t + c := (add_assoc _ _ _).symm
  have href : RefCount.one trace + (RefCount.slot e.origin + (slotsIn t + c)) =
      slotsIn t + (RefCount.slot e.origin + RefCount.one trace + c) := by abel
  have hnew : slotsIn ((t.erase oldptr).insert ptr ⟨ptr, size, e.origin, some trace⟩) + c =
      slotsIn ((t.erase oldptr).erase ptr) + (RefCount.slot e.origin + RefCount.one trace + c) := by
    unfold slotsIn
    rw [sumOver_insert, MemoryEntry.slots, RefCount.slot_some]
    abel
  rw [hnew]
  refine (turns_reference_slot horigin).append (Turns.cons (RefCount.turns_reference ?_) ?_)
  · rw [htrace]
    exact hc _
  · rw [href]
    exact (turns_dropped _ t oldptr).append (turns_dropped _ (t.erase oldptr) ptr)

/-- **One event on one table**, while the trace of the event is held. -/
theorem turns_callback (a : Alert) {trace : TraceId} (t : MemoryTable) {c : TraceId → Nat}
    (hc : c trace ≠ 0) :
    Turns (tinuLeakwatchSimpleCallback a trace t).2 (slotsIn t + c)
      (slotsIn (tinuLeakwatchSimpleCallback a trace t).1 + c) := by
  have hheld : ∀ d : TraceId → Nat, (d + c) trace ≠ 0 := by
    intro d
    rw [Pi.add_apply]
    omega
  obtain ⟨operation, oldptr, ptr, size⟩ := a
  cases operation with
  | malloc =>
    -- the new entry takes its reference before an old one under the key is destroyed
    have href : Turns [.reference trace] (slotsIn t + c) _ := RefCount.turns_reference (hheld _)
    have hdrop := turns_dropped (RefCount.one trace + c) t ptr
    have hinsert : slotsIn (t.insert ptr ⟨ptr, size, some trace, none⟩) =
        RefCount.one trace + slotsIn (t.erase ptr) := by
      unfold slotsIn
      rw [sumOver_insert, MemoryEntry.slots, RefCount.slot_some, RefCount.slot_none, add_zero]
    rw [add_left_comm] at href
    show Turns (.reference trace :: dropped t ptr) _
      (slotsIn (t.insert ptr ⟨ptr, size, some trace, none⟩) + c)
    rw [hinsert, add_assoc, add_left_comm]
    exact href.cons hdrop
  | realloc =>
    cases h : t.lookup oldptr with
    | none =>
      simp only [tinuLeakwatchSimpleCallback, h]
      exact RefCount.Turns.nil _
    | some e =>
      by_cases hp : ptr = oldptr
      · subst hp
        simp only [tinuLeakwatchSimpleCallback, h, if_true]
        exact turns_realloc_in_place h hheld
      · simp only [tinuLeakwatchSimpleCallback, h, if_neg hp]
        exact turns_realloc_moved h hheld
  | free => exact turns_dropped c t oldptr

/-! ## What makes new traces -/

theorem memoryEntryDestroy_no_create (e : MemoryEntry) (i : TraceId) :
    ∀ op ∈ memoryEntryDestroy e, op ≠ .create i := by
  obtain ⟨ptr, size, origin, last⟩ := e
  cases origin <;> cases last <;> simp [memoryEntryDestroy, backtraceUnreference]

theorem dropped_no_create (t : MemoryTable) (key : Ptr) (i : TraceId) :
    ∀ op ∈ dropped t key, op ≠ .create i := by
  unfold dropped
  cases t.lookup key with
  | none => simp
  | some e => exact memoryEntryDestroy_no_create e i

theorem callback_no_create (a : Alert) (trace : TraceId) (t : MemoryTable) (i : TraceId) :
    ∀ op ∈ (tinuLeakwatchSimpleCallback a trace t).2, op ≠ .create i := by
  obtain ⟨operation, oldptr, ptr, size⟩ := a
  cases operation with
  | malloc =>
    simp only [tinuLeakwatchSimpleCallback, hashTableInsert, List.forall_mem_cons]
    exact ⟨by simp, dropped_no_create t ptr i⟩
  | realloc =>
    cases h : t.lookup oldptr with
    | none => simp [tinuLeakwatchSimpleCallback, h]
    | some e =>
      by_cases hp : ptr = oldptr
      · cases hl : e.last <;> simp [tinuLeakwatchSimpleCallback, h, hp, hl, backtraceUnreference]
      · simp only [tinuLeakwatchSimpleCallback, h, if_neg hp, hashTableRemove, hashTableInsert,
          List.forall_mem_append, List.forall_mem_cons]
        refine ⟨?_, by simp, dropped_no_create t oldptr i, dropped_no_create _ ptr i⟩
        cases e.origin <;> simp
  | free => exact dropped_no_create t oldptr i

/-! ## One event on all tables -/

theorem slotsOf_of_mem {live : Finset Ptr} {tbl : Ptr} (h : tbl ∈ live)
    (tables : Ptr → MemoryTable) :
    slotsOf live tables = slotsIn (tables tbl) + slotsOf (live.erase tbl) tables :=
  (Finset.add_sum_erase live (fun tbl => slotsIn (tables tbl)) h).symm

/-- Tables at other addresses do not count. -/
theorem slotsOf_update {live : Finset Ptr} {tbl : Ptr} (h : tbl ∉ live)
    (tables : Ptr → MemoryTable) (t : MemoryTable) :
    slotsOf live (Function.update tables tbl t) = slotsOf live tables := by
  refine Finset.sum_congr rfl fun tbl' htbl => ?_
  have hne : tbl' ≠ tbl := by
    rintro rfl
    exact h htbl
  rw [Function.update_of_ne hne]

/-- The operations done between two states turn the slots before, and `c`, into those after, and
`c`; they create no traces but those in `new`. -/
def TurnsSlots (live live' : Finset Ptr) (c : TraceId → Nat) (new : Set TraceId)
    (st st' : LeakwatchState) : Prop :=
  ∃ ops, st'.traceOps = st.traceOps ++ ops ∧ (∀ i ∉ new, ∀ op ∈ ops, op ≠ .create i) ∧
    Turns ops (slotsOf live st.tables + c) (slotsOf live' st'.tables + c)

theorem TurnsSlots.of_slots {live live' : Finset Ptr} {c : TraceId → Nat} {new : Set TraceId}
    {st st' : LeakwatchState} (hops : st'.traceOps = st.traceOps)
    (hslots : slotsOf live' st'.tables = slotsOf live st.tables) :
    TurnsSlots live live' c new st st' := by
  refine ⟨[], by rw [hops, List.append_nil], fun _ _ _ h => (List.not_mem_nil h).elim, ?_⟩
  rw [hslots]
  exact RefCount.Turns.nil _

theorem TurnsSlots.trans {live live' live'' : Finset Ptr} {c : TraceId → Nat} {new : Set TraceId}
    {a b d : LeakwatchState} (h : TurnsSlots live live' c new a b)
    (h' : TurnsSlots live' live'' c new b d) : TurnsSlots live live'' c new a d := by
  obtain ⟨ops, hops, hnew, hturns⟩ := h
  obtain ⟨ops', hops', hnew', hturns'⟩ := h'
  refine ⟨ops ++ ops', by rw [hops', hops, List.append_assoc], fun i hi => ?_,
    hturns.append hturns'⟩
  rw [List.forall_mem_append]
  exact ⟨hnew i hi, hnew' i hi⟩

/-- One round of the loop of `_leakwatch_alert`. -/
theorem turns_alertWatch {live : Finset Ptr} {c : TraceId → Nat} {trace : TraceId} (a : Alert)
    (st : LeakwatchState) {cb : Leakwatch} (hcb : cb.userData ∈ live) (hc : c trace ≠ 0) :
    TurnsSlots live live c ∅ st (alertWatch a trace st cb) := by
  refine ⟨_, rfl, fun i _ => callback_no_create a trace _ i, ?_⟩
  have hrest : (slotsOf (live.erase cb.userData) st.tables + c) trace ≠ 0 := by
    rw [Pi.add_apply]
    omega
  have hturns := turns_callback a (st.tables cb.userData) hrest
  have hafter : slotsOf live (alertWatch a trace st cb).tables =
      slotsIn (tinuLeakwatchSimpleCallback a trace (st.tables cb.userData)).1 +
        slotsOf (live.erase cb.userData) st.tables := by
    rw [slotsOf_of_mem hcb, alertWatch_tables_self]
    exact congrArg _ (slotsOf_update (Finset.notMem_erase _ _) _ _)
  rw [slotsOf_of_mem hcb st.tables, hafter, add_assoc, add_assoc]
  exact hturns

/-- The loop of `_leakwatch_alert`. -/
theorem turns_alertLoop {live : Finset Ptr} {c : TraceId → Nat} {trace : TraceId} (a : Alert)
    (hc : c trace ≠ 0) :
    ∀ (ws : List Leakwatch) (st : LeakwatchState), (∀ w ∈ ws, w.userData ∈ live) →
      TurnsSlots live live c ∅ st (ws.foldl (alertWatch a trace) st)
  | [], st, _ => TurnsSlots.of_slots rfl rfl
  | w :: ws, st, h => by
    have hw := turns_alertWatch a st (h w List.mem_cons_self) hc
    exact hw.trans (turns_alertLoop a hc ws _ fun w' hw' => h w' (List.mem_cons_of_mem _ hw'))

/-- **One event on all tables.** -/
theorem turns_leakwatchAlert {live : Finset Ptr} {st : LeakwatchState} (a : Alert)
    (hlive : ∀ w ∈ st.list, w.userData ∈ live) (hnew : slotsOf live st.tables st.nextTrace = 0) :
    TurnsSlots live live 0 {st.nextTrace} st (leakwatchAlert st a) := by
  obtain ⟨ops, hops, hold, hturns⟩ := @turns_alertLoop live (RefCount.one st.nextTrace) st.nextTrace a
    (by rw [RefCount.one, Pi.single_eq_same]; exact Nat.one_ne_zero) st.list
    { st with nextTrace := st.nextTrace + 1, traceOps := st.traceOps ++ [.create st.nextTrace] }
    hlive
  have hcreate : Turns [.create st.nextTrace] (slotsOf live st.tables + 0)
      (slotsOf live st.tables + RefCount.one st.nextTrace) := by
    rw [add_zero, add_comm]
    exact RefCount.turns_create hnew
  have hdrop : Turns [.unreference st.nextTrace]
      (slotsOf live (leakwatchAlert st a).tables + RefCount.one st.nextTrace)
      (slotsOf live (leakwatchAlert st a).tables + 0) := by
    rw [add_zero, add_comm]
    exact RefCount.turns_unreference _ _
  refine ⟨.create st.nextTrace :: (ops ++ [.unreference st.nextTrace]), ?_, ?_, ?_⟩
  · show (st.list.foldl (alertWatch a st.nextTrace) _).traceOps ++ [.unreference st.nextTrace] = _
    rw [hops, List.append_assoc, List.append_assoc]
    rfl
  · intro i hi
    rw [List.forall_mem_cons, List.forall_mem_append, List.forall_mem_singleton]
    exact ⟨fun h => hi (TraceOp.create.inj h).symm, hold i (Set.notMem_empty i), TraceOp.noConfusion⟩
  · exact hcreate.cons (hturns.append hdrop)

/-! ## Runs -/

/-- The leak watch, and the addresses of the tables that are not destroyed. -/
structure WatchRun where
  leak : LeakwatchState
  live : Finset Ptr

/-- What can happen to the leak watch. -/
inductive WatchStep : WatchRun → WatchRun → Prop where
  /-- `tinu_leakwatch_simple`. -/
  | simple {st : LeakwatchState} {live : Finset Ptr} (lw tbl : Ptr) (hnew : tbl ∉ live) :
      WatchStep ⟨st, live⟩ ⟨tinuLeakwatchSimple st lw tbl, insert tbl live⟩
  /-- `tinu_unregister_watch`. -/
  | unregister {st st' : LeakwatchState} {live : Finset Ptr} {handle : Ptr} {res : Bool}
      {msgs : List LogEntry} (h : tinuUnregisterWatch st handle = some (res, st', msgs)) :
      WatchStep ⟨st, live⟩ ⟨st', live⟩
  /-- A call of the allocator. -/
  | event {st : LeakwatchState} {live : Finset Ptr} (call : AllocCall) :
      WatchStep ⟨st, live⟩ ⟨st.alloc call, live⟩
  /-- `g_hash_table_destroy` of a table whose watch is unregistered. -/
  | destroy {st : LeakwatchState} {live : Finset Ptr} {tbl : Ptr} (hlive : tbl ∈ live)
      (hwatch : ∀ w ∈ st.list, w.userData ≠ tbl) :
      WatchStep ⟨st, live⟩ ⟨st.destroyTable tbl, live.erase tbl⟩

/-- The slots of all tables that hold a trace. -/
def WatchRun.slots (r : WatchRun) (trace : TraceId) : Nat := slotsOf r.live r.leak.tables trace

/-- The counts are the slots; traces with the numbers to come have none, and watches have live
tables. -/
structure TraceInv (r : WatchRun) : Prop where
  counts : ∃ refcnt, runTraceOps r.leak.traceOps = some refcnt ∧ RefCount.Holds refcnt r.slots
  fresh : ∀ trace, r.leak.nextTrace ≤ trace → r.slots trace = 0
  watched : ∀ w ∈ r.leak.list, w.userData ∈ r.live

/-- Operations after operations. -/
theorem runTraceOps_append {ops ops' : List TraceOp} {c c' : TraceId → Nat}
    (h : ∃ refcnt, runTraceOps ops = some refcnt ∧ RefCount.Holds refcnt c)
    (h' : Turns ops' c c') :
    ∃ refcnt, runTraceOps (ops ++ ops') = some refcnt ∧ RefCount.Holds refcnt c' := by
  obtain ⟨refcnt, hrun, hholds⟩ := h
  obtain ⟨refcnt', hrun', hholds'⟩ := h' refcnt hholds
  refine ⟨refcnt', ?_, hholds'⟩
  have happly : (fun refcnt op => TraceOp.apply refcnt op) =
      fun refcnt op => RefCount.Op.apply refcnt (TraceOp.op op) :=
    funext fun refcnt => funext fun op => op.apply_eq refcnt
  rw [List.foldlM_map] at hrun'
  rw [runTraceOps] at hrun ⊢
  rw [List.foldlM_append, hrun, happly]
  exact hrun'

/-- A step whose operations match the slots keeps the counts. -/
theorem TraceInv.turn {r r' : WatchRun} (h : TraceInv r) (new : Set TraceId)
    (hturns : TurnsSlots r.live r'.live 0 new r.leak r'.leak)
    (hnew : ∀ trace, r'.leak.nextTrace ≤ trace → r.leak.nextTrace ≤ trace ∧ trace ∉ new)
    (hwatched : ∀ w ∈ r'.leak.list, w.userData ∈ r'.live) : TraceInv r' := by
  obtain ⟨ops, hops, hcreate, hturn⟩ := hturns
  rw [add_zero, add_zero] at hturn
  refine ⟨?_, fun trace ht => ?_, hwatched⟩
  · rw [hops]
    exact runTraceOps_append h.counts hturn
  · obtain ⟨hold, hn⟩ := hnew trace ht
    refine RefCount.Turns.eq_zero hturn (fun op hop heq => ?_) (h.fresh trace hold)
    obtain ⟨o, ho, rfl⟩ := List.mem_map.mp hop
    refine hcreate trace hn o ho ?_
    cases o with
    | create t => exact congrArg TraceOp.create (RefCount.Op.create.inj heq)
    | reference t | unreference t => cases heq

/-- The two states have the same tables, traces and watches. -/
structure SameTraces (a b : LeakwatchState) : Prop where
  tables : b.tables = a.tables
  traceOps : b.traceOps = a.traceOps
  nextTrace : b.nextTrace = a.nextTrace
  list : b.list = a.list

theorem hookPause_sameTraces (st : LeakwatchState) : SameTraces st (hookPause st) := by
  unfold hookPause
  split <;> exact ⟨rfl, rfl, rfl, rfl⟩

theorem hookResume_sameTraces (st : LeakwatchState) : SameTraces st (hookResume st) := by
  unfold hookResume
  split <;> exact ⟨rfl, rfl, rfl, rfl⟩

theorem tinuLeakwatchDisable_sameTraces {st st' : LeakwatchState}
    (h : tinuLeakwatchDisable st = some st') : SameTraces st st' := by
  unfold tinuLeakwatchDisable at h
  split at h
  · cases h
  split at h
  · split at h
    · cases h
      exact ⟨rfl, rfl, rfl, rfl⟩
    · cases h
  · cases h
    exact ⟨rfl, rfl, rfl, rfl⟩

/-- Unregistering leaves tables and traces alone, and brings no watch. -/
theorem tinuUnregisterWatch_traces {st st' : LeakwatchState} {handle : Ptr} {res : Bool}
    {msgs : List LogEntry} (h : tinuUnregisterWatch st handle = some (res, st', msgs)) :
    st'.tables = st.tables ∧ st'.traceOps = st.traceOps ∧ st'.nextTrace = st.nextTrace ∧
      ∀ w ∈ st'.list, w ∈ st.list := by
  obtain ⟨hpt, hpo, hpn, hpl⟩ := hookPause_sameTraces st
  obtain ⟨hrt, hro, hrn, hrl⟩ := hookResume_sameTraces { hookPause st with
    list := (hookPause st).list.eraseP fun lw => lw.handle == handle }
  have hsub : ∀ w ∈ (hookPause st).list.eraseP (fun lw => lw.handle == handle), w ∈ st.list :=
    fun w hw => hpl ▸ List.eraseP_subset hw
  unfold tinuUnregisterWatch at h
  split at h
  · cases h
    exact ⟨rfl, rfl, rfl, fun w hw => hw⟩
  simp only at h
  split at h
  · obtain ⟨st₁, hdis, h⟩ := Option.map_eq_some_iff.mp h
    cases h
    obtain ⟨hdt, hdo, hdn, hdl⟩ := tinuLeakwatchDisable_sameTraces hdis
    refine ⟨hdt.trans (hrt.trans hpt), hdo.trans (hro.trans hpo), hdn.trans (hrn.trans hpn), ?_⟩
    intro w hw
    rw [hdl, hrl] at hw
    exact hsub w hw
  · cases h
    refine ⟨hrt.trans hpt, hro.trans hpo, hrn.trans hpn, ?_⟩
    intro w hw
    rw [hrl] at hw
    exact hsub w hw

theorem TraceInv.congr {st st' : LeakwatchState} {live : Finset Ptr} (h : TraceInv ⟨st, live⟩)
    (hs : SameTraces st st') : TraceInv ⟨st', live⟩ := by
  refine h.turn ∅ (.of_slots hs.traceOps (congrArg _ hs.tables)) ?_ ?_
  · intro trace ht
    exact ⟨hs.nextTrace ▸ ht, Set.notMem_empty trace⟩
  · intro w hw
    exact h.watched w (hs.list ▸ hw)

theorem foldl_alertWatch_nextTrace (a : Alert) (trace : TraceId) :
    ∀ (ws : List Leakwatch) (st : LeakwatchState),
      (ws.foldl (alertWatch a trace) st).nextTrace = st.nextTrace
  | [], _ => rfl
  | w :: ws, st => foldl_alertWatch_nextTrace a trace ws (alertWatch a trace st w)

theorem TraceInv.alert {st : LeakwatchState} {live : Finset Ptr} (h : TraceInv ⟨st, live⟩)
    (a : Alert) : TraceInv ⟨leakwatchAlert st a, live⟩ := by
  have hnext : (leakwatchAlert st a).nextTrace = st.nextTrace + 1 :=
    foldl_alertWatch_nextTrace a st.nextTrace st.list _
  refine h.turn {st.nextTrace} (turns_leakwatchAlert a h.watched (h.fresh _ (Nat.le_refl _))) ?_ ?_
  · intro trace ht
    rw [hnext] at ht
    exact ⟨Nat.le_of_succ_le ht, fun hn => by cases hn; exact absurd ht (Nat.not_succ_le_self _)⟩
  · intro w hw
    rw [(leakwatchAlert_same st a).list] at hw
    exact h.watched w hw

/-- Allocator calls. -/
theorem TraceInv.event {st : LeakwatchState} {live : Finset Ptr} (h : TraceInv ⟨st, live⟩)
    (call : AllocCall) : TraceInv ⟨st.alloc call, live⟩ := by
  have hpause := h.congr (hookPause_sameTraces st)
  rw [alloc_eq]
  split
  · cases call.alert with
    | none => exact hpause.congr (hookResume_sameTraces _)
    | some a => exact (hpause.alert a).congr (hookResume_sameTraces _)
  · exact h

/-- A new watch, with an empty table. -/
theorem TraceInv.simple {st : LeakwatchState} {live : Finset Ptr} (h : TraceInv ⟨st, live⟩)
    (lw : Ptr) {tbl : Ptr} (hnew : tbl ∉ live) :
    TraceInv ⟨tinuLeakwatchSimple st lw tbl, insert tbl live⟩ := by
  have hfields : (tinuLeakwatchSimple st lw tbl).tables = Function.update st.tables tbl ∅ ∧
      (tinuLeakwatchSimple st lw tbl).traceOps = st.traceOps ∧
        (tinuLeakwatchSimple st lw tbl).nextTrace = st.nextTrace := by
    by_cases hc : st.count = 0 <;>
      simp [tinuLeakwatchSimple, tinuRegisterWatch, tinuLeakwatchEnable, hookPause, hookResume, hc]
  obtain ⟨htables, hops, hnext⟩ := hfields
  have hslots : slotsOf (insert tbl live) (tinuLeakwatchSimple st lw tbl).tables =
      slotsOf live st.tables := by
    have hempty : slotsIn (∅ : MemoryTable) = 0 := rfl
    rw [htables, slotsOf_of_mem (Finset.mem_insert_self tbl live), Function.update_self,
      Finset.erase_insert hnew, slotsOf_update hnew, hempty, zero_add]
  refine h.turn ∅ (.of_slots hops hslots) ?_ ?_
  · intro trace ht
    exact ⟨hnext ▸ ht, Set.notMem_empty trace⟩
  · intro w hw
    rw [(tinuLeakwatchSimple_fields st lw tbl).1] at hw
    rcases List.mem_cons.mp hw with rfl | hw
    · exact Finset.mem_insert_self _ _
    · exact Finset.mem_insert_of_mem (h.watched w hw)

/-- `g_hash_table_destroy` takes the slots of all entries away. -/
theorem turns_destroy (c : TraceId → Nat) :
    ∀ es : List (Σ _ : Ptr, MemoryEntry),
      Turns (es.flatMap fun e => memoryEntryDestroy e.2) ((es.map fun e => e.2.slots).sum + c) c
  | [] => by
    rw [List.map_nil, List.sum_nil, zero_add]
    exact RefCount.Turns.nil c
  | e :: es => by
    rw [List.flatMap_cons, List.map_cons, List.sum_cons, add_assoc]
    exact (turns_memoryEntryDestroy _ e.2).append (turns_destroy c es)

/-- A table without a watch is destroyed. -/
theorem TraceInv.destroy {st : LeakwatchState} {live : Finset Ptr} (h : TraceInv ⟨st, live⟩)
    {tbl : Ptr} (hlive : tbl ∈ live) (hwatch : ∀ w ∈ st.list, w.userData ≠ tbl) :
    TraceInv ⟨st.destroyTable tbl, live.erase tbl⟩ := by
  have hturns : TurnsSlots live (live.erase tbl) 0 ∅ st (st.destroyTable tbl) := by
    refine ⟨_, rfl, fun i _ op hop => ?_, ?_⟩
    · obtain ⟨e, -, hop⟩ := List.mem_flatMap.mp hop
      exact memoryEntryDestroy_no_create e.2 i op hop
    · have hafter : slotsOf (live.erase tbl) (st.destroyTable tbl).tables =
          slotsOf (live.erase tbl) st.tables := slotsOf_update (Finset.notMem_erase _ _) _ _
      rw [slotsOf_of_mem hlive, hafter, add_assoc]
      exact turns_destroy _ (st.tables tbl).entries
  refine h.turn ∅ hturns ?_ fun w hw => ?_
  · exact fun trace ht => ⟨ht, Set.notMem_empty trace⟩
  · exact Finset.mem_erase.mpr ⟨hwatch w hw, h.watched w hw⟩

/-- A watch is unregistered. -/
theorem TraceInv.unregister {st st' : LeakwatchState} {live : Finset Ptr} (h : TraceInv ⟨st, live⟩)
    {handle : Ptr} {res : Bool} {msgs : List LogEntry}
    (hun : tinuUnregisterWatch st handle = some (res, st', msgs)) : TraceInv ⟨st', live⟩ := by
  obtain ⟨htables, hops, hnext, hlist⟩ := tinuUnregisterWatch_traces hun
  refine h.turn ∅ (.of_slots hops (congrArg _ htables)) ?_ fun w hw => h.watched w (hlist w hw)
  exact fun trace ht => ⟨hnext ▸ ht, Set.notMem_empty trace⟩

theorem TraceInv.step {r r' : WatchRun} (h : TraceInv r) (hs : WatchStep r r') : TraceInv r' := by
  cases hs with
  | simple lw tbl hnew => exact h.simple lw hnew
  | unregister hun => exact h.unregister hun
  | event call => exact h.event call
  | destroy hlive hwatch => exact h.destroy hlive hwatch

/-- Nothing has happened yet. -/
def WatchRun.start : WatchRun := ⟨LeakwatchState.start, ∅⟩

theorem traceInv_start : TraceInv WatchRun.start :=
  ⟨⟨_, rfl, RefCount.holds_zero⟩, fun _ _ => rfl, fun _ hw => (List.not_mem_nil hw).elim⟩

/-- **After every run the count of each trace is the number of its slots**, no trace was touched
after its release, and the traces without a slot are released. -/
theorem backtraces_counted {r : WatchRun} (h : Relation.ReflTransGen WatchStep WatchRun.start r) :
    ∃ refcnt, runTraceOps r.leak.traceOps = some refcnt ∧
      ∀ trace, refcnt trace = if r.slots trace = 0 then none else some (r.slots trace) := by
  have hinv : TraceInv r := by
    induction h with
    | refl => exact traceInv_start
    | tail _ hs ih => exact ih.step hs
  exact hinv.counts

/-- Two tables, and a block that is obtained and then moved. -/
def sharedRun : WatchRun :=
  ⟨((tinuLeakwatchSimple (tinuLeakwatchSimple LeakwatchState.start 1 2) 3 4).alloc
    (.malloc 10 16)).alloc (.realloc 16 20 32), {4, 2}⟩

theorem backtraces_counted_shared :
    ∃ refcnt, runTraceOps sharedRun.leak.traceOps = some refcnt ∧
      ∀ trace, refcnt trace =
        if sharedRun.slots trace = 0 then none else some (sharedRun.slots trace) := by
  have hfirst : WatchStep WatchRun.start ⟨tinuLeakwatchSimple LeakwatchState.start 1 2, {2}⟩ :=
    .simple 1 2 (Finset.notMem_empty 2)
  have hsecond : WatchStep ⟨tinuLeakwatchSimple LeakwatchState.start 1 2, {2}⟩
      ⟨tinuLeakwatchSimple (tinuLeakwatchSimple LeakwatchState.start 1 2) 3 4, {4, 2}⟩ :=
    .simple 3 4 (by decide)
  exact backtraces_counted ((((Relation.ReflTransGen.single hfirst).tail hsecond).tail
    (.event (.malloc 10 16))).tail (.event (.realloc 16 20 32)))

-- Each of the two traces is in one slot of either table.
example : (runTraceOps sharedRun.leak.traceOps).map (fun refcnt => (refcnt 0, refcnt 1)) =
    some (some 2, some 2) := by decide

end Tinu
