import Tinu.Backends
import Tinu.Lib.Transaction

/-!
# The database of results (`sqlite.py`)

The tables, with the rows in the order of their insertion, and `SqliteBackend` over them.  A table
with an AUTOINCREMENT key has a row of `sqlite_sequence` once a row was inserted; the next key is
one more than both that number and the greatest key there is.  Which insertions raise is part of the
call.  The foreign keys are declared, but SQLite enforces none of them unless told to.

* `saveResults_ok` — the tables after a call that returns;
* `loads_nothing` — no result comes back from either backend.
-/

set_option autoImplicit false

namespace Tinu

namespace Reporting

open Transaction

/-! ## The tables -/

/-- A row of `tinu_run_versions`. -/
structure RunVersionRow where
  id : Int
  createTime : Int
  deriving DecidableEq, Repr

/-- A row of `tinu_summary`. -/
structure SummaryRow where
  runId : Option Int
  passed : Int
  failed : Int
  segfault : Int
  deriving DecidableEq, Repr

/-- What `save_results` takes from the message counts. -/
structure Counts where
  critical : Int
  error : Int
  warning : Int
  notice : Int
  info : Int
  debug : Int
  deriving DecidableEq, Repr

/-- A row of `tinu_messages`. -/
structure MessagesRow where
  runId : Option Int
  counts : Counts
  deriving DecidableEq, Repr

/-- A row of `tinu_suites`. -/
structure SuiteRow where
  id : Int
  runId : Option Int
  name : CString
  result : Option Int
  assertPassed : Int
  assertTotal : Int
  deriving DecidableEq, Repr

/-- A row of `tinu_tests`. -/
structure TestRow where
  id : Int
  suiteId : Option Int
  name : CString
  result : CString
  assertPassed : Int
  assertTotal : Int
  runTime : ℚ
  deriving DecidableEq

/-- The tables with an AUTOINCREMENT key. -/
inductive KeyedTable where
  | runVersions
  | suites
  | tests
  deriving DecidableEq, Repr

structure Database where
  runVersions : List RunVersionRow
  summary : List SummaryRow
  messages : List MessagesRow
  suites : List SuiteRow
  tests : List TestRow
  /-- The `seq` of `sqlite_sequence`. -/
  seq : KeyedTable → Option Int

/-- The tables that `__check_database` creates. -/
def Database.empty : Database := ⟨[], [], [], [], [], fun _ => none⟩

/-- The key of the next row. -/
def autoIncrement (seq : Option Int) (keys : List Int) : Int :=
  max (seq.getD 0) (keys.foldl max 0) + 1

def Database.insertRunVersion (db : Database) (createTime : Int) : Database :=
  let id := autoIncrement (db.seq .runVersions) (db.runVersions.map RunVersionRow.id)
  { db with
    runVersions := db.runVersions ++ [⟨id, createTime⟩]
    seq := Function.update db.seq .runVersions (some id) }

def Database.insertSummary (db : Database) (runId : Option Int) (summary : Summary) : Database :=
  { db with
    summary := db.summary ++ [⟨runId, summary.passed, summary.failed, summary.segfault⟩] }

/-- The statement names no `run_id`, which is NULL. -/
def Database.insertMessages (db : Database) (counts : Counts) : Database :=
  { db with messages := db.messages ++ [⟨none, counts⟩] }

def Database.insertSuite (db : Database) (runId : Option Int) (name : CString) (suite : Suite) :
    Database :=
  let id := autoIncrement (db.seq .suites) (db.suites.map SuiteRow.id)
  { db with
    suites := db.suites ++
      [⟨id, runId, name, suite.result, suite.asserts.passed, suite.asserts.total⟩]
    seq := Function.update db.seq .suites (some id) }

def Database.insertTest (db : Database) (suiteId : Option Int) (name : CString) (case : Test) :
    Database :=
  let id := autoIncrement (db.seq .tests) (db.tests.map TestRow.id)
  { db with
    tests := db.tests ++
      [⟨id, suiteId, name, case.result, case.asserts.passed, case.asserts.total, case.time⟩]
    seq := Function.update db.seq .tests (some id) }

/-- `SELECT seq - 1 AS id FROM sqlite_sequence`. -/
def Database.lastId (db : Database) (table : KeyedTable) : Option Int :=
  (db.seq table).map fun seq => seq - 1

/-- The two statements of `__delete_last_id`. -/
def Database.deleteRun (db : Database) (id : Option Int) : Database :=
  { db with
    runVersions := db.runVersions.filter fun row => some row.id ≠ id
    seq := Function.update db.seq .runVersions ((db.seq .runVersions).map fun seq => seq - 1) }

/-! ## Saving -/

/-- The insertions of a call. -/
inductive Insertion where
  | runVersion
  | summary
  | messages
  | suite (name : CString)
  | test (suite name : CString)
  deriving DecidableEq

/-- A call of `save_results`: the time, the argument, and the insertions that raise. -/
structure SaveCall where
  time : Int
  results : TinuResult
  raises : Insertion → Bool

/-- `SqliteBackend`: the connection, and `run_id`. -/
abbrev SqliteBackend := Session Database (Option Int)

/-- A backend over an empty database. -/
def SqliteBackend.empty : SqliteBackend := settled Database.empty none

abbrev Saving := EStateM PyError SqliteBackend

/-- `self.db.execute` of an insertion. -/
def insert (raises : Bool) (f : Database → Database) : Saving Unit :=
  execute (if raises then throw .databaseError else modify f)

/-- `__get_last_id`. -/
def getLastId (table : KeyedTable) : Saving (Option Int) := do
  let self ← get
  return self.pending.lastId table

/-- `set_id`. -/
def setId (id : Option Int) : Saving Unit := modify fun self => { self with vars := id }

/-- `__create_run_id`. -/
def createRunId (call : SaveCall) : Saving Unit := do
  insert (call.raises .runVersion) fun db => db.insertRunVersion call.time
  let id ← getLastId .runVersions
  setId id

/-- `__delete_last_id`. -/
def deleteLastId : Saving Unit := do
  let id ← getLastId .runVersions
  withBlock (execute (modify fun db => db.deleteRun id))

/-- The counts that the second insertion names; `none` when one is missing. -/
def messageCounts (messages : Message) : Option Counts := do
  let critical ← messages.lookup "critical".toList
  let error ← messages.lookup "error".toList
  let warning ← messages.lookup "warning".toList
  let notice ← messages.lookup "notice".toList
  let info ← messages.lookup "info".toList
  let debug ← messages.lookup "debug".toList
  some ⟨critical, error, warning, notice, info, debug⟩

/-- The body of the first `with` block. -/
def saveHeader (call : SaveCall) : Saving Unit := do
  let self ← get
  insert (call.raises .summary) fun db => db.insertSummary self.vars call.results.summary
  match messageCounts call.results.messages with
  | none => throw .keyError
  | some counts => insert (call.raises .messages) fun db => db.insertMessages counts

/-- The body of the inner loop. -/
def saveTest (call : SaveCall) (suite : CString) (suiteId : Option Int)
    (entry : Σ _ : CString, Test) : Saving PUnit :=
  insert (call.raises (.test suite entry.1)) fun db => db.insertTest suiteId entry.1 entry.2

/-- The body of the outer loop. -/
def saveSuite (call : SaveCall) (entry : Σ _ : CString, Suite) : Saving PUnit := do
  let self ← get
  insert (call.raises (.suite entry.1)) fun db => db.insertSuite self.vars entry.1 entry.2
  let suiteId ← getLastId .suites
  withBlock (forM entry.2.tests.entries (saveTest call entry.1 suiteId))

/-- The body of the `try` statement. -/
def saveBody (call : SaveCall) : Saving PUnit := do
  withBlock (saveHeader call)
  forM call.results.suites.entries (saveSuite call)

/-- `SqliteBackend.save_results`. -/
def saveResults (call : SaveCall) : Saving PUnit := do
  createRunId call
  recover (saveBody call) deleteLastId

/-! ## Loading -/

def sqlInt : Option Int → SqlValue
  | none => .null
  | some n => .integer n

/-- The columns of `tinu_summary`. -/
def SummaryRow.columns (row : SummaryRow) : List SqlValue :=
  [sqlInt row.runId, .integer row.passed, .integer row.failed, .integer row.segfault]

/-- The columns of `tinu_messages`. -/
def MessagesRow.columns (row : MessagesRow) : List SqlValue :=
  [sqlInt row.runId, .integer row.counts.critical, .integer row.counts.error,
    .integer row.counts.warning, .integer row.counts.notice, .integer row.counts.info,
    .integer row.counts.debug]

/-- `run_id = ?`, which is true of no NULL. -/
def sqlEq (column value : Option Int) : Bool := column.isSome && column == value

/-- The number in a column of a summary, which holds no other value. -/
def SqlValue.toInt : SqlValue → Except PyError Int
  | .integer n => .ok n
  | _ => .error .typeError

/-- `SqliteBackend.load_summary`. -/
def loadSummary (self : SqliteBackend) : Except PyError Summary := do
  let line : PyRow :=
    (self.pending.summary.find? fun row => sqlEq row.runId self.vars).map SummaryRow.columns
  let passed ← (← line.item (.name "passed")).toInt
  let failed ← (← line.item (.name "failed")).toInt
  let segfault ← (← line.item (.name "segfault")).toInt
  .ok ⟨passed, failed, segfault⟩

/-- `SqliteBackend.load_message_counts`. -/
def loadMessageCounts (self : SqliteBackend) : Except PyError MsgCount :=
  .ok (.row ((self.pending.messages.find? fun row => sqlEq row.runId self.vars).map
    MessagesRow.columns))

/-- `SqliteBackend.load_suites`. -/
def loadSuites (self : SqliteBackend) : List CString → Except PyError (List SuiteItem)
  | [_suite] => .ok ((self.pending.suites.filter fun row => sqlEq row.runId self.vars).map
      fun row => ⟨row.name, row.result, row.assertPassed, row.assertTotal⟩)
  | _ => .error .typeError

/-- `__find_suite`. -/
def findSuite (self : SqliteBackend) (name : CString) : Except PyError SqlValue :=
  let line : PyRow :=
    (self.pending.suites.find? fun row => row.name = name ∧ sqlEq row.runId self.vars).map
      fun row => [.integer row.id]
  line.item (.name "id")

/-- `SqliteBackend.load_tests`, whose statement names columns that `tinu_suites` does not have. -/
def loadTests (self : SqliteBackend) (suite : CString) : Except PyError (List TestItem) := do
  let _suiteId ← findSuite self suite
  .error .databaseError

/-- `SqliteBackend`, for a load. -/
def sqliteBackend (self : SqliteBackend) : Backend where
  loadSummary := loadSummary self
  loadMessageCounts := loadMessageCounts self
  loadSuites := loadSuites self
  loadTests := loadTests self

/-! ## What a call that returns has done -/

/-- The rows of one suite and of its tests. -/
def fileSuite (runId : Option Int) (db : Database) (entry : Σ _ : CString, Suite) : Database :=
  let db := db.insertSuite runId entry.1 entry.2
  let suiteId := db.lastId .suites
  entry.2.tests.entries.foldl (fun db entry => db.insertTest suiteId entry.1 entry.2) db

/-- The rows of a result, up to its suites. -/
def fileHeader (call : SaveCall) (counts : Counts) (db : Database) : Database :=
  let db := db.insertRunVersion call.time
  let runId := db.lastId .runVersions
  (db.insertSummary runId call.results.summary).insertMessages counts

/-- The rows of a result. -/
def fileResults (call : SaveCall) (counts : Counts) (db : Database) : Database :=
  let runId := (db.insertRunVersion call.time).lastId .runVersions
  call.results.suites.entries.foldl (fileSuite runId) (fileHeader call counts db)

/-- Something in the first `with` block raises. -/
def HeaderFails (call : SaveCall) : Prop :=
  call.raises .summary = true ∨ messageCounts call.results.messages = none ∨
    call.raises .messages = true

instance (call : SaveCall) : Decidable (HeaderFails call) :=
  inferInstanceAs (Decidable (_ ∨ _ ∨ _))

theorem insert_ok (f : Database → Database) (s : SqliteBackend) :
    (insert false f).run s = .ok () { s with pending := f s.pending } := rfl

theorem insert_raises (f : Database → Database) (s : SqliteBackend) :
    (insert true f).run s = .error .databaseError s := rfl

theorem insert_returns {raises : Bool} {f : Database → Database} {s s' : SqliteBackend} {u : Unit}
    (h : (insert raises f).run s = .ok u s') : s' = { s with pending := f s.pending } := by
  cases raises with
  | false =>
    rw [insert_ok] at h
    cases h
    rfl
  | true =>
    rw [insert_raises] at h
    cases h

theorem get_run (s : SqliteBackend) : (get : Saving SqliteBackend).run s = .ok s s := rfl

theorem getLastId_run (table : KeyedTable) (s : SqliteBackend) :
    (getLastId table).run s = .ok (s.pending.lastId table) s := rfl

theorem createRunId_ok {call : SaveCall} (h : call.raises .runVersion = false)
    (s : SqliteBackend) :
    (createRunId call).run s = .ok ()
      { s with
        pending := s.pending.insertRunVersion call.time
        vars := (s.pending.insertRunVersion call.time).lastId .runVersions } := by
  unfold createRunId
  rw [h, bind_ok (insert_ok _ s), bind_ok (getLastId_run _ _)]
  rfl

theorem createRunId_raises {call : SaveCall} (h : call.raises .runVersion = true)
    (s : SqliteBackend) : (createRunId call).run s = .error .databaseError s := by
  unfold createRunId
  rw [h, bind_error _ (insert_raises _ s)]

theorem deleteLastId_run (s : SqliteBackend) :
    deleteLastId.run s =
      .ok () (settled (s.pending.deleteRun (s.pending.lastId .runVersions)) s.vars) := rfl

/-- The first `with` block does not raise. -/
theorem saveHeader_ok {call : SaveCall} (h : ¬ HeaderFails call) (s : SqliteBackend) :
    ∃ counts, messageCounts call.results.messages = some counts ∧
      (saveHeader call).run s = .ok () { s with
        pending :=
          (s.pending.insertSummary s.vars call.results.summary).insertMessages counts } := by
  unfold HeaderFails at h
  rw [not_or, not_or, Bool.not_eq_true, Bool.not_eq_true] at h
  obtain ⟨hsummary, hcounts, hmessages⟩ := h
  obtain ⟨counts, hcounts⟩ := Option.ne_none_iff_exists'.mp hcounts
  refine ⟨counts, hcounts, ?_⟩
  unfold saveHeader
  rw [bind_ok (get_run s), hsummary,
    bind_ok (insert_ok _ s), hcounts, hmessages]
  rfl

theorem saveHeader_raises {call : SaveCall} (h : HeaderFails call) (s : SqliteBackend) :
    ∃ e s', (saveHeader call).run s = .error e s' := by
  unfold saveHeader
  rw [bind_ok (get_run s)]
  cases hsummary : call.raises .summary with
  | true => exact ⟨_, _, bind_error _ (insert_raises _ s)⟩
  | false =>
    rw [bind_ok (insert_ok _ s)]
    cases hcounts : messageCounts call.results.messages with
    | none => exact ⟨_, _, rfl⟩
    | some counts =>
      have hmessages : call.raises .messages = true := by
        rcases h with h | h | h
        · rw [hsummary] at h
          cases h
        · rw [hcounts] at h
          cases h
        · exact h
      rw [hmessages]
      exact ⟨_, _, insert_raises _ _⟩

/-- A round of the outer loop that returns. -/
theorem saveSuite_returns {call : SaveCall} {entry : Σ _ : CString, Suite} {s s' : SqliteBackend}
    (h : (saveSuite call entry).run s = .ok ⟨⟩ s') :
    s' = settled (fileSuite s.vars s.pending entry) s.vars := by
  unfold saveSuite at h
  rw [bind_ok (get_run s)] at h
  obtain ⟨_, s₁, hsuite, h⟩ := ok_of_bind h
  rw [bind_ok (getLastId_run _ _)] at h
  rw [insert_returns hsuite] at h
  cases hrun : (forM entry.2.tests.entries (saveTest call entry.1 (Database.lastId
      (s.pending.insertSuite s.vars entry.1 entry.2) .suites))).run
      { s with pending := s.pending.insertSuite s.vars entry.1 entry.2 } with
  | error e s₂ =>
    rw [withBlock_raised hrun] at h
    cases h
  | ok u s₂ =>
    rw [withBlock_ok hrun] at h
    cases h
    have hloop := forM_ok (fun db => ({ s with pending := db } : SqliteBackend))
      (f := fun db entry => db.insertTest _ entry.1 entry.2)
      (fun i db s' hstep => insert_returns hstep) _ _ s₂ hrun
    rw [hloop]
    rfl

theorem saveBody_returns {call : SaveCall} {s s' : SqliteBackend}
    (h : (saveBody call).run s = .ok ⟨⟩ s') :
    ∃ counts, messageCounts call.results.messages = some counts ∧
      s' = settled (call.results.suites.entries.foldl (fileSuite s.vars)
        ((s.pending.insertSummary s.vars call.results.summary).insertMessages counts)) s.vars := by
  unfold saveBody at h
  obtain ⟨_, s₁, hheader, hloop⟩ := ok_of_bind h
  by_cases hfails : HeaderFails call
  · obtain ⟨e, s₂, hraises⟩ := saveHeader_raises hfails s
    rw [withBlock_raised hraises] at hheader
    cases hheader
  · obtain ⟨counts, hcounts, hrun⟩ := saveHeader_ok hfails s
    rw [withBlock_ok hrun] at hheader
    cases hheader
    refine ⟨counts, hcounts, ?_⟩
    have hstep : ∀ entry db s₁, (saveSuite call entry).run (settled db s.vars) = .ok ⟨⟩ s₁ →
        s₁ = settled (fileSuite s.vars db entry) s.vars :=
      fun _ db _ h => saveSuite_returns (s := settled db s.vars) h
    exact forM_ok (fun db => settled db s.vars) hstep _ _ s' hloop

/-- **The tables after a call that returns.** -/
theorem saveResults_ok {call : SaveCall} {s s' : SqliteBackend}
    (h : (saveResults call).run s = .ok ⟨⟩ s') :
    ∃ counts, messageCounts call.results.messages = some counts ∧
      s' = settled (fileResults call counts s.pending)
        ((s.pending.insertRunVersion call.time).lastId .runVersions) := by
  unfold saveResults at h
  cases hraises : call.raises .runVersion with
  | true =>
    rw [bind_error _ (createRunId_raises hraises s)] at h
    cases h
  | false =>
    rw [bind_ok (createRunId_ok hraises s)] at h
    cases hbody : (saveBody call).run { s with
        pending := s.pending.insertRunVersion call.time
        vars := (s.pending.insertRunVersion call.time).lastId .runVersions } with
    | error e s₁ =>
      rw [recover_error hbody (deleteLastId_run s₁)] at h
      cases h
    | ok u s₁ =>
      rw [recover_ok _ hbody] at h
      cases h
      exact saveBody_returns hbody

/-! ## Round trips -/

/-- A row that was fetched takes no name. -/
theorem item_name_ne_ok (line : PyRow) (key : CString) (value : SqlValue) :
    line.item (.name key) ≠ .ok value := by
  cases line with
  | none => exact nofun
  | some values => exact nofun

/-- **No result can be loaded from the database**: the summary is a tuple, or there is none. -/
theorem sqliteBackend_load (self : SqliteBackend) (loaded : LoadedResult) :
    TinuResult.loadBackend (sqliteBackend self) ≠ .ok loaded := by
  intro h
  obtain ⟨hsummary, -⟩ := (TinuResult.loadBackend_ok_iff _ _).mp h
  have hsummary : loadSummary self = .ok loaded.summary := hsummary
  unfold loadSummary at hsummary
  cases hitem : PyRow.item ((self.pending.summary.find? fun row => sqlEq row.runId self.vars).map
      SummaryRow.columns) (.name "passed") with
  | ok value => exact item_name_ne_ok _ _ _ hitem
  | error e =>
    simp only [bind, Except.bind, hitem] at hsummary
    cases hsummary

/-- `save_backend` and `load_backend` with an `ExampleBackend` give the result back. -/
def ExampleRoundTrips (saved r : TinuResult) : Prop :=
  GivesBack (exampleBackend (exampleSave saved r)) r

/-- `save_backend` and `load_backend` with a `SqliteBackend`, whose insertions do not raise, give
the result back. -/
def SqliteRoundTrips (self : SqliteBackend) (time : Int) (r : TinuResult) : Prop :=
  ∃ self', (saveResults ⟨time, r, fun _ => false⟩).run self = .ok ⟨⟩ self' ∧
    GivesBack (sqliteBackend self') r

/-- **No result comes back from either backend.** -/
theorem loads_nothing (r saved : TinuResult) (self : SqliteBackend) (time : Int) :
    ¬ ExampleRoundTrips saved r ∧ ¬ SqliteRoundTrips self time r := by
  constructor
  · rintro ⟨loaded, hload, -⟩
    exact exampleBackend_load r loaded hload
  · rintro ⟨self', -, loaded, hload, -⟩
    exact sqliteBackend_load self' loaded hload

/-- A run of one suite with one test, of whose two assertions one passed. -/
def oneFailure : TinuResult where
  summary := ⟨0, 1, 0⟩
  messages := ["critical", "error", "warning", "notice", "info", "debug"].foldl
    (fun counts key => counts.insert key.toList 0) ∅
  suites := (∅ : AList fun _ : CString => Suite).insert "suite".toList
    { name := "suite".toList
      tests := (∅ : AList fun _ : CString => Test).insert "test".toList
        ⟨"test".toList, "failed".toList, ⟨2, 1⟩, 0⟩
      result := some 0
      asserts := ⟨2, 1⟩ }

/-- Its two backends raise. -/
theorem one_failure_lost :
    ¬ (ExampleRoundTrips TinuResult.new oneFailure ∧
      SqliteRoundTrips SqliteBackend.empty 0 oneFailure) := by
  rintro ⟨⟨loaded, hload, -⟩, -⟩
  have hraises : TinuResult.loadBackend (exampleBackend (exampleSave TinuResult.new oneFailure)) =
      .error .typeError := rfl
  rw [hraises] at hload
  cases hload

end Reporting

end Tinu
