import Tinu.Sqlite

/-!
# Sequences of `save_results`

`reached` is the backend after a sequence of calls on an empty database, some of which may have
raised.  `Filed` says under which ids a call has put the rows of its run and of its suites.

* `saveResults_filed` — the messages of a run go under no run, its summary and suites under the id
  before its own, and the tests of a suite under the id before that of the suite;
* `filed_under_previous` — in a sequence of calls that return, each run has the summary of the next;
* `links_iff` — no call files its rows under its own run;
* `saveResults_raised` — what each failure leaves;
* `restored_iff` — when a call that raises has changed nothing.
-/

set_option autoImplicit false

namespace Tinu

namespace Reporting

open Transaction

/-- The backend after the calls. -/
def reached (calls : List SaveCall) : SqliteBackend :=
  calls.foldl (fun self call => final ((saveResults call).run self)) SqliteBackend.empty

/-- None of the calls raises. -/
def AllReturn (calls : List SaveCall) : Prop :=
  ∀ pre call post, calls = pre ++ call :: post →
    raised ((saveResults call).run (reached pre)) = false

/-! ## The ids of the parents -/

/-- The rows that were appended. -/
def written {α : Type} (before after : List α) : List α := after.drop before.length

/-- The number of tests in each suite. -/
def testCounts (entries : List (Σ _ : CString, Suite)) : List Nat :=
  entries.map fun entry => entry.2.tests.entries.length

/-- The new rows of `tinu_tests`, suite by suite. -/
def testsBySuite (call : SaveCall) (rows : List TestRow) : List (List TestRow) :=
  (testCounts call.results.suites.entries).splitLengths rows

/-- The call has created one run, whose id gives those in its rows, and the id of a suite gives
those in its tests. -/
structure Filed (ofRun ofMessages ofSuite : Int → Option Int) (call : SaveCall)
    (before after : Database) : Prop where
  run : ∃ row, after.runVersions = before.runVersions ++ [row] ∧
    (∀ r ∈ written before.summary after.summary, r.runId = ofRun row.id) ∧
    (∀ r ∈ written before.messages after.messages, r.runId = ofMessages row.id) ∧
    ∀ r ∈ written before.suites after.suites, r.runId = ofRun row.id
  tests : List.Forall₂ (fun suite tests => ∀ t ∈ tests, t.suiteId = ofSuite suite.id)
    (written before.suites after.suites)
    (testsBySuite call (written before.tests after.tests))

/-- The rows of the call carry the ids of its own run and of their own suites. -/
def Linked : SaveCall → Database → Database → Prop := Filed some some some

/-- No two runs and no two suites have one id, under which they would share rows. -/
def NoneShared (db : Database) : Prop :=
  (db.runVersions.map RunVersionRow.id).Nodup ∧ (db.suites.map SuiteRow.id).Nodup

/-- Every call links its rows. -/
def LinksHold (calls : List SaveCall) : Prop :=
  (∀ pre call post, calls = pre ++ call :: post →
    Linked call (reached pre).committed (reached (pre ++ [call])).committed) ∧
    NoneShared (reached calls).committed

theorem reached_concat (pre : List SaveCall) (call : SaveCall) :
    reached (pre ++ [call]) = final ((saveResults call).run (reached pre)) := by
  unfold reached
  rw [List.foldl_append]
  rfl

@[simp] theorem written_append {α : Type} (before new : List α) :
    written before (before ++ new) = new := List.drop_left

/-- What the loop over some suites has added. -/
structure FiledSuites (runId : Option Int) (entries : List (Σ _ : CString, Suite))
    (db db' : Database) : Prop where
  runVersions : db'.runVersions = db.runVersions
  summary : db'.summary = db.summary
  messages : db'.messages = db.messages
  seq : db'.seq .runVersions = db.seq .runVersions
  filed : ∃ rows tests, db'.suites = db.suites ++ rows ∧ db'.tests = db.tests ++ tests ∧
    (∀ r ∈ rows, r.runId = runId) ∧ tests.length = (testCounts entries).sum ∧
    List.Forall₂ (fun suite tests => ∀ t ∈ tests, t.suiteId = some (suite.id - 1)) rows
      ((testCounts entries).splitLengths tests)

theorem FiledSuites.nil (runId : Option Int) (db : Database) : FiledSuites runId [] db db where
  runVersions := rfl
  summary := rfl
  messages := rfl
  seq := rfl
  filed := ⟨[], [], (List.append_nil _).symm, (List.append_nil _).symm,
    fun _ h => (List.not_mem_nil h).elim, rfl, .nil⟩

theorem FiledSuites.cons {runId : Option Int} {entry : Σ _ : CString, Suite}
    {entries : List (Σ _ : CString, Suite)} {db₁ db₂ db₃ : Database}
    (h : FiledSuites runId [entry] db₁ db₂) (h' : FiledSuites runId entries db₂ db₃) :
    FiledSuites runId (entry :: entries) db₁ db₃ := by
  obtain ⟨rows, tests, hsuites, htests, hrun, hlen, hlinks⟩ := h.filed
  obtain ⟨rows', tests', hsuites', htests', hrun', hlen', hlinks'⟩ := h'.filed
  have hlen : tests.length = entry.2.tests.entries.length := by simpa [testCounts] using hlen
  refine ⟨h'.runVersions.trans h.runVersions, h'.summary.trans h.summary,
    h'.messages.trans h.messages, h'.seq.trans h.seq, rows ++ rows', tests ++ tests', ?_, ?_, ?_,
    ?_, ?_⟩
  · rw [hsuites', hsuites, List.append_assoc]
  · rw [htests', htests, List.append_assoc]
  · exact List.forall_mem_append.mpr ⟨hrun, hrun'⟩
  · rw [List.length_append, hlen, hlen']
    rfl
  · have hcounts : testCounts (entry :: entries) =
        entry.2.tests.entries.length :: testCounts entries := rfl
    have hone : testCounts [entry] = [entry.2.tests.entries.length] := rfl
    rw [hone, List.splitLengths_cons, List.take_of_length_le hlen.le] at hlinks
    rw [hcounts, List.splitLengths_cons, List.take_left' hlen, List.drop_left' hlen]
    exact List.rel_append hlinks hlinks'

/-- The tests of one suite go in one after the other. -/
theorem foldl_insertTest (suiteId : Option Int) :
    ∀ (entries : List (Σ _ : CString, Test)) (db : Database), ∃ rows seq,
      rows.length = entries.length ∧ (∀ t ∈ rows, t.suiteId = suiteId) ∧
        entries.foldl (fun db entry => db.insertTest suiteId entry.1 entry.2) db =
          { db with tests := db.tests ++ rows, seq := Function.update db.seq .tests seq }
  | [], db => by
    refine ⟨[], db.seq .tests, rfl, fun _ h => (List.not_mem_nil h).elim, ?_⟩
    rw [Function.update_eq_self, List.append_nil]
    rfl
  | entry :: entries, db => by
    obtain ⟨rows, seq, hlen, hid, heq⟩ :=
      foldl_insertTest suiteId entries (db.insertTest suiteId entry.1 entry.2)
    let row : TestRow := ⟨autoIncrement (db.seq .tests) (db.tests.map TestRow.id), suiteId, entry.1,
      entry.2.result, entry.2.asserts.passed, entry.2.asserts.total, entry.2.time⟩
    refine ⟨row :: rows, seq, by rw [List.length_cons, List.length_cons, hlen], ?_, ?_⟩
    · exact List.forall_mem_cons.mpr ⟨rfl, hid⟩
    · rw [List.foldl_cons, heq]
      simp only [Database.insertTest, Function.update_idem, List.append_assoc,
        List.singleton_append, row]

theorem fileSuite_filed (runId : Option Int) (db : Database) (entry : Σ _ : CString, Suite) :
    FiledSuites runId [entry] db (fileSuite runId db entry) := by
  obtain ⟨rows, seq, hlen, hid, heq⟩ := foldl_insertTest
    ((db.insertSuite runId entry.1 entry.2).lastId .suites) entry.2.tests.entries
    (db.insertSuite runId entry.1 entry.2)
  have heq : fileSuite runId db entry = _ := heq
  rw [heq]
  refine ⟨rfl, rfl, rfl, ?_, _, rows, rfl, rfl, ?_, ?_, ?_⟩
  · simp [Database.insertSuite]
  · exact List.forall_mem_singleton.mpr rfl
  · simpa [testCounts] using hlen
  · rw [testCounts, List.map_singleton, List.splitLengths_cons, List.take_of_length_le hlen.le]
    refine .cons (fun t ht => ?_) .nil
    rw [hid t ht]
    simp [Database.lastId, Database.insertSuite]

theorem foldl_fileSuite (runId : Option Int) :
    ∀ (entries : List (Σ _ : CString, Suite)) (db : Database),
      FiledSuites runId entries db (entries.foldl (fileSuite runId) db)
  | [], db => .nil runId db
  | entry :: entries, db =>
    (fileSuite_filed runId db entry).cons (foldl_fileSuite runId entries _)

/-! ## Calls that return -/

theorem saveResults_settled_ok {call : SaveCall} {s : SqliteBackend}
    (h : raised ((saveResults call).run s) = false) :
    ∃ counts, messageCounts call.results.messages = some counts ∧
      final ((saveResults call).run s) = settled (fileResults call counts s.pending)
        ((s.pending.insertRunVersion call.time).lastId .runVersions) := by
  obtain ⟨_, hok⟩ := ok_of_not_raised h
  exact saveResults_ok hok

/-- The row of `tinu_run_versions` that a call inserts. -/
def newRun (call : SaveCall) (db : Database) : RunVersionRow :=
  ⟨autoIncrement (db.seq .runVersions) (db.runVersions.map RunVersionRow.id), call.time⟩

theorem lastId_newRun (call : SaveCall) (db : Database) :
    (db.insertRunVersion call.time).lastId .runVersions = some ((newRun call db).id - 1) := by
  simp [Database.lastId, Database.insertRunVersion, newRun]

/-- The row of `tinu_summary` that a call inserts. -/
def newSummary (call : SaveCall) (db : Database) : SummaryRow :=
  ⟨some ((newRun call db).id - 1), call.results.summary.passed, call.results.summary.failed,
    call.results.summary.segfault⟩

/-- The rows of a call, up to those of its suites. -/
theorem fileResults_header (call : SaveCall) (counts : Counts) (db : Database) :
    (fileResults call counts db).runVersions = db.runVersions ++ [newRun call db] ∧
      (fileResults call counts db).summary = db.summary ++ [newSummary call db] ∧
      (fileResults call counts db).messages = db.messages ++ [⟨none, counts⟩] ∧
      (fileResults call counts db).seq .runVersions = some (newRun call db).id := by
  have hrun := foldl_fileSuite ((db.insertRunVersion call.time).lastId .runVersions)
    call.results.suites.entries (fileHeader call counts db)
  refine ⟨hrun.runVersions, ?_, hrun.messages, ?_⟩
  · rw [newSummary, ← lastId_newRun]
    exact hrun.summary
  · have hseq : (fileResults call counts db).seq .runVersions =
        (fileHeader call counts db).seq .runVersions := hrun.seq
    rw [hseq]
    simp [fileHeader, Database.insertMessages, Database.insertSummary, Database.insertRunVersion,
      newRun]

/-- **Where a call puts its rows.** -/
theorem fileResults_filed (call : SaveCall) (counts : Counts) (db : Database) :
    Filed (fun id => some (id - 1)) (fun _ => none) (fun id => some (id - 1)) call db
      (fileResults call counts db) := by
  obtain ⟨hruns, hsummary, hmessages, -⟩ := fileResults_header call counts db
  obtain ⟨rows, tests, hsuites, htests, hrunId, -, hlinks⟩ :=
    (foldl_fileSuite ((db.insertRunVersion call.time).lastId .runVersions)
      call.results.suites.entries (fileHeader call counts db)).filed
  have hsuites : (fileResults call counts db).suites = db.suites ++ rows := hsuites
  have htests : (fileResults call counts db).tests = db.tests ++ tests := htests
  refine ⟨⟨newRun call db, hruns, ?_, ?_, ?_⟩, ?_⟩
  · rw [hsummary, written_append, List.forall_mem_singleton]
    rfl
  · rw [hmessages, written_append, List.forall_mem_singleton]
  · rw [hsuites, written_append]
    intro r hr
    rw [hrunId r hr, lastId_newRun]
  · rw [hsuites, htests, written_append, written_append]
    exact hlinks

/-- A run is not the run before it. -/
theorem fileResults_not_linked (call : SaveCall) (counts : Counts) (db : Database) :
    ¬ Linked call db (fileResults call counts db) := by
  intro h
  obtain ⟨hruns, hsummary, -⟩ := fileResults_header call counts db
  obtain ⟨row, hrow, hlinks, -⟩ := h.run
  rw [hruns, List.append_cancel_left_eq, List.singleton_inj] at hrow
  rw [hsummary, written_append, List.forall_mem_singleton, ← hrow] at hlinks
  have hid : (newRun call db).id - 1 = (newRun call db).id := Option.some.inj hlinks
  omega

/-! ## Calls that raise -/

theorem get_reads (s : SqliteBackend) : ∃ a, (get : Saving SqliteBackend).run s = .ok a s :=
  ⟨s, get_run s⟩

theorem getLastId_reads (table : KeyedTable) (s : SqliteBackend) :
    ∃ id, (getLastId table).run s = .ok id s := ⟨_, getLastId_run table s⟩

theorem insert_keeps {P : Database → Prop} (raises : Bool) {f : Database → Database}
    (h : ∀ db, P db → P (f db)) : Keeps (Session.Holds P) (insert raises f) := by
  refine Keeps.execute fun db hdb => ?_
  cases raises with
  | false => exact h db hdb
  | true => exact hdb

theorem insert_keeps_committed (raises : Bool) (f : Database → Database) (db : Database) :
    Keeps (fun s : SqliteBackend => s.committed = db) (insert raises f) :=
  keeps_committed _ db

/-- The first `with` block commits nothing before its end. -/
theorem saveHeader_keeps_committed (call : SaveCall) (db : Database) :
    Keeps (fun s : SqliteBackend => s.committed = db) (saveHeader call) := by
  refine (Keeps.reads get_reads).bind fun self => (insert_keeps_committed _ _ db).bind fun _ => ?_
  cases messageCounts call.results.messages with
  | none => exact fun _ hs => hs
  | some counts => exact insert_keeps_committed _ _ db

/-- No round of the outer loop touches the summaries. -/
theorem saveSuite_keeps_summary (call : SaveCall) (rows : List SummaryRow)
    (entry : Σ _ : CString, Suite) :
    Keeps (Session.Holds fun db => db.summary = rows) (saveSuite call entry) := by
  have hinsert : ∀ self : SqliteBackend, Keeps (Session.Holds fun db => db.summary = rows)
      (insert (call.raises (.suite entry.1)) fun db =>
        db.insertSuite self.vars entry.1 entry.2) := fun _ => insert_keeps _ fun _ h => h
  have htest : ∀ suiteId test, Keeps (Session.Holds fun db => db.summary = rows)
      (saveTest call entry.1 suiteId test) := fun _ _ => insert_keeps _ fun _ h => h
  exact (Keeps.reads get_reads).bind fun self => (hinsert self).bind fun _ =>
    (Keeps.reads (getLastId_reads .suites)).bind fun suiteId =>
      Keeps.withBlock (Keeps.forM (htest suiteId) _)

/-- What a call that raises leaves, by what has failed. -/
inductive Failure (call : SaveCall) (s : SqliteBackend) : SqliteBackend → Prop where
  | runVersion (h : call.raises .runVersion = true) : Failure call s s
  | header (hrun : call.raises .runVersion = false) (h : HeaderFails call) (vars : Option Int) :
      Failure call s
        (settled (s.committed.deleteRun (s.committed.lastId .runVersions)) vars)
  | suites (hrun : call.raises .runVersion = false) (h : ¬ HeaderFails call) (row : SummaryRow)
      {db : Database} (hdb : db.summary = s.pending.summary ++ [row]) (vars : Option Int) :
      Failure call s (settled db vars)

/-- The body of the `try` statement has raised, in a call that had nothing pending. -/
theorem saveBody_raised {call : SaveCall} {s s' : SqliteBackend} {e : PyError}
    (h : (saveBody call).run s = .error e s') :
    (HeaderFails call → s'.pending = s.committed) ∧
      (¬ HeaderFails call → ∃ row, s'.pending.summary = s.pending.summary ++ [row]) := by
  unfold saveBody at h
  constructor
  · intro hfails
    obtain ⟨e₁, s₁, hheader⟩ := saveHeader_raises hfails s
    have hblock := withBlock_raised hheader
    have hs₁ := withBlock_error (saveHeader_keeps_committed call s.committed) hblock
    rw [bind_error _ hblock] at h
    cases h
    rw [hs₁]
    rfl
  · intro hfails
    obtain ⟨counts, -, hheader⟩ := saveHeader_ok hfails s
    rw [bind_ok (withBlock_ok hheader)] at h
    let header := (s.pending.insertSummary s.vars call.results.summary).insertMessages counts
    have hloop := Keeps.forM (saveSuite_keeps_summary call header.summary)
      call.results.suites.entries (settled header s.vars) ⟨rfl, rfl⟩
    have h : (forM call.results.suites.entries (saveSuite call)).run (settled header s.vars) =
        .error e s' := h
    rw [h] at hloop
    exact ⟨_, hloop.2⟩

/-- **What each failure leaves.** -/
theorem saveResults_raised {call : SaveCall} {s : SqliteBackend}
    (h : raised ((saveResults call).run s) = true) :
    Failure call s (final ((saveResults call).run s)) := by
  unfold saveResults at h ⊢
  cases hrun : call.raises .runVersion with
  | true =>
    rw [bind_error _ (createRunId_raises hrun s)]
    exact .runVersion hrun
  | false =>
    rw [bind_ok (createRunId_ok hrun s)] at h ⊢
    cases hbody : (saveBody call).run { s with
        pending := s.pending.insertRunVersion call.time
        vars := (s.pending.insertRunVersion call.time).lastId .runVersions } with
    | ok u s₁ =>
      rw [recover_ok _ hbody] at h
      cases h
    | error e s₁ =>
      obtain ⟨hheader, hsuites⟩ := saveBody_raised hbody
      rw [final_recover hbody, deleteLastId_run, final_ok]
      by_cases hfails : HeaderFails call
      · rw [hheader hfails]
        exact .header hrun hfails s₁.vars
      · obtain ⟨row, hrow⟩ := hsuites hfails
        have hrow : (s₁.pending.deleteRun (s₁.pending.lastId .runVersions)).summary =
            s.pending.summary ++ [row] := hrow
        exact .suites hrun hfails row hrow s₁.vars

/-- A round of the outer loop, none of whose insertions raises, returns. -/
theorem saveSuite_runs {call : SaveCall} (hraises : ∀ i, call.raises i = false)
    (entry : Σ _ : CString, Suite) (s : SqliteBackend) :
    ∃ s', (saveSuite call entry).run s = .ok ⟨⟩ s' := by
  have htest : ∀ suiteId test (s : SqliteBackend),
      ∃ s', (saveTest call entry.1 suiteId test).run s = .ok ⟨⟩ s' := by
    intro suiteId test s
    unfold saveTest
    rw [hraises]
    exact ⟨_, insert_ok _ s⟩
  unfold saveSuite
  rw [bind_ok (get_run s), hraises,
    bind_ok (insert_ok _ s), bind_ok (getLastId_run _ _)]
  obtain ⟨s', hs'⟩ := forM_returns (htest _) entry.2.tests.entries _
  exact ⟨_, withBlock_ok hs'⟩

/-- A call with all the counts, none of whose insertions raises, returns. -/
theorem saveResults_returns {call : SaveCall} (hraises : ∀ i, call.raises i = false)
    (hcounts : messageCounts call.results.messages ≠ none) (s : SqliteBackend) :
    raised ((saveResults call).run s) = false := by
  have hheader : ¬ HeaderFails call := by
    unfold HeaderFails
    rw [hraises, hraises]
    simpa using hcounts
  have hbody : ∀ s, ∃ s', (saveBody call).run s = .ok ⟨⟩ s' := by
    intro s
    obtain ⟨counts, -, hrun⟩ := saveHeader_ok hheader s
    unfold saveBody
    rw [bind_ok (withBlock_ok hrun)]
    exact forM_returns (saveSuite_runs hraises) _ _
  unfold saveResults
  rw [bind_ok (createRunId_ok (hraises _) s)]
  obtain ⟨s', hs'⟩ := hbody { s with
    pending := s.pending.insertRunVersion call.time
    vars := (s.pending.insertRunVersion call.time).lastId .runVersions }
  rw [recover_ok _ hs']
  rfl

/-- A call whose first `with` block raises does so too. -/
theorem saveResults_raises {call : SaveCall} (h : HeaderFails call) (s : SqliteBackend) :
    raised ((saveResults call).run s) = true := by
  have hbody : ∀ s, ∃ e s', (saveBody call).run s = .error e s' := by
    intro s
    obtain ⟨e, s', hrun⟩ := saveHeader_raises h s
    exact ⟨e, _, bind_error _ (withBlock_raised hrun)⟩
  unfold saveResults
  cases hrun : call.raises .runVersion with
  | true =>
    rw [bind_error _ (createRunId_raises hrun s)]
    rfl
  | false =>
    rw [bind_ok (createRunId_ok hrun s)]
    obtain ⟨e, s', hs'⟩ := hbody { s with
      pending := s.pending.insertRunVersion call.time
      vars := (s.pending.insertRunVersion call.time).lastId .runVersions }
    rw [recover_error hs' (deleteLastId_run s')]
    rfl

theorem saveResults_settled {call : SaveCall} {s : SqliteBackend} (hs : s.Settled) :
    (final ((saveResults call).run s)).Settled := by
  cases h : raised ((saveResults call).run s) with
  | false =>
    obtain ⟨counts, -, hok⟩ := saveResults_settled_ok h
    rw [hok]
    exact settled_settled _ _
  | true =>
    have hfailure := saveResults_raised h
    generalize final ((saveResults call).run s) = s' at hfailure ⊢
    cases hfailure with
    | runVersion => exact hs
    | header => exact settled_settled _ _
    | suites => exact settled_settled _ _

/-- **Between calls nothing is pending.** -/
theorem reached_settled (calls : List SaveCall) : (reached calls).Settled := by
  induction calls using List.reverseRecOn with
  | nil => exact settled_settled _ _
  | append_singleton calls call ih =>
    rw [reached_concat]
    exact saveResults_settled ih

/-! ## Sequences of calls -/

theorem allReturn_nil : AllReturn [] := by
  intro pre call post heq
  exact absurd heq (by simp)

theorem allReturn_concat {calls : List SaveCall} {call : SaveCall} :
    AllReturn (calls ++ [call]) ↔
      AllReturn calls ∧ raised ((saveResults call).run (reached calls)) = false := by
  constructor
  · intro h
    refine ⟨fun pre c post heq => ?_, h calls call [] rfl⟩
    exact h pre c (post ++ [call]) (by rw [heq, List.append_assoc, List.cons_append])
  · rintro ⟨hcalls, hcall⟩ pre c post heq
    rcases post.eq_nil_or_concat with rfl | ⟨post, last, rfl⟩
    · obtain ⟨rfl, hc⟩ := List.append_inj' heq rfl
      rw [List.singleton_inj] at hc
      rwa [← hc]
    · rw [List.concat_eq_append, ← List.cons_append, ← List.append_assoc] at heq
      exact hcalls pre c post (List.append_inj' heq rfl).1

/-- A call that returns, after others that may not. -/
theorem reached_returned {calls : List SaveCall} {call : SaveCall}
    (h : raised ((saveResults call).run (reached calls)) = false) :
    ∃ counts, (reached (calls ++ [call])).committed =
      fileResults call counts (reached calls).committed := by
  obtain ⟨counts, -, hfinal⟩ := saveResults_settled_ok h
  have hpending : (reached calls).pending = (reached calls).committed := reached_settled calls
  refine ⟨counts, ?_⟩
  rw [reached_concat, hfinal, hpending]
  rfl

/-- The ids after `n` calls that returned. -/
structure Shifted (n : Nat) (db : Database) : Prop where
  runs : db.runVersions.map RunVersionRow.id = (List.range n).map fun k : Nat => (k : Int) + 1
  summary : db.summary.map SummaryRow.runId = (List.range n).map fun k : Nat => some (k : Int)
  messages : db.messages.map MessagesRow.runId = List.replicate n none
  seq : (db.seq .runVersions).getD 0 = n

theorem foldl_max_range (n : Nat) :
    ((List.range n).map fun k : Nat => (k : Int) + 1).foldl max 0 = n := by
  induction n with
  | zero => rfl
  | succ n ih =>
    rw [List.range_succ, List.map_append, List.foldl_append, ih]
    simp only [List.map_cons, List.map_nil, List.foldl_cons, List.foldl_nil]
    omega

/-- A new id is one more than the number in the sequence table. -/
theorem Shifted.newRun_id {n : Nat} {db : Database} (h : Shifted n db) (call : SaveCall) :
    (newRun call db).id = (n : Int) + 1 := by
  show max ((db.seq .runVersions).getD 0) _ + 1 = _
  rw [h.seq, h.runs, foldl_max_range, max_self]

theorem Shifted.step {n : Nat} {db : Database} (h : Shifted n db) (call : SaveCall)
    (counts : Counts) : Shifted (n + 1) (fileResults call counts db) := by
  obtain ⟨hruns, hsummary, hmessages, hseq⟩ := fileResults_header call counts db
  have hid := h.newRun_id call
  constructor
  · rw [hruns, List.map_append, h.runs, List.range_succ, List.map_append, List.map_singleton, hid]
    rfl
  · rw [hsummary, List.map_append, h.summary, List.range_succ, List.map_append, List.map_singleton,
      newSummary, hid, Int.add_sub_cancel]
    rfl
  · rw [hmessages, List.map_append, h.messages, List.replicate_succ']
    rfl
  · rw [hseq, hid]
    rfl

/-- **In a sequence of calls that return, each run has the summary of the next**, the first summary
is of no run, and neither is any message count. -/
theorem filed_under_previous {calls : List SaveCall} (h : AllReturn calls) :
    Shifted calls.length (reached calls).committed := by
  induction calls using List.reverseRecOn with
  | nil => exact ⟨rfl, rfl, rfl, rfl⟩
  | append_singleton calls call ih =>
    obtain ⟨hcalls, hcall⟩ := allReturn_concat.mp h
    obtain ⟨counts, hcounts⟩ := reached_returned hcall
    rw [hcounts, List.length_append]
    exact (ih hcalls).step call counts

/-- **The rows are linked exactly when there are none.** -/
theorem links_iff (calls : List SaveCall) (h : AllReturn calls) :
    LinksHold calls ↔ calls = [] := by
  constructor
  · rintro ⟨hlinked, -⟩
    cases calls with
    | nil => rfl
    | cons call calls =>
      obtain ⟨counts, hcounts⟩ := reached_returned (h [] call calls rfl)
      have hfirst := hlinked [] call calls rfl
      rw [hcounts] at hfirst
      exact (fileResults_not_linked call counts _ hfirst).elim
  · rintro rfl
    refine ⟨fun pre call post heq => ?_, List.nodup_nil, List.nodup_nil⟩
    exact absurd heq (by simp)

/-- `save_results` of a run of one suite with one test. -/
def plainCall : SaveCall := ⟨0, oneFailure, fun _ => false⟩

theorem plainCall_returns (self : SqliteBackend) :
    raised ((saveResults plainCall).run self) = false := by
  have hcounts : messageCounts plainCall.results.messages = some ⟨0, 0, 0, 0, 0, 0⟩ := rfl
  exact saveResults_returns (fun _ => rfl) (by rw [hcounts]; exact nofun) self

theorem allReturn_plainCall (n : Nat) : AllReturn (List.replicate n plainCall) := by
  induction n with
  | zero => exact allReturn_nil
  | succ n ih =>
    rw [List.replicate_succ']
    exact allReturn_concat.mpr ⟨ih, plainCall_returns _⟩

theorem links_iff_plain :
    AllReturn [plainCall] ∧ (LinksHold [plainCall] ↔ [plainCall] = []) := by
  have h : AllReturn [plainCall] := allReturn_plainCall 1
  exact ⟨h, links_iff [plainCall] h⟩

/-- The rows of the first run are filed under run 0, and its test under suite 0. -/
theorem first_run_unlinked : ¬ ∀ calls, AllReturn calls → LinksHold calls := by
  intro h
  obtain ⟨counts, hcounts⟩ := reached_returned (plainCall_returns (reached []))
  have hlinked := (h [plainCall] (allReturn_plainCall 1)).1 [] plainCall [] rfl
  rw [hcounts] at hlinked
  exact fileResults_not_linked plainCall counts _ hlinked

/-! ## After a failure -/

/-- The contents of the five tables. -/
def Database.tables (db : Database) :
    List RunVersionRow × List SummaryRow × List MessagesRow × List SuiteRow × List TestRow :=
  (db.runVersions, db.summary, db.messages, db.suites, db.tests)

/-- The five tables are as they were, committed and pending. -/
def Restored (before after : SqliteBackend) : Prop :=
  after.committed.tables = before.committed.tables ∧
    after.pending.tables = before.pending.tables

/-- It is the first insertion that raises, or one of the first `with` block, and then no run has the
id before the last one given. -/
def Recoverable (call : SaveCall) (self : SqliteBackend) : Prop :=
  call.raises .runVersion = true ∨
    HeaderFails call ∧
      ∀ row ∈ self.committed.runVersions, some row.id ≠ self.committed.lastId .runVersions

theorem deleteRun_tables (db : Database) (id : Option Int) :
    (db.deleteRun id).tables = db.tables ↔ ∀ row ∈ db.runVersions, some row.id ≠ id := by
  have hfilter : (db.deleteRun id).tables = db.tables ↔
      (db.runVersions.filter fun row => some row.id ≠ id) = db.runVersions := by
    constructor
    · exact fun h => congrArg Prod.fst h
    · exact fun h => congrArg (fun rows => (rows, db.tables.2)) h
  rw [hfilter, List.filter_eq_self]
  simp only [decide_eq_true_eq]

/-- **A call that raises has changed nothing exactly when it is recoverable.** -/
theorem restored_iff (calls : List SaveCall) (call : SaveCall)
    (h : raised ((saveResults call).run (reached calls)) = true) :
    Restored (reached calls) (final ((saveResults call).run (reached calls))) ↔
      Recoverable call (reached calls) := by
  have hpending : (reached calls).pending = (reached calls).committed := reached_settled calls
  have hfailure := saveResults_raised h
  generalize final ((saveResults call).run (reached calls)) = after at hfailure ⊢
  unfold Restored Recoverable
  rw [hpending]
  cases hfailure with
  | runVersion hrun => exact ⟨fun _ => .inl hrun, fun _ => ⟨rfl, by rw [hpending]⟩⟩
  | header hrun hfails vars =>
    rw [hrun]
    show (Database.tables (Database.deleteRun _ _) = _ ∧
      Database.tables (Database.deleteRun _ _) = _) ↔ _
    rw [and_self, deleteRun_tables]
    constructor
    · exact fun hrows => .inr ⟨hfails, hrows⟩
    · rintro (hrun | ⟨-, hrows⟩)
      · cases hrun
      · exact hrows
  | @suites hrun hfails row db hdb vars =>
    constructor
    · rintro ⟨hcommitted, -⟩
      have hsummary : db.summary = (reached calls).committed.summary :=
        congrArg (fun tables => tables.2.1) hcommitted
      rw [hdb, hpending] at hsummary
      exact absurd hsummary (by simp)
    · rintro (hrun' | ⟨hfails', -⟩)
      · rw [hrun] at hrun'
        cases hrun'
      · exact (hfails hfails').elim

/-- Where no insertion but those of the first `with` block raises, the run before the last one is
deleted. -/
theorem header_failure_deletes {calls : List SaveCall} (h : AllReturn calls)
    (hn : 2 ≤ calls.length) {call : SaveCall} (hrun : call.raises .runVersion = false) :
    ¬ Recoverable call (reached calls) := by
  obtain ⟨hruns, -, -, hseq⟩ := filed_under_previous h
  rintro (hraises | ⟨-, hrows⟩)
  · rw [hrun] at hraises
    cases hraises
  · have hmem : (calls.length : Int) - 1 ∈
        (reached calls).committed.runVersions.map RunVersionRow.id := by
      rw [hruns, List.mem_map]
      exact ⟨calls.length - 2, List.mem_range.mpr (by omega), by omega⟩
    obtain ⟨row, hrow, hid⟩ := List.mem_map.mp hmem
    refine hrows row hrow ?_
    cases hnum : (reached calls).committed.seq .runVersions with
    | none =>
      rw [hnum, Option.getD_none] at hseq
      omega
    | some seq =>
      rw [hnum, Option.getD_some] at hseq
      rw [Database.lastId, hnum, Option.map_some, hid, hseq]

/-- `save_results` of a result without message counts. -/
def countlessCall : SaveCall := ⟨0, TinuResult.new, fun _ => false⟩

theorem countlessCall_fails : HeaderFails countlessCall := .inr (.inl rfl)

/-- After one run a result without message counts leaves the tables as they were; after two it does
not. -/
theorem restored_iff_second :
    Restored (reached (List.replicate 1 plainCall))
        (final ((saveResults countlessCall).run (reached (List.replicate 1 plainCall)))) ∧
      ¬ Restored (reached (List.replicate 2 plainCall))
        (final ((saveResults countlessCall).run (reached (List.replicate 2 plainCall)))) := by
  have hraised := saveResults_raises countlessCall_fails
  constructor
  · refine (restored_iff _ countlessCall (hraised _)).mpr
      (.inr ⟨countlessCall_fails, fun row hrow hid => ?_⟩)
    obtain ⟨hruns, -, -, hseq⟩ := filed_under_previous (allReturn_plainCall 1)
    have hmem : row.id ∈ (reached (List.replicate 1 plainCall)).committed.runVersions.map
        RunVersionRow.id := List.mem_map_of_mem hrow
    rw [hruns] at hmem
    obtain ⟨n, -, hrowId⟩ := List.mem_map.mp hmem
    rw [Database.lastId, ← hrowId] at hid
    obtain ⟨seq, hnum, hlast⟩ := Option.map_eq_some_iff.mp hid.symm
    rw [hnum, Option.getD_some, List.length_replicate] at hseq
    omega
  · exact mt (restored_iff _ countlessCall (hraised _)).mp
      (header_failure_deletes (allReturn_plainCall 2) (Nat.le_refl _) rfl)

/-- After two runs, a result without message counts takes the first of them away. -/
theorem failure_deletes_run :
    ¬ ∀ calls call, raised ((saveResults call).run (reached calls)) = true →
      Restored (reached calls) (final ((saveResults call).run (reached calls))) := by
  intro h
  have hraised := saveResults_raises countlessCall_fails (reached (List.replicate 2 plainCall))
  obtain ⟨hcommitted, -⟩ := h (List.replicate 2 plainCall) countlessCall hraised
  have hfailure := saveResults_raised hraised
  generalize final ((saveResults countlessCall).run (reached (List.replicate 2 plainCall))) = after
    at hcommitted hfailure
  refine @header_failure_deletes _ (allReturn_plainCall 2) (Nat.le_refl _) countlessCall rfl
    (.inr ⟨countlessCall_fails, ?_⟩)
  cases hfailure with
  | runVersion hrun => cases hrun
  | header _ _ vars => exact (deleteRun_tables _ _).mp hcommitted
  | suites _ hfails => exact (hfails countlessCall_fails).elim

end Reporting

end Tinu
