import Mathlib.Data.List.Sort
import Makolet.Maintenance.Eligibility

/-!
# The repository of a normalized rebuild

`PostgresArchiveMaintenanceRepository` and what the ingestion repository and the catalog share with
it: the control row that is the maintenance barrier, the runs and their ordered file lists, the
replay rows, the apply transaction under the barrier and one batch of the isolated catalog
bootstrap. Every operation is one transaction on the `Database`; a raised failure leaves it as it
was.

The equivalence check and the identity reconciliation of `finish_rebuild` are a parameter: all that
the protocol needs of them is that they either refuse or leave some normalized state.
-/

set_option autoImplicit false

namespace Makolet.Maintenance

open Makolet.Domain Makolet.Lib Makolet.Normalized Makolet.Ingestion

abbrev RunId := Nat

abbrev ReplayId := Nat

/-! ## Rows -/

inductive RebuildStatus
  | running
  | completed
  | failed
  deriving DecidableEq, Repr

/-- `normalized_rebuild_runs`. The stored error code is the class of the exception. -/
structure RebuildRun where
  id : RunId
  status : RebuildStatus
  requestedBy : String
  requestedParserVersion : String
  archiveCutoffAt : Time
  sourceFilesTotal : Nat
  sourceFilesCompleted : Nat
  lastSequence : Option Nat
  lastSourceFileId : Option FileId
  lastArchivedAt : Option Time
  errorCode : Option ErrorKind
  errorMessage : Option String
  deriving DecidableEq, Repr

inductive RebuildFileStatus
  | pending
  | completed
  deriving DecidableEq, Repr

/-- `normalized_rebuild_files`. -/
structure RebuildFile where
  rebuildRunId : RunId
  sequence : Nat
  sourceFileId : FileId
  archivedAt : Time
  originalAppliedAt : Option Time
  effectiveSourceTimestamp : Time
  status : RebuildFileStatus
  deriving DecidableEq, Repr

structure ArchivedSourceFile where
  sourceFileId : FileId
  archivedAt : Time
  deriving DecidableEq, Repr

/-- `replay_runs`: the file, the rebuild the replay is linked to, and whether it is finished. -/
structure ReplayRun where
  id : ReplayId
  sourceFileId : FileId
  rebuildRunId : Option RunId
  finished : Bool
  deriving DecidableEq, Repr

/-- The tables that a rebuild, an ingest and a replay share. `active` is the control row. -/
structure Database where
  tables : Tables
  sources : List SourceFile
  staging : FileId → Staging
  replays : List ReplayRun
  active : Option RunId
  runs : List RebuildRun
  files : List RebuildFile
  nextId : Nat

/-- The identity of a source row. -/
def sourceFileIdOf (row : SourceFile) : FileId := row.remote.fileId

namespace Database

variable (db : Database)

def source (f : FileId) : Option SourceFile :=
  Table.lookup sourceFileIdOf db.sources f

def run (id : RunId) : Option RebuildRun :=
  Table.lookup RebuildRun.id db.runs id

/-- The file rows of a run. -/
def filesOf (id : RunId) : List RebuildFile :=
  db.files.filter fun f => decide (f.rebuildRunId = id)

def pendingOf (id : RunId) : List RebuildFile :=
  (db.filesOf id).filter fun f => decide (f.status = .pending)

/-- The unfinished replay of a file. -/
def openReplay (f : FileId) : Option ReplayRun :=
  db.replays.find? fun r => decide (r.sourceFileId = f) && !r.finished

def setRun (id : RunId) (change : RebuildRun → RebuildRun) : Database :=
  { db with runs := Table.updateAt RebuildRun.id id change db.runs }

end Database

/-! ## The barrier -/

/-- `assert_ingestion_allowed`. -/
def assertIngestionAllowed (rebuildRunId : Option RunId) (db : Database) : Except Failure Unit :=
  match db.active with
  | none =>
    require (rebuildRunId = none)
      ⟨.maintenanceMode, "The requested normalized rebuild is no longer active", 0⟩
  | some active => do
    require (rebuildRunId = some active)
      ⟨.maintenanceMode,
        "Normalized rebuild is active; ordinary ingestion is temporarily disabled", 0⟩
    require ((db.run active).map RebuildRun.status = some .running)
      ⟨.maintenanceMode, "The active normalized rebuild must be resumed before replay", 0⟩

theorem assertIngestionAllowed_eq_ok {rebuildRunId : Option RunId} {db : Database} {u : Unit}
    (h : assertIngestionAllowed rebuildRunId db = .ok u) : db.active = rebuildRunId := by
  unfold assertIngestionAllowed at h
  split at h
  · rename_i hactive
    rw [hactive, require_eq_ok.mp h]
  · rename_i active hactive
    obtain ⟨hid, -⟩ := require_bind_eq_ok.mp h
    rw [hactive, hid]

/-! ## The work list -/

/-- `COALESCE` of the newest staged header time, the listing's time, the archive time and the
discovery time. -/
def rebuildTimestamp (staging : Staging) (row : SourceFile) : Time :=
  match (staging.documents.filterMap StagedDocument.sourceUpdatedAt).max? with
  | some time => time
  | none => (row.remote.sourceTimestamp.orElse fun _ => row.downloadFinishedAt).getD
      row.remote.discoveredAt

/-- `COALESCE(original_applied_at, effective_source_timestamp)`: where a file stands in the
sequence, and the instant its replay applies it at. -/
def RebuildFile.orderTime (f : RebuildFile) : Time :=
  f.originalAppliedAt.getD f.effectiveSourceTimestamp

/-- The `ORDER BY` of the sequence. -/
def RebuildFile.SequencedBefore (a b : RebuildFile) : Prop :=
  a.orderTime < b.orderTime ∨ a.orderTime = b.orderTime ∧ a.sourceFileId ≤ b.sourceFileId

instance : DecidableRel RebuildFile.SequencedBefore :=
  fun _ _ => inferInstanceAs (Decidable (_ ∨ _))

/-- A selected file. Its archive time is the one the selection compared with the cutoff. -/
def rebuildEntry (db : Database) (id : RunId) (row : SourceFile) : RebuildFile where
  rebuildRunId := id
  sequence := 0
  sourceFileId := sourceFileIdOf row
  archivedAt := row.downloadFinishedAt.getD row.remote.discoveredAt
  originalAppliedAt := (claimOf db.tables (sourceFileIdOf row)).map AppliedContent.appliedAt
  effectiveSourceTimestamp := rebuildTimestamp (db.staging (sourceFileIdOf row)) row
  status := .pending

/-- `row_number()` over the ordered selection. -/
def numbered (entries : List RebuildFile) : List RebuildFile :=
  entries.zipIdx.map fun e => { e.1 with sequence := e.2 + 1 }

/-- The rows of `normalized_rebuild_files` that `begin_rebuild` inserts. -/
def rebuildSequence (db : Database) (id : RunId) (cutoff : Time) : List RebuildFile :=
  numbered (((db.sources.filter (eligible cutoff)).map (rebuildEntry db id)).insertionSort
    RebuildFile.SequencedBefore)

/-! ## The reset -/

/-- `_SYSTEM_EXACT_ACTORS`. -/
def systemExactActors : List String :=
  ["system:exact-gtin", "system:exact-gtin-evidence"]

/-- `_DERIVED_IDENTIFIER_METHODS`. -/
def derivedIdentifierMethods : List ValidationMethod :=
  [.retailerAssertion, .independentRetailerCorroboration]

/-- `_TRUNCATE_DERIVED_STATE` and the two deletions after it. -/
def resetDerivedState (t : Tables) : Tables :=
  { t with
    promotionClubs := []
    promotionStores := []
    promotionItems := []
    promotions := []
    prices := ⟨[], []⟩
    availability := ⟨[], []⟩
    assertions := []
    appliedContents := []
    watermarks := []
    confirmedMatches := t.confirmedMatches.filter fun m =>
      decide (m.confirmedBy ∉ systemExactActors)
    identifiers := t.identifiers.filter fun i =>
      decide (i.validationMethod ∉ derivedIdentifierMethods) }

/-! ## The operations of a run -/

def invalidTransition (message : String) : Failure :=
  ⟨.invalidStateTransition, message, 0⟩

/-- `begin_rebuild`. -/
def beginRebuild (requestedBy parserVersion : String) (now : Time) (db : Database) :
    Except Failure (Database × RunId) := do
  require (db.active = none)
    (invalidTransition "A normalized rebuild is already active; resume that run")
  let files := rebuildSequence db db.nextId now
  let run : RebuildRun :=
    { id := db.nextId
      status := .running
      requestedBy := requestedBy
      requestedParserVersion := parserVersion
      archiveCutoffAt := now
      sourceFilesTotal := files.length
      sourceFilesCompleted := 0
      lastSequence := none
      lastSourceFileId := none
      lastArchivedAt := none
      errorCode := none
      errorMessage := none }
  pure ({ db with
    tables := resetDerivedState db.tables
    staging := fun _ => .empty
    active := some db.nextId
    runs := db.runs ++ [run]
    files := db.files ++ files
    nextId := db.nextId + 1 }, db.nextId)

/-- `_lock_rebuild_run`. -/
def lockRebuildRun (id : RunId) (db : Database) : Except Failure RebuildRun :=
  match db.run id with
  | none => .error ⟨.persistenceNotFound, "Normalized rebuild was not found", 0⟩
  | some run => .ok run

/-- `resume_rebuild`. -/
def resumeRebuild (id : RunId) (db : Database) : Except Failure Database := do
  require (db.active = some id)
    (invalidTransition "The rebuild is not the active maintenance run")
  let run ← lockRebuildRun id db
  require (run.status ≠ .completed)
    (invalidTransition "A completed rebuild cannot be resumed")
  pure (db.setRun id fun r => { r with status := .running, errorCode := none, errorMessage := none })

/-- `MAXIMUM_ARCHIVE_PAGE_SIZE`. -/
def maximumArchivePageSize : Nat := 200

/-- `next_rebuild_files`. -/
def nextRebuildFiles (id : RunId) (limit : Nat) (db : Database) :
    Except Failure (List (Nat × ArchivedSourceFile)) := do
  require (0 < limit ∧ limit ≤ maximumArchivePageSize)
    ⟨.domainValidation, "limit must be between 1 and 200", 0⟩
  let rows := (db.pendingOf id).insertionSort fun a b => a.sequence ≤ b.sequence
  pure ((rows.take limit).map fun f => (f.sequence, ⟨f.sourceFileId, f.archivedAt⟩))

/-- The `WHERE` clause of a checkpoint. -/
def RebuildFile.isAt (f : RebuildFile) (id : RunId) (sequence : Nat)
    (file : ArchivedSourceFile) : Prop :=
  f.rebuildRunId = id ∧ f.sequence = sequence ∧ f.sourceFileId = file.sourceFileId ∧
    f.archivedAt = file.archivedAt ∧ f.status = .pending

instance (f : RebuildFile) (id : RunId) (sequence : Nat) (file : ArchivedSourceFile) :
    Decidable (f.isAt id sequence file) :=
  inferInstanceAs (Decidable (_ ∧ _))

/-- `complete_rebuild_file`. -/
def completeRebuildFile (id : RunId) (sequence : Nat) (file : ArchivedSourceFile)
    (db : Database) : Except Failure Database := do
  let run ← lockRebuildRun id db
  require (run.status = .running)
    (invalidTransition "Only a running rebuild can checkpoint files")
  require (sequence = run.lastSequence.getD 0 + 1)
    (invalidTransition "Rebuild files must checkpoint in order")
  require (∃ f ∈ db.files, f.isAt id sequence file)
    (invalidTransition "Rebuild file is missing or already completed")
  let files := db.files.map fun f =>
    if f.isAt id sequence file then { f with status := .completed } else f
  pure { db.setRun id (fun r =>
      { r with
        sourceFilesCompleted := r.sourceFilesCompleted + 1
        lastSequence := some sequence
        lastSourceFileId := some file.sourceFileId
        lastArchivedAt := some file.archivedAt }) with
    files := files }

/-- `fail_rebuild`. -/
def failRebuild (id : RunId) (errorCode : ErrorKind) (errorMessage : String) (db : Database) :
    Except Failure Database := do
  require ((db.run id).any fun r => decide (r.status ≠ .completed))
    (invalidTransition "Rebuild cannot be marked failed")
  pure (db.setRun id fun r =>
    { r with status := .failed, errorCode := some errorCode, errorMessage := some errorMessage })

/-- The equivalence check and the reconciliation at the end of a run. -/
abbrev Reconcile := RebuildRun → Database → Except Failure Tables

/-- `finish_rebuild`. -/
def finishRebuild (reconcile : Reconcile) (id : RunId) (db : Database) :
    Except Failure Database := do
  require (db.active = some id)
    (invalidTransition "The rebuild is not the active maintenance run")
  let run ← lockRebuildRun id db
  require (db.pendingOf id = [] ∧ run.sourceFilesCompleted = run.sourceFilesTotal)
    (invalidTransition "Rebuild still has pending archived files")
  let tables ← reconcile run db
  pure { db.setRun id (fun r =>
      { r with status := .completed, errorCode := none, errorMessage := none }) with
    tables := tables
    active := none }

/-! ## Replays and the apply transaction -/

/-- `begin_replay`: an open replay of the file is closed, and a new one is opened. -/
def beginReplay (f : FileId) (rebuildRunId : Option RunId) (db : Database) :
    Except Failure (Database × ReplayId) := do
  let _ ← assertIngestionAllowed rebuildRunId db
  match db.source f with
  | none => .error ⟨.persistenceNotFound, "Source file does not exist", 0⟩
  | some row => do
    require (row.archive ≠ none)
      ⟨.persistenceConflict, "Only archived source files can be replayed", 0⟩
    let closed := db.replays.map fun r =>
      if r.sourceFileId = f then { r with finished := true } else r
    pure ({ db with
      replays := closed ++ [⟨db.nextId, f, rebuildRunId, false⟩]
      nextId := db.nextId + 1 }, db.nextId)

/-- `finish_replay`. -/
def finishReplay (id : ReplayId) (db : Database) : Except Failure Database := do
  require (∃ r ∈ db.replays, r.id = id ∧ r.finished = false)
    ⟨.persistenceConflict, "Replay does not exist or is already finished", 0⟩
  pure { db with
    replays := Table.updateAt ReplayRun.id id (fun r => { r with finished := true }) db.replays }

/-- What an apply reads from its caller and its clock. -/
structure ApplySettings where
  wallClock : Time
  policy : SnapshotPolicy
  limits : IssueLimits
  usage : IssueUsage

/-- The request of the apply transaction. The barrier is passed when it is built. -/
def databaseRequest (settings : ApplySettings) (row : SourceFile) (db : Database) :
    ApplyRequest where
  sourceFileId := sourceFileIdOf row
  documentType := row.remote.documentType
  source := ⟨row.remote.retailerId, row.remote.portalId, row.remote.documentType, row.status,
    row.remote.sourceTimestamp, row.downloadFinishedAt, row.remote.discoveredAt,
    row.archive.map ArchiveObject.contentSha256⟩
  staging := db.staging (sourceFileIdOf row)
  replayActive := (db.openReplay (sourceFileIdOf row)).isSome
  rebuildActive := false
  wallClock := settings.wallClock
  policy := settings.policy
  limits := settings.limits
  usage := settings.usage

/-- `rebuild_applied_at` of `_claim_content`. -/
def rebuildAppliedAt (f : FileId) (rebuildRunId : Option RunId) (db : Database) : Option Time :=
  rebuildRunId.bind fun id =>
    ((db.filesOf id).find? fun e => decide (e.sourceFileId = f)).map RebuildFile.orderTime

/-- `_claim_content` of a rebuild: a file without a claim claims the instant of its rebuild row. -/
def claimRebuilt (r : ApplyRequest) (appliedAt : Option Time) (t : Tables) : Tables :=
  match appliedAt, claimOf t r.sourceFileId with
  | some time, none =>
    { t with appliedContents := t.appliedContents ++
        [⟨r.sourceFileId, r.source.retailerId, r.source.portalId, r.documentType,
          r.contentSha256, time⟩] }
  | _, _ => t

/-- `apply`. The ordering check reads no claim, so the claim of a rebuild may stand before it; a
refused apply is rolled back with its claim. -/
def applySource (settings : ApplySettings) (f : FileId) (db : Database) :
    Except Failure Database :=
  match db.source f with
  | none => .error ⟨.persistenceNotFound,
      "Source file is missing or has not been archived", 0⟩
  | some row => do
    let request := databaseRequest settings row db
    let _ ← lockSourceForApply request
    let rebuildRunId := (db.openReplay (sourceFileIdOf row)).bind ReplayRun.rebuildRunId
    let _ ← assertIngestionAllowed rebuildRunId db
    let applied ← apply request
      (claimRebuilt request (rebuildAppliedAt (sourceFileIdOf row) rebuildRunId db) db.tables)
    pure { db with tables := applied.1 }

/-! ## The catalog bootstrap -/

/-- `_BOOTSTRAP_BATCH_SIZE`. -/
def bootstrapBatchSize : Nat := 500

/-- `_ISOLATED_ACTOR`. -/
def isolatedActor : String := "system:isolated-catalog"

/-- `_select_source_subjects`: the unmatched items last written by the file, after the cursor. -/
def sourceSubjects (f : FileId) (cursor : Option ItemId) (t : Tables) : List RetailerItem :=
  ((t.items.filter fun item =>
      decide (item.lastSourceFileId = f) &&
      (Table.lookup ConfirmedMatch.itemId t.confirmedMatches item.id).isNone &&
      cursor.all fun c => decide (c < item.id)).insertionSort fun a b => a.id ≤ b.id).take
    (bootstrapBatchSize + 1)

/-- `_bootstrap_isolated_products` for one subject, which has no match. The evidence of an isolated
match repeats the item's own columns. -/
def bootstrapItem (now : Time) (t : Tables) (item : RetailerItem) : Tables :=
  { t with
    products := t.products ++
      [⟨t.nextId, item.description.itemName, none, item.description.quantity,
        item.description.unitOfMeasure, now⟩]
    confirmedMatches := t.confirmedMatches ++
      [⟨item.id, t.nextId, .isolatedRetailerItem, none, now, isolatedActor⟩]
    identifiers := Table.insertNew ProductIdentifier.key t.identifiers
      [⟨t.nextId, .retailerItem, item.sourceItemCode, some (item.retailerId, item.portalId), true,
        .isolatedRetailerItem, none, none, now⟩]
    nextId := t.nextId + 1 }

/-- One transaction of `bootstrap_source_file`; it returns the next cursor while there is more. -/
def bootstrapBatch (now : Time) (f : FileId) (cursor : Option ItemId) (db : Database) :
    Database × Option ItemId :=
  let subjects := sourceSubjects f cursor db.tables
  let batch := subjects.take bootstrapBatchSize
  ({ db with tables := batch.foldl (bootstrapItem now) db.tables },
    if bootstrapBatchSize < subjects.length then batch.getLast?.map RetailerItem.id else none)

/-- A batch without subjects writes nothing. -/
theorem bootstrapBatch_of_no_subjects {now : Time} {f : FileId} {cursor : Option ItemId}
    {db : Database} (h : sourceSubjects f cursor db.tables = []) :
    (bootstrapBatch now f cursor db).1 = db := by
  simp only [bootstrapBatch, h, List.take_nil, List.foldl_nil]

/-! ## What the operations of a run do -/

section Inversion

variable {db db' : Database} {id : RunId}

theorem lockRebuildRun_eq_ok {run : RebuildRun} (h : lockRebuildRun id db = .ok run) :
    db.run id = some run := by
  unfold lockRebuildRun at h
  split at h
  · cases h
  · cases h
    assumption

theorem applySource_eq_ok {settings : ApplySettings} {f : FileId}
    (h : applySource settings f db = .ok db') :
    ∃ tables, db' = { db with tables := tables } ∧
      db.active = (db.openReplay f).bind ReplayRun.rebuildRunId := by
  unfold applySource at h
  split at h
  · cases h
  · rename_i row hrow
    obtain ⟨-, -, h⟩ := bind_eq_ok.mp h
    obtain ⟨_, hallowed, h⟩ := bind_eq_ok.mp h
    obtain ⟨applied, -, h⟩ := bind_eq_ok.mp h
    rw [pure_eq_ok] at h
    refine ⟨applied.1, h.symm, ?_⟩
    have hid : sourceFileIdOf row = f := Table.key_of_lookup hrow
    rw [← hid]
    exact assertIngestionAllowed_eq_ok hallowed

theorem resumeRebuild_eq_ok (h : resumeRebuild id db = .ok db') :
    db.active = some id ∧ ∃ run, db.run id = some run ∧ run.status ≠ .completed ∧
      db' = db.setRun id fun r =>
        { r with status := .running, errorCode := none, errorMessage := none } := by
  obtain ⟨hactive, h⟩ := require_bind_eq_ok.mp h
  obtain ⟨run, hrun, h⟩ := bind_eq_ok.mp h
  obtain ⟨hstatus, h⟩ := require_bind_eq_ok.mp h
  rw [pure_eq_ok] at h
  exact ⟨hactive, run, lockRebuildRun_eq_ok hrun, hstatus, h.symm⟩

theorem beginRebuild_eq_ok {requestedBy parserVersion : String} {now : Time}
    (h : beginRebuild requestedBy parserVersion now db = .ok (db', id)) :
    db.active = none ∧ id = db.nextId ∧ db'.active = some id ∧ db'.nextId = id + 1 ∧
      db'.files = db.files ++ rebuildSequence db id now ∧ db'.replays = db.replays ∧
      ∃ run : RebuildRun, db'.runs = db.runs ++ [run] ∧ run.id = id ∧ run.status = .running ∧
        run.sourceFilesTotal = (rebuildSequence db id now).length ∧
        run.sourceFilesCompleted = 0 ∧ run.lastSequence = none := by
  obtain ⟨hactive, h⟩ := require_bind_eq_ok.mp h
  cases pure_eq_ok.mp h
  exact ⟨hactive, rfl, rfl, rfl, rfl, rfl, _, rfl, rfl, rfl, rfl, rfl, rfl⟩

theorem completeRebuildFile_eq_ok {sequence : Nat} {file : ArchivedSourceFile}
    (h : completeRebuildFile id sequence file db = .ok db') :
    ∃ run, db.run id = some run ∧ sequence = run.lastSequence.getD 0 + 1 ∧
      (∃ f ∈ db.files, f.isAt id sequence file) ∧
      db' = { db.setRun id (fun r =>
          { r with
            sourceFilesCompleted := r.sourceFilesCompleted + 1
            lastSequence := some sequence
            lastSourceFileId := some file.sourceFileId
            lastArchivedAt := some file.archivedAt }) with
        files := db.files.map fun f =>
          if f.isAt id sequence file then { f with status := .completed } else f } := by
  obtain ⟨run, hrun, h⟩ := bind_eq_ok.mp h
  obtain ⟨-, h⟩ := require_bind_eq_ok.mp h
  obtain ⟨hsequence, h⟩ := require_bind_eq_ok.mp h
  obtain ⟨hfile, h⟩ := require_bind_eq_ok.mp h
  rw [pure_eq_ok] at h
  exact ⟨run, lockRebuildRun_eq_ok hrun, hsequence, hfile, h.symm⟩

theorem failRebuild_eq_ok {errorCode : ErrorKind} {errorMessage : String}
    (h : failRebuild id errorCode errorMessage db = .ok db') :
    (∃ run, db.run id = some run ∧ run.status ≠ .completed) ∧
      db' = db.setRun id fun r =>
        { r with
          status := .failed, errorCode := some errorCode, errorMessage := some errorMessage } := by
  obtain ⟨hrun, h⟩ := require_bind_eq_ok.mp h
  rw [pure_eq_ok] at h
  obtain ⟨run, hrun, hstatus⟩ := (Option.any_eq_true _ _).mp hrun
  exact ⟨⟨run, hrun, of_decide_eq_true hstatus⟩, h.symm⟩

theorem finishRebuild_eq_ok {reconcile : Reconcile} (h : finishRebuild reconcile id db = .ok db') :
    db.active = some id ∧ ∃ run tables, db.run id = some run ∧
      run.sourceFilesCompleted = run.sourceFilesTotal ∧
      db' = { db.setRun id (fun r =>
          { r with status := .completed, errorCode := none, errorMessage := none }) with
        tables := tables
        active := none } := by
  obtain ⟨hactive, h⟩ := require_bind_eq_ok.mp h
  obtain ⟨run, hrun, h⟩ := bind_eq_ok.mp h
  obtain ⟨hpending, h⟩ := require_bind_eq_ok.mp h
  obtain ⟨tables, -, h⟩ := bind_eq_ok.mp h
  rw [pure_eq_ok] at h
  exact ⟨hactive, run, tables, lockRebuildRun_eq_ok hrun, hpending.2, h.symm⟩

/-- A begun replay is the only open one of its file. -/
theorem beginReplay_eq_ok {f : FileId} {rebuildRunId : Option RunId} {replay : ReplayId}
    (h : beginReplay f rebuildRunId db = .ok (db', replay)) :
    db' = { db with
      replays := (db.replays.map fun r =>
        if r.sourceFileId = f then { r with finished := true } else r) ++
          [⟨db.nextId, f, rebuildRunId, false⟩]
      nextId := db.nextId + 1 } := by
  obtain ⟨-, -, h⟩ := bind_eq_ok.mp h
  split at h
  · cases h
  · obtain ⟨-, h⟩ := require_bind_eq_ok.mp h
    cases pure_eq_ok.mp h
    rfl

theorem finishReplay_eq_ok {replay : ReplayId} (h : finishReplay replay db = .ok db') :
    db' = { db with
      replays := Table.updateAt ReplayRun.id replay (fun r => { r with finished := true })
        db.replays } := by
  obtain ⟨-, h⟩ := require_bind_eq_ok.mp h
  rw [pure_eq_ok] at h
  exact h.symm

end Inversion

end Makolet.Maintenance
