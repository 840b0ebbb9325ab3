import Makolet.Normalized.Apply

/-!
# Source files and their durable lifecycle

The part of `PostgresIngestionRepository` that owns `source_files`: registration, the guarded status
transition, the archive attachment and the recovery of stale jobs. Each operation is one
transaction; a raised failure leaves the table as it was.

`FileChange` says everything these operations can do to a row. Terminal statuses and an attached
archive survive every change.
-/

set_option autoImplicit false

namespace Makolet.Ingestion

open Makolet.Domain Makolet.Lib Makolet.Normalized

/-! ## Rows -/

/-- A published file. `fileId` stands for its identity, the portal and the remote id. -/
structure RemoteFile where
  fileId : FileId
  retailerId : RetailerId
  portalId : PortalId
  protocol : SourceProtocol
  documentType : DocumentType
  compression : CompressionFormat
  discoveredAt : Time
  sourceTimestamp : Option Time
  deriving DecidableEq, Repr

/-- `raw_archive_objects`. -/
structure ArchiveObject where
  contentSha256 : String
  contentLength : Nat
  deriving DecidableEq, Repr

/-- `source_files`, with the archive object the row refers to. -/
structure SourceFile where
  remote : RemoteFile
  status : IngestionStatus
  archive : Option ArchiveObject
  downloadFinishedAt : Option Time
  deriving DecidableEq, Repr

abbrev Files := FileId → Option SourceFile

/-- The status of a registered file. -/
def statusOf (files : Files) (f : FileId) : Option IngestionStatus :=
  (files f).map SourceFile.status

/-- The archive of a registered file. -/
def archiveOf (files : Files) (f : FileId) : Option ArchiveObject :=
  (files f).bind SourceFile.archive

/-! ## Registration -/

/-- `_rediscovery_updates`, the conflicts: the first field in which a rediscovered file disagrees
with its row. A timestamp disagrees only where both sides declare one. -/
def rediscoveryConflict (existing candidate : RemoteFile) : Option String :=
  if existing.documentType ≠ candidate.documentType then some "document_type"
  else if existing.compression ≠ candidate.compression then some "compression"
  else if existing.protocol ≠ candidate.protocol then some "protocol"
  else if existing.sourceTimestamp ≠ none ∧ candidate.sourceTimestamp ≠ none ∧
      existing.sourceTimestamp ≠ candidate.sourceTimestamp then some "source_timestamp"
  else none

/-- `_rediscovery_updates`, the updates: the lock owner fills in a missing timestamp of a file that
has no archive yet. -/
def rediscovered (row : SourceFile) (candidate : RemoteFile) (ownedRefresh : Bool) : SourceFile :=
  if ownedRefresh = true ∧ row.archive = none ∧ row.remote.sourceTimestamp = none then
    { row with remote := { row.remote with sourceTimestamp := candidate.sourceTimestamp } }
  else row

/-- `register_discovery`. -/
def registerDiscovery (remote : RemoteFile) (ownedRefresh : Bool) (files : Files) :
    Except Failure Files :=
  match files remote.fileId with
  | none => .ok (Function.update files remote.fileId (some ⟨remote, .discovered, none, none⟩))
  | some row =>
    if row.status = .completed then .ok files
    else
      match rediscoveryConflict row.remote remote with
      | some field => .error ⟨.persistenceConflict,
          "Rediscovered source conflicts with its original " ++ field, 0⟩
      | none =>
        .ok (Function.update files remote.fileId (some (rediscovered row remote ownedRefresh)))

/-! ## Transitions -/

def notFound : Failure := ⟨.persistenceNotFound, "Source file does not exist", 0⟩

/-- The conflict of an unexpected status. -/
def statusConflict (current : IngestionStatus) (expected : List IngestionStatus) : Failure :=
  ⟨.persistenceConflict, "Source file is " ++ current.value ++ "; expected " ++
    String.intercalate ", " (expected.map IngestionStatus.value), 0⟩

/-- `transition`. -/
def transition (f : FileId) (expected : List IngestionStatus) (target : IngestionStatus)
    (files : Files) : Except Failure Files :=
  match files f with
  | none => .error notFound
  | some row =>
    if row.status ∉ expected then .error (statusConflict row.status expected)
    else
      match ensureIngestionTransition row.status target with
      | .error e => .error e
      | .ok _ => .ok (Function.update files f (some { row with status := target }))

/-- `record_archive`. -/
def recordArchive (f : FileId) (archive : ArchiveObject) (finishedAt : Time) (files : Files) :
    Except Failure Files :=
  match files f with
  | none => .error notFound
  | some row =>
    if row.status ≠ .downloading then .error (statusConflict row.status [.downloading])
    else .ok (Function.update files f (some { row with
      status := .archived
      archive := some archive
      downloadFinishedAt := some finishedAt }))

/-- `_ACTIVE_STATUSES` of the stale-job recovery. -/
def activeStatuses : List IngestionStatus :=
  [.downloading, .archived, .parsing, .staged, .validating, .applying]

/-! ## What can happen to a row -/

/-- One change of a row: it appears, its missing metadata is filled in, its status moves along the
transition table, or its archive is attached. -/
inductive RowChange : Option SourceFile → Option SourceFile → Prop
  | keep (row : Option SourceFile) : RowChange row row
  | create (remote : RemoteFile) : RowChange none (some ⟨remote, .discovered, none, none⟩)
  | refresh (row : SourceFile) (remote : RemoteFile) :
      RowChange (some row) (some { row with remote := remote })
  | move (row : SourceFile) (target : IngestionStatus) (h : target ∈ row.status.allowed) :
      RowChange (some row) (some { row with status := target })
  | attach (row : SourceFile) (archive : ArchiveObject) (time : Time)
      (h : row.status = .downloading) :
      RowChange (some row)
        (some { row with
          status := .archived, archive := some archive, downloadFinishedAt := some time })

/-- One change of the table, at one file. -/
def FileChange (f : FileId) (files files' : Files) : Prop :=
  RowChange (files f) (files' f) ∧ ∀ g, g ≠ f → files' g = files g

section Change

variable {f : FileId} {files files' : Files}

theorem FileChange.refl (f : FileId) (files : Files) : FileChange f files files :=
  ⟨.keep _, fun _ _ => rfl⟩

theorem fileChange_update {row : Option SourceFile} (h : RowChange (files f) row) :
    FileChange f files (Function.update files f row) := by
  refine ⟨?_, fun g hg => Function.update_of_ne hg row files⟩
  rw [Function.update_self]
  exact h

/-- A change at one file, seen from any file. -/
theorem FileChange.row (h : FileChange f files files') (g : FileId) :
    RowChange (files g) (files' g) := by
  by_cases hg : g = f
  · subst hg
    exact h.1
  · rw [h.2 g hg]
    exact .keep _

theorem registerDiscovery_change {remote : RemoteFile} {owned : Bool}
    (h : registerDiscovery remote owned files = .ok files') :
    FileChange remote.fileId files files' := by
  unfold registerDiscovery at h
  split at h
  · rename_i hnone
    cases h
    refine fileChange_update ?_
    rw [hnone]
    exact .create remote
  · rename_i row hrow
    split at h
    · cases h
      exact .refl _ _
    · split at h
      · cases h
      · cases h
        refine fileChange_update ?_
        rw [hrow, rediscovered]
        split
        · exact .refresh row _
        · exact .keep _

/-- Without ownership a registration leaves every existing row alone. -/
theorem registerDiscovery_kept {remote : RemoteFile} {row : SourceFile}
    (h : registerDiscovery remote false files = .ok files') (hrow : files f = some row) :
    files' f = some row := by
  by_cases hf : f = remote.fileId
  · subst hf
    unfold registerDiscovery at h
    simp only [hrow] at h
    split at h
    · cases h
      exact hrow
    · split at h
      · cases h
      · cases h
        -- Nothing is refreshed.
        rw [Function.update_self, rediscovered, if_neg (by simp)]
  · rw [(registerDiscovery_change h).2 f hf]
    exact hrow

/-- A registration moves no status. -/
theorem registerDiscovery_statusOf {remote : RemoteFile} {owned : Bool}
    (h : registerDiscovery remote owned files = .ok files') {status : IngestionStatus}
    (hs : statusOf files f = some status) : statusOf files' f = some status := by
  by_cases hf : f = remote.fileId
  · subst hf
    obtain ⟨row, hrow, hstatus⟩ := Option.map_eq_some_iff.mp hs
    unfold registerDiscovery at h
    simp only [hrow] at h
    split at h
    · cases h
      exact hs
    · split at h
      · cases h
      · cases h
        rw [statusOf, Function.update_self, Option.map_some, rediscovered]
        split <;> exact congrArg some hstatus
  · rw [statusOf, (registerDiscovery_change h).2 f hf]
    exact hs

/-- An accepted transition: the row was there, in an expected status, and only its status moved. -/
theorem transition_eq_ok {expected : List IngestionStatus} {target : IngestionStatus}
    (h : transition f expected target files = .ok files') :
    ∃ row, files f = some row ∧ row.status ∈ expected ∧ target ∈ row.status.allowed ∧
      files' = Function.update files f (some { row with status := target }) := by
  unfold transition at h
  split at h
  · cases h
  · rename_i row hrow
    split at h
    · cases h
    · rename_i hexpected
      split at h
      · cases h
      · rename_i hallowed
        cases h
        rw [Classical.not_not] at hexpected
        exact ⟨row, hrow, hexpected, (ensureIngestionTransition_ok_iff _ _).mp hallowed, rfl⟩

theorem transition_change {expected : List IngestionStatus} {target : IngestionStatus}
    (h : transition f expected target files = .ok files') : FileChange f files files' := by
  obtain ⟨row, hrow, -, hallowed, rfl⟩ := transition_eq_ok h
  refine fileChange_update ?_
  rw [hrow]
  exact .move row target hallowed

theorem recordArchive_eq_ok {archive : ArchiveObject} {time : Time}
    (h : recordArchive f archive time files = .ok files') :
    ∃ row, files f = some row ∧ row.status = .downloading ∧
      files' = Function.update files f (some { row with
        status := .archived, archive := some archive, downloadFinishedAt := some time }) := by
  unfold recordArchive at h
  split at h
  · cases h
  · rename_i row hrow
    split at h
    · cases h
    · rename_i hstatus
      cases h
      exact ⟨row, hrow, Classical.not_not.mp hstatus, rfl⟩

theorem recordArchive_change {archive : ArchiveObject} {time : Time}
    (h : recordArchive f archive time files = .ok files') : FileChange f files files' := by
  obtain ⟨row, hrow, hstatus, rfl⟩ := recordArchive_eq_ok h
  refine fileChange_update ?_
  rw [hrow]
  exact .attach row archive time hstatus

end Change

/-! ## What no change undoes -/

theorem RowChange.final {row row' : Option SourceFile} (h : RowChange row row')
    {s : IngestionStatus} (hs : row.map SourceFile.status = some s) (hfinal : s.isFinal = true) :
    row'.map SourceFile.status = some s := by
  cases h with
  | keep => exact hs
  | create remote => cases hs
  | refresh row remote => exact hs
  | move row target hallowed =>
    cases hs
    rw [(IngestionStatus.allowed_eq_nil_iff _).mpr hfinal] at hallowed
    cases hallowed
  | attach row archive time hdownloading =>
    cases hs
    rw [hdownloading] at hfinal
    cases hfinal

theorem RowChange.archive {row row' : Option SourceFile} (h : RowChange row row')
    (ha : (row.bind SourceFile.archive).isSome = true) :
    (row'.bind SourceFile.archive).isSome = true := by
  cases h with
  | keep => exact ha
  | create remote => cases ha
  | refresh row remote => exact ha
  | move row target hallowed => exact ha
  | attach row archive time hdownloading => rfl

end Makolet.Ingestion
