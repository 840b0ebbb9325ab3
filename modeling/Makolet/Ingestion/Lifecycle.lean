import Makolet.Lib.Process
import Makolet.Lib.System
import Makolet.Ingestion.Repository

/-!
# The ingest of one file

`IngestionService.ingest` and `archive_only` as a program that awaits one durable operation at a
time: registration, the file lease, download and archive, parsing, validation, the apply
transaction and the status transitions between them, with the exception handlers of the source.

`lifecycleSystem` runs any number of such programs, each the lock owner of its file while it is
between `refresh` and `release`. A program may die at any point, which frees its lock, and the
recovery of stale jobs may move an unowned active file to `failed_retryable`.
-/

set_option autoImplicit false

namespace Makolet.Ingestion

open Makolet.Domain Makolet.Lib Makolet.Normalized

abbrev ProcessId := Nat

/-- What the environment may raise at an awaited operation. Such an exception carries no
transferred bytes; those of a failed download are part of its own answer. -/
structure Fault where
  kind : ErrorKind
  message : String
  deriving DecidableEq, Repr

def Fault.failure (f : Fault) : Failure := ⟨f.kind, f.message, 0⟩

/-- The durable state an ingest reads and writes, with the per-file session locks. -/
structure Store where
  files : Files
  tables : Tables
  locks : FileId → Option ProcessId

structure IngestionResult where
  status : IngestionStatus
  transferredBytes : Nat
  deriving DecidableEq, Repr

inductive Outcome
  | result (r : IngestionResult)
  | raised (e : Failure)
  deriving DecidableEq, Repr

/-- The operation an ingest awaits. -/
inductive Pc
  | register
  | acquire
  | refresh
  | verify (seen : IngestionStatus)
  | startDownload
  | download (attempt transferred : Nat)
  | recordArchive (attempt transferred attemptBytes : Nat) (archive : ArchiveObject)
      (finishedAt : Time)
  | startParsing
  | parse
  | finishParsing
  | startValidating
  | validate
  | startApplying
  | apply
  | complete
  | markArchived
  | failed (e : Failure)
  | recordFailure (e : Failure) (seen : IngestionStatus)
  | release (outcome : Outcome)
  | returned (outcome : Outcome)
  deriving DecidableEq, Repr

/-- The local state of `_ingest` and `_archive_only`. -/
structure Ingest where
  owner : ProcessId
  remote : RemoteFile
  archiveOnly : Bool
  maximumChargedBytes : Option Nat
  transferredBytes : Nat
  pc : Pc
  deriving DecidableEq, Repr

def Ingest.file (c : Ingest) : FileId := c.remote.fileId

/-- What an apply reads besides the source row. -/
structure ApplyInput where
  staging : Staging
  rebuildActive : Bool
  wallClock : Time
  policy : SnapshotPolicy
  limits : IssueLimits
  usage : IssueUsage

/-- The regular answer to an awaited operation. -/
inductive IngestInput
  | done
  | downloaded (archive : ArchiveObject) (sessionBytes : Nat) (finishedAt : Time)
  | downloadFailed (kind : ErrorKind) (message : String) (bytes : Nat) (budgetLimited : Bool)
  | validated (quarantine : Option String)
  | applied (input : ApplyInput)

structure IngestionPolicy where
  downloadAttempts : Nat
  deriving DecidableEq, Repr

/-! ## Failures -/

/-- `_is_retryable`. -/
def isRetryable (e : Failure) : Bool :=
  e.kind.retryable && decide (e.kind ∉ [.chargeBudgetExceeded, .archiveCapacity])

/-- The exception that leaves the `try` block of `_ingest`, once bytes were transferred. -/
def propagated (transferred : Nat) (e : Failure) : Failure :=
  if transferred = 0 then e
  else if e.kind.isMakolet then { e with transferredBytes := max e.transferredBytes transferred }
  else ⟨.repository, "Archived source processing failed", transferred⟩

/-- The exception that leaves a download attempt; `transferred` counts all attempts so far. -/
def downloadPropagated (transferred : Nat) (e : Failure) : Failure :=
  if e.kind.isMakolet then { e with transferredBytes := transferred }
  else if transferred = 0 then e
  else ⟨.repository, "Archive evidence could not be recorded", transferred⟩

/-- The target status of `_record_failure`. -/
def failureTarget (seen : IngestionStatus) (e : Failure) : IngestionStatus :=
  if e.kind ∈ [.malformedDocument, .unsafeArchive, .quarantinedFile] ∧
      seen ∈ [.archived, .parsing, .staged, .validating, .applying] then .quarantined
  else if e.kind.isMakolet = true ∧ e.kind.retryable = true then .failedRetryable
  else .failedTerminal

/-- Leave the `try` block by an exception; a cancellation passes its handler. -/
def Ingest.raise (c : Ingest) (e : Failure) : Ingest :=
  if e.kind.isException then { c with pc := .failed (propagated c.transferredBytes e) }
  else { c with pc := .release (.raised e) }

/-- Leave a download attempt by an exception: the next attempt, or the end of the loop. -/
def Ingest.raiseDownload (policy : IngestionPolicy) (c : Ingest) (attempt transferred : Nat)
    (attemptBytes : Nat) (e : Failure) : Ingest :=
  if e.kind.isException then
    let total := transferred + max attemptBytes e.transferredBytes
    let error := downloadPropagated total e
    if isRetryable error = true ∧ attempt < policy.downloadAttempts then
      { c with pc := .download (attempt + 1) total }
    else c.raise error
  else c.raise e

/-! ## The program -/

/-- The guarded transition that an ingest awaits, with its expected statuses and target. -/
def Pc.guard : Pc → Option (List IngestionStatus × IngestionStatus)
  | .startDownload => some ([.discovered, .failedRetryable], .downloading)
  | .startParsing => some ([.archived, .failedRetryable], .parsing)
  | .finishParsing => some ([.parsing], .staged)
  | .startValidating => some ([.staged], .validating)
  | .startApplying => some ([.validating], .applying)
  | .complete => some ([.applying], .completed)
  | .markArchived => some ([.failedRetryable], .archived)
  | .recordFailure e seen => some ([seen], failureTarget seen e)
  | _ => none

def completedResult (transferred : Nat) : Outcome := .result ⟨.completed, transferred⟩

def archivedResult (transferred : Nat) : Outcome := .result ⟨.archived, transferred⟩

/-- What an ingest awaits after a guarded transition. -/
def Pc.next (transferred : Nat) : Pc → Pc
  | .startDownload => .download 1 0
  | .startParsing => .parse
  | .finishParsing => .startValidating
  | .startValidating => .validate
  | .startApplying => .apply
  | .complete => .release (completedResult transferred)
  | .markArchived => .release (archivedResult 0)
  | .recordFailure e _ => .release (.raised e)
  | pc => pc

/-- Where `_ensure_archived` leads with the row that the lock owner read. -/
def Ingest.ensureArchived (c : Ingest) (row : SourceFile) : Pc :=
  if c.archiveOnly = false ∧ row.status = .completed then .release (completedResult 0)
  else if row.archive.isSome then .verify row.status
  else .startDownload

/-- The request of the apply transaction of an ingest, which is never a replay. -/
def applyRequest (c : Ingest) (row : SourceFile) (input : ApplyInput) : ApplyRequest where
  sourceFileId := c.file
  documentType := row.remote.documentType
  source := ⟨row.remote.retailerId, row.remote.portalId, row.remote.documentType, row.status,
    row.remote.sourceTimestamp, row.downloadFinishedAt, row.remote.discoveredAt,
    row.archive.map ArchiveObject.contentSha256⟩
  staging := input.staging
  replayActive := false
  rebuildActive := input.rebuildActive
  wallClock := input.wallClock
  policy := input.policy
  limits := input.limits
  usage := input.usage

/-- The bytes that the downloader may still transfer. -/
def Ingest.exhausted (c : Ingest) (transferred : Nat) : Bool :=
  c.maximumChargedBytes.any fun limit => decide (limit ≤ transferred)

/-- The awaited operations. -/
def Ingest.act (s : Store) (c : Ingest) (input : IngestInput) :
    Option (Except Failure (Store × Ingest)) :=
  match c.pc, input with
  | .register, .done =>
    some ((registerDiscovery c.remote false s.files).map fun files =>
      ({ s with files := files },
        { c with pc := if statusOf files c.file = some .completed then
            .returned (completedResult 0) else .acquire }))
  | .acquire, .done =>
    match s.locks c.file with
    | some _ => some (.error ⟨.leaseUnavailable, "Source file is already being processed", 0⟩)
    | none => some (.ok ({ s with locks := Function.update s.locks c.file (some c.owner) },
        { c with pc := .refresh }))
  | .refresh, .done =>
    some (registerDiscovery c.remote true s.files >>= fun files =>
      match files c.file with
      | none => .error notFound
      | some row => .ok ({ s with files := files }, { c with pc := c.ensureArchived row }))
  | .verify seen, .done =>
    some (.ok (s, { c with pc :=
      if c.archiveOnly = false then .startParsing
      else if seen = .archived then .release (archivedResult 0)
      else .markArchived }))
  | .download attempt transferred, answer =>
    -- A retry whose limit is used up raises before it opens the downloader.
    if c.exhausted transferred then
      some (.error ⟨.chargeBudgetExceeded,
        "Source retries exhausted the remaining collection byte budget", 0⟩)
    else
      match answer with
      | .downloaded archive sessionBytes finishedAt =>
        let attemptBytes := max archive.contentLength sessionBytes
        some (.ok (s, { c with
          pc := .recordArchive attempt transferred attemptBytes archive finishedAt }))
      | .downloadFailed kind message bytes budgetLimited =>
        some (.error ⟨if kind = .downloadLimit ∧ budgetLimited = true then .chargeBudgetExceeded
          else kind, message, bytes⟩)
      | _ => none
  | .recordArchive _ transferred attemptBytes archive finishedAt, .done =>
    some ((recordArchive c.file archive finishedAt s.files).map fun files =>
      ({ s with files := files },
        { c with
          transferredBytes := transferred + attemptBytes
          pc := if c.archiveOnly then .release (archivedResult (transferred + attemptBytes))
            else .startParsing }))
  | .parse, .done => some (.ok (s, { c with pc := .finishParsing }))
  | .validate, .validated none => some (.ok (s, { c with pc := .startApplying }))
  | .validate, .validated (some message) => some (.error ⟨.quarantinedFile, message, 0⟩)
  | .apply, .applied input =>
    match s.files c.file with
    | none => some (.error notFound)
    | some row =>
      some ((Normalized.apply (applyRequest c row input) s.tables).map fun applied =>
        ({ s with tables := applied.1 }, { c with pc := .complete }))
  | .failed e, .done =>
    match s.files c.file with
    | none => some (.error notFound)
    | some row => some (.ok (s, { c with pc :=
        if row.status.isFinal then .release (.raised e) else .recordFailure e row.status }))
  | .release outcome, .done => some (.ok (s, { c with pc := .returned outcome }))
  | pc, .done =>
    pc.guard.map fun (expected, target) =>
      (transition c.file expected target s.files).map fun files =>
        ({ s with files := files }, { c with pc := pc.next c.transferredBytes })
  | _, _ => none

/-- Where an exception at the awaited operation leads. -/
def Ingest.handle (policy : IngestionPolicy) (c : Ingest) (e : Failure) : Option Ingest :=
  match c.pc with
  | .register | .acquire | .release _ => some { c with pc := .returned (.raised e) }
  | .refresh | .failed _ | .recordFailure _ _ => some { c with pc := .release (.raised e) }
  | .download attempt transferred => some (c.raiseDownload policy attempt transferred 0 e)
  | .recordArchive attempt transferred attemptBytes _ _ =>
    some (c.raiseDownload policy attempt transferred attemptBytes e)
  | .returned _ => none
  | _ => some (c.raise e)

def ingestProgram (policy : IngestionPolicy) : Program Store Ingest IngestInput Fault Failure where
  act := Ingest.act
  raised := Fault.failure
  handle := Ingest.handle policy

def Ingest.start (p : ProcessId) (remote : RemoteFile) (archiveOnly : Bool)
    (maximumChargedBytes : Option Nat) : Ingest :=
  ⟨p, remote, archiveOnly, maximumChargedBytes, 0, .register⟩

/-- The ingest holds the lock of its file. -/
def Pc.locked : Pc → Bool
  | .register | .acquire | .returned _ => false
  | _ => true

theorem transition_ok {f : FileId} {expected : List IngestionStatus} {target : IngestionStatus}
    {files : Files} {row : SourceFile} (hrow : files f = some row) (hexpected : row.status ∈ expected)
    (hallowed : target ∈ row.status.allowed) :
    transition f expected target files =
      .ok (Function.update files f (some { row with status := target })) := by
  simp [transition, hrow, hexpected, ensureIngestionTransition, hallowed]

/-- An awaited transition whose row is as expected cannot be refused. -/
theorem Ingest.act_guarded {s : Store} {c : Ingest} {row : SourceFile}
    {expected : List IngestionStatus} {target : IngestionStatus}
    (hguard : c.pc.guard = some (expected, target)) (hrow : s.files c.file = some row)
    (hexpected : row.status ∈ expected) (hallowed : target ∈ row.status.allowed)
    (input : IngestInput) (e : Failure) : c.act s input ≠ some (.error e) := by
  have hok := transition_ok hrow hexpected hallowed
  unfold Ingest.act
  cases hpc : c.pc with
  | startDownload | startParsing | finishParsing | startValidating | startApplying | complete
  | markArchived | recordFailure _ _ =>
    rw [hpc] at hguard
    cases input with
    | done => simp [hguard, hok, Except.map]
    | _ => simp
  | _ =>
    rw [hpc] at hguard
    cases hguard

/-! ## What an operation did -/

/-- The committed operations of an ingest, by the operation it awaited. -/
inductive Ingest.Acts (s : Store) (c : Ingest) : Pc → Store → Ingest → Prop
  | register {files : Files} (h : registerDiscovery c.remote false s.files = .ok files) :
      Acts s c .register { s with files := files }
        { c with pc := if statusOf files c.file = some .completed then
            .returned (completedResult 0) else .acquire }
  | acquire (h : s.locks c.file = none) :
      Acts s c .acquire { s with locks := Function.update s.locks c.file (some c.owner) }
        { c with pc := .refresh }
  | refresh {files : Files} {row : SourceFile}
      (h : registerDiscovery c.remote true s.files = .ok files) (hrow : files c.file = some row) :
      Acts s c .refresh { s with files := files } { c with pc := c.ensureArchived row }
  | verify {seen : IngestionStatus} :
      Acts s c (.verify seen) s { c with
        pc := if c.archiveOnly = false then .startParsing
          else if seen = .archived then .release (archivedResult 0) else .markArchived }
  | download {attempt transferred sessionBytes : Nat} {archive : ArchiveObject} {time : Time}
      (hlimit : c.exhausted transferred = false) :
      Acts s c (.download attempt transferred) s { c with
        pc := .recordArchive attempt transferred (max archive.contentLength sessionBytes) archive
          time }
  | recordArchive {attempt transferred attemptBytes : Nat} {archive : ArchiveObject} {time : Time}
      {files : Files} (h : Ingestion.recordArchive c.file archive time s.files = .ok files) :
      Acts s c (.recordArchive attempt transferred attemptBytes archive time)
        { s with files := files }
        { c with
          transferredBytes := transferred + attemptBytes
          pc := if c.archiveOnly then .release (archivedResult (transferred + attemptBytes))
            else .startParsing }
  | parse : Acts s c .parse s { c with pc := .finishParsing }
  | validate : Acts s c .validate s { c with pc := .startApplying }
  | apply {row : SourceFile} {input : ApplyInput} {tables : Tables} {summary : ApplySummary}
      (hrow : s.files c.file = some row)
      (h : Normalized.apply (applyRequest c row input) s.tables = .ok (tables, summary)) :
      Acts s c .apply { s with tables := tables } { c with pc := .complete }
  | failed {e : Failure} {row : SourceFile} (hrow : s.files c.file = some row) :
      Acts s c (.failed e) s { c with
        pc := if row.status.isFinal then .release (.raised e) else .recordFailure e row.status }
  | release {outcome : Outcome} :
      Acts s c (.release outcome) s { c with pc := .returned outcome }
  | move {pc : Pc} {expected : List IngestionStatus} {target : IngestionStatus} {files : Files}
      (hguard : pc.guard = some (expected, target))
      (h : transition c.file expected target s.files = .ok files) :
      Acts s c pc { s with files := files } { c with pc := pc.next c.transferredBytes }

theorem Ingest.acts_of_act {s s' : Store} {c c' : Ingest} {input : IngestInput}
    (h : c.act s input = some (.ok (s', c'))) : c.Acts s c.pc s' c' := by
  unfold Ingest.act at h
  split at h
  · rename_i hpc
    obtain ⟨files, hreg, heq⟩ := map_eq_ok.mp (Option.some.inj h)
    cases heq
    exact hpc ▸ .register hreg
  · rename_i hpc
    split at h
    · cases h
    · rename_i hfree
      cases h
      exact hpc ▸ .acquire hfree
  · rename_i hpc
    obtain ⟨files, hreg, hbind⟩ := bind_eq_ok.mp (Option.some.inj h)
    split at hbind
    · cases hbind
    · rename_i row hrow
      cases hbind
      exact hpc ▸ .refresh hreg hrow
  · rename_i seen hpc
    cases h
    exact hpc ▸ .verify
  · rename_i attempt transferred answer hpc
    split at h
    · cases h
    · rename_i hlimit
      split at h
      · cases h
        exact hpc ▸ .download (Bool.eq_false_iff.mpr hlimit)
      · cases h
      · cases h
  · rename_i hpc
    obtain ⟨files, hrec, heq⟩ := map_eq_ok.mp (Option.some.inj h)
    cases heq
    exact hpc ▸ .recordArchive hrec
  · rename_i hpc
    cases h
    exact hpc ▸ .parse
  · rename_i hpc
    cases h
    exact hpc ▸ .validate
  · cases h
  · rename_i hpc
    split at h
    · cases h
    · rename_i row hrow
      obtain ⟨applied, happ, heq⟩ := map_eq_ok.mp (Option.some.inj h)
      cases heq
      exact hpc ▸ .apply hrow happ
  · rename_i hpc
    split at h
    · cases h
    · rename_i row hrow
      cases h
      exact hpc ▸ .failed hrow
  · rename_i hpc
    cases h
    exact hpc ▸ .release
  · obtain ⟨⟨expected, target⟩, hguard, hmap⟩ := Option.map_eq_some_iff.mp h
    obtain ⟨files, hmove, heq⟩ := map_eq_ok.mp hmap
    cases heq
    exact .move hguard hmove
  · cases h

/-- Two local states of one call. -/
structure Ingest.SameCall (c c' : Ingest) : Prop where
  owner : c'.owner = c.owner
  remote : c'.remote = c.remote
  archiveOnly : c'.archiveOnly = c.archiveOnly
  limit : c'.maximumChargedBytes = c.maximumChargedBytes

section Acts

variable {s s' : Store} {c c' : Ingest} {pc : Pc}

theorem Ingest.Acts.same (h : c.Acts s pc s' c') : c.SameCall c' := by
  cases h <;> exact ⟨rfl, rfl, rfl, rfl⟩

theorem Ingest.raise_same (c : Ingest) (e : Failure) : c.SameCall (c.raise e) := by
  unfold Ingest.raise
  split <;> exact ⟨rfl, rfl, rfl, rfl⟩

theorem Ingest.raiseDownload_same (policy : IngestionPolicy) (c : Ingest)
    (attempt transferred attemptBytes : Nat) (e : Failure) :
    c.SameCall (c.raiseDownload policy attempt transferred attemptBytes e) := by
  unfold Ingest.raiseDownload
  split
  · dsimp only
    split
    · exact ⟨rfl, rfl, rfl, rfl⟩
    · exact c.raise_same _
  · exact c.raise_same _

theorem Ingest.handle_same {policy : IngestionPolicy} {e : Failure}
    (h : c.handle policy e = some c') : c.SameCall c' := by
  unfold Ingest.handle at h
  split at h
  all_goals first
    | cases h
      first
        | exact ⟨rfl, rfl, rfl, rfl⟩
        | exact c.raiseDownload_same _ _ _ _ _
        | exact c.raise_same _
    | cases h

theorem Ingest.step_same {policy : IngestionPolicy} {r : Reply IngestInput Fault}
    (h : (ingestProgram policy).step s c r = some (s', c')) : c.SameCall c' := by
  refine Program.step_local (J := fun _ c' => c.SameCall c') h ?_ ?_ ?_
  · exact fun i next hact => (Ingest.acts_of_act hact).same
  · exact fun e he _ => Ingest.handle_same he
  · exact fun i f next _ he => Ingest.handle_same he

/-- An operation changes the row of its own file only. -/
theorem Ingest.Acts.change (h : c.Acts s pc s' c') : FileChange c.file s.files s'.files := by
  cases h with
  | register hreg => exact registerDiscovery_change hreg
  | refresh hreg hrow => exact registerDiscovery_change hreg
  | recordArchive hrec => exact recordArchive_change hrec
  | move hguard hmove => exact transition_change hmove
  | _ => exact .refl _ _

/-- A guarded transition needs the lock. -/
theorem Pc.locked_of_guard {expected : List IngestionStatus} {target : IngestionStatus}
    (h : pc.guard = some (expected, target)) : pc.locked = true := by
  revert h
  cases pc <;> simp [Pc.guard, Pc.locked]

/-- Without the lock an operation leaves an existing row alone. -/
theorem Ingest.Acts.kept (h : c.Acts s pc s' c') (hlock : pc.locked = false) {row : SourceFile}
    (hrow : s.files c.file = some row) : s'.files c.file = some row := by
  cases h with
  | register hreg => exact registerDiscovery_kept hreg hrow
  | refresh => cases hlock
  | recordArchive => cases hlock
  | move hguard =>
    rw [Pc.locked_of_guard hguard] at hlock
    cases hlock
  | _ => exact hrow

theorem Ingest.Acts.locks (h : c.Acts s pc s' c') :
    s'.locks = s.locks ∨ (pc = .acquire ∧ s.locks c.file = none ∧
      s'.locks = Function.update s.locks c.file (some c.owner)) := by
  cases h with
  | acquire hfree => exact .inr ⟨rfl, hfree, rfl⟩
  | _ => exact .inl rfl

/-- The lock is taken by the acquisition only. -/
theorem Ingest.Acts.locked (h : c.Acts s pc s' c') (hnew : c'.pc.locked = true) :
    pc.locked = true ∨ pc = .acquire := by
  cases h with
  | register hreg =>
    dsimp only at hnew
    split at hnew <;> cases hnew
  | acquire hfree => exact .inr rfl
  | release => cases hnew
  | move hguard => exact .inl (Pc.locked_of_guard hguard)
  | _ => exact .inl rfl

theorem Ingest.handle_locked {policy : IngestionPolicy} {e : Failure}
    (h : c.handle policy e = some c') (hnew : c'.pc.locked = true) : c.pc.locked = true := by
  unfold Ingest.handle at h
  split at h
  · cases h; cases hnew
  · cases h; cases hnew
  · cases h; cases hnew
  · rename_i hpc; rw [hpc]; rfl
  · rename_i hpc; rw [hpc]; rfl
  · rename_i hpc; rw [hpc]; rfl
  · rename_i hpc; rw [hpc]; rfl
  · rename_i hpc; rw [hpc]; rfl
  · cases h
  · revert hnew
    cases hpc : c.pc <;> simp_all [Pc.locked]

end Acts

end Makolet.Ingestion
