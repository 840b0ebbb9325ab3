import Mathlib.Data.List.Sort
import Makolet.Lib.System
import Makolet.Maintenance.Rebuild
import Makolet.Parsing.Stage

/-!
# Parsing attempts and the reuse of a completed parse

The archived files with their staging rows, ingestion runs and replay runs, and what the service
does with them: an ingest or a replay of a file first asks `reuse_validated_staging` for the rows of
another completed file of the same content, and parses the archived bytes only when there is none.
Between two steps of one file anything may happen to the others; one process at a time works on a
file, since all of this runs under the file's ingestion lock.

`ParsingConfig.parse` is the parser. Its output depends on its version, the archived bytes, named by
their hash, and the document's type and compression.
-/

set_option autoImplicit false

namespace Makolet.Parsing

open Makolet.Domain Makolet.Lib Makolet.Normalized

/-! ## Rows -/

/-- The columns of an ingestion run or a replay run that staging reads and writes; `finished` is
`finished_at IS NOT NULL`. -/
structure Attempt where
  status : IngestionStatus
  finished : Bool
  counts : StageSummary
  evidence : List ValidationIssue
  deriving DecidableEq, Repr

/-- A new attempt of a status. -/
def Attempt.opened (status : IngestionStatus) : Attempt :=
  ⟨status, false, countRows .empty noIssues, []⟩

/-- A source file with an archive object, its staging rows and its attempts, the newest first.
`run` is its last ingestion run. `provenance` records, for the properties only, the parser version
whose events the rows of the attempt came from; a rebuild that truncates the rows of an unfinished
attempt ends it. -/
structure StagedFile where
  id : FileId
  source : SourceRow
  compression : CompressionFormat
  parserVersion : String
  staging : Staging
  run : Attempt
  earlierRuns : List Attempt
  replays : List Attempt
  provenance : Option String
  deriving DecidableEq

/-- The attempt with more issues beside its rows. -/
def Staged.withIssues (limits : IssueLimits) (issues : List ValidationIssue) (a : Staged) : Staged :=
  { a with
    counts := { a.counts with issues := addIssues limits issues a.counts.issues }
    evidence := a.evidence ++ sampled limits issues a.counts.issues }

namespace StagedFile

variable (f : StagedFile)

/-- An unfinished replay of the file. -/
def openReplay : Option Attempt :=
  f.replays.find? fun r => !r.finished

/-- `_current_attempt_ids`: an unfinished replay, else the last ingestion run. -/
def attempt : Attempt :=
  f.openReplay.getD f.run

/-- The rows, counters and evidence of the current attempt. -/
def staged : Staged :=
  ⟨f.staging, f.attempt.counts, f.attempt.evidence⟩

/-- Replace the rows, counters and evidence of the current attempt. -/
def withStaged (a : Staged) : StagedFile :=
  let written := fun r : Attempt => { r with counts := a.counts, evidence := a.evidence }
  match f.openReplay with
  | some _ =>
    { f with
      staging := a.rows
      replays := f.replays.map fun r => if r.finished then r else written r }
  | none => { f with staging := a.rows, run := written f.run }

/-- The last completed ingestion run. -/
def completedRun : Option Attempt :=
  (f.run :: f.earlierRuns).find? fun r => decide (r.status = .completed)

/-- `_staging_summary_for_attempt` of an ingestion run. -/
def summaryOf (r : Attempt) : StageSummary :=
  countRows f.staging r.counts.issues

end StagedFile

/-! ## Reuse -/

/-- The candidate filter of `reuse_validated_staging`. -/
def isCandidate (t : Tables) (version : String) (target f : StagedFile) : Bool :=
  decide (f.id ≠ target.id ∧ f.source.retailerId = target.source.retailerId ∧
    f.source.portalId = target.source.portalId ∧
    f.source.documentType = target.source.documentType ∧ f.compression = target.compression ∧
    f.parserVersion = version ∧ f.source.status = .completed ∧
    f.source.contentSha256 = target.source.contentSha256 ∧ f.replays = []) &&
  (claimOf t f.id).isSome && f.completedRun.isSome

/-- `ORDER BY applied.applied_at DESC, candidate.id`. -/
def candidateFirst (t : Tables) (a b : StagedFile) : Bool :=
  match claimOf t a.id, claimOf t b.id with
  | some x, some y => decide (y.appliedAt < x.appliedAt ∨ x.appliedAt = y.appliedAt ∧ a.id ≤ b.id)
  | _, _ => true

/-- The candidate with its completed run. -/
def candidate (t : Tables) (version : String) (files : List StagedFile) (target : StagedFile) :
    Option (StagedFile × Attempt) :=
  (((files.filter (isCandidate t version target)).insertionSort
    fun a b => candidateFirst t a b).head?).bind fun f => f.completedRun.map fun r => (f, r)

/-- The candidate whose rows still agree with its counters and that no issue quarantines. -/
def reusable (t : Tables) (version : String) (files : List StagedFile) (target : StagedFile) :
    Option (StagedFile × Attempt) :=
  (candidate t version files target).filter fun c =>
    decide (c.1.summaryOf c.2 = c.2.counts ∧ c.2.counts.issues.fileQuarantines = 0)

/-- The evidence that is cloned: what has a record index and is no quarantine. -/
def clonedEvidence (evidence : List ValidationIssue) : List ValidationIssue :=
  evidence.filter fun i => decide (i.recordIndex ≠ none ∧
    i.severity ∈ [IssueSeverity.warning, .recordRejection])

/-- The target with the rows, issue counters and evidence of a candidate. An ingestion run gets no
record counters before it is finalized. -/
def cloned (target from_ : StagedFile) (r : Attempt) : StagedFile :=
  let actual := from_.summaryOf r
  target.withStaged
    ⟨from_.staging, if target.openReplay.isSome then actual else countRows .empty actual.issues,
      clonedEvidence r.evidence⟩

/-- `reuse_validated_staging`: the target after it, and the summary of a hit. The checks of the
requested type and compression compare the row with itself. -/
def reuseValidatedStaging (t : Tables) (version : String) (files : List StagedFile)
    (target : StagedFile) : Except Failure (StagedFile × Option StageSummary) := do
  require (version ≠ "" ∧ version.length ≤ 128)
    ⟨.other, "parser_version must contain at most 128 characters", 0⟩
  require (target.source.contentSha256 ≠ none)
    ⟨.persistenceNotFound, "Source file is missing or has not been archived", 0⟩
  require (target.source.status = .parsing ∨ target.openReplay.isSome = true)
    ⟨.persistenceConflict, "Staging reuse requires an active parsing lifecycle or replay", 0⟩
  let cleared := target.withStaged .empty
  match reusable t version files target with
  | some (f, r) => pure (cloned cleared f r, some (f.summaryOf r))
  | none => pure (cleared, none)

/-! ## The issues of the ordering check -/

/-- An issue that the repository generates itself, of no record. -/
def generatedIssue (severity : IssueSeverity) (code message : String) : ValidationIssue :=
  ⟨severity, code, message, none, none, none⟩

/-- The warnings of `_validate_source_ordering`. -/
def timestampIssues (source : SourceRow) (staging : Staging) : List ValidationIssue :=
  let metadataTimes := staging.documents.filterMap StagedDocument.sourceUpdatedAt
  let observedAt := source.downloadFinishedAt.getD source.discoveredAt
  let effective := ((metadataTimes ++ source.sourceTimestamp.toList).max?).getD observedAt
  (if metadataTimes = [] ∧ source.sourceTimestamp = none then
    [generatedIssue .warning "source_timestamp_missing"
      "Source has no declared timestamp; archive attachment time is used for ordering"]
  else []) ++
  if effective < observedAt - sourceStalenessWarningAge then
    [generatedIssue .warning "source_timestamp_stale"
      "Source timestamp is older than the configured freshness warning age"]
  else []

/-- All issues of `_validate_source_ordering`. -/
def orderingIssues (r : ApplyRequest) (quarantine : Option (String × String)) :
    List ValidationIssue :=
  timestampIssues r.source r.staging ++
    quarantine.toList.map fun q => generatedIssue .fileQuarantine q.1 q.2

/-! ## The service -/

/-- What parsing some archived bytes yields: the events that are staged, then the failure of a
parse that does not reach the end. -/
structure ParserOutput where
  events : List ParsedEvent
  failure : Option Failure
  deriving DecidableEq

structure ParsingConfig where
  limits : IssueLimits
  parse : String → String → DocumentType → CompressionFormat → ParserOutput

namespace ParsingConfig

variable (c : ParsingConfig)

/-- The output of a parser version on the archive of a file. -/
def output (version : String) (f : StagedFile) : ParserOutput :=
  c.parse version (f.source.contentSha256.getD "") f.source.documentType f.compression

/-- What parsing the archive of a file and finalizing leaves. -/
def parsed (version : String) (f : StagedFile) : Except Failure Staged :=
  match (c.output version f).failure with
  | some e => .error e
  | none => stageAndFinalize c.limits f.source.documentType (c.output version f).events

end ParsingConfig

/-- What an ingest or a replay has reached. -/
inductive Phase
  | preparing (version : String)
  | parsing (version : String) (rest : List ParsedEvent)
  | reused (version : String)
  | finalized
  | applied
  deriving DecidableEq

/-- The process that holds the lock of a file: an ingest, which moves the status of the file along,
or a replay, which does not. -/
structure Work where
  isReplay : Bool
  phase : Phase
  deriving DecidableEq

/-- A file with the process that works on it, if any. -/
structure Held where
  file : StagedFile
  work : Option Work

/-- What an apply reads besides the row and its staging. -/
structure ApplyReads where
  /-- `assert_maintenance_ingestion_allowed` refuses the attempt. -/
  barred : Bool
  /-- The instant of the file in the rebuild that the replay belongs to. -/
  rebuildAppliedAt : Option Time
  wallClock : Time
  policy : SnapshotPolicy

inductive FileEvent
  /-- `ARCHIVED` or `FAILED_RETRYABLE` to `PARSING` in an ingest. -/
  | begin (version : String)
  /-- `begin_replay`. -/
  | replay (version : String)
  /-- `stage` of the next events of the parser. -/
  | stage (n : Nat)
  | finalize
  /-- `PARSING` to `STAGED` to `VALIDATING` to `APPLYING`. -/
  | advance
  | complete
  /-- `finish_replay`. -/
  | finish (succeeded : Bool)
  /-- The recorded failure of an attempt, or the recovery of a stale one. -/
  | fail (target : IngestionStatus)
  /-- `archive_only` of a file that failed after it was archived. -/
  | markArchived
  /-- The process ends or loses its lock. -/
  | stop

/-- `transition`: the status of the row and of its run. A retryable failure is left by a new run. -/
def StagedFile.transition (target : IngestionStatus) (f : StagedFile) : StagedFile :=
  if f.source.status = .failedRetryable then
    { f with
      source := { f.source with status := target }
      run := .opened target
      earlierRuns := f.run :: f.earlierRuns }
  else
    { f with
      source := { f.source with status := target }
      run := { f.run with
        status := target
        finished := decide (target ∈
          [IngestionStatus.completed, .quarantined, .failedRetryable, .failedTerminal]) } }

/-- The next status of an ingest whose rows are finalized. -/
def nextStatus : IngestionStatus → Option IngestionStatus
  | .parsing => some .staged
  | .staged => some .validating
  | .validating => some .applying
  | _ => none

section Steps

variable (c : ParsingConfig)

/-- `begin_replay`: the open replays of the file are closed, and a new one is opened. -/
def StagedFile.beginReplay (f : StagedFile) : StagedFile :=
  { f with
    replays := .opened .parsing :: f.replays.map fun r =>
      if r.finished then r else { r with status := .failedRetryable, finished := true } }

/-- `finish_replay`. -/
def StagedFile.finishReplay (succeeded : Bool) (f : StagedFile) : StagedFile :=
  { f with
    replays := f.replays.map fun r =>
      if r.finished then r
      else { r with status := if succeeded then .completed else .failedTerminal, finished := true } }

/-- All events are staged and the parser ended without a failure, or the rows were reused. -/
def readyToFinalize (f : StagedFile) : Phase → Bool
  | .parsing version rest => rest.isEmpty && (c.output version f).failure.isNone
  | .reused _ => true
  | _ => false

/-- The steps that touch one file only. -/
def fileStep (h : Held) : FileEvent → Option Held
  | .begin version =>
    if h.work = none ∧ h.file.source.status ∈ [.archived, .failedRetryable] then
      some ⟨h.file.transition .parsing, some ⟨false, .preparing version⟩⟩
    else none
  | .replay version =>
    if h.work = none then some ⟨h.file.beginReplay, some ⟨true, .preparing version⟩⟩ else none
  | .stage n =>
    match h.work with
    | some ⟨isReplay, .parsing version rest⟩ =>
      (stage c.limits (rest.take n) h.file.staged).toOption.map fun a =>
        ⟨h.file.withStaged a, some ⟨isReplay, .parsing version (rest.drop n)⟩⟩
    | _ => none
  | .finalize =>
    h.work.bind fun work =>
      if readyToFinalize c h.file work.phase then
        (finalizeStaging c.limits h.file.source.documentType h.file.staged).toOption.map fun a =>
          ⟨h.file.withStaged a, some ⟨work.isReplay, .finalized⟩⟩
      else none
  | .advance =>
    if h.work = some ⟨false, .finalized⟩ then
      (nextStatus h.file.source.status).map fun target => ⟨h.file.transition target, h.work⟩
    else none
  | .complete =>
    if h.work = some ⟨false, .applied⟩ ∧ h.file.source.status = .applying then
      some ⟨h.file.transition .completed, none⟩
    else none
  | .finish succeeded =>
    if h.work.any (fun work => work.isReplay && (!succeeded || decide (work.phase = .applied))) then
      some ⟨h.file.finishReplay succeeded, none⟩
    else none
  | .fail target =>
    if h.work.all (fun work => !work.isReplay) ∧ target ∈ h.file.source.status.allowed ∧
        target ∈ [IngestionStatus.quarantined, .failedRetryable, .failedTerminal] then
      some ⟨h.file.transition target, none⟩
    else none
  | .markArchived =>
    if h.work = none ∧ h.file.source.status = .failedRetryable then
      some ⟨h.file.transition .archived, none⟩
    else none
  | .stop => some ⟨h.file, none⟩

/-- The request of the apply transaction of a file. -/
def StagedFile.applyRequest (reads : ApplyReads) (f : StagedFile) : ApplyRequest where
  sourceFileId := f.id
  documentType := f.source.documentType
  source := f.source
  staging := f.staging
  replayActive := f.openReplay.isSome
  rebuildActive := reads.barred
  wallClock := reads.wallClock
  policy := reads.policy
  limits := c.limits
  usage := f.staged.counts.issues

/-- The quarantine that the ordering check of an apply commits before it raises. -/
def orderingRefusal (r : ApplyRequest) (t : Tables) : Option (String × String) :=
  if (lockSourceForApply.{0} r).isOk ∧ r.rebuildActive = false then
    (family? r.documentType).bind fun family =>
      (validateSourceOrdering r family t).toOption.bind Prod.fst
  else none

/-- The check of `has_file_quarantine_issue`, then `apply`. The issues of the ordering check stand
when the document is written and when it is quarantined; any other failure is rolled back. -/
def applyStep (reads : ApplyReads) (t : Tables) (h : Held) : Option (Tables × Held) :=
  let r := h.file.applyRequest c reads
  h.work.bind fun work =>
    if work.phase = .finalized ∧ h.file.staged.counts.issues.fileQuarantines = 0 then
      match apply r (Maintenance.claimRebuilt r reads.rebuildAppliedAt t) with
      | .ok written =>
        some (written.1,
          ⟨h.file.withStaged (h.file.staged.withIssues c.limits (orderingIssues r none)),
            some ⟨work.isReplay, .applied⟩⟩)
      | .error _ =>
        (orderingRefusal r t).map fun q =>
          (t, ⟨h.file.withStaged (h.file.staged.withIssues c.limits (orderingIssues r (some q))),
            none⟩)
    else none

end Steps

/-! ## The system -/

/-- The archived files with their processes, the normalized tables, and the files whose reuse once
disagreed with a parse. -/
structure World where
  files : List Held
  tables : Tables
  disagreed : List FileId

inductive Event
  /-- `record_archive` of a new file, whose row names the parser of the process that archived it. -/
  | archive (id : FileId) (source : SourceRow) (content : String)
      (compression : CompressionFormat) (parserVersion : String)
  | file (id : FileId) (event : FileEvent)
  | reuse (id : FileId)
  | apply (id : FileId) (reads : ApplyReads)
  /-- `begin_rebuild` truncates the staging tables and resets the normalized ones. -/
  | truncate (tables : Tables)
  /-- Any other write of the normalized tables: the rest of a rebuild, the catalog. -/
  | normalized (tables : Tables)

def Held.key (h : Held) : FileId := h.file.id

namespace World

variable (w : World)

def held (id : FileId) : Option Held :=
  Table.lookup Held.key w.files id

def setHeld (h : Held) : World :=
  { w with files := Table.updateAt Held.key h.key (fun _ => h) w.files }

/-- The archived files without their processes. -/
def rows : List StagedFile :=
  w.files.map Held.file

end World

/-- What is left of a file when its staging rows are truncated. -/
def StagedFile.truncated (f : StagedFile) : StagedFile :=
  { f with
    staging := .empty
    provenance := if f.source.status = .completed ∧ f.replays = [] then f.provenance else none }

/-- Finalizing what a reuse left gives exactly what a parse would have given, with the sampled
evidence that the counters name. -/
def agrees (c : ParsingConfig) (version : String) (f : StagedFile) : Bool :=
  decide (finalizeStaging c.limits f.source.documentType f.staged = c.parsed version f) &&
    match finalizeStaging c.limits f.source.documentType f.staged with
    | .ok a => decide (a.evidence.length = a.counts.issues.sampledValidationIssues)
    | .error _ => true

/-- Where a reuse leads, to the finalization after a hit and to the parser after a miss, and whether
what it left agrees with a parse. -/
def afterReuse (c : ParsingConfig) (w : World) (isReplay : Bool) (version : String)
    (target : StagedFile) : Option (Held × Bool) :=
  match reuseValidatedStaging w.tables version w.rows target with
  | .error _ => none
  | .ok (f, none) =>
    some (⟨{ f with provenance := some version },
      some ⟨isReplay, .parsing version (c.output version target).events⟩⟩, true)
  | .ok (f, some _) =>
    let provenance := (reusable w.tables version w.rows target).bind fun r => r.1.provenance
    some (⟨{ f with provenance := provenance }, some ⟨isReplay, .reused version⟩⟩,
      agrees c version f)

def next (c : ParsingConfig) (w : World) : Event → Option World
  | .archive id source content compression parserVersion =>
    match w.held id with
    | some _ => none
    | none => some { w with
        files := w.files ++
          [⟨⟨id, { source with status := .archived, contentSha256 := some content }, compression,
            parserVersion, .empty, .opened .archived, [], [], none⟩, none⟩] }
  | .file id event =>
    (w.held id).bind fun h => (fileStep c h event).map w.setHeld
  | .reuse id =>
    (w.held id).bind fun h =>
      match h.work with
      | some ⟨isReplay, .preparing version⟩ =>
        (afterReuse c w isReplay version h.file).map fun r =>
          { w.setHeld r.1 with
            disagreed := if r.2 then w.disagreed else id :: w.disagreed }
      | _ => none
  | .apply id reads =>
    (w.held id).bind fun h =>
      (applyStep c reads w.tables h).map fun r => { w.setHeld r.2 with tables := r.1 }
  | .truncate tables =>
    some { w with
      files := w.files.map fun h => { h with file := h.file.truncated }
      tables := tables }
  | .normalized tables => some { w with tables := tables }

def parsingSystem (c : ParsingConfig) : System World Event where
  init w := w = ⟨[], .empty, []⟩
  next := next c

end Makolet.Parsing
