import Makolet.Maintenance.Checkpoints
import Makolet.Normalized.Instants

/-!
# The sequence of a rebuild

A rebuild replays its files in the order of one time a file: the instant of its apply where it was
applied, and its publisher's timestamp where it was only archived. The replay then checks the
timestamps that publishers declare. `historySystem` has ordinary ingests and archive-only archives
up to the start of a rebuild, and then the loop of that rebuild; it records the files that had been
applied before and whose replay meets the ordering check or a temporal constraint.

The wall clock of an ingest is usually much later than the publisher's timestamp, so an archived
file may be sequenced before an applied file of the same scope that is older. `Library.Orderly` is
the condition that it is not.
-/

set_option autoImplicit false

namespace Makolet.Maintenance

open Makolet.Domain Makolet.Lib Makolet.Normalized Makolet.Ingestion

/-! ## Archived files -/

/-- The archived files: the row of each, up to its status, and what the parser stages of it. -/
structure Library where
  row : FileId → SourceFile
  staging : FileId → Staging
  ids : ∀ f, sourceFileIdOf (row f) = f

namespace Library

variable (L : Library)

/-- The row of a file in a status. -/
def rowAt (f : FileId) (status : IngestionStatus) : SourceFile :=
  { L.row f with status := status }

def metadataTimes (f : FileId) : List Time :=
  (L.staging f).documents.filterMap StagedDocument.sourceUpdatedAt

def observedAt (f : FileId) : Time :=
  (L.row f).downloadFinishedAt.getD (L.row f).remote.discoveredAt

/-- The timestamp that the ordering check reads. -/
def effectiveTimestamp (f : FileId) : Time :=
  ((L.metadataTimes f ++ (L.row f).remote.sourceTimestamp.toList).max?).getD (L.observedAt f)

def contentSha256 (f : FileId) : String :=
  ((L.row f).archive.map ArchiveObject.contentSha256).getD ""

/-- The watermarks that a file sets. -/
def scopes (f : FileId) : List WatermarkKey :=
  match family? (L.row f).remote.documentType with
  | none => []
  | some family => (incomingScopes family (L.staging f)).map fun scope =>
      ⟨(L.row f).remote.retailerId, (L.row f).remote.portalId, family, scope⟩

/-- A file may follow another one: on every shared watermark it is later, or the same content at the
same time. -/
def Precedes (f g : FileId) : Prop :=
  ∀ k ∈ L.scopes f, k ∈ L.scopes g → L.effectiveTimestamp f < L.effectiveTimestamp g ∨
    L.effectiveTimestamp f = L.effectiveTimestamp g ∧ L.contentSha256 f = L.contentSha256 g

instance (f g : FileId) : Decidable (L.Precedes f g) :=
  inferInstanceAs (Decidable (∀ k ∈ L.scopes f, _ → _))

end Library

/-! ## Obstacles -/

/-- The messages of the ordering quarantines that a regression or a conflict causes. -/
def orderingMessages : List String :=
  ["Source timestamp precedes current normalized state; archive it with " ++
      "--archive-only and run a normalized rebuild",
    "Different source content claims the same scope timestamp",
    "One source file declares conflicting effective timestamps"]

/-- The quarantine of a timestamp regression or conflict. -/
def IsOrderingQuarantine (e : Failure) : Prop :=
  e.kind = .quarantinedFile ∧ e.message ∈ orderingMessages

instance (e : Failure) : Decidable (IsOrderingQuarantine e) :=
  inferInstanceAs (Decidable (_ ∧ _))

/-- A timestamp regression or conflict, or a temporal constraint. -/
def Obstructs (e : Failure) : Prop :=
  IsOrderingQuarantine e ∨ IsTemporal e

instance (e : Failure) : Decidable (Obstructs e) :=
  inferInstanceAs (Decidable (_ ∨ _))

/-! ## Runs -/

/-- A rebuild and the files it has not replayed yet. -/
structure Rebuilding where
  id : RunId
  pending : List RebuildFile

/-- The database, the rebuild that runs, and the originally applied files whose replay met an
obstacle. -/
structure History where
  db : Database
  rebuilding : Option Rebuilding
  obstructed : List FileId

inductive HistoryEvent
  | record (f : FileId) (status : IngestionStatus)
  | ingest (f : FileId) (settings : ApplySettings)
  | bootstrap (f : FileId) (now : Time) (cursor : Option ItemId)
  | begin (requestedBy parserVersion : String) (now : Time)
  | replay (settings : ApplySettings)
  | resume

section Events

variable (L : Library)

/-- The lifecycle writes the row of an archived file. An archive-only archive leaves it at
`archived`. -/
def recordStatus (f : FileId) (status : IngestionStatus) (db : Database) : Database :=
  let sources := Table.upsert sourceFileIdOf id (fun f => L.rowAt f status)
    (fun old _ => { old with status := status }) db.sources [f]
  { db with sources := sources }

/-- The parser stages the archived bytes. -/
def stageSource (f : FileId) (db : Database) : Database :=
  { db with staging := Function.update db.staging f (L.staging f) }

/-- The staging and the apply of an ordinary ingest. -/
def ingestSource (f : FileId) (settings : ApplySettings) (db : Database) : Database :=
  match applySource settings f (stageSource L f db) with
  | .ok applied => applied
  | .error _ => stageSource L f db

/-- The replay of one file of a rebuild, and how it ended. Its own row is finished either way. -/
def replaySource (id : RunId) (f : FileId) (settings : ApplySettings) (db : Database) :
    Database × Except Failure Unit :=
  match beginReplay f (some id) db with
  | .error e => (db, .error e)
  | .ok begun =>
    let staged := stageSource L f begun.1
    let finished := fun db => (finishReplay begun.2 db).toOption.getD db
    match applySource settings f staged with
    | .error e => (finished staged, .error e)
    | .ok applied => (finished applied, .ok ())

/-- The next file of a rebuild. A failed replay marks the run as failed, and the file is replayed
again once the run is resumed. -/
def History.replayNext (s : History) (run : Rebuilding) (settings : ApplySettings) :
    Option History :=
  match run.pending with
  | [] => none
  | e :: rest =>
    let replayed := replaySource L run.id e.sourceFileId settings s.db
    let failed := fun db kind =>
      (failRebuild run.id kind rebuildFailureMessage db).toOption.getD db
    match replayed.2 with
    | .error failure => some
        { s with
          db := failed replayed.1 failure.kind
          obstructed := s.obstructed ++
            if e.originalAppliedAt ≠ none ∧ Obstructs failure then [e.sourceFileId] else [] }
    | .ok () =>
      match completeRebuildFile run.id e.sequence ⟨e.sourceFileId, e.archivedAt⟩ replayed.1 with
      | .error failure => some { s with db := failed replayed.1 failure.kind }
      | .ok db => some { s with db := db, rebuilding := some ⟨run.id, rest⟩ }

/-- Ingests and archives until a rebuild begins; then its loop. The catalog bootstrap may run at any
time. -/
def History.next (s : History) : HistoryEvent → Option History
  | .record f status =>
    if s.rebuilding.isNone then some { s with db := recordStatus L f status s.db } else none
  | .ingest f settings =>
    if s.rebuilding.isNone then some { s with db := ingestSource L f settings s.db } else none
  | .bootstrap f now cursor => some { s with db := (bootstrapBatch now f cursor s.db).1 }
  | .begin requestedBy parserVersion now =>
    match beginRebuild requestedBy parserVersion now s.db with
    | .error _ => none
    | .ok begun => some
        { s with
          db := begun.1
          rebuilding := some ⟨begun.2, rebuildSequence s.db begun.2 now⟩ }
  | .replay settings => s.rebuilding.bind fun run => s.replayNext L run settings
  | .resume => s.rebuilding.bind fun run =>
      (resumeRebuild run.id s.db).toOption.map fun db => { s with db := db }

end Events

/-- Nothing has been archived yet. -/
def History.empty : History :=
  ⟨⟨.empty, [], fun _ => .empty, [], none, [], [], 0⟩, none, []⟩

def historySystem (L : Library) : Makolet.Lib.System History HistoryEvent where
  init s := s = .empty
  next := History.next L

/-! ## The condition -/

/-- The selected files, before they are ordered. -/
def selection (db : Database) (id : RunId) (cutoff : Time) : List RebuildFile :=
  (db.sources.filter (eligible cutoff)).map (rebuildEntry db id)

/-- The instants of the applies follow their order, and an archived file that is sequenced before an
applied one may precede it: its instant is before, and so are its timestamps on shared scopes. -/
def Library.Orderly (L : Library) (db : Database) (cutoff : Time) : Prop :=
  db.tables.appliedContents.Pairwise (fun a b => a.appliedAt < b.appliedAt) ∧
    ∀ a ∈ selection db db.nextId cutoff, a.originalAppliedAt = none →
      ∀ b ∈ selection db db.nextId cutoff, b.originalAppliedAt ≠ none → a.SequencedBefore b →
        a.orderTime < b.orderTime ∧ L.Precedes a.sourceFileId b.sourceFileId

instance (L : Library) (db : Database) (cutoff : Time) : Decidable (L.Orderly db cutoff) :=
  inferInstanceAs (Decidable (_ ∧ _))

/-- The condition on a step: a rebuild begins in an orderly state. -/
def BeginsOrderly (L : Library) (s : History) : HistoryEvent → Prop
  | .begin _ _ now => L.Orderly s.db now
  | _ => True

instance (L : Library) (s : History) (e : HistoryEvent) : Decidable (BeginsOrderly L s e) :=
  match e with
  | .begin _ _ now => inferInstanceAs (Decidable (L.Orderly s.db now))
  | .record _ _ | .ingest _ _ | .bootstrap _ _ _ | .replay _ | .resume =>
    inferInstanceAs (Decidable True)

/-! ## A small library -/

/-- When a price file of one store was published and archived, its content and its price. -/
structure SampleFile where
  publishedAt : Time
  archivedAt : Time
  contentSha256 : String
  price : Nat

def sampleLibrary (files : FileId → SampleFile) : Library where
  row f :=
    ⟨⟨f, 1, 1, .http, .priceDelta, .none, (files f).archivedAt, some (files f).publishedAt⟩,
      .archived, some ⟨(files f).contentSha256, 100⟩, some (files f).archivedAt⟩
  staging f :=
    { Staging.empty with prices := [sampleRecord "17" "4001" (files f).price] }
  ids _ := rfl

def sampleApply (wallClock : Time) : ApplySettings :=
  ⟨wallClock, lenientPolicy, ⟨10, 10000, 10⟩, ⟨0, 0, 0, 0, 0⟩⟩

/-- The ingest of a file. -/
def sampleIngest (f : FileId) (wallClock : Time) : List HistoryEvent :=
  [.record f .applying, .ingest f (sampleApply wallClock), .record f .completed]

/-- Files 1 and 2 are ingested and file 3 is archived only; then a rebuild replays three files. -/
def archivedBeside (first second now : Time) : List HistoryEvent :=
  sampleIngest 1 first ++ sampleIngest 2 second ++ [.record 3 .archived, .begin "operator" "1" now] ++
    List.replicate 3 (.replay (sampleApply now))

/-- File 3 was published after file 2 but before its late ingest. -/
def lateLibrary : Library :=
  sampleLibrary fun f =>
    if f = 1 then ⟨40, 45, "aa", 500⟩ else if f = 2 then ⟨100, 990, "bb", 510⟩
    else ⟨200, 1100, "cc", 520⟩

/-- File 3 was published after the ingest of file 2. -/
def promptLibrary : Library :=
  sampleLibrary fun f =>
    if f = 1 then ⟨40, 45, "aa", 500⟩ else if f = 2 then ⟨100, 110, "bb", 510⟩
    else ⟨200, 1100, "cc", 520⟩

end Makolet.Maintenance
