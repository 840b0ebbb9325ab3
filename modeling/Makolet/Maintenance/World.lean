import Makolet.Maintenance.Rebuild

/-!
# Ingests, replays and rebuilds on one database

The processes that meet at the maintenance barrier: an ordinary ingest, a replay that belongs to no
rebuild, and the loop of `resume_rebuild`, which replays the files of its list one by one. Each
awaits one transaction at a time and may see it raise, may die, and may lose the session that holds
its advisory locks. The lifecycle of the source rows is not followed here: any row may be written
at any time.

`RebuildProtocol` is what the rebuild promises. The barrier is checked inside the apply transaction,
but for the rebuild that the *open replay row* of the file names, and the catalog bootstrap after an
apply does not check it at all. `Respected` is the condition that neither matters.
-/

set_option autoImplicit false

namespace Makolet.Maintenance

open Makolet.Domain Makolet.Lib Makolet.Normalized Makolet.Ingestion

/-- Who processes a file: an ordinary ingest, or a replay with the rebuild it belongs to. -/
inductive Origin
  | ingest
  | replay (rebuildRunId : Option RunId)
  deriving DecidableEq, Repr

/-- The operation that the processing of a file awaits. -/
inductive CallPc
  | check
  | register
  | acquire
  | refresh
  | begin
  | stage (replay : Option ReplayId)
  | apply (replay : Option ReplayId)
  | finish (replay : ReplayId) (error : Option Failure)
  | release (error : Option Failure)
  | bootstrap (cursor : Option ItemId)
  | returned
  | raised (e : Failure)
  deriving DecidableEq, Repr

abbrev Page := List (Nat × ArchivedSourceFile)

/-- The operation that `resume_rebuild` awaits. -/
inductive RebuildPc
  | lock
  | resume
  | page
  | replay (sequence : Nat) (file : ArchivedSourceFile) (rest : Page) (pc : CallPc)
  | checkpoint (sequence : Nat) (file : ArchivedSourceFile) (rest : Page)
  | finish
  | fail (e : Failure)
  | unlock
  | ended
  deriving DecidableEq, Repr

inductive Proc
  | call (origin : Origin) (file : FileId) (pc : CallPc)
  | begin (requestedBy parserVersion : String)
  | rebuild (id : RunId) (pc : RebuildPc)
  | stopped (e : Failure)
  deriving DecidableEq, Repr

/-- The database, the advisory locks, and the record of the checkpoints so far. -/
structure Shared where
  db : Database
  leases : FileId → Option ProcessId
  rebuildLock : Option ProcessId
  checkpoints : List (RunId × Nat × FileId)

/-- What an answer brings along. -/
inductive Input
  | go
  | staged (staging : Staging)
  | settings (settings : ApplySettings)
  | clock (now : Time)

/-- How the services are wired. -/
structure Wiring where
  catalogBootstrap : Bool
  rebuildPageSize : Nat
  reconcile : Reconcile

def Origin.rebuildRunId : Origin → Option RunId
  | .ingest => none
  | .replay id => id

/-- The first operation after the first barrier check. -/
def Origin.admitted : Origin → CallPc
  | .ingest => .register
  | .replay _ => .acquire

/-- The first operation under the lock of the file. -/
def Origin.owning : Origin → CallPc
  | .ingest => .refresh
  | .replay _ => .begin

def sessionLost : Failure := ⟨.database, "the session of the ingestion lock is gone", 0⟩

def missingSource : Failure := ⟨.persistenceNotFound, "Source file does not exist", 0⟩

/-- After the apply a replay finishes its own row. -/
def afterApply : Option ReplayId → CallPc
  | none => .release none
  | some id => .finish id none

def afterRelease : Option Failure → CallPc
  | none => .bootstrap none
  | some e => .raised e

def afterBatch : Option ItemId → CallPc
  | none => .returned
  | some cursor => .bootstrap (some cursor)

section Steps

variable (wiring : Wiring) (p : ProcessId)

/-- A transaction on the connection of the lock. -/
def Shared.owned (s : Shared) (f : FileId) (k : Except Failure (Shared × CallPc)) :
    Except Failure (Shared × CallPc) := do
  require (s.leases f = some p) sessionLost
  k

/-- The awaited operation of an ingest or a replay. -/
def callAct (origin : Origin) (f : FileId) (s : Shared) :
    CallPc → Input → Option (Except Failure (Shared × CallPc))
  | .check, .go =>
    some ((assertIngestionAllowed origin.rebuildRunId s.db).map fun _ => (s, origin.admitted))
  | .register, .go =>
    match s.db.source f with
    | none => some (.error missingSource)
    | some row => some (.ok (s, if row.status = .completed then .bootstrap none else .acquire))
  | .acquire, .go =>
    match s.leases f with
    | some _ => some (.error ⟨.leaseUnavailable, "Source file is already being processed", 0⟩)
    | none => some (.ok ({ s with leases := Function.update s.leases f (some p) }, origin.owning))
  | .refresh, .go =>
    match s.db.source f with
    | none => some (.error missingSource)
    | some row =>
      some (s.owned p f (.ok (s, if row.status = .completed then .release none else .stage none)))
  | .begin, .go =>
    some (s.owned p f ((beginReplay f origin.rebuildRunId s.db).map fun begun =>
      ({ s with db := begun.1 }, .stage (some begun.2))))
  | .stage replay, .staged staging =>
    some (s.owned p f (.ok
      ({ s with db := { s.db with staging := Function.update s.db.staging f staging } },
        .apply replay)))
  | .apply replay, .settings settings =>
    some (s.owned p f ((applySource settings f s.db).map fun db =>
      ({ s with db := db }, afterApply replay)))
  | .finish replay error, .go =>
    some (s.owned p f ((finishReplay replay s.db).map fun db =>
      ({ s with db := db }, .release error)))
  | .release error, .go =>
    some (.ok ({ s with leases := if s.leases f = some p then Function.update s.leases f none
      else s.leases }, afterRelease error))
  | .bootstrap cursor, .clock now =>
    if wiring.catalogBootstrap then
      let batch := bootstrapBatch now f cursor s.db
      some (.ok ({ s with db := batch.1 }, afterBatch batch.2))
    else some (.ok (s, .returned))
  | _, _ => none

/-- Where an exception in the processing of a file leads. Only an `Exception` finishes the replay
row; a cancellation leaves it open. -/
def callHandle (e : Failure) : CallPc → Option CallPc
  | .check | .register | .acquire | .release _ | .bootstrap _ => some (.raised e)
  | .refresh | .begin | .finish _ _ => some (.release (some e))
  | .stage replay | .apply replay =>
    match replay with
    | some id => some (if e.kind.isException then .finish id (some e) else .release (some e))
    | none => some (.release (some e))
  | .returned | .raised _ => none

/-- The replay of the next file of a page, or the next page. -/
def nextFile : Page → RebuildPc
  | [] => .page
  | (sequence, file) :: rest => .replay sequence file rest .check

/-- The loop goes on with the checkpoint once the replay has returned. -/
def inLoop (sequence : Nat) (file : ArchivedSourceFile) (rest : Page) : CallPc → RebuildPc
  | .returned => .checkpoint sequence file rest
  | .raised e => .fail e
  | pc => .replay sequence file rest pc

/-- `_REBUILD_FAILURE_MESSAGE`. -/
def rebuildFailureMessage : String :=
  "Archived replay failed; inspect the rebuild and replay audit records before resuming"

/-- The awaited operation of `resume_rebuild`. -/
def rebuildAct (id : RunId) (s : Shared) :
    RebuildPc → Input → Option (Except Failure (Shared × RebuildPc))
  | .lock, .go =>
    match s.rebuildLock with
    | some _ =>
      some (.error ⟨.leaseUnavailable, "Another process is already running this rebuild", 0⟩)
    | none => some (.ok ({ s with rebuildLock := some p }, .resume))
  | .resume, .go => some ((resumeRebuild id s.db).map fun db => ({ s with db := db }, .page))
  | .page, .go =>
    some ((nextRebuildFiles id wiring.rebuildPageSize s.db).map fun page =>
      (s, if page = [] then .finish else nextFile page))
  | .replay sequence file rest pc, input =>
    (callAct wiring p (.replay (some id)) file.sourceFileId s pc input).map fun result =>
      result.map fun next => (next.1, inLoop sequence file rest next.2)
  | .checkpoint sequence file rest, .go =>
    some ((completeRebuildFile id sequence file s.db).map fun db =>
      ({ s with
          db := db
          checkpoints := s.checkpoints ++ [(id, sequence, file.sourceFileId)] }, nextFile rest))
  | .finish, .go =>
    some ((finishRebuild wiring.reconcile id s.db).map fun db => ({ s with db := db }, .unlock))
  | .fail e, .go =>
    some ((failRebuild id e.kind rebuildFailureMessage s.db).map fun db =>
      ({ s with db := db }, .unlock))
  | .unlock, .go =>
    some (.ok ({ s with rebuildLock := if s.rebuildLock = some p then none else s.rebuildLock },
      .ended))
  | _, _ => none

/-- Where an exception in the loop leads. -/
def rebuildHandle (e : Failure) : RebuildPc → Option RebuildPc
  | .lock | .unlock => some .ended
  | .resume | .fail _ => some .unlock
  | .page | .checkpoint _ _ _ | .finish => some (.fail e)
  | .replay sequence file rest pc => (callHandle e pc).map (inLoop sequence file rest)
  | .ended => none

def Proc.act (s : Shared) : Proc → Input → Option (Except Failure (Shared × Proc))
  | .call origin f pc, input =>
    (callAct wiring p origin f s pc input).map fun result =>
      result.map fun next => (next.1, .call origin f next.2)
  | .begin requestedBy parserVersion, .clock now =>
    some ((beginRebuild requestedBy parserVersion now s.db).map fun begun =>
      ({ s with db := begun.1 }, .rebuild begun.2 .lock))
  | .rebuild id pc, input =>
    (rebuildAct wiring p id s pc input).map fun result =>
      result.map fun next => (next.1, .rebuild id next.2)
  | _, _ => none

def Proc.handle : Proc → Failure → Option Proc
  | .call origin f pc, e => (callHandle e pc).map fun pc => .call origin f pc
  | .begin _ _, e => some (.stopped e)
  | .rebuild id pc, e => (rebuildHandle e pc).map fun pc => .rebuild id pc
  | .stopped _, _ => none

def program : Program Shared Proc Input Fault Failure where
  act := fun s proc input => proc.act wiring p s input
  raised := Fault.failure
  handle := Proc.handle

end Steps

/-! ## The system -/

/-- The processes, what they share, and the files whose ordinary ingest or replay changed the
normalized state under an active rebuild. -/
structure World where
  shared : Shared
  procs : ProcessId → Option Proc
  intrusions : List FileId

/-- What can happen to a process: a call starts, its operation is answered, it dies, it loses the
session of its locks. -/
inductive Act
  | ingest (f : FileId)
  | replay (f : FileId)
  | startRebuild (requestedBy parserVersion : String)
  | resumeRebuild (id : RunId)
  | reply (r : Reply Input Fault)
  | crash
  | loseSession

inductive Label
  | proc (p : ProcessId) (act : Act)
  | source (row : SourceFile)

/-- The advisory locks without those of one session. -/
def Shared.unlock (s : Shared) (p : ProcessId) : Shared :=
  { s with
    leases := fun f => if s.leases f = some p then none else s.leases f
    rebuildLock := if s.rebuildLock = some p then none else s.rebuildLock }

/-- The lifecycle writes a source row. -/
def Shared.writeSource (s : Shared) (row : SourceFile) : Shared :=
  let sources := Table.upsert sourceFileIdOf sourceFileIdOf id (fun _ new => new) s.db.sources [row]
  { s with db := { s.db with sources := sources } }

/-- The file of an ordinary ingest or of a replay outside a rebuild. -/
def Proc.ordinary? : Proc → Option FileId
  | .call _ f _ => some f
  | _ => none

/-- The intrusion of a step: an ordinary process changed the normalized state while a rebuild was
active. -/
def intrusion (proc : Proc) (s s' : Shared) : List FileId :=
  if s.db.active ≠ none ∧ s'.db.tables ≠ s.db.tables then proc.ordinary?.toList else []

def World.start (w : World) (p : ProcessId) (proc : Proc) : Option World :=
  if w.procs p = none then some { w with procs := Function.update w.procs p (some proc) } else none

def next (wiring : Wiring) (w : World) : Label → Option World
  | .proc p (.ingest f) => w.start p (.call .ingest f .check)
  | .proc p (.replay f) => w.start p (.call (.replay none) f .check)
  | .proc p (.startRebuild requestedBy parserVersion) =>
    w.start p (.begin requestedBy parserVersion)
  | .proc p (.resumeRebuild id) => w.start p (.rebuild id .lock)
  | .proc p (.reply r) =>
    (w.procs p).bind fun proc =>
      ((program wiring p).step w.shared proc r).map fun after =>
        ⟨after.1, Function.update w.procs p (some after.2),
          w.intrusions ++ intrusion proc w.shared after.1⟩
  | .proc p .crash =>
    some { w with shared := w.shared.unlock p, procs := Function.update w.procs p none }
  | .proc p .loseSession => some { w with shared := w.shared.unlock p }
  | .source row => some { w with shared := w.shared.writeSource row }

/-- A database on which no rebuild and no replay has run yet. -/
def Database.fresh (db : Database) : Prop :=
  db.active = none ∧ db.runs = [] ∧ db.files = [] ∧ db.replays = []

def rebuildSystem (wiring : Wiring) : Makolet.Lib.System World Label where
  init w := w.shared.db.fresh ∧ w.shared.leases = (fun _ => none) ∧ w.shared.rebuildLock = none ∧
    w.shared.checkpoints = [] ∧ w.procs = (fun _ => none) ∧ w.intrusions = []
  next := next wiring

/-! ## The property and its condition -/

/-- The checkpoints of a run, in the order in which they were made. -/
def Shared.checkpointsOf (s : Shared) (id : RunId) : List (Nat × FileId) :=
  (s.checkpoints.filter fun c => decide (c.1 = id)).map Prod.snd

/-- The sequence of a run. -/
def Database.sequenceOf (db : Database) (id : RunId) : List (Nat × FileId) :=
  (db.filesOf id).map fun f => (f.sequence, f.sourceFileId)

/-- What the rebuild promises. -/
structure RebuildProtocol (w : World) : Prop where
  numbered : ∀ id, (w.shared.db.sequenceOf id).map Prod.fst =
    List.range' 1 (w.shared.db.sequenceOf id).length
  inOrder : ∀ id, w.shared.checkpointsOf id <+: w.shared.db.sequenceOf id
  finished : ∀ run ∈ w.shared.db.runs, run.status = .completed →
    w.shared.checkpointsOf run.id = w.shared.db.sequenceOf run.id
  oneActive : ∀ run ∈ w.shared.db.runs, run.status ≠ .completed → w.shared.db.active = some run.id
  barrier : w.intrusions = []

/-- Whether the next operation of an ordinary process respects the barrier: the file that an ingest
applies, without a replay row of its own, has no open replay of the active rebuild, and a bootstrap
finds no rebuild or nothing to do. -/
def Proc.Respects (db : Database) : Proc → Prop
  | .call _ f (.apply none) =>
    db.active ≠ none → (db.openReplay f).bind ReplayRun.rebuildRunId ≠ db.active
  | .call _ f (.bootstrap cursor) =>
    db.active = none ∨ sourceSubjects f cursor db.tables = []
  | _ => True

/-- The condition on a step: the acting process respects the barrier. -/
def Respected (w : World) : Label → Prop
  | .proc p (.reply _) => ∀ proc ∈ w.procs p, proc.Respects w.shared.db
  | _ => True

instance (db : Database) (proc : Proc) : Decidable (proc.Respects db) := by
  unfold Proc.Respects
  split <;> infer_instance

instance (w : World) (label : Label) : Decidable (Respected w label) := by
  unfold Respected
  split <;> infer_instance

end Makolet.Maintenance
