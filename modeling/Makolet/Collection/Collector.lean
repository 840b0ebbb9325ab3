import Makolet.Collection.Repository
import Makolet.Lib.Process

/-!
# The collection of one source

`CollectionOperations._collect` as a program that awaits one durable operation at a time: the
attempt, the publisher pages, the decision for each listed file, the reservation of its bytes, the
ingest call, settlement, catalog bootstrap and the advance of the checkpoint, with both exception
handlers of the loop. The ingest call itself runs in `Lifecycle`; the collector waits for its
outcome.

`History` records what happened, for the statements about runs; no operation reads it.
-/

set_option autoImplicit false

namespace Makolet.Collection

open Makolet.Domain Makolet.Lib Makolet.Lib.Table Makolet.Ingestion Makolet.Normalized

/-! ## Policy -/

/-- The limits of `CollectionPolicy` that the loop reads, with the checks of `__post_init__` on
them. -/
structure CollectionPolicy where
  maximumFilesPerSourceRun : Nat
  maximumDiscoveryRecordsPerSourceRun : Nat
  maximumArchiveObjectBytes : Nat
  maximumTransferChunkBytes : Nat
  maximumTransferProtocolOverheadBytes : Nat
  maximumHttpTransferProtocolOverheadBytes : Nat
  maximumChargedBytesPerSourceRun : Nat
  maximumChargedBytesPerSourceDay : Nat
  maximumSourceIdentitiesPerSourceDay : Nat
  maximumTransferAttemptsPerSourceDay : Nat
  maximumSuccessesPerSourceDay : Nat
  files_pos : 1 ≤ maximumFilesPerSourceRun
  files_le : maximumFilesPerSourceRun ≤ maximumDiscoveryRecordsPerSourceRun
  archive_pos : 1 ≤ maximumArchiveObjectBytes
  chunk_pos : 1 ≤ maximumTransferChunkBytes
  covered : maximumArchiveObjectBytes + maximumTransferChunkBytes +
      max maximumTransferProtocolOverheadBytes maximumHttpTransferProtocolOverheadBytes ≤
    maximumChargedBytesPerSourceRun
  ordered : maximumChargedBytesPerSourceRun ≤ maximumChargedBytesPerSourceDay

/-- What a collector is configured with. -/
structure Config where
  sourceId : RetailerId
  policy : CollectionPolicy

namespace CollectionPolicy

/-- `_charge_budget_reason` gives a reason to stop. -/
def budgetReached (policy : CollectionPolicy) (budget : ChargeBudget) : Bool :=
  decide ((policy.maximumChargedBytesPerSourceRun : Int) ≤ budget.runChargedBytes) ||
    decide ((policy.maximumChargedBytesPerSourceDay : Int) ≤ budget.day.chargedBytes) ||
    decide ((policy.maximumSourceIdentitiesPerSourceDay : Int) ≤ budget.day.identityCount) ||
    decide ((policy.maximumTransferAttemptsPerSourceDay : Int) ≤ budget.day.attemptCount) ||
    decide ((policy.maximumSuccessesPerSourceDay : Int) ≤ budget.day.successCount)

/-- `remaining_bytes`. -/
def remainingBytes (policy : CollectionPolicy) (budget : ChargeBudget) : Int :=
  min (policy.maximumChargedBytesPerSourceRun - budget.runChargedBytes)
    (policy.maximumChargedBytesPerSourceDay - budget.day.chargedBytes)

/-- `protocol_overhead`. -/
def protocolOverhead (policy : CollectionPolicy) : SourceProtocol → Nat
  | .ftp | .ftps => policy.maximumTransferProtocolOverheadBytes
  | .http | .https => policy.maximumHttpTransferProtocolOverheadBytes
  | .fixture => 0

/-- `full_reservation`. -/
def fullReservation (policy : CollectionPolicy) (protocol : SourceProtocol) : Nat :=
  policy.maximumArchiveObjectBytes + policy.protocolOverhead protocol +
    policy.maximumTransferChunkBytes

end CollectionPolicy

/-! ## Pages -/

structure DiscoveryPage where
  files : List RemoteFile
  nextCursor : Option Cursor
  complete : Bool
  deriving DecidableEq, Repr

/-- One listed file of a page. -/
structure Slot where
  page : DiscoveryPage
  index : Nat
  remote : RemoteFile
  listed : page.files[index]? = some remote
  deriving DecidableEq

def Slot.file (s : Slot) : FileId := s.remote.fileId

/-- Entries that the loop passes with a warning. -/
def isUnknown (remote : RemoteFile) : Bool :=
  decide (remote.documentType = .unknown) || decide (remote.compression = .unknown)

/-- `_within_range`. -/
def withinRange (scope : CollectionScope) (remote : RemoteFile) : Bool :=
  match scope.rangeSince, scope.rangeUntil with
  | none, none => true
  | since, till =>
    match remote.sourceTimestamp with
    | none => false
    | some timestamp =>
      since.all (fun lower => decide (lower ≤ timestamp)) &&
        till.all (fun upper => decide (timestamp ≤ upper))

/-- `_validate_remote_scope` accepts the file. -/
def inSourceScope (config : Config) (scope : CollectionScope) (remote : RemoteFile) : Bool :=
  decide (remote.retailerId = config.sourceId) && decide (remote.portalId ∈ scope.portalIds)

def sourceResponse (message : String) : Failure := ⟨.sourceResponse, message, 0⟩

/-- The next cursor of a page, if the page may be followed by another one. -/
def followingCursor (start : Cursor) (seen : List String) (value : Cursor) :
    Except Failure String :=
  match value with
  | none => .error (sourceResponse "Source repeated or omitted its discovery cursor")
  | some cursor =>
    if some cursor = start ∨ cursor ∈ seen then
      .error (sourceResponse "Source repeated or omitted its discovery cursor")
    else if 1 ≤ cursor.utf8ByteSize ∧ cursor.utf8ByteSize ≤ 8192 then .ok cursor
    else .error (sourceResponse "Source discovery cursor is empty or exceeds 8192 bytes")

/-! ## State -/

/-- A call of `ingest` or `archive_only`, at the boundary it was made from. -/
structure Call where
  attempt : AttemptId
  cursor : Cursor
  index : Nat
  file : FileId
  deriving DecidableEq, Repr

/-- What an attempt has done last: it has begun, it has called the ingestion of a file, or it has
advanced, past a file or to another page. -/
inductive Progress
  | begun
  | called (file : FileId)
  | passed
  | turned
  deriving DecidableEq, Repr

/-- What was the case when an attempt began: the files, the latest attempt of the generation, that
attempt's last call and what it has done last. -/
structure Start where
  files : Files
  prior : Option Attempt
  lastCall : Option Call
  progress : Option Progress

/-- A file that a checkpoint passed, with its status then. -/
structure Pass where
  scope : CollectionScope
  file : FileId
  status : Option IngestionStatus
  deriving DecidableEq

structure History where
  calls : List Call
  starts : AttemptId → Option Start
  passes : List Pass
  progress : AttemptId → Option Progress

/-- The durable state of one source. -/
structure Shared where
  life : Lifecycle
  traversals : Traversals
  ledger : Ledger
  clock : Time
  /-- The files whose catalog bootstrap has committed. -/
  catalog : List FileId
  history : History

def Shared.files (s : Shared) : Files := s.life.store.files

def Shared.start (clock : Time) : Shared where
  life := .empty
  traversals := .empty
  ledger := .empty
  clock := clock
  catalog := []
  history := ⟨[], fun _ => none, [], fun _ => none⟩

/-- The operation a collector awaits. The `budget` operations belong to the handler of
`ChargeBudgetExceededError`, the `error` operations to the handler of every other exception;
`pending` is its `boundary_was_pending`. -/
inductive CollectorPc
  | begin
  | discover
  | head (page : DiscoveryPage) (index : Nat)
  | advanceUnknown (s : Slot)
  | checkTerminal (s : Slot)
  | advanceSkip (s : Slot)
  | chargeBudget (s : Slot) (alreadyTerminal : Bool)
  | register (s : Slot) (reserved : Nat) (retrying : Bool)
  | reserve (s : Slot) (reserved : Nat) (retrying : Bool)
  | call (s : Slot) (reserved : Nat) (retrying : Bool)
  | process (s : Slot)
  | settle (s : Slot) (result : IngestionResult)
  | bootstrap (s : Slot) (result : IngestionResult) (budget : ChargeBudget)
  | noteTerminal (s : Slot) (budget : ChargeBudget)
  | advanceDone (s : Slot) (budget : ChargeBudget)
  | budgetSettle (s : Slot) (transferred : Nat)
  | budgetObserve
  | errorSettle (s : Slot) (transferred : Nat) (pending : Bool)
  | errorCheck (s : Slot)
  | errorAdvance (s : Slot)
  | errorObserve
  | advancePage (page : DiscoveryPage)
  | finish (status : FinishStatus)
  | returned
  deriving DecidableEq

/-- The local state of `_collect_with_context`. -/
structure Collector where
  owner : ProcessId
  scope : CollectionScope
  attempt : CollectionAttempt
  cursor : Cursor
  pageOffset : Nat
  retryBoundary : Bool
  seenCursors : List String
  discovered : Nat
  ingested : Nat
  traversalComplete : Bool
  pc : CollectorPc

def Collector.start (p : ProcessId) (scope : CollectionScope) : Collector where
  owner := p
  scope := scope
  attempt := ⟨0, 0, none, 0, 0, 0, false⟩
  cursor := none
  pageOffset := 0
  retryBoundary := false
  seenCursors := []
  discovered := 0
  ingested := 0
  traversalComplete := false
  pc := .begin

def Collector.attemptId (c : Collector) : AttemptId := c.attempt.attemptId

/-- The regular answer to an awaited operation. -/
inductive CollectorInput
  | done
  | page (page : DiscoveryPage)
  | readings (r : Readings)

/-! ## Durable operations of a collector -/

namespace Shared

/-- An advance within a page, past one listed file. -/
def advanceFile (c : Collector) (slot : Slot) (recognizedDelta unknownDelta : Nat) (s : Shared) :
    Except Failure (Shared × CollectionAttempt) :=
  (s.traversals.advanceAttempt c.attemptId c.cursor slot.index c.cursor (slot.index + 1)
    recognizedDelta unknownDelta).map fun (traversals, attempt) =>
      ({ s with
        traversals := traversals
        history := { s.history with
          passes := ⟨c.scope, slot.file, statusOf s.files slot.file⟩ :: s.history.passes
          progress := Function.update s.history.progress c.attemptId (some .passed) } },
        attempt)

/-- An advance to the start of a page. -/
def advanceTo (c : Collector) (length : Nat) (cursor : Cursor) (s : Shared) :
    Except Failure (Shared × CollectionAttempt) :=
  (s.traversals.advanceAttempt c.attemptId c.cursor length cursor 0 0 0).map
    fun (traversals, attempt) =>
      ({ s with
        traversals := traversals
        history := { s.history with
          progress := Function.update s.history.progress c.attemptId (some .turned) } }, attempt)

/-- A call on the ledger, by a running attempt and not before the clock. -/
def charge (config : Config) (c : Collector) (call : ChargeCall) (r : Readings) (s : Shared) :
    Option (Except Failure (Shared × ChargeBudget)) :=
  if s.clock ≤ r.locked then
    some (s.traversals.lockedRunning c.attemptId >>= fun _ =>
      (call.run config.sourceId s.files r s.ledger).map fun (l, budget) =>
        ({ s with ledger := l, clock := r.relocked }, budget))
  else none

/-- `begin_attempt`, with the record of what the attempt starts from. -/
def begin (scope : CollectionScope) (s : Shared) : Shared × CollectionAttempt :=
  let started := s.traversals.beginAttempt scope
  let prior := s.traversals.prior scope (s.traversals.current scope).generation
  ({ s with
    traversals := started.1
    history := { s.history with
      starts := Function.update s.history.starts started.2.attemptId
        (some ⟨s.files, prior,
          prior.bind fun a => s.history.calls.find? fun call => decide (call.attempt = a.id),
          prior.bind fun a => s.history.progress a.id⟩)
      progress := Function.update s.history.progress started.2.attemptId (some .begun) } },
    started.2)

/-- The start of the ingest call of a collector. -/
def startCall (c : Collector) (slot : Slot) (limit : Option Nat) (s : Shared) : Option Shared :=
  (s.life.start c.owner slot.remote c.scope.archiveOnly limit).map fun life =>
    { s with
      life := life
      history := { s.history with
        calls := ⟨c.attemptId, c.cursor, slot.index, slot.file⟩ :: s.history.calls
        progress :=
          Function.update s.history.progress c.attemptId (some (.called slot.file)) } }

/-- A committed catalog bootstrap. -/
def bootstrapped (f : FileId) (s : Shared) : Shared := { s with catalog := f :: s.catalog }

end Shared

/-! ## The program -/

def Collector.goto (c : Collector) (pc : CollectorPc) : Collector := { c with pc := pc }

/-- Leave the `try` block around an ingest call by an exception. -/
def Collector.raise (c : Collector) (s : Slot) (e : Failure) (pending : Bool) : Collector :=
  if e.kind = .chargeBudgetExceeded then c.goto (.budgetSettle s e.transferredBytes)
  else if e.kind.isMakolet then c.goto (.errorSettle s e.transferredBytes pending)
  else if pending then c.goto .errorObserve
  else c.goto (.errorCheck s)

/-- The loop head: the next listed file, or the end of the page. -/
def Collector.select (config : Config) (c : Collector) (page : DiscoveryPage) (index : Nat) :
    Except Failure Collector :=
  match h : page.files[index]? with
  | none => .ok (c.goto (.advancePage page))
  | some remote =>
    let slot : Slot := ⟨page, index, remote, h⟩
    if config.policy.maximumDiscoveryRecordsPerSourceRun ≤ c.discovered then
      .ok (c.goto (.finish .bounded))
    else if ¬ inSourceScope config c.scope remote then
      .error (sourceResponse
        "Source returned a file outside its durable retailer and portal generation")
    else if isUnknown remote then .ok (c.goto (.advanceUnknown slot))
    else .ok (c.goto (.checkTerminal slot))

/-- The skip decision. -/
def Collector.decide (config : Config) (c : Collector) (slot : Slot) (alreadyTerminal : Bool) :
    Collector :=
  if ¬ withinRange c.scope slot.remote ∨ (alreadyTerminal ∧ ¬ c.retryBoundary) then
    c.goto (.advanceSkip slot)
  else if config.policy.maximumFilesPerSourceRun ≤ c.ingested then c.goto (.finish .bounded)
  else c.goto (.chargeBudget slot alreadyTerminal)

/-- The reservation that the budget allows, or the end of the run. -/
def Collector.budgeted (config : Config) (c : Collector) (slot : Slot) (alreadyTerminal : Bool)
    (budget : ChargeBudget) : Collector :=
  let retrying := alreadyTerminal && c.retryBoundary
  let remaining := config.policy.remainingBytes budget
  if config.policy.budgetReached budget ∧ ¬ retrying then c.goto (.finish .bounded)
  else if remaining ≤ config.policy.maximumTransferChunkBytes ∧ ¬ retrying then
    c.goto (.finish .bounded)
  else
    let reserved := if retrying then 0
      else (min remaining (config.policy.fullReservation slot.remote.protocol)).toNat
    c.goto (.register slot reserved retrying)

/-- `maximum_charged_bytes` of the ingest call. -/
def Config.ingestionByteLimit (config : Config) (reserved : Nat) (retrying : Bool) : Option Nat :=
  if retrying then none else some (reserved - config.policy.maximumTransferChunkBytes)

/-- The collector after an advance past a listed file. -/
def Collector.advanced (c : Collector) (attempt : CollectionAttempt) (pc : CollectorPc) :
    Collector :=
  { c with
    attempt := attempt
    retryBoundary := false
    discovered := c.discovered + 1
    pc := pc }

/-- The end of a page: where the traversal goes on and how. -/
def Collector.turnPage (config : Config) (c : Collector) (page : DiscoveryPage) (s : Shared) :
    Except Failure (Shared × Collector) :=
  match page.nextCursor with
  | none =>
    require (page.complete = true)
        (sourceResponse "Source marked discovery incomplete without a continuation cursor") >>=
      fun _ => (s.advanceTo c page.files.length none).map fun (s', attempt) =>
        (s', { c with
          attempt := attempt
          traversalComplete := true
          -- A generation of unknown entries only fails closed.
          pc := if attempt.recognizedCount = 0 ∧ 0 < attempt.unknownCount then .finish .failed
            else .finish .completed })
  | some value =>
    followingCursor c.cursor c.seenCursors value >>= fun cursor =>
      (s.advanceTo c page.files.length (some cursor)).map fun (s', attempt) =>
        (s', { c with
          attempt := attempt
          cursor := some cursor
          pageOffset := 0
          seenCursors := cursor :: c.seenCursors
          pc := if config.policy.maximumFilesPerSourceRun ≤ c.ingested ∨
              config.policy.maximumDiscoveryRecordsPerSourceRun ≤ c.discovered then
              .finish .bounded
            else .discover })

/-- The page checks before the loop over its files. -/
def Collector.open (c : Collector) (page : DiscoveryPage) : Except Failure Collector :=
  require (c.pageOffset ≤ page.files.length)
      (sourceResponse "Durable discovery offset is beyond the publisher page") >>= fun _ =>
    require (page.files ≠ [] ∨ page.nextCursor = none)
        (sourceResponse "Source returned an empty non-terminal discovery page") >>= fun _ =>
      .ok (c.goto (.head page c.pageOffset))

def cannotAdvance : Failure :=
  ⟨.persistenceConflict, "Collection cannot advance before source-file state is durably terminal", 0⟩

/-- The awaited operations. -/
def Collector.act (config : Config) (s : Shared) (c : Collector) (input : CollectorInput) :
    Option (Except Failure (Shared × Collector)) :=
  match c.pc, input with
  | .begin, .done =>
    let started := s.begin c.scope
    some (.ok (started.1, { c with
      attempt := started.2
      cursor := started.2.cursor
      pageOffset := started.2.pageOffset
      retryBoundary := started.2.retryBoundary
      pc := .discover }))
  | .discover, .page page => some ((c.open page).map fun c' => (s, c'))
  | .head page index, .done => some ((c.select config page index).map fun c' => (s, c'))
  | .advanceUnknown slot, .done =>
    some ((s.advanceFile c slot 0 1).map fun (s', attempt) =>
      (s', c.advanced attempt (.head slot.page (slot.index + 1))))
  | .checkTerminal slot, .done =>
    some (.ok (s, c.decide config slot (isTerminal s.files slot.file c.scope.archiveOnly)))
  | .advanceSkip slot, .done =>
    some ((s.advanceFile c slot 1 0).map fun (s', attempt) =>
      (s', c.advanced attempt (.head slot.page (slot.index + 1))))
  | .chargeBudget slot alreadyTerminal, .readings r =>
    (s.charge config c (.chargeBudget c.attemptId) r).map fun result =>
      result.map fun (s', budget) => (s', c.budgeted config slot alreadyTerminal budget)
  | .register slot reserved retrying, .done =>
    some ((s.life.register slot.remote).map fun life =>
      ({ s with life := life }, c.goto (.reserve slot reserved retrying)))
  | .reserve slot reserved retrying, .readings r =>
    (s.charge config c (.reserve c.attemptId slot.remote reserved) r).map fun result =>
      result.map fun (s', _) => (s', c.goto (.call slot reserved retrying))
  | .call slot reserved retrying, .done =>
    (s.startCall c slot (config.ingestionByteLimit reserved retrying)).map fun s' =>
      .ok (s', c.goto (.process slot))
  | .process slot, .done =>
    match s.life.ingests c.owner with
    | some ⟨_, _, _, _, _, .returned (.result result)⟩ => some (.ok (s, c.goto (.settle slot result)))
    | some ⟨_, _, _, _, _, .returned (.raised e)⟩ => some (.ok (s, c.raise slot e false))
    | _ => none
  | .settle slot result, .readings r =>
    (s.charge config c (.settle c.attemptId slot.remote result.transferredBytes) r).map fun res =>
      res.map fun (s', budget) =>
        (s', if c.scope.archiveOnly then
            { c with ingested := c.ingested + 1, pc := .noteTerminal slot budget }
          else c.goto (.bootstrap slot result budget))
  | .bootstrap slot result budget, .done =>
    some (.ok (if result.status = .completed then s.bootstrapped slot.file else s,
      { c with ingested := c.ingested + 1, pc := .noteTerminal slot budget }))
  | .noteTerminal slot budget, .done =>
    some (require (isTerminal s.files slot.file c.scope.archiveOnly = true) cannotAdvance >>=
      fun _ => .ok (s, c.goto (.advanceDone slot budget)))
  | .advanceDone slot budget, .done =>
    some ((s.advanceFile c slot 1 0).map fun (s', attempt) =>
      (s', c.advanced attempt (if config.policy.budgetReached budget then .finish .bounded
        else .head slot.page (slot.index + 1))))
  | .budgetSettle slot transferred, .readings r =>
    (s.charge config c (.settle c.attemptId slot.remote transferred) r).map fun res =>
      res.map fun (s', _) => (s', c.goto .budgetObserve)
  | .budgetObserve, .done =>
    some ((s.traversals.observeAttempt c.attemptId).map fun _ => (s, c.goto (.finish .bounded)))
  | .errorSettle slot transferred pending, .readings r =>
    (s.charge config c (.settle c.attemptId slot.remote transferred) r).map fun res =>
      res.map fun (s', _) => (s', c.goto (if pending then .errorObserve else .errorCheck slot))
  | .errorCheck slot, .done =>
    some (.ok (s, c.goto (if isTerminal s.files slot.file c.scope.archiveOnly then
      .errorAdvance slot else .errorObserve)))
  | .errorAdvance slot, .done =>
    some ((s.advanceFile c slot 1 0).map fun (s', attempt) =>
      (s', c.advanced attempt (.finish .failed)))
  | .errorObserve, .done =>
    some ((s.traversals.observeAttempt c.attemptId).map fun _ => (s, c.goto (.finish .failed)))
  | .advancePage page, .done => some (c.turnPage config page s)
  | .finish status, .done =>
    some ((s.traversals.finishAttempt c.attemptId status c.traversalComplete).map
      fun traversals => ({ s with traversals := traversals }, c.goto .returned))
  | _, _ => none

/-- Where an exception at the awaited operation leads. -/
def Collector.handle (c : Collector) (e : Failure) : Option Collector :=
  match c.pc with
  | .begin | .finish _ => some (c.goto .returned)
  | .discover | .head _ _ =>
    some (c.goto (.finish (if e.kind = .discoveryBudgetExceeded then .bounded else .failed)))
  | .call _ _ _ | .process _ | .returned => none
  | .settle slot _ | .noteTerminal slot _ => some (c.raise slot e false)
  | .bootstrap slot _ _ => some (c.raise slot e true)
  | _ => some (c.goto (.finish .failed))

def collectorProgram (config : Config) :
    Program Shared Collector CollectorInput Fault Failure where
  act := Collector.act config
  raised := Fault.failure
  handle := Collector.handle

/-! ## What an operation did -/

/-- The file that an awaited advance passes. -/
def CollectorPc.advances : CollectorPc → Option Slot
  | .advanceUnknown slot | .advanceSkip slot | .advanceDone slot _ | .errorAdvance slot => some slot
  | _ => none

/-- The file and the bytes that an awaited settlement is about. -/
def CollectorPc.settles : CollectorPc → Option (Slot × Nat)
  | .settle slot result => some (slot, result.transferredBytes)
  | .budgetSettle slot transferred | .errorSettle slot transferred _ => some (slot, transferred)
  | _ => none

/-- The collector that a settlement leads to. -/
def Collector.settledBy (c : Collector) (budget : ChargeBudget) : CollectorPc → Collector
  | .settle slot result =>
    if c.scope.archiveOnly then
      { c with ingested := c.ingested + 1, pc := .noteTerminal slot budget }
    else c.goto (.bootstrap slot result budget)
  | .budgetSettle _ _ => c.goto .budgetObserve
  | .errorSettle slot _ pending => c.goto (if pending then .errorObserve else .errorCheck slot)
  | _ => c

/-- Where an advance leads within the loop. -/
inductive CollectorPc.AfterAdvance : CollectorPc → CollectorPc → Prop
  | unknown {slot : Slot} :
      AfterAdvance (.advanceUnknown slot) (.head slot.page (slot.index + 1))
  | skip {slot : Slot} : AfterAdvance (.advanceSkip slot) (.head slot.page (slot.index + 1))
  | done {slot : Slot} {budget : ChargeBudget} :
      AfterAdvance (.advanceDone slot budget) (.head slot.page (slot.index + 1))
  | bounded {slot : Slot} {budget : ChargeBudget} :
      AfterAdvance (.advanceDone slot budget) (.finish .bounded)
  | error {slot : Slot} : AfterAdvance (.errorAdvance slot) (.finish .failed)

/-- The committed operations of a collector, by the operation it awaited. -/
inductive Collector.Acts (config : Config) (s : Shared) (c : Collector) :
    CollectorPc → Shared → Collector → Prop
  | begin : Acts config s c .begin (s.begin c.scope).1 { c with
      attempt := (s.begin c.scope).2
      cursor := (s.begin c.scope).2.cursor
      pageOffset := (s.begin c.scope).2.pageOffset
      retryBoundary := (s.begin c.scope).2.retryBoundary
      pc := .discover }
  | discover {page : DiscoveryPage} (hoffset : c.pageOffset ≤ page.files.length) :
      Acts config s c .discover s (c.goto (.head page c.pageOffset))
  | head {page : DiscoveryPage} {index : Nat} {c' : Collector}
      (h : c.select config page index = .ok c') : Acts config s c (.head page index) s c'
  | advance {pc next : CollectorPc} {slot : Slot} {recognized unknown : Nat} {s' : Shared}
      {attempt : CollectionAttempt} (hslot : pc.advances = some slot)
      (h : s.advanceFile c slot recognized unknown = .ok (s', attempt))
      (hnext : pc.AfterAdvance next) : Acts config s c pc s' (c.advanced attempt next)
  | checkTerminal {slot : Slot} : Acts config s c (.checkTerminal slot) s
      (c.decide config slot (isTerminal s.files slot.file c.scope.archiveOnly))
  | chargeBudget {slot : Slot} {alreadyTerminal : Bool} {r : Readings} {s' : Shared}
      {budget : ChargeBudget}
      (h : s.charge config c (.chargeBudget c.attemptId) r = some (.ok (s', budget))) :
      Acts config s c (.chargeBudget slot alreadyTerminal) s'
        (c.budgeted config slot alreadyTerminal budget)
  | register {slot : Slot} {reserved : Nat} {retrying : Bool} {life : Lifecycle}
      (h : s.life.register slot.remote = .ok life) :
      Acts config s c (.register slot reserved retrying) { s with life := life }
        (c.goto (.reserve slot reserved retrying))
  | reserve {slot : Slot} {reserved : Nat} {retrying : Bool} {r : Readings} {s' : Shared}
      {budget : ChargeBudget}
      (h : s.charge config c (.reserve c.attemptId slot.remote reserved) r =
        some (.ok (s', budget))) :
      Acts config s c (.reserve slot reserved retrying) s' (c.goto (.call slot reserved retrying))
  | call {slot : Slot} {reserved : Nat} {retrying : Bool} {s' : Shared}
      (h : s.startCall c slot (config.ingestionByteLimit reserved retrying) = some s') :
      Acts config s c (.call slot reserved retrying) s' (c.goto (.process slot))
  | processed {slot : Slot} {ingest : Ingest} {result : IngestionResult}
      (h : s.life.ingests c.owner = some ingest) (hpc : ingest.pc = .returned (.result result)) :
      Acts config s c (.process slot) s (c.goto (.settle slot result))
  | raised {slot : Slot} {ingest : Ingest} {e : Failure}
      (h : s.life.ingests c.owner = some ingest) (hpc : ingest.pc = .returned (.raised e)) :
      Acts config s c (.process slot) s (c.raise slot e false)
  | settle {pc : CollectorPc} {slot : Slot} {transferred : Nat} {r : Readings} {s' : Shared}
      {budget : ChargeBudget} (hpc : pc.settles = some (slot, transferred))
      (h : s.charge config c (.settle c.attemptId slot.remote transferred) r =
        some (.ok (s', budget))) : Acts config s c pc s' (c.settledBy budget pc)
  | bootstrap {slot : Slot} {result : IngestionResult} {budget : ChargeBudget} :
      Acts config s c (.bootstrap slot result budget)
        (if result.status = .completed then s.bootstrapped slot.file else s)
        { c with ingested := c.ingested + 1, pc := .noteTerminal slot budget }
  | noteTerminal {slot : Slot} {budget : ChargeBudget}
      (h : isTerminal s.files slot.file c.scope.archiveOnly = true) :
      Acts config s c (.noteTerminal slot budget) s (c.goto (.advanceDone slot budget))
  | observe {pc : CollectorPc} {status : FinishStatus} (hstatus : status ≠ .completed)
      (hpc : pc = .budgetObserve ∨ pc = .errorObserve) :
      Acts config s c pc s (c.goto (.finish status))
  | errorCheck {slot : Slot} : Acts config s c (.errorCheck slot) s
      (c.goto (if isTerminal s.files slot.file c.scope.archiveOnly then .errorAdvance slot
        else .errorObserve))
  | lastPage {page : DiscoveryPage} {s' : Shared} {attempt : CollectionAttempt}
      {status : FinishStatus} (h : s.advanceTo c page.files.length none = .ok (s', attempt)) :
      Acts config s c (.advancePage page) s' { c with
        attempt := attempt
        traversalComplete := true
        pc := .finish status }
  | nextPage {page : DiscoveryPage} {s' : Shared} {attempt : CollectionAttempt} {cursor : String}
      {pc : CollectorPc} (h : s.advanceTo c page.files.length (some cursor) = .ok (s', attempt))
      (hpc : pc = .discover ∨ pc = .finish .bounded) :
      Acts config s c (.advancePage page) s' { c with
        attempt := attempt
        cursor := some cursor
        pageOffset := 0
        seenCursors := cursor :: c.seenCursors
        pc := pc }
  | finish {status : FinishStatus} {traversals : Traversals}
      (h : s.traversals.finishAttempt c.attemptId status c.traversalComplete =
        .ok traversals) :
      Acts config s c (.finish status) { s with traversals := traversals } (c.goto .returned)

/-- A committed operation under a charge. -/
theorem map_charge_eq_some {s s' : Shared} {c c' : Collector} {config : Config} {call : ChargeCall}
    {r : Readings} {k : Shared × ChargeBudget → Collector}
    (h : (s.charge config c call r).map (fun result => result.map fun p => (p.1, k p)) =
      some (.ok (s', c'))) :
    ∃ budget, s.charge config c call r = some (.ok (s', budget)) ∧ c' = k (s', budget) := by
  obtain ⟨result, hcharge, hmap⟩ := Option.map_eq_some_iff.mp h
  obtain ⟨⟨s'', budget⟩, rfl, heq⟩ := map_eq_ok.mp hmap
  cases heq
  exact ⟨budget, hcharge, rfl⟩

theorem Collector.acts_of_act {config : Config} {s s' : Shared} {c c' : Collector}
    {input : CollectorInput} (h : c.act config s input = some (.ok (s', c'))) :
    c.Acts config s c.pc s' c' := by
  -- One branch for each program counter, in the order of the loop.
  unfold Collector.act at h
  split at h
  · rename_i hpc
    cases h
    exact hpc ▸ .begin
  · rename_i page hpc
    obtain ⟨c₁, hopen, heq⟩ := map_eq_ok.mp (Option.some.inj h)
    cases heq
    obtain ⟨hoffset, hopen⟩ := require_bind_eq_ok.mp hopen
    obtain ⟨-, hopen⟩ := require_bind_eq_ok.mp hopen
    cases hopen
    exact hpc ▸ .discover hoffset
  · rename_i page index hpc
    obtain ⟨c₁, hselect, heq⟩ := map_eq_ok.mp (Option.some.inj h)
    cases heq
    exact hpc ▸ .head hselect
  · rename_i slot hpc
    obtain ⟨⟨s₁, attempt⟩, hadvance, heq⟩ := map_eq_ok.mp (Option.some.inj h)
    cases heq
    exact hpc ▸ .advance rfl hadvance .unknown
  · rename_i slot hpc
    cases h
    exact hpc ▸ .checkTerminal
  · rename_i slot hpc
    obtain ⟨⟨s₁, attempt⟩, hadvance, heq⟩ := map_eq_ok.mp (Option.some.inj h)
    cases heq
    exact hpc ▸ .advance rfl hadvance .skip
  · rename_i slot alreadyTerminal r hpc
    obtain ⟨budget, hcharge, rfl⟩ := map_charge_eq_some h
    exact hpc ▸ .chargeBudget hcharge
  · rename_i slot reserved retrying hpc
    obtain ⟨life, hreg, heq⟩ := map_eq_ok.mp (Option.some.inj h)
    cases heq
    exact hpc ▸ .register hreg
  · rename_i slot reserved retrying r hpc
    obtain ⟨budget, hcharge, rfl⟩ := map_charge_eq_some h
    exact hpc ▸ .reserve hcharge
  · rename_i slot reserved retrying hpc
    obtain ⟨s₁, hstart, heq⟩ := Option.map_eq_some_iff.mp h
    cases heq
    exact hpc ▸ .call hstart
  · rename_i slot hpc
    split at h
    · rename_i hingest
      cases h
      exact hpc ▸ .processed hingest rfl
    · rename_i hingest
      cases h
      exact hpc ▸ .raised hingest rfl
    · cases h
  · rename_i slot result r hpc
    obtain ⟨budget, hcharge, rfl⟩ := map_charge_eq_some h
    exact hpc ▸ @Collector.Acts.settle config s c (.settle slot result) slot _ r s' budget rfl hcharge
  · rename_i slot result budget hpc
    cases h
    exact hpc ▸ .bootstrap
  · rename_i slot budget hpc
    obtain ⟨hterminal, heq⟩ := require_bind_eq_ok.mp (Option.some.inj h)
    cases heq
    exact hpc ▸ .noteTerminal hterminal
  · rename_i slot budget hpc
    obtain ⟨⟨s₁, attempt⟩, hadvance, heq⟩ := map_eq_ok.mp (Option.some.inj h)
    cases heq
    rw [hpc]
    split
    · exact .advance rfl hadvance .bounded
    · exact .advance rfl hadvance .done
  · rename_i slot transferred r hpc
    obtain ⟨budget, hcharge, rfl⟩ := map_charge_eq_some h
    exact hpc ▸ @Collector.Acts.settle config s c (.budgetSettle slot transferred) slot _ r s' budget
      rfl hcharge
  · rename_i hpc
    obtain ⟨-, -, heq⟩ := map_eq_ok.mp (Option.some.inj h)
    cases heq
    exact hpc ▸ .observe (by decide) (.inl rfl)
  · rename_i slot transferred pending r hpc
    obtain ⟨budget, hcharge, rfl⟩ := map_charge_eq_some h
    exact hpc ▸ @Collector.Acts.settle config s c (.errorSettle slot transferred pending) slot _ r s'
      budget rfl hcharge
  · rename_i slot hpc
    cases h
    exact hpc ▸ .errorCheck
  · rename_i slot hpc
    obtain ⟨⟨s₁, attempt⟩, hadvance, heq⟩ := map_eq_ok.mp (Option.some.inj h)
    cases heq
    exact hpc ▸ .advance rfl hadvance .error
  · rename_i hpc
    obtain ⟨-, -, heq⟩ := map_eq_ok.mp (Option.some.inj h)
    cases heq
    exact hpc ▸ .observe (by decide) (.inr rfl)
  · rename_i page hpc
    -- A page without a cursor is the last one: the run is completed, or failed if it knew no entry.
    have hturn := Option.some.inj h
    unfold Collector.turnPage at hturn
    rw [hpc]
    split at hturn
    · obtain ⟨-, hturn⟩ := require_bind_eq_ok.mp hturn
      obtain ⟨⟨s₁, attempt⟩, hadvance, heq⟩ := map_eq_ok.mp hturn
      cases heq
      split
      · exact .lastPage hadvance
      · exact .lastPage hadvance
    · obtain ⟨cursor, -, hturn⟩ := bind_eq_ok.mp hturn
      obtain ⟨⟨s₁, attempt⟩, hadvance, heq⟩ := map_eq_ok.mp hturn
      cases heq
      split
      · exact .nextPage hadvance (.inr rfl)
      · exact .nextPage hadvance (.inl rfl)
  · rename_i status hpc
    obtain ⟨traversals, hfinish, heq⟩ := map_eq_ok.mp (Option.some.inj h)
    cases heq
    exact hpc ▸ .finish hfinish
  · cases h

end Makolet.Collection
