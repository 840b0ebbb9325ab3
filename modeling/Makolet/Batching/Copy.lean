import Makolet.Batching.Loop

/-!
# The rows of one `stage` call

`_copy_events` of the repository: the rows of every event are collected in one buffer for each table,
and a buffer is copied into its table when it is full, and at the end. A batch that fits the limits of
the loop is measured in the same rows, but for the issues that are counted and no longer sampled.
-/

set_option autoImplicit false

namespace Makolet.Batching

open Makolet.Domain Makolet.Lib
open Makolet.Normalized (FileId IssueUsage)
open Makolet.Parsing (StageSummary ValidationIssue noIssues)

/-! ## Rows -/

/-- The tables of `buffers`, in its order. -/
inductive StagingTable
  | documents
  | stores
  | prices
  | promotions
  | promotionItems
  | promotionStores
  | promotionClubs
  | validationIssues
  deriving DecidableEq, Repr

def stagingTables : List StagingTable :=
  [.documents, .stores, .prices, .promotions, .promotionItems, .promotionStores, .promotionClubs,
    .validationIssues]

abbrev Row := List Value

/-- The file, the attempt and the digest that the rows of a call are written with. -/
structure RowContext where
  sourceFileId : FileId
  ingestionRunId : Option Nat
  replayRunId : Option Nat
  /-- `_promotion_fingerprint`. -/
  promotionFingerprint : PromotionRecord → String

section Rows

open Value

/-- `_event_rows`. -/
def eventRows (c : RowContext) (metadataIndex : Nat) : ParsedRecord → StagingTable × List Row
  | .metadata r => (.documents, [uuid c.sourceFileId :: natural metadataIndex :: r.values])
  | .store r => (.stores, [uuid c.sourceFileId :: r.values])
  | .price r => (.prices,
      [[uuid c.sourceFileId, natural r.recordIndex, text r.chainId, text r.subchainId,
        text r.storeId, text r.itemCode,
        if isValidGtin r.itemCode.toList then text r.itemCode else Value.none,
        optional int r.itemType, text r.itemName, optional text r.manufacturerName,
        optional text r.manufacturerCountry, optional text r.manufacturerDescription,
        optional text r.unitQuantity, optional decimal r.quantity, optional text r.unitOfMeasure,
        optional bool r.isWeighted, optional decimal r.quantityInPackage, decimal r.itemPrice,
        optional decimal r.unitOfMeasurePrice, optional bool r.allowDiscount,
        optional int r.itemStatus, optional datetime r.priceUpdatedAt, optional datetime r.lastSaleAt,
        optional text r.auditNumber]])
  | .promotion r => (.promotions,
      [[uuid c.sourceFileId, natural r.recordIndex, text r.chainId, text r.subchainId,
        text (r.sourceStoreId.getD ""), text r.promotionId, optional text r.description,
        text (discountKindValue r.discountKind), optional datetime r.startsAt,
        optional datetime r.endsAt, optional int r.rewardType, optional bool r.allowsMultipleDiscounts,
        optional decimal r.minimumQuantity, optional decimal r.maximumQuantity,
        optional decimal r.discountRate, optional decimal r.minimumPurchase,
        optional decimal r.discountedPrice, optional decimal r.discountedUnitPrice,
        optional int r.minimumItemsOffered, optional text r.additionalRestrictions,
        optional text r.remarks, optional bool r.isActive, text (c.promotionFingerprint r)]])
  | .issue i => (.validationIssues,
      [uuid c.sourceFileId :: optional uuid c.ingestionRunId :: optional uuid c.replayRunId ::
        issueValues i])

/-- `_promotion_child_rows`, in the order of its dictionary. -/
def promotionChildRows (file : FileId) (r : PromotionRecord) : List (StagingTable × List Row) :=
  let parent (index : Nat) : Row := [uuid file, natural r.recordIndex, natural index]
  [(.promotionItems, r.items.mapIdx fun index item => parent index ++ item.values),
    (.promotionStores,
      (effectivePromotionStoreIds r).mapIdx fun index storeId => parent index ++ [text storeId]),
    (.promotionClubs, r.clubIds.mapIdx fun index clubId => parent index ++ [text clubId])]

end Rows

/-! ## Copying -/

/-- `COPY_BATCH_SIZE`. -/
def copyBatchSize : Nat := 5000

/-- The locals of `_copy_events`; `copied` lists the calls of `_copy_records`, the oldest first. -/
structure CopyState where
  buffers : StagingTable → List Row
  counts : StageSummary
  copied : List (StagingTable × List Row)

def CopyState.start : CopyState :=
  ⟨fun _ => [], ⟨0, 0, 0, 0, noIssues⟩, []⟩

/-- `buffers[table].extend(rows)`. -/
def CopyState.extend (s : CopyState) (rows : StagingTable × List Row) : CopyState :=
  { s with buffers := fun t => if t = rows.1 then s.buffers t ++ rows.2 else s.buffers t }

/-- The counters with one more event. -/
def countEvent (evidenceLimit : Nat) (counts : StageSummary) : ParsedRecord → StageSummary
  | .metadata _ => { counts with metadataRecords := counts.metadataRecords + 1 }
  | .store _ => { counts with storeRecords := counts.storeRecords + 1 }
  | .price _ => { counts with priceRecords := counts.priceRecords + 1 }
  | .promotion _ => { counts with promotionRecords := counts.promotionRecords + 1 }
  | .issue i =>
    let usage := counts.issues
    let one := fun severity => if i.severity = severity then 1 else 0
    { counts with
      issues :=
        { warnings := usage.warnings + one .warning
          rejectedRecords := usage.rejectedRecords + one .recordRejection
          fileQuarantines := usage.fileQuarantines + one .fileQuarantine
          validationIssueBytes := usage.validationIssueBytes + i.charge
          sampledValidationIssues := usage.sampledValidationIssues +
            if evidenceLimit ≤ usage.sampledValidationIssues then 0 else 1 } }

/-- The rows of one event. An issue behind the sample has none. -/
def rowsOfEvent (c : RowContext) (metadataIndex evidenceLimit : Nat) (counts : StageSummary)
    (event : ParsedEvent) : List (StagingTable × List Row) :=
  let rows := eventRows c (metadataIndex + counts.metadataRecords) event.record
  match event.record with
  | .issue _ =>
    if evidenceLimit ≤ counts.issues.sampledValidationIssues then [(rows.1, [])] else [rows]
  | .promotion r => rows :: promotionChildRows event.sourceFileId r
  | _ => [rows]

/-- Copy the buffers that are full enough and clear them. -/
def CopyState.flush (isFull : List Row → Bool) (s : CopyState) : CopyState :=
  let full := stagingTables.filter fun t => isFull (s.buffers t)
  { s with
    copied := s.copied ++ full.map fun t => (t, s.buffers t)
    buffers := fun t => if isFull (s.buffers t) then [] else s.buffers t }

def wrongSourceFile : Failure :=
  ⟨.persistenceConflict, "A parsed event belongs to a different source file", 0⟩

/-- The body of the loop of `_copy_events`. -/
def copyEvent (c : RowContext) (metadataIndex evidenceLimit : Nat) (s : CopyState)
    (event : ParsedEvent) : Except Failure CopyState := do
  require (event.sourceFileId = c.sourceFileId) wrongSourceFile
  let rows := rowsOfEvent c metadataIndex evidenceLimit s.counts event
  let s := rows.foldl CopyState.extend
    { s with counts := countEvent evidenceLimit s.counts event.record }
  pure (s.flush fun buffered => decide (copyBatchSize ≤ buffered.length))

/-- `_copy_events`. -/
def copyEvents (c : RowContext) (metadataIndex evidenceLimit : Nat) (events : List ParsedEvent) :
    Except Failure (StageSummary × List (StagingTable × List Row)) := do
  let s ← runList (copyEvent c metadataIndex evidenceLimit) .start events
  let s := s.flush fun buffered => !buffered.isEmpty
  pure (s.counts, s.copied)

/-! ## How many rows are written -/

def countRows (rows : List (StagingTable × List Row)) : Nat :=
  (rows.map fun r => r.2.length).sum

/-- The rows in the buffers. -/
def CopyState.buffered (s : CopyState) : Nat :=
  (stagingTables.map fun t => (s.buffers t).length).sum

/-- The rows in the tables and in the buffers. -/
def CopyState.rows (s : CopyState) : Nat :=
  countRows s.copied + s.buffered

/-- The issues of some events. -/
def countIssues (events : List ParsedEvent) : Nat :=
  events.countP fun event => event.issue?.isSome

/-- The rows that an event adds after `issues` issues. -/
def writtenRows (evidenceLimit issues : Nat) (event : ParsedEvent) : Nat :=
  if event.issue?.isSome ∧ evidenceLimit ≤ issues then 0 else stageUnits event

@[simp] theorem countRows_nil : countRows [] = 0 := rfl

@[simp] theorem countRows_cons (r : StagingTable × List Row) (rows : List (StagingTable × List Row)) :
    countRows (r :: rows) = r.2.length + countRows rows := by
  simp [countRows]

theorem countRows_append (a b : List (StagingTable × List Row)) :
    countRows (a ++ b) = countRows a + countRows b := by
  simp [countRows]

theorem CopyState.rows_extend (s : CopyState) (rows : StagingTable × List Row) :
    (s.extend rows).rows = s.rows + rows.2.length := by
  obtain ⟨t, rs⟩ := rows
  cases t <;> simp [CopyState.rows, buffered, extend, stagingTables] <;> omega

theorem CopyState.rows_foldl (rows : List (StagingTable × List Row)) :
    ∀ s : CopyState, (rows.foldl CopyState.extend s).rows = s.rows + countRows rows := by
  induction rows with
  | nil => exact fun s => rfl
  | cons r rest ih =>
    intro s
    rw [List.foldl_cons, ih, rows_extend, countRows_cons, Nat.add_assoc]

/-- What is taken from some lists and what is left of them. -/
theorem sum_taken_add_left {α : Type} (isTaken : α → Bool) (size : α → Nat) (xs : List α) :
    ((xs.filter isTaken).map size).sum + (xs.map fun x => if isTaken x then 0 else size x).sum =
      (xs.map size).sum := by
  induction xs with
  | nil => rfl
  | cons x rest ih =>
    rw [List.filter_cons]
    split_ifs with hx
    · simp only [List.map_cons, List.sum_cons, hx, if_true]
      omega
    · simp only [List.map_cons, List.sum_cons, hx, Bool.false_eq_true, if_false]
      omega

/-- Copying moves rows from the buffers into the tables. -/
theorem CopyState.rows_flush (isFull : List Row → Bool) (s : CopyState) :
    (s.flush isFull).rows = s.rows := by
  have hmoved := sum_taken_add_left (fun t => isFull (s.buffers t)) (fun t => (s.buffers t).length)
    stagingTables
  have hleft : (s.flush isFull).buffered =
      (stagingTables.map fun t => if isFull (s.buffers t) then 0 else (s.buffers t).length).sum := by
    simp only [buffered, flush, apply_ite List.length, List.length_nil]
  have hcopied : countRows (s.flush isFull).copied = countRows s.copied +
      ((stagingTables.filter fun t => isFull (s.buffers t)).map fun t => (s.buffers t).length).sum := by
    simp only [flush, countRows_append]
    simp only [countRows, List.map_map, Function.comp_def]
  rw [CopyState.rows, CopyState.rows, hleft, hcopied, buffered, ← hmoved, Nat.add_assoc]

/-- At the end the buffers are empty. -/
theorem CopyState.buffered_flush (s : CopyState) :
    (s.flush fun buffered => !buffered.isEmpty).buffered = 0 := by
  have hempty : ∀ t, (s.flush fun buffered => !buffered.isEmpty).buffers t = [] := by
    intro t
    show (if (!(s.buffers t).isEmpty) = true then [] else s.buffers t) = []
    cases s.buffers t <;> rfl
  simp [buffered, hempty]

/-- The rows of an event are its units, unless it is an issue behind the sample. -/
theorem countRows_rowsOfEvent (c : RowContext) (metadataIndex evidenceLimit : Nat)
    (counts : StageSummary) (event : ParsedEvent) :
    countRows (rowsOfEvent c metadataIndex evidenceLimit counts event) =
      writtenRows evidenceLimit counts.issues.sampledValidationIssues event := by
  obtain ⟨file, record⟩ := event
  cases record with
  | metadata r => rfl
  | store r => rfl
  | price r => rfl
  | promotion r =>
    simp [rowsOfEvent, writtenRows, ParsedEvent.issue?, stageUnits, promotionChildRows, eventRows]
    omega
  | issue i =>
    simp only [rowsOfEvent, writtenRows, ParsedEvent.issue?, stageUnits, eventRows, Option.isSome_some,
      true_and]
    split_ifs <;> rfl

/-! ## The rows of a batch -/

variable {c : RowContext} {evidenceLimit : Nat} {s : CopyState}

theorem sampled_countEvent (evidenceLimit : Nat) (counts : StageSummary) (event : ParsedEvent) :
    (countEvent evidenceLimit counts event.record).issues.sampledValidationIssues =
      counts.issues.sampledValidationIssues +
        if event.issue?.isSome ∧ counts.issues.sampledValidationIssues < evidenceLimit then 1
        else 0 := by
  obtain ⟨file, record⟩ := event
  cases record with
  | metadata r => rfl
  | store r => rfl
  | price r => rfl
  | promotion r => rfl
  | issue i =>
    simp only [countEvent, ParsedEvent.issue?, Option.isSome_some, true_and]
    split_ifs <;> omega

/-- The issues sampled after some issues, and the rows and the buffers at that point. -/
structure Copies (evidenceLimit : Nat) (done : List ParsedEvent) (s : CopyState) : Prop where
  sampled : s.counts.issues.sampledValidationIssues = min (countIssues done) evidenceLimit
  rows : s.rows + (countIssues done - evidenceLimit) = totalUnits done

theorem copies_start (evidenceLimit : Nat) : Copies evidenceLimit [] CopyState.start where
  sampled := (Nat.zero_min _).symm
  rows := by
    show 0 + (0 - evidenceLimit) = 0
    omega

theorem Copies.step (metadataIndex : Nat) {done : List ParsedEvent}
    (h : Copies evidenceLimit done s) {event : ParsedEvent} (hfile : event.sourceFileId = c.sourceFileId) :
    ∃ s', copyEvent c metadataIndex evidenceLimit s event = .ok s' ∧
      Copies evidenceLimit (done ++ [event]) s' := by
  refine ⟨_, require_bind_of hfile _, ?_, ?_⟩
  · -- Neither the buffers nor the copies change a counter.
    have hcounts : ∀ (rows : List (StagingTable × List Row)) (s : CopyState),
        (rows.foldl CopyState.extend s).counts = s.counts := by
      intro rows
      induction rows with
      | nil => exact fun s => rfl
      | cons r rest ih => exact fun s => ih (s.extend r)
    show ((rowsOfEvent c metadataIndex evidenceLimit s.counts event).foldl CopyState.extend
      _).counts.issues.sampledValidationIssues = _
    rw [hcounts]
    show (countEvent evidenceLimit s.counts event.record).issues.sampledValidationIssues = _
    rw [sampled_countEvent, h.sampled, countIssues, countIssues, List.countP_append,
      List.countP_singleton]
    by_cases hissue : event.issue?.isSome
    · simp only [hissue, true_and, if_true]
      split_ifs <;> omega
    · simp only [hissue, Bool.false_eq_true, false_and, if_false]
      omega
  · rw [CopyState.rows_flush, CopyState.rows_foldl, countRows_rowsOfEvent, h.sampled,
      totalUnits_append, totalUnits_singleton]
    have hrows := h.rows
    have hsame : ({ s with counts := countEvent evidenceLimit s.counts event.record } :
      CopyState).rows = s.rows := rfl
    rw [hsame, writtenRows]
    simp only [countIssues, List.countP_append, List.countP_singleton] at hrows ⊢
    by_cases hissue : event.issue?.isSome
    · have hone : stageUnits event = 1 := by
        obtain ⟨file, record⟩ := event
        cases record with
        | issue i => rfl
        | metadata r => rfl
        | store r => rfl
        | price r => rfl
        | promotion r => cases hissue
      simp only [hissue, true_and, if_true]
      split_ifs <;> omega
    · simp only [hissue, Bool.false_eq_true, false_and, if_false]
      omega

theorem Copies.run (metadataIndex : Nat) {events : List ParsedEvent} :
    ∀ {done : List ParsedEvent} {s : CopyState}, Copies evidenceLimit done s →
      (∀ e ∈ events, e.sourceFileId = c.sourceFileId) →
      ∃ s', runList (copyEvent c metadataIndex evidenceLimit) s events = .ok s' ∧
        Copies evidenceLimit (done ++ events) s' := by
  induction events with
  | nil => exact fun h _ => ⟨_, rfl, by rwa [List.append_nil]⟩
  | cons event rest ih =>
    intro done s h hfiles
    obtain ⟨s', hs', hstep⟩ := h.step metadataIndex (hfiles event List.mem_cons_self)
    obtain ⟨s'', hs'', hrest⟩ := ih hstep fun e he => hfiles e (List.mem_cons_of_mem _ he)
    rw [List.append_assoc] at hrest
    exact ⟨s'', by rw [runList, hs', ok_bind, hs''], hrest⟩

/-- A batch of one file is copied; its rows are its units without the issues behind the sample. -/
theorem countRows_copyEvents (c : RowContext) (metadataIndex evidenceLimit : Nat)
    {events : List ParsedEvent} (hfiles : ∀ e ∈ events, e.sourceFileId = c.sourceFileId) :
    ∃ counts copied, copyEvents c metadataIndex evidenceLimit events = .ok (counts, copied) ∧
      countRows copied + (countIssues events - evidenceLimit) = totalUnits events := by
  obtain ⟨s, hs, hcopies⟩ := (copies_start evidenceLimit).run metadataIndex hfiles
  refine ⟨_, _, by rw [copyEvents, hs, ok_bind]; rfl, ?_⟩
  have hrows := hcopies.rows
  have hflush := CopyState.rows_flush (fun buffered => !buffered.isEmpty) s
  rw [CopyState.rows, CopyState.buffered_flush, Nat.add_zero] at hflush
  rw [hflush]
  exact hrows

/-- The batches of the loop are the accepted events in their order; each of them fits the limits;
and the units are the rows that a batch writes, up to the issues that are no longer sampled. -/
theorem stage_batches_exact {σ : Type} (policy : StagePolicy) (stage : Stage σ)
    (events : List ParsedEvent) (ending : Option Failure) (repository : σ) :
    StagedExactly policy stage events ending
        (parseAndStage policy stage events ending repository) ∧
      (∀ (c : RowContext) (metadataIndex evidenceLimit : Nat) (counts : StageSummary)
        (event : ParsedEvent),
        countRows (rowsOfEvent c metadataIndex evidenceLimit counts event) =
          if event.issue?.isSome ∧ evidenceLimit ≤ counts.issues.sampledValidationIssues then 0
          else stageUnits event) ∧
      ∀ (c : RowContext) (metadataIndex evidenceLimit : Nat) (batch : List ParsedEvent),
        (∀ e ∈ batch, e.sourceFileId = c.sourceFileId) →
        ∃ counts copied, copyEvents c metadataIndex evidenceLimit batch = .ok (counts, copied) ∧
          countRows copied + (countIssues batch - evidenceLimit) = totalUnits batch := by
  refine ⟨stagedExactly_parseAndStage policy stage events ending repository, ?_, ?_⟩
  · exact fun c metadataIndex evidenceLimit counts event =>
      countRows_rowsOfEvent c metadataIndex evidenceLimit counts event
  · exact fun c metadataIndex evidenceLimit batch hfiles =>
      countRows_copyEvents c metadataIndex evidenceLimit hfiles

/-! ## A rejected event and a full sample -/

def twoRows : StagePolicy := ⟨2, 65536, 10, 4096⟩

/-- A repository that takes every batch and reports nothing. -/
def takeAll : Stage Unit := fun _ _ => .ok (⟨0, 0, 0, 0, noIssues⟩, ())

def plainContext : RowContext := ⟨1, some 7, none, fun r => r.promotionId⟩

def oneStore : ParsedEvent :=
  ⟨1, .store ⟨1, "7290", "1", "5", none, none, none, none, "Main", none, none, none⟩⟩

/-- Two stores and a club: four rows. -/
def widePromotion : ParsedEvent :=
  ⟨1, .promotion ⟨2, "7290", "1", some "6", "p", none, .unknown, none, none, [], ["5", "6"], ["1"],
    none, none, none, none, none, none, none, none, none, none, none, none⟩⟩

def oneWarning : ParsedEvent := ⟨1, .issue ⟨.warning, "code", "message", some 3, none, none⟩⟩

theorem stage_batches_exact_sample :
    StagedExactly twoRows takeAll [oneStore, widePromotion] none
        (parseAndStage twoRows takeAll [oneStore, widePromotion] none ()) ∧
      ∃ counts copied, copyEvents plainContext 0 1 [oneStore, widePromotion, oneWarning] =
          .ok (counts, copied) ∧
        countRows copied + (countIssues [oneStore, widePromotion, oneWarning] - 1) = 6 := by
  have hall := stage_batches_exact twoRows takeAll [oneStore, widePromotion] none ()
  exact ⟨hall.1, hall.2.2 plainContext 0 1 [oneStore, widePromotion, oneWarning] (by decide)⟩

/-- The store before a promotion of four rows is parsed and never staged, and of two warnings with
room for one the second is counted as one unit and writes no row. -/
theorem open_batch_dropped :
    (∃ r, parseAndStage twoRows takeAll [oneStore, widePromotion] none () = .error r ∧
      r.state.passed.flatten = [] ∧
      (acceptance twoRows ⟨0, 0⟩ [oneStore, widePromotion]).1 = [oneStore]) ∧
    (∃ counts copied, copyEvents plainContext 0 1 [oneWarning, oneWarning] = .ok (counts, copied) ∧
      countRows copied = 1 ∧ totalUnits [oneWarning, oneWarning] = 2) := by
  refine ⟨⟨_, rfl, rfl, rfl⟩, ?_⟩
  obtain ⟨counts, copied, hcopy, hrows⟩ := countRows_copyEvents plainContext 0 1
    (show ∀ e ∈ [oneWarning, oneWarning], e.sourceFileId = plainContext.sourceFileId by decide)
  have hunits : totalUnits [oneWarning, oneWarning] = 2 := rfl
  have hissues : countIssues [oneWarning, oneWarning] = 2 := rfl
  exact ⟨counts, copied, hcopy, by omega, hunits⟩

end Makolet.Batching
