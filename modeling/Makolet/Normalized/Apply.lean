import Makolet.Normalized.Promotions

/-!
# Source ordering and the apply transaction

`PostgresIngestionRepository.apply` outside a normalized rebuild: the checks on the source row, the
ordering check of every scope the file writes, the claim of the content, the write of the
document's family and the new watermarks. A raised failure leaves the normalized tables as they
were: an exception rolls the transaction back, and the quarantine path commits an issue row only.
-/

set_option autoImplicit false

namespace Makolet.Normalized

open Makolet.Domain Makolet.Lib

/-! ## Scopes -/

/-- The document family of a type that has one. -/
def family? : DocumentType → Option DocumentFamily
  | .stores => some .stores
  | .priceFull | .priceDelta => some .prices
  | .promotionFull | .promotionDelta => some .promotions
  | .unknown => none

/-- The scope of every staged record of a family. -/
def stagedScopes (s : Staging) : DocumentFamily → List Scope
  | .stores => s.stores.map fun r => ⟨r.subchainId, ""⟩
  | .prices => s.prices.map fun r => ⟨r.subchainId, r.sourceStoreId⟩
  | .promotions => s.promotions.map fun r => ⟨r.subchainId, r.sourceScopeStoreCode⟩

/-- The scope a document header names. -/
def headerScope (family : DocumentFamily) (d : StagedDocument) : Scope :=
  ⟨d.subchainId.getD "", match family with
    | .stores => ""
    | _ => d.storeId.getD ""⟩

/-- `_prepare_source_scopes`: the scopes of the records, else those of the headers, else the empty
scope. -/
def incomingScopes (family : DocumentFamily) (s : Staging) : List Scope :=
  let records := (stagedScopes s family).dedup
  if records ≠ [] then records
  else
    let headers := (s.documents.map (headerScope family)).dedup
    if headers ≠ [] then headers else [⟨"", ""⟩]

/-! ## Generated issues -/

/-- The issue counters of the running attempt. -/
structure IssueUsage where
  warnings : Nat
  rejectedRecords : Nat
  fileQuarantines : Nat
  validationIssueBytes : Nat
  sampledValidationIssues : Nat
  deriving DecidableEq, Repr

structure IssueLimits where
  maximumIssues : Nat
  maximumIssueBytes : Nat
  maximumEvidence : Nat
  deriving DecidableEq, Repr

/-- `validation_issue_charge` of an issue without a field and a rejected value. -/
def validationIssueCharge (code message : String) : Nat :=
  64 + (code.utf8ByteSize + message.utf8ByteSize)

/-- `_record_generated_issue`. -/
def recordGeneratedIssue (limits : IssueLimits) (severity : IssueSeverity) (code message : String)
    (usage : IssueUsage) : Except Failure IssueUsage := do
  let bytes := validationIssueCharge code message
  require (usage.warnings + usage.rejectedRecords + usage.fileQuarantines + 1 ≤
        limits.maximumIssues ∧
      usage.validationIssueBytes + bytes ≤ limits.maximumIssueBytes)
    ⟨.quarantinedFile, "Validation issue evidence exceeds the configured persistence limit", 0⟩
  let one := fun s => if severity = s then 1 else 0
  pure
    { warnings := usage.warnings + one .warning
      rejectedRecords := usage.rejectedRecords + one .recordRejection
      fileQuarantines := usage.fileQuarantines + one .fileQuarantine
      validationIssueBytes := usage.validationIssueBytes + bytes
      sampledValidationIssues := usage.sampledValidationIssues +
        (if usage.sampledValidationIssues < limits.maximumEvidence then 1 else 0) }

/-! ## The request -/

/-- The source row that `_lock_source_for_apply` reads. -/
structure SourceRow where
  retailerId : RetailerId
  portalId : PortalId
  documentType : DocumentType
  status : IngestionStatus
  sourceTimestamp : Option Time
  downloadFinishedAt : Option Time
  discoveredAt : Time
  contentSha256 : Option String
  deriving DecidableEq, Repr

/-- Everything one `apply` call reads besides the normalized tables. -/
structure ApplyRequest where
  sourceFileId : FileId
  documentType : DocumentType
  source : SourceRow
  staging : Staging
  /-- An unfinished replay of the file that belongs to no rebuild. -/
  replayActive : Bool
  /-- A normalized rebuild is active. -/
  rebuildActive : Bool
  wallClock : Time
  policy : SnapshotPolicy
  limits : IssueLimits
  usage : IssueUsage

/-- `MAXIMUM_FUTURE_SOURCE_SKEW`. -/
def maximumFutureSourceSkew : Duration := hours 24

/-- `SOURCE_STALENESS_WARNING_AGE`. -/
def sourceStalenessWarningAge : Duration := days 30

namespace ApplyRequest

variable (r : ApplyRequest)

def contentSha256 : String :=
  r.source.contentSha256.getD ""

/-- `download_finished_at or discovered_at`. -/
def observedAt : Time :=
  r.source.downloadFinishedAt.getD r.source.discoveredAt

/-- The header timestamps of the file. -/
def metadataTimes : List Time :=
  r.staging.documents.filterMap StagedDocument.sourceUpdatedAt

/-- The largest declared timestamp of the headers and the listing, else the observation time. -/
def effectiveTimestamp : Time :=
  ((r.metadataTimes ++ r.source.sourceTimestamp.toList).max?).getD r.observedAt

def watermarkKey (family : DocumentFamily) (scope : Scope) : WatermarkKey :=
  ⟨r.source.retailerId, r.source.portalId, family, scope⟩

/-- The keys of the watermarks the file sets. -/
def watermarkKeys (family : DocumentFamily) : List WatermarkKey :=
  (incomingScopes family r.staging).map (r.watermarkKey family)

end ApplyRequest

/-! ## Ordering -/

def watermarkOf (t : Tables) (k : WatermarkKey) : Option Watermark :=
  Table.lookup Watermark.key t.watermarks k

/-- The disagreement of a file with one existing watermark. -/
def orderingConflict (r : ApplyRequest) (w : Watermark) : Option (String × String) :=
  if r.effectiveTimestamp < w.effectiveSourceTimestamp then
    some ("source_timestamp_regression",
      "Source timestamp precedes current normalized state; archive it with " ++
      "--archive-only and run a normalized rebuild")
  else if r.effectiveTimestamp = w.effectiveSourceTimestamp ∧
      w.sourceContentSha256 ≠ r.contentSha256 then
    some ("source_timestamp_conflict",
      "Different source content claims the same scope timestamp")
  else none

/-- Why the ordering check quarantines a file, if it does. -/
def orderingQuarantine (r : ApplyRequest) (family : DocumentFamily) (t : Tables) :
    Option (String × String) :=
  if 1 < r.metadataTimes.dedup.length then
    some ("source_timestamp_conflict",
      "One source file declares conflicting effective timestamps")
  else if r.observedAt + maximumFutureSourceSkew < r.effectiveTimestamp then
    some ("source_timestamp_future", "Source timestamp is implausibly far in the future")
  else
    ((t.watermarks.filter fun w => decide (w.key ∈ r.watermarkKeys family)).findSome?
      (orderingConflict r))

/-- `_validate_source_ordering`, returning the quarantine and the issue counters. -/
def validateSourceOrdering (r : ApplyRequest) (family : DocumentFamily) (t : Tables) :
    Except Failure (Option (String × String) × IssueUsage) := do
  let usage ← (if r.metadataTimes = [] ∧ r.source.sourceTimestamp = none then
      recordGeneratedIssue r.limits .warning "source_timestamp_missing"
        "Source has no declared timestamp; archive attachment time is used for ordering" r.usage
    else pure r.usage)
  let quarantine := orderingQuarantine r family t
  let usage ← (if r.effectiveTimestamp < r.observedAt - sourceStalenessWarningAge then
      recordGeneratedIssue r.limits .warning "source_timestamp_stale"
        "Source timestamp is older than the configured freshness warning age" usage
    else pure usage)
  let usage ← (match quarantine with
    | some (code, message) => recordGeneratedIssue r.limits .fileQuarantine code message usage
    | none => pure usage)
  pure (quarantine, usage)

/-- `_advance_source_watermarks`. -/
def advanceSourceWatermarks (r : ApplyRequest) (family : DocumentFamily) (t : Tables) : Tables :=
  let watermarks := Table.upsert Watermark.key id
    (fun k => ⟨k, r.effectiveTimestamp, r.contentSha256, r.sourceFileId⟩)
    (fun old _ => { old with
      effectiveSourceTimestamp := r.effectiveTimestamp
      sourceContentSha256 := r.contentSha256
      sourceFileId := r.sourceFileId })
    t.watermarks (r.watermarkKeys family)
  { t with watermarks := watermarks }

/-! ## The claim and the transaction -/

/-- The claim of a file on the normalized state. -/
def claimOf (t : Tables) (f : FileId) : Option AppliedContent :=
  Table.lookup AppliedContent.sourceFileId t.appliedContents f

/-- `_claim_content`: an earlier claim keeps its instant; a replay without one uses the source's
own time, an ordinary apply the wall clock. -/
def claimContent (r : ApplyRequest) (t : Tables) : Tables × Time :=
  match claimOf t r.sourceFileId with
  | some claim => (t, claim.appliedAt)
  | none =>
    let appliedAt := if r.replayActive then r.effectiveTimestamp else r.wallClock
    ({ t with appliedContents := t.appliedContents ++
        [⟨r.sourceFileId, r.source.retailerId, r.source.portalId, r.documentType,
          r.contentSha256, appliedAt⟩] }, appliedAt)

/-- `_lock_source_for_apply`. -/
def lockSourceForApply (r : ApplyRequest) : Except Failure PUnit := do
  require (r.source.contentSha256 ≠ none)
    ⟨.persistenceNotFound, "Source file is missing or has not been archived", 0⟩
  require (r.source.documentType = r.documentType)
    ⟨.persistenceConflict, "Requested document type differs from discovery", 0⟩
  require (r.source.status ∈ [.applying, .completed] ∨ r.replayActive = true)
    ⟨.persistenceConflict, "Source file must be applying or have an active replay before apply; " ++
      "current status is " ++ r.source.status.value, 0⟩

/-- The document and its statements' parameters, once `applied_at` is known. -/
def ApplyRequest.documentApply (r : ApplyRequest) (appliedAt : Time) : DocumentApply where
  parameters := ⟨r.sourceFileId, r.source.retailerId, r.source.portalId, appliedAt⟩
  isFull := r.documentType.isFullSnapshot
  policy := r.policy
  staging := r.staging

/-- The write of one family. -/
def applyFamily (family : DocumentFamily) (a : DocumentApply) (t : Tables) :
    Except Failure (Tables × ApplySummary) :=
  match family with
  | .stores => applyStores a t
  | .prices => applyPrices a t
  | .promotions => applyPromotions a t

/-- The part of `apply` after the ordering check passed. -/
def writeDocument (r : ApplyRequest) (family : DocumentFamily) (t : Tables) :
    Except Failure (Tables × ApplySummary) := do
  let claimed := claimContent r t
  let written ← applyFamily family (r.documentApply claimed.2) claimed.1
  pure (advanceSourceWatermarks r family written.1, written.2)

/-- `PostgresIngestionRepository.apply`. -/
def apply (r : ApplyRequest) (t : Tables) : Except Failure (Tables × ApplySummary) := do
  let _ ← lockSourceForApply r
  require (r.rebuildActive = false)
    ⟨.maintenanceMode,
      "Normalized rebuild is active; ordinary ingestion is temporarily disabled", 0⟩
  match family? r.documentType with
  | none =>
    .error ⟨.snapshotValidation, "Unknown document types do not have source scopes", 0⟩
  | some family => do
    let checked ← validateSourceOrdering r family t
    match checked.1 with
    | some (_, message) => .error ⟨.quarantinedFile, message, 0⟩
    | none => writeDocument r family t

/-! ## What an accepted apply did -/

/-- The ordering check returns its decision, whatever it counts. -/
theorem validateSourceOrdering_quarantine {r : ApplyRequest} {family : DocumentFamily} {t : Tables}
    {checked : Option (String × String) × IssueUsage}
    (h : validateSourceOrdering r family t = .ok checked) :
    checked.1 = orderingQuarantine r family t := by
  obtain ⟨_, -, h⟩ := bind_eq_ok.mp h
  obtain ⟨_, -, h⟩ := bind_eq_ok.mp h
  obtain ⟨_, -, h⟩ := bind_eq_ok.mp h
  rw [pure_eq_ok] at h
  rw [← h]

/-- An accepted apply has a family, passed the ordering check and wrote its document. -/
theorem apply_eq_ok {r : ApplyRequest} {t t' : Tables} {summary : ApplySummary}
    (h : apply r t = .ok (t', summary)) :
    ∃ family, family? r.documentType = some family ∧ orderingQuarantine r family t = none ∧
      writeDocument r family t = .ok (t', summary) := by
  obtain ⟨-, -, h⟩ := bind_eq_ok.mp h
  obtain ⟨-, h⟩ := require_bind_eq_ok.mp h
  cases hfamily : family? r.documentType with
  | none => rw [hfamily] at h; cases h
  | some family =>
    rw [hfamily] at h
    obtain ⟨checked, hchecked, h⟩ := bind_eq_ok.mp h
    have hquarantine := validateSourceOrdering_quarantine hchecked
    refine ⟨family, rfl, ?_, ?_⟩
    · cases hc : checked.1 with
      | some q => rw [hc] at h; cases h
      | none => rw [← hquarantine, hc]
    · cases hc : checked.1 with
      | some q => rw [hc] at h; cases h
      | none => rw [hc] at h; exact h

theorem writeDocument_eq_ok {r : ApplyRequest} {family : DocumentFamily} {t t' : Tables}
    {summary : ApplySummary} (h : writeDocument r family t = .ok (t', summary)) :
    ∃ written, applyFamily family (r.documentApply (claimContent r t).2) (claimContent r t).1 =
        .ok (written, summary) ∧
      t' = advanceSourceWatermarks r family written := by
  obtain ⟨w, hw, h⟩ := bind_eq_ok.mp h
  rw [pure_eq_ok] at h
  cases h
  exact ⟨w.1, hw, rfl⟩

/-- A file that passed the ordering check is not older than any watermark it sets, and has the
content of one of the same instant. -/
theorem ordering_of_no_quarantine {r : ApplyRequest} {family : DocumentFamily} {t : Tables}
    (h : orderingQuarantine r family t = none) {k : WatermarkKey} {w : Watermark}
    (hk : k ∈ r.watermarkKeys family) (hw : watermarkOf t k = some w) :
    w.effectiveSourceTimestamp ≤ r.effectiveTimestamp ∧
      (w.effectiveSourceTimestamp = r.effectiveTimestamp →
        w.sourceContentSha256 = r.contentSha256) := by
  unfold orderingQuarantine at h
  split at h
  · cases h
  · split at h
    · cases h
    · rw [List.findSome?_eq_none_iff] at h
      have hmem : w ∈ t.watermarks.filter fun w => decide (w.key ∈ r.watermarkKeys family) := by
        rw [List.mem_filter, Table.key_of_lookup hw]
        exact ⟨Table.mem_of_lookup hw, decide_eq_true hk⟩
      have hnone := h w hmem
      unfold orderingConflict at hnone
      split at hnone
      · cases hnone
      · rename_i hlt
        split at hnone
        · cases hnone
        · rename_i hne
          refine ⟨Int.not_lt.mp hlt, fun heq => ?_⟩
          by_contra hsha
          exact hne ⟨heq.symm, hsha⟩

/-- The tables after a request; a refused one changes nothing. -/
def tablesAfter (r : ApplyRequest) (t : Tables) : Tables :=
  match apply r t with
  | .ok p => p.1
  | .error _ => t

theorem apply_tablesAfter {r : ApplyRequest} {t : Tables} (h : (apply r t).isOk = true) :
    ∃ summary, apply r t = .ok (tablesAfter r t, summary) := by
  unfold tablesAfter
  cases hx : apply r t with
  | error e => rw [hx] at h; cases h
  | ok p => exact ⟨p.2, rfl⟩

end Makolet.Normalized
