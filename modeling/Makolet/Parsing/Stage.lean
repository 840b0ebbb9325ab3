import Mathlib.Algebra.GroupWithZero.Nat
import Makolet.Normalized.Apply

/-!
# Staging an attempt

`PostgresIngestionRepository.stage` and `finalize_staging`: the rows and issues of the parsed events,
the counters of the attempt with their limits, the sampled evidence, and the rejection of the
records that a later record of the file supersedes.

An attempt is an ingestion run or a replay run. Its rows stand in the staging tables of the file, its
counters in its own row, its evidence in `validation_issues`; `Staged` is the three together.
-/

set_option autoImplicit false

namespace Makolet.Parsing

open Makolet.Domain Makolet.Lib Makolet.Normalized

/-! ## Parsed events -/

structure ValidationIssue where
  severity : IssueSeverity
  code : String
  message : String
  recordIndex : Option Nat
  fieldName : Option String
  rejectedValue : Option String
  deriving DecidableEq, Repr

/-- `validation_issue_charge`. -/
def ValidationIssue.charge (i : ValidationIssue) : Nat :=
  64 + (i.code.utf8ByteSize + i.message.utf8ByteSize + i.fieldName.elim 0 String.utf8ByteSize +
    i.rejectedValue.elim 0 String.utf8ByteSize)

inductive ParsedEvent
  | metadata (document : StagedDocument)
  | store (record : StagedStore)
  | price (record : StagedPrice)
  | promotion (record : StagedPromotion)
  | issue (issue : ValidationIssue)
  deriving DecidableEq, Repr

namespace ParsedEvent

def document? : ParsedEvent → Option StagedDocument
  | metadata d => some d
  | _ => none

def store? : ParsedEvent → Option StagedStore
  | store r => some r
  | _ => none

def price? : ParsedEvent → Option StagedPrice
  | price r => some r
  | _ => none

def promotion? : ParsedEvent → Option StagedPromotion
  | promotion r => some r
  | _ => none

def issue? : ParsedEvent → Option ValidationIssue
  | issue i => some i
  | _ => none

end ParsedEvent

/-- The staging rows of some events, in their order. -/
def rowsOf (events : List ParsedEvent) : Staging where
  documents := events.filterMap ParsedEvent.document?
  stores := events.filterMap ParsedEvent.store?
  prices := events.filterMap ParsedEvent.price?
  promotions := events.filterMap ParsedEvent.promotion?

def issuesOf (events : List ParsedEvent) : List ValidationIssue :=
  events.filterMap ParsedEvent.issue?

/-! ## Counters -/

/-- `StageSummary`. -/
structure StageSummary where
  metadataRecords : Nat
  storeRecords : Nat
  priceRecords : Nat
  promotionRecords : Nat
  issues : IssueUsage
  deriving DecidableEq, Repr

def noIssues : IssueUsage := ⟨0, 0, 0, 0, 0⟩

/-- The rows of a staging with the issue counters beside them. -/
def countRows (rows : Staging) (issues : IssueUsage) : StageSummary :=
  ⟨rows.documents.length, rows.stores.length, rows.prices.length, rows.promotions.length, issues⟩

def countSeverity (severity : IssueSeverity) (issues : List ValidationIssue) : Nat :=
  issues.countP fun i => decide (i.severity = severity)

/-- The issue counters after some issues, of which at most `maximumEvidence` are sampled in all. -/
def addIssues (limits : IssueLimits) (issues : List ValidationIssue) (usage : IssueUsage) :
    IssueUsage where
  warnings := usage.warnings + countSeverity .warning issues
  rejectedRecords := usage.rejectedRecords + countSeverity .recordRejection issues
  fileQuarantines := usage.fileQuarantines + countSeverity .fileQuarantine issues
  validationIssueBytes := usage.validationIssueBytes + (issues.map ValidationIssue.charge).sum
  sampledValidationIssues := usage.sampledValidationIssues +
    min issues.length (limits.maximumEvidence - usage.sampledValidationIssues)

/-- The counters respect the persistence limits. -/
def Within (limits : IssueLimits) (usage : IssueUsage) : Prop :=
  usage.warnings + usage.rejectedRecords + usage.fileQuarantines ≤ limits.maximumIssues ∧
    usage.validationIssueBytes ≤ limits.maximumIssueBytes

instance (limits : IssueLimits) (usage : IssueUsage) : Decidable (Within limits usage) :=
  inferInstanceAs (Decidable (_ ∧ _))

def evidenceExceeded : Failure :=
  ⟨.quarantinedFile, "Validation issue evidence exceeds the configured persistence limit", 0⟩

/-- What the database says of a statement whose row limit is the remainder of a smaller maximum than
the sample already has. -/
def negativeLimit : Failure := ⟨.database, "LIMIT must not be negative", 0⟩

/-! ## Attempts -/

/-- What an attempt has staged: its rows, its counters and its evidence. -/
structure Staged where
  rows : Staging
  counts : StageSummary
  evidence : List ValidationIssue
  deriving DecidableEq, Repr

def Staged.empty : Staged :=
  ⟨.empty, countRows .empty noIssues, []⟩

/-- The evidence rows that some issues add. -/
def sampled (limits : IssueLimits) (issues : List ValidationIssue) (usage : IssueUsage) :
    List ValidationIssue :=
  issues.take (limits.maximumEvidence - usage.sampledValidationIssues)

/-- The attempt with the rows, counters and evidence of one more batch. -/
def Staged.withEvents (limits : IssueLimits) (events : List ParsedEvent) (a : Staged) : Staged :=
  let issues := issuesOf events
  let rows := rowsOf events
  { rows := ⟨a.rows.documents ++ rows.documents, a.rows.stores ++ rows.stores,
      a.rows.prices ++ rows.prices, a.rows.promotions ++ rows.promotions⟩
    counts := ⟨a.counts.metadataRecords + rows.documents.length,
      a.counts.storeRecords + rows.stores.length, a.counts.priceRecords + rows.prices.length,
      a.counts.promotionRecords + rows.promotions.length,
      addIssues limits issues a.counts.issues⟩
    evidence := a.evidence ++ sampled limits issues a.counts.issues }

/-- `stage` of one batch. -/
def stage (limits : IssueLimits) (events : List ParsedEvent) (a : Staged) : Except Failure Staged := do
  require (Within limits (a.withEvents limits events).counts.issues) evidenceExceeded
  pure (a.withEvents limits events)

/-! ## Superseded records -/

section Superseded

variable {α κ : Type} [DecidableEq κ] (key : α → κ) (index : α → Nat)

/-- A later row of the same key supersedes the row. -/
def isSuperseded (rows : List α) (r : α) : Bool :=
  rows.any fun q => decide (key q = key r ∧ index r < index q)

def superseded (rows : List α) : List α :=
  rows.filter (isSuperseded key index rows)

def surviving (rows : List α) : List α :=
  rows.filter fun r => !isSuperseded key index rows r

end Superseded

/-- `left(concat_ws('/', ...), 512)`. -/
def logicalKey (parts : List String) : String :=
  String.ofList (("/".intercalate parts).toList.take 512)

/-- The issue of a superseded record. -/
def duplicateIssue (index : Nat) (key : String) : ValidationIssue :=
  ⟨.recordRejection, "duplicate_logical_record",
    "A later record in this file supersedes the same logical key", some index,
    some "logical_identity", some key⟩

/-- The key of `_PROMOTION_INCOMING`. -/
def stagedPromotionKey (r : StagedPromotion) : String × String × String :=
  (r.subchainId, r.sourcePromotionId, r.sourceScopeStoreCode)

/-- The superseded records of the document's own table, by record index. -/
def duplicateIssues (family : DocumentFamily) (rows : Staging) : List ValidationIssue :=
  let duplicates : List (Nat × String) := match family with
    | .stores => (superseded StagedStore.key StagedStore.recordIndex rows.stores).map fun r =>
        (r.recordIndex, logicalKey [r.subchainId, r.sourceStoreId])
    | .prices => (superseded StagedPrice.key StagedPrice.recordIndex rows.prices).map fun r =>
        (r.recordIndex, logicalKey [r.subchainId, r.sourceStoreId, r.sourceItemCode])
    | .promotions =>
      (superseded stagedPromotionKey StagedPromotion.recordIndex rows.promotions).map fun r =>
        (r.recordIndex, logicalKey [r.subchainId, r.sourceScopeStoreCode, r.sourcePromotionId])
  (duplicates.insertionSort fun a b => a.1 ≤ b.1).map fun d => duplicateIssue d.1 d.2

/-- The rows without the superseded records. -/
def withoutDuplicates (family : DocumentFamily) (rows : Staging) : Staging :=
  match family with
  | .stores => { rows with stores := surviving StagedStore.key StagedStore.recordIndex rows.stores }
  | .prices => { rows with prices := surviving StagedPrice.key StagedPrice.recordIndex rows.prices }
  | .promotions =>
    { rows with promotions :=
        surviving stagedPromotionKey StagedPromotion.recordIndex rows.promotions }

/-- `finalize_staging`. A document of no family has no records to compare. -/
def finalizeStaging (limits : IssueLimits) (documentType : DocumentType) (a : Staged) :
    Except Failure Staged :=
  match family? documentType with
  | none => pure { a with counts := countRows a.rows a.counts.issues }
  | some family => do
    let issues := duplicateIssues family a.rows
    let usage := addIssues limits issues a.counts.issues
    require (Within limits usage) evidenceExceeded
    -- `stage` takes `max(0, ...)` of the same difference.
    require (a.counts.issues.sampledValidationIssues ≤ limits.maximumEvidence) negativeLimit
    let rows := withoutDuplicates family a.rows
    pure ⟨rows, countRows rows usage, a.evidence ++ sampled limits issues a.counts.issues⟩

/-- What parsing some events and finalizing leaves of an attempt. -/
def stageAndFinalize (limits : IssueLimits) (documentType : DocumentType)
    (events : List ParsedEvent) : Except Failure Staged := do
  let staged ← stage limits events .empty
  finalizeStaging limits documentType staged

/-! ## Counters of several batches -/

@[simp] theorem rowsOf_nil : rowsOf [] = .empty := rfl

@[simp] theorem issuesOf_nil : issuesOf [] = [] := rfl

theorem issuesOf_append (a b : List ParsedEvent) :
    issuesOf (a ++ b) = issuesOf a ++ issuesOf b :=
  List.filterMap_append

@[simp] theorem addIssues_nil (limits : IssueLimits) (usage : IssueUsage) :
    addIssues limits [] usage = usage := by
  simp [addIssues, countSeverity]

@[simp] theorem sampled_nil (limits : IssueLimits) (usage : IssueUsage) :
    sampled limits [] usage = [] :=
  List.take_nil

theorem addIssues_append (limits : IssueLimits) (a b : List ValidationIssue) (usage : IssueUsage) :
    addIssues limits (a ++ b) usage = addIssues limits b (addIssues limits a usage) := by
  simp only [addIssues, countSeverity, List.countP_append, List.map_append, List.sum_append,
    List.length_append, IssueUsage.mk.injEq]
  refine ⟨?_, ?_, ?_, ?_, ?_⟩
  all_goals omega

/-- The evidence limit is shared by all batches of the attempt. -/
theorem sampled_append (limits : IssueLimits) (a b : List ValidationIssue) (usage : IssueUsage) :
    sampled limits (a ++ b) usage =
      sampled limits a usage ++ sampled limits b (addIssues limits a usage) := by
  have hleft : limits.maximumEvidence - usage.sampledValidationIssues - a.length =
      limits.maximumEvidence - (addIssues limits a usage).sampledValidationIssues := by
    simp only [addIssues]
    omega
  rw [sampled, sampled, sampled, List.take_append, hleft]

/-- Counters that respect the limits after more issues respected them before. -/
theorem Within.of_addIssues {limits : IssueLimits} {issues : List ValidationIssue}
    {usage : IssueUsage} (h : Within limits (addIssues limits issues usage)) :
    Within limits usage := by
  obtain ⟨hcount, hbytes⟩ := h
  simp only [addIssues] at hcount hbytes
  exact ⟨by omega, by omega⟩

theorem stage_eq_ok {limits : IssueLimits} {events : List ParsedEvent} {a b : Staged} :
    stage limits events a = .ok b ↔
      Within limits (a.withEvents limits events).counts.issues ∧ a.withEvents limits events = b := by
  rw [stage, require_bind_eq_ok, pure_eq_ok]

theorem withEvents_append (limits : IssueLimits) (a b : List ParsedEvent) (s : Staged) :
    s.withEvents limits (a ++ b) = (s.withEvents limits a).withEvents limits b := by
  simp only [Staged.withEvents, issuesOf_append, addIssues_append, sampled_append, rowsOf,
    List.filterMap_append, List.length_append, List.append_assoc, Nat.add_assoc]

/-- Two batches stage what one batch of all their events stages. -/
theorem stage_append (limits : IssueLimits) (a b : List ParsedEvent) (s : Staged) :
    stage limits (a ++ b) s = stage limits a s >>= stage limits b := by
  by_cases ha : Within limits (s.withEvents limits a).counts.issues
  · have hleft : stage limits a s = .ok (s.withEvents limits a) := stage_eq_ok.mpr ⟨ha, rfl⟩
    rw [hleft, stage, withEvents_append]
    rfl
  · have hab : ¬ Within limits (s.withEvents limits (a ++ b)).counts.issues := by
      intro h
      rw [withEvents_append] at h
      exact ha h.of_addIssues
    simp only [stage, require, if_neg ha, if_neg hab]
    rfl

/-- One more batch of an attempt that began empty. -/
theorem stage_batch {limits : IssueLimits} {done batch : List ParsedEvent} {a b : Staged}
    (ha : stage limits done .empty = .ok a) (hb : stage limits batch a = .ok b) :
    stage limits (done ++ batch) .empty = .ok b := by
  rw [stage_append, ha]
  exact hb

theorem stage_nil_empty (limits : IssueLimits) : stage limits [] .empty = .ok .empty := by
  refine stage_eq_ok.mpr ⟨⟨Nat.zero_le _, Nat.zero_le _⟩, ?_⟩
  simp only [Staged.withEvents, issuesOf_nil, addIssues_nil, sampled_nil]
  rfl

/-! ## A finalized attempt is final -/

section Superseded

variable {α κ : Type} [DecidableEq κ] (key : α → κ) (index : α → Nat)

/-- The surviving rows contain no row that supersedes another. -/
theorem isSuperseded_surviving {rows : List α} {r : α} (hr : r ∈ surviving key index rows) :
    isSuperseded key index (surviving key index rows) r = false := by
  rw [surviving, List.mem_filter, Bool.not_eq_true'] at hr
  by_contra h
  rw [Bool.not_eq_false, isSuperseded, List.any_eq_true] at h
  obtain ⟨q, hq, hlater⟩ := h
  have hin : isSuperseded key index rows r = true :=
    List.any_eq_true.mpr ⟨q, List.mem_of_mem_filter hq, hlater⟩
  rw [hin] at hr
  cases hr.2

theorem superseded_surviving (rows : List α) :
    superseded key index (surviving key index rows) = [] := by
  rw [superseded, List.filter_eq_nil_iff]
  intro r hr
  rw [isSuperseded_surviving key index hr]
  exact Bool.false_ne_true

theorem surviving_surviving (rows : List α) :
    surviving key index (surviving key index rows) = surviving key index rows := by
  conv_lhs => rw [surviving, List.filter_eq_self.mpr fun r hr => by
    rw [isSuperseded_surviving key index hr, Bool.not_false]]

end Superseded

theorem duplicateIssues_withoutDuplicates (family : DocumentFamily) (rows : Staging) :
    duplicateIssues family (withoutDuplicates family rows) = [] := by
  cases family with
  | stores => simp [duplicateIssues, withoutDuplicates, superseded_surviving]
  | prices => simp [duplicateIssues, withoutDuplicates, superseded_surviving]
  | promotions => simp [duplicateIssues, withoutDuplicates, superseded_surviving]

theorem withoutDuplicates_withoutDuplicates (family : DocumentFamily) (rows : Staging) :
    withoutDuplicates family (withoutDuplicates family rows) = withoutDuplicates family rows := by
  cases family with
  | stores => simp [withoutDuplicates, surviving_surviving]
  | prices => simp [withoutDuplicates, surviving_surviving]
  | promotions => simp [withoutDuplicates, surviving_surviving]

/-- The counters of a finalized attempt count its rows. -/
theorem counts_finalizeStaging {limits : IssueLimits} {documentType : DocumentType} {a b : Staged}
    (h : finalizeStaging limits documentType a = .ok b) :
    b.counts = countRows b.rows b.counts.issues := by
  unfold finalizeStaging at h
  split at h
  · rw [pure_eq_ok] at h
    subst h
    rfl
  · obtain ⟨-, h⟩ := require_bind_eq_ok.mp h
    obtain ⟨-, h⟩ := require_bind_eq_ok.mp h
    rw [pure_eq_ok] at h
    subst h
    rfl

/-- Only the rows, the issue counters and the evidence of an attempt matter to `finalizeStaging`. -/
theorem finalizeStaging_congr (limits : IssueLimits) (documentType : DocumentType) {a b : Staged}
    (hrows : a.rows = b.rows) (hissues : a.counts.issues = b.counts.issues)
    (hevidence : a.evidence = b.evidence) :
    finalizeStaging limits documentType a = finalizeStaging limits documentType b := by
  unfold finalizeStaging
  rw [hrows, hissues, hevidence]

/-- `finalize_staging` leaves a finalized attempt as it is. -/
theorem finalizeStaging_finalized {limits : IssueLimits} {documentType : DocumentType}
    {a b : Staged} (h : finalizeStaging limits documentType a = .ok b) :
    finalizeStaging limits documentType b = .ok b := by
  unfold finalizeStaging at h ⊢
  split at h
  · rw [pure_eq_ok] at h
    subst h
    rfl
  · rename_i family hfamily
    obtain ⟨hwithin, h⟩ := require_bind_eq_ok.mp h
    obtain ⟨hlimit, h⟩ := require_bind_eq_ok.mp h
    rw [pure_eq_ok] at h
    subst h
    simp only [duplicateIssues_withoutDuplicates, withoutDuplicates_withoutDuplicates,
      addIssues_nil, sampled_nil, List.append_nil]
    refine require_bind_eq_ok.mpr ⟨hwithin, require_bind_eq_ok.mpr ⟨?_, rfl⟩⟩
    show (addIssues limits _ a.counts.issues).sampledValidationIssues ≤ limits.maximumEvidence
    simp only [addIssues]
    omega

/-! ## The evidence of an attempt -/

/-- The evidence is as long as its counter says, and a sampled quarantine is a counted one. -/
structure Staged.Sampled (a : Staged) : Prop where
  length : a.evidence.length = a.counts.issues.sampledValidationIssues
  quarantines : ∀ i ∈ a.evidence, i.severity = .fileQuarantine →
    0 < a.counts.issues.fileQuarantines

theorem sampled_empty : Staged.empty.Sampled where
  length := rfl
  quarantines i hi := by cases hi

/-- More issues with their sample keep the evidence in step with the counters. -/
theorem Staged.Sampled.add {limits : IssueLimits} {issues : List ValidationIssue} {a b : Staged}
    (h : a.Sampled) (hissues : b.counts.issues = addIssues limits issues a.counts.issues)
    (hevidence : b.evidence = a.evidence ++ sampled limits issues a.counts.issues) :
    b.Sampled where
  length := by
    have hlength := h.length
    rw [hissues, hevidence, List.length_append, sampled, List.length_take]
    simp only [addIssues]
    omega
  quarantines := by
    intro i hi hseverity
    rw [hissues]
    rw [hevidence, List.mem_append] at hi
    rcases hi with hi | hi
    · exact Nat.lt_of_lt_of_le (h.quarantines i hi hseverity) (Nat.le_add_right _ _)
    · have hcount : 0 < countSeverity .fileQuarantine issues :=
        List.countP_pos_iff.mpr ⟨i, List.mem_of_mem_take hi, decide_eq_true hseverity⟩
      exact Nat.lt_of_lt_of_le hcount (Nat.le_add_left _ _)

theorem Staged.Sampled.stage {limits : IssueLimits} {events : List ParsedEvent} {a b : Staged}
    (h : a.Sampled) (hstage : stage limits events a = .ok b) : b.Sampled := by
  obtain ⟨-, rfl⟩ := stage_eq_ok.mp hstage
  exact h.add rfl rfl

theorem Staged.Sampled.finalize {limits : IssueLimits} {documentType : DocumentType} {a b : Staged}
    (h : a.Sampled) (hfinal : finalizeStaging limits documentType a = .ok b) : b.Sampled := by
  unfold finalizeStaging at hfinal
  split at hfinal
  · rw [pure_eq_ok] at hfinal
    subst hfinal
    exact ⟨h.length, h.quarantines⟩
  · obtain ⟨-, hfinal⟩ := require_bind_eq_ok.mp hfinal
    obtain ⟨-, hfinal⟩ := require_bind_eq_ok.mp hfinal
    rw [pure_eq_ok] at hfinal
    subst hfinal
    exact h.add rfl rfl

/-- What parsing and finalizing leaves: a finalized attempt whose counters count its rows and its
evidence. -/
theorem stageAndFinalize_spec {limits : IssueLimits} {documentType : DocumentType}
    {events : List ParsedEvent} {b : Staged}
    (h : stageAndFinalize limits documentType events = .ok b) :
    finalizeStaging limits documentType b = .ok b ∧ b.counts = countRows b.rows b.counts.issues ∧
      b.Sampled := by
  obtain ⟨a, ha, hb⟩ := bind_eq_ok.mp h
  exact ⟨finalizeStaging_finalized hb, counts_finalizeStaging hb,
    (sampled_empty.stage ha).finalize hb⟩

end Makolet.Parsing
