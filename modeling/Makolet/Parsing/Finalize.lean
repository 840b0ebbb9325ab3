import Mathlib.Data.List.MinMax
import Makolet.Parsing.Reuse

/-!
# What `finalize_staging` leaves

Of the rows of one file the last record of every logical key survives, every removed row is counted
as a rejected record, and the sampled evidence stays in step with its counter, if it was before. An
attempt that `stage` filled is in step; one that reuses another file's staging need not be.
-/

set_option autoImplicit false

namespace Makolet.Parsing

open Makolet.Domain Makolet.Lib Makolet.Normalized

/-! ## The surviving rows -/

/-- Of every key exactly the row with the highest record index is left. -/
structure KeepsLatest {α κ : Type} (key : α → κ) (index : α → Nat) (before after : List α) :
    Prop where
  mem : ∀ r, r ∈ after ↔ r ∈ before ∧ ∀ q ∈ before, key q = key r → index q ≤ index r
  unique : ∀ r ∈ before, ∃! q, q ∈ after ∧ key q = key r

section Superseded

variable {α κ : Type} [DecidableEq κ] {key : α → κ} {index : α → Nat} {rows : List α}

theorem mem_surviving_iff {r : α} :
    r ∈ surviving key index rows ↔ r ∈ rows ∧ ∀ q ∈ rows, key q = key r → index q ≤ index r := by
  rw [surviving, List.mem_filter, Bool.not_eq_true', isSuperseded, List.any_eq_false]
  refine and_congr_right fun _ => forall_congr' fun q => forall_congr' fun _ => ?_
  rw [decide_eq_true_iff, not_and, not_lt]

/-- Rows with different indexes: the last row of a key is the only one that survives. -/
theorem keepsLatest_surviving (hunique : (rows.map index).Nodup) :
    KeepsLatest key index rows (surviving key index rows) where
  mem _ := mem_surviving_iff
  unique := by
    intro r hr
    -- The last row among those with the key of `r`.
    have hne : rows.filter (fun q => decide (key q = key r)) ≠ [] :=
      List.ne_nil_of_mem (List.mem_filter.mpr ⟨hr, decide_eq_true rfl⟩)
    obtain ⟨m, hm⟩ := Option.ne_none_iff_exists'.mp
      (mt (List.argmax_eq_none (f := index)).mp hne)
    obtain ⟨hmem, hkey⟩ := List.mem_filter.mp (List.argmax_mem hm)
    have hkey : key m = key r := of_decide_eq_true hkey
    have hlast : ∀ q ∈ rows, key q = key m → index q ≤ index m := by
      intro q hq hqm
      exact List.le_of_mem_argmax
        (List.mem_filter.mpr ⟨hq, decide_eq_true (hqm.trans hkey)⟩) hm
    refine ⟨m, ⟨mem_surviving_iff.mpr ⟨hmem, hlast⟩, hkey⟩, ?_⟩
    rintro q ⟨hq, hqr⟩
    obtain ⟨hqmem, hqlast⟩ := mem_surviving_iff.mp hq
    have hindex : index q = index m :=
      Nat.le_antisymm (hlast q hqmem (hqr.trans hkey.symm)) (hqlast m hmem (hkey.trans hqr.symm))
    exact List.inj_on_of_nodup_map hunique hqmem hmem hindex

theorem length_surviving_add_superseded :
    (surviving key index rows).length + (superseded key index rows).length = rows.length := by
  rw [surviving, superseded, Nat.add_comm]
  exact (List.length_eq_length_filter_add _).symm

end Superseded

/-! ## The rows of a document -/

/-- The record indexes in the table of a document, where they are the primary key. -/
def recordIndexes : DocumentFamily → Staging → List Nat
  | .stores, rows => rows.stores.map StagedStore.recordIndex
  | .prices, rows => rows.prices.map StagedPrice.recordIndex
  | .promotions, rows => rows.promotions.map StagedPromotion.recordIndex

def recordCount (family : DocumentFamily) (rows : Staging) : Nat :=
  (recordIndexes family rows).length

/-- The table of the document keeps the last row of every key, and the others are as they were. -/
def KeepsLatestRows : DocumentFamily → Staging → Staging → Prop
  | .stores, before, after =>
    KeepsLatest StagedStore.key StagedStore.recordIndex before.stores after.stores ∧
      after = { before with stores := after.stores }
  | .prices, before, after =>
    KeepsLatest StagedPrice.key StagedPrice.recordIndex before.prices after.prices ∧
      after = { before with prices := after.prices }
  | .promotions, before, after =>
    KeepsLatest stagedPromotionKey StagedPromotion.recordIndex before.promotions after.promotions ∧
      after = { before with promotions := after.promotions }

theorem keepsLatestRows_withoutDuplicates {family : DocumentFamily} {rows : Staging}
    (hunique : (recordIndexes family rows).Nodup) :
    KeepsLatestRows family rows (withoutDuplicates family rows) := by
  cases family with
  | stores => exact ⟨keepsLatest_surviving hunique, rfl⟩
  | prices => exact ⟨keepsLatest_surviving hunique, rfl⟩
  | promotions => exact ⟨keepsLatest_surviving hunique, rfl⟩

/-- Every removed row has its issue. -/
theorem recordCount_withoutDuplicates (family : DocumentFamily) (rows : Staging) :
    recordCount family (withoutDuplicates family rows) + (duplicateIssues family rows).length =
      recordCount family rows := by
  cases family with
  | stores =>
    simp only [recordCount, recordIndexes, withoutDuplicates, duplicateIssues, List.length_map,
      List.length_insertionSort]
    exact length_surviving_add_superseded
  | prices =>
    simp only [recordCount, recordIndexes, withoutDuplicates, duplicateIssues, List.length_map,
      List.length_insertionSort]
    exact length_surviving_add_superseded
  | promotions =>
    simp only [recordCount, recordIndexes, withoutDuplicates, duplicateIssues, List.length_map,
      List.length_insertionSort]
    exact length_surviving_add_superseded

theorem countSeverity_duplicateIssues (family : DocumentFamily) (rows : Staging) :
    countSeverity .recordRejection (duplicateIssues family rows) =
      (duplicateIssues family rows).length := by
  refine List.countP_eq_length.mpr ?_
  intro i hi
  obtain ⟨d, -, rfl⟩ := List.mem_map.mp hi
  rfl

/-! ## The step -/

/-- What is said of a finalized attempt. -/
structure Finalized (limits : IssueLimits) (documentType : DocumentType) (family : DocumentFamily)
    (a b : Staged) : Prop where
  rows : KeepsLatestRows family a.rows b.rows
  rejected : b.counts.issues.rejectedRecords = a.counts.issues.rejectedRecords +
    (recordCount family a.rows - recordCount family b.rows)
  total : recordCount family b.rows +
    (b.counts.issues.rejectedRecords - a.counts.issues.rejectedRecords) = recordCount family a.rows
  counts : b.counts = countRows b.rows b.counts.issues
  evidence : b.evidence.length ≤ limits.maximumEvidence
  sampled : b.counts.issues.sampledValidationIssues = b.evidence.length
  again : finalizeStaging limits documentType b = .ok b

/-- `finalize_staging` leaves a finalized attempt, or it quarantines the file because it has more
issues than the limits allow. -/
def FinalizesExactly (limits : IssueLimits) (documentType : DocumentType) (family : DocumentFamily)
    (a : Staged) : Prop :=
  match finalizeStaging limits documentType a with
  | .ok b => Finalized limits documentType family a b
  | .error e => e = evidenceExceeded

/-- The counter of the sample is the number of evidence rows, and within the maximum. -/
structure InStep (limits : IssueLimits) (a : Staged) : Prop where
  length : a.counts.issues.sampledValidationIssues = a.evidence.length
  limit : a.counts.issues.sampledValidationIssues ≤ limits.maximumEvidence

theorem InStep.stage {limits : IssueLimits} {events : List ParsedEvent} {a b : Staged}
    (h : InStep limits a) (hstage : stage limits events a = .ok b) : InStep limits b := by
  obtain ⟨-, rfl⟩ := stage_eq_ok.mp hstage
  have hlength := h.length
  have hlimit := h.limit
  constructor
  · simp only [Staged.withEvents, addIssues, sampled, List.length_append, List.length_take]
    omega
  · simp only [Staged.withEvents, addIssues]
    omega

/-- Whatever batches an attempt was staged in, its evidence is in step with its counter. -/
theorem inStep_of_batches {limits : IssueLimits} {batches : List (List ParsedEvent)} :
    ∀ {a b : Staged}, InStep limits a →
      runList (fun s batch => stage limits batch s) a batches = .ok b → InStep limits b := by
  induction batches with
  | nil =>
    intro a b h hrun
    cases hrun
    exact h
  | cons batch rest ih =>
    intro a b h hrun
    obtain ⟨s, hs, hrest⟩ := bind_eq_ok.mp hrun
    exact ih (h.stage hs) hrest

/-- The three outcomes. -/
theorem finalizeStaging_eq (limits : IssueLimits) {documentType : DocumentType}
    {family : DocumentFamily} (a : Staged) (hfamily : family? documentType = some family) :
    finalizeStaging limits documentType a =
      let issues := duplicateIssues family a.rows
      let usage := addIssues limits issues a.counts.issues
      let rows := withoutDuplicates family a.rows
      if Within limits usage then
        if a.counts.issues.sampledValidationIssues ≤ limits.maximumEvidence then
          .ok ⟨rows, countRows rows usage, a.evidence ++ sampled limits issues a.counts.issues⟩
        else .error negativeLimit
      else .error evidenceExceeded := by
  unfold finalizeStaging
  rw [hfamily]
  simp only [require]
  split_ifs <;> rfl

/-- A finalized attempt, of which only the evidence depends on how the attempt began. -/
theorem finalized_iff {limits : IssueLimits} {documentType : DocumentType}
    {family : DocumentFamily} {a b : Staged} (hfamily : family? documentType = some family)
    (hunique : (recordIndexes family a.rows).Nodup)
    (hlimit : a.counts.issues.sampledValidationIssues ≤ limits.maximumEvidence)
    (hb : finalizeStaging limits documentType a = .ok b) :
    Finalized limits documentType family a b ↔ InStep limits a := by
  have hagain := finalizeStaging_finalized hb
  have hcounts := counts_finalizeStaging hb
  unfold finalizeStaging at hb
  rw [hfamily] at hb
  obtain ⟨-, hb⟩ := require_bind_eq_ok.mp hb
  obtain ⟨-, hb⟩ := require_bind_eq_ok.mp hb
  rw [pure_eq_ok] at hb
  have hremoved := recordCount_withoutDuplicates family a.rows
  have hrows : b.rows = withoutDuplicates family a.rows := by rw [← hb]
  have hrejected : b.counts.issues.rejectedRecords = a.counts.issues.rejectedRecords +
      (duplicateIssues family a.rows).length := by
    rw [← hb, ← countSeverity_duplicateIssues family a.rows]
    rfl
  have hsampled : b.counts.issues.sampledValidationIssues =
      a.counts.issues.sampledValidationIssues + min (duplicateIssues family a.rows).length
        (limits.maximumEvidence - a.counts.issues.sampledValidationIssues) := by
    rw [← hb]
    rfl
  have hevidence : b.evidence.length = a.evidence.length +
      min (limits.maximumEvidence - a.counts.issues.sampledValidationIssues)
        (duplicateIssues family a.rows).length := by
    rw [← hb]
    simp only [List.length_append, sampled, List.length_take]
  constructor
  · intro h
    have hlength := h.sampled
    exact ⟨by omega, hlimit⟩
  · intro h
    have hlength := h.length
    refine ⟨?_, ?_, ?_, hcounts, ?_, ?_, hagain⟩
    · rw [hrows]
      exact keepsLatestRows_withoutDuplicates hunique
    · rw [hrows]
      omega
    · rw [hrows]
      omega
    · omega
    · omega

/-- An attempt within the issue limits is finalized exactly when its evidence is in step. -/
theorem finalizesExactly_iff {limits : IssueLimits} {documentType : DocumentType}
    {family : DocumentFamily} {a : Staged} (hfamily : family? documentType = some family)
    (hunique : (recordIndexes family a.rows).Nodup) :
    FinalizesExactly limits documentType family a ↔
      (Within limits (addIssues limits (duplicateIssues family a.rows) a.counts.issues) →
        InStep limits a) := by
  have houtcome := finalizeStaging_eq limits a hfamily
  unfold FinalizesExactly
  cases hresult : finalizeStaging limits documentType a with
  | ok b =>
    rw [hresult] at houtcome
    dsimp only at houtcome
    split_ifs at houtcome with hwithin hlimit
    rw [forall_prop_of_true hwithin]
    exact finalized_iff hfamily hunique hlimit hresult
  | error e =>
    rw [hresult] at houtcome
    dsimp only at houtcome
    split_ifs at houtcome with hwithin hlimit
    · rw [forall_prop_of_true hwithin]
      cases houtcome
      constructor
      · intro h
        cases h
      · intro h
        exact absurd h.limit hlimit
    · cases houtcome
      exact iff_of_true rfl fun h => absurd h hwithin

/-! ## Staged and reused attempts -/

theorem inStep_empty (limits : IssueLimits) : InStep limits .empty where
  length := rfl
  limit := Nat.zero_le _

/-- A reused attempt has the counter of the candidate's run and the part of its evidence that is
cloned. -/
theorem inStep_cloned_iff (limits : IssueLimits) (target from_ : StagedFile) (r : Attempt) :
    InStep limits (cloned target from_ r).staged ↔
      r.counts.issues.sampledValidationIssues = (clonedEvidence r.evidence).length ∧
        r.counts.issues.sampledValidationIssues ≤ limits.maximumEvidence := by
  have hsampled : (cloned target from_ r).staged.counts.issues.sampledValidationIssues =
      r.counts.issues.sampledValidationIssues := by
    rw [cloned, StagedFile.staged_withStaged]
    dsimp only
    split_ifs <;> rfl
  have hevidence : (cloned target from_ r).staged.evidence = clonedEvidence r.evidence := by
    rw [cloned, StagedFile.staged_withStaged]
  constructor
  · rintro ⟨hlength, hlimit⟩
    rw [hsampled, hevidence] at hlength
    exact ⟨hlength, hsampled ▸ hlimit⟩
  · rintro ⟨hlength, hlimit⟩
    exact ⟨by rw [hsampled, hevidence, hlength], hsampled ▸ hlimit⟩

/-- Finalizing keeps the last record of every key with exact counters and evidence if and only if
the evidence is in step with its counter before; every staged attempt is, and a reused one if all
evidence of the candidate's run is cloned. -/
theorem finalize_staging_exact (limits : IssueLimits) (documentType : DocumentType)
    (family : DocumentFamily) (hfamily : family? documentType = some family) :
    (∀ a : Staged, (recordIndexes family a.rows).Nodup →
      (FinalizesExactly limits documentType family a ↔
        (Within limits (addIssues limits (duplicateIssues family a.rows) a.counts.issues) →
          InStep limits a))) ∧
      (∀ (batches : List (List ParsedEvent)) (a : Staged),
        runList (fun s batch => stage limits batch s) .empty batches = .ok a → InStep limits a) ∧
      ∀ (target from_ : StagedFile) (r : Attempt),
        InStep limits (cloned target from_ r).staged ↔
          r.counts.issues.sampledValidationIssues = (clonedEvidence r.evidence).length ∧
            r.counts.issues.sampledValidationIssues ≤ limits.maximumEvidence := by
  refine ⟨?_, ?_, inStep_cloned_iff limits⟩
  · exact fun a hunique => finalizesExactly_iff hfamily hunique
  · exact fun batches a hrun => inStep_of_batches (inStep_empty limits) hrun

/-! ## A reused store file without a timestamp -/

def attemptLimits : IssueLimits := ⟨10, 4096, 10⟩

def untimedSource : SourceRow := ⟨1, 1, .stores, .completed, none, some 0, 0, some "sha"⟩

def untimedStore (recordIndex : Nat) : StagedStore :=
  ⟨recordIndex, "7290", "1", "5", none, none, none, none, "Main", none, none, none⟩

/-- A header without a timestamp. -/
def untimedHeader : StagedDocument := ⟨some "1", none, none⟩

/-- One store, staged twice. -/
def repeatedStore : Staging := ⟨[untimedHeader], [untimedStore 1, untimedStore 2], [], []⟩

theorem finalize_staging_exact_sample :
    FinalizesExactly attemptLimits .stores .stores
      ⟨repeatedStore, countRows repeatedStore noIssues, []⟩ := by
  refine ((finalize_staging_exact attemptLimits .stores .stores rfl).1 _ (by decide)).mpr ?_
  exact fun _ => ⟨rfl, by decide⟩

/-- The completed file: its apply warned that the source has no timestamp, an issue of no record. -/
def untimedFile : StagedFile where
  id := 1
  source := untimedSource
  compression := .none
  parserVersion := "1"
  staging := ⟨[untimedHeader], [untimedStore 1], [], []⟩
  run :=
    let issues := timestampIssues untimedSource ⟨[untimedHeader], [untimedStore 1], [], []⟩
    ⟨.completed, true, countRows ⟨[untimedHeader], [untimedStore 1], [], []⟩
      (addIssues attemptLimits issues noIssues), sampled attemptLimits issues noIssues⟩
  earlierRuns := []
  replays := []
  provenance := some "1"

/-- A second file of the same content, about to be parsed. -/
def untimedCopy : StagedFile :=
  { untimedFile with
    id := 2
    source := { untimedSource with status := .parsing }
    staging := .empty
    run := .opened .parsing }

def untimedTables : Tables :=
  { Tables.empty with appliedContents := [⟨1, 1, 1, .stores, "sha", 0⟩] }

/-- The copy takes over the counter of the warning and not the warning. -/
theorem reused_sample_out_of_step :
    ∃ g summary b, reuseValidatedStaging untimedTables "1" [untimedFile] untimedCopy =
        .ok (g, some summary) ∧
      finalizeStaging attemptLimits .stores g.staged = .ok b ∧
      b.counts.issues.sampledValidationIssues = 1 ∧ b.evidence = [] := by
  refine ⟨_, _, _, rfl, rfl, ?_, ?_⟩
  · decide
  · decide

end Makolet.Parsing
