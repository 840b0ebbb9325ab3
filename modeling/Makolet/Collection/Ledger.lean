import Mathlib.Algebra.Ring.Int.Defs
import Makolet.Ingestion.Repository
import Makolet.Lib.Outcome
import Makolet.Lib.Table

/-!
# The charge ledger of one source

`charge_budget`, `reserve_transfer` and `settle_transfer` of `PostgresCollectionRepository`, for the
rows of one retailer. A reservation is charged to its attempt and to the five-minute bucket of its
instant; a settlement takes it out of that bucket and charges the exact amount, the transferred
bytes plus an archive that no earlier settlement charged, to the bucket of the settlement. Buckets
that left the rolling day are pruned at every reading of the budget.

`Ledger.Sound` is the bookkeeping invariant of the ledger between two transactions, and
`Ledger.dayCounts_chargedBytes` reads the rolling-day total off the charges themselves.
-/

set_option autoImplicit false

namespace Makolet.Collection

open Makolet.Domain Makolet.Lib Makolet.Lib.Table Makolet.Ingestion Makolet.Normalized

abbrev AttemptId := Nat

/-! ## Rows -/

/-- `collection_transfer_charges`: a reservation and, once settled, the transfer charge. -/
structure Transfer where
  attempt : AttemptId
  file : FileId
  contentLength : Nat
  chargedAt : Time
  settled : Bool
  archiveAttached : Bool
  deriving DecidableEq, Repr

def Transfer.key (t : Transfer) : AttemptId × FileId := (t.attempt, t.file)

/-- `collection_archive_charges`. -/
structure ArchiveCharge where
  file : FileId
  attempt : AttemptId
  contentLength : Nat
  chargedAt : Time
  deriving DecidableEq, Repr

/-- The counted columns of a budget bucket. -/
structure Counts where
  chargedBytes : Int
  identityCount : Int
  attemptCount : Int
  successCount : Int
  deriving DecidableEq, Repr

namespace Counts

def zero : Counts := ⟨0, 0, 0, 0⟩

def add (x y : Counts) : Counts :=
  ⟨x.chargedBytes + y.chargedBytes, x.identityCount + y.identityCount,
    x.attemptCount + y.attemptCount, x.successCount + y.successCount⟩

def sum (counts : List Counts) : Counts := counts.foldr add zero

/-- `counts_nonnegative`. -/
def nonnegative (x : Counts) : Prop :=
  0 ≤ x.chargedBytes ∧ 0 ≤ x.identityCount ∧ 0 ≤ x.attemptCount ∧ 0 ≤ x.successCount

instance (x : Counts) : Decidable x.nonnegative :=
  inferInstanceAs (Decidable (_ ∧ _))

theorem sum_chargedBytes (counts : List Counts) :
    (sum counts).chargedBytes = (counts.map Counts.chargedBytes).sum := by
  induction counts with
  | nil => rfl
  | cons x rest ih =>
    rw [List.map_cons, List.sum_cons, ← ih]
    rfl

end Counts

/-- `collection_budget_buckets`. -/
structure Bucket where
  startedAt : Time
  counts : Counts
  deriving DecidableEq, Repr

def Bucket.add (b : Bucket) (delta : Counts) : Bucket :=
  { b with counts := b.counts.add delta }

/-- The charges of one retailer. `charged` is the column `charged_bytes` of `collection_attempts`,
`identities` are the rows of `collection_identity_observations`. -/
structure Ledger where
  transfers : List Transfer
  archives : List ArchiveCharge
  identities : List FileId
  buckets : List Bucket
  charged : AttemptId → Int

def Ledger.empty : Ledger := ⟨[], [], [], [], fun _ => 0⟩

/-- `CollectionChargeBudget`. -/
structure ChargeBudget where
  runChargedBytes : Int
  day : Counts
  deriving DecidableEq, Repr

/-- The clock readings of one transaction, in their order. -/
structure Readings where
  locked : Time
  charged : Time
  relocked : Time
  locked_le : locked ≤ charged
  charged_le : charged ≤ relocked
  deriving DecidableEq

/-! ## Buckets -/

/-- `_BUDGET_BUCKET_WIDTH`. -/
def bucketWidth : Duration := minutes 5

/-- `_ARCHIVE_BUDGET_WINDOW`. -/
def archiveBudgetWindow : Duration := hours 24

/-- `_budget_bucket_start`. -/
def budgetBucketStart (t : Time) : Time := t / bucketWidth * bucketWidth

def windowStartedAt (now : Time) : Time := budgetBucketStart now - archiveBudgetWindow

/-- Buckets that started earlier are pruned. -/
def horizon (now : Time) : Time := windowStartedAt now - bucketWidth

def prune (now : Time) (buckets : List Bucket) : List Bucket :=
  buckets.filter fun b => decide (horizon now ≤ b.startedAt)

/-- The totals of the rolling day. -/
def dayCounts (now : Time) (buckets : List Bucket) : Counts :=
  Counts.sum ((buckets.filter fun b =>
    decide (windowStartedAt now ≤ b.startedAt ∧ b.startedAt ≤ budgetBucketStart now)).map
      Bucket.counts)

def countsViolation : Failure := ⟨.database, "counts_nonnegative", 0⟩

/-- `_adjust_budget_bucket`. A negative adjustment of a pruned bucket is dropped. -/
def adjustBudgetBucket (chargedAt : Time) (delta : Counts) (buckets : List Bucket) :
    Except Failure (List Bucket) :=
  let start := budgetBucketStart chargedAt
  let adjusted :=
    if ¬ delta.nonnegative then
      updateAt Bucket.startedAt start (fun b => b.add delta) buckets
    else
      upsert Bucket.startedAt Prod.fst (fun new => ⟨new.1, new.2⟩) (fun b new => b.add new.2) buckets
        [(start, delta)]
  require (∀ b ∈ adjusted, b.counts.nonnegative) countsViolation >>= fun _ => .ok adjusted

/-! ## Operations -/

namespace Ledger

/-- `_locked_charge_budget`. The totals of `collection_charge_budgets` are computed afresh by every
call; no other statement reads them. -/
def lockedChargeBudget (now : Time) (l : Ledger) : Ledger × Counts :=
  let buckets := prune now l.buckets
  ({ l with buckets := buckets }, dayCounts now buckets)

/-- `_charge_budget_value`. -/
def budgetValue (a : AttemptId) (now : Time) (l : Ledger) : Ledger × ChargeBudget :=
  let locked := l.lockedChargeBudget now
  (locked.1, ⟨locked.1.charged a, locked.2⟩)

/-- The attempt's new total, checked by its constraint. -/
def chargeAttempt (a : AttemptId) (delta : Int) (l : Ledger) : Except Failure Ledger :=
  require (0 ≤ l.charged a + delta) countsViolation >>= fun _ =>
    .ok { l with charged := Function.update l.charged a (l.charged a + delta) }

/-- The rows of a new reservation. -/
def reserved (a : AttemptId) (f : FileId) (length : Nat) (chargedAt : Time) (l : Ledger) : Ledger :=
  { l with
    transfers := l.transfers ++ [⟨a, f, length, chargedAt, false, false⟩]
    identities := if f ∈ l.identities then l.identities else l.identities ++ [f] }

/-- The writes of a new reservation. -/
def charge (a : AttemptId) (f : FileId) (length : Nat) (chargedAt : Time) (l : Ledger) :
    Except Failure Ledger :=
  (l.reserved a f length chargedAt).chargeAttempt a length >>= fun l' =>
    (adjustBudgetBucket chargedAt ⟨length, if f ∈ l.identities then 0 else 1, 1, 0⟩ l'.buckets).map
      fun buckets => { l' with buckets := buckets }

/-- `reserve_transfer`, once its attempt and its source file are known. A second reservation of the
same file by the same attempt changes nothing. -/
def reserve (a : AttemptId) (f : FileId) (length : Nat) (r : Readings) (l : Ledger) :
    Except Failure (Ledger × ChargeBudget) :=
  let first := l.budgetValue a r.locked
  if (lookup Transfer.key first.1.transfers (a, f)).isSome then .ok first
  else (first.1.charge a f length r.charged).map fun l' => l'.budgetValue a r.relocked

/-- The bytes of a transfer beyond the archived object. -/
def transferCharge (archive : Option ArchiveObject) (transferred : Nat) : Nat :=
  match archive with
  | some object => transferred - object.contentLength
  | none => transferred

/-- The archive charge that a settlement inserts: one for each file. -/
def newArchiveCharge (a : AttemptId) (f : FileId) (archive : Option ArchiveObject)
    (settledAt : Time) (l : Ledger) : Option ArchiveCharge :=
  match archive with
  | some object =>
    if (lookup ArchiveCharge.file l.archives f).isNone then
      some ⟨f, a, object.contentLength, settledAt⟩
    else none
  | none => none

/-- `exact_attempt_charge`. -/
def exactCharge (a : AttemptId) (f : FileId) (archive : Option ArchiveObject) (transferred : Nat)
    (settledAt : Time) (l : Ledger) : Nat :=
  transferCharge archive transferred +
    (l.newArchiveCharge a f archive settledAt).elim 0 ArchiveCharge.contentLength

/-- What a settlement leaves of the reservation. -/
def settledRow (archive : Option ArchiveObject) (transferred : Nat) (settledAt : Time)
    (t : Transfer) : Transfer :=
  { t with
    contentLength := transferCharge archive transferred
    chargedAt := settledAt
    settled := true
    archiveAttached := archive.isSome }

/-- The rows of a settlement. -/
def settled (a : AttemptId) (f : FileId) (archive : Option ArchiveObject) (transferred : Nat)
    (settledAt : Time) (l : Ledger) : Ledger :=
  { l with
    transfers := updateAt Transfer.key (a, f) (settledRow archive transferred settledAt) l.transfers
    archives := l.archives ++ (l.newArchiveCharge a f archive settledAt).toList }

def notReserved : Failure := ⟨.persistenceConflict, "Collection transfer was not reserved", 0⟩

def exceedsReservation : Failure :=
  ⟨.persistenceConflict, "Collection transfer charge exceeds its reservation", 0⟩

/-- The writes of a settlement of the open reservation `t`. -/
def settleReservation (t : Transfer) (archive : Option ArchiveObject) (transferred : Nat)
    (settledAt : Time) (l : Ledger) : Except Failure Ledger :=
  let exact := l.exactCharge t.attempt t.file archive transferred settledAt
  require (exact ≤ t.contentLength) exceedsReservation >>= fun _ =>
    (l.settled t.attempt t.file archive transferred settledAt).chargeAttempt t.attempt
        ((exact : Int) - t.contentLength) >>= fun l' =>
      adjustBudgetBucket t.chargedAt ⟨-(t.contentLength : Int), 0, 0, 0⟩ l'.buckets >>= fun bs =>
        (adjustBudgetBucket settledAt ⟨exact, 0, 0,
          if (l.newArchiveCharge t.attempt t.file archive settledAt).isSome then 1 else 0⟩ bs).map
          fun buckets => { l' with buckets := buckets }

/-- `settle_transfer`, once its attempt and its source file are known. `archive` is the archive
that the source file has at the settlement. -/
def settle (a : AttemptId) (f : FileId) (archive : Option ArchiveObject) (transferred : Nat)
    (r : Readings) (l : Ledger) : Except Failure (Ledger × ChargeBudget) :=
  let first := l.budgetValue a r.locked
  match lookup Transfer.key first.1.transfers (a, f) with
  | none => .error notReserved
  | some t =>
    if t.settled then .ok first
    else (first.1.settleReservation t archive transferred r.charged).map fun l' =>
      l'.budgetValue a r.relocked

end Ledger

/-! ## What the rows add up to -/

namespace Ledger

def transferBucket (t : Transfer) : Time := budgetBucketStart t.chargedAt

def archiveBucket (c : ArchiveCharge) : Time := budgetBucketStart c.chargedAt

/-- The charged bytes of the selected rows. A reservation counts with its reserved bytes, a settled
transfer with its exact ones. -/
def weight (p : Transfer → Prop) [DecidablePred p] (q : ArchiveCharge → Prop) [DecidablePred q]
    (l : Ledger) : Nat :=
  total (fun t => if p t then t.contentLength else 0) l.transfers +
    total (fun c => if q c then c.contentLength else 0) l.archives

/-- The charges dated in the bucket. -/
def dated (l : Ledger) (b : Time) : Nat :=
  l.weight (fun t => transferBucket t = b) (fun c => archiveBucket c = b)

/-- The charges of the attempt. -/
def chargedTo (l : Ledger) (a : AttemptId) : Nat :=
  l.weight (fun t => t.attempt = a) (fun c => c.attempt = a)

/-- The charges in buckets that started at `lo` or later. -/
def since (l : Ledger) (lo : Time) : Nat :=
  l.weight (fun t => lo ≤ transferBucket t) (fun c => lo ≤ archiveBucket c)

end Ledger

/-- The charged bytes stored for a bucket. -/
def storedBytes (buckets : List Bucket) (b : Time) : Int :=
  (lookup Bucket.startedAt buckets b).elim 0 fun row => row.counts.chargedBytes

/-! ## Instants -/

theorem bucketWidth_eq : bucketWidth = 300000000 := rfl

theorem budgetBucketStart_mono {s t : Time} (h : s ≤ t) :
    budgetBucketStart s ≤ budgetBucketStart t := by
  simp only [budgetBucketStart, bucketWidth_eq]
  grind

theorem windowStartedAt_mono {s t : Time} (h : s ≤ t) : windowStartedAt s ≤ windowStartedAt t := by
  have := budgetBucketStart_mono h
  simp only [windowStartedAt]
  grind

theorem horizon_mono {s t : Time} (h : s ≤ t) : horizon s ≤ horizon t := by
  have := windowStartedAt_mono h
  simp only [horizon]
  grind

theorem horizon_le_windowStartedAt (t : Time) : horizon t ≤ windowStartedAt t := by
  simp only [horizon, bucketWidth_eq]
  grind

/-! ## Stored buckets -/

section Buckets

variable {buckets buckets' : List Bucket} {now : Time} {b : Time}

theorem lookup_prune :
    lookup Bucket.startedAt (prune now buckets) b =
      if horizon now ≤ b then lookup Bucket.startedAt buckets b else none := by
  induction buckets with
  | nil => simp [prune]
  | cons r rest ih =>
    rw [prune] at ih
    rw [prune, List.filter_cons]
    by_cases hr : horizon now ≤ r.startedAt
    · rw [if_pos (decide_eq_true hr), lookup_cons, lookup_cons, ih]
      by_cases hb : r.startedAt = b
      · subst hb
        rw [if_pos rfl, if_pos hr, if_pos rfl]
      · rw [if_neg hb, if_neg hb]
    · rw [if_neg (by simpa using hr), ih, lookup_cons]
      by_cases hb : r.startedAt = b
      · subst hb
        rw [if_neg hr, if_neg hr]
      · rw [if_neg hb]

theorem storedBytes_prune (hb : horizon now ≤ b) :
    storedBytes (prune now buckets) b = storedBytes buckets b := by
  rw [storedBytes, lookup_prune, if_pos hb]
  rfl

theorem prune_unique (h : UniqueOn Bucket.startedAt buckets) :
    UniqueOn Bucket.startedAt (prune now buckets) :=
  (List.filter_sublist.map Bucket.startedAt).nodup h

theorem horizon_le_of_mem_prune {r : Bucket} (h : r ∈ prune now buckets) :
    r ∈ buckets ∧ horizon now ≤ r.startedAt := by
  obtain ⟨hmem, hle⟩ := List.mem_filter.mp h
  exact ⟨hmem, of_decide_eq_true hle⟩

/-- A stored bucket is found under its start. -/
theorem storedBytes_of_mem (hu : UniqueOn Bucket.startedAt buckets) {r : Bucket} (hr : r ∈ buckets) :
    storedBytes buckets r.startedAt = r.counts.chargedBytes := by
  rw [storedBytes, lookup_of_mem hu hr]
  rfl

/-- An adjusted table: what every bucket then holds. The bucket of the adjustment moves by its
delta unless the delta is negative and the bucket is gone. -/
theorem adjustBudgetBucket_eq_ok {chargedAt : Time} {delta : Counts}
    (hu : UniqueOn Bucket.startedAt buckets)
    (h : adjustBudgetBucket chargedAt delta buckets = .ok buckets') :
    UniqueOn Bucket.startedAt buckets' ∧ (∀ r ∈ buckets', r.counts.nonnegative) ∧
      (∀ b, b ≠ budgetBucketStart chargedAt → storedBytes buckets' b = storedBytes buckets b) ∧
      (delta.nonnegative ∨ storedBytes buckets (budgetBucketStart chargedAt) ≠ 0 →
        storedBytes buckets' (budgetBucketStart chargedAt) =
          storedBytes buckets (budgetBucketStart chargedAt) + delta.chargedBytes) := by
  unfold adjustBudgetBucket at h
  obtain ⟨hnonneg, hres⟩ := require_bind_eq_ok.mp h
  cases hres
  set start := budgetBucketStart chargedAt
  have hput : ∀ b, lookup Bucket.startedAt (upsert Bucket.startedAt Prod.fst
      (fun new : Time × Counts => ⟨new.1, new.2⟩) (fun b new => b.add new.2) buckets
      [(start, delta)]) b = _ := lookup_upsert (fun _ => rfl) (fun _ _ => rfl)
  by_cases hd : delta.nonnegative
  · rw [if_neg (not_not_intro hd)] at hnonneg ⊢
    refine ⟨?_, hnonneg, ?_, ?_⟩
    · exact upsert_unique (fun _ => rfl) (fun _ _ => rfl) hu (List.nodup_singleton _)
    · intro b hb
      have hmiss : lookup Prod.fst [(start, delta)] b = none := by
        rw [lookup_cons, if_neg (Ne.symm hb)]
        rfl
      rw [storedBytes, hput, hmiss]
      rfl
    · intro _
      have hfound : lookup Prod.fst [(start, delta)] start = some (start, delta) := by
        rw [lookup_cons, if_pos rfl]
      rw [storedBytes, hput, hfound, storedBytes]
      cases lookup Bucket.startedAt buckets start with
      | none => simp
      | some r => rfl
  · have hmove : ∀ b, lookup Bucket.startedAt
        (updateAt Bucket.startedAt start (fun b => b.add delta) buckets) b = _ :=
      lookup_updateAt fun _ _ => rfl
    rw [if_pos hd] at hnonneg ⊢
    refine ⟨updateAt_unique (fun _ _ => rfl) hu, hnonneg, ?_, ?_⟩
    · intro b hb
      rw [storedBytes, hmove, if_neg hb]
      rfl
    · intro hrow
      rw [storedBytes, hmove, if_pos rfl, storedBytes]
      cases hl : lookup Bucket.startedAt buckets start with
      | none =>
        -- Without a row the stored amount is zero and the delta is dropped.
        exfalso
        rcases hrow with hrow | hrow
        · exact hd hrow
        · rw [storedBytes, hl] at hrow
          exact hrow rfl
      | some r => rfl

/-- An adjustment that keeps every count nonnegative goes through. -/
theorem adjustBudgetBucket_ok {chargedAt : Time} {delta : Counts}
    (hn : ∀ r ∈ buckets, r.counts.nonnegative)
    (hdelta : 0 ≤ delta.identityCount ∧ 0 ≤ delta.attemptCount ∧ 0 ≤ delta.successCount)
    (hcover : 0 ≤ delta.chargedBytes ∨ ∀ r ∈ buckets,
      r.startedAt = budgetBucketStart chargedAt → 0 ≤ r.counts.chargedBytes + delta.chargedBytes) :
    ∃ buckets', adjustBudgetBucket chargedAt delta buckets = .ok buckets' := by
  have hadd : ∀ r ∈ buckets, r.startedAt = budgetBucketStart chargedAt →
      (r.counts.add delta).nonnegative := by
    intro r hr hstart
    have hrow := hn r hr
    simp only [Counts.nonnegative, Counts.add] at hrow ⊢
    rcases hcover with hcover | hcover
    · omega
    · have := hcover r hr hstart
      omega
  unfold adjustBudgetBucket
  refine ⟨_, require_bind_eq_ok.mpr ⟨?_, rfl⟩⟩
  intro r hr
  split at hr
  · rcases mem_updateAt hr with ⟨hold, -⟩ | ⟨s, hs, hstart, rfl⟩
    · exact hn r hold
    · exact hadd s hs hstart
  · rename_i hneg
    rcases mem_upsert hr with ⟨hold, -⟩ | ⟨s, hs, c, hc, hstart, rfl⟩ | ⟨c, hc, rfl⟩
    · exact hn r hold
    · cases List.mem_singleton.mp hc
      exact hadd s hs hstart.symm
    · cases List.mem_singleton.mp hc
      exact Classical.not_not.mp hneg

end Buckets

end Makolet.Collection
