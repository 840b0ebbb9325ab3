import Makolet.Collection.Ledger

/-!
# The books of the ledger balance

`Ledger.Sound` holds between two transactions: every stored bucket holds exactly the charges dated
in it, every attempt's total is the sum of its own charges, and a file has at most one archive
charge. A bucket that was pruned may come back with a dropped adjustment inside a settlement, so the
stored amounts are tracked from a horizon on (`Ledger.Stored`), which the last pruning of the
transaction moves past every such bucket.
-/

set_option autoImplicit false

namespace Makolet.Collection

open Makolet.Domain Makolet.Lib Makolet.Lib.Table Makolet.Ingestion Makolet.Normalized

namespace Ledger

/-- From the horizon on the buckets hold the charges dated in them. -/
structure Stored (l : Ledger) (h : Time) : Prop where
  unique : UniqueOn Bucket.startedAt l.buckets
  counts : ∀ r ∈ l.buckets, r.counts.nonnegative
  stored : ∀ b, h ≤ b → storedBytes l.buckets b = l.dated b

/-- No bucket before the horizon. -/
def Pruned (l : Ledger) (h : Time) : Prop := ∀ r ∈ l.buckets, h ≤ r.startedAt

/-- What the charge rows satisfy. -/
structure Rows (l : Ledger) (clock : Time) : Prop where
  transferKeys : UniqueOn Transfer.key l.transfers
  archiveFiles : UniqueOn ArchiveCharge.file l.archives
  charged : ∀ a, l.charged a = l.chargedTo a
  transferPast : ∀ t ∈ l.transfers, t.chargedAt ≤ clock
  archivePast : ∀ c ∈ l.archives, c.chargedAt ≤ clock
  /-- An archive charge belongs to one settlement. -/
  settlement : ∀ c ∈ l.archives, ∃ t ∈ l.transfers, t.settled = true ∧ t.archiveAttached = true ∧
    t.attempt = c.attempt ∧ t.file = c.file ∧ t.chargedAt = c.chargedAt
  /-- A settlement that found an archive left a charge for it. -/
  archiveCharge : ∀ t ∈ l.transfers, t.archiveAttached = true → ∃ c ∈ l.archives, c.file = t.file

structure Sound (l : Ledger) (clock : Time) : Prop where
  rows : l.Rows clock
  buckets : ∃ h, h ≤ horizon clock ∧ l.Stored h ∧ l.Pruned h

theorem Sound.empty (clock : Time) : Ledger.empty.Sound clock where
  rows :=
    { transferKeys := List.nodup_nil
      archiveFiles := List.nodup_nil
      charged := fun _ => rfl
      transferPast := fun _ h => by cases h
      archivePast := fun _ h => by cases h
      settlement := fun _ h => by cases h
      archiveCharge := fun _ h => by cases h }
  buckets := by
    refine ⟨horizon clock, ?_, ⟨List.nodup_nil, ?_, fun _ _ => rfl⟩, ?_⟩
    · exact Int.le_refl _
    · intro r hr
      cases hr
    · intro r hr
      cases hr

/-! ## Sums over the rows -/

section Weight

variable {l : Ledger} {p : Transfer → Prop} [DecidablePred p] {q : ArchiveCharge → Prop}
  [DecidablePred q] {a : AttemptId} {f : FileId}

theorem weight_reserved (length : Nat) (chargedAt : Time) :
    (l.reserved a f length chargedAt).weight p q =
      l.weight p q + if p ⟨a, f, length, chargedAt, false, false⟩ then length else 0 := by
  simp only [weight, reserved, total_append, total_cons, total_nil]
  omega

/-- A settlement moves a sum by the exact charge less the reservation, each where it is dated. The
inserted archive charge is dated and attributed as the settled row is. -/
theorem weight_settled (hu : UniqueOn Transfer.key l.transfers) {t : Transfer}
    (ht : t ∈ l.transfers) {archive : Option ArchiveObject} {transferred : Nat} {settledAt : Time}
    (hpq : ∀ c, l.newArchiveCharge t.attempt t.file archive settledAt = some c →
      (q c ↔ p (settledRow archive transferred settledAt t))) :
    (l.settled t.attempt t.file archive transferred settledAt).weight p q +
        (if p t then t.contentLength else 0) =
      l.weight p q + if p (settledRow archive transferred settledAt t) then
        l.exactCharge t.attempt t.file archive transferred settledAt else 0 := by
  have hmove := @total_updateAt _ _ _ Transfer.key
    (fun t => if p t then t.contentLength else 0) _ hu t ht
    (settledRow archive transferred settledAt)
  have hnew : total (fun c => if q c then c.contentLength else 0)
      (l.newArchiveCharge t.attempt t.file archive settledAt).toList =
      if p (settledRow archive transferred settledAt t) then
        (l.newArchiveCharge t.attempt t.file archive settledAt).elim 0 ArchiveCharge.contentLength
      else 0 := by
    cases hc : l.newArchiveCharge t.attempt t.file archive settledAt with
    | none => simp
    | some c => simp [hpq c hc]
  simp only [weight, settled, total_append, hnew, exactCharge]
  rw [show Transfer.key t = (t.attempt, t.file) from rfl,
    show (settledRow archive transferred settledAt t).contentLength =
      transferCharge archive transferred from rfl] at hmove
  by_cases hrow : p (settledRow archive transferred settledAt t)
  · simp only [if_pos hrow] at hmove ⊢
    omega
  · simp only [if_neg hrow] at hmove ⊢
    omega

theorem le_weight {t : Transfer} (ht : t ∈ l.transfers) (hp : p t) :
    t.contentLength ≤ l.weight p q := by
  have hle := @le_total _ (fun t => if p t then t.contentLength else 0) _ _ ht
  simp only [if_pos hp] at hle
  simp only [weight]
  omega

theorem le_weight_archive {c : ArchiveCharge} (hc : c ∈ l.archives) (hq : q c) :
    c.contentLength ≤ l.weight p q := by
  have hle := @le_total _ (fun c => if q c then c.contentLength else 0) _ _ hc
  simp only [if_pos hq] at hle
  simp only [weight]
  omega

end Weight

/-! ## Reading the budget -/

section Lock

variable {l : Ledger} {h clock now : Time}

@[simp] theorem budgetValue_transfers (a : AttemptId) :
    (l.budgetValue a now).1.transfers = l.transfers := rfl

@[simp] theorem budgetValue_archives (a : AttemptId) :
    (l.budgetValue a now).1.archives = l.archives := rfl

@[simp] theorem budgetValue_charged (a : AttemptId) :
    (l.budgetValue a now).1.charged = l.charged := rfl

theorem Stored.budgetValue (hs : l.Stored h) (hh : h ≤ horizon now) (a : AttemptId) :
    (l.budgetValue a now).1.Stored (horizon now) where
  unique := prune_unique hs.unique
  counts r hr := hs.counts r (horizon_le_of_mem_prune hr).1
  stored b hb := (storedBytes_prune hb).trans (hs.stored b (Int.le_trans hh hb))

theorem pruned_budgetValue (l : Ledger) (a : AttemptId) :
    (l.budgetValue a now).1.Pruned (horizon now) :=
  fun _ hr => (horizon_le_of_mem_prune hr).2

theorem Rows.mono (hr : l.Rows clock) (hnow : clock ≤ now) : l.Rows now :=
  { hr with
    transferPast := fun t ht => Int.le_trans (hr.transferPast t ht) hnow
    archivePast := fun c hc => Int.le_trans (hr.archivePast c hc) hnow }

/-- The last reading of a transaction prunes what lies before its own horizon. -/
theorem Rows.sound (hr : l.Rows clock) (hs : l.Stored h) (hh : h ≤ horizon now)
    (hnow : clock ≤ now) (a : AttemptId) : (l.budgetValue a now).1.Sound now := by
  have hrows := hr.mono hnow
  exact ⟨{ hrows with }, horizon now, Int.le_refl _, hs.budgetValue hh a, pruned_budgetValue l a⟩

theorem Sound.budgetValue (hs : l.Sound clock) (hnow : clock ≤ now) (a : AttemptId) :
    (l.budgetValue a now).1.Sound now := by
  obtain ⟨h, hle, hstored, -⟩ := hs.buckets
  exact hs.rows.sound hstored (Int.le_trans hle (horizon_mono hnow)) hnow a

theorem Sound.mono (hs : l.Sound clock) (hnow : clock ≤ now) : l.Sound now := by
  obtain ⟨h, hle, hstored, hpruned⟩ := hs.buckets
  exact ⟨hs.rows.mono hnow, h, Int.le_trans hle (horizon_mono hnow), hstored, hpruned⟩

end Lock

/-! ## Reservations -/

section Reserve

variable {l l' : Ledger} {h clock : Time} {a : AttemptId} {f : FileId} {length : Nat}
  {chargedAt : Time}

/-- A charged attempt: its total moves, the rows stay. -/
theorem chargeAttempt_eq_ok {delta : Int} (hok : l.chargeAttempt a delta = .ok l') :
    l' = { l with charged := Function.update l.charged a (l.charged a + delta) } := by
  obtain ⟨-, hres⟩ := require_bind_eq_ok.mp hok
  cases hres
  rfl

theorem chargeAttempt_ok {delta : Int} (hpos : 0 ≤ l.charged a + delta) :
    l.chargeAttempt a delta =
      .ok { l with charged := Function.update l.charged a (l.charged a + delta) } :=
  require_bind_eq_ok.mpr ⟨hpos, rfl⟩

theorem charge_eq_ok (hok : l.charge a f length chargedAt = .ok l') :
    ∃ buckets, adjustBudgetBucket chargedAt
        ⟨length, if f ∈ l.identities then 0 else 1, 1, 0⟩ l.buckets = .ok buckets ∧
      l' = { l.reserved a f length chargedAt with
        charged := Function.update l.charged a (l.charged a + length)
        buckets := buckets } := by
  obtain ⟨m, hm, hmap⟩ := bind_eq_ok.mp hok
  rw [chargeAttempt_eq_ok hm] at hmap
  obtain ⟨buckets, hadjust, rfl⟩ := map_eq_ok.mp hmap
  exact ⟨buckets, hadjust, rfl⟩

theorem Stored.charge (hs : l.Stored h) (hok : l.charge a f length chargedAt = .ok l') :
    l'.Stored h := by
  obtain ⟨buckets, hadjust, rfl⟩ := charge_eq_ok hok
  obtain ⟨hunique, hcounts, hother, hself⟩ := adjustBudgetBucket_eq_ok hs.unique hadjust
  refine ⟨hunique, hcounts, fun b hb => ?_⟩
  have hold := hs.stored b hb
  have hdated : Ledger.dated { l.reserved a f length chargedAt with
        charged := Function.update l.charged a (l.charged a + length)
        buckets := buckets } b =
      l.dated b + if budgetBucketStart chargedAt = b then length else 0 :=
    weight_reserved length chargedAt
  show storedBytes buckets b = _
  rw [hdated]
  by_cases hstart : budgetBucketStart chargedAt = b
  · subst hstart
    have hnonneg : Counts.nonnegative ⟨length, if f ∈ l.identities then 0 else 1, 1, 0⟩ := by
      refine ⟨Int.natCast_nonneg _, ?_, Int.zero_le_ofNat 1, Int.le_refl 0⟩
      show 0 ≤ if f ∈ l.identities then (0 : Int) else 1
      split <;> decide
    rw [hself (.inl hnonneg), hold, if_pos rfl]
    push_cast
    rfl
  · rw [hother b (Ne.symm hstart), hold, if_neg hstart]
    simp

theorem Rows.charge (hr : l.Rows clock) (hnew : lookup Transfer.key l.transfers (a, f) = none)
    (hclock : clock ≤ chargedAt) (hok : l.charge a f length chargedAt = .ok l') :
    l'.Rows chargedAt := by
  obtain ⟨buckets, -, rfl⟩ := charge_eq_ok hok
  have hmono := hr.mono hclock
  refine ⟨?_, hmono.archiveFiles, ?_, ?_, hmono.archivePast, ?_, ?_⟩
  · show ((l.transfers ++ [_]).map Transfer.key).Nodup
    rw [List.map_append, List.nodup_append]
    refine ⟨hr.transferKeys, List.nodup_singleton _, ?_⟩
    rintro _ hold _ hin rfl
    obtain ⟨t, ht, hkey⟩ := List.mem_map.mp hold
    cases List.mem_singleton.mp hin
    exact lookup_eq_none.mp hnew t ht hkey
  · intro x
    have hsum : Ledger.chargedTo { l.reserved a f length chargedAt with
          charged := Function.update l.charged a (l.charged a + length)
          buckets := buckets } x =
        l.chargedTo x + if a = x then length else 0 := weight_reserved length chargedAt
    rw [hsum]
    show Function.update l.charged a (l.charged a + length) x = _
    by_cases hx : x = a
    · subst hx
      rw [Function.update_self, if_pos rfl, hr.charged x]
      push_cast
      rfl
    · rw [Function.update_of_ne hx, if_neg (Ne.symm hx), hr.charged x]
      rfl
  · intro t ht
    rcases List.mem_append.mp ht with hold | hin
    · exact hmono.transferPast t hold
    · cases List.mem_singleton.mp hin
      exact Int.le_refl _
  · intro c hc
    obtain ⟨t, ht, hsettled⟩ := hr.settlement c hc
    exact ⟨t, List.mem_append_left _ ht, hsettled⟩
  · intro t ht hattached
    rcases List.mem_append.mp ht with hold | hin
    · exact hr.archiveCharge t hold hattached
    · cases List.mem_singleton.mp hin
      cases hattached

theorem Sound.reserve (hs : l.Sound clock) {r : Readings} (hclock : clock ≤ r.locked)
    {budget : ChargeBudget} (hok : l.reserve a f length r = .ok (l', budget)) :
    l'.Sound r.relocked := by
  have hfirst := hs.budgetValue hclock a
  have hlater : r.locked ≤ r.relocked := Int.le_trans r.locked_le r.charged_le
  unfold Ledger.reserve at hok
  dsimp only at hok
  split at hok
  · -- The pair is reserved already: only the budget was read.
    cases hok
    exact hfirst.mono hlater
  · rename_i hnone
    obtain ⟨m, hm, heq⟩ := map_eq_ok.mp hok
    cases heq
    have hnew := Option.not_isSome_iff_eq_none.mp hnone
    obtain ⟨h, hle, hstored, -⟩ := hfirst.buckets
    exact (hfirst.rows.charge hnew r.locked_le hm).sound (hstored.charge hm)
      (Int.le_trans hle (horizon_mono hlater)) r.charged_le a

end Reserve

/-! ## Settlements -/

section Settle

variable {l l' : Ledger} {h clock : Time} {t : Transfer} {archive : Option ArchiveObject}
  {transferred : Nat} {settledAt : Time}

theorem settleReservation_eq_ok (hok : l.settleReservation t archive transferred settledAt = .ok l') :
    l.exactCharge t.attempt t.file archive transferred settledAt ≤ t.contentLength ∧
      ∃ bs buckets, adjustBudgetBucket t.chargedAt ⟨-(t.contentLength : Int), 0, 0, 0⟩ l.buckets =
          .ok bs ∧
        adjustBudgetBucket settledAt
          ⟨l.exactCharge t.attempt t.file archive transferred settledAt, 0, 0,
            if (l.newArchiveCharge t.attempt t.file archive settledAt).isSome then 1 else 0⟩ bs =
          .ok buckets ∧
        l' = { l.settled t.attempt t.file archive transferred settledAt with
          charged := Function.update l.charged t.attempt (l.charged t.attempt +
            ((l.exactCharge t.attempt t.file archive transferred settledAt : Int) -
              t.contentLength))
          buckets := buckets } := by
  obtain ⟨hfits, hok⟩ := require_bind_eq_ok.mp hok
  obtain ⟨m, hm, hok⟩ := bind_eq_ok.mp hok
  rw [chargeAttempt_eq_ok hm] at hok
  obtain ⟨bs, hbs, hok⟩ := bind_eq_ok.mp hok
  obtain ⟨buckets, hbuckets, rfl⟩ := map_eq_ok.mp hok
  exact ⟨hfits, bs, buckets, hbs, hbuckets, rfl⟩

/-- The archive charge of a settlement is that of its attempt and its instant. -/
theorem newArchiveCharge_eq_some {a : AttemptId} {f : FileId} {c : ArchiveCharge}
    (hc : l.newArchiveCharge a f archive settledAt = some c) :
    lookup ArchiveCharge.file l.archives f = none ∧
      ∃ object, archive = some object ∧ c = ⟨f, a, object.contentLength, settledAt⟩ := by
  unfold newArchiveCharge at hc
  split at hc
  · rename_i object
    split at hc
    · rename_i hnone
      cases hc
      exact ⟨Option.isNone_iff_eq_none.mp hnone, object, rfl, rfl⟩
    · cases hc
  · cases hc

/-- The two adjustments of a settlement: the reservation leaves its bucket, wherever that bucket is
still stored, and the exact charge enters the bucket of the settlement. -/
theorem Stored.settleReservation (hs : l.Stored h) (hu : UniqueOn Transfer.key l.transfers)
    (ht : t ∈ l.transfers) (hok : l.settleReservation t archive transferred settledAt = .ok l') :
    l'.Stored h := by
  obtain ⟨-, bs, buckets, hbs, hbuckets, rfl⟩ := settleReservation_eq_ok hok
  set exact := l.exactCharge t.attempt t.file archive transferred settledAt with hexact
  obtain ⟨hunique, -, hother, hself⟩ := adjustBudgetBucket_eq_ok hs.unique hbs
  obtain ⟨hunique', hcounts', hother', hself'⟩ := adjustBudgetBucket_eq_ok hunique hbuckets
  refine ⟨hunique', hcounts', fun b hb => ?_⟩
  have hold := hs.stored b hb
  have hdated : Ledger.dated { l.settled t.attempt t.file archive transferred settledAt with
        charged := Function.update l.charged t.attempt
          (l.charged t.attempt + ((exact : Int) - t.contentLength))
        buckets := buckets } b + (if budgetBucketStart t.chargedAt = b then t.contentLength else 0) =
      l.dated b + if budgetBucketStart settledAt = b then exact else 0 := by
    refine weight_settled hu ht fun c hc => ?_
    obtain ⟨-, object, -, rfl⟩ := newArchiveCharge_eq_some hc
    exact Iff.rfl
  -- The first adjustment takes the reservation out of its bucket.
  have hfirst : storedBytes bs b +
      ((if budgetBucketStart t.chargedAt = b then t.contentLength else 0 : Nat) : Int) =
      storedBytes l.buckets b := by
    by_cases hstart : budgetBucketStart t.chargedAt = b
    · subst hstart
      have hle : t.contentLength ≤ l.dated (budgetBucketStart t.chargedAt) := le_weight ht rfl
      have hmove := hself (by
        rcases Nat.eq_zero_or_pos t.contentLength with hzero | hpos
        · exact .inl (by simp [Counts.nonnegative, hzero])
        · refine .inr ?_
          rw [hold]
          omega)
      rw [hmove, if_pos rfl]
      dsimp only
      omega
    · rw [hother b (Ne.symm hstart), if_neg hstart]
      omega
  have hsecond : storedBytes buckets b =
      storedBytes bs b + ((if budgetBucketStart settledAt = b then exact else 0 : Nat) : Int) := by
    by_cases hstart : budgetBucketStart settledAt = b
    · subst hstart
      have hnonneg : Counts.nonnegative ⟨exact, 0, 0,
          if (l.newArchiveCharge t.attempt t.file archive settledAt).isSome then 1 else 0⟩ := by
        refine ⟨Int.natCast_nonneg _, Int.le_refl 0, Int.le_refl 0, ?_⟩
        show 0 ≤ if _ then (1 : Int) else 0
        split <;> decide
      rw [hself' (.inl hnonneg), if_pos rfl]
    · rw [hother' b (Ne.symm hstart), if_neg hstart]
      omega
  show storedBytes buckets b = _
  rw [hsecond]
  omega

theorem Rows.settleReservation (hr : l.Rows clock) (ht : t ∈ l.transfers)
    (hopen : t.settled = false) (hclock : clock ≤ settledAt)
    (hok : l.settleReservation t archive transferred settledAt = .ok l') : l'.Rows settledAt := by
  obtain ⟨-, bs, buckets, -, -, rfl⟩ := settleReservation_eq_ok hok
  have hmono := hr.mono hclock
  have hself : settledRow archive transferred settledAt t ∈
      updateAt Transfer.key (t.attempt, t.file) (settledRow archive transferred settledAt)
        l.transfers := mem_updateAt_self ht rfl
  refine ⟨updateAt_unique (fun _ _ => rfl) hr.transferKeys, ?_, ?_, ?_, ?_, ?_, ?_⟩
  -- A file is charged for its archive once.
  · show ((l.archives ++ Option.toList _).map ArchiveCharge.file).Nodup
    cases hc : l.newArchiveCharge t.attempt t.file archive settledAt with
    | none =>
      rw [Option.toList_none, List.append_nil]
      exact hr.archiveFiles
    | some c =>
      obtain ⟨hnone, object, -, rfl⟩ := newArchiveCharge_eq_some hc
      rw [Option.toList_some, List.map_append, List.nodup_append]
      refine ⟨hr.archiveFiles, List.nodup_singleton _, ?_⟩
      rintro _ hold _ hin rfl
      obtain ⟨c, hmem, hfile⟩ := List.mem_map.mp hold
      cases List.mem_singleton.mp hin
      exact lookup_eq_none.mp hnone c hmem hfile
  · intro x
    -- The sum changes by the difference between what was reserved and what is charged.
    have hsum : Ledger.chargedTo { l.settled t.attempt t.file archive transferred settledAt with
          charged := Function.update l.charged t.attempt (l.charged t.attempt +
            ((l.exactCharge t.attempt t.file archive transferred settledAt : Int) -
              t.contentLength))
          buckets := buckets } x + (if t.attempt = x then t.contentLength else 0) =
        l.chargedTo x + if t.attempt = x then
          l.exactCharge t.attempt t.file archive transferred settledAt else 0 := by
      refine weight_settled hr.transferKeys ht fun c hc => ?_
      obtain ⟨-, object, -, rfl⟩ := newArchiveCharge_eq_some hc
      exact Iff.rfl
    have hcharged := hr.charged x
    show Function.update l.charged t.attempt _ x = _
    by_cases hx : t.attempt = x
    · subst hx
      rw [if_pos rfl, if_pos rfl] at hsum
      rw [Function.update_self]
      omega
    · rw [if_neg hx, if_neg hx] at hsum
      rw [Function.update_of_ne (Ne.symm hx)]
      omega
  · intro s hs
    rcases mem_updateAt hs with ⟨hold, -⟩ | ⟨s, -, -, rfl⟩
    · exact hmono.transferPast s hold
    · exact Int.le_refl _
  · intro c hc
    rcases List.mem_append.mp hc with hold | hin
    · exact hmono.archivePast c hold
    · obtain ⟨-, object, -, rfl⟩ := newArchiveCharge_eq_some (Option.mem_toList.mp hin)
      exact Int.le_refl _
  · intro c hc
    rcases List.mem_append.mp hc with hold | hin
    · -- An older charge belongs to a transfer settled before, which is another row.
      obtain ⟨s, hs, hsettled, hrest⟩ := hr.settlement c hold
      refine ⟨s, mem_updateAt_of_ne hs fun hkey => ?_, hsettled, hrest⟩
      have hsame := lookup_of_mem hr.transferKeys hs
      rw [hkey, show (t.attempt, t.file) = Transfer.key t from rfl,
        lookup_of_mem hr.transferKeys ht] at hsame
      cases hsame
      rw [hopen] at hsettled
      cases hsettled
    · obtain ⟨-, object, rfl, rfl⟩ := newArchiveCharge_eq_some (Option.mem_toList.mp hin)
      exact ⟨_, hself, rfl, rfl, rfl, rfl, rfl⟩
  · intro s hs hattached
    rcases mem_updateAt hs with ⟨hold, -⟩ | ⟨s, -, hkey, rfl⟩
    · obtain ⟨c, hc, hfile⟩ := hr.archiveCharge s hold hattached
      exact ⟨c, List.mem_append_left _ hc, hfile⟩
    · -- The settlement found an archive: it is charged now or was before.
      have hfile : s.file = t.file := congrArg Prod.snd hkey
      cases hl : lookup ArchiveCharge.file l.archives t.file with
      | some c =>
        exact ⟨c, List.mem_append_left _ (mem_of_lookup hl), (key_of_lookup hl).trans hfile.symm⟩
      | none =>
        obtain ⟨object, rfl⟩ := Option.isSome_iff_exists.mp hattached
        refine ⟨⟨t.file, t.attempt, object.contentLength, settledAt⟩,
          List.mem_append_right _ (Option.mem_toList.mpr ?_), hfile.symm⟩
        show l.newArchiveCharge t.attempt t.file (some object) settledAt = _
        rw [newArchiveCharge, hl]
        rfl

theorem Sound.settle (hs : l.Sound clock) {a : AttemptId} {f : FileId} {r : Readings}
    (hclock : clock ≤ r.locked) {budget : ChargeBudget}
    (hok : l.settle a f archive transferred r = .ok (l', budget)) : l'.Sound r.relocked := by
  have hfirst := hs.budgetValue hclock a
  have hlater : r.locked ≤ r.relocked := Int.le_trans r.locked_le r.charged_le
  unfold Ledger.settle at hok
  dsimp only at hok
  split at hok
  · cases hok
  · rename_i t ht
    split at hok
    · -- A second settlement only reads the budget.
      cases hok
      exact hfirst.mono hlater
    · rename_i hopen
      obtain ⟨m, hm, heq⟩ := map_eq_ok.mp hok
      cases heq
      have hmem := mem_of_lookup ht
      obtain ⟨h, hle, hstored, -⟩ := hfirst.buckets
      exact (hfirst.rows.settleReservation hmem (Bool.eq_false_iff.mpr hopen) r.locked_le hm).sound
        (hstored.settleReservation hfirst.rows.transferKeys hmem hm)
        (Int.le_trans hle (horizon_mono hlater)) r.charged_le a

/-- A settlement within its reservation goes through: no constraint of the ledger stops it. -/
theorem Sound.settleReservation_ok (hs : l.Sound clock) (ht : t ∈ l.transfers)
    (hfits : l.exactCharge t.attempt t.file archive transferred settledAt ≤ t.contentLength) :
    ∃ l', l.settleReservation t archive transferred settledAt = .ok l' := by
  obtain ⟨h, -, hstored, hpruned⟩ := hs.buckets
  have hcharged := hs.rows.charged t.attempt
  have hown : t.contentLength ≤ l.chargedTo t.attempt := le_weight ht rfl
  -- The reservation is still in its bucket, if that bucket is stored.
  obtain ⟨bs, hbs⟩ := @adjustBudgetBucket_ok l.buckets
    t.chargedAt ⟨-(t.contentLength : Int), 0, 0, 0⟩ hstored.counts
    ⟨Int.le_refl 0, Int.le_refl 0, Int.le_refl 0⟩ (by
      refine .inr fun b hb hstart => ?_
      have hdated : t.contentLength ≤ l.dated b.startedAt := le_weight ht hstart.symm
      have hrow := hstored.stored b.startedAt (hpruned b hb)
      rw [storedBytes_of_mem hstored.unique hb] at hrow
      dsimp only
      omega)
  obtain ⟨-, hcounts, -, -⟩ := adjustBudgetBucket_eq_ok hstored.unique hbs
  obtain ⟨buckets, hbuckets⟩ := @adjustBudgetBucket_ok bs settledAt
    ⟨l.exactCharge t.attempt t.file archive transferred settledAt, 0, 0,
      if (l.newArchiveCharge t.attempt t.file archive settledAt).isSome then 1 else 0⟩ hcounts
    ⟨Int.le_refl 0, Int.le_refl 0, by
      show 0 ≤ if _ then (1 : Int) else 0
      split <;> decide⟩ (.inl (Int.natCast_nonneg _))
  refine ⟨_, require_bind_eq_ok.mpr ⟨hfits, bind_eq_ok.mpr ⟨_, chargeAttempt_ok ?_,
    bind_eq_ok.mpr ⟨bs, hbs, map_eq_ok.mpr ⟨buckets, hbuckets, rfl⟩⟩⟩⟩⟩
  show 0 ≤ l.charged t.attempt +
    ((l.exactCharge t.attempt t.file archive transferred settledAt : Int) - t.contentLength)
  omega

theorem Sound.settle_ok (hs : l.Sound clock) {a : AttemptId} {f : FileId} {r : Readings}
    (hclock : clock ≤ r.locked) (ht : t ∈ l.transfers) (hkey : t.key = (a, f))
    (hfits : t.settled = false → l.exactCharge a f archive transferred r.charged ≤ t.contentLength) :
    ∃ result, l.settle a f archive transferred r = .ok result := by
  have hfirst := hs.budgetValue hclock a
  have hfound : lookup Transfer.key (l.budgetValue a r.locked).1.transfers (a, f) = some t := by
    rw [← hkey]
    exact lookup_of_mem hs.rows.transferKeys ht
  unfold Ledger.settle
  simp only [hfound]
  split
  · exact ⟨_, rfl⟩
  · rename_i hopen
    have hfits := hfits (Bool.eq_false_iff.mpr hopen)
    cases hkey
    obtain ⟨m, hm⟩ := hfirst.settleReservation_ok ht hfits
    exact ⟨_, map_eq_ok.mpr ⟨m, hm, rfl⟩⟩

end Settle

/-! ## The rolling day -/

/-- The stored day total is the sum of the charges that are still in the window. -/
theorem Sound.dayCounts_chargedBytes {l : Ledger} {clock now : Time} (hs : l.Sound clock)
    (hnow : clock ≤ now) : (dayCounts now l.buckets).chargedBytes = l.since (windowStartedAt now) := by
  obtain ⟨h, hle, hstored, -⟩ := hs.buckets
  have hh : h ≤ windowStartedAt now :=
    Int.le_trans hle (Int.le_trans (horizon_mono hnow) (horizon_le_windowStartedAt now))
  set inWindow := l.buckets.filter fun b =>
    decide (windowStartedAt now ≤ b.startedAt ∧ b.startedAt ≤ budgetBucketStart now) with hwindow
  set starts := inWindow.map Bucket.startedAt with hstarts
  have hnodup : starts.Nodup := (List.filter_sublist.map Bucket.startedAt).nodup hstored.unique
  have hmem : ∀ b ∈ inWindow, b ∈ l.buckets ∧ windowStartedAt now ≤ b.startedAt := by
    intro b hb
    obtain ⟨hin, hdec⟩ := List.mem_filter.mp hb
    exact ⟨hin, (of_decide_eq_true hdec).1⟩
  -- Each bucket of the window holds what is dated in it.
  have hbuckets : (dayCounts now l.buckets).chargedBytes =
      total (fun k => l.dated k) starts := by
    rw [dayCounts, Counts.sum_chargedBytes, ← hwindow, hstarts]
    clear_value inWindow
    clear hstarts hnodup hwindow starts
    induction inWindow with
    | nil => rfl
    | cons b rest ih =>
      have hb := hmem b List.mem_cons_self
      have hrow := hstored.stored b.startedAt (Int.le_trans hh hb.2)
      rw [storedBytes_of_mem hstored.unique hb.1] at hrow
      have hrest := ih fun c hc => hmem c (List.mem_cons_of_mem b hc)
      simp only [List.map_cons, List.sum_cons, total_cons, hrow, hrest]
      push_cast
      rfl
  -- A charge of the window that no stored bucket covers is zero.
  have hcover : ∀ k : Time, windowStartedAt now ≤ k → k ≤ budgetBucketStart now → k ∉ starts →
      l.dated k = 0 := by
    intro k hlo hhi hout
    have hnone : lookup Bucket.startedAt l.buckets k = none := by
      rw [lookup_eq_none]
      intro b hb hk
      refine hout (List.mem_map.mpr ⟨b, List.mem_filter.mpr ⟨hb, ?_⟩, hk⟩)
      rw [hk]
      exact decide_eq_true ⟨hlo, hhi⟩
    have hzero := hstored.stored k (Int.le_trans hh hlo)
    rw [storedBytes, hnone, Option.elim_none] at hzero
    omega
  have hwithin : ∀ k ∈ starts, windowStartedAt now ≤ k := by
    intro k hk
    obtain ⟨b, hb, rfl⟩ := List.mem_map.mp hk
    exact (hmem b hb).2
  have htransfers : total (fun k => totalAt transferBucket Transfer.contentLength k l.transfers)
      starts = total (fun t => if windowStartedAt now ≤ transferBucket t then t.contentLength else 0)
        l.transfers := by
    refine sum_totalAt_cover hnodup hwithin fun t ht hlo hout => ?_
    have hpast := budgetBucketStart_mono (Int.le_trans (hs.rows.transferPast t ht) hnow)
    have hzero := hcover (transferBucket t) hlo hpast hout
    have hle : t.contentLength ≤ l.dated (transferBucket t) := le_weight ht rfl
    omega
  have harchives : total (fun k => totalAt archiveBucket ArchiveCharge.contentLength k l.archives)
      starts = total (fun c => if windowStartedAt now ≤ archiveBucket c then c.contentLength else 0)
        l.archives := by
    refine sum_totalAt_cover hnodup hwithin fun c hc hlo hout => ?_
    have hpast := budgetBucketStart_mono (Int.le_trans (hs.rows.archivePast c hc) hnow)
    have hzero := hcover (archiveBucket c) hlo hpast hout
    have hle : c.contentLength ≤ l.dated (archiveBucket c) := le_weight_archive hc rfl
    omega
  rw [hbuckets, Ledger.since, Ledger.weight, ← htransfers, ← harchives, ← total_add]
  rfl

end Ledger

end Makolet.Collection
