import Mathlib.Algebra.Order.BigOperators.Group.List
import Mathlib.Algebra.Order.Group.Nat
import Makolet.Collection.Bootstrap

/-!
# The policy maxima of one source

While the source lease serializes the attempts of a source, only one attempt at a time reads the
budget, reserves and settles. What it reserves fits what the budget left, and a settlement moves no
more than its reservation, if out of a bucket that has left the rolling day. So the open reservation
of the attempt is counted in the day wherever it is dated (`Ledger.pending`).
-/

set_option autoImplicit false

namespace Makolet.Collection

open Makolet.Domain Makolet.Lib Makolet.Lib.Table Makolet.Ingestion Makolet.Normalized

/-! ## The open reservation -/

namespace Ledger

/-- The charges of the rolling day and all open reservations of the attempt. -/
def pending (l : Ledger) (a : AttemptId) (now : Time) : Nat :=
  l.weight (fun t => windowStartedAt now ≤ transferBucket t ∨ (t.attempt = a ∧ t.settled = false))
    (fun c => windowStartedAt now ≤ archiveBucket c)

/-- The transfers of the attempt are settled, but for one file. -/
def Settled (l : Ledger) (a : AttemptId) (but : Option FileId) : Prop :=
  ∀ t ∈ l.transfers, t.attempt = a → some t.file ≠ but → t.settled = true

variable {l l' : Ledger} {a : AttemptId} {f : FileId} {now clock : Time}

/-- More rows weigh more. -/
theorem weight_mono {p p' : Transfer → Prop} [DecidablePred p] [DecidablePred p']
    {q q' : ArchiveCharge → Prop} [DecidablePred q] [DecidablePred q']
    (hp : ∀ t ∈ l.transfers, p t → p' t) (hq : ∀ c ∈ l.archives, q c → q' c) :
    l.weight p q ≤ l.weight p' q' := by
  refine Nat.add_le_add (List.sum_le_sum fun t ht => ?_) (List.sum_le_sum fun c hc => ?_)
  · by_cases h : p t
    · rw [if_pos h, if_pos (hp t ht h)]
    · rw [if_neg h]
      exact Nat.zero_le _
  · by_cases h : q c
    · rw [if_pos h, if_pos (hq c hc h)]
    · rw [if_neg h]
      exact Nat.zero_le _

theorem since_le_pending (l : Ledger) (a : AttemptId) (now : Time) :
    l.since (windowStartedAt now) ≤ l.pending a now :=
  weight_mono (fun _ _ h => .inl h) fun _ _ h => h

theorem pending_le_since (h : l.Settled a none) :
    l.pending a now ≤ l.since (windowStartedAt now) := by
  refine weight_mono ?_ fun _ _ h => h
  rintro t ht (hin | ⟨hown, hopen⟩)
  · exact hin
  · rw [h t ht hown (by simp)] at hopen
    cases hopen

/-- Charges only leave the rolling day. -/
theorem since_anti {lo hi : Time} (h : lo ≤ hi) : l.since hi ≤ l.since lo :=
  weight_mono (fun _ _ hin => Int.le_trans h hin) fun _ _ hin => Int.le_trans h hin

/-! ## The three calls -/

/-- A reservation, the first one of its pair. -/
theorem charge_spec {length : Nat} {chargedAt : Time}
    (hok : l.charge a f length chargedAt = .ok l') :
    l'.transfers = l.transfers ++ [⟨a, f, length, chargedAt, false, false⟩] ∧
      l'.charged = Function.update l.charged a (l.charged a + length) ∧
      ∀ now, l'.pending a now = l.pending a now + length := by
  obtain ⟨buckets, -, rfl⟩ := charge_eq_ok hok
  refine ⟨rfl, rfl, fun now => ?_⟩
  have hweight := @weight_reserved l
    (fun t => windowStartedAt now ≤ transferBucket t ∨ (t.attempt = a ∧ t.settled = false)) _
    (fun c => windowStartedAt now ≤ archiveBucket c) _ a f length chargedAt
  rw [if_pos (.inr ⟨rfl, rfl⟩)] at hweight
  exact hweight

/-- A settlement of the open reservation `t`. -/
theorem settleReservation_spec {t : Transfer} {archive : Option ArchiveObject} {transferred : Nat}
    {settledAt : Time} (hu : UniqueOn Transfer.key l.transfers) (ht : t ∈ l.transfers)
    (hopen : t.settled = false)
    (hok : l.settleReservation t archive transferred settledAt = .ok l') :
    l'.transfers = updateAt Transfer.key (t.attempt, t.file)
        (settledRow archive transferred settledAt) l.transfers ∧
      (∀ x, l'.charged x ≤ l.charged x) ∧
      ∀ now, l'.pending t.attempt now ≤ l.pending t.attempt now := by
  obtain ⟨hfits, bs, buckets, -, -, rfl⟩ := settleReservation_eq_ok hok
  refine ⟨rfl, ?_, ?_⟩
  · intro x
    show Function.update l.charged t.attempt _ x ≤ _
    by_cases hx : x = t.attempt
    · subst hx
      rw [Function.update_self]
      omega
    · rw [Function.update_of_ne hx]
  · intro now
    have hweight := @weight_settled l
      (fun s => windowStartedAt now ≤ transferBucket s ∨
        (s.attempt = t.attempt ∧ s.settled = false)) _
      (fun c => windowStartedAt now ≤ archiveBucket c) _ hu t ht archive transferred settledAt ?_
    · rw [if_pos (.inr ⟨rfl, hopen⟩)] at hweight
      have hnew : ∀ b : Prop, [Decidable b] → (if b then
          l.exactCharge t.attempt t.file archive transferred settledAt else 0) ≤
          t.contentLength := by
        intro b _
        split
        · exact hfits
        · exact Nat.zero_le _
      refine Nat.le_of_add_le_add_right (hweight.trans_le ?_)
      exact Nat.add_le_add_left (hnew _) _
    · intro c hc
      obtain ⟨-, object, -, rfl⟩ := newArchiveCharge_eq_some hc
      constructor
      · exact .inl
      · rintro (hin | ⟨-, hopen⟩)
        · exact hin
        · cases hopen

/-- `reserve_transfer`: a first reservation of the pair, or none. -/
theorem reserve_cases {length : Nat} {r : Readings} {budget : ChargeBudget}
    (hok : l.reserve a f length r = .ok (l', budget)) :
    (l'.transfers = l.transfers ∧ l'.archives = l.archives ∧ l'.charged = l.charged) ∨
      (l'.transfers = l.transfers ++ [⟨a, f, length, r.charged, false, false⟩] ∧
        l'.charged = Function.update l.charged a (l.charged a + length) ∧
        ∀ now, l'.pending a now = l.pending a now + length) := by
  unfold Ledger.reserve at hok
  dsimp only at hok
  split at hok
  · cases hok
    exact .inl ⟨rfl, rfl, rfl⟩
  · obtain ⟨m, hm, heq⟩ := map_eq_ok.mp hok
    cases heq
    obtain ⟨htransfers, hcharged, hpending⟩ := charge_spec hm
    exact .inr ⟨htransfers, hcharged, hpending⟩

/-- `settle_transfer` settles the pair, and nothing grows. -/
theorem settle_spec {archive : Option ArchiveObject} {transferred : Nat} {r : Readings}
    {budget : ChargeBudget} (hu : UniqueOn Transfer.key l.transfers)
    (hok : l.settle a f archive transferred r = .ok (l', budget)) :
    (∀ t ∈ l'.transfers, (t.attempt = a ∧ t.file = f ∧ t.settled = true) ∨ t ∈ l.transfers ∧
        (t.attempt = a → t.file = f → t.settled = true)) ∧
      (∀ x, l'.charged x ≤ l.charged x) ∧ ∀ now, l'.pending a now ≤ l.pending a now := by
  unfold Ledger.settle at hok
  dsimp only at hok
  split at hok
  · cases hok
  · rename_i t ht
    have hmem : t ∈ l.transfers := mem_of_lookup ht
    have hkey : t.key = (a, f) := key_of_lookup ht
    have hsame : ∀ s ∈ l.transfers, s.attempt = a → s.file = f → s = t := by
      rintro s hs rfl rfl
      exact Option.some.inj ((lookup_of_mem hu hs).symm.trans ht)
    split at hok
    · rename_i hsettled
      cases hok
      refine ⟨?_, fun _ => Int.le_refl _, fun _ => Nat.le_refl _⟩
      intro s hs
      refine .inr ⟨hs, fun hown hfile => ?_⟩
      rw [hsame s hs hown hfile]
      exact hsettled
    · rename_i hopen
      obtain ⟨m, hm, heq⟩ := map_eq_ok.mp hok
      cases heq
      cases hkey
      obtain ⟨htransfers, hcharged, hpending⟩ :=
        settleReservation_spec (l := (l.budgetValue t.attempt r.locked).1) hu hmem
          (Bool.eq_false_iff.mpr hopen) hm
      refine ⟨?_, hcharged, hpending⟩
      intro s hs
      have hs : s ∈ m.transfers := hs
      rw [htransfers] at hs
      rcases mem_updateAt hs with ⟨hold, hne⟩ | ⟨s, -, hkey, rfl⟩
      · refine .inr ⟨hold, fun hown hfile => absurd ?_ hne⟩
        rw [Transfer.key, hown, hfile]
      · exact .inl ⟨congrArg Prod.fst hkey, congrArg Prod.snd hkey, rfl⟩

end Ledger

/-! ## What holds of a collector -/

section Fits

variable (policy : CollectionPolicy)

/-- The maxima hold, and only attempts that began have charges. -/
structure Shared.Capped (s : Shared) : Prop where
  known : ∀ t ∈ s.ledger.transfers, t.attempt < s.traversals.attempts.length
  run : ∀ a, s.ledger.charged a ≤ policy.maximumChargedBytesPerSourceRun
  day : ∀ now, s.clock ≤ now →
    s.ledger.since (windowStartedAt now) ≤ policy.maximumChargedBytesPerSourceDay

/-- The day holds with the open reservations of the attempt. -/
def Shared.DayFits (s : Shared) (a : AttemptId) : Prop :=
  ∀ now, s.clock ≤ now → s.ledger.pending a now ≤ policy.maximumChargedBytesPerSourceDay

/-- The maxima leave room for a reservation of the attempt. -/
structure Shared.Room (s : Shared) (a : AttemptId) (reserved : Nat) : Prop where
  run : s.ledger.charged a + reserved ≤ policy.maximumChargedBytesPerSourceRun
  day : ∀ now, s.clock ≤ now →
    s.ledger.since (windowStartedAt now) + reserved ≤ policy.maximumChargedBytesPerSourceDay

/-- What the awaited operation says of the charges of its attempt. -/
def CollectorPc.Fits (s : Shared) (a : AttemptId) : CollectorPc → Prop
  | .register _ reserved _ | .reserve _ reserved _ =>
    s.ledger.Settled a none ∧ s.Room policy a reserved
  | .call slot _ _ | .process slot | .settle slot _ => s.ledger.Settled a (some slot.file)
  -- After these the attempt reserves no more.
  | .begin | .budgetSettle _ _ | .budgetObserve | .errorSettle _ _ _ | .errorCheck _ => True
  | .errorAdvance _ | .errorObserve | .finish _ | .returned => True
  | _ => s.ledger.Settled a none

structure Collector.Fits (s : Shared) (c : Collector) : Prop where
  day : c.pc.active = true → s.DayFits policy c.attemptId
  stage : c.pc.Fits policy s c.attemptId

end Fits

section Calls

variable {config : Config} {s s' : Shared} {c c' : Collector} {r : Readings} {budget : ChargeBudget}
  {a : AttemptId}

theorem Shared.DayFits.since (h : s.DayFits config.policy a) {now : Time} (hnow : s.clock ≤ now) :
    s.ledger.since (windowStartedAt now) ≤ config.policy.maximumChargedBytesPerSourceDay :=
  Nat.le_trans (s.ledger.since_le_pending a now) (h now hnow)

theorem Shared.Capped.dayFits (h : s.Capped config.policy) (hsettled : s.ledger.Settled a none) :
    s.DayFits config.policy a :=
  fun now hnow => Nat.le_trans (Ledger.pending_le_since hsettled) (h.day now hnow)

/-- A running attempt is one of those that began. -/
theorem Traversals.Ordered.lt_of_locked {t : Traversals} (h : t.Ordered) {row : Attempt}
    {ck : Checkpoint} (hlocked : t.lockedRunning a = .ok (row, ck)) : a < t.attempts.length := by
  obtain ⟨hrow, -, -⟩ := Traversals.lockedRunning_eq_ok hlocked
  have hbound := h.bound row (mem_of_lookup hrow)
  rwa [key_of_lookup hrow] at hbound

theorem Traversals.Change.length_le {t t' : Traversals} (h : t.Change t') :
    t.attempts.length ≤ t'.attempts.length := by
  cases h with
  | keep => exact Nat.le_refl _
  | begin scope =>
    show _ ≤ (List.map _ t.attempts).length + 1
    rw [List.length_map]
    exact Nat.le_succ _
  | advance hok =>
    obtain ⟨row, ck, -, -, -, -, -, -, -, -, -, hattempts, -⟩ := Traversals.advanceAttempt_eq_ok hok
    rw [hattempts, updateAt, List.length_map]
  | finish hok =>
    obtain ⟨row, ck, -, -, -, -, hattempts⟩ := Traversals.finishAttempt_eq_ok hok
    rw [hattempts, updateAt, List.length_map]

/-- A read budget: what it leaves is room. -/
theorem Shared.charge_budget (hs : s.ledger.Sound s.clock) (hcap : s.Capped config.policy)
    (hok : s.charge config c (.chargeBudget c.attemptId) r = some (.ok (s', budget))) :
    s'.Capped config.policy ∧ (∀ but, s.ledger.Settled a but → s'.ledger.Settled a but) ∧
      (s.DayFits config.policy a → s'.DayFits config.policy a) ∧ ∀ n : Nat,
        (n : Int) ≤ config.policy.remainingBytes budget → s'.Room config.policy c.attemptId n := by
  obtain ⟨hclock, -, l, hrun, rfl⟩ := Shared.charge_eq_ok hok
  cases hrun
  have hlater : r.locked ≤ r.relocked := Int.le_trans r.locked_le r.charged_le
  have hafter : s.clock ≤ r.relocked := Int.le_trans hclock hlater
  refine ⟨⟨hcap.known, hcap.run, ?_⟩, fun _ h => h, ?_, ?_⟩
  · exact fun now hnow => hcap.day now (Int.le_trans hafter hnow)
  · exact fun h now hnow => h now (Int.le_trans hafter hnow)
  · intro n hn
    have hread : (dayCounts r.locked
        (s.ledger.budgetValue c.attemptId r.locked).1.buckets).chargedBytes =
          s.ledger.since (windowStartedAt r.locked) :=
      (hs.budgetValue hclock c.attemptId).dayCounts_chargedBytes (Int.le_refl _)
    have hmin : (n : Int) ≤ min
        (config.policy.maximumChargedBytesPerSourceRun - s.ledger.charged c.attemptId)
        (config.policy.maximumChargedBytesPerSourceDay -
          s.ledger.since (windowStartedAt r.locked)) := by
      rw [← hread]
      exact hn
    obtain ⟨hrun, hday⟩ := le_min_iff.mp hmin
    refine ⟨?_, ?_⟩
    · show s.ledger.charged c.attemptId + n ≤ _
      omega
    · intro now hnow
      have hanti : s.ledger.since (windowStartedAt now) ≤
          s.ledger.since (windowStartedAt r.locked) :=
        Ledger.since_anti (windowStartedAt_mono (Int.le_trans hlater hnow))
      show s.ledger.since (windowStartedAt now) + n ≤ _
      omega

/-- A reservation that there is room for. -/
theorem Shared.charge_reserve {remote : RemoteFile} {n : Nat}
    (hord : s.traversals.Ordered) (hcap : s.Capped config.policy)
    (hsettled : s.ledger.Settled c.attemptId none) (hroom : s.Room config.policy c.attemptId n)
    (hok : s.charge config c (.reserve c.attemptId remote n) r = some (.ok (s', budget))) :
    s'.Capped config.policy ∧ s'.ledger.Settled c.attemptId (some remote.fileId) ∧
      s'.DayFits config.policy c.attemptId := by
  obtain ⟨hclock, ⟨row, ck, hlocked⟩, l, hrun, rfl⟩ := Shared.charge_eq_ok hok
  obtain ⟨-, -, hreserve⟩ := reserveTransfer_eq_ok.mp hrun
  have hafter : s.clock ≤ r.relocked :=
    Int.le_trans hclock (Int.le_trans r.locked_le r.charged_le)
  have hknown := hord.lt_of_locked hlocked
  -- A transfer that stands is left as it is; otherwise the reservation is appended to the ledger.
  rcases Ledger.reserve_cases hreserve with ⟨htransfers, harchives, hcharged⟩ |
    ⟨htransfers, hcharged, hpending⟩
  · have hweight : ∀ now, l.pending c.attemptId now = s.ledger.pending c.attemptId now := by
      intro now
      simp only [Ledger.pending, Ledger.weight, htransfers, harchives]
    have hfits : Shared.DayFits config.policy { s with ledger := l, clock := r.relocked }
        c.attemptId := by
      intro now hnow
      rw [show Shared.ledger _ = l from rfl, hweight]
      exact hcap.dayFits hsettled now (Int.le_trans hafter hnow)
    refine ⟨⟨?_, ?_, fun now hnow => hfits.since hnow⟩, ?_, hfits⟩
    · show ∀ t ∈ l.transfers, _
      rw [htransfers]
      exact hcap.known
    · show ∀ a, l.charged a ≤ _
      rw [hcharged]
      exact hcap.run
    · intro t ht hown _
      have ht : t ∈ l.transfers := ht
      rw [htransfers] at ht
      exact hsettled t ht hown (by simp)
  · have hfits : Shared.DayFits config.policy { s with ledger := l, clock := r.relocked }
        c.attemptId := by
      intro now hnow
      rw [show Shared.ledger _ = l from rfl, hpending]
      exact Nat.le_trans (Nat.add_le_add_right (Ledger.pending_le_since hsettled) n)
        (hroom.day now (Int.le_trans hafter hnow))
    refine ⟨⟨?_, ?_, fun now hnow => hfits.since hnow⟩, ?_, hfits⟩
    · intro t ht
      have ht : t ∈ l.transfers := ht
      rw [htransfers] at ht
      rcases List.mem_append.mp ht with hold | hnew
      · exact hcap.known t hold
      · cases List.mem_singleton.mp hnew
        exact hknown
    · intro x
      show l.charged x ≤ _
      rw [hcharged]
      by_cases hx : x = c.attemptId
      · subst hx
        rw [Function.update_self]
        exact hroom.run
      · rw [Function.update_of_ne hx]
        exact hcap.run x
    · intro t ht hown hfile
      have ht : t ∈ l.transfers := ht
      rw [htransfers] at ht
      rcases List.mem_append.mp ht with hold | hnew
      · exact hsettled t hold hown (by simp)
      · cases List.mem_singleton.mp hnew
        exact absurd rfl hfile

/-- A settlement of the attempt. -/
theorem Shared.charge_settle {remote : RemoteFile} {n : Nat} (hord : s.traversals.Ordered)
    (hs : s.ledger.Sound s.clock) (hcap : s.Capped config.policy)
    (hday : s.DayFits config.policy c.attemptId)
    (hok : s.charge config c (.settle c.attemptId remote n) r = some (.ok (s', budget))) :
    s'.Capped config.policy ∧ s'.DayFits config.policy c.attemptId ∧
      (s.ledger.Settled c.attemptId (some remote.fileId) →
        s'.ledger.Settled c.attemptId none) := by
  obtain ⟨hclock, ⟨row, ck, hlocked⟩, l, hrun, rfl⟩ := Shared.charge_eq_ok hok
  obtain ⟨-, -, hsettle⟩ := settleTransfer_eq_ok.mp hrun
  have hafter : s.clock ≤ r.relocked :=
    Int.le_trans hclock (Int.le_trans r.locked_le r.charged_le)
  obtain ⟨htransfers, hcharged, hpending⟩ := Ledger.settle_spec hs.rows.transferKeys hsettle
  have hfits : Shared.DayFits config.policy { s with ledger := l, clock := r.relocked }
      c.attemptId :=
    fun now hnow => Nat.le_trans (hpending now) (hday now (Int.le_trans hafter hnow))
  refine ⟨⟨?_, ?_, fun now hnow => hfits.since hnow⟩, hfits, ?_⟩
  · intro t ht
    rcases htransfers t ht with ⟨hown, -, -⟩ | ⟨hold, -⟩
    · rw [hown]
      exact hord.lt_of_locked hlocked
    · exact hcap.known t hold
  · exact fun x => Int.le_trans (hcharged x) (hcap.run x)
  · intro hsettled t ht hown _
    rcases htransfers t ht with ⟨-, -, hdone⟩ | ⟨hold, hsame⟩
    · exact hdone
    · by_cases hfile : t.file = remote.fileId
      · exact hsame hown hfile
      · exact hsettled t hold hown fun heq => hfile (Option.some.inj heq)

end Calls

/-! ## One operation -/

section Step

variable {config : Config} {s s' : Shared} {c c' : Collector} {pc : CollectorPc}

/-- An operation that writes no charge. -/
theorem Shared.Capped.keep (h : s.Capped config.policy) (hledger : s'.ledger = s.ledger)
    (hclock : s'.clock = s.clock)
    (hlength : s.traversals.attempts.length ≤ s'.traversals.attempts.length) :
    s'.Capped config.policy := by
  refine ⟨?_, ?_, ?_⟩
  · rw [hledger]
    exact fun t ht => Nat.lt_of_lt_of_le (h.known t ht) hlength
  · rw [hledger]
    exact h.run
  · rw [hledger, hclock]
    exact h.day

theorem Collector.Fits.keep (h : c.Fits config.policy s) (hledger : s'.ledger = s.ledger)
    (hclock : s'.clock = s.clock) : c.Fits config.policy s' := by
  obtain ⟨life, traversals, ledger, clock, catalog, history⟩ := s
  obtain ⟨life', traversals', ledger', clock', catalog', history'⟩ := s'
  cases hledger
  cases hclock
  refine ⟨h.day, ?_⟩
  have hstage := h.stage
  cases hpc : c.pc <;> rw [hpc] at hstage <;>
    first
    | exact hstage
    | exact ⟨hstage.1, hstage.2.run, hstage.2.day⟩

/-- The handlers of a file reserve no more. -/
theorem Collector.raise_fits (c : Collector) (slot : Slot) (e : Failure) (pending : Bool) :
    (c.raise slot e pending).pc.Fits config.policy s (c.raise slot e pending).attemptId := by
  rcases c.raise_cases slot e pending with h | h | ⟨-, h⟩ | ⟨-, h⟩
  all_goals rw [h]; exact trivial

theorem Collector.handle_fits {e : Failure} (h : c.handle e = some c') :
    c'.pc.Fits config.policy s c'.attemptId := by
  rcases Collector.handle_cases h with rfl | ⟨status, -, rfl⟩ | ⟨slot, pending, -, rfl⟩
  · exact trivial
  · exact trivial
  · exact c.raise_fits slot e pending

/-- What an operation leaves: the maxima, and what its collector then says of its charges. -/
theorem Collector.Acts.fits (h : c.Acts config s pc s' c') (hpc : c.pc = pc)
    (hord : s.traversals.Ordered) (hs : s.ledger.Sound s.clock) (hcap : s.Capped config.policy)
    (hfits : c.Fits config.policy s) :
    s'.Capped config.policy ∧ (pc.active = true → s'.DayFits config.policy c.attemptId) ∧
      c'.pc.Fits config.policy s' c'.attemptId := by
  have hday : pc.active = true → s.DayFits config.policy c.attemptId := hpc ▸ hfits.day
  have hstage : pc.Fits config.policy s c.attemptId := hpc ▸ hfits.stage
  -- Only the first step changes the attempt, so that the stage of the others speaks of one attempt.
  have hsame : pc ≠ .begin → c'.attemptId = c.attemptId := fun hne => (h.same hne).attempt
  cases h with
  | begin =>
    refine ⟨hcap.keep rfl rfl (Traversals.Change.begin c.scope).length_le, ?_, ?_⟩
    · intro hactive
      cases hactive
    · -- The attempt is new: no transfer is one of its own.
      intro t ht hown _
      have hlt : t.attempt < s.traversals.attempts.length := hcap.known t ht
      have hnew : t.attempt = s.traversals.attempts.length := hown
      exact absurd hlt (hnew ▸ Nat.lt_irrefl _)
  | discover => exact ⟨hcap, hday, hstage⟩
  | head hselect =>
    rcases Collector.select_cases hselect with ⟨-, rfl⟩ | rfl | ⟨slot, -, -, -, ⟨-, rfl⟩ | ⟨-, rfl⟩⟩
    · exact ⟨hcap, hday, hstage⟩
    · exact ⟨hcap, hday, trivial⟩
    · exact ⟨hcap, hday, hstage⟩
    · exact ⟨hcap, hday, hstage⟩
  | @advance _ next slot _ _ _ attempt hslot hadvance hnext =>
    have hne : pc ≠ .begin := by
      rintro rfl
      cases hslot
    have hid := hsame hne
    obtain ⟨traversals, hok, rfl⟩ := Shared.advanceFile_eq_ok hadvance
    refine ⟨hcap.keep rfl rfl (Traversals.Change.advance hok).length_le, hday, ?_⟩
    rw [hid]
    cases hnext with
    | unknown => exact hstage
    | skip => exact hstage
    | done => exact hstage
    | bounded => exact trivial
    | error => exact trivial
  | @checkTerminal slot =>
    rcases c.decide_cases config slot (isTerminal s.files slot.file c.scope.archiveOnly) with
      ⟨-, h⟩ | h | ⟨-, h⟩
    · rw [h]
      exact ⟨hcap, hday, hstage⟩
    · rw [h]
      exact ⟨hcap, hday, trivial⟩
    · rw [h]
      exact ⟨hcap, hday, hstage⟩
  | @chargeBudget slot alreadyTerminal r _ budget hok =>
    obtain ⟨hcap', hsettled, hday', hroom⟩ := Shared.charge_budget hs hcap hok
    -- What is left of the budget bounds the reservation that follows.
    refine ⟨hcap', fun hactive => hday' (hday hactive), ?_⟩
    rcases c.budgeted_cases config slot alreadyTerminal budget with h | ⟨-, -, h⟩ | ⟨hleft, -, h⟩
    · rw [h]
      exact trivial
    · rw [h]
      refine ⟨hsettled none hstage, ?_, hcap'.day⟩
      exact (Int.add_zero _).trans_le (hcap'.run c.attemptId)
    · rw [h]
      refine ⟨hsettled none hstage, hroom _ ?_⟩
      omega
  | register hok =>
    obtain ⟨hsettled, hroom⟩ := hstage
    exact ⟨hcap.keep rfl rfl (Nat.le_refl _), hday, hsettled, hroom.run, hroom.day⟩
  | reserve hok =>
    obtain ⟨hcap', hsettled, hday'⟩ := Shared.charge_reserve hord hcap hstage.1 hstage.2 hok
    exact ⟨hcap', fun _ => hday', hsettled⟩
  | call hcall =>
    obtain ⟨life, -, rfl⟩ := Shared.startCall_eq_some hcall
    exact ⟨hcap.keep rfl rfl (Nat.le_refl _), hday, hstage⟩
  | processed hingest hreturned => exact ⟨hcap, hday, hstage⟩
  | @raised slot ingest e hingest hreturned =>
    exact ⟨hcap, hday, c.raise_fits slot e false⟩
  | @settle pc slot transferred r _ budget hsettles hok =>
    -- Three stages settle a reservation, and all of them are within an attempt.
    have hactive : pc.active = true := by
      cases pc <;> first | rfl | cases hsettles
    obtain ⟨hcap', hday', hsettled⟩ := Shared.charge_settle hord hs hcap (hday hactive) hok
    refine ⟨hcap', fun _ => hday', ?_⟩
    cases pc with
    | settle slot' result =>
      cases hsettles
      simp only [Collector.settledBy]
      split
      · exact hsettled hstage
      · exact hsettled hstage
    | errorSettle slot' transferred' pending =>
      cases pending <;> exact trivial
    | budgetSettle slot' transferred' => exact trivial
    | _ => cases hsettles
  | @bootstrap slot result budget =>
    split
    · exact ⟨hcap.keep rfl rfl (Nat.le_refl _), hday, hstage⟩
    · exact ⟨hcap, hday, hstage⟩
  | noteTerminal hterminal => exact ⟨hcap, hday, hstage⟩
  | observe hstatus hobserve => exact ⟨hcap, hday, trivial⟩
  | errorCheck =>
    refine ⟨hcap, hday, ?_⟩
    dsimp only [Collector.goto]
    split <;> exact trivial
  | lastPage hadvance =>
    obtain ⟨traversals, hok, rfl⟩ := Shared.advanceTo_eq_ok hadvance
    exact ⟨hcap.keep rfl rfl (Traversals.Change.advance hok).length_le, hday, trivial⟩
  | nextPage hadvance hnext =>
    have hid := hsame (by rintro ⟨⟩)
    obtain ⟨traversals, hok, rfl⟩ := Shared.advanceTo_eq_ok hadvance
    refine ⟨hcap.keep rfl rfl (Traversals.Change.advance hok).length_le, hday, ?_⟩
    rw [hid]
    rcases hnext with rfl | rfl
    · exact hstage
    · exact trivial
  | finish hok =>
    exact ⟨hcap.keep rfl rfl (Traversals.Change.finish hok).length_le, hday, trivial⟩

end Step

/-! ## Runs under the lease -/

/-- The source lease serializes the attempts: no collector goes on without it. -/
def Serialized (_ : World) : CollectionEvent → Prop
  | .loseLease => False
  | _ => True

instance (w : World) : (e : CollectionEvent) → Decidable (Serialized w e)
  | .loseLease => instDecidableFalse
  | .collect _ _ => instDecidableTrue
  | .reply _ _ => instDecidableTrue
  | .ingest _ _ => instDecidableTrue
  | .die _ => instDecidableTrue
  | .recover _ => instDecidableTrue

/-- The maxima hold, and only the owner of the lease collects. -/
structure World.Capped (policy : CollectionPolicy) (w : World) : Prop where
  serial : ∀ p c, w.collectors p = some c → c.pc ≠ .returned → w.lease = some p
  shared : w.shared.Capped policy
  fits : ∀ p c, w.collectors p = some c → c.Fits policy w.shared

section Runs

variable {config : Config} {policy : IngestionPolicy} {w w' : World} {s : Shared} {c c' : Collector}
  {p q : ProcessId}

theorem Collector.fits_returned (h : c.pc = .returned) : c.Fits config.policy s := by
  refine ⟨?_, ?_⟩
  · rw [h]
    intro hactive
    cases hactive
  · rw [h]
    exact trivial

/-- A collector that does not own the lease has returned. -/
theorem World.Capped.returned (h : w.Capped config.policy) (hc : w.collectors p = some c)
    (hlease : w.lease ≠ some p) : c.pc = .returned := by
  by_contra hne
  exact hlease (h.serial p c hc hne)

theorem Collector.ne_returned_of_step {r : Reply CollectorInput Fault}
    (hstep : (collectorProgram config).step w.shared c r = some (s, c')) : c.pc ≠ .returned := by
  have hhandle : ∀ {e}, c.handle e = some c' → c.pc ≠ .returned := by
    intro e he hpc
    rw [Collector.handle, hpc] at he
    cases he
  rcases Program.step_cases hstep with ⟨i, -, hact⟩ | ⟨e, he, -, -⟩ | ⟨i, f, next, -, -, he⟩
  · exact (Collector.acts_of_act hact).ne_returned
  · exact hhandle he
  · exact hhandle he

/-- A step of one collector, whatever became of its operation. -/
theorem Collector.Fits.step {r : Reply CollectorInput Fault} (hord : w.shared.traversals.Ordered)
    (hs : w.shared.ledger.Sound w.shared.clock) (hcap : w.shared.Capped config.policy)
    (hfits : c.Fits config.policy w.shared)
    (hstep : (collectorProgram config).step w.shared c r = some (s, c')) :
    s.Capped config.policy ∧ c'.Fits config.policy s := by
  refine Program.step_local (J := fun s c' => s.Capped config.policy ∧ c'.Fits config.policy s)
    hstep ?_ ?_ ?_
  · intro i next hact
    have hacts := Collector.acts_of_act hact
    obtain ⟨hcap', hday, hstage⟩ := hacts.fits rfl hord hs hcap hfits
    refine ⟨hcap', fun _ => ?_, hstage⟩
    rcases hacts.active_or_begin with hactive | hbegin
    · have hsame := hacts.same (by rintro hbegin; rw [hbegin] at hactive; cases hactive)
      rw [hsame.attempt]
      exact hday hactive
    · rw [hbegin] at hacts
      obtain ⟨rfl, rfl⟩ := hacts.begin_eq
      exact hcap'.dayFits hstage
  · intro e he _
    refine ⟨hcap, fun hactive => ?_, Collector.handle_fits he⟩
    rw [(Collector.handle_same he).attempt]
    exact hfits.day (Collector.handle_active he hactive)
  · intro i f next hact he
    obtain ⟨hcap', hday, -⟩ := (Collector.acts_of_act hact).fits rfl hord hs hcap hfits
    refine ⟨hcap', fun hactive => ?_, Collector.handle_fits he⟩
    rw [(Collector.handle_same he).attempt]
    exact hday (Collector.handle_active he hactive)

theorem World.Capped.reply {r : Reply CollectorInput Fault} (h : w.Capped config.policy)
    (hord : w.shared.traversals.Ordered) (hs : w.shared.ledger.Sound w.shared.clock)
    (hc : w.collectors p = some c)
    (hstep : (collectorProgram config).step w.shared c r = some (s, c')) :
    World.Capped config.policy ⟨s, if c'.pc = .returned then w.released p else w.lease,
      Function.update w.collectors p (some c')⟩ := by
  have hlease : w.lease = some p := h.serial p c hc (Collector.ne_returned_of_step hstep)
  obtain ⟨hcap, hfits⟩ := (h.fits p c hc).step hord hs h.shared hstep
  -- The others have returned, since they do not own the lease.
  have hothers : ∀ q d, q ≠ p → w.collectors q = some d → d.pc = .returned := by
    intro q d hq hd
    refine h.returned hd ?_
    rw [hlease]
    exact fun heq => hq (Option.some.inj heq).symm
  refine ⟨?_, hcap, ?_⟩
  · intro q d hd hactive
    rcases update_some_eq_some hd with ⟨rfl, rfl⟩ | ⟨hq, hd⟩
    · rw [if_neg hactive]
      exact hlease
    · exact absurd (hothers q d hq hd) hactive
  · intro q d hd
    rcases update_some_eq_some hd with ⟨rfl, rfl⟩ | ⟨hq, hd⟩
    · exact hfits
    · exact Collector.fits_returned (hothers q d hq hd)

/-- An event of the ingest calls writes no charge. -/
theorem World.Capped.life (h : w.Capped config.policy) (life : Lifecycle) :
    World.Capped config.policy { w with shared := { w.shared with life := life } } :=
  ⟨h.serial, h.shared.keep rfl rfl (Nat.le_refl _), fun p c hc => (h.fits p c hc).keep rfl rfl⟩

theorem World.Capped.next {e : CollectionEvent} (h : w.Capped config.policy)
    (hord : w.shared.traversals.Ordered) (hs : w.shared.ledger.Sound w.shared.clock)
    (hok : Serialized w e) (hnext : w.next config policy e = some w') :
    w'.Capped config.policy := by
  cases World.moves_of_next hnext with
  | collect hfree hidle =>
    refine ⟨?_, h.shared, ?_⟩
    · intro q d hd hactive
      rcases update_some_eq_some hd with ⟨rfl, rfl⟩ | ⟨-, hd⟩
      · rfl
      · have hlease := h.serial q d hd hactive
        rw [hfree] at hlease
        cases hlease
    · intro q d hd
      rcases update_some_eq_some hd with ⟨rfl, rfl⟩ | ⟨-, hd⟩
      · refine ⟨?_, trivial⟩
        intro hactive
        cases hactive
      · exact h.fits q d hd
  | reply hc hstep => exact h.reply hord hs hc hstep
  | ingest => exact h.life _
  | @die p life hlife =>
    refine ⟨?_, (h.life life).shared, ?_⟩
    · intro q d hd hactive
      obtain ⟨hq, hd⟩ := update_none_eq_some hd
      have hlease := h.serial q d hd hactive
      show w.released p = some q
      rw [World.released, hlease, if_neg fun heq => hq (Option.some.inj heq)]
    · exact fun q d hd => (h.life life).fits q d (collectors_of_update_none hd)
  | recover => exact h.life _
  | loseLease => exact hok.elim

theorem world_capped (h : Reach (collectionSystem config policy) Serialized w) :
    w.Capped config.policy := by
  refine h.invariant_of (P := World.Capped config.policy) ?_ ?_
  · rintro w ⟨clock, rfl⟩
    refine ⟨?_, ⟨?_, fun _ => Int.natCast_nonneg _, fun _ _ => Nat.zero_le _⟩, ?_⟩
    · intro p c hc
      cases hc
    · intro t ht
      cases ht
    · intro p c hc
      cases hc
  · intro w e w' hreach hw hok hnext
    exact hw.next (world_attached hreach).ordered (world_charging_sound hreach).ledger hok hnext

end Runs

/-! ## The ledger -/

/-- What the rows of the ledger say of each other. -/
structure Charging.Balanced (s : Charging) : Prop where
  /-- A stored bucket holds the open reservations and the exact charges dated in it. -/
  buckets : ∀ b ∈ s.ledger.buckets,
    b.counts.chargedBytes = s.ledger.dated b.startedAt ∧ 0 ≤ b.counts.chargedBytes
  attempts : ∀ a, s.ledger.charged a = s.ledger.chargedTo a
  /-- A file is charged with its archive once at most. -/
  once : UniqueOn ArchiveCharge.file s.ledger.archives
  lengths : s.ledger.MatchesArchives s.life.store.files
  /-- A settlement that found the archive of its file left the charge. -/
  found : ∀ t ∈ s.ledger.transfers, t.archiveAttached = true →
    ∃! c, c ∈ s.ledger.archives ∧ c.file = t.file

theorem Charging.Sound.balanced {s : Charging} (h : s.Sound) : s.Balanced where
  buckets := by
    intro b hb
    obtain ⟨horizon, -, hstored, hpruned⟩ := h.ledger.buckets
    have hrow := hstored.stored b.startedAt (hpruned b hb)
    rw [storedBytes_of_mem hstored.unique hb] at hrow
    exact ⟨hrow, (hstored.counts b hb).1⟩
  attempts := h.ledger.rows.charged
  once := h.ledger.rows.archiveFiles
  lengths := h.archives
  found := by
    intro t ht hattached
    obtain ⟨c, hc, hfile⟩ := h.ledger.rows.archiveCharge t ht hattached
    refine ⟨c, ⟨hc, hfile⟩, ?_⟩
    rintro d ⟨hd, hdfile⟩
    have hunique := h.ledger.rows.archiveFiles
    have hlookup := lookup_of_mem hunique hc
    rw [hfile, ← hdfile, lookup_of_mem hunique hd] at hlookup
    exact Option.some.inj hlookup

/-- The run total of every attempt and the rolling-day total at every later instant. -/
structure World.AtMost (policy : CollectionPolicy) (w : World) : Prop where
  run : ∀ a, w.shared.ledger.charged a ≤ policy.maximumChargedBytesPerSourceRun
  day : ∀ now, w.shared.clock ≤ now → (dayCounts now w.shared.ledger.buckets).chargedBytes ≤
    policy.maximumChargedBytesPerSourceDay

/-- The books balance over every order of charge calls; under the source lease the maxima hold. -/
theorem charge_ledger (config : Config) (policy : IngestionPolicy) :
    (∀ s, Reach (chargingSystem policy config.sourceId) Any s → s.Balanced) ∧
      ∀ w, Reach (collectionSystem config policy) Serialized w → w.AtMost config.policy := by
  refine ⟨fun s hs => (charging_sound hs).balanced, ?_⟩
  intro w hw
  have hcap := (world_capped hw).shared
  refine ⟨hcap.run, ?_⟩
  intro now hnow
  have hsound : w.shared.ledger.Sound w.shared.clock := (world_charging_sound hw).ledger
  rw [hsound.dayCounts_chargedBytes hnow]
  exact Int.ofNat_le.mpr (hcap.day now hnow)

theorem charge_ledger_sample :
    World.AtMost samplePolicy ((collectionSystem sampleConfig ⟨4⟩).afterChecked Serialized
      (.start 0) collectionEvents) := by
  refine (charge_ledger sampleConfig ⟨4⟩).2 _ (reach_afterChecked _ ⟨0, rfl⟩ ?_)
  decide +kernel

/-- The process that archived a file has died before the settlement: the file is completed, and its
archive is charged to no attempt. -/
theorem archive_charged_to_no_attempt :
    ∃ w, Reach (collectionSystem sampleConfig ⟨4⟩) Serialized w ∧
      statusOf w.shared.files 1 = some .completed ∧
      (archiveOf w.shared.files 1).isSome = true ∧ w.shared.ledger.archives = [] := by
  refine ⟨_, reach_afterChecked (collectedEvents 0 ++ [.die 0]) ⟨0, rfl⟩ ?_, ?_, ?_, ?_⟩
  · decide +kernel
  · decide +kernel
  · decide +kernel
  · decide +kernel

end Makolet.Collection
