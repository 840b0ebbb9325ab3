import Makolet.Collection.Bookkeeping
import Makolet.Ingestion.Ownership

/-!
# Charge calls in any order

`chargingSystem` interleaves any calls of `charge_budget`, `reserve_transfer` and `settle_transfer`,
by any attempts and for any files of one retailer, with the ingests that attach the archives. The
clock only moves forward. `charging_sound` is the bookkeeping invariant over every such run; the
collector's own runs are runs of this system.
-/

set_option autoImplicit false

namespace Makolet.Collection

open Makolet.Domain Makolet.Lib Makolet.Lib.Table Makolet.Ingestion Makolet.Normalized

/-! ## The calls -/

def outsideScope (charge : String) : Failure :=
  ⟨.persistenceConflict, "Collection " ++ charge ++ " charge is outside the attempt source scope", 0⟩

def notRegistered (charge : String) : Failure :=
  ⟨.persistenceConflict, "Collection " ++ charge ++ " charge source file was not registered", 0⟩

/-- `reserve_transfer` of a running attempt. -/
def reserveTransfer (retailer : RetailerId) (files : Files) (a : AttemptId) (remote : RemoteFile)
    (length : Nat) (r : Readings) (l : Ledger) : Except Failure (Ledger × ChargeBudget) :=
  require (remote.retailerId = retailer) (outsideScope "archive") >>= fun _ =>
    require ((files remote.fileId).isSome = true) (notRegistered "archive") >>= fun _ =>
      l.reserve a remote.fileId length r

/-- `settle_transfer` of a running attempt. -/
def settleTransfer (retailer : RetailerId) (files : Files) (a : AttemptId) (remote : RemoteFile)
    (transferred : Nat) (r : Readings) (l : Ledger) : Except Failure (Ledger × ChargeBudget) :=
  require (remote.retailerId = retailer) (outsideScope "transfer") >>= fun _ =>
    require ((files remote.fileId).isSome = true) (notRegistered "transfer") >>= fun _ =>
      l.settle a remote.fileId (archiveOf files remote.fileId) transferred r

/-! ## The system -/

structure Charging where
  life : Lifecycle
  ledger : Ledger
  clock : Time

def Charging.start (clock : Time) : Charging := ⟨.empty, .empty, clock⟩

inductive ChargeCall
  | chargeBudget (a : AttemptId)
  | reserve (a : AttemptId) (remote : RemoteFile) (length : Nat)
  | settle (a : AttemptId) (remote : RemoteFile) (transferred : Nat)

inductive ChargingEvent
  | life (e : LifecycleEvent)
  | register (remote : RemoteFile)
  | call (c : ChargeCall) (r : Readings)

/-- The result of a call. -/
def ChargeCall.run (retailer : RetailerId) (files : Files) (r : Readings) (l : Ledger) :
    ChargeCall → Except Failure (Ledger × ChargeBudget)
  | .chargeBudget a => .ok (l.budgetValue a r.locked)
  | .reserve a remote length => reserveTransfer retailer files a remote length r l
  | .settle a remote transferred => settleTransfer retailer files a remote transferred r l

/-- A call that raises leaves the ledger as it was; a reading before the clock cannot happen. -/
def Charging.next (policy : IngestionPolicy) (retailer : RetailerId) (s : Charging) :
    ChargingEvent → Option Charging
  | .life e => (s.life.next policy e).map fun life => { s with life := life }
  | .register remote =>
    match s.life.register remote with
    | .ok life => some { s with life := life }
    | .error _ => some s
  | .call c r =>
    if s.clock ≤ r.locked then
      match c.run retailer s.life.store.files r s.ledger with
      | .ok (l, _) => some { s with ledger := l, clock := r.relocked }
      | .error _ => some { s with clock := r.relocked }
    else none

def chargingSystem (policy : IngestionPolicy) (retailer : RetailerId) :
    Makolet.Lib.System Charging ChargingEvent where
  init s := ∃ clock, s = .start clock
  next := Charging.next policy retailer

/-! ## The invariant -/

section Calls

variable {retailer : RetailerId} {files : Files} {r : Readings} {l l' : Ledger} {clock : Time}
  {budget : ChargeBudget} {a : AttemptId} {remote : RemoteFile}

theorem reserveTransfer_eq_ok {length : Nat} :
    reserveTransfer retailer files a remote length r l = .ok (l', budget) ↔
      remote.retailerId = retailer ∧ (files remote.fileId).isSome = true ∧
        l.reserve a remote.fileId length r = .ok (l', budget) := by
  rw [reserveTransfer, require_bind_eq_ok, require_bind_eq_ok]

theorem settleTransfer_eq_ok {transferred : Nat} {result : Ledger × ChargeBudget} :
    settleTransfer retailer files a remote transferred r l = .ok result ↔
      remote.retailerId = retailer ∧ (files remote.fileId).isSome = true ∧
        l.settle a remote.fileId (archiveOf files remote.fileId) transferred r = .ok result := by
  rw [settleTransfer, require_bind_eq_ok, require_bind_eq_ok]

theorem Ledger.Sound.run (hs : l.Sound clock) (hclock : clock ≤ r.locked) {c : ChargeCall}
    (hok : c.run retailer files r l = .ok (l', budget)) : l'.Sound r.relocked := by
  cases c with
  | chargeBudget a =>
    cases hok
    exact (hs.budgetValue hclock a).mono (Int.le_trans r.locked_le r.charged_le)
  | reserve a remote length =>
    obtain ⟨-, -, hok⟩ := reserveTransfer_eq_ok.mp hok
    exact hs.reserve hclock hok
  | settle a remote transferred =>
    obtain ⟨-, -, hok⟩ := settleTransfer_eq_ok.mp hok
    exact hs.settle hclock hok

/-- Every archive charge carries the length of the archive of its file. -/
def Ledger.MatchesArchives (l : Ledger) (files : Files) : Prop :=
  ∀ c ∈ l.archives, ∃ object, archiveOf files c.file = some object ∧
    object.contentLength = c.contentLength

theorem Ledger.reserve_archives {f : FileId} {length : Nat}
    (hok : l.reserve a f length r = .ok (l', budget)) : l'.archives = l.archives := by
  unfold Ledger.reserve at hok
  dsimp only at hok
  split at hok
  · cases hok
    rfl
  · obtain ⟨m, hm, heq⟩ := map_eq_ok.mp hok
    cases heq
    obtain ⟨buckets, -, rfl⟩ := Ledger.charge_eq_ok hm
    rfl

/-- A settlement charges at most the archive that it found. -/
theorem Ledger.mem_settle_archives {f : FileId} {archive : Option ArchiveObject} {transferred : Nat}
    (hok : l.settle a f archive transferred r = .ok (l', budget)) {c : ArchiveCharge}
    (hc : c ∈ l'.archives) :
    c ∈ l.archives ∨ ∃ object, archive = some object ∧
      c = ⟨f, a, object.contentLength, r.charged⟩ := by
  unfold Ledger.settle at hok
  dsimp only at hok
  split at hok
  · cases hok
  · rename_i t ht
    split at hok
    · cases hok
      exact .inl hc
    · obtain ⟨m, hm, heq⟩ := map_eq_ok.mp hok
      cases heq
      obtain ⟨-, bs, buckets, -, -, rfl⟩ := Ledger.settleReservation_eq_ok hm
      have hkey := key_of_lookup ht
      rcases List.mem_append.mp hc with hold | hin
      · exact .inl hold
      · obtain ⟨-, object, harchive, rfl⟩ :=
          Ledger.newArchiveCharge_eq_some (Option.mem_toList.mp hin)
        cases hkey
        exact .inr ⟨object, harchive, rfl⟩

theorem Ledger.MatchesArchives.run (hm : l.MatchesArchives files) {c : ChargeCall}
    (hok : c.run retailer files r l = .ok (l', budget)) : l'.MatchesArchives files := by
  cases c with
  | chargeBudget a =>
    cases hok
    exact hm
  | reserve a remote length =>
    obtain ⟨-, -, hok⟩ := reserveTransfer_eq_ok.mp hok
    rw [Ledger.MatchesArchives, Ledger.reserve_archives hok]
    exact hm
  | settle a remote transferred =>
    obtain ⟨-, -, hok⟩ := settleTransfer_eq_ok.mp hok
    intro c hc
    rcases Ledger.mem_settle_archives hok hc with hold | ⟨object, harchive, rfl⟩
    · exact hm c hold
    · exact ⟨object, harchive, rfl⟩

end Calls

structure Charging.Sound (s : Charging) : Prop where
  owned : s.life.Owned
  ledger : s.ledger.Sound s.clock
  archives : s.ledger.MatchesArchives s.life.store.files

theorem Charging.Sound.start (clock : Time) : (Charging.start clock).Sound where
  owned := .empty
  ledger := .empty clock
  archives c hc := by cases hc

theorem Charging.Sound.next {policy : IngestionPolicy} {retailer : RetailerId} {s s' : Charging}
    {e : ChargingEvent} (h : s.Sound) (hnext : s.next policy retailer e = some s') : s'.Sound := by
  cases e with
  | life e =>
    obtain ⟨life, hlife, rfl⟩ := Option.map_eq_some_iff.mp hnext
    refine ⟨h.owned.next hlife, h.ledger, ?_⟩
    intro c hc
    obtain ⟨object, harchive, hlength⟩ := h.archives c hc
    exact ⟨object, h.owned.archive hlife harchive, hlength⟩
  | register remote =>
    simp only [Charging.next] at hnext
    split at hnext
    · rename_i life hreg
      cases hnext
      refine ⟨h.owned.register hreg, h.ledger, ?_⟩
      intro c hc
      obtain ⟨object, harchive, hlength⟩ := h.archives c hc
      exact ⟨object, Lifecycle.register_archive hreg harchive, hlength⟩
    · cases hnext
      exact h
  | call c r =>
    simp only [Charging.next] at hnext
    split at hnext
    · rename_i hclock
      have hlater : s.clock ≤ r.relocked :=
        Int.le_trans hclock (Int.le_trans r.locked_le r.charged_le)
      split at hnext
      · rename_i l budget hok
        cases hnext
        exact ⟨h.owned, h.ledger.run hclock hok, h.archives.run hok⟩
      · cases hnext
        exact ⟨h.owned, h.ledger.mono hlater, h.archives⟩
    · cases hnext

theorem charging_sound {policy : IngestionPolicy} {retailer : RetailerId}
    {ok : Charging → ChargingEvent → Prop} {s : Charging}
    (h : Reach (chargingSystem policy retailer) ok s) : s.Sound := by
  refine h.invariant (P := Charging.Sound) ?_ ?_
  · rintro s ⟨clock, rfl⟩
    exact .start clock
  · exact fun s e s' hs _ hnext => hs.next hnext

end Makolet.Collection
