import Mathlib.Algebra.BigOperators.Group.List.Basic
import Mathlib.Algebra.GroupWithZero.Nat
import Makolet.Ingestion.Lifecycle

/-!
# The bytes of download attempts

The retry loop of `_download_and_archive`, with what one attempt tells about its bytes: the length
that the archive stored, the counter of the download session and the bytes that an exception
carries. `TransferRun` keeps the attempts that were made beside the outcome of the call, whose
transferred bytes are compared with the sum over those attempts.
-/

set_option autoImplicit false

namespace Makolet.Ingestion

open Makolet.Domain Makolet.Lib

/-! ## Attempts -/

/-- `error.transferred_bytes`, which only a `MakoletError` has. -/
def reportedBytes (e : Failure) : Nat := if e.kind.isMakolet then e.transferredBytes else 0

/-- An exception that leaves an attempt, with the flag of a `DownloadLimitError`. -/
structure Raised where
  failure : Failure
  budgetLimited : Bool
  isException : failure.kind.isException = true

/-- One attempt, by how far it came. `length` and `counted` are the stored length and the session
counter when the archive had stored the content, `session` is the counter when the exception
arrived. -/
inductive AttemptRun
  | unopened (r : Raised)
  | unarchived (session : Nat) (r : Raised)
  | unrecorded (length counted session : Nat) (r : Raised)
  | unclosed (length counted session : Nat) (r : Raised)
  | completed (length counted : Nat)

namespace AttemptRun

def raised : AttemptRun → Option Raised
  | unopened r | unarchived _ r | unrecorded _ _ _ r | unclosed _ _ _ r => some r
  | completed _ _ => none

/-- `attempt_transferred_bytes`. -/
def attemptBytes : AttemptRun → Nat
  | unopened _ | unarchived _ _ => 0
  | unrecorded length counted _ _ | unclosed length counted _ _ | completed length counted =>
    max length counted

/-- `session.transferred_bytes`, without a session zero, when the exception arrived. -/
def sessionBytes : AttemptRun → Nat
  | unarchived session _ | unrecorded _ _ session _ | unclosed _ _ session _ => session
  | unopened _ | completed _ _ => 0

/-- What the attempt added to `transferred_bytes` once `record_archive` had returned. -/
def recordedBytes : AttemptRun → Nat
  | unclosed length counted _ _ | completed length counted => max length counted
  | _ => 0

/-- The bytes of the attempt itself. -/
def ownBytes (a : AttemptRun) : Nat :=
  max a.attemptBytes (max ((a.raised.map fun r => reportedBytes r.failure).getD 0) a.sessionBytes)

/-- `transferred_bytes` after the attempt. -/
def total (a : AttemptRun) (transferred : Nat) : Nat :=
  match a.raised with
  | none => transferred + a.recordedBytes
  | some r =>
    transferred + a.recordedBytes + max a.attemptBytes (max (reportedBytes r.failure) a.sessionBytes)

end AttemptRun

/-- The exception of an attempt as its handlers pass it on. -/
def handedOn (total : Nat) (r : Raised) : Failure :=
  if r.failure.kind = .downloadLimit ∧ r.budgetLimited = true then
    ⟨.chargeBudgetExceeded,
      "Source transfer exceeds the remaining collection charged-byte budget", total⟩
  else downloadPropagated total r.failure

/-! ## The retry loop -/

structure TransferRun where
  attempts : List AttemptRun
  outcome : Except Failure Nat

/-- The transferred bytes of the result or of the error. -/
def TransferRun.transferredBytes (run : TransferRun) : Nat :=
  match run.outcome with
  | .ok bytes => bytes
  | .error e => reportedBytes e

def retriesExhausted : Failure :=
  ⟨.chargeBudgetExceeded, "Source retries exhausted the remaining collection byte budget", 0⟩

/-- The attempts from the given number on, with so many more allowed after it. The downloader
answers for an attempt number and the bytes that it may still transfer. -/
def attemptLoop (downloader : Nat → Option Nat → AttemptRun) (limit : Option Nat)
    (left number transferred : Nat) : TransferRun :=
  if (limit.any fun bytes => decide (bytes ≤ transferred)) = true then
    ⟨[], .error (downloadPropagated transferred retriesExhausted)⟩
  else
    let a := downloader number (limit.map (· - transferred))
    match a.raised with
    | none => ⟨[a], .ok (a.total transferred)⟩
    | some r =>
      match left with
      | 0 => ⟨[a], .error (handedOn (a.total transferred) r)⟩
      | left + 1 =>
        if isRetryable (handedOn (a.total transferred) r) = true then
          let rest := attemptLoop downloader limit left (number + 1) (a.total transferred)
          ⟨a :: rest.attempts, rest.outcome⟩
        else ⟨[a], .error (handedOn (a.total transferred) r)⟩
  termination_by structural left

/-- `_download_and_archive`. -/
def downloadAndArchive (policy : IngestionPolicy) (downloader : Nat → Option Nat → AttemptRun)
    (maximumChargedBytes : Option Nat) : TransferRun :=
  attemptLoop downloader maximumChargedBytes (policy.downloadAttempts - 1) 1 0

/-! ## What is counted -/

/-- The bytes of an attempt that failed after they were added once. -/
def AttemptRun.countedAgain : AttemptRun → Nat
  | .unclosed length counted _ _ => max length counted
  | _ => 0

theorem AttemptRun.total_eq (a : AttemptRun) (transferred : Nat) :
    a.total transferred = transferred + a.ownBytes + a.countedAgain := by
  cases a with
  | completed length counted => simp [total, raised, recordedBytes, ownBytes, attemptBytes,
      sessionBytes, countedAgain]
  | unclosed length counted session r =>
    simp only [total, raised, recordedBytes, ownBytes, attemptBytes, sessionBytes, countedAgain,
      Option.map_some, Option.getD_some]
    omega
  | _ => simp [total, raised, recordedBytes, ownBytes, attemptBytes, sessionBytes, countedAgain]

/-- An exception that is passed on carries the whole count. -/
theorem reportedBytes_downloadPropagated (total : Nat) (e : Failure) :
    reportedBytes (downloadPropagated total e) = total := by
  unfold downloadPropagated
  split
  · rename_i hmakolet
    exact if_pos hmakolet
  · rename_i hother
    split
    · rename_i hzero
      rw [hzero]
      exact if_neg hother
    · rfl

theorem reportedBytes_handedOn (total : Nat) (r : Raised) :
    reportedBytes (handedOn total r) = total := by
  unfold handedOn
  split
  · rfl
  · exact reportedBytes_downloadPropagated total r.failure

/-- How a call of the loop goes, from an attempt number and the count before it. -/
inductive Loops (downloader : Nat → Option Nat → AttemptRun) (limit : Option Nat) :
    Nat → Nat → TransferRun → Prop
  | exhausted {number transferred : Nat} :
      Loops downloader limit number transferred
        ⟨[], .error (downloadPropagated transferred retriesExhausted)⟩
  | returned {number transferred : Nat} {a : AttemptRun}
      (hopen : ∀ bytes, limit = some bytes → transferred < bytes)
      (ha : downloader number (limit.map (· - transferred)) = a) :
      Loops downloader limit number transferred ⟨[a], .ok (a.total transferred)⟩
  | raised {number transferred : Nat} {a : AttemptRun} {r : Raised}
      (hopen : ∀ bytes, limit = some bytes → transferred < bytes)
      (ha : downloader number (limit.map (· - transferred)) = a) :
      Loops downloader limit number transferred ⟨[a], .error (handedOn (a.total transferred) r)⟩
  | retried {number transferred : Nat} {a : AttemptRun} {rest : TransferRun}
      (hopen : ∀ bytes, limit = some bytes → transferred < bytes)
      (ha : downloader number (limit.map (· - transferred)) = a)
      (hrest : Loops downloader limit (number + 1) (a.total transferred) rest) :
      Loops downloader limit number transferred ⟨a :: rest.attempts, rest.outcome⟩

section Loop

variable {downloader : Nat → Option Nat → AttemptRun} {limit : Option Nat}

theorem attemptLoop_loops (left number transferred : Nat) :
    Loops downloader limit number transferred
      (attemptLoop downloader limit left number transferred) := by
  have hopen : ∀ transferred, ¬ (limit.any fun bytes => decide (bytes ≤ transferred)) = true →
      ∀ bytes, limit = some bytes → transferred < bytes := by
    rintro transferred hany bytes rfl
    simpa using hany
  induction left generalizing number transferred with
  | zero =>
    unfold attemptLoop
    split
    · exact .exhausted
    · rename_i hany
      dsimp only
      split
      · exact .returned (hopen _ hany) rfl
      · exact .raised (hopen _ hany) rfl
  | succ left ih =>
    unfold attemptLoop
    split
    · exact .exhausted
    · rename_i hany
      dsimp only
      split
      · exact .returned (hopen _ hany) rfl
      · split
        · exact .retried (hopen _ hany) rfl (ih _ _)
        · exact .raised (hopen _ hany) rfl

/-- The loop reports what was counted before it and by each of its attempts, and once more what
failed after it was recorded. -/
theorem Loops.transferredBytes {number transferred : Nat} {run : TransferRun}
    (h : Loops downloader limit number transferred run) :
    run.transferredBytes = transferred + (run.attempts.map AttemptRun.ownBytes).sum +
      (run.attempts.map AttemptRun.countedAgain).sum := by
  induction h with
  | exhausted => exact reportedBytes_downloadPropagated _ retriesExhausted
  | returned hopen ha =>
    simp only [TransferRun.transferredBytes, AttemptRun.total_eq, List.map_cons, List.map_nil,
      List.sum_cons, List.sum_nil]
    omega
  | raised hopen ha =>
    simp only [TransferRun.transferredBytes, reportedBytes_handedOn, AttemptRun.total_eq,
      List.map_cons, List.map_nil, List.sum_cons, List.sum_nil]
    omega
  | @retried number transferred a rest hopen ha hrest ih =>
    rw [AttemptRun.total_eq] at ih
    have hsame : TransferRun.transferredBytes ⟨a :: rest.attempts, rest.outcome⟩ =
        rest.transferredBytes := rfl
    rw [hsame, ih, List.map_cons, List.map_cons, List.sum_cons, List.sum_cons]
    omega

/-- Each attempt keeps to the limit it was opened with, but for one transfer chunk. -/
def Honours (downloader : Nat → Option Nat → AttemptRun) (chunk : Nat) : Prop :=
  ∀ number bytes, (downloader number (some bytes)).ownBytes ≤ bytes + chunk

/-- An attempt is opened below the limit only, so the attempts together exceed it by one chunk. -/
theorem Loops.ownBytes_le {number transferred chunk bytes : Nat} {run : TransferRun}
    (h : Loops downloader (some bytes) number transferred run) (hhonours : Honours downloader chunk)
    (hbefore : transferred ≤ bytes + chunk)
    (honce : ∀ a ∈ run.attempts, a.countedAgain = 0) :
    transferred + (run.attempts.map AttemptRun.ownBytes).sum ≤ bytes + chunk := by
  have hattempt : ∀ {number transferred : Nat} {a : AttemptRun},
      (∀ b, some bytes = some b → transferred < b) →
      downloader number ((some bytes).map (· - transferred)) = a →
      transferred + a.ownBytes ≤ bytes + chunk := by
    rintro number transferred a hopen rfl
    have hlt := hopen bytes rfl
    have hown := hhonours number (bytes - transferred)
    rw [Option.map_some]
    omega
  induction h with
  | exhausted => exact hbefore
  | returned hopen ha =>
    have hle := hattempt hopen ha
    simpa using hle
  | raised hopen ha =>
    have hle := hattempt hopen ha
    simpa using hle
  | retried hopen ha hrest ih =>
    have hle := hattempt hopen ha
    have hzero := honce _ List.mem_cons_self
    rw [AttemptRun.total_eq, hzero] at ih
    have hlater := ih (by omega) fun a hmem => honce a (List.mem_cons_of_mem _ hmem)
    simp only [List.map_cons, List.sum_cons]
    omega

end Loop

/-- When the reported bytes of a call are those of its attempts, each counted once and together
within the limit and one chunk. -/
theorem transferred_once_iff (policy : IngestionPolicy)
    (downloader : Nat → Option Nat → AttemptRun) (maximumChargedBytes : Option Nat) :
    let run := downloadAndArchive policy downloader maximumChargedBytes
    (run.transferredBytes = (run.attempts.map AttemptRun.ownBytes).sum ∧
        ∀ bytes chunk, maximumChargedBytes = some bytes → Honours downloader chunk →
          run.transferredBytes ≤ bytes + chunk) ↔
      ∀ a ∈ run.attempts, ∀ length counted session r,
        a = .unclosed length counted session r → length = 0 ∧ counted = 0 := by
  intro run
  have hloops : Loops downloader maximumChargedBytes 1 0 run := attemptLoop_loops _ _ _
  have hbytes := hloops.transferredBytes
  have hagain : (∀ a ∈ run.attempts, a.countedAgain = 0) ↔
      ∀ a ∈ run.attempts, ∀ length counted session r,
        a = .unclosed length counted session r → length = 0 ∧ counted = 0 := by
    refine forall₂_congr fun a _ => ?_
    cases a with
    | unclosed length counted session r =>
      simp only [AttemptRun.countedAgain, AttemptRun.unclosed.injEq]
      constructor
      · rintro hzero _ _ _ _ ⟨rfl, rfl, -, -⟩
        omega
      · intro h
        obtain ⟨rfl, rfl⟩ := h length counted session r ⟨rfl, rfl, rfl, rfl⟩
        rfl
    | _ => simp [AttemptRun.countedAgain]
  rw [← hagain]
  constructor
  · rintro ⟨honce, -⟩ a ha
    have hsum : (run.attempts.map AttemptRun.countedAgain).sum = 0 := by omega
    exact List.sum_eq_zero_iff_forall_eq_nat.mp hsum _ (List.mem_map_of_mem ha)
  · intro honce
    have hsum : (run.attempts.map AttemptRun.countedAgain).sum = 0 := by
      refine List.sum_eq_zero fun n hn => ?_
      obtain ⟨a, ha, rfl⟩ := List.mem_map.mp hn
      exact honce a ha
    refine ⟨by omega, ?_⟩
    rintro bytes chunk rfl hhonours
    have hle := hloops.ownBytes_le hhonours (Nat.zero_le _) honce
    omega

/-! ## A deadline that passes while the response is closed -/

def deadlineError : Raised :=
  ⟨⟨.sourceAccess, "Public source download exceeded its total deadline", 10⟩, false, rfl⟩

/-- A download that is recorded before its deadline and closed after it. -/
def closedLate : Nat → Option Nat → AttemptRun := fun _ _ => .unclosed 10 10 10 deadlineError

/-- The bytes of one transfer are reported twice. -/
theorem closed_late_counted_twice :
    let run := downloadAndArchive ⟨1⟩ closedLate (some 20)
    run.transferredBytes = 20 ∧ (run.attempts.map AttemptRun.ownBytes).sum = 10 := by
  decide +kernel

end Makolet.Ingestion
