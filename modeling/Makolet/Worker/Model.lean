import Mathlib.Data.Finset.Basic
import Mathlib.Data.Rat.Defs
import Makolet.Domain.Enums
import Makolet.Lib.Outcome
import Makolet.Lib.Table
import Makolet.Lib.Tasks

/-!
# The worker: policies, schedules and one source run

`application/worker.py`. A consumer task takes a source from the queue and runs it: it records the
source's health, awaits the ingest, and records the health again. `RunPoint` is the await at which a
run stands, and `answer` what the code does between one await and the next. `record_source_health`
is awaited outside the `try` of the ingest, so its exceptions end the run and with it the consumer.
-/

set_option autoImplicit false

namespace Makolet.Worker

open Makolet.Domain Makolet.Lib

abbrev SourceId := String

/-- Seconds of the monotonic clock. -/
abbrev Seconds := ℚ

def totalSeconds (d : Duration) : Seconds := d / 1000000

/-! ## Exceptions -/

/-- What an await raises: `asyncio.CancelledError`, a `MakoletError` with its code, or another
exception with its text. -/
inductive Exception
  | cancelled
  | makolet (code : String)
  | other (text : String)
  deriving DecidableEq, Repr

/-- `_worker_error_code`. -/
def workerErrorCode : Exception → String
  | .cancelled => "worker_shutdown"
  | .makolet code => code
  | .other _ => "unexpected_error"

/-- The answer of the environment to an await. -/
inductive Reply
  | returned
  | raised (e : Exception)
  deriving DecidableEq, Repr

/-! ## Sources and schedules -/

/-- `_SOURCE_ID`. -/
def isSourceId (value : String) : Bool :=
  match value.toList with
  | [] => false
  | first :: rest =>
    first.isAlphanum && decide (rest.length ≤ 199) &&
      rest.all fun c => c.isAlphanum || c ∈ ['.', '_', ':', '-']

/-- The characters that `str.strip` removes. -/
def isSpace (c : Char) : Bool :=
  decide ((9 ≤ c.toNat ∧ c.toNat ≤ 13) ∨ (28 ≤ c.toNat ∧ c.toNat ≤ 32) ∨
    c.toNat ∈ [0x85, 0xA0, 0x1680, 0x2028, 0x2029, 0x202F, 0x205F, 0x3000] ∨
    (0x2000 ≤ c.toNat ∧ c.toNat ≤ 0x200A))

/-- `value.strip()`. -/
def strip (value : String) : String :=
  String.ofList (((value.toList.dropWhile isSpace).reverse.dropWhile isSpace).reverse)

/-- One source's continuous collection cadence. -/
structure SourceSchedule where
  sourceId : SourceId
  interval : Duration
  jitterRatio : ℚ
  runImmediately : Bool
  valid_id : isSourceId sourceId = true
  interval_pos : 0 < interval
  ratio_range : 0 ≤ jitterRatio ∧ jitterRatio ≤ 1

/-- Process-level limits. -/
structure WorkerPolicy where
  concurrency : Nat
  queueCapacity : Nat
  maximumSources : Nat
  heartbeatInterval : Duration
  schedulerResolution : Duration
  staleAfter : Duration
  staleRecoveryInterval : Duration
  shutdownGrace : Duration
  limits_pos : 0 < concurrency ∧ 0 < queueCapacity ∧ 0 < maximumSources
  durations_pos : 0 < heartbeatInterval ∧ 0 < schedulerResolution ∧ 0 < staleAfter ∧
    0 < staleRecoveryInterval ∧ 0 < shutdownGrace

/-- `dict` insertion of a key: an old key keeps its place. -/
def insertKey (selected : List SourceId) (id : SourceId) : List SourceId :=
  if id ∈ selected then selected else selected ++ [id]

/-- The loop of `_source_ids`. -/
def sourceIdsFrom (maximum : Nat) : List SourceId → List String → Except Exception (List SourceId)
  | selected, [] => .ok selected
  | selected, value :: rest => do
    require (isSourceId (strip value) = true) (.other "source IDs contain unsupported characters")
    let selected := insertKey selected (strip value)
    require (selected.length ≤ maximum) (.other s!"worker source count exceeds {maximum}")
    sourceIdsFrom maximum selected rest

/-- `_source_ids`, and the check of `run_once` that something is selected. -/
def sourceIds (maximum : Nat) (values : List String) : Except Exception (List SourceId) := do
  let selected ← sourceIdsFrom maximum [] values
  require (selected ≠ []) (.other "at least one source is required")
  pure selected

/-- The loop of `_schedules`. -/
def schedulesFrom : List SourceSchedule → List SourceSchedule →
    Except Exception (List SourceSchedule)
  | selected, [] => .ok selected
  | selected, schedule :: rest => do
    require (schedule.sourceId ∉ selected.map SourceSchedule.sourceId)
      (.other s!"duplicate source schedule: {schedule.sourceId}")
    schedulesFrom (selected ++ [schedule]) rest

/-- `_schedules`, and the check of `run_forever` that something is scheduled. -/
def schedules (maximum : Nat) (values : List SourceSchedule) :
    Except Exception (List SourceSchedule) := do
  require (values.length ≤ maximum) (.other s!"worker source count exceeds {maximum}")
  let selected ← schedulesFrom [] values
  require (selected ≠ []) (.other "at least one source schedule is required")
  pure selected

theorem insertKey_nodup {selected : List SourceId} (h : selected.Nodup) (id : SourceId) :
    (insertKey selected id).Nodup := by
  unfold insertKey
  split
  · exact h
  · rename_i hnew
    exact List.Nodup.append h (List.nodup_singleton id) (List.disjoint_singleton.mpr hnew)

theorem sourceIdsFrom_nodup {maximum : Nat} {values : List String} {selected result : List SourceId}
    (h : sourceIdsFrom maximum selected values = .ok result) (hn : selected.Nodup) :
    result.Nodup := by
  induction values generalizing selected with
  | nil =>
    cases h
    exact hn
  | cons value rest ih =>
    obtain ⟨-, h⟩ := require_bind_eq_ok.mp h
    obtain ⟨-, h⟩ := require_bind_eq_ok.mp h
    exact ih h (insertKey_nodup hn _)

/-- The selected sources are pairwise different, and there is one. -/
theorem sourceIds_spec {maximum : Nat} {values : List String} {selected : List SourceId}
    (h : sourceIds maximum values = .ok selected) : selected.Nodup ∧ selected ≠ [] := by
  obtain ⟨ids, hids, h⟩ := bind_eq_ok.mp h
  obtain ⟨hne, h⟩ := require_bind_eq_ok.mp h
  cases pure_eq_ok.mp h
  exact ⟨sourceIdsFrom_nodup hids List.nodup_nil, hne⟩

/-! ## Source health -/

structure SourceHealth where
  sourceId : SourceId
  inFlight : Bool
  successfulRuns : Nat
  failedRuns : Nat
  consecutiveFailures : Nat
  lastStartedAt : Option Time
  lastSucceededAt : Option Time
  lastFailedAt : Option Time
  lastErrorCode : Option String
  deriving DecidableEq, Repr

/-- `SourceHealth(source_id=source_id)`. -/
def SourceHealth.fresh (id : SourceId) : SourceHealth := ⟨id, false, 0, 0, 0, none, none, none, none⟩

structure SourceRunOutcome where
  sourceId : SourceId
  succeeded : Bool
  startedAt : Time
  finishedAt : Time
  errorCode : Option String
  deriving DecidableEq, Repr

/-- `self._health`, a dictionary. -/
abbrev HealthTable := List (SourceId × SourceHealth)

def HealthTable.get (health : HealthTable) (id : SourceId) : SourceHealth :=
  ((Table.lookup Prod.fst health id).map Prod.snd).getD (.fresh id)

def HealthTable.set (health : HealthTable) (source : SourceId) (h : SourceHealth) : HealthTable :=
  Table.upsert Prod.fst Prod.fst id (fun old new => (old.1, new.2)) health [(source, h)]

/-! ## One source run -/

/-- The await at which `_run_source` stands. -/
inductive RunPoint
  | recordingStart (id : SourceId) (started : SourceHealth) (startedAt : Time)
  | ingesting (id : SourceId) (started : SourceHealth) (startedAt : Time)
  | recordingOutcome (outcome : SourceRunOutcome)
  | recordingStop (id : SourceId)
  deriving DecidableEq, Repr

/-- The source that a run is about. -/
def RunPoint.source : RunPoint → SourceId
  | .recordingStart id _ _ => id
  | .ingesting id _ _ => id
  | .recordingOutcome outcome => outcome.sourceId
  | .recordingStop id => id

/-- Where a run is after an answer. -/
inductive Progress
  | awaits (p : RunPoint)
  | returns (outcome : SourceRunOutcome)
  | raises (e : Exception)
  deriving DecidableEq, Repr

/-- `_run_source` up to its first await. -/
def beginRun (health : HealthTable) (id : SourceId) (now : Time) : HealthTable × RunPoint :=
  let started := { health.get id with inFlight := true, lastStartedAt := some now }
  (health.set id started, .recordingStart id started now)

/-- `_run_source` from one await to the next. -/
def answer (health : HealthTable) (now : Time) : RunPoint → Reply → HealthTable × Progress
  | .recordingStart id started startedAt, .returned =>
    (health, .awaits (.ingesting id started startedAt))
  -- The first record stands before the `try`.
  | .recordingStart _ _ _, .raised e => (health, .raises e)
  | .ingesting id started startedAt, .returned =>
    let succeeded := { started with
      inFlight := false, successfulRuns := started.successfulRuns + 1, consecutiveFailures := 0,
      lastSucceededAt := some now, lastErrorCode := none }
    (health.set id succeeded, .awaits (.recordingOutcome ⟨id, true, startedAt, now, none⟩))
  | .ingesting id started _, .raised .cancelled =>
    let stopped := { started with inFlight := false, lastErrorCode := some "worker_shutdown" }
    (health.set id stopped, .awaits (.recordingStop id))
  | .ingesting id started startedAt, .raised e =>
    let failed := { started with
      inFlight := false, failedRuns := started.failedRuns + 1,
      consecutiveFailures := started.consecutiveFailures + 1, lastFailedAt := some now,
      lastErrorCode := some (workerErrorCode e) }
    (health.set id failed,
      .awaits (.recordingOutcome ⟨id, false, startedAt, now, some (workerErrorCode e)⟩))
  -- The second record stands in the handler, or after the `try`.
  | .recordingOutcome outcome, .returned => (health, .returns outcome)
  | .recordingOutcome _, .raised e => (health, .raises e)
  -- `suppress(CancelledError)`, then the cancellation is raised again.
  | .recordingStop _, .returned => (health, .raises .cancelled)
  | .recordingStop _, .raised e => (health, .raises e)

/-- The answers with which a run raises. -/
def RunPoint.Fails : RunPoint → Reply → Prop
  | .recordingStart _ _ _, r => r ≠ .returned
  | .ingesting _ _ _, _ => False
  | .recordingOutcome _, r => r ≠ .returned
  | .recordingStop _, _ => True

instance (p : RunPoint) (r : Reply) : Decidable (p.Fails r) := by
  cases p <;> unfold RunPoint.Fails <;> infer_instance

/-- The answers that lead a run to raise. -/
def RunPoint.Breaks (p : RunPoint) (r : Reply) : Prop :=
  p.Fails r ∨ (∃ id started startedAt, p = .ingesting id started startedAt) ∧ r = .raised .cancelled

/-- How far a run is from its end. -/
def RunPoint.left : RunPoint → Nat
  | .recordingStart _ _ _ => 3
  | .ingesting _ _ _ => 2
  | .recordingOutcome _ => 1
  | .recordingStop _ => 1

@[simp] theorem source_beginRun (health : HealthTable) (id : SourceId) (now : Time) :
    (beginRun health id now).2.source = id := rfl

/-- What an answer does to a run: it goes on with the same source and less left, it returns an
outcome of that source, or it raises. It raises exactly on the answers that `Fails` names, and is
stopped only after one that `Breaks` names. -/
theorem answer_cases (health : HealthTable) (now : Time) (p : RunPoint) (r : Reply) :
    (¬ p.Fails r ∧ ∃ p', (answer health now p r).2 = .awaits p' ∧ p'.source = p.source ∧
      p'.left < p.left ∧ (¬ p.Breaks r → ∀ id, p' ≠ .recordingStop id)) ∨
    (¬ p.Fails r ∧ ∃ outcome, (answer health now p r).2 = .returns outcome ∧
      outcome.sourceId = p.source) ∨
    (p.Fails r ∧ ∃ e, (answer health now p r).2 = .raises e) := by
  cases p with
  | recordingStart id started startedAt =>
    cases r with
    | returned =>
      exact .inl ⟨by simp [RunPoint.Fails], _, rfl, rfl, Nat.lt_succ_self 2, fun _ _ => by simp⟩
    | raised e => exact .inr (.inr ⟨by simp [RunPoint.Fails], e, rfl⟩)
  | ingesting id started startedAt =>
    refine .inl ⟨not_false, ?_⟩
    -- A cancelled ingest is recorded as stopped, a failed one as an outcome.
    rcases r with _ | e
    · exact ⟨_, rfl, rfl, Nat.lt_succ_self 1, fun _ _ => by simp⟩
    · cases e with
      | cancelled =>
        exact ⟨_, rfl, rfl, Nat.lt_succ_self 1, fun h => absurd (.inr ⟨⟨_, _, _, rfl⟩, rfl⟩) h⟩
      | makolet code => exact ⟨_, rfl, rfl, Nat.lt_succ_self 1, fun _ _ => by simp⟩
      | other text => exact ⟨_, rfl, rfl, Nat.lt_succ_self 1, fun _ _ => by simp⟩
  | recordingOutcome outcome =>
    cases r with
    | returned => exact .inr (.inl ⟨by simp [RunPoint.Fails], outcome, rfl, rfl⟩)
    | raised e => exact .inr (.inr ⟨by simp [RunPoint.Fails], e, rfl⟩)
  | recordingStop id =>
    refine .inr (.inr ⟨trivial, ?_⟩)
    cases r <;> exact ⟨_, rfl⟩

/-! ## Consumers -/

/-- A consumer task. -/
inductive Consumer
  | idle
  | running (p : RunPoint)
  | finished
  | died (e : Exception)
  deriving DecidableEq, Repr

namespace Consumer

/-- The task has not ended. -/
def Alive : Consumer → Prop
  | idle | running _ => True
  | finished | died _ => False

instance (c : Consumer) : Decidable c.Alive := by
  cases c <;> unfold Alive <;> infer_instance

/-- The source that a consumer runs. -/
def source : Consumer → Option SourceId
  | running p => some p.source
  | _ => none

/-- How far a consumer is from being idle. -/
def left : Consumer → Nat
  | running p => p.left
  | _ => 0

end Consumer

/-- The sources that are running. -/
def runningSources (consumers : List Consumer) : List SourceId := consumers.filterMap Consumer.source

theorem runningSources_perm {consumers : List Consumer} {c : Consumer} {others : List Consumer}
    (h : consumers.Perm (c :: others)) :
    (runningSources consumers).Perm (c.source.toList ++ runningSources others) := by
  refine (h.filterMap Consumer.source).trans ?_
  cases hc : c.source <;> simp [runningSources, hc]

theorem mem_runningSources {consumers : List Consumer} {p : RunPoint}
    (h : Consumer.running p ∈ consumers) : p.source ∈ runningSources consumers :=
  List.mem_filterMap.mpr ⟨_, h, rfl⟩

end Makolet.Worker
