import Makolet.Worker.Continuous
import Makolet.Worker.Once

/-!
# What a failed health record costs

`record_source_health` raises outside the `try` of the ingest, and its exception ends the consumer.
Under continuous scheduling the last consumer may end this way, and what is queued later stays
queued. In `run_once` one dead consumer is enough: its sentinel is never reported done, and the wait
for the queue does not return.
-/

set_option autoImplicit false

namespace Makolet.Worker

open Makolet.Domain Makolet.Lib

namespace Once

variable {policy : WorkerPolicy} {values : List String}

/-- A run of `run_once` in which a consumer died has not ended, and so never ends. -/
theorem not_settled_of_died {s : Once} (hs : Reach (runOnce policy values) Any s) {e : Exception}
    (he : .died e ∈ s.consumers) : ¬ s.Settled (selectedSources policy values) := by
  rcases accounted hs with h | ⟨sources, stops, h⟩
  · rw [h.consumers] at he
    cases he
  · intro hsettled
    have hdrained : s.Drained := by
      revert hsettled
      unfold Settled Drained
      cases s.caller <;> simp
    obtain ⟨-, -, hall⟩ := h.all_finished (Tracked.toPut_of_drained hdrained) (h.drained hdrained)
    cases hall _ he

end Once

/-- The guarantees of the scheduler. At most one run of a source is queued or running in every run.
Nothing is stranded where no failure ends the last consumer of `run_forever`, or any of `run_once`;
then `run_once` ends as it should, and after a consumer died it has not ended in any state. -/
theorem schedules_safely (policy : WorkerPolicy) :
    (∀ values s, Reach (runForever policy values) Any s → s.AtMostOne) ∧
    (∀ values s, Reach (runForever policy values) Continuous.Spares s → s.NotStranded) ∧
    (∀ values s, Reach (runOnce policy values) Any s → s.AtMostOne) ∧
    (∀ values s, Reach (runOnce policy values) Once.Records s → s.NotStranded) ∧
    (∀ values s, (runOnce policy values).init s →
      Inevitable (runOnce policy values) Once.Records
        (Once.Settled (Once.selectedSources policy values)) s) ∧
    ∀ values s, Reach (runOnce policy values) Any s → (∃ e, .died e ∈ s.consumers) →
      ¬ s.Settled (Once.selectedSources policy values) := by
  refine ⟨?_, ?_, ?_, ?_, ?_, ?_⟩
  · exact fun _ _ hs => Continuous.atMostOne hs
  · exact fun _ _ hs => Continuous.notStranded hs
  · exact fun _ _ hs => Once.atMostOne hs
  · exact fun _ _ hs => Once.notStranded hs
  · exact fun _ _ hs => Once.ends hs
  · exact fun _ _ hs ⟨_, he⟩ => Once.not_settled_of_died hs he

/-- The defaults of `WorkerPolicy` with one consumer. -/
def singlePolicy : WorkerPolicy where
  concurrency := 1
  queueCapacity := 64
  maximumSources := 1000
  heartbeatInterval := seconds 30
  schedulerResolution := seconds 1
  staleAfter := hours 2
  staleRecoveryInterval := minutes 15
  shutdownGrace := seconds 30
  limits_pos := by decide
  durations_pos := by decide

/-- A source collected every hour, at once first. -/
def hourly (name : String) (h : isSourceId name = true) : SourceSchedule where
  sourceId := name
  interval := hours 1
  jitterRatio := 0
  runImmediately := true
  valid_id := h
  interval_pos := by decide
  ratio_range := by decide

def hourlyPair : List SourceSchedule := [hourly "a" (by decide), hourly "b" (by decide)]

/-- Both sources are due and queued; the consumer takes the first, and its first record raises. -/
def strandingForever : List Continuous.Label :=
  [.reply .returned, .tick 0 (fun _ _ => 0), .take 0 0,
    .answer 0 (.raised (.other "telemetry unavailable")) 0]

/-- The one consumer dies of its first record, and its sentinel stays in the queue. -/
def strandingOnce : List Once.Label :=
  [.recovered 0, .put, .put, .put, .take 0 0, .answer 0 (.raised (.other "telemetry unavailable")) 0]

def strandedForever : Continuous :=
  (runForever singlePolicy hourlyPair).after
    (Continuous.start singlePolicy hourlyPair 0 fun _ _ => 0) strandingForever

def strandedOnce : Once :=
  (runOnce singlePolicy ["a"]).after (Once.start singlePolicy ["a"] []) strandingOnce

/-- The caller waits for a sentinel that the dead consumer does not take. -/
theorem strandedOnce_eq : strandedOnce.caller = .joining 0 ∧ strandedOnce.queue.unfinished = 1 ∧
    strandedOnce.consumers = [.died (.other "telemetry unavailable")] := by
  refine ⟨rfl, ?_, ?_⟩ <;> decide +kernel

/-- A dead consumer has no step. -/
theorem no_step_of_dead {s : Once} {e : Exception} (h : s.consumers = [.died e]) (i : Nat)
    (r : Reply) (now : Time) : Once.take s i now = none ∧ Once.answer s i r now = none := by
  cases i <;> simp [Once.take, Once.answer, h]

/-- A single failure to record a source's health leaves a queued source, or the stop sentinel,
without a consumer; `run_once` waits forever. -/
theorem failed_record_strands :
    Reach (runForever singlePolicy hourlyPair) Any strandedForever ∧
    strandedForever.stopRequested = false ∧ strandedForever.queue.items = ["b"] ∧
    (∀ c ∈ strandedForever.consumers, ¬ c.Alive) ∧
    Reach (runOnce singlePolicy ["a"]) Any strandedOnce ∧
    strandedOnce.queue.items = [none] ∧ (∀ c ∈ strandedOnce.consumers, ¬ c.Alive) ∧
    ¬ strandedOnce.Settled ["a"] ∧ ∀ l, (runOnce singlePolicy ["a"]).next strandedOnce l = none := by
  obtain ⟨hcaller, hunfinished, hconsumers⟩ := strandedOnce_eq
  refine ⟨reach_after _ ⟨0, fun _ _ => 0, rfl⟩ (by decide +kernel), by decide +kernel,
    by decide +kernel, by decide +kernel, reach_after _ ⟨[], rfl⟩ (by decide +kernel),
    by decide +kernel, by decide +kernel, ?_, fun l => ?_⟩
  · rw [Once.Settled, hcaller]
    exact id
  · have hdead := no_step_of_dead hconsumers
    cases l with
    | take i now => exact (hdead i .returned now).1
    | answer i r now => exact (hdead i r now).2
    | _ => simp [runOnce, Once.next, hcaller, hunfinished]

end Makolet.Worker
