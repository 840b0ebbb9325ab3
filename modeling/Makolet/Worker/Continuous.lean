import Makolet.Lib.System
import Makolet.Worker.Model

/-!
# Continuous scheduling

`Worker.run_forever`. The scheduler queues the sources that are due and not pending, recovers stale
jobs and sends heartbeats; the consumers run what is queued; a stop drains the queue within the
grace period and cancels the consumers. A label is one task's step from one await to the next, with
the answer to the await and the readings of the clocks.

A source is never queued or running twice (`Continuous.atMostOne`). As long as no failure ends the
last consumer, a queued source finds one that is alive (`Continuous.notStranded`).
-/

set_option autoImplicit false

namespace Makolet.Worker

open Makolet.Domain Makolet.Lib

/-- What `_jitter` returns for a source and its maximum. -/
abbrev Jitter := SourceId → Seconds → Seconds

/-- `_delay`. -/
def delay (jitter : Jitter) (schedule : SourceSchedule) : Seconds :=
  totalSeconds schedule.interval +
    jitter schedule.sourceId (totalSeconds schedule.interval * schedule.jitterRatio)

/-- Where the scheduler stands. `pending` exceptions are raised again after the shutdown. -/
inductive Phase
  | starting (now : Seconds)
  | checking
  | recovering (now : Seconds)
  | beating (now : Seconds)
  | waiting
  | joining (pending : Option Exception)
  | cancelling (pending : Option Exception)
  | farewell (pending : Option Exception)
  | ended (result : Except Exception Unit)

/-- The consumers are told to stop. -/
def Phase.Cancelled : Phase → Prop
  | .cancelling _ | .farewell _ | .ended _ => True
  | _ => False

instance (p : Phase) : Decidable p.Cancelled := by
  cases p <;> unfold Phase.Cancelled <;> infer_instance

/-- The consumers do not exist yet. -/
def Phase.Starting : Phase → Prop
  | .starting _ => True
  | _ => False

structure Continuous where
  phase : Phase
  queue : TaskQueue SourceId
  pending : Finset SourceId
  nextDue : SourceId → Seconds
  nextHeartbeat : Seconds
  nextRecovery : Seconds
  stopRequested : Bool
  consumers : List Consumer
  health : HealthTable

namespace Continuous

inductive Label
  | requestStop
  | tick (now : Seconds) (jitter : Jitter)
  | reply (r : Reply)
  | wake
  | joined
  | graceElapsed
  | take (i : Nat) (now : Time)
  | answer (i : Nat) (r : Reply) (now : Time)
  | cancel (i : Nat)

/-- `run_forever` up to its first await. -/
def start (policy : WorkerPolicy) (values : List SourceSchedule) (now : Seconds) (jitter : Jitter) :
    Continuous :=
  let state (phase : Phase) (nextDue : SourceId → Seconds) : Continuous :=
    ⟨phase, .empty policy.queueCapacity, ∅, nextDue, now,
      now + totalSeconds policy.staleRecoveryInterval, false, [], []⟩
  match schedules policy.maximumSources values with
  | .error e => state (.ended (.error e)) fun _ => now
  | .ok selected =>
    state (.starting now) fun id =>
      match selected.find? fun schedule => schedule.sourceId = id with
      | some schedule => now + if schedule.runImmediately then 0 else delay jitter schedule
      | none => now

/-- The `for` loop of a tick. -/
def enqueueDue (now : Seconds) (jitter : Jitter) : List SourceSchedule → Continuous → Continuous
  | [], s => s
  | schedule :: rest, s =>
    let id := schedule.sourceId
    if now < s.nextDue id ∨ id ∈ s.pending then enqueueDue now jitter rest s
    else match s.queue.put id with
      | none => s
      | some queue =>
        enqueueDue now jitter rest
          { s with
            queue := queue
            pending := insert id s.pending
            nextDue := fun other => if other = id then now + delay jitter schedule
              else s.nextDue other }

/-- The part of a tick after the recovery: a heartbeat when it is due, then the wait. -/
def afterRecovery (now : Seconds) (s : Continuous) : Continuous :=
  { s with phase := if s.nextHeartbeat ≤ now then .beating now else .waiting }

/-- One tick up to its first await. -/
def tick (values : List SourceSchedule) (now : Seconds) (jitter : Jitter) (s : Continuous) :
    Continuous :=
  let s := enqueueDue now jitter values s
  if s.nextRecovery ≤ now then { s with phase := .recovering now } else afterRecovery now s

/-- The scheduler after the answer to its await. -/
def reply (policy : WorkerPolicy) (s : Continuous) (r : Reply) : Option Continuous :=
  match s.phase, r with
  | .starting _, .returned =>
    some { s with phase := .checking, consumers := List.replicate policy.concurrency .idle }
  -- No consumer exists yet, and no shutdown follows.
  | .starting _, .raised e => some { s with phase := .ended (.error e) }
  | .recovering now, .returned =>
    some (afterRecovery now
      { s with nextRecovery := now + totalSeconds policy.staleRecoveryInterval })
  | .beating now, .returned =>
    some { s with
      phase := .waiting, nextHeartbeat := now + totalSeconds policy.heartbeatInterval }
  | .recovering _, .raised e | .beating _, .raised e | .waiting, .raised e =>
    some { s with phase := .joining (some e) }
  | .farewell none, .returned => some { s with phase := .ended (.ok ()) }
  | .farewell (some e), .returned => some { s with phase := .ended (.error e) }
  | .farewell _, .raised e => some { s with phase := .ended (.error e) }
  | _, _ => none

/-- The end of a run in `_consume_continuously`: its `finally`, and then the next item or the end of
the task. -/
def settle (s : Continuous) (i : Nat) (id : SourceId) (c : Consumer) : Continuous :=
  let s := { s with pending := s.pending.erase id }
  match s.queue.taskDone with
  | some queue => { s with queue := queue, consumers := s.consumers.set i c }
  | none => { s with consumers := s.consumers.set i (.died (.other "task_done() called too many times")) }

def take (s : Continuous) (i : Nat) (now : Time) : Option Continuous :=
  match s.consumers[i]?, s.queue.get with
  | some .idle, some (id, queue) =>
    let run := beginRun s.health id now
    some { s with queue := queue, health := run.1, consumers := s.consumers.set i (.running run.2) }
  | _, _ => none

def answer (s : Continuous) (i : Nat) (r : Reply) (now : Time) : Option Continuous :=
  match s.consumers[i]? with
  | some (.running p) =>
    let after := Worker.answer s.health now p r
    let s := { s with health := after.1 }
    match after.2 with
    | .awaits p' => some { s with consumers := s.consumers.set i (.running p') }
    | .returns _ => some (settle s i p.source .idle)
    | .raises e => some (settle s i p.source (.died e))
  | _ => none

def next (policy : WorkerPolicy) (values : List SourceSchedule) (s : Continuous) :
    Label → Option Continuous
  | .requestStop => some { s with stopRequested := true }
  | .tick now jitter =>
    match s.phase with
    | .checking =>
      if s.stopRequested then some { s with phase := .joining none }
      else some (tick values now jitter s)
    | _ => none
  | .reply r => reply policy s r
  | .wake =>
    match s.phase with
    | .waiting => some { s with phase := .checking }
    | _ => none
  | .joined =>
    match s.phase with
    | .joining e => if s.queue.unfinished = 0 then some { s with phase := .cancelling e } else none
    | .cancelling e =>
      if ∀ c ∈ s.consumers, ¬ c.Alive then some { s with phase := .farewell e } else none
    | _ => none
  | .graceElapsed =>
    match s.phase with
    | .joining e => some { s with phase := .cancelling e }
    | .cancelling e => some { s with phase := .farewell e }
    | _ => none
  | .take i now => take s i now
  | .answer i r now => answer s i r now
  -- An idle consumer is cancelled at `queue.get()`; a running one by the answer to its await.
  | .cancel i =>
    match s.consumers[i]? with
    | some .idle =>
      if s.phase.Cancelled then some { s with consumers := s.consumers.set i (.died .cancelled) }
      else none
    | _ => none

end Continuous

/-- The schedules that `run_forever` goes through; there is no tick when they are refused. -/
def selectedSchedules (policy : WorkerPolicy) (values : List SourceSchedule) : List SourceSchedule :=
  (schedules policy.maximumSources values).toOption.getD []

/-- `run_forever` over any schedules. -/
def runForever (policy : WorkerPolicy) (values : List SourceSchedule) :
    System Continuous Continuous.Label where
  init s := ∃ now jitter, s = Continuous.start policy values now jitter
  next := Continuous.next policy (selectedSchedules policy values)

namespace Continuous

/-! ## The properties -/

/-- The sources that are queued or running. -/
def active (s : Continuous) : List SourceId := s.queue.items ++ runningSources s.consumers

/-- At most one run of each source is queued or running. -/
def AtMostOne (s : Continuous) : Prop := s.active.Nodup

/-- Until the consumers are cancelled, a queued source finds a consumer that is alive. -/
def NotStranded (s : Continuous) : Prop :=
  ¬ s.phase.Cancelled → s.queue.items ≠ [] → ∃ c ∈ s.consumers, c.Alive

/-- The side condition: an answer with which a run raises leaves another consumer alive, until the
consumers are cancelled. -/
def Spares (s : Continuous) : Label → Prop
  | .answer i r _ =>
    ∀ p, s.consumers[i]? = some (.running p) → p.Fails r → ¬ s.phase.Cancelled →
      ∃ c ∈ s.consumers.eraseIdx i, c.Alive
  | _ => True

/-! ## Bookkeeping of every run -/

/-- What the queue, the pending set and the consumers have in common. -/
structure Booked (s : Continuous) : Prop where
  nodup : s.active.Nodup
  pending : ∀ id, id ∈ s.pending ↔ id ∈ s.active
  unfinished : s.queue.unfinished = s.active.length

/-- The bookkeeping depends on the queue, the pending set and the consumers only. -/
theorem Booked.congr {s s' : Continuous} (h : Booked s) (hq : s'.queue = s.queue)
    (hp : s'.pending = s.pending) (hc : s'.consumers = s.consumers) : Booked s' := by
  have ha : s'.active = s.active := by rw [active, active, hq, hc]
  exact ⟨ha ▸ h.nodup, fun id => by rw [hp, ha]; exact h.pending id, by rw [hq, ha]; exact h.unfinished⟩

/-- The bookkeeping when the active sources are permuted. -/
theorem Booked.of_perm {s s' : Continuous} (h : Booked s) (hp : s'.pending = s.pending)
    (hu : s'.queue.unfinished = s.queue.unfinished) (hperm : s'.active.Perm s.active) :
    Booked s' :=
  ⟨hperm.nodup_iff.mpr h.nodup, fun id => by rw [hp, hperm.mem_iff]; exact h.pending id,
    by rw [hu, hperm.length_eq]; exact h.unfinished⟩

/-- One source is put. -/
theorem Booked.put {s : Continuous} {id : SourceId} {queue : TaskQueue SourceId}
    {nextDue : SourceId → Seconds} (h : Booked s) (hnew : id ∉ s.pending)
    (hput : s.queue.put id = some queue) :
    Booked { s with queue := queue, pending := insert id s.pending, nextDue := nextDue } := by
  obtain ⟨-, rfl⟩ := TaskQueue.put_cases hput
  have hperm : (s.queue.items ++ [id] ++ runningSources s.consumers).Perm (id :: s.active) := by
    rw [List.append_assoc]
    exact List.perm_middle
  refine ⟨?_, fun other => ?_, ?_⟩
  · refine hperm.nodup_iff.mpr (List.nodup_cons.mpr ⟨?_, h.nodup⟩)
    rw [← h.pending]
    exact hnew
  · rw [Finset.mem_insert, h.pending]
    exact (hperm.mem_iff.trans List.mem_cons).symm
  · change s.queue.unfinished + 1 = _
    rw [h.unfinished]
    exact hperm.length_eq.symm

theorem Booked.enqueueDue {s : Continuous} (h : Booked s) (now : Seconds) (jitter : Jitter)
    (values : List SourceSchedule) : Booked (enqueueDue now jitter values s) := by
  induction values generalizing s with
  | nil => exact h
  | cons schedule rest ih =>
    dsimp only [Continuous.enqueueDue]
    split
    · exact ih h
    · rename_i hdue
      split
      · exact h
      · rename_i queue hput
        exact ih (h.put (fun hin => hdue (.inr hin)) hput)

theorem settle_phase (s : Continuous) (i : Nat) (id : SourceId) (c : Consumer) :
    (settle s i id c).phase = s.phase := by
  dsimp only [settle]
  split <;> rfl

/-- The end of a run releases its source. -/
theorem Booked.settle {s : Continuous} {i : Nat} {p : RunPoint} {c : Consumer} (h : Booked s)
    (hi : s.consumers[i]? = some (.running p)) (hc : c.source = none) :
    Booked (settle s i p.source c) ∧ (settle s i p.source c).consumers = s.consumers.set i c := by
  have hperm : s.active.Perm
      (p.source :: (s.queue.items ++ runningSources (s.consumers.eraseIdx i))) :=
    ((runningSources_perm (pool_at hi)).append_left _).trans List.perm_middle
  have hperm' : (runningSources (s.consumers.set i c)).Perm
      (runningSources (s.consumers.eraseIdx i)) := by
    have := runningSources_perm (pool_set hi c)
    rwa [hc] at this
  have hdone := TaskQueue.taskDone_of (h.unfinished.trans hperm.length_eq)
  obtain ⟨hnot, hnodup⟩ := List.nodup_cons.mp (hperm.nodup_iff.mp h.nodup)
  rw [Continuous.settle, hdone]
  refine ⟨⟨?_, fun id => ?_, ?_⟩, rfl⟩
  · exact (hperm'.append_left _).nodup_iff.mpr hnodup
  · refine Iff.trans ?_ (hperm'.append_left s.queue.items).mem_iff.symm
    rw [Finset.mem_erase, h.pending, hperm.mem_iff, List.mem_cons]
    constructor
    · rintro ⟨hne, rfl | hin⟩
      · exact absurd rfl hne
      · exact hin
    · intro hin
      exact ⟨fun heq => hnot (heq ▸ hin), .inr hin⟩
  · exact (hperm'.append_left s.queue.items).length_eq.symm

/-! ## What a step can do -/

/-- What a consumer's step does to the consumers: the acting one was alive and is `c` afterwards. -/
structure Moves (s s' : Continuous) (i : Nat) (before c : Consumer) : Prop where
  at_i : s.consumers[i]? = some before
  alive : before.Alive
  consumers : s'.consumers = s.consumers.set i c
  phase : s'.phase = s.phase

theorem take_cases {s s' : Continuous} {i : Nat} {now : Time} (h : take s i now = some s')
    (hb : Booked s) : Booked s' ∧ ∃ p, Moves s s' i .idle (.running p) := by
  unfold take at h
  split at h
  · rename_i id queue hi hget
    cases h
    obtain ⟨hitems, hunfinished, -⟩ := TaskQueue.get_cases hget
    refine ⟨hb.of_perm rfl hunfinished ?_, _, hi, trivial, rfl, rfl⟩
    -- The source moves from the head of the queue to the consumer.
    have hold : (runningSources s.consumers).Perm (runningSources (s.consumers.eraseIdx i)) :=
      runningSources_perm (pool_at hi)
    have hnew : (runningSources (s.consumers.set i (.running (beginRun s.health id now).2))).Perm
        (id :: runningSources (s.consumers.eraseIdx i)) :=
      runningSources_perm (pool_set hi _)
    calc queue.items ++ _
        |>.Perm (queue.items ++ id :: runningSources (s.consumers.eraseIdx i)) :=
          hnew.append_left _
      _ |>.Perm (id :: (queue.items ++ runningSources (s.consumers.eraseIdx i))) :=
          List.perm_middle
      _ |>.Perm (s.queue.items ++ runningSources s.consumers) := by
          rw [hitems]
          exact (hold.symm.append_left _).cons id
  · cases h

theorem answer_spec {s s' : Continuous} {i : Nat} {r : Reply} {now : Time}
    (h : answer s i r now = some s') (hb : Booked s) : Booked s' ∧
      ∃ p c, Moves s s' i (.running p) c ∧ (p.Fails r ∨ c.Alive) := by
  dsimp only [answer] at h
  split at h
  · rename_i p hi
    have hb' : Booked { s with health := (Worker.answer s.health now p r).1 } := hb.congr rfl rfl rfl
    obtain ⟨-, p', hp', hsource, -⟩ | ⟨-, outcome, hp', -⟩ | ⟨hfails, e, hp'⟩ :=
      answer_cases s.health now p r <;> rw [hp'] at h <;> cases h
    · refine ⟨hb.of_perm rfl rfl ?_, p, _, ⟨hi, trivial, rfl, rfl⟩, .inr trivial⟩
      refine List.Perm.append_left _ ((runningSources_perm (pool_set hi _)).trans ?_)
      refine List.Perm.trans ?_ (runningSources_perm (pool_at hi)).symm
      rw [Consumer.source, Consumer.source, hsource]
    · obtain ⟨hbooked, hconsumers⟩ := hb'.settle (c := .idle) hi rfl
      refine ⟨hbooked, p, .idle, ⟨hi, trivial, hconsumers, settle_phase ..⟩, .inr trivial⟩
    · obtain ⟨hbooked, hconsumers⟩ := hb'.settle (c := .died e) hi rfl
      refine ⟨hbooked, p, .died e, ⟨hi, trivial, hconsumers, settle_phase ..⟩, .inl hfails⟩
  · cases h

/-- What a step can do: create the consumers, move one of them, or leave them as they are. Only the
creation leaves the start, and what is cancelled stays cancelled. -/
inductive Effect (policy : WorkerPolicy) (s s' : Continuous) (l : Label) : Prop
  | created : s.phase.Starting →
      s' = { s with phase := .checking, consumers := List.replicate policy.concurrency .idle } →
      Effect policy s s' l
  | moved (i : Nat) (before c : Consumer) : Moves s s' i before c →
      (c.Alive ∨ (¬ s.phase.Starting → ¬ s.phase.Cancelled → Spares s l →
        ∃ other ∈ s.consumers.eraseIdx i, other.Alive)) → Effect policy s s' l
  | quiet : s'.consumers = s.consumers → (s.phase.Cancelled → s'.phase.Cancelled) →
      (s.phase.Starting → s'.phase.Starting ∧ s'.queue = s.queue ∨ s'.phase.Cancelled) →
      (s'.phase.Starting → s.phase.Starting) → Effect policy s s' l

theorem enqueueDue_fields (now : Seconds) (jitter : Jitter) (values : List SourceSchedule)
    (s : Continuous) : (enqueueDue now jitter values s).consumers = s.consumers ∧
      (enqueueDue now jitter values s).phase = s.phase := by
  induction values generalizing s with
  | nil => exact ⟨rfl, rfl⟩
  | cons schedule rest ih =>
    dsimp only [enqueueDue]
    split
    · exact ih s
    · split
      · exact ⟨rfl, rfl⟩
      · exact ih _

theorem tick_fields (values : List SourceSchedule) (now : Seconds) (jitter : Jitter)
    (s : Continuous) : (tick values now jitter s).consumers = s.consumers ∧
      ¬ (tick values now jitter s).phase.Starting ∧
      (tick values now jitter s).queue = (enqueueDue now jitter values s).queue ∧
      (tick values now jitter s).pending = (enqueueDue now jitter values s).pending := by
  have hc := (enqueueDue_fields now jitter values s).1
  dsimp only [tick, afterRecovery]
  split
  · exact ⟨hc, id, rfl, rfl⟩
  · refine ⟨hc, ?_, rfl, rfl⟩
    dsimp only
    split <;> exact id

/-- Before the consumers exist nothing is queued. -/
def Fresh (s : Continuous) : Prop := s.phase.Starting → s.consumers = [] ∧ s.queue.items = []

/-- The creation of the consumers keeps the bookkeeping: none of them runs anything. -/
theorem Booked.created {s : Continuous} (h : Booked s) (hfresh : s.consumers = []) (n : Nat) :
    Booked { s with phase := .checking, consumers := List.replicate n .idle } := by
  have hnone : runningSources (List.replicate n .idle) = runningSources s.consumers := by
    rw [hfresh, runningSources, List.filterMap_replicate_of_none rfl]
    rfl
  refine h.of_perm rfl rfl ?_
  rw [active, active, hnone]

/-- The scheduler's answers create the consumers or leave them alone. -/
theorem reply_cases {policy : WorkerPolicy} {s s' : Continuous} {r : Reply} {l : Label}
    (h : reply policy s r = some s') (hb : Booked s) (hf : Fresh s) :
    Booked s' ∧ Effect policy s s' l := by
  unfold reply at h
  split at h <;> cases h <;> rename_i hphase
  case h_1 =>
    have hstart : s.phase.Starting := by rw [hphase]; trivial
    exact ⟨hb.created (hf hstart).1 _, .created hstart rfl⟩
  case h_3 now _ =>
    refine ⟨hb.congr rfl rfl rfl, .quiet rfl ?_ ?_ ?_⟩
    · rw [hphase]; exact False.elim
    · rw [hphase]; exact False.elim
    · dsimp only [afterRecovery]
      split <;> exact False.elim
  -- A failed start ends at once.
  case h_2 =>
    exact ⟨hb.congr rfl rfl rfl,
      .quiet rfl (fun _ => trivial) (fun _ => .inr trivial) False.elim⟩
  -- After the consumers were created, an answer changes the phase and the instants only.
  all_goals
    refine ⟨hb.congr rfl rfl rfl, .quiet rfl ?_ ?_ False.elim⟩ <;> rw [hphase] <;>
      first | exact fun _ => trivial | exact False.elim

/-- The spec of one step. -/
theorem next_cases {policy : WorkerPolicy} {values : List SourceSchedule} {s s' : Continuous}
    {l : Label} (h : next policy values s l = some s') (hb : Booked s) (hf : Fresh s) :
    Booked s' ∧ Effect policy s s' l := by
  cases l with
  | requestStop =>
    cases h
    exact ⟨hb.congr rfl rfl rfl, .quiet rfl id (fun hp => .inl ⟨hp, rfl⟩) id⟩
  | tick now jitter =>
    dsimp only [next] at h
    split at h
    · rename_i hphase
      split at h <;> cases h
      · refine ⟨hb.congr rfl rfl rfl, .quiet rfl ?_ ?_ False.elim⟩ <;> rw [hphase] <;> exact False.elim
      · obtain ⟨hconsumers, hstart, hqueue, hpending⟩ := tick_fields values now jitter s
        refine ⟨(hb.enqueueDue now jitter values).congr hqueue hpending ?_,
          .quiet hconsumers ?_ ?_ fun hs => absurd hs hstart⟩
        · rw [hconsumers, (enqueueDue_fields now jitter values s).1]
        all_goals rw [hphase]; exact False.elim
    · cases h
  | reply r => exact reply_cases h hb hf
  | wake =>
    dsimp only [next] at h
    split at h <;> cases h
    rename_i hphase
    refine ⟨hb.congr rfl rfl rfl, .quiet rfl ?_ ?_ False.elim⟩ <;> rw [hphase] <;> exact False.elim
  | joined =>
    dsimp only [next] at h
    split at h
    · rename_i hphase
      split at h <;> cases h
      refine ⟨hb.congr rfl rfl rfl, .quiet rfl ?_ ?_ False.elim⟩ <;> rw [hphase] <;>
        first | exact fun _ => trivial | exact False.elim
    · rename_i hphase
      split at h <;> cases h
      refine ⟨hb.congr rfl rfl rfl, .quiet rfl (fun _ => trivial) ?_ False.elim⟩
      rw [hphase]
      exact False.elim
    · cases h
  | graceElapsed =>
    dsimp only [next] at h
    split at h <;> cases h <;> rename_i hphase <;>
      refine ⟨hb.congr rfl rfl rfl, .quiet rfl (fun _ => trivial) ?_ False.elim⟩ <;> rw [hphase] <;>
      exact False.elim
  | take i now =>
    obtain ⟨hbooked, p, hmoves⟩ := take_cases h hb
    exact ⟨hbooked, .moved i _ _ hmoves (.inl trivial)⟩
  | answer i r now =>
    obtain ⟨hbooked, p, c, hmoves, hends⟩ := answer_spec h hb
    refine ⟨hbooked, .moved i _ _ hmoves ?_⟩
    rcases hends with hfails | halive
    · exact .inr fun _ hphase hspares => hspares p hmoves.at_i hfails hphase
    · exact .inl halive
  -- A source that was running is pending no more, and its consumer is idle.
  | cancel i =>
    dsimp only [next] at h
    split at h
    · rename_i hi
      split at h <;> cases h
      rename_i hphase
      refine ⟨hb.of_perm rfl rfl ?_, .moved i .idle _ ⟨hi, trivial, rfl, rfl⟩
        (.inr fun _ hnot => absurd hphase hnot)⟩
      exact List.Perm.append_left _
        ((runningSources_perm (pool_set hi _)).trans (runningSources_perm (pool_at hi)).symm)
    · cases h

/-! ## Every run -/

theorem start_spec (policy : WorkerPolicy) (values : List SourceSchedule) (now : Seconds)
    (jitter : Jitter) : Booked (start policy values now jitter) ∧
      (start policy values now jitter).consumers = [] ∧
      (start policy values now jitter).queue.items = [] ∧
      ((start policy values now jitter).phase.Starting ∨
        (start policy values now jitter).phase.Cancelled) := by
  have hempty (s : Continuous) (hq : s.queue = .empty policy.queueCapacity) (hp : s.pending = ∅)
      (hc : s.consumers = []) : Booked s := by
    have ha : s.active = [] := by rw [active, hq, hc]; rfl
    exact ⟨ha ▸ List.nodup_nil, by simp [ha, hp], by rw [ha, hq]; rfl⟩
  dsimp only [start]
  split
  · exact ⟨hempty _ rfl rfl rfl, rfl, rfl, .inr trivial⟩
  · exact ⟨hempty _ rfl rfl rfl, rfl, rfl, .inl trivial⟩

theorem Fresh.step {policy : WorkerPolicy} {s s' : Continuous} {l : Label} (hf : Fresh s)
    (h : Effect policy s s' l) : Fresh s' := by
  intro hstart
  cases h with
  | created _ heq =>
    rw [heq] at hstart
    exact hstart.elim
  | moved i before c hmoves =>
    -- Where nothing was created, no consumer moves.
    have hnone := hmoves.at_i
    rw [(hf (hmoves.phase ▸ hstart)).1] at hnone
    cases hnone
  | quiet hconsumers _ hkeep hback =>
    have hold := hback hstart
    obtain ⟨hnil, hitems⟩ := hf hold
    rcases hkeep hold with ⟨-, hqueue⟩ | hcancelled
    · exact ⟨hconsumers.trans hnil, hqueue ▸ hitems⟩
    · revert hstart hcancelled
      cases s'.phase <;> simp [Phase.Starting, Phase.Cancelled]

/-- Every run keeps the bookkeeping. -/
theorem booked {policy : WorkerPolicy} {values : List SourceSchedule} {ok : Continuous → Label → Prop}
    {s : Continuous} (hs : Reach (runForever policy values) ok s) : Booked s ∧ Fresh s := by
  refine Reach.invariant (P := fun s => Booked s ∧ Fresh s) ?_ ?_ hs
  · rintro s ⟨now, jitter, rfl⟩
    obtain ⟨hb, hc, hq, -⟩ := start_spec policy values now jitter
    exact ⟨hb, fun _ => ⟨hc, hq⟩⟩
  · rintro s l s' ⟨hb, hf⟩ - hnext
    obtain ⟨hb', heffect⟩ := next_cases hnext hb hf
    exact ⟨hb', hf.step heffect⟩

/-- No source is queued or running twice, in every run. -/
theorem atMostOne {policy : WorkerPolicy} {values : List SourceSchedule} {s : Continuous}
    (hs : Reach (runForever policy values) Any s) : AtMostOne s :=
  (booked hs).1.nodup

/-- Between the creation of the consumers and their cancellation one of them is alive. -/
def Staffed (s : Continuous) : Prop :=
  ¬ s.phase.Starting → ¬ s.phase.Cancelled → ∃ c ∈ s.consumers, c.Alive

theorem Staffed.step {policy : WorkerPolicy} {s s' : Continuous} {l : Label} (h : Staffed s)
    (heffect : Effect policy s s' l) (hspares : Spares s l) : Staffed s' := by
  intro hstart hcancelled
  cases heffect with
  | created _ heq =>
    subst heq
    exact ⟨.idle, List.mem_replicate.mpr ⟨Nat.pos_iff_ne_zero.mp policy.limits_pos.1, rfl⟩, trivial⟩
  | moved i before c hmoves hends =>
    rw [hmoves.phase] at hstart hcancelled
    rw [hmoves.consumers]
    have hperm := pool_set hmoves.at_i c
    rcases hends with halive | hother
    · exact ⟨c, hperm.mem_iff.mpr List.mem_cons_self, halive⟩
    · obtain ⟨other, hmem, halive⟩ := hother hstart hcancelled hspares
      exact ⟨other, hperm.mem_iff.mpr (List.mem_cons_of_mem _ hmem), halive⟩
  | quiet hconsumers hkeep hstarting _ =>
    rw [hconsumers]
    refine h (fun hold => ?_) fun hold => hcancelled (hkeep hold)
    rcases hstarting hold with ⟨hnew, -⟩ | hnew
    · exact hstart hnew
    · exact hcancelled hnew

/-- In a run in which no failure ends the last consumer no queued source is stranded. -/
theorem notStranded {policy : WorkerPolicy} {values : List SourceSchedule} {s : Continuous}
    (hs : Reach (runForever policy values) Spares s) : NotStranded s := by
  have hstaffed : Staffed s := by
    refine hs.invariant_of ?_ ?_
    · rintro s ⟨now, jitter, rfl⟩ hstart hcancelled
      rcases (start_spec policy values now jitter).2.2.2 with h | h
      · exact absurd h hstart
      · exact absurd h hcancelled
    · intro s l s' hr hstaffed hok hnext
      obtain ⟨hb, hf⟩ := booked hr
      exact hstaffed.step (next_cases hnext hb hf).2 hok
  intro hcancelled hitems
  refine hstaffed (fun hstart => ?_) hcancelled
  exact hitems ((booked hs).2 hstart).2

end Continuous

end Makolet.Worker
