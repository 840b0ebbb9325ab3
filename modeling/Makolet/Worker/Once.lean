import Mathlib.Data.List.ReduceOption
import Mathlib.Algebra.GroupWithZero.Nat
import Makolet.Lib.System
import Makolet.Worker.Model

/-!
# One run over a source set

`Worker.run_once`. The caller puts the selected sources and then one stop sentinel for each consumer,
waits for the queue to be done, and collects the consumers. A consumer that dies leaves its sentinel
behind, and the wait for the queue never ends; as long as no consumer dies, what is left to take
is as many sentinels as there are consumers alive (`Once.Paired`), and every run ends with an outcome
for each selected source (`Once.ends`).
-/

set_option autoImplicit false

namespace Makolet.Worker

open Makolet.Domain Makolet.Lib

/-- What the queue of `run_once` holds: a source, or the stop sentinel `None`. -/
abbrev Item := Option SourceId

structure WorkerRunSummary where
  outcomes : List SourceRunOutcome
  staleJobsRecovered : Nat
  deriving DecidableEq, Repr

/-- Where the caller stands. `putting` holds the items that are still to be put. -/
inductive Caller
  | recovering
  | putting (items : List Item) (recovered : Nat)
  | joining (recovered : Nat)
  | gathering (recovered : Nat)
  | ended (result : Except Exception WorkerRunSummary)

structure Once where
  caller : Caller
  queue : TaskQueue Item
  consumers : List Consumer
  outcomes : List (SourceId × SourceRunOutcome)
  health : HealthTable

namespace Once

inductive Label
  | recovered (jobs : Nat)
  | recoveryFailed (e : Exception)
  | put
  | joined
  | gathered
  | take (i : Nat) (now : Time)
  | answer (i : Nat) (r : Reply) (now : Time)

/-- `run_once` up to its first await. -/
def start (policy : WorkerPolicy) (values : List String) (health : HealthTable) : Once :=
  let state (caller : Caller) : Once := ⟨caller, .empty policy.queueCapacity, [], [], health⟩
  match sourceIds policy.maximumSources values with
  | .error e => state (.ended (.error e))
  | .ok _ => state .recovering

/-- The sources that `run_once` goes through; nothing runs when they are refused. -/
def selectedSources (policy : WorkerPolicy) (values : List String) : List SourceId :=
  (sourceIds policy.maximumSources values).toOption.getD []

/-- The number of consumers. -/
def cardinality (policy : WorkerPolicy) (selected : List SourceId) : Nat :=
  min policy.concurrency selected.length

/-- What the caller puts. -/
def script (policy : WorkerPolicy) (selected : List SourceId) : List Item :=
  selected.map some ++ List.replicate (cardinality policy selected) none

/-- `outcomes[source_id]` for each selected source; a missing one raises `KeyError`. -/
def summarize (selected : List SourceId) (outcomes : List (SourceId × SourceRunOutcome))
    (recovered : Nat) : Except Exception WorkerRunSummary :=
  match selected.mapM fun id => (Table.lookup Prod.fst outcomes id).map Prod.snd with
  | some found => .ok ⟨found, recovered⟩
  | none => .error (.other "KeyError")

/-- The exception that `asyncio.gather` raises: the first of a consumer that died. -/
def firstException : List Consumer → Option Exception
  | [] => none
  | .died e :: _ => some e
  | _ :: rest => firstException rest

/-- The `finally` of a consumer's item, and then the next item or the end of the task. -/
def settle (s : Once) (i : Nat) (c : Consumer) : Once :=
  match s.queue.taskDone with
  | some queue => { s with queue := queue, consumers := s.consumers.set i c }
  | none =>
    { s with consumers := s.consumers.set i (.died (.other "task_done() called too many times")) }

/-- `outcomes[source_id] = outcome`. -/
def record (outcomes : List (SourceId × SourceRunOutcome)) (source : SourceId)
    (outcome : SourceRunOutcome) : List (SourceId × SourceRunOutcome) :=
  Table.upsert Prod.fst Prod.fst id (fun old new => (old.1, new.2)) outcomes [(source, outcome)]

def take (s : Once) (i : Nat) (now : Time) : Option Once :=
  match s.consumers[i]?, s.queue.get with
  | some .idle, some (some id, queue) =>
    let run := beginRun s.health id now
    some { s with queue := queue, health := run.1, consumers := s.consumers.set i (.running run.2) }
  | some .idle, some (none, queue) => some (settle { s with queue := queue } i .finished)
  | _, _ => none

def answer (s : Once) (i : Nat) (r : Reply) (now : Time) : Option Once :=
  match s.consumers[i]? with
  | some (.running p) =>
    let after := Worker.answer s.health now p r
    let s := { s with health := after.1 }
    match after.2 with
    | .awaits p' => some { s with consumers := s.consumers.set i (.running p') }
    | .returns outcome =>
      some (settle { s with outcomes := record s.outcomes p.source outcome } i .idle)
    | .raises e => some (settle s i (.died e))
  | _ => none

def next (policy : WorkerPolicy) (selected : List SourceId) (s : Once) : Label → Option Once
  | .recovered jobs =>
    match s.caller with
    | .recovering =>
      some { s with
        caller := .putting (script policy selected) jobs
        consumers := List.replicate (cardinality policy selected) .idle }
    | _ => none
  | .recoveryFailed e =>
    match s.caller with
    | .recovering => some { s with caller := .ended (.error e) }
    | _ => none
  | .put =>
    match s.caller with
    | .putting [] jobs => some { s with caller := .joining jobs }
    | .putting (item :: rest) jobs =>
      (s.queue.put item).map fun queue => { s with caller := .putting rest jobs, queue := queue }
    | _ => none
  | .joined =>
    match s.caller with
    | .joining jobs =>
      if s.queue.unfinished = 0 then some { s with caller := .gathering jobs } else none
    | _ => none
  | .gathered =>
    match s.caller with
    | .gathering jobs =>
      match firstException s.consumers with
      | some e => some { s with caller := .ended (.error e) }
      | none =>
        if ∀ c ∈ s.consumers, ¬ c.Alive then
          some { s with caller := .ended (summarize selected s.outcomes jobs) }
        else none
    | _ => none
  | .take i now => take s i now
  | .answer i r now => answer s i r now

end Once

/-- `run_once` over any source IDs and any health left by earlier runs. -/
def runOnce (policy : WorkerPolicy) (values : List String) : System Once Once.Label where
  init s := ∃ health, s = Once.start policy values health
  next := Once.next policy (Once.selectedSources policy values)

namespace Once

/-! ## The properties -/

/-- At most one run of each source is queued or running. -/
def AtMostOne (s : Once) : Prop := (s.queue.items.reduceOption ++ runningSources s.consumers).Nodup

/-- A queued source or sentinel finds a consumer that is alive. -/
def NotStranded (s : Once) : Prop := s.queue.items ≠ [] → ∃ c ∈ s.consumers, c.Alive

/-- The run ended with an outcome for each selected source or with an error. -/
def Settled (selected : List SourceId) (s : Once) : Prop :=
  match s.caller with
  | .ended (.ok summary) => summary.outcomes.map SourceRunOutcome.sourceId = selected
  | .ended (.error _) => True
  | _ => False

/-- The side condition: no health record raises, and no ingest is cancelled. -/
def Records (s : Once) : Label → Prop
  | .answer i r _ => ∀ p, s.consumers[i]? = some (.running p) → ¬ p.Breaks r
  | _ => True

/-! ## Bookkeeping of every run -/

/-- The items that the caller has still to put. -/
def toPut (s : Once) : List Item :=
  match s.caller with
  | .putting items _ => items
  | _ => []

/-- The caller knows that the queue is done. -/
def Drained (s : Once) : Prop :=
  match s.caller with
  | .gathering _ | .ended _ => True
  | _ => False

/-- The consumers that took their sentinel. -/
def finishedCount (consumers : List Consumer) : Nat :=
  consumers.countP fun c => decide (c = .finished)

/-- The state once the consumers exist: what is left to take is `sources`, then `stops` sentinels. -/
structure Tracked (policy : WorkerPolicy) (selected : List SourceId) (s : Once)
    (sources : List SourceId) (stops : Nat) : Prop where
  left : s.queue.items ++ s.toPut = sources.map some ++ List.replicate stops none
  nodup : (sources ++ runningSources s.consumers).Nodup
  unfinished : s.queue.unfinished = s.queue.items.length + (runningSources s.consumers).length
  capacity : s.queue.capacity = policy.queueCapacity
  staff : s.consumers.length = cardinality policy selected
  paired : stops + finishedCount s.consumers = cardinality policy selected
  -- The sentinels stand behind the sources, so no consumer ends while a source is left.
  order : 0 < finishedCount s.consumers → sources = []
  covered : ∀ id ∈ selected, id ∈ sources ++ runningSources s.consumers ∨
    (∃ o, Table.lookup Prod.fst s.outcomes id = some (id, o)) ∨ ∃ e, .died e ∈ s.consumers
  keyed : ∀ row ∈ s.outcomes, row.2.sourceId = row.1
  drained : s.Drained → s.queue.unfinished = 0
  settled : ∀ r, s.caller = .ended r → s.Settled selected
  created : s.caller ≠ .recovering
  staffed : 0 < cardinality policy selected

/-- The state before the consumers exist, or after a failure to create them. -/
structure Unstaffed (policy : WorkerPolicy) (selected : List SourceId) (s : Once) : Prop where
  caller : s.caller = .recovering ∧ 0 < cardinality policy selected ∨
    ∃ e, s.caller = .ended (.error e)
  consumers : s.consumers = []
  items : s.queue.items = []
  unfinished : s.queue.unfinished = 0
  outcomes : s.outcomes = []
  capacity : s.queue.capacity = policy.queueCapacity

/-- A split of what is left into sources and sentinels, by its first item. -/
theorem split_some {id : SourceId} {rest : List Item} {sources : List SourceId} {stops : Nat}
    (h : some id :: rest = sources.map some ++ List.replicate stops none) :
    ∃ sources', sources = id :: sources' ∧
      rest = sources'.map some ++ List.replicate stops none := by
  cases sources with
  | nil => cases stops <;> simp [List.replicate_succ] at h
  | cons first sources' =>
    rw [List.map_cons, List.cons_append, List.cons.injEq, Option.some.injEq] at h
    exact ⟨sources', by rw [h.1], h.2⟩

theorem split_none {rest : List Item} {sources : List SourceId} {stops : Nat}
    (h : none :: rest = sources.map some ++ List.replicate stops none) :
    sources = [] ∧ ∃ stops', stops = stops' + 1 ∧ rest = List.replicate stops' none := by
  cases sources with
  | nil =>
    cases stops with
    | zero => simp at h
    | succ stops' =>
      rw [List.map_nil, List.nil_append, List.replicate_succ, List.cons.injEq] at h
      exact ⟨rfl, stops', rfl, h.2⟩
  | cons first sources' => simp at h

theorem finishedCount_perm {consumers others : List Consumer} {c : Consumer}
    (h : consumers.Perm (c :: others)) :
    finishedCount consumers = finishedCount others + if c = .finished then 1 else 0 := by
  rw [finishedCount, h.countP_eq, List.countP_cons]
  simp [finishedCount]

/-! ### The measure -/

/-- How far the caller is from its end, before and after it has the consumers. -/
def callerLeft (policy : WorkerPolicy) (selected : List SourceId) : Caller → Nat
  | .recovering => 5 * (script policy selected).length + 4
  | .putting items _ => 5 * items.length + 3
  | .joining _ => 2
  | .gathering _ => 1
  | .ended _ => 0

/-- What the consumers have left. -/
def leftTotal (consumers : List Consumer) : Nat := (consumers.map Consumer.left).sum

/-- The number of steps that a run has left at most. -/
def stepsLeft (policy : WorkerPolicy) (selected : List SourceId) (s : Once) : Nat :=
  callerLeft policy selected s.caller + 4 * s.queue.items.length + leftTotal s.consumers

theorem leftTotal_perm {consumers others : List Consumer} {c : Consumer}
    (h : consumers.Perm (c :: others)) : leftTotal consumers = c.left + leftTotal others := by
  rw [leftTotal, (h.map Consumer.left).sum_nat, List.map_cons, List.sum_cons, leftTotal]

/-- The consumer neither died nor is on its way to raise. -/
def Intact (c : Consumer) : Prop := (∀ e, c ≠ .died e) ∧ ∀ id, c ≠ .running (.recordingStop id)

namespace Tracked

variable {policy : WorkerPolicy} {selected sources : List SourceId} {stops : Nat} {s : Once}

/-- A queue that is done has nothing left to take, and every consumer took its sentinel. -/
theorem all_finished (h : Tracked policy selected s sources stops) (hput : s.toPut = [])
    (hdone : s.queue.unfinished = 0) :
    sources = [] ∧ runningSources s.consumers = [] ∧ ∀ c ∈ s.consumers, c = .finished := by
  have hsum := h.unfinished.symm.trans hdone
  have hitems : s.queue.items = [] := List.length_eq_zero_iff.mp (by omega)
  have hrunning : runningSources s.consumers = [] := List.length_eq_zero_iff.mp (by omega)
  have hleft := congrArg List.length h.left
  simp only [hitems, hput, List.append_nil, List.length_nil, List.length_append, List.length_map,
    List.length_replicate] at hleft
  refine ⟨List.length_eq_zero_iff.mp (by omega), hrunning, ?_⟩
  have hall : finishedCount s.consumers = s.consumers.length := by
    rw [h.staff, ← h.paired]
    omega
  intro c hc
  exact of_decide_eq_true (List.countP_eq_length.mp hall c hc)

/-- A caller that waits for the queue no longer has nothing to put. -/
theorem toPut_of_drained (h : s.Drained) : s.toPut = [] := by
  revert h
  unfold Drained toPut
  cases s.caller <;> simp

/-! ### The steps of a consumer -/

section Move

variable {s' : Once} {i : Nat} {before c : Consumer}

/-- What the step of a consumer leaves unchanged. -/
structure Moves (s s' : Once) (i : Nat) (before c : Consumer) : Prop where
  at_i : s.consumers[i]? = some before
  consumers : s'.consumers = s.consumers.set i c
  caller : s'.caller = s.caller
  capacity : s'.queue.capacity = s.queue.capacity

theorem Moves.perm (h : Moves s s' i before c) : s.consumers.Perm (before :: s.consumers.eraseIdx i) ∧
    s'.consumers.Perm (c :: s.consumers.eraseIdx i) :=
  ⟨pool_at h.at_i, h.consumers ▸ pool_set h.at_i c⟩

/-- A consumer that dies or is idle does not count as finished. -/
theorem Moves.finishedCount_eq (h : Moves s s' i before c) (hbefore : before ≠ .finished)
    (hc : c ≠ .finished) : finishedCount s'.consumers = finishedCount s.consumers := by
  rw [finishedCount_perm h.perm.1, finishedCount_perm h.perm.2, if_neg hbefore, if_neg hc]

theorem Moves.staff (h : Moves s s' i before c) : s'.consumers.length = s.consumers.length := by
  rw [h.consumers, List.length_set]

theorem Moves.died (h : Moves s s' i before c) (hbefore : before.Alive) {e : Exception}
    (he : .died e ∈ s.consumers) : .died e ∈ s'.consumers := by
  rcases List.mem_cons.mp (h.perm.1.mem_iff.mp he) with rfl | hmem
  · exact hbefore.elim
  · exact h.perm.2.mem_iff.mpr (List.mem_cons_of_mem _ hmem)

theorem toPut_congr (h : s'.caller = s.caller) : s'.toPut = s.toPut := by
  rw [toPut, toPut, h]

theorem drained_congr (h : s'.caller = s.caller) : s'.Drained ↔ s.Drained := by
  rw [Drained, Drained, h]

theorem settled_congr (h : s'.caller = s.caller) : s'.Settled selected ↔ s.Settled selected := by
  rw [Settled, Settled, h]

/-- An idle consumer takes a source. -/
theorem takeSource {id : SourceId} {p : RunPoint} (h : Tracked policy selected s sources stops)
    (hm : Moves s s' i .idle (.running p)) (hp : p.source = id)
    (hitems : s.queue.items = some id :: s'.queue.items)
    (hu : s'.queue.unfinished = s.queue.unfinished) (ho : s'.outcomes = s.outcomes) :
    ∃ sources', Tracked policy selected s' sources' stops := by
  have hleft := h.left
  rw [hitems, List.cons_append] at hleft
  obtain ⟨sources', rfl, hrest⟩ := split_some hleft
  have hcount := hm.finishedCount_eq (by simp) (by simp)
  -- The source moves from the head of what is left to the consumer.
  have hrunning : (runningSources s'.consumers).Perm (id :: runningSources s.consumers) := by
    refine (runningSources_perm hm.perm.2).trans ?_
    rw [Consumer.source, hp]
    exact (runningSources_perm hm.perm.1).symm.cons id
  have hactive : (sources' ++ runningSources s'.consumers).Perm
      (id :: sources' ++ runningSources s.consumers) :=
    (hrunning.append_left sources').trans List.perm_middle
  refine ⟨sources', ?_, hactive.nodup_iff.mpr h.nodup, ?_, hm.capacity.trans h.capacity,
    hm.staff.trans h.staff, hcount ▸ h.paired, ?_, ?_, ho ▸ h.keyed, ?_, ?_,
    hm.caller ▸ h.created, h.staffed⟩
  · rw [toPut_congr hm.caller]
    exact hrest
  · rw [hu, h.unfinished, hitems, hrunning.length_eq, List.length_cons, List.length_cons]
    omega
  · intro hpos
    have := h.order (hcount ▸ hpos)
    cases this
  · intro other hother
    rw [hactive.mem_iff, ho]
    exact (h.covered other hother).imp_right (Or.imp_right fun ⟨e, he⟩ => ⟨e, hm.died trivial he⟩)
  · rw [drained_congr hm.caller, hu]
    exact h.drained
  · rw [settled_congr hm.caller, hm.caller]
    exact h.settled

/-- An idle consumer takes its sentinel and ends. -/
theorem takeStop (h : Tracked policy selected s sources stops)
    (hm : Moves s s' i .idle .finished) (hitems : s.queue.items = none :: s'.queue.items)
    (hu : s.queue.unfinished = s'.queue.unfinished + 1) (ho : s'.outcomes = s.outcomes) :
    ∃ stops', Tracked policy selected s' [] stops' := by
  have hleft := h.left
  rw [hitems, List.cons_append] at hleft
  obtain ⟨rfl, stops', rfl, hrest⟩ := split_none hleft
  have hcount : finishedCount s'.consumers = finishedCount s.consumers + 1 := by
    rw [finishedCount_perm hm.perm.1, finishedCount_perm hm.perm.2]
    simp
  have hrunning : (runningSources s'.consumers).Perm (runningSources s.consumers) :=
    (runningSources_perm hm.perm.2).trans (runningSources_perm hm.perm.1).symm
  have hpaired := h.paired
  refine ⟨stops', ?_, ?_, ?_, hm.capacity.trans h.capacity, hm.staff.trans h.staff, ?_,
    fun _ => rfl, ?_, ho ▸ h.keyed, ?_, ?_,
    hm.caller ▸ h.created, h.staffed⟩
  · rw [toPut_congr hm.caller]
    exact hrest
  · exact hrunning.nodup_iff.mpr h.nodup
  · have := h.unfinished
    rw [hitems, List.length_cons] at this
    rw [hrunning.length_eq]
    omega
  · omega
  · intro other hother
    rw [(hrunning.append_left []).mem_iff, ho]
    exact (h.covered other hother).imp_right (Or.imp_right fun ⟨e, he⟩ => ⟨e, hm.died trivial he⟩)
  · rw [drained_congr hm.caller]
    intro hd
    have := h.drained hd
    omega
  · rw [settled_congr hm.caller, hm.caller]
    exact h.settled

/-- A running consumer goes on with its source. -/
theorem goOn {p p' : RunPoint} (h : Tracked policy selected s sources stops)
    (hm : Moves s s' i (.running p) (.running p')) (hp : p'.source = p.source)
    (hq : s'.queue = s.queue) (ho : s'.outcomes = s.outcomes) :
    Tracked policy selected s' sources stops := by
  have hcount := hm.finishedCount_eq (by simp) (by simp)
  have hrunning : (runningSources s'.consumers).Perm (runningSources s.consumers) := by
    refine (runningSources_perm hm.perm.2).trans ?_
    refine List.Perm.trans ?_ (runningSources_perm hm.perm.1).symm
    rw [Consumer.source, Consumer.source, hp]
  refine ⟨?_, (hrunning.append_left _).nodup_iff.mpr h.nodup, ?_, hm.capacity.trans h.capacity,
    hm.staff.trans h.staff, hcount ▸ h.paired, hcount ▸ h.order, ?_, ho ▸ h.keyed, ?_, ?_,
    hm.caller ▸ h.created, h.staffed⟩
  · rw [toPut_congr hm.caller, hq]
    exact h.left
  · rw [hq, hrunning.length_eq]
    exact h.unfinished
  · intro other hother
    rw [(hrunning.append_left _).mem_iff, ho]
    exact (h.covered other hother).imp_right (Or.imp_right fun ⟨e, he⟩ => ⟨e, hm.died trivial he⟩)
  · rw [drained_congr hm.caller, hq]
    exact h.drained
  · rw [settled_congr hm.caller, hm.caller]
    exact h.settled

/-- A running consumer returns its outcome or dies; either way its source is accounted for. -/
theorem release {p : RunPoint} (h : Tracked policy selected s sources stops)
    (hm : Moves s s' i (.running p) c) (hc : c.source = none) (hne : c ≠ .finished)
    (hitems : s'.queue.items = s.queue.items)
    (hu : s.queue.unfinished = s'.queue.unfinished + 1)
    (hkept : ∀ id, (∃ o, Table.lookup Prod.fst s.outcomes id = some (id, o)) →
      ∃ o, Table.lookup Prod.fst s'.outcomes id = some (id, o))
    (hown : (∃ o, Table.lookup Prod.fst s'.outcomes p.source = some (p.source, o)) ∨
      ∃ e, .died e ∈ s'.consumers)
    (hkeyed : ∀ row ∈ s'.outcomes, row.2.sourceId = row.1) :
    Tracked policy selected s' sources stops := by
  have hcount := hm.finishedCount_eq (by simp) hne
  have hrunning : (runningSources s.consumers).Perm (p.source :: runningSources s'.consumers) := by
    refine (runningSources_perm hm.perm.1).trans ?_
    have hrest := runningSources_perm hm.perm.2
    rw [hc] at hrest
    exact hrest.symm.cons _
  have hactive : (sources ++ runningSources s.consumers).Perm
      (p.source :: (sources ++ runningSources s'.consumers)) :=
    (hrunning.append_left sources).trans List.perm_middle
  refine ⟨?_, (List.nodup_cons.mp (hactive.nodup_iff.mp h.nodup)).2, ?_,
    hm.capacity.trans h.capacity, hm.staff.trans h.staff, hcount ▸ h.paired, hcount ▸ h.order, ?_,
    hkeyed, ?_, ?_, hm.caller ▸ h.created, h.staffed⟩
  · rw [toPut_congr hm.caller, hitems]
    exact h.left
  · have := h.unfinished
    rw [hrunning.length_eq, List.length_cons] at this
    rw [hitems]
    omega
  · intro other hother
    rcases h.covered other hother with hmem | hout | ⟨e, he⟩
    · rcases List.mem_cons.mp (hactive.mem_iff.mp hmem) with rfl | hmem
      · exact .inr hown
      · exact .inl hmem
    · exact .inr (.inl (hkept other hout))
    · exact .inr (.inr ⟨e, hm.died trivial he⟩)
  · rw [drained_congr hm.caller]
    intro hd
    have := h.drained hd
    omega
  · rw [settled_congr hm.caller, hm.caller]
    exact h.settled

end Move

theorem stepsLeft_lt {s' : Once} {i : Nat} {before c : Consumer} (hm : Moves s s' i before c)
    (h : 4 * s'.queue.items.length + c.left < 4 * s.queue.items.length + before.left) :
    stepsLeft policy selected s' < stepsLeft policy selected s := by
  rw [stepsLeft, stepsLeft, hm.caller, leftTotal_perm hm.perm.1, leftTotal_perm hm.perm.2]
  omega

/-! ### One step -/

/-- The end of an item that was unfinished: the consumer moves on and the item counts as done. -/
theorem settle_moves (s₀ : Once) (c : Consumer) {i n : Nat} {before : Consumer}
    (hi : s.consumers[i]? = some before) (hconsumers : s₀.consumers = s.consumers)
    (hcaller : s₀.caller = s.caller) (hcap : s₀.queue.capacity = s.queue.capacity)
    (hn : s₀.queue.unfinished = n + 1) :
    Moves s (settle s₀ i c) i before c ∧ (settle s₀ i c).queue.items = s₀.queue.items ∧
      (settle s₀ i c).queue.unfinished = n ∧ (settle s₀ i c).outcomes = s₀.outcomes := by
  rw [settle, TaskQueue.taskDone_of hn]
  exact ⟨⟨hi, by rw [hconsumers], hcaller, hcap⟩, rfl, rfl, rfl⟩

theorem take_spec {s' : Once} {i : Nat} {now : Time}
    (h : Tracked policy selected s sources stops) (ht : take s i now = some s') :
    (∃ sources' stops', Tracked policy selected s' sources' stops') ∧
      stepsLeft policy selected s' < stepsLeft policy selected s ∧
      ∃ before c, Moves s s' i before c ∧ Intact c := by
  unfold take at ht
  split at ht
  · rename_i id queue hi hget
    cases ht
    obtain ⟨hitems, hu, hcap⟩ := TaskQueue.get_cases hget
    have hm : Moves s
        { s with
          queue := queue
          health := (beginRun s.health id now).1
          consumers := s.consumers.set i (.running (beginRun s.health id now).2) }
        i .idle (.running (beginRun s.health id now).2) := ⟨hi, rfl, rfl, hcap⟩
    obtain ⟨sources', h'⟩ := h.takeSource hm (source_beginRun ..) hitems hu rfl
    refine ⟨⟨sources', stops, h'⟩, stepsLeft_lt hm ?_, _, _, hm, by simp, fun _ => by simp [beginRun]⟩
    rw [hitems, List.length_cons]
    exact Nat.lt_succ_self _
  · rename_i queue hi hget
    cases ht
    obtain ⟨hitems, hu, hcap⟩ := TaskQueue.get_cases hget
    obtain ⟨n, hn⟩ : ∃ n, queue.unfinished = n + 1 := by
      refine Nat.exists_eq_add_one.mpr ?_
      rw [hu, h.unfinished, hitems, List.length_cons]
      omega
    obtain ⟨hm, hitems', hu', ho⟩ :=
      settle_moves { s with queue := queue } .finished hi rfl rfl hcap hn
    rw [← hitems'] at hitems
    obtain ⟨stops', h'⟩ := h.takeStop hm hitems (by rw [hu', ← hn]; exact hu.symm) ho
    refine ⟨⟨[], stops', h'⟩, stepsLeft_lt hm ?_, _, _, hm, by simp, by simp⟩
    rw [hitems, List.length_cons]
    exact Nat.lt_add_of_pos_right (by decide)
  · cases ht

/-- An outcome stands under its source, and no other entry changes. -/
theorem lookup_record (outcomes : List (SourceId × SourceRunOutcome)) (source : SourceId)
    (outcome : SourceRunOutcome) (other : SourceId) :
    Table.lookup Prod.fst (record outcomes source outcome) other =
      if source = other then some (source, outcome) else Table.lookup Prod.fst outcomes other := by
  have hone : Table.lookup Prod.fst [(source, outcome)] other =
      if source = other then some (source, outcome) else none := Table.lookup_cons _
  rw [record, Table.lookup_upsert ?insert ?update, hone]
  case insert => exact fun _ => rfl
  case update => exact fun _ _ => rfl
  by_cases heq : source = other
  · rw [if_pos heq]
    cases hold : Table.lookup Prod.fst outcomes other with
    | none => rw [if_pos heq]; rfl
    | some row => simp [Table.key_of_lookup hold, heq]
  · rw [if_neg heq, if_neg heq]

theorem answer_spec {s' : Once} {i : Nat} {r : Reply} {now : Time}
    (h : Tracked policy selected s sources stops) (ha : answer s i r now = some s') :
    Tracked policy selected s' sources stops ∧
      stepsLeft policy selected s' < stepsLeft policy selected s ∧
      ∃ p c, Moves s s' i (.running p) c ∧ (¬ p.Breaks r → Intact c) := by
  dsimp only [answer] at ha
  split at ha
  · rename_i p hi
    obtain ⟨n, hn⟩ : ∃ n, s.queue.unfinished = n + 1 := by
      refine Nat.exists_eq_add_one.mpr ?_
      have := List.length_pos_of_mem (mem_runningSources (List.mem_of_getElem? hi))
      rw [h.unfinished]
      omega
    have hleft : 0 < p.left := by cases p <;> exact Nat.succ_pos _
    obtain ⟨-, p', hp', hsource, hlt, hintact⟩ | ⟨-, outcome, hp', hid⟩ | ⟨hfails, e, hp'⟩ :=
      answer_cases s.health now p r <;> rw [hp'] at ha <;> cases ha
    · exact ⟨h.goOn ⟨hi, rfl, rfl, rfl⟩ hsource rfl rfl,
        stepsLeft_lt ⟨hi, rfl, rfl, rfl⟩ (Nat.add_lt_add_left hlt _),
        p, _, ⟨hi, rfl, rfl, rfl⟩, fun hb => ⟨by simp, fun id => by simpa using hintact hb id⟩⟩
    · obtain ⟨hm, hitems, hu, ho⟩ := settle_moves { s with
        health := (Worker.answer s.health now p r).1
        outcomes := record s.outcomes p.source outcome } .idle hi rfl rfl rfl hn
      refine ⟨h.release hm rfl (by simp) hitems (by rw [hu, hn]) ?_ (.inl ?_) ?_, stepsLeft_lt hm ?_,
        p, _, hm, fun _ => ⟨by simp, by simp⟩⟩
      · rintro other ⟨o, hother⟩
        rw [ho, lookup_record]
        split
        · rename_i heq
          exact ⟨outcome, by rw [heq]⟩
        · exact ⟨o, hother⟩
      · exact ⟨outcome, by rw [ho, lookup_record, if_pos rfl]⟩
      · intro row hrow
        rw [ho] at hrow
        rcases Table.mem_upsert hrow with ⟨hold, -⟩ | ⟨a, -, b, hb, hkey, rfl⟩ | ⟨b, hb, rfl⟩
        · exact h.keyed row hold
        · cases List.mem_singleton.mp hb
          exact hid.trans hkey
        · cases List.mem_singleton.mp hb
          exact hid
      · rw [hitems]
        exact Nat.add_lt_add_left hleft _
    · obtain ⟨hm, hitems, hu, ho⟩ := settle_moves { s with
        health := (Worker.answer s.health now p r).1 } (.died e) hi rfl rfl rfl hn
      refine ⟨h.release hm rfl (by simp) hitems (by rw [hu, hn]) ?_ (.inr ⟨e, ?_⟩) ?_,
        stepsLeft_lt hm ?_, p, _, hm, fun hb => absurd (.inl hfails) hb⟩
      · rw [ho]
        exact fun _ => id
      · exact hm.perm.2.mem_iff.mpr List.mem_cons_self
      · rw [ho]
        exact h.keyed
      · rw [hitems]
        exact Nat.add_lt_add_left hleft _
  · cases ha

theorem firstException_eq_none {consumers : List Consumer}
    (h : ∀ c ∈ consumers, c = .finished) : firstException consumers = none := by
  induction consumers with
  | nil => rfl
  | cons c rest ih =>
    have hrest := ih fun other hother => h other (List.mem_cons_of_mem _ hother)
    rw [h c List.mem_cons_self]
    exact hrest

/-- Outcomes for all selected sources make a summary that lists them in order. -/
theorem summarize_spec {outcomes : List (SourceId × SourceRunOutcome)} {ids : List SourceId}
    (hkeyed : ∀ row ∈ outcomes, row.2.sourceId = row.1)
    (hall : ∀ id ∈ ids, ∃ o, Table.lookup Prod.fst outcomes id = some (id, o)) (jobs : Nat) :
    ∃ summary, summarize ids outcomes jobs = .ok summary ∧
      summary.outcomes.map SourceRunOutcome.sourceId = ids := by
  have hmap : ∃ found, (ids.mapM fun id => (Table.lookup Prod.fst outcomes id).map Prod.snd) =
      some found ∧ found.map SourceRunOutcome.sourceId = ids := by
    induction ids with
    | nil => exact ⟨[], rfl, rfl⟩
    | cons id rest ih =>
      obtain ⟨o, ho⟩ := hall id List.mem_cons_self
      obtain ⟨found, hfound, hids⟩ := ih fun other hother => hall other (List.mem_cons_of_mem _ hother)
      refine ⟨o :: found, by rw [List.mapM_cons, ho, hfound]; rfl, ?_⟩
      rw [List.map_cons, hids, hkeyed _ (Table.mem_of_lookup ho)]
  obtain ⟨found, hfound, hids⟩ := hmap
  exact ⟨⟨found, jobs⟩, by rw [summarize, hfound], hids⟩

/-- The caller goes on while the consumers stay as they are. -/
theorem caller_step {caller : Caller} {queue : TaskQueue Item}
    (h : Tracked policy selected s sources stops)
    (hleft : queue.items ++ ({ s with caller := caller, queue := queue } : Once).toPut =
      s.queue.items ++ s.toPut)
    (hunfinished : queue.unfinished + s.queue.items.length =
      s.queue.unfinished + queue.items.length)
    (hcapacity : queue.capacity = s.queue.capacity)
    (hdrained : ({ s with caller := caller, queue := queue } : Once).Drained → queue.unfinished = 0)
    (hsettled : ∀ r, caller = .ended r →
      ({ s with caller := caller, queue := queue } : Once).Settled selected)
    (hcreated : caller ≠ .recovering) :
    Tracked policy selected { s with caller := caller, queue := queue } sources stops := by
  have hu := h.unfinished
  refine ⟨hleft.trans h.left, h.nodup, ?_, hcapacity.trans h.capacity, h.staff, h.paired, h.order,
    h.covered, h.keyed, hdrained, hsettled, hcreated, h.staffed⟩
  change queue.unfinished = queue.items.length + (runningSources s.consumers).length
  omega

/-- The spec of one step from a state with consumers. -/
theorem next_spec {s' : Once} {l : Label} (h : Tracked policy selected s sources stops)
    (hnext : next policy selected s l = some s') :
    (∃ sources' stops', Tracked policy selected s' sources' stops') ∧
      stepsLeft policy selected s' < stepsLeft policy selected s := by
  cases l with
  | recovered jobs =>
    dsimp only [next] at hnext
    split at hnext
    · exact absurd ‹_› h.created
    · cases hnext
  | recoveryFailed e =>
    dsimp only [next] at hnext
    split at hnext
    · exact absurd ‹_› h.created
    · cases hnext
  | put =>
    dsimp only [next] at hnext
    split at hnext
    · rename_i jobs hcaller
      cases hnext
      have hput : s.toPut = [] := by rw [toPut, hcaller]
      refine ⟨⟨sources, stops, h.caller_step (by rw [hput]; rfl) rfl rfl False.elim
        (fun _ hr => by cases hr) (by simp)⟩, ?_⟩
      simp [stepsLeft, hcaller, callerLeft]
    · rename_i item rest jobs hcaller
      obtain ⟨queue, hqueue, rfl⟩ := Option.map_eq_some_iff.mp hnext
      obtain ⟨-, rfl⟩ := TaskQueue.put_cases hqueue
      have hput : s.toPut = item :: rest := by rw [toPut, hcaller]
      refine ⟨⟨sources, stops, h.caller_step ?_ ?_ rfl False.elim (fun _ hr => by cases hr)
        (by simp)⟩, ?_⟩
      · rw [hput]
        exact List.append_assoc _ [item] rest
      · simp only [List.length_append, List.length_singleton]
        omega
      · simp only [stepsLeft, hcaller, callerLeft, List.length_append, List.length_cons,
          List.length_nil]
        omega
    · cases hnext
  | joined =>
    dsimp only [next] at hnext
    split at hnext
    · rename_i jobs hcaller
      split at hnext <;> cases hnext
      rename_i hdone
      have hput : s.toPut = [] := by rw [toPut, hcaller]
      refine ⟨⟨sources, stops, h.caller_step (by rw [hput]; rfl) rfl rfl (fun _ => hdone)
        (fun _ hr => by cases hr) (by simp)⟩, ?_⟩
      simp [stepsLeft, hcaller, callerLeft]
    · cases hnext
  | gathered =>
    dsimp only [next] at hnext
    split at hnext
    · rename_i jobs hcaller
      have hdrained : s.Drained := by rw [Drained, hcaller]; trivial
      have hdone := h.drained hdrained
      obtain ⟨rfl, hrunning, hall⟩ := h.all_finished (toPut_of_drained hdrained) hdone
      rw [firstException_eq_none hall] at hnext
      dsimp only at hnext
      split at hnext <;> cases hnext
      -- Nothing is left and nobody died, so each selected source has its outcome.
      have houtcomes : ∀ id ∈ selected, ∃ o, Table.lookup Prod.fst s.outcomes id = some (id, o) := by
        intro id hid
        rcases h.covered id hid with hmem | hout | ⟨e, he⟩
        · rw [hrunning] at hmem
          cases hmem
        · exact hout
        · cases hall _ he
      obtain ⟨summary, hsummary, hids⟩ := summarize_spec h.keyed houtcomes jobs
      rw [hsummary]
      have hput : s.toPut = [] := toPut_of_drained hdrained
      refine ⟨⟨[], stops, h.caller_step (by rw [hput]; rfl) rfl rfl (fun _ => hdone)
        (fun _ _ => hids) (by simp)⟩, ?_⟩
      simp [stepsLeft, hcaller, callerLeft]
    · cases hnext
  | take i now =>
    obtain ⟨h', hlt, -⟩ := take_spec h hnext
    exact ⟨h', hlt⟩
  | answer i r now =>
    obtain ⟨h', hlt, -⟩ := answer_spec h hnext
    exact ⟨⟨sources, stops, h'⟩, hlt⟩

/-! ### Progress -/

/-- A pool of which nobody died and which has not finished has a consumer alive. -/
theorem exists_alive (h : Tracked policy selected s sources stops)
    (hdied : ∀ e, Consumer.died e ∉ s.consumers) (hstops : 0 < stops) :
    ∃ c ∈ s.consumers, c.Alive := by
  by_contra hnone
  have hall : finishedCount s.consumers = s.consumers.length := by
    refine List.countP_eq_length.mpr fun c hc => decide_eq_true ?_
    cases hc' : c with
    | idle => exact absurd ⟨c, hc, hc' ▸ trivial⟩ hnone
    | running p => exact absurd ⟨c, hc, hc' ▸ trivial⟩ hnone
    | finished => rfl
    | died e => exact absurd (hc' ▸ hc) (hdied e)
  have := h.paired
  rw [hall, h.staff] at this
  omega

/-- Whatever is left to take, a sentinel is left. -/
theorem stops_pos (h : Tracked policy selected s sources stops)
    (hleft : s.queue.items ++ s.toPut ≠ []) : 0 < stops := by
  have hpaired := h.paired
  have hstaffed := h.staffed
  rcases Nat.eq_zero_or_pos (finishedCount s.consumers) with hzero | hpos
  · omega
  · -- A consumer has finished, so no source is left.
    have hleft' := h.left
    rw [h.order hpos] at hleft'
    refine Nat.pos_of_ne_zero fun hzero => hleft ?_
    rw [hleft', hzero]
    rfl

/-- A consumer that is alive can step while something is queued; a running one can step anyway. -/
theorem consumer_can_step
    (hstop : ∀ id, Consumer.running (.recordingStop id) ∉ s.consumers)
    (hwork : (s.queue.items ≠ [] ∧ ∃ c ∈ s.consumers, c.Alive) ∨
      runningSources s.consumers ≠ []) :
    ∃ l s', Records s l ∧ next policy selected s l = some s' := by
  by_cases hrunning : runningSources s.consumers = []
  · obtain ⟨hitems, c, hc, hc'⟩ := hwork.resolve_right (absurd hrunning)
    obtain ⟨i, hi⟩ := List.mem_iff_getElem?.mp hc
    cases c with
    | idle =>
      obtain ⟨item, queue, hget⟩ := TaskQueue.get_isSome hitems
      refine ⟨.take i 0, ?_⟩
      simp only [next, take, hi, hget, Records, true_and]
      cases item <;> exact ⟨_, rfl⟩
    | running p =>
      have := mem_runningSources hc
      rw [hrunning] at this
      cases this
    | finished => exact hc'.elim
    | died e => exact hc'.elim
  · obtain ⟨id, hid⟩ := List.exists_mem_of_ne_nil _ hrunning
    obtain ⟨c, hc, hsource⟩ := List.mem_filterMap.mp hid
    obtain ⟨i, hi⟩ := List.mem_iff_getElem?.mp hc
    cases c with
    | running p =>
      refine ⟨.answer i .returned 0, ?_⟩
      simp only [next, answer, hi, Records, Option.some.injEq, Consumer.running.injEq]
      have hp : ¬ p.Breaks .returned := by
        rintro (hfails | ⟨-, hr⟩)
        · cases p with
          | recordingStop id => exact hstop id hc
          | ingesting id started startedAt => exact hfails
          | _ => exact hfails rfl
        · cases hr
      cases hnext : (Worker.answer s.health 0 p .returned).2 <;>
        exact ⟨_, fun p' hp' => hp' ▸ hp, rfl⟩
    | _ => cases hsource

end Tracked

/-! ## Every run -/

variable {policy : WorkerPolicy} {values : List String}

/-- The state of every run: without consumers, or tracked. -/
def Accounted (policy : WorkerPolicy) (selected : List SourceId) (s : Once) : Prop :=
  Unstaffed policy selected s ∨ ∃ sources stops, Tracked policy selected s sources stops

theorem Unstaffed.recovered {selected : List SourceId} {s : Once} (h : Unstaffed policy selected s)
    (hn : selected.Nodup) (hstaffed : 0 < cardinality policy selected) (jobs : Nat) :
    Tracked policy selected
      { s with
        caller := .putting (script policy selected) jobs
        consumers := List.replicate (cardinality policy selected) .idle }
      selected (cardinality policy selected) := by
  have hnone : runningSources (List.replicate (cardinality policy selected) .idle) = [] :=
    List.filterMap_replicate_of_none rfl
  have hcount : finishedCount (List.replicate (cardinality policy selected) .idle) = 0 :=
    List.countP_eq_zero.mpr fun c hc => by simp [List.eq_of_mem_replicate hc]
  refine ⟨?_, ?_, ?_, h.capacity, List.length_replicate, by rw [hcount]; rfl, ?_, ?_, ?_, False.elim,
    fun _ hr => (by cases hr), by simp, hstaffed⟩
  · rw [h.items]
    rfl
  · rw [hnone, List.append_nil]
    exact hn
  · rw [hnone, h.unfinished, h.items]
    rfl
  · rw [hcount]
    exact fun hpos => absurd hpos (Nat.lt_irrefl 0)
  · exact fun id hid => .inl (List.mem_append_left _ hid)
  · rw [h.outcomes]
    exact fun _ hrow => absurd hrow List.not_mem_nil

/-- The spec of one step before the consumers exist. -/
theorem Unstaffed.next_spec {selected : List SourceId} {s s' : Once} {l : Label}
    (h : Unstaffed policy selected s) (hn : selected.Nodup) (hnext : next policy selected s l = some s') :
    Accounted policy selected s' ∧ stepsLeft policy selected s' < stepsLeft policy selected s := by
  cases l with
  | recovered jobs =>
    dsimp only [next] at hnext
    split at hnext <;> cases hnext
    rename_i hcaller
    obtain ⟨-, hstaffed⟩ | ⟨e, herror⟩ := h.caller
    case inr => rw [hcaller] at herror; cases herror
    refine ⟨.inr ⟨_, _, h.recovered hn hstaffed jobs⟩, ?_⟩
    have hidle : leftTotal (List.replicate (cardinality policy selected) .idle) = 0 := by
      simp [leftTotal, Consumer.left]
    simp only [stepsLeft, hcaller, callerLeft, hidle]
    omega
  | recoveryFailed e =>
    dsimp only [next] at hnext
    split at hnext <;> cases hnext
    rename_i hcaller
    refine ⟨.inl ⟨.inr ⟨e, rfl⟩, h.consumers, h.items, h.unfinished, h.outcomes, h.capacity⟩, ?_⟩
    simp only [stepsLeft, hcaller, callerLeft]
    omega
  | take i now => simp [next, take, h.consumers] at hnext
  | answer i r now => simp [next, answer, h.consumers] at hnext
  | _ =>
    -- The caller waits for the recovery, or has ended.
    rcases h.caller with ⟨hcaller, -⟩ | ⟨e, hcaller⟩ <;> simp [next, hcaller] at hnext

theorem Unstaffed.start (health : HealthTable) :
    Unstaffed policy (selectedSources policy values) (start policy values health) := by
  unfold Once.start selectedSources
  dsimp only
  cases h : sourceIds policy.maximumSources values with
  | error e => exact ⟨.inr ⟨e, rfl⟩, rfl, rfl, rfl, rfl, rfl⟩
  | ok selected =>
    have hpos : 0 < cardinality policy selected :=
      Nat.lt_min.mpr ⟨policy.limits_pos.1, List.length_pos_iff.mpr (sourceIds_spec h).2⟩
    exact ⟨.inl ⟨rfl, hpos⟩, rfl, rfl, rfl, rfl, rfl⟩

theorem selectedSources_nodup : (selectedSources policy values).Nodup := by
  unfold selectedSources
  cases h : sourceIds policy.maximumSources values with
  | error e => exact List.nodup_nil
  | ok selected => exact (sourceIds_spec h).1

/-- The spec of one step. -/
theorem Accounted.next_spec {s s' : Once} {l : Label}
    (h : Accounted policy (selectedSources policy values) s)
    (hnext : next policy (selectedSources policy values) s l = some s') :
    Accounted policy (selectedSources policy values) s' ∧
      stepsLeft policy (selectedSources policy values) s' <
        stepsLeft policy (selectedSources policy values) s := by
  rcases h with h | ⟨sources, stops, h⟩
  · exact h.next_spec selectedSources_nodup hnext
  · obtain ⟨h', hlt⟩ := h.next_spec hnext
    exact ⟨.inr h', hlt⟩

/-- Every run keeps the bookkeeping. -/
theorem accounted {ok : Once → Label → Prop} {s : Once} (hs : Reach (runOnce policy values) ok s) :
    Accounted policy (selectedSources policy values) s := by
  refine hs.invariant ?_ fun s l s' h _ hnext => (h.next_spec hnext).1
  rintro s ⟨health, rfl⟩
  exact .inl (Unstaffed.start health)

/-- No source is queued or running twice, in every run. -/
theorem atMostOne {s : Once} (hs : Reach (runOnce policy values) Any s) : AtMostOne s := by
  rcases accounted hs with h | ⟨sources, stops, h⟩
  · rw [AtMostOne, h.items, h.consumers]
    exact List.nodup_nil
  · refine h.nodup.sublist (List.Sublist.append_right ?_ _)
    have hsublist : (s.queue.items.reduceOption).Sublist
        (s.queue.items ++ s.toPut).reduceOption :=
      (List.sublist_append_left _ _).filterMap id
    rw [h.left, List.reduceOption_append, List.reduceOption_replicate_none, List.append_nil] at hsublist
    simpa [List.reduceOption] using hsublist

/-! ## Runs in which every record succeeds -/

/-- Every consumer is intact. -/
def Sound (s : Once) : Prop := ∀ c ∈ s.consumers, Intact c

theorem Sound.set {s s' : Once} {i : Nat} {before c : Consumer} (h : Sound s)
    (hm : Tracked.Moves s s' i before c) (hc : Intact c) : Sound s' := by
  intro other hother
  rw [hm.consumers] at hother
  rcases List.mem_or_eq_of_mem_set hother with hold | rfl
  · exact h other hold
  · exact hc

/-- The spec of one step in such a run. -/
theorem Sound.next {selected : List SourceId} {s s' : Once} {l : Label} (h : Sound s)
    (ha : Accounted policy selected s) (hok : Records s l)
    (hnext : next policy selected s l = some s') : Sound s' := by
  cases l with
  | recovered jobs =>
    dsimp only [Once.next] at hnext
    split at hnext <;> cases hnext
    intro c hc
    rw [List.eq_of_mem_replicate hc]
    exact ⟨fun _ => by simp, fun _ => by simp⟩
  | recoveryFailed e =>
    dsimp only [Once.next] at hnext
    split at hnext <;> cases hnext
    exact h
  | put =>
    dsimp only [Once.next] at hnext
    split at hnext
    · cases hnext
      exact h
    · obtain ⟨queue, -, rfl⟩ := Option.map_eq_some_iff.mp hnext
      exact h
    · cases hnext
  | joined =>
    dsimp only [Once.next] at hnext
    split at hnext
    · split at hnext <;> cases hnext
      exact h
    · cases hnext
  | gathered =>
    dsimp only [Once.next] at hnext
    split at hnext
    · split at hnext
      · cases hnext
        exact h
      · split at hnext <;> cases hnext
        exact h
    · cases hnext
  | take i now =>
    rcases ha with hfresh | ⟨sources, stops, ht⟩
    · simp [Once.next, take, hfresh.consumers] at hnext
    · obtain ⟨-, -, before, c, hm, hc⟩ := Tracked.take_spec ht hnext
      exact h.set hm hc
  | answer i r now =>
    rcases ha with hfresh | ⟨sources, stops, ht⟩
    · simp [Once.next, answer, hfresh.consumers] at hnext
    · obtain ⟨-, -, p, c, hm, hc⟩ := Tracked.answer_spec ht hnext
      exact h.set hm (hc (hok p hm.at_i))

theorem sound {s : Once} (hs : Reach (runOnce policy values) Records s) : Sound s := by
  refine hs.invariant_of ?_ fun s l s' hr h hok hnext => h.next (accounted hr) hok hnext
  rintro s ⟨health, rfl⟩ c hc
  rw [(Unstaffed.start health).consumers] at hc
  cases hc

/-- Whatever is queued finds a consumer that is alive. -/
theorem notStranded {s : Once} (hs : Reach (runOnce policy values) Records s) : NotStranded s := by
  intro hitems
  rcases accounted hs with h | ⟨sources, stops, h⟩
  · exact absurd h.items hitems
  · refine h.exists_alive (fun e he => (sound hs _ he).1 e rfl) (h.stops_pos ?_)
    exact List.append_ne_nil_of_left_ne_nil hitems _

/-- A run that has not ended goes on. -/
theorem progress {s : Once} (hs : Reach (runOnce policy values) Records s)
    (hnot : ¬ s.Settled (selectedSources policy values)) :
    ∃ l s', Records s l ∧ (runOnce policy values).next s l = some s' := by
  have hstop : ∀ id, Consumer.running (.recordingStop id) ∉ s.consumers :=
    fun id hid => (sound hs _ hid).2 id rfl
  rcases accounted hs with h | ⟨sources, stops, h⟩
  · rcases h.caller with ⟨hcaller, -⟩ | ⟨e, hcaller⟩
    · refine ⟨.recovered 0, ?_⟩
      simp only [runOnce, next, hcaller]
      exact ⟨_, trivial, rfl⟩
    · refine absurd ?_ hnot
      rw [Settled, hcaller]
      trivial
  · have queued := notStranded hs
    cases hcaller : s.caller with
    | recovering => exact absurd hcaller h.created
    | putting items jobs =>
      cases items with
      | nil =>
        refine ⟨.put, ?_⟩
        simp only [runOnce, next, hcaller]
        exact ⟨_, trivial, rfl⟩
      | cons item rest =>
        by_cases hfull : s.queue.Full
        · -- A full queue holds something, which a consumer takes or runs first.
          have hitems : s.queue.items ≠ [] := by
            intro hnil
            rw [TaskQueue.Full, h.capacity, hnil] at hfull
            exact absurd hfull (Nat.not_le_of_lt policy.limits_pos.2.1)
          exact Tracked.consumer_can_step hstop (.inl ⟨hitems, queued hitems⟩)
        · refine ⟨.put, ?_⟩
          simp only [runOnce, next, hcaller, TaskQueue.put, if_neg hfull, Option.map_some]
          exact ⟨_, trivial, rfl⟩
    | joining jobs =>
      by_cases hdone : s.queue.unfinished = 0
      · refine ⟨.joined, ?_⟩
        simp only [runOnce, next, hcaller, if_pos hdone]
        exact ⟨_, trivial, rfl⟩
      · refine Tracked.consumer_can_step hstop ?_
        by_cases hitems : s.queue.items = []
        · refine .inr fun hrunning => hdone ?_
          rw [h.unfinished, hitems, hrunning]
          rfl
        · exact .inl ⟨hitems, queued hitems⟩
    | gathering jobs =>
      have hdrained : s.Drained := by rw [Drained, hcaller]; trivial
      obtain ⟨-, -, hall⟩ := h.all_finished (Tracked.toPut_of_drained hdrained) (h.drained hdrained)
      refine ⟨.gathered, ?_⟩
      simp only [runOnce, next, hcaller, Tracked.firstException_eq_none hall]
      rw [if_pos fun c hc => by rw [hall c hc]; exact id]
      exact ⟨_, trivial, rfl⟩
    | ended result => exact absurd (h.settled result hcaller) hnot

/-- Every run ends, with an outcome for each selected source or with an error. -/
theorem ends {s : Once} (hs : (runOnce policy values).init s) :
    Inevitable (runOnce policy values) Records (Settled (selectedSources policy values)) s := by
  refine Inevitable.of_measure (stepsLeft policy (selectedSources policy values))
    (fun s hr hnot => progress hr hnot) (fun s l s' hr _ _ hnext => ?_) (.init hs)
  exact ((accounted hr).next_spec hnext).2

end Once

end Makolet.Worker
