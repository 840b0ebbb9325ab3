import Makolet.Lib.System
import Makolet.Collection.Collector

/-!
# Collectors under the source lease

`collectionSystem` runs any number of collector processes of one source. A collector starts by
taking the source lease and frees it when it returns or dies. The lease is a session lock, so its
session may also end while the process goes on (`loseLease`); a second collector can then overlap
with the first. Every collector step, every step of an ingest call, the death of a process and the
recovery of a stale job is one event.

`World.moves_of_next` says everything an event can do. The projection of a world to its charges is
a state of `chargingSystem`, and every event is a run of that system (`charging_reach`).
-/

set_option autoImplicit false

namespace Makolet.Collection

open Makolet.Domain Makolet.Lib Makolet.Lib.Table Makolet.Ingestion Makolet.Normalized

/-! ## The system -/

structure World where
  shared : Shared
  lease : Option ProcessId
  collectors : ProcessId → Option Collector

def World.start (clock : Time) : World := ⟨.start clock, none, fun _ => none⟩

inductive CollectionEvent
  | collect (p : ProcessId) (scope : CollectionScope)
  | reply (p : ProcessId) (r : Reply CollectorInput Fault)
  | ingest (p : ProcessId) (r : Reply IngestInput Fault)
  | die (p : ProcessId)
  | recover (f : FileId)
  | loseLease

namespace World

/-- The lease without its owner `p`. -/
def released (w : World) (p : ProcessId) : Option ProcessId :=
  if w.lease = some p then none else w.lease

/-- A new collector, by a process whose last one is over. -/
def collect (w : World) (p : ProcessId) (scope : CollectionScope) : Option World :=
  if w.lease = none ∧ (w.collectors p).all (fun c => decide (c.pc = .returned)) = true then
    some { w with
      lease := some p
      collectors := Function.update w.collectors p (some (Collector.start p scope)) }
  else none

/-- An answer to the operation that a collector awaits. -/
def reply (config : Config) (w : World) (p : ProcessId) (r : Reply CollectorInput Fault) :
    Option World :=
  (w.collectors p).bind fun c =>
    ((collectorProgram config).step w.shared c r).map fun (s, c') =>
      ⟨s, if c'.pc = .returned then w.released p else w.lease,
        Function.update w.collectors p (some c')⟩

/-- An event of the ingest calls. -/
def alive (policy : IngestionPolicy) (w : World) (e : LifecycleEvent) : Option World :=
  (w.shared.life.next policy e).map fun life => { w with shared := { w.shared with life := life } }

/-- The death of a process, with its ingest call. -/
def die (policy : IngestionPolicy) (w : World) (p : ProcessId) : Option World :=
  (w.alive policy (.die p)).map fun w' =>
    { w' with lease := w.released p, collectors := Function.update w.collectors p none }

def next (config : Config) (policy : IngestionPolicy) (w : World) : CollectionEvent → Option World
  | .collect p scope => w.collect p scope
  | .reply p r => w.reply config p r
  | .ingest p r => w.alive policy (.reply p r)
  | .die p => w.die policy p
  | .recover f => w.alive policy (.recover f)
  | .loseLease => some { w with lease := none }

end World

def collectionSystem (config : Config) (policy : IngestionPolicy) :
    Makolet.Lib.System World CollectionEvent where
  init w := ∃ clock, w = .start clock
  next := World.next config policy

/-! ## What an event did -/

/-- The events of the system, each with what it did. -/
inductive World.Moves (config : Config) (policy : IngestionPolicy) (w : World) :
    CollectionEvent → World → Prop
  | collect {p : ProcessId} {scope : CollectionScope} (hfree : w.lease = none)
      (hidle : ∀ c, w.collectors p = some c → c.pc = .returned) :
      Moves config policy w (.collect p scope) { w with
        lease := some p
        collectors := Function.update w.collectors p (some (Collector.start p scope)) }
  | reply {p : ProcessId} {r : Reply CollectorInput Fault} {c c' : Collector} {s : Shared}
      (hc : w.collectors p = some c)
      (hstep : (collectorProgram config).step w.shared c r = some (s, c')) :
      Moves config policy w (.reply p r)
        ⟨s, if c'.pc = .returned then w.released p else w.lease,
          Function.update w.collectors p (some c')⟩
  | ingest {p : ProcessId} {r : Reply IngestInput Fault} {life : Lifecycle}
      (h : w.shared.life.next policy (.reply p r) = some life) :
      Moves config policy w (.ingest p r) { w with shared := { w.shared with life := life } }
  | die {p : ProcessId} {life : Lifecycle} (h : w.shared.life.next policy (.die p) = some life) :
      Moves config policy w (.die p)
        ⟨{ w.shared with life := life }, w.released p, Function.update w.collectors p none⟩
  | recover {f : FileId} {life : Lifecycle}
      (h : w.shared.life.next policy (.recover f) = some life) :
      Moves config policy w (.recover f) { w with shared := { w.shared with life := life } }
  | loseLease : Moves config policy w .loseLease { w with lease := none }

section Moves

variable {config : Config} {policy : IngestionPolicy} {w w' : World} {e : CollectionEvent}

theorem World.moves_of_next (h : w.next config policy e = some w') : w.Moves config policy e w' := by
  cases e with
  | collect p scope =>
    simp only [World.next, World.collect] at h
    split at h
    · rename_i hcond
      cases h
      refine .collect hcond.1 fun c hc => ?_
      have hall := hcond.2
      rw [hc, Option.all_some] at hall
      exact of_decide_eq_true hall
    · cases h
  | reply p r =>
    obtain ⟨c, hc, h⟩ := Option.bind_eq_some_iff.mp h
    obtain ⟨⟨s, c'⟩, hstep, heq⟩ := Option.map_eq_some_iff.mp h
    cases heq
    exact .reply hc hstep
  | ingest p r =>
    obtain ⟨life, hlife, heq⟩ := Option.map_eq_some_iff.mp h
    cases heq
    exact .ingest hlife
  | die p =>
    simp only [World.next, World.die] at h
    obtain ⟨w₁, hw₁, heq⟩ := Option.map_eq_some_iff.mp h
    obtain ⟨life, hlife, rfl⟩ := Option.map_eq_some_iff.mp hw₁
    cases heq
    exact .die hlife
  | recover f =>
    obtain ⟨life, hlife, heq⟩ := Option.map_eq_some_iff.mp h
    cases heq
    exact .recover hlife
  | loseLease =>
    cases h
    exact .loseLease

/-- A collector that is there after the end of a process was there before. -/
theorem collectors_of_update_none {p q : ProcessId} {c : Collector}
    (h : Function.update w.collectors p none q = some c) : w.collectors q = some c :=
  (update_none_eq_some h).2

end Moves

/-! ## Exceptions -/

/-- The file of the `try` block that an awaited operation stands in, and whether the bootstrap of
the file is under way. -/
def CollectorPc.tries : CollectorPc → Option (Slot × Bool)
  | .settle slot _ | .noteTerminal slot _ => some (slot, false)
  | .bootstrap slot _ _ => some (slot, true)
  | _ => none

section Handle

variable {c c' : Collector} {e : Failure}

/-- An exception ends the collector, ends its attempt, or enters a handler of the file. -/
theorem Collector.handle_cases (h : c.handle e = some c') :
    c' = c.goto .returned ∨ (∃ status, status ≠ .completed ∧ c' = c.goto (.finish status)) ∨
      ∃ slot pending, c.pc.tries = some (slot, pending) ∧ c' = c.raise slot e pending := by
  unfold Collector.handle at h
  split at h
  · -- `begin_attempt` raised: there is no attempt to finish.
    cases h
    exact .inl rfl
  · cases h
    exact .inl rfl
  · cases h
    refine .inr (.inl ⟨_, ?_, rfl⟩)
    split <;> decide
  · cases h
    refine .inr (.inl ⟨_, ?_, rfl⟩)
    split <;> decide
  · cases h
  · cases h
  · cases h
  · rename_i slot _ hpc
    cases h
    exact .inr (.inr ⟨slot, false, by rw [hpc]; rfl, rfl⟩)
  · rename_i slot _ hpc
    cases h
    exact .inr (.inr ⟨slot, false, by rw [hpc]; rfl, rfl⟩)
  · rename_i slot _ _ hpc
    cases h
    exact .inr (.inr ⟨slot, true, by rw [hpc]; rfl, rfl⟩)
  · cases h
    exact .inr (.inl ⟨.failed, by decide, rfl⟩)

/-- The handlers of a file: the four operations they start with. -/
theorem Collector.raise_cases (c : Collector) (slot : Slot) (e : Failure) (pending : Bool) :
    c.raise slot e pending = c.goto (.budgetSettle slot e.transferredBytes) ∨
      c.raise slot e pending = c.goto (.errorSettle slot e.transferredBytes pending) ∨
      (pending = true ∧ c.raise slot e pending = c.goto .errorObserve) ∨
      (pending = false ∧ c.raise slot e pending = c.goto (.errorCheck slot)) := by
  unfold Collector.raise
  split
  · exact .inl rfl
  · split
    · exact .inr (.inl rfl)
    · split
      · exact .inr (.inr (.inl ⟨by assumption, rfl⟩))
      · exact .inr (.inr (.inr ⟨Bool.eq_false_iff.mpr (by assumption), rfl⟩))

end Handle

/-! ## Decisions of the loop -/

section Decisions

variable {config : Config} {c c' : Collector}

/-- The loop head ends the page, ends the run, or takes up the file listed at the index. -/
theorem Collector.select_cases {page : DiscoveryPage} {index : Nat}
    (h : c.select config page index = .ok c') :
    (page.files[index]? = none ∧ c' = c.goto (.advancePage page)) ∨
      c' = c.goto (.finish .bounded) ∨
      ∃ slot : Slot, slot.page = page ∧ slot.index = index ∧
        inSourceScope config c.scope slot.remote = true ∧
        ((isUnknown slot.remote = true ∧ c' = c.goto (.advanceUnknown slot)) ∨
          (isUnknown slot.remote = false ∧ c' = c.goto (.checkTerminal slot))) := by
  unfold Collector.select at h
  split at h
  · rename_i hnone
    cases h
    exact .inl ⟨hnone, rfl⟩
  · rename_i remote hlisted
    dsimp only at h
    split at h
    · cases h
      exact .inr (.inl rfl)
    · split at h
      · cases h
      · rename_i hscope
        have hscope := Classical.not_not.mp hscope
        split at h
        · rename_i hunknown
          cases h
          exact .inr (.inr ⟨⟨page, index, remote, hlisted⟩, rfl, rfl, hscope, .inl ⟨hunknown, rfl⟩⟩)
        · rename_i hunknown
          cases h
          exact .inr (.inr ⟨⟨page, index, remote, hlisted⟩, rfl, rfl, hscope,
            .inr ⟨Bool.eq_false_iff.mpr hunknown, rfl⟩⟩)

/-- The skip decision: skip, stop, or go on to the reservation of a file in range that is not yet
terminal or stands at the retry boundary. -/
theorem Collector.decide_cases (config : Config) (c : Collector) (slot : Slot) (terminal : Bool) :
    ((withinRange c.scope slot.remote = false ∨ (terminal = true ∧ c.retryBoundary = false)) ∧
        c.decide config slot terminal = c.goto (.advanceSkip slot)) ∨
      c.decide config slot terminal = c.goto (.finish .bounded) ∨
      ((terminal = true → c.retryBoundary = true) ∧
        c.decide config slot terminal = c.goto (.chargeBudget slot terminal)) := by
  unfold Collector.decide
  split
  · rename_i hskip
    refine .inl ⟨?_, rfl⟩
    rcases hskip with hrange | ⟨hterminal, hretry⟩
    · exact .inl (Bool.eq_false_iff.mpr hrange)
    · exact .inr ⟨hterminal, Bool.eq_false_iff.mpr hretry⟩
  · rename_i hkeep
    split
    · exact .inr (.inl rfl)
    · refine .inr (.inr ⟨fun hterminal => ?_, rfl⟩)
      by_contra hretry
      exact hkeep (.inr ⟨hterminal, hretry⟩)

/-- The reservation: none, an empty one at the retry boundary, or what the budget leaves. -/
theorem Collector.budgeted_cases (config : Config) (c : Collector) (slot : Slot) (terminal : Bool)
    (budget : ChargeBudget) :
    c.budgeted config slot terminal budget = c.goto (.finish .bounded) ∨
      (terminal = true ∧ c.retryBoundary = true ∧
        c.budgeted config slot terminal budget = c.goto (.register slot 0 true)) ∨
      ((config.policy.maximumTransferChunkBytes : Int) < config.policy.remainingBytes budget ∧
        ¬ (terminal = true ∧ c.retryBoundary = true) ∧
        c.budgeted config slot terminal budget = c.goto (.register slot
          (min (config.policy.remainingBytes budget)
            (config.policy.fullReservation slot.remote.protocol)).toNat false)) := by
  unfold Collector.budgeted
  cases hretrying : terminal && c.retryBoundary with
  | true =>
    obtain ⟨hterminal, hretry⟩ := Bool.and_eq_true _ _ ▸ hretrying
    simp [hterminal, hretry]
  | false =>
    have hnot : ¬ (terminal = true ∧ c.retryBoundary = true) := by
      rintro ⟨hterminal, hretry⟩
      rw [hterminal, hretry] at hretrying
      cases hretrying
    by_cases hreached : config.policy.budgetReached budget = true
    · simp [hreached]
    · by_cases hsmall :
          config.policy.remainingBytes budget ≤ config.policy.maximumTransferChunkBytes
      · simp [hsmall]
      · simp [hreached, hsmall, hnot]
        omega

end Decisions

/-! ## Charges -/

section Charges

variable {config : Config} {policy : IngestionPolicy} {s s' : Shared} {c c' : Collector}
  {pc : CollectorPc}

/-- A committed charge call, by a running attempt. -/
theorem Shared.charge_eq_ok {call : ChargeCall} {r : Readings} {budget : ChargeBudget}
    (h : s.charge config c call r = some (.ok (s', budget))) :
    s.clock ≤ r.locked ∧ (∃ row ck, s.traversals.lockedRunning c.attemptId = .ok (row, ck)) ∧
      ∃ l, call.run config.sourceId s.files r s.ledger = .ok (l, budget) ∧
        s' = { s with ledger := l, clock := r.relocked } := by
  unfold Shared.charge at h
  split at h
  · rename_i hclock
    obtain ⟨⟨row, ck⟩, hlocked, h⟩ := bind_eq_ok.mp (Option.some.inj h)
    obtain ⟨⟨l, b⟩, hrun, heq⟩ := map_eq_ok.mp h
    cases heq
    exact ⟨hclock, ⟨row, ck, hlocked⟩, l, hrun, rfl⟩
  · cases h

theorem Shared.advanceFile_eq_ok {slot : Slot} {recognized unknown : Nat}
    {attempt : CollectionAttempt} (h : s.advanceFile c slot recognized unknown = .ok (s', attempt)) :
    ∃ traversals, s.traversals.advanceAttempt c.attemptId c.cursor slot.index c.cursor
        (slot.index + 1) recognized unknown = .ok (traversals, attempt) ∧
      s' = { s with
        traversals := traversals
        history := { s.history with
          passes := ⟨c.scope, slot.file, statusOf s.files slot.file⟩ :: s.history.passes
          progress := Function.update s.history.progress c.attemptId (some .passed) } } := by
  obtain ⟨⟨traversals, a⟩, hadvance, heq⟩ := map_eq_ok.mp h
  cases heq
  exact ⟨traversals, hadvance, rfl⟩

theorem Shared.advanceTo_eq_ok {length : Nat} {cursor : Cursor} {attempt : CollectionAttempt}
    (h : s.advanceTo c length cursor = .ok (s', attempt)) :
    ∃ traversals, s.traversals.advanceAttempt c.attemptId c.cursor length cursor 0 0 0 =
        .ok (traversals, attempt) ∧ s' = { s with
          traversals := traversals
          history := { s.history with
            progress := Function.update s.history.progress c.attemptId (some .turned) } } := by
  obtain ⟨⟨traversals, a⟩, hadvance, heq⟩ := map_eq_ok.mp h
  cases heq
  exact ⟨traversals, hadvance, rfl⟩

theorem Shared.startCall_eq_some {slot : Slot} {limit : Option Nat}
    (h : s.startCall c slot limit = some s') :
    ∃ life, s.life.start c.owner slot.remote c.scope.archiveOnly limit = some life ∧
      s' = { s with
        life := life
        history := { s.history with
          calls := ⟨c.attemptId, c.cursor, slot.index, slot.file⟩ :: s.history.calls
          progress :=
            Function.update s.history.progress c.attemptId (some (.called slot.file)) } } := by
  obtain ⟨life, hlife, heq⟩ := Option.map_eq_some_iff.mp h
  exact ⟨life, hlife, heq.symm⟩

/-- What an operation writes into the shared state. -/
inductive Collector.Writes (config : Config) (s : Shared) (c : Collector) :
    CollectorPc → Shared → Prop
  | nothing {pc : CollectorPc} (hpc : pc ≠ .begin) : Writes config s c pc s
  | begin : Writes config s c .begin (s.begin c.scope).1
  | advance {pc : CollectorPc} {slot : Slot} {recognized unknown : Nat} {traversals : Traversals}
      {attempt : CollectionAttempt} (hslot : pc.advances = some slot)
      (h : s.traversals.advanceAttempt c.attemptId c.cursor slot.index c.cursor (slot.index + 1)
        recognized unknown = .ok (traversals, attempt)) :
      Writes config s c pc { s with
        traversals := traversals
        history := { s.history with
          passes := ⟨c.scope, slot.file, statusOf s.files slot.file⟩ :: s.history.passes
          progress := Function.update s.history.progress c.attemptId (some .passed) } }
  | charge {pc : CollectorPc} {call : ChargeCall} {r : Readings} {l : Ledger}
      {budget : ChargeBudget} (hpc : pc ≠ .begin) (hclock : s.clock ≤ r.locked)
      (h : call.run config.sourceId s.files r s.ledger = .ok (l, budget)) :
      Writes config s c pc { s with ledger := l, clock := r.relocked }
  | register {slot : Slot} {reserved : Nat} {retrying : Bool} {life : Lifecycle}
      (h : s.life.register slot.remote = .ok life) :
      Writes config s c (.register slot reserved retrying) { s with life := life }
  | call {slot : Slot} {reserved : Nat} {retrying : Bool} {life : Lifecycle}
      (h : s.life.start c.owner slot.remote c.scope.archiveOnly
        (config.ingestionByteLimit reserved retrying) = some life) :
      Writes config s c (.call slot reserved retrying) { s with
        life := life
        history := { s.history with
          calls := ⟨c.attemptId, c.cursor, slot.index, slot.file⟩ :: s.history.calls
          progress := Function.update s.history.progress c.attemptId (some (.called slot.file)) } }
  | bootstrap {slot : Slot} {result : IngestionResult} {budget : ChargeBudget}
      (hresult : result.status = .completed) :
      Writes config s c (.bootstrap slot result budget) (s.bootstrapped slot.file)
  | turn {page : DiscoveryPage} {cursor : Cursor} {traversals : Traversals}
      {attempt : CollectionAttempt}
      (h : s.traversals.advanceAttempt c.attemptId c.cursor page.files.length cursor 0 0 0 =
        .ok (traversals, attempt)) :
      Writes config s c (.advancePage page) { s with
        traversals := traversals
        history := { s.history with
          progress := Function.update s.history.progress c.attemptId (some .turned) } }
  | finish {status : FinishStatus} {traversals : Traversals}
      (h : s.traversals.finishAttempt c.attemptId status c.traversalComplete = .ok traversals) :
      Writes config s c (.finish status) { s with traversals := traversals }

theorem Collector.Acts.writes (h : c.Acts config s pc s' c') : c.Writes config s pc s' := by
  have hcharge {pc : CollectorPc} (hpc : pc ≠ .begin) {call : ChargeCall} {r : Readings}
      {budget : ChargeBudget} (hok : s.charge config c call r = some (.ok (s', budget))) :
      c.Writes config s pc s' := by
    obtain ⟨hclock, -, l, hrun, rfl⟩ := Shared.charge_eq_ok hok
    exact .charge hpc hclock hrun
  cases h with
  | begin => exact .begin
  | advance hslot hadvance hnext =>
    obtain ⟨traversals, hok, rfl⟩ := Shared.advanceFile_eq_ok hadvance
    exact .advance hslot hok
  | chargeBudget hok => exact hcharge CollectorPc.noConfusion hok
  | register hreg => exact .register hreg
  | reserve hok => exact hcharge CollectorPc.noConfusion hok
  | call hcall =>
    obtain ⟨life, hlife, rfl⟩ := Shared.startCall_eq_some hcall
    exact .call hlife
  | settle hsettles hok =>
    refine hcharge ?_ hok
    rintro rfl
    cases hsettles
  | @bootstrap slot result budget =>
    by_cases hresult : result.status = .completed
    · rw [if_pos hresult]
      exact .bootstrap hresult
    · rw [if_neg hresult]
      exact .nothing CollectorPc.noConfusion
  | observe hstatus hobserve =>
    refine .nothing ?_
    rcases hobserve with rfl | rfl <;> exact CollectorPc.noConfusion
  | lastPage hadvance =>
    obtain ⟨traversals, hok, rfl⟩ := Shared.advanceTo_eq_ok hadvance
    exact .turn hok
  | nextPage hadvance =>
    obtain ⟨traversals, hok, rfl⟩ := Shared.advanceTo_eq_ok hadvance
    exact .turn hok
  | finish hok => exact .finish hok
  | _ => exact .nothing CollectorPc.noConfusion

/-- The charges of a world. -/
def Shared.charging (s : Shared) : Charging := ⟨s.life, s.ledger, s.clock⟩

theorem Charging.next_of_run {call : ChargeCall} {r : Readings} {budget : ChargeBudget} {l : Ledger}
    {t : Charging} (hclock : t.clock ≤ r.locked)
    (hrun : call.run config.sourceId t.life.store.files r t.ledger = .ok (l, budget)) :
    t.next policy config.sourceId (.call call r) = some ⟨t.life, l, r.relocked⟩ := by
  simp only [Charging.next, if_pos hclock, hrun]

/-- Every committed operation of a collector is a step of the charges, or leaves them. -/
theorem Collector.Acts.charging (policy : IngestionPolicy) (h : c.Acts config s pc s' c') :
    s'.charging = s.charging ∨ ∃ e, s.charging.next policy config.sourceId e = some s'.charging := by
  cases h.writes with
  | charge _ hclock hrun => exact .inr ⟨.call _ _, Charging.next_of_run hclock hrun⟩
  | @register slot _ _ life hreg =>
    refine .inr ⟨.register slot.remote, ?_⟩
    have hregister : s.charging.life.register slot.remote = .ok life := hreg
    simp only [Charging.next, hregister]
    rfl
  | @call slot reserved retrying _ hlife =>
    refine .inr ⟨.life (.start c.owner slot.remote c.scope.archiveOnly
      (config.ingestionByteLimit reserved retrying)), ?_⟩
    show (s.life.start _ _ _ _).map _ = _
    rw [hlife]
    rfl
  | _ => exact .inl rfl

theorem World.Moves.charging {w w' : World} {e : CollectionEvent} (h : w.Moves config policy e w') :
    w'.shared.charging = w.shared.charging ∨
      ∃ e, w.shared.charging.next policy config.sourceId e = some w'.shared.charging := by
  have hlife : ∀ {le : LifecycleEvent} {life : Lifecycle},
      w.shared.life.next policy le = some life →
      w.shared.charging.next policy config.sourceId (.life le) =
        some ({ w.shared with life := life } : Shared).charging := by
    intro le life hnext
    show (w.shared.life.next policy le).map _ = _
    rw [hnext]
    rfl
  cases h with
  | collect => exact .inl rfl
  | reply hc hstep =>
    rcases Program.step_durable hstep with rfl | ⟨i, next, hact⟩
    · exact .inl rfl
    · exact (Collector.acts_of_act hact).charging policy
  | ingest hnext => exact .inr ⟨_, hlife hnext⟩
  | die hnext => exact .inr ⟨_, hlife hnext⟩
  | recover hnext => exact .inr ⟨_, hlife hnext⟩
  | loseLease => exact .inl rfl

/-- The charges along a run of collectors are a run of charge calls. -/
theorem charging_reach {ok : World → CollectionEvent → Prop} {w : World}
    (h : Reach (collectionSystem config policy) ok w) :
    Reach (chargingSystem policy config.sourceId) Any w.shared.charging := by
  induction h with
  | init hi =>
    obtain ⟨clock, rfl⟩ := hi
    exact .init ⟨clock, rfl⟩
  | step e _ _ hnext ih =>
    rcases (World.moves_of_next hnext).charging with heq | ⟨label, hlabel⟩
    · rw [heq]
      exact ih
    · exact .step label ih trivial hlabel

theorem world_charging_sound {ok : World → CollectionEvent → Prop} {w : World}
    (h : Reach (collectionSystem config policy) ok w) : w.shared.charging.Sound :=
  charging_sound (charging_reach h)

end Charges

/-! ## Rows -/

/-- A collector writes the rows of the files by the registration of a listed file only. -/
theorem Collector.Acts.files {config : Config} {s s' : Shared} {c c' : Collector} {pc : CollectorPc}
    (h : c.Acts config s pc s' c') :
    s'.files = s.files ∨ ∃ remote, registerDiscovery remote false s.files = .ok s'.files := by
  cases h.writes with
  | @register slot _ _ life hreg =>
    obtain ⟨files, hfiles, rfl⟩ := map_eq_ok.mp hreg
    exact .inr ⟨slot.remote, hfiles⟩
  | call hlife =>
    obtain ⟨-, rfl⟩ := Lifecycle.start_eq_some hlife
    exact .inl rfl
  | _ => exact .inl rfl

/-! ## Attempts and their collectors -/

/-- Between `begin_attempt` and its return a collector has an attempt. -/
def CollectorPc.active : CollectorPc → Bool
  | .begin | .returned => false
  | _ => true

section Attached

variable {config : Config} {policy : IngestionPolicy} {s s' : Shared} {c c' : Collector}
  {pc : CollectorPc}

theorem Collector.Acts.traversals (h : c.Acts config s pc s' c') :
    s.traversals.Change s'.traversals := by
  cases h.writes with
  | begin => exact .begin c.scope
  | advance hslot hok => exact .advance hok
  | turn hok => exact .advance hok
  | finish hok => exact .finish hok
  | _ => exact .keep

/-- Two local states of one run: owner and scope stay, and so does the attempt. -/
structure Collector.SameRun (c c' : Collector) : Prop where
  owner : c'.owner = c.owner
  scope : c'.scope = c.scope
  attempt : c'.attemptId = c.attemptId

theorem Collector.sameRun_goto (c : Collector) (pc : CollectorPc) : c.SameRun (c.goto pc) :=
  ⟨rfl, rfl, rfl⟩

theorem Collector.raise_same (c : Collector) (slot : Slot) (e : Failure) (pending : Bool) :
    c.SameRun (c.raise slot e pending) := by
  rcases c.raise_cases slot e pending with h | h | ⟨-, h⟩ | ⟨-, h⟩
  all_goals rw [h]; exact c.sameRun_goto _

theorem Collector.handle_same {e : Failure} (h : c.handle e = some c') : c.SameRun c' := by
  rcases Collector.handle_cases h with rfl | ⟨status, -, rfl⟩ | ⟨slot, pending, -, rfl⟩
  · exact c.sameRun_goto _
  · exact c.sameRun_goto _
  · exact c.raise_same slot e pending

theorem Collector.Acts.same (h : c.Acts config s pc s' c') (hpc : pc ≠ .begin) : c.SameRun c' := by
  cases h with
  | begin => exact absurd rfl hpc
  | head hselect =>
    rcases Collector.select_cases hselect with ⟨-, rfl⟩ | rfl | ⟨slot, -, -, -, ⟨-, rfl⟩ | ⟨-, rfl⟩⟩
    all_goals exact c.sameRun_goto _
  | advance hslot hadvance hnext =>
    obtain ⟨traversals, hok, -⟩ := Shared.advanceFile_eq_ok hadvance
    obtain ⟨row, ck, -, -, -, -, -, -, -, -, -, -, hid⟩ := Traversals.advanceAttempt_eq_ok hok
    exact ⟨rfl, rfl, hid⟩
  | checkTerminal =>
    rcases c.decide_cases config _ _ with ⟨-, h⟩ | h | ⟨-, h⟩
    all_goals rw [h]; exact c.sameRun_goto _
  | chargeBudget hok =>
    rcases c.budgeted_cases config _ _ _ with h | ⟨-, -, h⟩ | ⟨-, -, h⟩
    all_goals rw [h]; exact c.sameRun_goto _
  | raised hingest hreturned => exact c.raise_same _ _ _
  | settle hpc hok =>
    unfold Collector.settledBy
    split
    · split <;> exact ⟨rfl, rfl, rfl⟩
    · exact ⟨rfl, rfl, rfl⟩
    · exact ⟨rfl, rfl, rfl⟩
    · exact ⟨rfl, rfl, rfl⟩
  | lastPage hadvance =>
    obtain ⟨traversals, hok, -⟩ := Shared.advanceTo_eq_ok hadvance
    obtain ⟨row, ck, -, -, -, -, -, -, -, -, -, -, hid⟩ := Traversals.advanceAttempt_eq_ok hok
    exact ⟨rfl, rfl, hid⟩
  | nextPage hadvance =>
    obtain ⟨traversals, hok, -⟩ := Shared.advanceTo_eq_ok hadvance
    obtain ⟨row, ck, -, -, -, -, -, -, -, -, -, -, hid⟩ := Traversals.advanceAttempt_eq_ok hok
    exact ⟨rfl, rfl, hid⟩
  | _ => exact ⟨rfl, rfl, rfl⟩

/-- A collector that has returned awaits nothing. -/
theorem Collector.Acts.ne_returned (h : c.Acts config s pc s' c') : pc ≠ .returned := by
  rintro rfl
  cases h with
  | advance hslot => cases hslot
  | settle hpc => cases hpc
  | observe _ hpc => rcases hpc with hpc | hpc <;> cases hpc

/-- The first operation of a collector begins its attempt. -/
theorem Collector.Acts.begin_eq (h : c.Acts config s .begin s' c') :
    s' = (s.begin c.scope).1 ∧ c' = { c with
      attempt := (s.begin c.scope).2
      cursor := (s.begin c.scope).2.cursor
      pageOffset := (s.begin c.scope).2.pageOffset
      retryBoundary := (s.begin c.scope).2.retryBoundary
      pc := .discover } := by
  cases h with
  | begin => exact ⟨rfl, rfl⟩
  | advance hslot => cases hslot
  | settle hpc => cases hpc
  | observe _ hpc => rcases hpc with hpc | hpc <;> cases hpc

/-- An exception leaves a collector active only if it was active. -/
theorem Collector.handle_active {e : Failure} (h : c.handle e = some c')
    (hactive : c'.pc.active = true) : c.pc.active = true := by
  cases hpc : c.pc with
  | begin =>
    rw [Collector.handle, hpc] at h
    cases h
    cases hactive
  | returned =>
    rw [Collector.handle, hpc] at h
    cases h
  | _ => rfl

theorem Collector.Acts.active_or_begin (h : c.Acts config s pc s' c') :
    pc.active = true ∨ pc = .begin := by
  cases pc with
  | begin => exact .inr rfl
  | returned => exact absurd rfl h.ne_returned
  | _ => exact .inl rfl

/-- Every active collector works on an attempt of its own scope. -/
structure World.Attached (w : World) : Prop where
  ordered : w.shared.traversals.Ordered
  owner : ∀ p c, w.collectors p = some c → c.owner = p
  scope : ∀ p c, w.collectors p = some c → c.pc.active = true →
    w.shared.traversals.scopeOf c.attemptId = some c.scope

theorem World.Attached.reply {w : World} {p : ProcessId} {r : Reply CollectorInput Fault}
    {lease : Option ProcessId} (h : w.Attached) (hc : w.collectors p = some c)
    (hstep : (collectorProgram config).step w.shared c r = some (s', c')) :
    World.Attached ⟨s', lease, Function.update w.collectors p (some c')⟩ := by
  have hchange : w.shared.traversals.Change s'.traversals := by
    rcases Program.step_durable hstep with rfl | ⟨i, next, hact⟩
    · exact .keep
    · exact (Collector.acts_of_act hact).traversals
  have howner := h.owner p c hc
  -- The acting collector: it keeps its attempt, or has just begun one.
  have hself : c'.owner = p ∧
      (c'.pc.active = true → s'.traversals.scopeOf c'.attemptId = some c'.scope) := by
    refine Program.step_local (J := fun s c' => c'.owner = p ∧
      (c'.pc.active = true → s.traversals.scopeOf c'.attemptId = some c'.scope)) hstep ?_ ?_ ?_
    · intro i next hact
      have hacts := Collector.acts_of_act hact
      rcases hacts.active_or_begin with hactive | hbegin
      · have hsame := hacts.same (by rintro hbegin; rw [hbegin] at hactive; cases hactive)
        refine ⟨hsame.owner.trans howner, fun _ => ?_⟩
        rw [hsame.attempt, hsame.scope]
        exact h.ordered.scopeOf_change hchange (h.scope p c hc hactive)
      · rw [hbegin] at hacts
        obtain ⟨rfl, rfl⟩ := hacts.begin_eq
        exact ⟨howner, fun _ => Traversals.scopeOf_beginAttempt_new c.scope⟩
    · intro e he _
      have hsame := Collector.handle_same he
      refine ⟨hsame.owner.trans howner, fun hactive => ?_⟩
      rw [hsame.attempt, hsame.scope]
      exact h.scope p c hc (Collector.handle_active he hactive)
    · intro i f next _ he
      have hsame := Collector.handle_same he
      refine ⟨hsame.owner.trans howner, fun hactive => ?_⟩
      rw [hsame.attempt, hsame.scope]
      exact h.ordered.scopeOf_change hchange (h.scope p c hc (Collector.handle_active he hactive))
  refine ⟨h.ordered.change hchange, ?_, ?_⟩
  · intro q d hd
    rcases update_some_eq_some hd with ⟨rfl, rfl⟩ | ⟨-, hd⟩
    · exact hself.1
    · exact h.owner q d hd
  · intro q d hd hactive
    rcases update_some_eq_some hd with ⟨rfl, rfl⟩ | ⟨-, hd⟩
    · exact hself.2 hactive
    · exact h.ordered.scopeOf_change hchange (h.scope q d hd hactive)

theorem World.Attached.next {w w' : World} {e : CollectionEvent} (h : w.Attached)
    (hnext : w.next config policy e = some w') : w'.Attached := by
  cases World.moves_of_next hnext with
  | collect hfree hidle =>
    refine ⟨h.ordered, ?_, ?_⟩
    · intro q d hd
      rcases update_some_eq_some hd with ⟨rfl, rfl⟩ | ⟨-, hd⟩
      · rfl
      · exact h.owner q d hd
    · intro q d hd hactive
      rcases update_some_eq_some hd with ⟨rfl, rfl⟩ | ⟨-, hd⟩
      · cases hactive
      · exact h.scope q d hd hactive
  | reply hc hstep => exact h.reply hc hstep
  | ingest => exact ⟨h.ordered, h.owner, h.scope⟩
  | die =>
    refine ⟨h.ordered, ?_, ?_⟩
    · exact fun q d hd => h.owner q d (collectors_of_update_none hd)
    · exact fun q d hd => h.scope q d (collectors_of_update_none hd)
  | recover => exact ⟨h.ordered, h.owner, h.scope⟩
  | loseLease => exact ⟨h.ordered, h.owner, h.scope⟩

theorem world_attached {ok : World → CollectionEvent → Prop} {w : World}
    (h : Reach (collectionSystem config policy) ok w) : w.Attached := by
  refine h.invariant (P := World.Attached) ?_ ?_
  · rintro w ⟨clock, rfl⟩
    exact ⟨.empty, fun _ _ h => (by cases h), fun _ _ h => (by cases h)⟩
  · exact fun w e w' hw _ hnext => hw.next hnext

end Attached

end Makolet.Collection
