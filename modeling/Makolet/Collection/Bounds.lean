import Makolet.Collection.Checkpoint

/-!
# Bounds of one collection run

What one run of `_collect_with_context` can do at most, whatever pages the publisher returns and
whatever the durable state is when an operation is answered. Each quantity has a credit that the
steps of the collector take from: all of its operations, the pages it requests, the files it takes
up and the files it passes to ingestion. A page that is not the last one lists a file, so that a page
after the first takes from the records that are left.

The cursors that a run requests are different from each other as long as no page leads back to the
cursor that the run resumed at, which is not among the seen ones (`collection_run_bounded`).
-/

set_option autoImplicit false

namespace Makolet.Collection

open Makolet.Domain Makolet.Lib Makolet.Ingestion

/-! ## Credits -/

/-- Operations on a listed file, between the limits on the records and the advance. -/
def CollectorPc.inFile : CollectorPc → Bool
  | .begin | .discover | .head _ _ | .advancePage _ | .finish _ | .returned => false
  | .budgetSettle _ _ | .budgetObserve | .errorSettle _ _ _ | .errorCheck _ | .errorAdvance _ => false
  | .errorObserve => false
  | _ => true

/-- Operations between the limit on the files and the count of the success. -/
def CollectorPc.inCall : CollectorPc → Bool
  | .chargeBudget _ _ | .register _ _ _ | .reserve _ _ _ | .call _ _ _ | .process _ => true
  | .settle _ _ | .bootstrap _ _ _ => true
  | _ => false

/-- An operation that takes up a listed file. -/
def CollectorPc.takesUp : CollectorPc → Bool
  | .advanceUnknown _ | .checkTerminal _ => true
  | _ => false

def CollectorPc.isRequest : CollectorPc → Bool
  | .discover => true
  | _ => false

def CollectorPc.isCall : CollectorPc → Bool
  | .call _ _ _ => true
  | _ => false

variable (config : Config)

/-- The records left of the limit. -/
def Collector.recordsLeft (c : Collector) : Nat :=
  config.policy.maximumDiscoveryRecordsPerSourceRun - c.discovered

def Collector.filesLeft (c : Collector) : Nat :=
  config.policy.maximumFilesPerSourceRun - c.ingested

/-- The operations left until the next listed file is passed or the run is over. -/
def CollectorPc.rank (offset : Nat) : CollectorPc → Nat
  | .begin => 30
  | .discover => if offset = 0 then 26 else 29
  | .head page index =>
    if index < page.files.length then 25 else if page.nextCursor = none then 3 else 28
  | .advancePage page => if page.nextCursor = none then 2 else 27
  | .advanceUnknown _ | .checkTerminal _ => 24
  | .advanceSkip _ | .chargeBudget _ _ => 23
  | .register _ _ _ => 22
  | .reserve _ _ _ => 21
  | .call _ _ _ => 20
  | .process _ => 19
  | .settle _ _ => 18
  | .bootstrap _ _ _ => 17
  | .noteTerminal _ _ => 16
  | .advanceDone _ _ => 15
  | .budgetSettle _ _ | .errorSettle _ _ _ => 14
  | .budgetObserve | .errorCheck _ => 13
  | .errorAdvance _ | .errorObserve => 12
  | .finish _ => 1
  | .returned => 0

/-- All operations of a run. -/
def Collector.operationCredit (c : Collector) : Nat :=
  30 * c.recordsLeft config + c.pc.rank c.pageOffset

/-- The page requests to come, with so many records left. -/
def CollectorPc.requests (offset left : Nat) : CollectorPc → Nat
  | .begin => left + 2
  | .discover => if offset = 0 then left + 1 else left + 2
  | .head page index =>
    if index < page.files.length then left else if page.nextCursor = none then 0 else left + 1
  | .advancePage page => if page.nextCursor = none then 0 else left + 1
  | pc => if pc.inFile then left else 0

/-- The listed files to take up. -/
def CollectorPc.records (left : Nat) : CollectorPc → Nat
  | .begin | .discover | .head _ _ | .advancePage _ => left
  | .advanceUnknown _ | .checkTerminal _ => left
  | pc => if pc.inFile then left - 1 else 0

/-- The calls to come, with so many files left. -/
def CollectorPc.calls (left : Nat) : CollectorPc → Nat
  | .begin | .discover | .head _ _ | .advancePage _ => left
  | .process _ | .settle _ _ | .bootstrap _ _ _ => left - 1
  | pc => if pc.inFile then left else 0

def Collector.requestCredit (c : Collector) : Nat := c.pc.requests c.pageOffset (c.recordsLeft config)

def Collector.recordCredit (c : Collector) : Nat := c.pc.records (c.recordsLeft config)

def Collector.callCredit (c : Collector) : Nat := c.pc.calls (c.filesLeft config)

/-- Within the limits at the operations behind them. -/
structure Collector.Within (c : Collector) : Prop where
  records : c.pc.inFile = true → c.discovered < config.policy.maximumDiscoveryRecordsPerSourceRun
  files : c.pc.inCall = true → c.ingested < config.policy.maximumFilesPerSourceRun

/-- What a step takes from the credits. -/
structure Collector.Pays (c c' : Collector) : Prop where
  within : c'.Within config
  operations : c'.operationCredit config + 1 ≤ c.operationCredit config
  requests : c'.requestCredit config + (if c.pc.isRequest then 1 else 0) ≤ c.requestCredit config
  records : c'.recordCredit config + (if c.pc.takesUp then 1 else 0) ≤ c.recordCredit config
  calls : c'.callCredit config + (if c.pc.isCall then 1 else 0) ≤ c.callCredit config

variable {config} {c c' : Collector}

/-! ## Steps -/

/-- The local steps of a collector, by the operation it awaited. -/
inductive Collector.Goes (config : Config) (c : Collector) : CollectorPc → Collector → Prop
  | begin {attempt : CollectionAttempt} {cursor : Cursor} {offset : Nat} {retry : Bool} :
      Goes config c .begin { c with
        attempt := attempt
        cursor := cursor
        pageOffset := offset
        retryBoundary := retry
        pc := .discover }
  | open {page : DiscoveryPage} (h : page.files ≠ [] ∨ page.nextCursor = none) :
      Goes config c .discover (c.goto (.head page c.pageOffset))
  | endPage {page : DiscoveryPage} {index : Nat} (h : page.files.length ≤ index) :
      Goes config c (.head page index) (c.goto (.advancePage page))
  | takeUp {page : DiscoveryPage} {index : Nat} {pc : CollectorPc}
      (hleft : c.discovered < config.policy.maximumDiscoveryRecordsPerSourceRun)
      (hlisted : index < page.files.length) (hpc : pc.takesUp = true) :
      Goes config c (.head page index) (c.goto pc)
  | advance {pc next : CollectorPc} {slot : Slot} {attempt : CollectionAttempt}
      (hslot : pc.advances = some slot) (hnext : pc.AfterAdvance next) :
      Goes config c pc (c.advanced attempt next)
  | skip {slot : Slot} : Goes config c (.checkTerminal slot) (c.goto (.advanceSkip slot))
  | keep {slot : Slot} {terminal : Bool}
      (hleft : c.ingested < config.policy.maximumFilesPerSourceRun) :
      Goes config c (.checkTerminal slot) (c.goto (.chargeBudget slot terminal))
  | budgeted {slot : Slot} {terminal retrying : Bool} {reserved : Nat} :
      Goes config c (.chargeBudget slot terminal) (c.goto (.register slot reserved retrying))
  | registered {slot : Slot} {retrying : Bool} {reserved : Nat} :
      Goes config c (.register slot reserved retrying) (c.goto (.reserve slot reserved retrying))
  | reserved {slot : Slot} {retrying : Bool} {reserved : Nat} :
      Goes config c (.reserve slot reserved retrying) (c.goto (.call slot reserved retrying))
  | call {slot : Slot} {retrying : Bool} {reserved : Nat} :
      Goes config c (.call slot reserved retrying) (c.goto (.process slot))
  | processed {slot : Slot} {result : IngestionResult} :
      Goes config c (.process slot) (c.goto (.settle slot result))
  | settled {slot : Slot} {result : IngestionResult} {budget : ChargeBudget} :
      Goes config c (.settle slot result) (c.goto (.bootstrap slot result budget))
  | count {pc : CollectorPc} {slot : Slot} {budget : ChargeBudget}
      (hpc : (∃ result, pc = .settle slot result) ∨
        ∃ result budget, pc = .bootstrap slot result budget) :
      Goes config c pc { c with ingested := c.ingested + 1, pc := .noteTerminal slot budget }
  | noted {slot : Slot} {budget : ChargeBudget} :
      Goes config c (.noteTerminal slot budget) (c.goto (.advanceDone slot budget))
  | leave {pc next : CollectorPc} (hnext : next.rank 0 ≤ 14) (hrank : next.rank 0 < pc.rank 0)
      (hout : ∀ page, next ≠ .advancePage page ∧ ∀ index, next ≠ .head page index) :
      Goes config c pc (c.goto next)
  | lastPage {page : DiscoveryPage} {attempt : CollectionAttempt} {status : FinishStatus} :
      Goes config c (.advancePage page) { c with
        attempt := attempt
        traversalComplete := true
        pc := .finish status }
  | nextPage {page : DiscoveryPage} {attempt : CollectionAttempt} {cursor : String}
      {pc : CollectorPc} (hnext : page.nextCursor = some (some cursor))
      (hstart : some cursor ≠ c.cursor) (hseen : cursor ∉ c.seenCursors)
      (hpc : pc = .discover ∨ pc = .finish .bounded) :
      Goes config c (.advancePage page) { c with
        attempt := attempt
        cursor := some cursor
        pageOffset := 0
        seenCursors := cursor :: c.seenCursors
        pc := pc }

attribute [local simp] CollectorPc.rank

theorem CollectorPc.rank_pos {pc : CollectorPc} (h : pc ≠ .returned) : 0 < pc.rank 0 := by
  cases pc with
  | returned => exact absurd rfl h
  | head page index => simp only [rank]; split <;> [decide; (split <;> decide)]
  | advancePage page => simp only [rank]; split <;> decide
  | _ => simp [rank]

theorem CollectorPc.one_lt_rank {pc : CollectorPc} (h : pc ≠ .returned)
    (hfinish : ∀ status, pc ≠ .finish status) : 1 < pc.rank 0 := by
  cases pc with
  | returned => exact absurd rfl h
  | finish status => exact absurd rfl (hfinish status)
  | head page index => simp only [rank]; split <;> [decide; (split <;> decide)]
  | advancePage page => simp only [rank]; split <;> decide
  | _ => simp [rank]

theorem CollectorPc.rank_of_tries {pc : CollectorPc} {r : Slot × Bool} (h : pc.tries = some r) :
    14 < pc.rank 0 := by
  cases pc <;> cases h <;> simp [rank]

theorem Collector.Goes.finish {pc : CollectorPc} {status : FinishStatus} (h : 1 < pc.rank 0) :
    c.Goes config pc (c.goto (.finish status)) :=
  .leave (by simp [CollectorPc.rank]) h fun _ => ⟨by simp, by simp⟩

/-- An exception in the `try` block of a file enters one of its handlers. -/
theorem Collector.Goes.raise {pc : CollectorPc} (slot : Slot) (e : Failure) (pending : Bool)
    (h : 14 < pc.rank 0) : c.Goes config pc (c.raise slot e pending) := by
  have hhandler : ∀ next : CollectorPc, next.rank 0 ≤ 14 →
      (∀ page, next ≠ .advancePage page ∧ ∀ index, next ≠ .head page index) →
      c.Goes config pc (c.goto next) :=
    fun next hnext hout => .leave hnext (Nat.lt_of_le_of_lt hnext h) hout
  rcases c.raise_cases slot e pending with heq | heq | ⟨-, heq⟩ | ⟨-, heq⟩ <;> rw [heq] <;>
    exact hhandler _ (by simp [CollectorPc.rank]) fun _ => ⟨by simp, by simp⟩

theorem Collector.goes_of_handle {e : Failure} (h : c.handle e = some c') :
    c.Goes config c.pc c' := by
  have hreturned : c.pc ≠ .returned := by
    intro hpc
    rw [Collector.handle, hpc] at h
    cases h
  rcases Collector.handle_cases h with rfl | ⟨status, -, rfl⟩ | ⟨slot, pending, htries, rfl⟩
  · exact .leave (by simp [CollectorPc.rank]) (CollectorPc.rank_pos hreturned)
      fun _ => ⟨by simp, by simp⟩
  · refine .finish (CollectorPc.one_lt_rank hreturned fun other hpc => ?_)
    rw [Collector.handle, hpc] at h
    have hpcs := congrArg Collector.pc (Option.some.inj h)
    cases hpcs
  · exact .raise slot e pending (CollectorPc.rank_of_tries htries)

theorem Collector.goes_of_select {page : DiscoveryPage} {index : Nat}
    (h : c.select config page index = .ok c') : c.Goes config (.head page index) c' := by
  unfold Collector.select at h
  split at h
  · rename_i hnone
    cases h
    exact .endPage (List.getElem?_eq_none_iff.mp hnone)
  · rename_i remote hlisted
    obtain ⟨hlt, -⟩ := List.getElem?_eq_some_iff.mp hlisted
    dsimp only at h
    split at h
    · cases h
      exact .finish (CollectorPc.one_lt_rank (by simp) (by simp))
    · rename_i hleft
      split at h
      · cases h
      · split at h
        · cases h
          exact .takeUp (Nat.lt_of_not_le hleft) hlt rfl
        · cases h
          exact .takeUp (Nat.lt_of_not_le hleft) hlt rfl

theorem Collector.goes_of_decide (slot : Slot) (terminal : Bool) :
    c.Goes config (.checkTerminal slot) (c.decide config slot terminal) := by
  unfold Collector.decide
  split
  · exact .skip
  · split
    · exact .finish (CollectorPc.one_lt_rank (by simp) (by simp))
    · rename_i hleft
      exact .keep (Nat.lt_of_not_le hleft)

theorem Collector.goes_of_budgeted (slot : Slot) (terminal : Bool) (budget : ChargeBudget) :
    c.Goes config (.chargeBudget slot terminal) (c.budgeted config slot terminal budget) := by
  rcases c.budgeted_cases config slot terminal budget with h | ⟨-, -, h⟩ | ⟨-, -, h⟩ <;> rw [h]
  · exact .finish (CollectorPc.one_lt_rank (by simp) (by simp))
  · exact .budgeted
  · exact .budgeted

theorem followingCursor_eq_ok {start value : Cursor} {seen : List String} {cursor : String}
    (h : followingCursor start seen value = .ok cursor) :
    value = some cursor ∧ some cursor ≠ start ∧ cursor ∉ seen := by
  unfold followingCursor at h
  split at h
  · cases h
  · split at h
    · cases h
    · rename_i hnew
      split at h
      · cases h
        exact ⟨rfl, fun heq => hnew (.inl heq), fun hmem => hnew (.inr hmem)⟩
      · cases h

theorem Collector.goes_of_act {s s' : Shared} {input : CollectorInput}
    (h : c.act config s input = some (.ok (s', c'))) : c.Goes config c.pc c' := by
  -- One case for each point of the collector, in the order of `act`.
  unfold Collector.act at h
  split at h
  · rename_i hpc
    cases h
    exact hpc ▸ .begin
  · rename_i page hpc
    obtain ⟨c₁, hopen, heq⟩ := map_eq_ok.mp (Option.some.inj h)
    cases heq
    obtain ⟨-, hopen⟩ := require_bind_eq_ok.mp hopen
    obtain ⟨hlists, hopen⟩ := require_bind_eq_ok.mp hopen
    cases hopen
    exact hpc ▸ .open hlists
  · rename_i page index hpc
    obtain ⟨c₁, hselect, heq⟩ := map_eq_ok.mp (Option.some.inj h)
    cases heq
    exact hpc ▸ Collector.goes_of_select hselect
  · rename_i slot hpc
    obtain ⟨⟨s₁, attempt⟩, -, heq⟩ := map_eq_ok.mp (Option.some.inj h)
    cases heq
    exact hpc ▸ .advance rfl .unknown
  · rename_i slot hpc
    cases h
    exact hpc ▸ Collector.goes_of_decide slot _
  · rename_i slot hpc
    obtain ⟨⟨s₁, attempt⟩, -, heq⟩ := map_eq_ok.mp (Option.some.inj h)
    cases heq
    exact hpc ▸ .advance rfl .skip
  · rename_i slot terminal r hpc
    obtain ⟨budget, -, rfl⟩ := map_charge_eq_some h
    exact hpc ▸ Collector.goes_of_budgeted slot terminal budget
  · rename_i slot reserved retrying hpc
    obtain ⟨life, -, heq⟩ := map_eq_ok.mp (Option.some.inj h)
    cases heq
    exact hpc ▸ .registered
  · rename_i slot reserved retrying r hpc
    obtain ⟨budget, -, rfl⟩ := map_charge_eq_some h
    exact hpc ▸ .reserved
  · rename_i slot reserved retrying hpc
    obtain ⟨s₁, -, heq⟩ := Option.map_eq_some_iff.mp h
    cases heq
    exact hpc ▸ .call
  · rename_i slot hpc
    split at h
    · cases h
      exact hpc ▸ .processed
    · rename_i e _
      cases h
      exact hpc ▸ .raise slot e false (by simp [CollectorPc.rank])
    · cases h
  · rename_i slot result r hpc
    obtain ⟨budget, -, rfl⟩ := map_charge_eq_some h
    dsimp only
    split
    · exact hpc ▸ .count (.inl ⟨result, rfl⟩)
    · exact hpc ▸ .settled
  · rename_i slot result budget hpc
    cases h
    exact hpc ▸ .count (.inr ⟨result, budget, rfl⟩)
  · rename_i slot budget hpc
    obtain ⟨-, heq⟩ := require_bind_eq_ok.mp (Option.some.inj h)
    cases heq
    exact hpc ▸ .noted
  · rename_i slot budget hpc
    obtain ⟨⟨s₁, attempt⟩, -, heq⟩ := map_eq_ok.mp (Option.some.inj h)
    cases heq
    rw [hpc]
    split
    · exact .advance rfl .bounded
    · exact .advance rfl .done
  · rename_i slot transferred r hpc
    obtain ⟨budget, -, rfl⟩ := map_charge_eq_some h
    rw [hpc]
    exact .leave (by simp [CollectorPc.rank]) (by simp [CollectorPc.rank])
      fun _ => ⟨by simp, by simp⟩
  · rename_i hpc
    obtain ⟨-, -, heq⟩ := map_eq_ok.mp (Option.some.inj h)
    cases heq
    exact hpc ▸ .finish (CollectorPc.one_lt_rank (by simp) (by simp))
  · rename_i slot transferred pending r hpc
    obtain ⟨budget, -, rfl⟩ := map_charge_eq_some h
    rw [hpc]
    split <;> exact .leave (by simp [CollectorPc.rank]) (by simp [CollectorPc.rank])
      fun _ => ⟨by simp, by simp⟩
  · rename_i slot hpc
    cases h
    rw [hpc]
    split <;> exact .leave (by simp [CollectorPc.rank]) (by simp [CollectorPc.rank])
      fun _ => ⟨by simp, by simp⟩
  · rename_i slot hpc
    obtain ⟨⟨s₁, attempt⟩, -, heq⟩ := map_eq_ok.mp (Option.some.inj h)
    cases heq
    exact hpc ▸ .advance rfl .error
  · rename_i hpc
    obtain ⟨-, -, heq⟩ := map_eq_ok.mp (Option.some.inj h)
    cases heq
    exact hpc ▸ .finish (CollectorPc.one_lt_rank (by simp) (by simp))
  · rename_i page hpc
    have hturn := Option.some.inj h
    unfold Collector.turnPage at hturn
    rw [hpc]
    split at hturn
    · obtain ⟨-, hturn⟩ := require_bind_eq_ok.mp hturn
      obtain ⟨⟨s₁, attempt⟩, -, heq⟩ := map_eq_ok.mp hturn
      cases heq
      split <;> exact .lastPage
    · rename_i value hnext
      obtain ⟨cursor, hfollow, hturn⟩ := bind_eq_ok.mp hturn
      obtain ⟨⟨s₁, attempt⟩, -, heq⟩ := map_eq_ok.mp hturn
      obtain ⟨rfl, hstart, hseen⟩ := followingCursor_eq_ok hfollow
      cases heq
      split
      · exact .nextPage hnext hstart hseen (.inr rfl)
      · exact .nextPage hnext hstart hseen (.inl rfl)
  · rename_i status hpc
    obtain ⟨traversals, -, heq⟩ := map_eq_ok.mp (Option.some.inj h)
    cases heq
    rw [hpc]
    exact .leave (by simp [CollectorPc.rank]) (by simp [CollectorPc.rank])
      fun _ => ⟨by simp, by simp⟩
  · cases h

/-- A step goes on from the awaited operation or enters a handler. -/
theorem Collector.goes_of_step {s s' : Shared} {r : Reply CollectorInput Fault}
    (h : (collectorProgram config).step s c r = some (s', c')) : c.Goes config c.pc c' := by
  rcases Program.step_cases h with ⟨_, -, hact⟩ | ⟨e, hhandle, -⟩ | ⟨_, f, _, -, -, hhandle⟩
  · exact Collector.goes_of_act hact
  · exact Collector.goes_of_handle hhandle
  · exact Collector.goes_of_handle hhandle

/-! ## Payments -/

/-- What the credits of an operation are above those of the next one, while the counts stay. -/
structure CollectorPc.Above (offset : Nat) (next pc : CollectorPc) : Prop where
  rank : next.rank offset < pc.rank offset
  requests : ∀ left, (pc.inFile = true → 0 < left) →
    next.requests offset left + (if pc.isRequest then 1 else 0) ≤ pc.requests offset left
  records : ∀ left, (pc.inFile = true → 0 < left) →
    next.records left + (if pc.takesUp then 1 else 0) ≤ pc.records left
  calls : ∀ left, (pc.inCall = true → 0 < left) →
    next.calls left + (if pc.isCall then 1 else 0) ≤ pc.calls left

/-- A step that leaves the counts alone pays if its operations do. -/
theorem CollectorPc.Above.pays {next : CollectorPc} (h : next.Above c.pageOffset c.pc)
    (hw : c.Within config)
    (hrecords : next.inFile = true →
      c.discovered < config.policy.maximumDiscoveryRecordsPerSourceRun)
    (hfiles : next.inCall = true → c.ingested < config.policy.maximumFilesPerSourceRun) :
    c.Pays config (c.goto next) where
  within := ⟨hrecords, hfiles⟩
  operations := Nat.add_lt_add_left h.rank _
  requests := h.requests _ fun hin => Nat.sub_pos_of_lt (hw.records hin)
  records := h.records _ fun hin => Nat.sub_pos_of_lt (hw.records hin)
  calls := h.calls _ fun hin => Nat.sub_pos_of_lt (hw.files hin)

/-- Outside of the loop there is nothing left to pay for. -/
theorem CollectorPc.out {next : CollectorPc} (hnext : next.rank 0 ≤ 14)
    (hout : ∀ page, next ≠ .advancePage page ∧ ∀ index, next ≠ .head page index) :
    next.inFile = false ∧ next.inCall = false ∧
      ∀ offset left, next.rank offset = next.rank 0 ∧ next.requests offset left = 0 ∧
        next.records left = 0 ∧ next.calls left = 0 := by
  cases next with
  | advancePage page => exact absurd rfl (hout page).1
  | head page index => exact absurd rfl ((hout page).2 index)
  | budgetSettle | budgetObserve | errorSettle | errorCheck | errorAdvance | errorObserve | finish |
    returned => exact ⟨rfl, rfl, fun _ _ => ⟨rfl, rfl, rfl, rfl⟩⟩
  | _ => simp [rank] at hnext

/-- Whatever an operation is, its credits cover the operation itself. -/
theorem CollectorPc.covers (pc : CollectorPc) (offset left : Nat) :
    (if pc.isRequest then 1 else 0) ≤ pc.requests offset left ∧
      ((pc.inFile = true → 0 < left) → (if pc.takesUp then 1 else 0) ≤ pc.records left) ∧
      ((pc.inCall = true → 0 < left) → (if pc.isCall then 1 else 0) ≤ pc.calls left) ∧
      pc.rank 0 ≤ pc.rank offset := by
  cases pc with
  | discover =>
    refine ⟨?_, fun _ => Nat.zero_le _, fun _ => Nat.zero_le _, ?_⟩
    · simp only [isRequest, requests, if_pos]
      split <;> omega
    · show 26 ≤ if offset = 0 then 26 else 29
      split <;> decide
  | advanceUnknown | checkTerminal =>
    exact ⟨Nat.zero_le _, fun h => h rfl, fun _ => Nat.zero_le _, Nat.le_refl _⟩
  | call => exact ⟨Nat.zero_le _, fun _ => Nat.zero_le _, fun h => h rfl, Nat.le_refl _⟩
  | _ => exact ⟨Nat.zero_le _, fun _ => Nat.zero_le _, fun _ => Nat.zero_le _, Nat.le_refl _⟩

/-- A step out of the loop pays, whatever it counts. -/
theorem Collector.pays_out {pc next : CollectorPc} (hw : c.Within config) (hpc : c.pc = pc)
    (hpc' : c'.pc = next) (hle : c'.recordsLeft config ≤ c.recordsLeft config)
    (hnext : next.rank 0 ≤ 14) (hrank : next.rank 0 < pc.rank 0)
    (hout : ∀ page, next ≠ .advancePage page ∧ ∀ index, next ≠ .head page index) :
    c.Pays config c' := by
  obtain ⟨hin, hcall, hnone⟩ := CollectorPc.out hnext hout
  obtain ⟨hranks, hrequests, hrecords, hcalls⟩ := hnone c'.pageOffset (c'.recordsLeft config)
  obtain ⟨-, -, -, hcalls⟩ := hnone c'.pageOffset (c'.filesLeft config)
  subst hpc hpc'
  obtain ⟨hrequest, hrecord, -, hup⟩ := c.pc.covers c.pageOffset (c.recordsLeft config)
  obtain ⟨-, -, hcovered, -⟩ := c.pc.covers c.pageOffset (c.filesLeft config)
  refine ⟨⟨fun h => ?_, fun h => ?_⟩, ?_, ?_, ?_, ?_⟩
  · rw [hin] at h
    cases h
  · rw [hcall] at h
    cases h
  · unfold Collector.operationCredit
    omega
  · rw [Collector.requestCredit, hrequests, Nat.zero_add]
    exact hrequest
  · rw [Collector.recordCredit, hrecords, Nat.zero_add]
    exact hrecord fun hin => Nat.sub_pos_of_lt (hw.records hin)
  · rw [Collector.callCredit, hcalls, Nat.zero_add]
    exact hcovered fun hin => Nat.sub_pos_of_lt (hw.files hin)

theorem Collector.pays_finish {pc : CollectorPc} {status : FinishStatus} (hw : c.Within config)
    (hpc : c.pc = pc) (hpc' : c'.pc = .finish status)
    (hle : c'.recordsLeft config ≤ c.recordsLeft config) (hrank : 1 < pc.rank 0) :
    c.Pays config c' :=
  Collector.pays_out hw hpc hpc' hle (by simp [CollectorPc.rank]) hrank fun _ => ⟨by simp, by simp⟩

theorem CollectorPc.inCall_of_takesUp {pc : CollectorPc} (h : pc.takesUp = true) :
    pc.inCall = false := by
  cases pc <;> first | rfl | cases h

theorem CollectorPc.of_inFile {pc : CollectorPc} (h : pc.inFile = true) :
    pc.isRequest = false ∧ ∀ offset left, pc.rank offset = pc.rank 0 ∧
      pc.requests offset left = left ∧
      pc.records left = if pc.takesUp then left else left - 1 := by
  cases pc <;> cases h <;> exact ⟨rfl, fun _ _ => ⟨rfl, rfl, rfl⟩⟩

/-- An operation on a file is followed by one on the same file. -/
theorem CollectorPc.above_of_inFile {offset : Nat} {pc next : CollectorPc}
    (hpc : pc.inFile = true) (hnext : next.inFile = true) (hrank : next.rank 0 < pc.rank 0)
    (htakesUp : next.takesUp = false)
    (hcalls : ∀ left, (pc.inCall = true → 0 < left) →
      next.calls left + (if pc.isCall then 1 else 0) ≤ pc.calls left) : next.Above offset pc := by
  obtain ⟨hrequest, hfile⟩ := CollectorPc.of_inFile hpc
  obtain ⟨-, hfile'⟩ := CollectorPc.of_inFile hnext
  refine ⟨?_, fun left _ => ?_, fun left hleft => ?_, hcalls⟩
  · rw [(hfile' offset 0).1, (hfile offset 0).1]
    exact hrank
  · rw [(hfile' offset left).2.1, (hfile offset left).2.1, hrequest]
    exact Nat.le_refl _
  · have hleft := hleft hpc
    rw [(hfile' offset left).2.2, (hfile offset left).2.2, htakesUp]
    cases pc.takesUp
    · exact Nat.le_refl _
    · exact Nat.sub_add_cancel hleft |>.le

/-- The loop head pays for the records of its page and for the request of the next one. -/
theorem CollectorPc.head_credits (page : DiscoveryPage) (index offset left : Nat) :
    (CollectorPc.head page index).rank offset ≤ 28 ∧
      (CollectorPc.head page index).requests offset left ≤ left + 1 ∧
      (CollectorPc.head page index).records left = left ∧
      (CollectorPc.head page index).calls left = left := by
  refine ⟨?_, ?_, rfl, rfl⟩
  · show (if index < page.files.length then 25 else if page.nextCursor = none then 3 else 28) ≤ 28
    split <;> [decide; (split <;> decide)]
  · show (if index < page.files.length then left else if page.nextCursor = none then 0
      else left + 1) ≤ left + 1
    split <;> [omega; (split <;> omega)]

theorem CollectorPc.above_open {offset : Nat} {page : DiscoveryPage}
    (h : page.files ≠ [] ∨ page.nextCursor = none) :
    (CollectorPc.head page offset).Above offset .discover := by
  -- From the start of a page there is a file, unless the page is the last one.
  have hlist : offset < page.files.length ∨
      page.files.length ≤ offset ∧ (offset ≠ 0 ∨ page.nextCursor = none) := by
    rcases Nat.lt_or_ge offset page.files.length with hlt | hge
    · exact .inl hlt
    · refine .inr ⟨hge, h.elim (fun hne => .inl fun hzero => hne ?_) .inr⟩
      exact List.eq_nil_of_length_eq_zero (by omega)
  refine ⟨?_, fun left _ => ?_, fun left _ => Nat.le_refl _, fun left _ => Nat.le_refl _⟩
  · show (if offset < page.files.length then 25 else if page.nextCursor = none then 3 else 28) <
      if offset = 0 then 26 else 29
    rcases hlist with hlt | ⟨hge, hzero | hlast⟩
    · rw [if_pos hlt]
      split <;> decide
    · rw [if_neg (Nat.not_lt.mpr hge), if_neg hzero]
      split <;> decide
    · rw [if_neg (Nat.not_lt.mpr hge), if_pos hlast]
      split <;> decide
  · show (if offset < page.files.length then left else if page.nextCursor = none then 0
      else left + 1) + 1 ≤ if offset = 0 then left + 1 else left + 2
    rcases hlist with hlt | ⟨hge, hzero | hlast⟩
    · rw [if_pos hlt]
      split <;> omega
    · rw [if_neg (Nat.not_lt.mpr hge), if_neg hzero]
      split <;> omega
    · rw [if_neg (Nat.not_lt.mpr hge), if_pos hlast]
      split <;> omega

theorem CollectorPc.above_endPage {offset index : Nat} {page : DiscoveryPage}
    (h : page.files.length ≤ index) :
    (CollectorPc.advancePage page).Above offset (.head page index) := by
  refine ⟨?_, fun left _ => ?_, fun left _ => Nat.le_refl _, fun left _ => Nat.le_refl _⟩
  · show (if page.nextCursor = none then 2 else 27) <
      if index < page.files.length then 25 else if page.nextCursor = none then 3 else 28
    rw [if_neg (Nat.not_lt.mpr h)]
    split <;> decide
  · show (if page.nextCursor = none then 0 else left + 1) + 0 ≤
      if index < page.files.length then left else if page.nextCursor = none then 0 else left + 1
    rw [if_neg (Nat.not_lt.mpr h)]
    exact Nat.le_refl _

theorem CollectorPc.above_takeUp {offset index : Nat} {page : DiscoveryPage} {next : CollectorPc}
    (h : index < page.files.length) (hnext : next.takesUp = true) :
    next.Above offset (.head page index) := by
  have hrank : (CollectorPc.head page index).rank offset = 25 := if_pos h
  have hrequests : ∀ left, (CollectorPc.head page index).requests offset left = left :=
    fun _ => if_pos h
  cases next with
  | advanceUnknown | checkTerminal =>
    exact ⟨by rw [hrank]; exact Nat.lt_succ_self _, fun left _ => (hrequests left).ge,
      fun left _ => Nat.le_refl _, fun left _ => Nat.le_refl _⟩
  | _ => cases hnext

/-- Past a file there is one record less. -/
theorem Collector.pays_head {pc : CollectorPc} {page : DiscoveryPage} {index : Nat}
    {attempt : CollectionAttempt} (hw : c.Within config) (hpc : c.pc = pc) (hin : pc.inFile = true)
    (hcalls : ∀ left, pc.calls left = left) (hcall : pc.isCall = false) :
    c.Pays config (c.advanced attempt (.head page index)) := by
  subst hpc
  have hleft := Nat.sub_pos_of_lt (hw.records hin)
  have hless : (c.advanced attempt (.head page index)).recordsLeft config =
      c.recordsLeft config - 1 :=
    Nat.sub_add_eq _ _ _
  obtain ⟨hrequest, hfile⟩ := CollectorPc.of_inFile hin
  obtain ⟨hrank, hrequests, hrecords, hfiles⟩ :=
    CollectorPc.head_credits page index c.pageOffset (c.recordsLeft config - 1)
  refine ⟨⟨(fun h => nomatch h), fun h => nomatch h⟩, ?_, ?_, ?_, ?_⟩
  · show 30 * (c.advanced attempt (.head page index)).recordsLeft config +
      (CollectorPc.head page index).rank c.pageOffset + 1 ≤ 30 * c.recordsLeft config + _
    rw [hless]
    unfold Collector.recordsLeft at *
    omega
  · show (CollectorPc.head page index).requests c.pageOffset
      ((c.advanced attempt (.head page index)).recordsLeft config) + _ ≤ c.pc.requests _ _
    rw [hless, hrequest, (hfile _ _).2.1]
    exact Nat.le_trans hrequests (Nat.sub_add_cancel hleft).le
  · show (c.advanced attempt (.head page index)).recordsLeft config + _ ≤ c.pc.records _
    rw [hless, (hfile 0 _).2.2]
    cases c.pc.takesUp
    · exact Nat.le_refl _
    · exact (Nat.sub_add_cancel hleft).le
  · show c.filesLeft config + _ ≤ c.pc.calls _
    rw [hcall, hcalls]
    exact Nat.le_refl _

theorem Collector.pays_inFile {pc next : CollectorPc} (hw : c.Within config) (hpc : c.pc = pc)
    (hin : pc.inFile = true) (hnext : next.inFile = true) (hrank : next.rank 0 < pc.rank 0)
    (htakesUp : next.takesUp = false)
    (hcalls : ∀ left, (pc.inCall = true → 0 < left) →
      next.calls left + (if pc.isCall then 1 else 0) ≤ pc.calls left)
    (hfiles : next.inCall = true → c.ingested < config.policy.maximumFilesPerSourceRun) :
    c.Pays config (c.goto next) := by
  subst hpc
  exact (CollectorPc.above_of_inFile hin hnext hrank htakesUp hcalls).pays hw
    (fun _ => hw.records hin) hfiles

theorem Collector.Goes.pays (hw : c.Within config) {pc : CollectorPc} (hpc : c.pc = pc)
    (h : c.Goes config pc c') : c.Pays config c' := by
  have hsame : ∀ {left : Nat}, (pc.inCall = true → 0 < left) → left + 0 ≤ left :=
    fun _ => Nat.le_refl _
  have hincall : pc.inCall = true → c.ingested < config.policy.maximumFilesPerSourceRun :=
    fun hin => hw.files (hpc ▸ hin)
  -- Inside a file and at its head the general lemmas apply; the turns that change what is left
  -- (a begun attempt, a counted file, a turned page) are compared measure by measure.
  cases h with
  | @begin attempt cursor offset retry =>
    refine ⟨⟨(fun h => nomatch h), fun h => nomatch h⟩, ?_, ?_, ?_, ?_⟩
    · show 30 * c.recordsLeft config + (if offset = 0 then 26 else 29) + 1 ≤
        30 * c.recordsLeft config + c.pc.rank c.pageOffset
      rw [hpc]
      show _ ≤ 30 * c.recordsLeft config + 30
      split <;> omega
    · show (if offset = 0 then c.recordsLeft config + 1 else c.recordsLeft config + 2) + _ ≤
        c.pc.requests _ _
      rw [hpc]
      show _ + 0 ≤ c.recordsLeft config + 2
      split <;> omega
    · show c.recordsLeft config + _ ≤ c.pc.records _
      rw [hpc]
      exact Nat.le_refl _
    · show c.filesLeft config + _ ≤ c.pc.calls _
      rw [hpc]
      exact Nat.le_refl _
  | «open» hlists =>
    exact (hpc ▸ CollectorPc.above_open hlists).pays hw (fun h => nomatch h) fun h => nomatch h
  | endPage hend =>
    exact (hpc ▸ CollectorPc.above_endPage hend).pays hw (fun h => nomatch h) fun h => nomatch h
  | takeUp hleft hlisted htakes =>
    refine (hpc ▸ CollectorPc.above_takeUp hlisted htakes).pays hw (fun _ => hleft) fun h => ?_
    rw [CollectorPc.inCall_of_takesUp htakes] at h
    cases h
  | advance hslot hnext =>
    cases hnext with
    | unknown => exact Collector.pays_head hw hpc rfl (fun _ => rfl) rfl
    | skip => exact Collector.pays_head hw hpc rfl (fun _ => rfl) rfl
    | done => exact Collector.pays_head hw hpc rfl (fun _ => rfl) rfl
    | bounded | error =>
      exact Collector.pays_finish hw hpc rfl (Nat.sub_le_sub_left (Nat.le_succ _) _)
        (CollectorPc.one_lt_rank (by simp) (by simp))
  | skip =>
    exact Collector.pays_inFile hw hpc rfl rfl (Nat.lt_succ_self _) rfl (fun _ h => hsame h) fun h => nomatch h
  | keep hleft =>
    exact Collector.pays_inFile hw hpc rfl rfl (Nat.lt_succ_self _) rfl (fun _ h => hsame h) fun _ => hleft
  | budgeted =>
    exact Collector.pays_inFile hw hpc rfl rfl (Nat.lt_succ_self _) rfl (fun _ h => hsame h) hincall
  | registered =>
    exact Collector.pays_inFile hw hpc rfl rfl (Nat.lt_succ_self _) rfl (fun _ h => hsame h) hincall
  | reserved =>
    exact Collector.pays_inFile hw hpc rfl rfl (Nat.lt_succ_self _) rfl (fun _ h => hsame h) hincall
  | call =>
    exact Collector.pays_inFile hw hpc rfl rfl (Nat.lt_succ_self _) rfl
      (fun _ hleft => (Nat.sub_add_cancel (hleft rfl)).le) hincall
  | processed =>
    exact Collector.pays_inFile hw hpc rfl rfl (Nat.lt_succ_self _) rfl (fun _ _ => Nat.le_refl _) hincall
  | settled =>
    exact Collector.pays_inFile hw hpc rfl rfl (Nat.lt_succ_self _) rfl (fun _ _ => Nat.le_refl _) hincall
  | @count _ slot budget hcase =>
    have hless : c.filesLeft config - 1 =
        config.policy.maximumFilesPerSourceRun - (c.ingested + 1) := (Nat.sub_add_eq _ _ _).symm
    obtain ⟨hin, hrank, hcalls, htakes, hcall⟩ : pc.inFile = true ∧ 16 < pc.rank 0 ∧
        (∀ left, pc.calls left = left - 1) ∧ pc.takesUp = false ∧ pc.isCall = false := by
      rcases hcase with ⟨result, rfl⟩ | ⟨result, budget, rfl⟩ <;>
        exact ⟨rfl, by simp [CollectorPc.rank], fun _ => rfl, rfl, rfl⟩
    obtain ⟨hrequest, hfile⟩ := CollectorPc.of_inFile hin
    refine ⟨⟨fun _ => hw.records (hpc ▸ hin), fun h => nomatch h⟩, ?_, ?_, ?_, ?_⟩
    · show 30 * c.recordsLeft config + 16 + 1 ≤ 30 * c.recordsLeft config + c.pc.rank c.pageOffset
      rw [hpc, (hfile _ 0).1]
      omega
    · show c.recordsLeft config + _ ≤ c.pc.requests _ _
      rw [hpc, hrequest, (hfile _ _).2.1]
      exact Nat.le_refl _
    · show c.recordsLeft config - 1 + _ ≤ c.pc.records _
      rw [hpc, htakes, (hfile 0 _).2.2, htakes]
      exact Nat.le_refl _
    · show config.policy.maximumFilesPerSourceRun - (c.ingested + 1) + _ ≤ c.pc.calls _
      rw [hpc, hcall, hcalls, ← hless]
      exact Nat.le_refl _
  | noted =>
    exact Collector.pays_inFile hw hpc rfl rfl (Nat.lt_succ_self _) rfl (fun _ h => hsame h) fun h => nomatch h
  | leave hnext hrank hout =>
    exact Collector.pays_out hw hpc rfl (Nat.le_refl _) hnext hrank hout
  | @lastPage page attempt status =>
    exact Collector.pays_finish hw hpc rfl (Nat.le_refl _)
      (CollectorPc.one_lt_rank (by simp) (by simp))
  | @nextPage page attempt cursor next hnext hstart hseen hcase =>
    rcases hcase with rfl | rfl
    · refine ⟨⟨(fun h => nomatch h), fun h => nomatch h⟩, ?_, ?_, ?_, ?_⟩
      · show 30 * c.recordsLeft config + 26 + 1 ≤ 30 * c.recordsLeft config + c.pc.rank c.pageOffset
        rw [hpc, CollectorPc.rank, hnext, if_neg (by simp)]
      · show c.recordsLeft config + 1 + _ ≤ c.pc.requests _ _
        rw [hpc]
        show _ + 0 ≤ if page.nextCursor = none then 0 else c.recordsLeft config + 1
        rw [hnext, if_neg (by simp)]
      · show c.recordsLeft config + _ ≤ c.pc.records _
        rw [hpc]
        exact Nat.le_refl _
      · show c.filesLeft config + _ ≤ c.pc.calls _
        rw [hpc]
        exact Nat.le_refl _
    · exact Collector.pays_finish hw hpc rfl (Nat.le_refl _)
        (CollectorPc.one_lt_rank (by simp) (by simp))

theorem Collector.pays_of_step {s s' : Shared} {r : Reply CollectorInput Fault}
    (hw : c.Within config) (h : (collectorProgram config).step s c r = some (s', c')) :
    c.Pays config c' :=
  (Collector.goes_of_step h).pays hw rfl

/-! ## Runs -/

section Runs

variable {p : ProcessId} {scope : CollectionScope} {path : List Collector}

theorem Collector.within_start (p : ProcessId) (scope : CollectionScope) :
    (Collector.start p scope).Within config :=
  ⟨(fun h => nomatch h), fun h => nomatch h⟩

/-- What a credit covers of a run, with the state it is in. -/
theorem run_counts {mark : CollectorPc → Bool} {credit : Collector → Nat}
    (hpays : ∀ {c c' : Collector}, c.Within config → c.Pays config c' →
      credit c' + (if mark c.pc then 1 else 0) ≤ credit c)
    (hcovers : ∀ {c : Collector}, c.Within config → (if mark c.pc then 1 else 0) ≤ credit c)
    (h : (collectorProgram config).Run (Collector.start p scope) path c) :
    (path ++ [c]).countP (fun c => mark c.pc) ≤ credit (Collector.start p scope) := by
  obtain ⟨hw, hcount⟩ := h.countP_add_credit_le (Collector.Within config) (fun c => mark c.pc) credit
    (Collector.within_start p scope) fun hw hstep =>
      have hpay := Collector.pays_of_step hw hstep
      ⟨hpay.within, hpays hw hpay⟩
  have hlast := hcovers hw
  rw [List.countP_append, List.countP_singleton]
  omega

/-- The cursors that a run has requested. -/
def requestedCursors (path : List Collector) : List Cursor :=
  (path.filter fun c => c.pc.isRequest).map Collector.cursor

/-- No page leads back to the cursor of the first request. -/
def NeverReturns (path : List Collector) : Prop :=
  ∀ c ∈ path, ∀ page, c.pc = .advancePage page →
    ∀ value, page.nextCursor = some value → (requestedCursors path).head? ≠ some value

/-- Operations of the loop over the pages. -/
def CollectorPc.inLoop : CollectorPc → Bool
  | .discover | .head _ _ | .advancePage _ => true
  | pc => pc.inFile

theorem requestedCursors_append (path : List Collector) (c : Collector) :
    requestedCursors (path ++ [c]) =
      requestedCursors path ++ if c.pc.isRequest then [c.cursor] else [] := by
  rw [requestedCursors, List.filter_append, List.map_append]
  cases hrequest : c.pc.isRequest <;> simp [requestedCursors, hrequest]

/-- What has been requested: the cursor of the start, and then cursors that pages led to, none of them
twice. Within the loop every seen cursor has been requested. -/
structure Collector.Requested (path : List Collector) (c : Collector) (first : Cursor) : Prop where
  begins : c.pc = .begin → requestedCursors (path ++ [c]) = [] ∧ c.seenCursors = []
  requested : requestedCursors (path ++ [c]) <+: first :: c.seenCursors.reverse.map some
  looping : c.pc.inLoop = true →
    requestedCursors (path ++ [c]) = first :: c.seenCursors.reverse.map some
  nodup : c.seenCursors.Nodup
  led : ∀ cursor ∈ c.seenCursors, ∃ d ∈ path, ∃ page, d.pc = .advancePage page ∧
    page.nextCursor = some (some cursor)

/-- A step that leaves the seen cursors alone and requests nothing. -/
theorem Collector.Requested.stay {first : Cursor} (h : c.Requested path first)
    (hseen : c'.seenCursors = c.seenCursors) (hrequest : c'.pc.isRequest = false)
    (hbegin : c'.pc ≠ .begin) (hloop : c'.pc.inLoop = true → c.pc.inLoop = true) :
    c'.Requested (path ++ [c]) first := by
  have hsame : requestedCursors (path ++ [c] ++ [c']) = requestedCursors (path ++ [c]) := by
    rw [requestedCursors_append, hrequest]
    exact List.append_nil _
  refine ⟨fun hpc => absurd hpc hbegin, ?_, fun hin => ?_, ?_, ?_⟩
  · rw [hsame, hseen]
    exact h.requested
  · rw [hsame, hseen]
    exact h.looping (hloop hin)
  · rw [hseen]
    exact h.nodup
  · rw [hseen]
    intro cursor hcursor
    obtain ⟨d, hd, hled⟩ := h.led cursor hcursor
    exact ⟨d, List.mem_append_left _ hd, hled⟩

theorem CollectorPc.of_out {next : CollectorPc} (hnext : next.rank 0 ≤ 14)
    (hout : ∀ page, next ≠ .advancePage page ∧ ∀ index, next ≠ .head page index) :
    next.isRequest = false ∧ next ≠ .begin ∧ next.inLoop = false := by
  cases next with
  | advancePage page => exact absurd rfl (hout page).1
  | head page index => exact absurd rfl ((hout page).2 index)
  | budgetSettle | budgetObserve | errorSettle | errorCheck | errorAdvance | errorObserve | finish |
    returned => exact ⟨rfl, by simp, rfl⟩
  | _ => simp [rank] at hnext

theorem CollectorPc.of_takesUp {pc : CollectorPc} (h : pc.takesUp = true) :
    pc.isRequest = false ∧ pc ≠ .begin := by
  refine ⟨?_, fun hbegin => ?_⟩
  · cases pc <;> first | rfl | cases h
  · rw [hbegin] at h
    cases h

/-- A turn to the next page: the cursor is a new one, that this page led to. -/
theorem Collector.Requested.turn {first : Cursor} {page : DiscoveryPage} {cursor : String}
    (h : c.Requested path first) (hpc : c.pc = .advancePage page)
    (hnext : page.nextCursor = some (some cursor)) (hnew : cursor ∉ c.seenCursors)
    (hseen : c'.seenCursors = cursor :: c.seenCursors) (hcursor : c'.cursor = some cursor)
    (hcase : c'.pc = .discover ∨ c'.pc = .finish .bounded) :
    c'.Requested (path ++ [c]) first := by
  have hall := h.looping (by rw [hpc]; rfl)
  have hlonger : first :: c'.seenCursors.reverse.map some =
      (first :: c.seenCursors.reverse.map some) ++ [some cursor] := by
    rw [hseen, List.reverse_cons, List.map_append]
    rfl
  have hrequested : requestedCursors (path ++ [c] ++ [c']) =
      (first :: c.seenCursors.reverse.map some) ++ if c'.pc.isRequest then [some cursor] else [] := by
    rw [requestedCursors_append, hall, hcursor]
  refine ⟨fun hbegin => ?_, ?_, fun hin => ?_, ?_, ?_⟩
  · rcases hcase with hcase | hcase <;> rw [hcase] at hbegin <;> cases hbegin
  · rw [hrequested, hlonger]
    rcases hcase with hcase | hcase <;> rw [hcase]
    · exact List.prefix_refl _
    · exact List.prefix_append_right_inj _ |>.mpr (List.nil_prefix)
  · rw [hrequested, hlonger]
    rcases hcase with hcase | hcase <;> rw [hcase] at hin ⊢
    · rfl
    · cases hin
  · rw [hseen]
    exact List.nodup_cons.mpr ⟨hnew, h.nodup⟩
  · rw [hseen]
    intro other hother
    rcases List.mem_cons.mp hother with rfl | hold
    · exact ⟨c, List.mem_append_right _ List.mem_cons_self, page, hpc, hnext⟩
    · obtain ⟨d, hd, hled⟩ := h.led other hold
      exact ⟨d, List.mem_append_left _ hd, hled⟩

theorem Collector.Goes.requested {first : Cursor} (h : c.Requested path first) {pc : CollectorPc}
    (hpc : c.pc = pc) (hgoes : c.Goes config pc c') :
    ∃ first, c'.Requested (path ++ [c]) first := by
  have hloop : pc.inLoop = true → c.pc.inLoop = true := fun hin => hpc ▸ hin
  cases hgoes with
  | @begin attempt cursor offset retry =>
    obtain ⟨hnone, hseen⟩ := h.begins hpc
    refine ⟨cursor, ⟨(fun hbegin => nomatch hbegin), ?_, fun _ => ?_, ?_, ?_⟩⟩
    · rw [requestedCursors_append, hnone]
      simp only [hseen]
      exact List.prefix_refl _
    · rw [requestedCursors_append, hnone]
      simp only [hseen]
      rfl
    · exact h.nodup
    · exact fun other hother => absurd (hseen ▸ hother) (List.not_mem_nil)
  | nextPage hnext hstart hnew hcase => exact ⟨first, h.turn hpc hnext hnew rfl rfl hcase⟩
  | lastPage => exact ⟨first, h.stay rfl rfl (by simp) fun hin => nomatch hin⟩
  | leave hnext hrank hout =>
    obtain ⟨hrequest, hbegin, hin⟩ := CollectorPc.of_out hnext hout
    refine ⟨first, h.stay rfl hrequest hbegin fun h => ?_⟩
    have hfalse : false = true := hin ▸ h
    cases hfalse
  | takeUp hleft hlisted htakes =>
    obtain ⟨hrequest, hbegin⟩ := CollectorPc.of_takesUp htakes
    exact ⟨first, h.stay rfl hrequest hbegin fun _ => hloop rfl⟩
  | advance hslot hnext =>
    cases hnext with
    | unknown | skip | done => exact ⟨first, h.stay rfl rfl (by simp [Collector.advanced]) fun _ => hloop rfl⟩
    | bounded | error =>
      exact ⟨first, h.stay rfl rfl (by simp [Collector.advanced]) fun hin => nomatch hin⟩
  | count hcase =>
    refine ⟨first, h.stay rfl rfl (by simp) fun _ => ?_⟩
    rcases hcase with ⟨result, rfl⟩ | ⟨result, budget, rfl⟩ <;> exact hloop rfl
  | _ => exact ⟨first, h.stay rfl rfl (by simp [Collector.goto]) fun _ => hloop rfl⟩

theorem run_requested (h : (collectorProgram config).Run (Collector.start p scope) path c) :
    ∃ first, c.Requested path first := by
  induction h with
  | start =>
    exact ⟨none, ⟨fun _ => ⟨rfl, rfl⟩, List.nil_prefix, (fun hin => nomatch hin), List.nodup_nil,
      fun cursor hcursor => absurd hcursor List.not_mem_nil⟩⟩
  | step _ hstep ih =>
    obtain ⟨first, hfirst⟩ := ih
    exact (Collector.goes_of_step hstep).requested hfirst rfl

/-- Cursors are requested once, as long as no page leads back to the first one. -/
theorem requestedCursors_nodup
    (h : (collectorProgram config).Run (Collector.start p scope) path c)
    (hreturns : NeverReturns (path ++ [c])) : (requestedCursors (path ++ [c])).Nodup := by
  obtain ⟨first, hfirst⟩ := run_requested h
  cases hall : requestedCursors (path ++ [c]) with
  | nil => exact List.nodup_nil
  | cons start later =>
    obtain ⟨rfl, hlater⟩ := List.cons_prefix_cons.mp (hall ▸ hfirst.requested)
    have hseen : (c.seenCursors.reverse.map some).Nodup :=
      (List.nodup_reverse.mpr hfirst.nodup).map (Option.some_injective String)
    refine List.nodup_cons.mpr ⟨fun hmem => ?_, hseen.sublist hlater.sublist⟩
    obtain ⟨cursor, hcursor, rfl⟩ := List.mem_map.mp (hlater.subset hmem)
    obtain ⟨d, hd, page, hpc, hnext⟩ := hfirst.led cursor (List.mem_reverse.mp hcursor)
    exact hreturns d (List.mem_append_left _ hd) page hpc _ hnext (by rw [hall]; rfl)

/-- A run of a collector ends after so many operations and page requests, takes up and passes to
ingestion no more files than its limits, and requests no cursor twice if no page leads back to the
cursor that it resumed at. -/
theorem collection_run_bounded (config : Config) (p : ProcessId) (scope : CollectionScope)
    (path : List Collector) (c : Collector)
    (h : (collectorProgram config).Run (Collector.start p scope) path c) :
    path.length ≤ 30 * config.policy.maximumDiscoveryRecordsPerSourceRun + 30 ∧
      (requestedCursors (path ++ [c])).length ≤
        config.policy.maximumDiscoveryRecordsPerSourceRun + 2 ∧
      (path ++ [c]).countP (fun c => c.pc.takesUp) ≤
        config.policy.maximumDiscoveryRecordsPerSourceRun ∧
      (path ++ [c]).countP (fun c => c.pc.isCall) ≤ config.policy.maximumFilesPerSourceRun ∧
      (NeverReturns (path ++ [c]) → (requestedCursors (path ++ [c])).Nodup) := by
  refine ⟨?_, ?_, ?_, ?_, requestedCursors_nodup h⟩
  · obtain ⟨-, hcount⟩ := h.countP_add_credit_le (Collector.Within config) (fun _ => true)
      (Collector.operationCredit config) (Collector.within_start p scope) fun hw hstep =>
        have hpay := Collector.pays_of_step hw hstep
        ⟨hpay.within, hpay.operations⟩
    rw [List.countP_true] at hcount
    exact Nat.le_trans (Nat.le_add_right _ _) hcount
  · rw [requestedCursors, List.length_map, ← List.countP_eq_length_filter]
    exact run_counts (fun _ hpay => hpay.requests) (fun _ => (CollectorPc.covers _ _ _).1) h
  · exact run_counts (fun _ hpay => hpay.records) (fun hw => (CollectorPc.covers _ 0 _).2.1
      fun hin => Nat.sub_pos_of_lt (hw.records hin)) h
  · exact run_counts (fun _ hpay => hpay.calls) (fun hw => (CollectorPc.covers _ 0 _).2.2.1
      fun hin => Nat.sub_pos_of_lt (hw.files hin)) h

end Runs

/-! ## Collectors of a world -/

/-- Every collector of a reachable world is in a run from its start. -/
theorem world_runs {config : Config} {policy : IngestionPolicy}
    {ok : World → CollectionEvent → Prop} {w : World}
    (h : Reach (collectionSystem config policy) ok w) : ∀ p c, w.collectors p = some c →
      ∃ scope path, (collectorProgram config).Run (Collector.start p scope) path c := by
  refine h.invariant (P := fun w => ∀ p c, w.collectors p = some c →
    ∃ scope path, (collectorProgram config).Run (Collector.start p scope) path c)
    (fun w hinit p c hc => ?_) fun w e w' hruns _ hnext p c hc => ?_
  · obtain ⟨clock, rfl⟩ := hinit
    cases hc
  · cases World.moves_of_next hnext with
    | collect =>
      rcases update_some_eq_some hc with ⟨rfl, rfl⟩ | ⟨-, hold⟩
      · exact ⟨_, [], .start⟩
      · exact hruns p c hold
    | reply hq hstep =>
      rcases update_some_eq_some hc with ⟨rfl, rfl⟩ | ⟨-, hold⟩
      · obtain ⟨scope, path, hrun⟩ := hruns p _ hq
        exact ⟨scope, _, hrun.step hstep⟩
      · exact hruns p c hold
    | die => exact hruns p c (update_none_eq_some hc).2
    | ingest | recover | loseLease => exact hruns p c hc

/-! ## Sample runs -/

/-- A page with one entry of an unknown format, that leads on to a cursor. -/
def pageTo (cursor : String) : CollectorInput := .page ⟨[unknownRemote], some (some cursor), false⟩

/-- The replies that a collector gets for such a page. -/
def turnTo (cursor : String) : List (Reply CollectorInput Fault) :=
  [.ok (pageTo cursor), .ok .done, .ok .done, .ok .done, .ok .done]

/-- The durable state after a first collector has come to the page `a` and failed there. -/
def resumedShared : Shared :=
  (((collectorProgram sampleConfig).trace (.start 0) (.start 0 sampleScope)
    (.ok .done :: turnTo "a" ++ [.raise ⟨.sourceAccess, "timeout"⟩, .ok .done])).map
      fun t => t.2.1).getD (.start 0)

/-- The second collector, through the given pages. -/
def resumedRun (cursors : List String) : Option (List Collector × Shared × Collector) :=
  (collectorProgram sampleConfig).trace resumedShared (.start 1 sampleScope)
    (.ok .done :: cursors.flatMap turnTo)

theorem resumedRun_run {cursors : List String} {l : List Collector} {s : Shared} {c : Collector}
    (h : resumedRun cursors = some (l, s, c)) :
    (collectorProgram sampleConfig).Run (Collector.start 1 sampleScope) l c :=
  Program.Run.start.of_trace h

/-- `NeverReturns`, computed. -/
def neverReturns (path : List Collector) : Bool :=
  path.all fun c =>
    match c.pc with
    | .advancePage page =>
      page.nextCursor.all fun value => decide ((requestedCursors path).head? ≠ some value)
    | _ => true

theorem neverReturns_spec {path : List Collector} (h : neverReturns path = true) :
    NeverReturns path := by
  intro c hc page hpc value hnext
  have hall := List.all_eq_true.mp h c hc
  rw [hpc] at hall
  dsimp only at hall
  rw [hnext] at hall
  exact of_decide_eq_true hall

theorem collection_run_bounded_sample : ∃ path c,
    (collectorProgram sampleConfig).Run (Collector.start 1 sampleScope) path c ∧
      requestedCursors (path ++ [c]) = [some "a", some "b", some "c"] ∧
      (path ++ [c]).countP (fun c => c.pc.takesUp) ≤ 100 ∧
      (requestedCursors (path ++ [c])).Nodup := by
  have hsome : (resumedRun ["b", "c"]).isSome = true := by decide +kernel
  obtain ⟨⟨path, s, c⟩, hrun⟩ := Option.isSome_iff_exists.mp hsome
  have hrequested : (resumedRun ["b", "c"]).map (fun t => requestedCursors (t.1 ++ [t.2.2])) =
      some [some "a", some "b", some "c"] := by decide +kernel
  have hreturns : (resumedRun ["b", "c"]).map (fun t => neverReturns (t.1 ++ [t.2.2])) =
      some true := by decide +kernel
  rw [hrun, Option.map_some] at hrequested hreturns
  obtain ⟨-, -, htaken, -, hnodup⟩ :=
    collection_run_bounded sampleConfig 1 sampleScope path c (resumedRun_run hrun)
  exact ⟨path, c, resumedRun_run hrun, Option.some.inj hrequested, htaken,
    hnodup (neverReturns_spec (Option.some.inj hreturns))⟩

/-- The page `a` that the run resumed at is requested again, after the page `b`. -/
theorem resumed_cursor_requested_twice : ¬∀ (config : Config) (p : ProcessId)
    (scope : CollectionScope) (path : List Collector) (c : Collector),
    (collectorProgram config).Run (Collector.start p scope) path c →
      (requestedCursors (path ++ [c])).Nodup := by
  intro h
  have hsome : (resumedRun ["b", "a"]).isSome = true := by decide +kernel
  obtain ⟨⟨path, s, c⟩, hrun⟩ := Option.isSome_iff_exists.mp hsome
  have hrequested : (resumedRun ["b", "a"]).map (fun t => requestedCursors (t.1 ++ [t.2.2])) =
      some [some "a", some "b", some "a"] := by decide +kernel
  rw [hrun, Option.map_some] at hrequested
  have hnodup := h sampleConfig 1 sampleScope path c (resumedRun_run hrun)
  rw [Option.some.inj hrequested] at hnodup
  exact absurd hnodup (by decide)

end Makolet.Collection
