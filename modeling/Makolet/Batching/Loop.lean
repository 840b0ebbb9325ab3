import Makolet.Batching.Events

/-!
# The staging loop of `_parse_validate_apply`

The events of a parser are collected into batches and every batch is passed to `stage` of the
repository, before an event that would overfill it, as soon as it is full, and at the end of the
stream. The repository is a parameter: a state and the outcome of one call.
-/

set_option autoImplicit false

namespace Makolet.Batching

open Makolet.Domain Makolet.Lib
open Makolet.Parsing (StageSummary ValidationIssue noIssues)

/-- The limits of `IngestionPolicy` that the loop reads. -/
structure StagePolicy where
  stageBatchSize : Nat
  maximumStageBatchBytes : Nat
  maximumValidationIssues : Nat
  maximumValidationIssueBytes : Nat
  deriving DecidableEq, Repr

/-- `validation_issue_count` and `validation_issue_bytes`. -/
structure AttemptIssues where
  count : Nat
  bytes : Nat
  deriving DecidableEq, Repr

/-- The locals of the loop and the repository. `passed` lists the batches of all calls of `stage`,
the oldest first; nothing reads it. -/
structure ParseState (σ : Type) where
  repository : σ
  summary : StageSummary
  batch : List ParsedEvent
  batchUnits : Nat
  batchBytes : Nat
  issues : AttemptIssues
  passed : List (List ParsedEvent)
  deriving DecidableEq, Repr

/-- An exception and the state it left. -/
structure Raised (σ : Type) where
  failure : Failure
  state : ParseState σ
  deriving DecidableEq, Repr

/-- `IngestionRepository.stage`; a call that raises is rolled back. -/
abbrev Stage (σ : Type) := List ParsedEvent → σ → Except Failure (StageSummary × σ)

variable {σ : Type}

/-! ## The code -/

/-- `_combine_stage`. -/
def combineStage (left right : StageSummary) : StageSummary where
  metadataRecords := left.metadataRecords + right.metadataRecords
  storeRecords := left.storeRecords + right.storeRecords
  priceRecords := left.priceRecords + right.priceRecords
  promotionRecords := left.promotionRecords + right.promotionRecords
  issues :=
    { warnings := left.issues.warnings + right.issues.warnings
      rejectedRecords := left.issues.rejectedRecords + right.issues.rejectedRecords
      fileQuarantines := left.issues.fileQuarantines + right.issues.fileQuarantines
      validationIssueBytes := left.issues.validationIssueBytes + right.issues.validationIssueBytes
      sampledValidationIssues :=
        left.issues.sampledValidationIssues + right.issues.sampledValidationIssues }

/-- `_ensure_validation_issue_attempt_within_limits`. -/
def ensureValidationIssueAttemptWithinLimits (policy : StagePolicy) (issues : AttemptIssues) :
    Except Failure Unit :=
  require (issues.count ≤ policy.maximumValidationIssues ∧
      issues.bytes ≤ policy.maximumValidationIssueBytes)
    ⟨.quarantinedFile, "Validation issue evidence exceeds the configured attempt limit", 0⟩

/-- The check of the attempt, which is made after an issue only. -/
def ensureIssueWithinLimits (policy : StagePolicy) (issues : AttemptIssues) (event : ParsedEvent) :
    Except Failure Unit :=
  if event.issue?.isSome then ensureValidationIssueAttemptWithinLimits policy issues else pure ()

/-- `_ensure_stage_event_within_limits`. -/
def ensureStageEventWithinLimits (policy : StagePolicy) (stageUnits stageBytes : Nat) :
    Except Failure Unit := do
  require (stageUnits ≤ policy.stageBatchSize)
    ⟨.quarantinedFile, "Parsed event exceeds the configured staging row limit", 0⟩
  require (stageBytes ≤ policy.maximumStageBatchBytes)
    ⟨.quarantinedFile, "Parsed event exceeds the configured staging memory limit", 0⟩

/-- The counters with one more event. -/
def countIssue (issues : AttemptIssues) (event : ParsedEvent) : AttemptIssues :=
  match event.issue? with
  | none => issues
  | some issue => ⟨issues.count + 1, issues.bytes + issue.charge⟩

/-- The checks of one event, in their order. -/
def acceptEvent (policy : StagePolicy) (issues : AttemptIssues) (event : ParsedEvent) :
    Except Failure AttemptIssues := do
  ensureIssueWithinLimits policy (countIssue issues event) event
  ensureStageEventWithinLimits policy (stageUnits event) (stageBytes event)
  pure (countIssue issues event)

/-- `flush_batch`. -/
def flushBatch (stage : Stage σ) (s : ParseState σ) : Except (Raised σ) (ParseState σ) :=
  match stage s.batch s.repository with
  | .error failure => .error ⟨failure, { s with passed := s.passed ++ [s.batch] }⟩
  | .ok (staged, repository) => .ok
      { s with
        repository := repository
        summary := combineStage s.summary staged
        batch := []
        batchUnits := 0
        batchBytes := 0
        passed := s.passed ++ [s.batch] }

/-- The batch with one more event. -/
def ParseState.append (s : ParseState σ) (event : ParsedEvent) : ParseState σ :=
  { s with
    batch := s.batch ++ [event]
    batchUnits := s.batchUnits + stageUnits event
    batchBytes := s.batchBytes + stageBytes event }

/-- Flush a batch that the event would overfill. -/
def makeRoom (policy : StagePolicy) (stage : Stage σ) (event : ParsedEvent) (s : ParseState σ) :
    Except (Raised σ) (ParseState σ) :=
  if s.batch ≠ [] ∧ (policy.stageBatchSize < s.batchUnits + stageUnits event ∨
      policy.maximumStageBatchBytes < s.batchBytes + stageBytes event) then flushBatch stage s
  else .ok s

/-- Flush a full batch. -/
def flushFull (policy : StagePolicy) (stage : Stage σ) (s : ParseState σ) :
    Except (Raised σ) (ParseState σ) :=
  if policy.stageBatchSize ≤ s.batchUnits ∨ policy.maximumStageBatchBytes ≤ s.batchBytes then
    flushBatch stage s
  else .ok s

/-- The body of the loop. -/
def parseEvent (policy : StagePolicy) (stage : Stage σ) (s : ParseState σ) (event : ParsedEvent) :
    Except (Raised σ) (ParseState σ) := do
  let issues ← (acceptEvent policy s.issues event).mapError fun failure => ⟨failure, s⟩
  let s ← makeRoom policy stage event { s with issues := issues }
  flushFull policy stage (s.append event)

def ParseState.start (repository : σ) : ParseState σ :=
  ⟨repository, ⟨0, 0, 0, 0, noIssues⟩, [], 0, 0, ⟨0, 0⟩, []⟩

/-- The loop over the events of a parser, whose stream may end in an exception. -/
def parseAndStage (policy : StagePolicy) (stage : Stage σ) (events : List ParsedEvent)
    (ending : Option Failure) (repository : σ) : Except (Raised σ) (ParseState σ) := do
  let s ← runList (parseEvent policy stage) (.start repository) events
  match ending with
  | some failure => .error ⟨failure, s⟩
  | none => if s.batch ≠ [] then flushBatch stage s else pure s

/-! ## What the batches are -/

/-- The events before the first rejected one, and its rejection. -/
def acceptance (policy : StagePolicy) : AttemptIssues → List ParsedEvent →
    List ParsedEvent × Option Failure
  | _, [] => ([], none)
  | issues, event :: rest =>
    match acceptEvent policy issues event with
    | .error failure => ([], some failure)
    | .ok issues =>
      let later := acceptance policy issues rest
      (event :: later.1, later.2)

/-- The batch is not empty and keeps both limits. -/
structure Fits (policy : StagePolicy) (batch : List ParsedEvent) : Prop where
  nonempty : batch ≠ []
  units : totalUnits batch ≤ policy.stageBatchSize
  bytes : totalBytes batch ≤ policy.maximumStageBatchBytes

/-- The batch is empty or below both limits. -/
def IsOpen (policy : StagePolicy) (batch : List ParsedEvent) : Prop :=
  batch = [] ∨ totalUnits batch < policy.stageBatchSize ∧
    totalBytes batch < policy.maximumStageBatchBytes

/-- Between two events: every event so far is in one batch, and the counters measure the open
one. -/
structure Batched (policy : StagePolicy) (done : List ParsedEvent) (s : ParseState σ) : Prop where
  split : s.passed.flatten ++ s.batch = done
  fits : ∀ b ∈ s.passed, Fits policy b
  units : s.batchUnits = totalUnits s.batch
  bytes : s.batchBytes = totalBytes s.batch

/-- The last call of `stage` raised. -/
structure StageFailed (policy : StagePolicy) (stage : Stage σ) (done : List ParsedEvent)
    (r : Raised σ) : Prop where
  isPrefix : r.state.passed.flatten <+: done
  fits : ∀ b ∈ r.state.passed, Fits policy b
  raised : ∃ before b, r.state.passed = before ++ [b] ∧
    stage b r.state.repository = .error r.failure

variable {policy : StagePolicy} {stage : Stage σ} {done : List ParsedEvent} {s : ParseState σ}
  {event : ParsedEvent}

theorem StageFailed.mono {r : Raised σ} (h : StageFailed policy stage done r)
    (more : List ParsedEvent) : StageFailed policy stage (done ++ more) r where
  isPrefix := h.isPrefix.trans (List.prefix_append done more)
  fits := h.fits
  raised := h.raised

/-- Passing the open batch to `stage`. -/
theorem Batched.flush (stage : Stage σ) (h : Batched policy done s) (hbatch : Fits policy s.batch) :
    match flushBatch stage s with
    | .ok s' => Batched policy done s' ∧ s'.batch = [] ∧ s'.issues = s.issues
    | .error r => StageFailed policy stage done r := by
  have hsplit : (s.passed ++ [s.batch]).flatten = done := by
    rw [List.flatten_append, List.flatten_singleton]
    exact h.split
  have hfits : ∀ b ∈ s.passed ++ [s.batch], Fits policy b := by
    intro b hb
    rcases List.mem_append.mp hb with hb | hb
    · exact h.fits b hb
    · rw [List.mem_singleton.mp hb]
      exact hbatch
  unfold flushBatch
  cases hstage : stage s.batch s.repository with
  | error failure =>
    exact ⟨hsplit ▸ List.prefix_refl _, hfits, s.passed, s.batch, rfl, hstage⟩
  | ok staged =>
    exact ⟨⟨by rw [List.append_nil]; exact hsplit, hfits, rfl, rfl⟩, rfl, rfl⟩

theorem Batched.withIssues (h : Batched policy done s) (issues : AttemptIssues) :
    Batched policy done { s with issues := issues } :=
  ⟨h.split, h.fits, h.units, h.bytes⟩

theorem Batched.append (h : Batched policy done s) (event : ParsedEvent) :
    Batched policy (done ++ [event]) (s.append event) where
  split := by
    rw [← h.split, List.append_assoc]
    rfl
  fits := h.fits
  units := by
    show s.batchUnits + stageUnits event = totalUnits (s.batch ++ [event])
    rw [totalUnits_append, totalUnits_singleton, h.units]
  bytes := by
    show s.batchBytes + stageBytes event = totalBytes (s.batch ++ [event])
    rw [totalBytes_append, totalBytes_singleton, h.bytes]

/-- An accepted event fits into a batch of its own. -/
theorem acceptEvent_eq_ok {issues issues' : AttemptIssues}
    (h : acceptEvent policy issues event = .ok issues') :
    stageUnits event ≤ policy.stageBatchSize ∧ stageBytes event ≤ policy.maximumStageBatchBytes := by
  unfold acceptEvent at h
  obtain ⟨_, -, h⟩ := bind_eq_ok.mp h
  obtain ⟨_, hlimits, -⟩ := bind_eq_ok.mp h
  obtain ⟨hunits, hbytes⟩ := require_bind_eq_ok.mp hlimits
  exact ⟨hunits, require_eq_ok.mp hbytes⟩

/-- Flush, if the event would overfill the open batch. -/
theorem Batched.room (stage : Stage σ) (event : ParsedEvent) (h : Batched policy done s)
    (hopen : IsOpen policy s.batch) :
    match makeRoom policy stage event s with
    | .ok s' => Batched policy done s' ∧ s'.issues = s.issues ∧
        (s'.batch = [] ∨ s'.batchUnits + stageUnits event ≤ policy.stageBatchSize ∧
          s'.batchBytes + stageBytes event ≤ policy.maximumStageBatchBytes)
    | .error r => StageFailed policy stage done r := by
  unfold makeRoom
  split_ifs with hfull
  · obtain ⟨hne, -⟩ := hfull
    have hlimits := hopen.resolve_left hne
    have hflush := h.flush stage ⟨hne, hlimits.1.le, hlimits.2.le⟩
    cases hres : flushBatch stage s with
    | ok s' =>
      rw [hres] at hflush
      exact ⟨hflush.1, hflush.2.2, .inl hflush.2.1⟩
    | error r =>
      rw [hres] at hflush
      exact hflush
  · refine ⟨h, rfl, ?_⟩
    by_cases hne : s.batch = []
    · exact .inl hne
    · right
      push Not at hfull
      exact hfull hne

/-- One event of the loop. -/
theorem Batched.step (stage : Stage σ) (event : ParsedEvent) (h : Batched policy done s)
    (hopen : IsOpen policy s.batch) :
    match acceptEvent policy s.issues event with
    | .error failure => parseEvent policy stage s event = .error ⟨failure, s⟩
    | .ok issues =>
      match parseEvent policy stage s event with
      | .ok s' => Batched policy (done ++ [event]) s' ∧ IsOpen policy s'.batch ∧ s'.issues = issues
      | .error r => StageFailed policy stage (done ++ [event]) r := by
  unfold parseEvent
  cases haccept : acceptEvent policy s.issues event with
  | error failure => rfl
  | ok issues =>
    obtain ⟨hunits, hbytes⟩ := acceptEvent_eq_ok haccept
    have hroom := (h.withIssues issues).room stage event hopen
    simp only [Except.mapError, ok_bind]
    cases hres : makeRoom policy stage event { s with issues := issues } with
    | error r =>
      rw [hres] at hroom
      exact hroom.mono [event]
    | ok s' =>
      rw [hres] at hroom
      obtain ⟨hbatched, hissues, hfits⟩ := hroom
      rw [ok_bind]
      have happend := hbatched.append event
      -- The event fits: either it is alone in its batch, or it passed the test above.
      have hbatch : Fits policy (s'.append event).batch := by
        refine ⟨List.append_ne_nil_of_right_ne_nil _ (List.cons_ne_nil _ _), ?_, ?_⟩
        · rw [← happend.units]
          rcases hfits with hempty | ⟨hle, -⟩
          · have hzero : s'.batchUnits = 0 := by rw [hbatched.units, hempty]; rfl
            show s'.batchUnits + stageUnits event ≤ _
            omega
          · exact hle
        · rw [← happend.bytes]
          rcases hfits with hempty | ⟨-, hle⟩
          · have hzero : s'.batchBytes = 0 := by rw [hbatched.bytes, hempty]; rfl
            show s'.batchBytes + stageBytes event ≤ _
            omega
          · exact hle
      unfold flushFull
      split_ifs with hfull
      · have hflush := happend.flush stage hbatch
        cases hres : flushBatch stage (s'.append event) with
        | ok s'' =>
          rw [hres] at hflush
          exact ⟨hflush.1, .inl hflush.2.1, hflush.2.2.trans hissues⟩
        | error r =>
          rw [hres] at hflush
          exact hflush
      · push Not at hfull
        refine ⟨happend, .inr ?_, hissues⟩
        rw [← happend.units, ← happend.bytes]
        exact hfull

/-- The loop over some events: it goes through all of them, or it ends at the first rejected one, or
a call of `stage` raises. -/
theorem Batched.run (stage : Stage σ) (events : List ParsedEvent) :
    ∀ {done : List ParsedEvent} {s : ParseState σ}, Batched policy done s → IsOpen policy s.batch →
      match runList (parseEvent policy stage) s events with
      | .ok s' => acceptance policy s.issues events = (events, none) ∧
          Batched policy (done ++ events) s' ∧ IsOpen policy s'.batch
      | .error r => StageFailed policy stage (done ++ (acceptance policy s.issues events).1) r ∨
          (acceptance policy s.issues events).2 = some r.failure ∧
            Batched policy (done ++ (acceptance policy s.issues events).1) r.state ∧
            IsOpen policy r.state.batch := by
  -- Induction on the events; the step lemma carries the invariant over each of them.
  induction events with
  | nil =>
    intro done s h hopen
    exact ⟨rfl, by rwa [List.append_nil], hopen⟩
  | cons event rest ih =>
    intro done s h hopen
    have hstep := h.step stage event hopen
    rw [runList, acceptance]
    cases haccept : acceptEvent policy s.issues event with
    | error failure =>
      rw [haccept] at hstep
      rw [hstep]
      exact .inr ⟨rfl, by rwa [List.append_nil], hopen⟩
    | ok issues =>
      simp only [haccept] at hstep
      cases hres : parseEvent policy stage s event with
      | error r =>
        rw [hres] at hstep
        simp only [error_bind]
        rw [List.append_cons]
        exact .inl (hstep.mono _)
      | ok s' =>
        rw [hres] at hstep
        obtain ⟨hbatched, hopen', rfl⟩ := hstep
        have hrest := ih hbatched hopen'
        simp only [ok_bind]
        cases hrun : runList (parseEvent policy stage) s' rest with
        | ok s'' =>
          rw [hrun] at hrest
          obtain ⟨haccepted, hlast⟩ := hrest
          rw [← List.append_cons] at hlast
          exact ⟨by rw [haccepted], hlast⟩
        | error r =>
          rw [hrun] at hrest
          show StageFailed policy stage (done ++ event :: (acceptance policy s'.issues rest).1) r ∨ _
          rw [List.append_cons]
          exact hrest

theorem batched_start (policy : StagePolicy) (repository : σ) :
    Batched policy [] (ParseState.start repository) where
  split := rfl
  fits b hb := by cases hb
  units := rfl
  bytes := rfl

/-- What the loop leaves of the batches it passed to `stage`. -/
def StagedExactly (policy : StagePolicy) (stage : Stage σ) (events : List ParsedEvent)
    (ending : Option Failure) : Except (Raised σ) (ParseState σ) → Prop
  | .ok s => acceptance policy ⟨0, 0⟩ events = (events, none) ∧ ending = none ∧
      s.passed.flatten = events ∧ ∀ b ∈ s.passed, Fits policy b
  | .error r => StageFailed policy stage (acceptance policy ⟨0, 0⟩ events).1 r ∨
      (acceptance policy ⟨0, 0⟩ events).2.or ending = some r.failure ∧
        r.state.passed.flatten ++ r.state.batch = (acceptance policy ⟨0, 0⟩ events).1 ∧
        IsOpen policy r.state.batch ∧ ∀ b ∈ r.state.passed, Fits policy b

theorem stagedExactly_parseAndStage (policy : StagePolicy) (stage : Stage σ)
    (events : List ParsedEvent) (ending : Option Failure) (repository : σ) :
    StagedExactly policy stage events ending
      (parseAndStage policy stage events ending repository) := by
  have hrun := (batched_start policy repository).run stage events (.inl rfl)
  unfold parseAndStage
  cases hres : runList (parseEvent policy stage) (.start repository) events with
  | error r =>
    rw [hres] at hrun
    rw [error_bind]
    rcases hrun with hfailed | ⟨hrejected, hbatched, hopen⟩
    · exact .inl hfailed
    · refine .inr ⟨?_, hbatched.split, hopen, hbatched.fits⟩
      show (acceptance policy ⟨0, 0⟩ events).2.or ending = some r.failure
      have hrejected : (acceptance policy ⟨0, 0⟩ events).2 = some r.failure := hrejected
      rw [hrejected, Option.some_or]
  | ok s =>
    rw [hres] at hrun
    obtain ⟨haccepted, hbatched, hopen⟩ := hrun
    have haccepted : acceptance policy ⟨0, 0⟩ events = (events, none) := haccepted
    rw [List.nil_append] at hbatched
    rw [ok_bind]
    cases ending with
    | some failure =>
      refine .inr ⟨by rw [haccepted]; rfl, ?_, hopen, hbatched.fits⟩
      rw [haccepted]
      exact hbatched.split
    | none =>
      -- The parser is done: an open batch, if there is one, is still flushed.
      by_cases hempty : s.batch = []
      · simp only [hempty, ne_eq, not_true_eq_false, if_false]
        refine ⟨haccepted, rfl, ?_, hbatched.fits⟩
        have hsplit := hbatched.split
        rwa [hempty, List.append_nil] at hsplit
      · simp only [ne_eq, hempty, not_false_eq_true, if_true]
        have hlimits := hopen.resolve_left hempty
        have hflush := hbatched.flush stage ⟨hempty, hlimits.1.le, hlimits.2.le⟩
        cases hlast : flushBatch stage s with
        | ok s' =>
          rw [hlast] at hflush
          obtain ⟨hbatched', hnil, -⟩ := hflush
          refine ⟨haccepted, rfl, ?_, hbatched'.fits⟩
          have hsplit := hbatched'.split
          rwa [hnil, List.append_nil] at hsplit
        | error r =>
          rw [hlast] at hflush
          refine .inl ?_
          rw [haccepted]
          exact hflush

end Makolet.Batching
