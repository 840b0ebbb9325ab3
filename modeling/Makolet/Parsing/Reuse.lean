import Makolet.Parsing.Attempts

/-!
# When a reused parse is a parse

`reuse_validated_staging` copies the rows, the issue counters and the record evidence of another
completed file. That is what a parse of the target would leave if the candidate's run holds exactly
a parse by the same parser: nothing but that parser's rows went into it, every sampled issue names a
record, and the candidate's own apply generated no warning.

`FileOk` says what each phase of an attempt holds and what a completed file keeps of its parse.
-/

set_option autoImplicit false

namespace Makolet.Parsing

open Makolet.Domain Makolet.Lib Makolet.Normalized

/-! ## Rows under a step -/

namespace StagedFile

variable {f : StagedFile} {a : Staged} {target : IngestionStatus}

/-- Writing the unfinished replays leaves their place. -/
theorem find_open_map (replays : List Attempt) {u : Attempt → Attempt}
    (hu : ∀ r, (u r).finished = r.finished) :
    (replays.map fun r => if r.finished then r else u r).find? (fun r => !r.finished) =
      (replays.find? fun r => !r.finished).map u := by
  induction replays with
  | nil => rfl
  | cons r rest ih =>
    rw [List.map_cons, List.find?_cons, List.find?_cons]
    cases hr : r.finished with
    | true => simpa [hr] using ih
    | false => simp [hr, hu]

@[simp] theorem staged_withStaged : (f.withStaged a).staged = a := by
  unfold withStaged
  cases hopen : f.openReplay with
  | none =>
    have hkeep : ({ f with
        staging := a.rows
        run := { f.run with counts := a.counts, evidence := a.evidence } } : StagedFile).openReplay =
        none := hopen
    simp only [staged, attempt, hkeep, Option.getD_none]
  | some r =>
    have hfind := find_open_map f.replays
      (u := fun r => { r with counts := a.counts, evidence := a.evidence }) fun _ => rfl
    have hopen' : f.replays.find? (fun r => !r.finished) = some r := hopen
    rw [hopen', Option.map_some] at hfind
    simp only [staged, attempt, openReplay, hfind, Option.getD_some]

/-- Nothing else of the row changes. -/
theorem withStaged_cases : ∃ staging run replays, f.withStaged a =
    { f with staging := staging, run := run, replays := replays } ∧
    run.status = f.run.status ∧ (replays = [] ↔ f.replays = []) := by
  unfold withStaged
  split
  · exact ⟨_, f.run, _, rfl, rfl, List.map_eq_nil_iff⟩
  · exact ⟨_, _, f.replays, rfl, rfl, Iff.rfl⟩

@[simp] theorem withStaged_source : (f.withStaged a).source = f.source := by
  obtain ⟨_, _, _, h, -, -⟩ := withStaged_cases (f := f) (a := a)
  rw [h]

@[simp] theorem withStaged_compression : (f.withStaged a).compression = f.compression := by
  obtain ⟨_, _, _, h, -, -⟩ := withStaged_cases (f := f) (a := a)
  rw [h]

@[simp] theorem withStaged_provenance : (f.withStaged a).provenance = f.provenance := by
  obtain ⟨_, _, _, h, -, -⟩ := withStaged_cases (f := f) (a := a)
  rw [h]

@[simp] theorem withStaged_id : (f.withStaged a).id = f.id := by
  obtain ⟨_, _, _, h, -, -⟩ := withStaged_cases (f := f) (a := a)
  rw [h]

/-- Without a replay the current attempt is the last run. -/
theorem staged_of_replays_nil (h : f.replays = []) :
    f.staged = ⟨f.staging, f.run.counts, f.run.evidence⟩ := by
  have hopen : f.openReplay = none := by
    rw [openReplay, h]
    rfl
  simp only [staged, attempt, hopen, Option.getD_none]

/-- A file that is not to be retried keeps its attempt in a transition. -/
theorem staged_transition (h : f.source.status ≠ .failedRetryable) :
    (f.transition target).staged = f.staged := by
  rw [transition, if_neg h]
  simp only [staged, attempt, openReplay]
  cases f.replays.find? (fun r => !r.finished) <;> rfl

@[simp] theorem transition_status : (f.transition target).source =
    { f.source with status := target } := by
  unfold transition
  split <;> rfl

@[simp] theorem transition_run_status : (f.transition target).run.status = target := by
  unfold transition
  split <;> rfl

@[simp] theorem transition_replays : (f.transition target).replays = f.replays := by
  unfold transition
  split <;> rfl

@[simp] theorem transition_provenance : (f.transition target).provenance = f.provenance := by
  unfold transition
  split <;> rfl

@[simp] theorem transition_compression : (f.transition target).compression = f.compression := by
  unfold transition
  split <;> rfl

@[simp] theorem transition_id : (f.transition target).id = f.id := by
  unfold transition
  split <;> rfl

end StagedFile

/-- The parser reads the content, the type and the compression of a file only. -/
theorem output_congr (c : ParsingConfig) (version : String) {f g : StagedFile}
    (hcontent : f.source.contentSha256 = g.source.contentSha256)
    (htype : f.source.documentType = g.source.documentType)
    (hcompression : f.compression = g.compression) : c.output version f = c.output version g := by
  rw [ParsingConfig.output, ParsingConfig.output, hcontent, htype, hcompression]

theorem parsed_congr (c : ParsingConfig) (version : String) {f g : StagedFile}
    (hcontent : f.source.contentSha256 = g.source.contentSha256)
    (htype : f.source.documentType = g.source.documentType)
    (hcompression : f.compression = g.compression) : c.parsed version f = c.parsed version g := by
  rw [ParsingConfig.parsed, ParsingConfig.parsed, output_congr c version hcontent htype hcompression,
    htype]

/-! ## What a file holds -/

/-- What the phase of an attempt says about its rows, if they are those of parser version `p`. -/
def PhaseOk (c : ParsingConfig) (f : StagedFile) (p : String) : Phase → Prop
  | .preparing _ => True
  | .parsing version rest => version = p ∧ ∃ staged, (c.output p f).events = staged ++ rest ∧
      stage c.limits staged .empty = .ok f.staged
  | .reused _ => finalizeStaging c.limits f.source.documentType f.staged = c.parsed p f
  | .finalized => c.parsed p f = .ok f.staged
  | .applied => ∃ final, c.parsed p f = .ok final ∧
      f.staged = final.withIssues c.limits (timestampIssues f.source final.rows)

/-- What a completed file keeps of its parse: the counters and the evidence of its run, and its rows
until a rebuild truncates them. -/
def KeepsParse (c : ParsingConfig) (f : StagedFile) (p : String) : Prop :=
  ∃ final, c.parsed p f = .ok final ∧
    ⟨final.rows, f.run.counts, f.run.evidence⟩ =
      final.withIssues c.limits (timestampIssues f.source final.rows) ∧
    (f.staging = final.rows ∨ f.staging = .empty)

/-- What holds of a file and its process in every reachable state. -/
structure FileOk (c : ParsingConfig) (h : Held) : Prop where
  ingest : ∀ phase, h.work = some ⟨false, phase⟩ →
    h.file.source.status ∉ [IngestionStatus.completed, .failedRetryable]
  replay : ∀ phase, h.work = some ⟨true, phase⟩ → h.file.replays ≠ []
  status : h.file.run.status = h.file.source.status
  earlier : ∀ r ∈ h.file.earlierRuns, r.status ≠ .completed
  phase : ∀ work p, h.work = some work → h.file.provenance = some p → PhaseOk c h.file p work.phase
  completed : ∀ p, h.file.source.status = .completed → h.file.replays = [] →
    h.file.provenance = some p → KeepsParse c h.file p

end Makolet.Parsing
