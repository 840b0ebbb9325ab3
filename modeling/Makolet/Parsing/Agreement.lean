import Makolet.Parsing.Finalize

/-!
# Reuse agrees with parsing

`FileOk` holds of every file of a run whose hits reuse a whole parse that nothing tainted, so that
what each of them leaves is finalized to what a parse of the archive would have left. A warning of
the candidate's own apply, or an issue of no record, taints a parse: the counter is copied, the
evidence is not.
-/

set_option autoImplicit false

namespace Makolet.Parsing

open Makolet.Domain Makolet.Lib Makolet.Normalized

variable {c : ParsingConfig} {h : Held} {f : StagedFile}

/-! ## One file -/

theorem timestampIssues_congr {a b : SourceRow} (hsource : a.sourceTimestamp = b.sourceTimestamp)
    (hfinished : a.downloadFinishedAt = b.downloadFinishedAt)
    (hdiscovered : a.discoveredAt = b.discoveredAt) (rows : Staging) :
    timestampIssues a rows = timestampIssues b rows := by
  rw [timestampIssues, timestampIssues, hsource, hfinished, hdiscovered]

theorem withStaged_provenance_congr (f : StagedFile) (a : Staged) (provenance : Option String) :
    ({ f.withStaged a with provenance := provenance } : StagedFile).staged = a := by
  have hstaged : (f.withStaged a).staged = a := StagedFile.staged_withStaged
  exact hstaged

/-- A file that no process works on. -/
theorem FileOk.alone (hstatus : f.run.status = f.source.status)
    (hearlier : ∀ r ∈ f.earlierRuns, r.status ≠ .completed)
    (hcompleted : ∀ p, f.source.status = .completed → f.replays = [] → f.provenance = some p →
      KeepsParse c f p) : FileOk c ⟨f, none⟩ := by
  refine ⟨?_, ?_, hstatus, hearlier, ?_, hcompleted⟩
  · intro phase hwork
    cases hwork
  · intro phase hwork
    cases hwork
  · intro w p hwork
    cases hwork

/-- A file that a process works on is no completed file without replays. -/
theorem FileOk.busy (hok : FileOk c h) {work : Work} (hwork : h.work = some work) :
    ¬(h.file.source.status = .completed ∧ h.file.replays = []) := by
  obtain ⟨isReplay, phase⟩ := work
  rintro ⟨hcompleted, hreplays⟩
  cases isReplay with
  | false =>
    have hstatus := hok.ingest phase hwork
    rw [hcompleted] at hstatus
    exact hstatus List.mem_cons_self
  | true => exact hok.replay phase hwork hreplays

/-- The process writes the rows, the counters and the evidence of its attempt. -/
theorem FileOk.write (hok : FileOk c h) {work : Work} (hwork : h.work = some work) (a : Staged)
    (provenance : Option String) (work' : Option Work)
    (hsame : ∀ w, work' = some w → w.isReplay = work.isReplay)
    (hphase : ∀ w p, work' = some w → provenance = some p →
      PhaseOk c { h.file.withStaged a with provenance := provenance } p w.phase) :
    FileOk c ⟨{ h.file.withStaged a with provenance := provenance }, work'⟩ := by
  obtain ⟨staging, run, replays, hfile, hrun, hreplays⟩ :=
    StagedFile.withStaged_cases (f := h.file) (a := a)
  have hbusy := hok.busy hwork
  have hreplaysEq : (h.file.withStaged a).replays = [] ↔ h.file.replays = [] := by
    rw [hfile]
    exact hreplays
  refine ⟨?_, ?_, ?_, ?_, fun w p => hphase w p, ?_⟩
  · intro phase hphase'
    have hreplay := hsame _ hphase'
    obtain ⟨isReplay, old⟩ := work
    cases hreplay
    show (h.file.withStaged a).source.status ∉ _
    rw [StagedFile.withStaged_source]
    exact hok.ingest old hwork
  · intro phase hphase'
    have hreplay := hsame _ hphase'
    obtain ⟨isReplay, old⟩ := work
    cases hreplay
    exact mt hreplaysEq.mp (hok.replay old hwork)
  · show (h.file.withStaged a).run.status = (h.file.withStaged a).source.status
    rw [StagedFile.withStaged_source, ← hok.status, hfile]
    exact hrun
  · show ∀ r ∈ (h.file.withStaged a).earlierRuns, r.status ≠ .completed
    rw [hfile]
    exact hok.earlier
  · intro p hcompleted hnil
    refine absurd ⟨?_, hreplaysEq.mp hnil⟩ hbusy
    have hstatus : (h.file.withStaged a).source.status = .completed := hcompleted
    rwa [StagedFile.withStaged_source] at hstatus

/-- The status of the row and of its run change together. -/
theorem FileOk.transition (hok : FileOk c h) {target : IngestionStatus} {work' : Option Work}
    (hingest : ∀ phase, work' = some ⟨false, phase⟩ →
      target ∉ [IngestionStatus.completed, .failedRetryable])
    (hreplay : ∀ phase, work' = some ⟨true, phase⟩ → h.file.replays ≠ [])
    (hphase : ∀ w p, work' = some w → h.file.provenance = some p →
      PhaseOk c (h.file.transition target) p w.phase)
    (hcompleted : ∀ p, target = .completed → h.file.replays = [] → h.file.provenance = some p →
      KeepsParse c (h.file.transition target) p) :
    FileOk c ⟨h.file.transition target, work'⟩ := by
  refine ⟨?_, ?_, ?_, ?_, ?_, ?_⟩
  · intro phase hwork
    show (h.file.transition target).source.status ∉ _
    rw [StagedFile.transition_status]
    exact hingest phase hwork
  · intro phase hwork
    show (h.file.transition target).replays ≠ []
    rw [StagedFile.transition_replays]
    exact hreplay phase hwork
  · show (h.file.transition target).run.status = (h.file.transition target).source.status
    rw [StagedFile.transition_run_status, StagedFile.transition_status]
  · show ∀ r ∈ (h.file.transition target).earlierRuns, r.status ≠ .completed
    unfold StagedFile.transition
    split
    · rename_i hretry
      intro r hr
      rcases List.mem_cons.mp hr with rfl | hr
      · rw [hok.status, hretry]
        decide
      · exact hok.earlier r hr
    · exact hok.earlier
  · intro w p hwork hprovenance
    refine hphase w p hwork ?_
    have hsame : (h.file.transition target).provenance = some p := hprovenance
    rwa [StagedFile.transition_provenance] at hsame
  · intro p hstatus hreplays hprovenance
    have hstatus : (h.file.transition target).source.status = .completed := hstatus
    have hreplays : (h.file.transition target).replays = [] := hreplays
    have hprovenance : (h.file.transition target).provenance = some p := hprovenance
    rw [StagedFile.transition_status] at hstatus
    rw [StagedFile.transition_replays] at hreplays
    rw [StagedFile.transition_provenance] at hprovenance
    exact hcompleted p hstatus hreplays hprovenance

/-- A file without a process, of any status but a completed one. -/
theorem FileOk.idle (hok : FileOk c h) {target : IngestionStatus} (hne : target ≠ .completed) :
    FileOk c ⟨h.file.transition target, none⟩ :=
  hok.transition (fun _ hwork => by cases hwork) (fun _ hwork => by cases hwork)
    (fun _ _ hwork => by cases hwork) fun _ hcompleted => absurd hcompleted hne

theorem parsed_transition (c : ParsingConfig) (p : String) (f : StagedFile)
    (target : IngestionStatus) : c.parsed p (f.transition target) = c.parsed p f := by
  refine parsed_congr c p ?_ ?_ StagedFile.transition_compression
  · rw [StagedFile.transition_status]
  · rw [StagedFile.transition_status]

theorem parsed_withStaged (c : ParsingConfig) (p : String) (f : StagedFile) (a : Staged)
    (provenance : Option String) :
    c.parsed p { f.withStaged a with provenance := provenance } = c.parsed p f := by
  refine parsed_congr c p ?_ ?_ StagedFile.withStaged_compression
  · show (f.withStaged a).source.contentSha256 = _
    rw [StagedFile.withStaged_source]
  · show (f.withStaged a).source.documentType = _
    rw [StagedFile.withStaged_source]

theorem output_withStaged (c : ParsingConfig) (p : String) (f : StagedFile) (a : Staged)
    (provenance : Option String) :
    c.output p { f.withStaged a with provenance := provenance } = c.output p f := by
  refine output_congr c p ?_ ?_ StagedFile.withStaged_compression
  · show (f.withStaged a).source.contentSha256 = _
    rw [StagedFile.withStaged_source]
  · show (f.withStaged a).source.documentType = _
    rw [StagedFile.withStaged_source]

/-- One more batch of the parser's events. -/
theorem FileOk.stage (hok : FileOk c h) {isReplay : Bool} {version : String}
    {rest : List ParsedEvent} {n : Nat} {a : Staged}
    (hwork : h.work = some ⟨isReplay, .parsing version rest⟩)
    (ha : stage c.limits (rest.take n) h.file.staged = .ok a) :
    FileOk c ⟨h.file.withStaged a, some ⟨isReplay, .parsing version (rest.drop n)⟩⟩ := by
  have hwrite := hok.write hwork a h.file.provenance
    (some ⟨isReplay, .parsing version (rest.drop n)⟩) (fun w hw => by cases hw; rfl) ?_
  · rwa [← StagedFile.withStaged_provenance (f := h.file) (a := a)] at hwrite
  · intro w p hw hprovenance
    cases hw
    obtain ⟨hversion, staged, hevents, hstaged⟩ := hok.phase _ p hwork hprovenance
    refine ⟨hversion, staged ++ rest.take n, ?_, ?_⟩
    · rw [output_withStaged, hevents, List.append_assoc, List.take_append_drop]
    · rw [withStaged_provenance_congr]
      exact stage_batch hstaged ha

/-- What was parsed to its end, or reused, is finalized to a parse. -/
theorem FileOk.finalize (hok : FileOk c h) {work : Work} {a : Staged} (hwork : h.work = some work)
    (hready : readyToFinalize c h.file work.phase = true)
    (ha : finalizeStaging c.limits h.file.source.documentType h.file.staged = .ok a) :
    FileOk c ⟨h.file.withStaged a, some ⟨work.isReplay, .finalized⟩⟩ := by
  have hwrite := hok.write hwork a h.file.provenance
    (some ⟨work.isReplay, .finalized⟩) (fun w hw => by cases hw; rfl) ?_
  · rwa [← StagedFile.withStaged_provenance (f := h.file) (a := a)] at hwrite
  · intro w p hw hprovenance
    cases hw
    have hold := hok.phase _ p hwork hprovenance
    show c.parsed p _ = .ok _
    rw [parsed_withStaged, withStaged_provenance_congr]
    obtain ⟨isReplay, phase⟩ := work
    cases phase with
    | parsing version rest =>
      obtain ⟨rfl, staged, hevents, hstaged⟩ := hold
      simp only [readyToFinalize, Bool.and_eq_true, List.isEmpty_iff] at hready
      obtain ⟨rfl, hfailure⟩ := hready
      rw [List.append_nil] at hevents
      rw [Option.isNone_iff_eq_none] at hfailure
      rw [ParsingConfig.parsed, hfailure]
      exact bind_eq_ok.mpr ⟨_, hevents ▸ hstaged, ha⟩
    | reused version => exact hold.symm.trans ha
    | preparing version => cases hready
    | finalized => cases hready
    | applied => cases hready

/-- A finalized ingest goes on with its rows. -/
theorem FileOk.advance (hok : FileOk c h) {target : IngestionStatus}
    (hwork : h.work = some ⟨false, .finalized⟩)
    (htarget : nextStatus h.file.source.status = some target) :
    FileOk c ⟨h.file.transition target, h.work⟩ := by
  have hactive := hok.ingest _ hwork
  have hretry : h.file.source.status ≠ .failedRetryable := fun hbad => by
    rw [hbad] at hactive
    exact hactive (by decide)
  have hnext : target ∉ [IngestionStatus.completed, .failedRetryable] := by
    cases hstatus : h.file.source.status <;> rw [hstatus] at htarget <;> cases htarget <;>
      decide
  refine hok.transition (fun _ _ => hnext) (fun phase hbad => hok.replay phase hbad) ?_
    fun p hbad => absurd (hbad ▸ List.mem_cons_self) hnext
  intro w p hw hprovenance
  rw [hwork] at hw
  cases hw
  have hold : c.parsed p h.file = .ok h.file.staged := hok.phase _ p hwork hprovenance
  show c.parsed p (h.file.transition target) = .ok (h.file.transition target).staged
  rw [parsed_transition, StagedFile.staged_transition hretry]
  exact hold

/-- A completed file keeps the parse that its apply wrote. -/
theorem FileOk.complete (hok : FileOk c h) (hwork : h.work = some ⟨false, .applied⟩)
    (hstatus : h.file.source.status = .applying) :
    FileOk c ⟨h.file.transition .completed, none⟩ := by
  refine hok.transition (fun _ hw => by cases hw) (fun _ hw => by cases hw)
    (fun _ _ hw => by cases hw) ?_
  intro p _ hreplays hprovenance
  obtain ⟨final, hparsed, hstaged⟩ := hok.phase _ p hwork hprovenance
  have hretry : h.file.source.status ≠ .failedRetryable := by
    rw [hstatus]
    decide
  have hkept : (h.file.transition .completed).staged =
      final.withIssues c.limits (timestampIssues h.file.source final.rows) :=
    (StagedFile.staged_transition hretry).trans hstaged
  have hnone : (h.file.transition .completed).replays = [] := by
    rw [StagedFile.transition_replays, hreplays]
  rw [StagedFile.staged_of_replays_nil hnone] at hkept
  have hrows : (h.file.transition .completed).staging = final.rows := congrArg Staged.rows hkept
  have hissues : timestampIssues (h.file.transition .completed).source final.rows =
      timestampIssues h.file.source final.rows := by
    rw [StagedFile.transition_status]
    exact timestampIssues_congr rfl rfl rfl final.rows
  refine ⟨final, by rw [parsed_transition]; exact hparsed, ?_, .inl hrows⟩
  rw [hissues, ← hkept, hrows]

/-- Every step of a process on its own file. -/
theorem FileOk.step (hok : FileOk c h) {event : FileEvent} {h' : Held}
    (hstep : fileStep c h event = some h') : FileOk c h' := by
  cases event with
  | begin version =>
    simp only [fileStep] at hstep
    split at hstep
    · rename_i hguard
      cases hstep
      refine hok.transition (fun _ _ => by decide) (fun _ hwork => by cases hwork) ?_
        fun _ hcompleted => by cases hcompleted
      intro w p hwork _
      cases hwork
      exact trivial
    · cases hstep
  | replay version =>
    simp only [fileStep] at hstep
    split at hstep
    · cases hstep
      -- A replay is only recorded here, so the file's own status and rows stand.
      refine ⟨?_, fun _ _ => List.cons_ne_nil _ _, hok.status, hok.earlier, ?_, ?_⟩
      · intro phase hwork
        cases hwork
      · intro w p hwork _
        cases hwork
        exact trivial
      · intro p _ hnil
        cases hnil
    · cases hstep
  | stage n =>
    simp only [fileStep] at hstep
    split at hstep
    · rename_i isReplay version rest hwork
      obtain ⟨a, ha, rfl⟩ := Option.map_eq_some_iff.mp hstep
      exact hok.stage hwork (toOption_eq_some.mp ha)
    · cases hstep
  | finalize =>
    obtain ⟨work, hwork, hstep⟩ := Option.bind_eq_some_iff.mp hstep
    split at hstep
    · rename_i hready
      obtain ⟨a, ha, rfl⟩ := Option.map_eq_some_iff.mp hstep
      exact hok.finalize hwork hready (toOption_eq_some.mp ha)
    · cases hstep
  | advance =>
    simp only [fileStep] at hstep
    split at hstep
    · rename_i hwork
      obtain ⟨target, htarget, rfl⟩ := Option.map_eq_some_iff.mp hstep
      exact hok.advance hwork htarget
    · cases hstep
  | complete =>
    simp only [fileStep] at hstep
    split at hstep
    · rename_i hguard
      obtain ⟨hwork, hstatus⟩ := hguard
      cases hstep
      exact hok.complete hwork hstatus
    · cases hstep
  | finish succeeded =>
    simp only [fileStep] at hstep
    split at hstep
    · rename_i hguard
      cases hstep
      obtain ⟨work, hwork, hdone⟩ := (Option.any_eq_true _ _).mp hguard
      rw [Bool.and_eq_true] at hdone
      obtain ⟨isReplay, phase⟩ := work
      -- Only a replay finishes this way; the first attempt at a file completes it.
      have hreplays : h.file.replays ≠ [] := by
        cases isReplay with
        | true => exact hok.replay phase hwork
        | false => cases hdone.1
      refine .alone hok.status hok.earlier ?_
      intro p _ hnil
      exact absurd (List.map_eq_nil_iff.mp hnil) hreplays
    · cases hstep
  | fail target =>
    simp only [fileStep] at hstep
    split at hstep
    · rename_i hguard
      cases hstep
      refine hok.idle ?_
      rintro rfl
      exact absurd hguard.2.2 (by decide)
    · cases hstep
  | markArchived =>
    simp only [fileStep] at hstep
    split at hstep
    · cases hstep
      exact hok.idle (by decide)
    · cases hstep
  | stop =>
    cases hstep
    exact .alone hok.status hok.earlier hok.completed

/-- The issues of the ordering check stand with the rows they are about. -/
theorem FileOk.apply (hok : FileOk c h) {reads : ApplyReads} {t t' : Tables} {h' : Held}
    (hstep : applyStep c reads t h = some (t', h')) : FileOk c h' := by
  obtain ⟨work, hwork, hstep⟩ := Option.bind_eq_some_iff.mp hstep
  split at hstep
  · rename_i hguard
    split at hstep
    · cases hstep
      have hwrite := hok.write hwork
        (h.file.staged.withIssues c.limits (orderingIssues (h.file.applyRequest c reads) none))
        h.file.provenance (some ⟨work.isReplay, .applied⟩) (fun w hw => by cases hw; rfl) ?_
      · rwa [← StagedFile.withStaged_provenance (f := h.file)] at hwrite
      · intro w p hw hprovenance
        cases hw
        have hparsed : c.parsed p h.file = .ok h.file.staged := by
          have hold := hok.phase work p hwork hprovenance
          rwa [hguard.1] at hold
        refine ⟨h.file.staged, by rwa [parsed_withStaged], ?_⟩
        rw [withStaged_provenance_congr]
        show _ = h.file.staged.withIssues c.limits
          (timestampIssues (h.file.withStaged _).source h.file.staging)
        rw [StagedFile.withStaged_source, orderingIssues, Option.toList_none, List.map_nil,
          List.append_nil]
        rfl
    · obtain ⟨q, -, hq⟩ := Option.map_eq_some_iff.mp hstep
      cases hq
      have hwrite := hok.write hwork
        (h.file.staged.withIssues c.limits
          (orderingIssues (h.file.applyRequest c reads) (some q)))
        h.file.provenance none (fun w hw => by cases hw) fun w p hw => by cases hw
      rwa [← StagedFile.withStaged_provenance (f := h.file)] at hwrite
  · cases hstep

/-- Truncated rows end the attempt that they belong to; a completed file has no attempt. -/
theorem FileOk.truncated (hok : FileOk c h) : FileOk c { h with file := h.file.truncated } := by
  refine ⟨hok.ingest, hok.replay, hok.status, hok.earlier, ?_, ?_⟩
  · intro w p hwork hprovenance
    have hnone : h.file.truncated.provenance = none := if_neg (hok.busy hwork)
    have hsome : h.file.truncated.provenance = some p := hprovenance
    rw [hnone] at hsome
    cases hsome
  · intro p hcompleted hreplays hprovenance
    have hkept : h.file.truncated.provenance = h.file.provenance :=
      if_pos ⟨hcompleted, hreplays⟩
    have hprovenance : h.file.truncated.provenance = some p := hprovenance
    rw [hkept] at hprovenance
    obtain ⟨final, hparsed, hcounts, -⟩ := hok.completed p hcompleted hreplays hprovenance
    exact ⟨final, hparsed, hcounts, .inr rfl⟩

/-! ## A hit -/

theorem parsed_spec {p : String} {b : Staged} (h : c.parsed p f = .ok b) :
    finalizeStaging c.limits f.source.documentType b = .ok b ∧
      b.counts = countRows b.rows b.counts.issues ∧ b.Sampled := by
  rw [ParsingConfig.parsed] at h
  split at h
  · cases h
  · exact stageAndFinalize_spec h

/-- What the query of `reuse_validated_staging` and the checks after it say of a hit. -/
structure Hit (version : String) (files : List StagedFile) (target from_ : StagedFile)
    (r : Attempt) : Prop where
  mem : from_ ∈ files
  contentSha256 : from_.source.contentSha256 = target.source.contentSha256
  documentType : from_.source.documentType = target.source.documentType
  compression : from_.compression = target.compression
  completed : from_.source.status = .completed
  replays : from_.replays = []
  run : from_.completedRun = some r
  summary : from_.summaryOf r = r.counts
  quarantines : r.counts.issues.fileQuarantines = 0

theorem hit_of_reusable {t : Tables} {version : String} {files : List StagedFile}
    {target from_ : StagedFile} {r : Attempt}
    (h : reusable t version files target = some (from_, r)) : Hit version files target from_ r := by
  obtain ⟨hcandidate, hchecked⟩ := Option.filter_eq_some_iff.mp h
  obtain ⟨hsummary, hquarantines⟩ := of_decide_eq_true hchecked
  obtain ⟨f, hhead, hrun⟩ := Option.bind_eq_some_iff.mp hcandidate
  obtain ⟨run, hrun, heq⟩ := Option.map_eq_some_iff.mp hrun
  cases heq
  have hmem := (List.mem_insertionSort _).mp (List.mem_of_mem_head? hhead)
  obtain ⟨hfiles, hfilter⟩ := List.mem_filter.mp hmem
  simp only [isCandidate, Bool.and_eq_true, decide_eq_true_eq] at hfilter
  obtain ⟨⟨⟨-, -, -, htype, hcompression, -, hcompleted, hcontent, hreplays⟩, -⟩, -⟩ := hfilter
  exact ⟨hfiles, hcontent, htype, hcompression, hcompleted, hreplays, hrun, hsummary, hquarantines⟩

/-- A completed file whose counters still count its rows has the rows of its parse. -/
theorem KeepsParse.rows {p : String} (hkeep : KeepsParse c f p)
    (hsummary : f.summaryOf f.run = f.run.counts) :
    ∃ final, c.parsed p f = .ok final ∧ f.staging = final.rows ∧
      ⟨f.staging, f.run.counts, f.run.evidence⟩ =
        final.withIssues c.limits (timestampIssues f.source f.staging) := by
  obtain ⟨final, hparsed, hkept, hrows⟩ := hkeep
  have hstaging : f.staging = final.rows := by
    rcases hrows with hrows | hrows
    · exact hrows
    · -- No counted row is left, so the parse had none.
      have hcounts : f.run.counts =
          (final.withIssues c.limits (timestampIssues f.source final.rows)).counts :=
        congrArg Staged.counts hkept
      have hfinal : final.counts = countRows final.rows final.counts.issues :=
        (parsed_spec hparsed).2.1
      rw [StagedFile.summaryOf, hrows, hcounts] at hsummary
      simp only [Staged.withIssues] at hsummary
      rw [hfinal] at hsummary
      simp only [countRows, Staging.empty, StageSummary.mk.injEq, List.length_nil] at hsummary
      obtain ⟨hdocuments, hstores, hprices, hpromotions, -⟩ := hsummary
      rw [hrows]
      cases hstaged : final.rows with
      | mk documents stores prices promotions =>
        rw [hstaged] at hdocuments hstores hprices hpromotions
        obtain rfl : documents = [] := List.length_eq_zero_iff.mp hdocuments.symm
        obtain rfl : stores = [] := List.length_eq_zero_iff.mp hstores.symm
        obtain rfl : prices = [] := List.length_eq_zero_iff.mp hprices.symm
        obtain rfl : promotions = [] := List.length_eq_zero_iff.mp hpromotions.symm
        rfl
  exact ⟨final, hparsed, hstaging, by rw [hstaging]; exact hkept⟩

/-- Finalizing loses no issue, and it adds as much evidence as it counts. -/
theorem finalizeStaging_issues {limits : IssueLimits} {documentType : DocumentType} {a b : Staged}
    (h : finalizeStaging limits documentType a = .ok b) :
    a.counts.issues.validationIssueBytes ≤ b.counts.issues.validationIssueBytes ∧
      b.evidence.length + a.counts.issues.sampledValidationIssues =
        a.evidence.length + b.counts.issues.sampledValidationIssues := by
  unfold finalizeStaging at h
  split at h
  · cases h
    exact ⟨le_rfl, rfl⟩
  · obtain ⟨-, h⟩ := require_bind_eq_ok.mp h
    obtain ⟨-, h⟩ := require_bind_eq_ok.mp h
    cases h
    refine ⟨Nat.le_add_right _ _, ?_⟩
    simp only [countRows, addIssues, sampled, List.length_append, List.length_take]
    omega

theorem charge_pos (i : ValidationIssue) : 0 < i.charge := by
  rw [ValidationIssue.charge]
  omega

/-- Issues that are charged nothing are none. -/
theorem eq_nil_of_charges {issues : List ValidationIssue}
    (h : (issues.map ValidationIssue.charge).sum = 0) : issues = [] := by
  cases issues with
  | nil => rfl
  | cons i rest =>
    have hpos := charge_pos i
    rw [List.map_cons, List.sum_cons] at h
    omega

/-- What a hit leaves is finalized to the parse of the candidate exactly when the candidate's own
apply warned of no timestamp and all its evidence names a record. -/
theorem finalize_cloned_iff {limits : IssueLimits} {documentType : DocumentType} {final a : Staged}
    {issues evidence : List ValidationIssue}
    (hfinal : finalizeStaging limits documentType final = .ok final) (hsampled : final.Sampled)
    (hrows : a.rows = final.rows)
    (hissues : a.counts.issues = (final.withIssues limits issues).counts.issues)
    (hevidence : a.evidence = clonedEvidence evidence)
    (horiginal : evidence = (final.withIssues limits issues).evidence)
    (hquarantines : a.counts.issues.fileQuarantines = 0) :
    finalizeStaging limits documentType a = .ok final ↔
      issues = [] ∧ ∀ i ∈ evidence, i.recordIndex ≠ none := by
  constructor
  · intro h
    obtain ⟨hbytes, hlength⟩ := finalizeStaging_issues h
    have hnil : issues = [] := by
      refine eq_nil_of_charges ?_
      rw [hissues] at hbytes
      simp only [Staged.withIssues, addIssues] at hbytes
      omega
    subst hnil
    simp only [Staged.withIssues, addIssues_nil, sampled_nil, List.append_nil] at hissues horiginal
    refine ⟨rfl, ?_⟩
    -- The clone is as long as the evidence, so nothing was left out.
    rw [hissues, hevidence, horiginal] at hlength
    have hall : (clonedEvidence final.evidence).length = final.evidence.length := by omega
    rw [clonedEvidence, List.length_filter_eq_length_iff] at hall
    intro i hi
    rw [horiginal] at hi
    exact (of_decide_eq_true (hall i hi)).1
  · rintro ⟨rfl, hindexed⟩
    simp only [Staged.withIssues, addIssues_nil, sampled_nil, List.append_nil] at hissues horiginal
    subst horiginal
    have hcloned : clonedEvidence final.evidence = final.evidence := by
      refine List.filter_eq_self.mpr ?_
      intro i hi
      refine decide_eq_true ⟨hindexed i hi, ?_⟩
      cases hseverity : i.severity with
      | warning => decide
      | recordRejection => decide
      | fileQuarantine =>
        have hpos := hsampled.quarantines i hi hseverity
        rw [← hissues] at hpos
        omega
    rw [finalizeStaging_congr limits documentType hrows hissues (hevidence.trans hcloned), hfinal]

/-! ## The condition of a reuse -/

/-- The candidate's own apply warned of no timestamp, and all evidence of its run names a record. -/
def Untainted (from_ : StagedFile) (r : Attempt) : Prop :=
  timestampIssues from_.source from_.staging = [] ∧ ∀ i ∈ r.evidence, i.recordIndex ≠ none

instance (from_ : StagedFile) (r : Attempt) : Decidable (Untainted from_ r) :=
  inferInstanceAs (Decidable (_ ∧ _))

/-- The candidate's rows came from one parse, which leaves what a parser of this version leaves. -/
def WholeParse (c : ParsingConfig) (version : String) (from_ : StagedFile) : Prop :=
  (from_.provenance.map fun p => c.parsed p from_) = some (c.parsed version from_)

instance (c : ParsingConfig) (version : String) (from_ : StagedFile) :
    Decidable (WholeParse c version from_) :=
  inferInstanceAs (Decidable (_ = _))

/-- The version, the candidate and its run of a reuse that is a hit. -/
def hitOf (w : World) (id : FileId) : Option (String × StagedFile × Attempt) :=
  (w.held id).bind fun h =>
    match h.work with
    | some ⟨_, .preparing version⟩ =>
      (reusable w.tables version w.rows h.file).map fun x => (version, x)
    | _ => none

/-- Every hit reuses a whole parse that nothing tainted. -/
def ReusesWholeParse (c : ParsingConfig) (w : World) : Event → Prop
  | .reuse id => ∀ x ∈ hitOf w id, WholeParse c x.1 x.2.1 ∧ Untainted x.2.1 x.2.2
  | _ => True

instance (c : ParsingConfig) (w : World) :
    (event : Event) → Decidable (ReusesWholeParse c w event)
  | .reuse id =>
    inferInstanceAs (Decidable
      (∀ x ∈ hitOf w id, WholeParse c x.1 x.2.1 ∧ Untainted x.2.1 x.2.2))
  | .archive .. => instDecidableTrue
  | .file .. => instDecidableTrue
  | .apply .. => instDecidableTrue
  | .truncate .. => instDecidableTrue
  | .normalized .. => instDecidableTrue

/-! ## One reuse -/

/-- What a hit leaves of the target. -/
def afterHit (target from_ : StagedFile) (r : Attempt) : StagedFile :=
  { cloned (target.withStaged .empty) from_ r with provenance := from_.provenance }

section Reused

variable {version : String} {files : List Held} {target from_ : StagedFile} {r : Attempt}

/-- The candidate is a completed file without an earlier completed run. -/
theorem Hit.kept (hhit : Hit version (files.map Held.file) target from_ r)
    (hall : ∀ h ∈ files, FileOk c h) {p : String} (hprovenance : from_.provenance = some p) :
    r = from_.run ∧ KeepsParse c from_ p := by
  obtain ⟨h, hmem, rfl⟩ := List.mem_map.mp hhit.mem
  have hok := hall h hmem
  have hrun : h.file.completedRun = some h.file.run := by
    have hstatus : h.file.run.status = .completed := hok.status.trans hhit.completed
    exact List.find?_cons_of_pos (decide_eq_true hstatus)
  refine ⟨?_, hok.completed p hhit.completed hhit.replays hprovenance⟩
  exact Option.some.inj (hhit.run.symm.trans hrun)

theorem parsed_afterHit (hhit : Hit version (files.map Held.file) target from_ r) (p : String) :
    c.parsed p (afterHit target from_ r) = c.parsed p from_ := by
  rw [afterHit, cloned, parsed_withStaged]
  refine (parsed_congr c p ?_ ?_ ?_).trans
    (parsed_congr c p hhit.contentSha256.symm hhit.documentType.symm hhit.compression.symm)
  · rw [StagedFile.withStaged_source]
  · rw [StagedFile.withStaged_source]
  · rw [StagedFile.withStaged_compression]

theorem documentType_afterHit (hhit : Hit version (files.map Held.file) target from_ r) :
    (afterHit target from_ r).source.documentType = from_.source.documentType := by
  show (cloned _ _ _).source.documentType = _
  rw [cloned, StagedFile.withStaged_source, StagedFile.withStaged_source, hhit.documentType]

/-- A hit on a whole parse is finalized to that parse exactly when nothing tainted it. -/
theorem finalize_afterHit_iff (hhit : Hit version (files.map Held.file) target from_ r)
    (hall : ∀ h ∈ files, FileOk c h) (hwhole : WholeParse c version from_) :
    ∃ final, c.parsed version (afterHit target from_ r) = .ok final ∧ final.Sampled ∧
      (finalizeStaging c.limits (afterHit target from_ r).source.documentType
          (afterHit target from_ r).staged = .ok final ↔ Untainted from_ r) := by
  obtain ⟨p, hprovenance, hsame⟩ := Option.map_eq_some_iff.mp hwhole
  obtain ⟨rfl, hkeep⟩ := hhit.kept hall hprovenance
  obtain ⟨final, hparsed, hrows, hkept⟩ := hkeep.rows hhit.summary
  obtain ⟨hfinal, -, hsampled⟩ := parsed_spec hparsed
  refine ⟨final, by rw [parsed_afterHit hhit, ← hsame, hparsed], hsampled, ?_⟩
  rw [documentType_afterHit hhit]
  have hissues : from_.run.counts.issues = (final.withIssues c.limits
      (timestampIssues from_.source from_.staging)).counts.issues :=
    congrArg (fun a => a.counts.issues) hkept
  have hstaged : (afterHit target from_ from_.run).staged =
      (cloned (target.withStaged .empty) from_ from_.run).staged := rfl
  have hcounts : (afterHit target from_ from_.run).staged.counts.issues =
      from_.run.counts.issues := by
    rw [hstaged, cloned, StagedFile.staged_withStaged]
    dsimp only
    split_ifs <;> rfl
  refine finalize_cloned_iff hfinal hsampled ?_ (hcounts.trans hissues) ?_
    (congrArg Staged.evidence hkept)
    ((congrArg IssueUsage.fileQuarantines hcounts).trans hhit.quarantines)
  · rw [hstaged, cloned, StagedFile.staged_withStaged]
    exact hrows
  · rw [hstaged, cloned, StagedFile.staged_withStaged]

/-- A hit on a whole parse agrees with the parser exactly when nothing tainted the parse. -/
theorem agrees_afterHit_iff (hhit : Hit version (files.map Held.file) target from_ r)
    (hall : ∀ h ∈ files, FileOk c h) (hwhole : WholeParse c version from_) :
    agrees c version (afterHit target from_ r) = true ↔ Untainted from_ r := by
  obtain ⟨final, hparsed, hsampled, hiff⟩ := finalize_afterHit_iff hhit hall hwhole
  rw [agrees, hparsed, Bool.and_eq_true, decide_eq_true_iff, hiff, and_iff_left_iff_imp]
  intro huntainted
  rw [hiff.mpr huntainted]
  exact decide_eq_true hsampled.length

end Reused

/-- A miss leaves an empty staging to the parser, a hit what it reused. -/
theorem afterReuse_cases {w : World} {isReplay : Bool} {version : String} {target : StagedFile}
    {h' : Held} {agreed : Bool}
    (hstep : afterReuse c w isReplay version target = some (h', agreed)) :
    (h' = ⟨{ target.withStaged .empty with provenance := some version },
        some ⟨isReplay, .parsing version (c.output version target).events⟩⟩ ∧ agreed = true) ∨
      ∃ from_ r, reusable w.tables version w.rows target = some (from_, r) ∧
        h' = ⟨afterHit target from_ r, some ⟨isReplay, .reused version⟩⟩ ∧
        agreed = agrees c version (afterHit target from_ r) := by
  unfold afterReuse at hstep
  split at hstep
  · cases hstep
  · rename_i f hreuse
    obtain ⟨-, hreuse⟩ := require_bind_eq_ok.mp hreuse
    obtain ⟨-, hreuse⟩ := require_bind_eq_ok.mp hreuse
    obtain ⟨-, hreuse⟩ := require_bind_eq_ok.mp hreuse
    split at hreuse
    · cases hreuse
    · cases hreuse
      cases hstep
      exact .inl ⟨rfl, rfl⟩
  · rename_i f summary hreuse
    obtain ⟨-, hreuse⟩ := require_bind_eq_ok.mp hreuse
    obtain ⟨-, hreuse⟩ := require_bind_eq_ok.mp hreuse
    obtain ⟨-, hreuse⟩ := require_bind_eq_ok.mp hreuse
    split at hreuse
    · rename_i from_ r hhit
      cases hreuse
      rw [hhit] at hstep
      cases hstep
      exact .inr ⟨from_, r, hhit, rfl, rfl⟩
    · cases hreuse

theorem FileOk.miss (hok : FileOk c h) {isReplay : Bool} {version : String}
    (hwork : h.work = some ⟨isReplay, .preparing version⟩) :
    FileOk c ⟨{ h.file.withStaged .empty with provenance := some version },
      some ⟨isReplay, .parsing version (c.output version h.file).events⟩⟩ := by
  refine hok.write hwork .empty (some version) _ (fun w hw => by cases hw; rfl) ?_
  intro w p hw hprovenance
  cases hw
  cases hprovenance
  refine ⟨rfl, [], ?_, ?_⟩
  · rw [output_withStaged, List.nil_append]
  · rw [withStaged_provenance_congr]
    exact stage_nil_empty c.limits

theorem FileOk.hit (hok : FileOk c h) {isReplay : Bool} {version : String} {files : List Held}
    {from_ : StagedFile} {r : Attempt} (hwork : h.work = some ⟨isReplay, .preparing version⟩)
    (hhit : Hit version (files.map Held.file) h.file from_ r) (hall : ∀ g ∈ files, FileOk c g)
    (hwhole : WholeParse c version from_) (huntainted : Untainted from_ r) :
    FileOk c ⟨afterHit h.file from_ r, some ⟨isReplay, .reused version⟩⟩ := by
  have hcleared : FileOk c ⟨h.file.withStaged .empty, h.work⟩ := by
    have hwrite := hok.write hwork .empty h.file.provenance h.work
      (fun w hw => by rw [hwork] at hw; cases hw; rfl) ?_
    · rwa [← StagedFile.withStaged_provenance (f := h.file) (a := .empty)] at hwrite
    · intro w p hw _
      rw [hwork] at hw
      cases hw
      exact trivial
  refine hcleared.write hwork _ from_.provenance _ (fun w hw => by cases hw; rfl) ?_
  intro w p hw hprovenance
  cases hw
  obtain ⟨final, hparsed, -, hiff⟩ := finalize_afterHit_iff hhit hall hwhole
  obtain ⟨q, hq, hsame⟩ := Option.map_eq_some_iff.mp hwhole
  have hpq : q = p := Option.some.inj (hq.symm.trans hprovenance)
  subst hpq
  show finalizeStaging c.limits (afterHit h.file from_ r).source.documentType
    (afterHit h.file from_ r).staged = c.parsed q (afterHit h.file from_ r)
  rw [hiff.mpr huntainted, ← hparsed, parsed_afterHit hhit, parsed_afterHit hhit, hsame]

/-! ## Runs -/

/-- Every file is as its phase says, and no reuse disagreed. -/
structure WorldOk (c : ParsingConfig) (w : World) : Prop where
  files : ∀ h ∈ w.files, FileOk c h
  disagreed : w.disagreed = []

namespace WorldOk

variable {w w' : World}

theorem of_held (hok : WorldOk c w) {id : FileId} {h : Held} (hheld : w.held id = some h) :
    FileOk c h :=
  hok.files h (Table.mem_of_lookup hheld)

/-- A step of one file. -/
theorem setHeld (hok : WorldOk c w) {h' : Held} (hh : FileOk c h') : WorldOk c (w.setHeld h') := by
  refine ⟨?_, hok.disagreed⟩
  intro g hg
  rcases Table.mem_updateAt hg with ⟨hmem, -⟩ | ⟨-, -, -, rfl⟩
  · exact hok.files g hmem
  · exact hh

theorem reuse (hok : WorldOk c w) {id : FileId} (hcond : ReusesWholeParse c w (.reuse id))
    (hstep : next c w (.reuse id) = some w') : WorldOk c w' := by
  obtain ⟨h, hheld, hstep⟩ := Option.bind_eq_some_iff.mp hstep
  have hh := hok.of_held hheld
  split at hstep
  · rename_i isReplay version hwork
    obtain ⟨⟨h', agreed⟩, hreuse, rfl⟩ := Option.map_eq_some_iff.mp hstep
    rcases afterReuse_cases hreuse with ⟨rfl, rfl⟩ | ⟨from_, r, hreusable, rfl, rfl⟩
    · exact ⟨(hok.setHeld (hh.miss hwork)).files, hok.disagreed⟩
    · have hhitOf : hitOf w id = some (version, from_, r) := by
        rw [hitOf, hheld, Option.bind_some, hwork]
        exact Option.map_eq_some_iff.mpr ⟨(from_, r), hreusable, rfl⟩
      obtain ⟨hwhole, huntainted⟩ := hcond _ hhitOf
      have hhit := hit_of_reusable hreusable
      have hagrees := (agrees_afterHit_iff hhit hok.files hwhole).mpr huntainted
      refine ⟨(hok.setHeld (hh.hit hwork hhit hok.files hwhole huntainted)).files, ?_⟩
      exact (if_pos hagrees).trans hok.disagreed
  · cases hstep

theorem next (hok : WorldOk c w) {event : Event} (hcond : ReusesWholeParse c w event)
    (hstep : next c w event = some w') : WorldOk c w' := by
  cases event with
  | archive id source content compression parserVersion =>
    simp only [Parsing.next] at hstep
    split at hstep
    · cases hstep
    · cases hstep
      refine ⟨?_, hok.disagreed⟩
      intro g hg
      rcases List.mem_append.mp hg with hg | hg
      · exact hok.files g hg
      · cases List.mem_singleton.mp hg
        refine .alone rfl ?_ ?_
        · intro r hr
          cases hr
        · intro p _ _ hprovenance
          cases hprovenance
  | file id event =>
    obtain ⟨h, hheld, hstep⟩ := Option.bind_eq_some_iff.mp hstep
    obtain ⟨h', hfile, rfl⟩ := Option.map_eq_some_iff.mp hstep
    exact hok.setHeld ((hok.of_held hheld).step hfile)
  | reuse id => exact hok.reuse hcond hstep
  | apply id reads =>
    obtain ⟨h, hheld, hstep⟩ := Option.bind_eq_some_iff.mp hstep
    obtain ⟨⟨t', h'⟩, happly, rfl⟩ := Option.map_eq_some_iff.mp hstep
    exact ⟨(hok.setHeld ((hok.of_held hheld).apply happly)).files, hok.disagreed⟩
  | truncate tables =>
    cases hstep
    refine ⟨?_, hok.disagreed⟩
    intro g hg
    obtain ⟨h, hmem, rfl⟩ := List.mem_map.mp hg
    exact (hok.files h hmem).truncated
  | normalized tables =>
    cases hstep
    exact ⟨hok.files, hok.disagreed⟩

theorem of_reach (hreach : Reach (parsingSystem c) (ReusesWholeParse c) w) : WorldOk c w := by
  refine hreach.invariant ?_ ?_
  · rintro _ rfl
    refine ⟨?_, rfl⟩
    intro h hh
    cases hh
  · intro s event s' hok hcond hstep
    exact hok.next hcond hstep

end WorldOk

/-- In a run whose hits all reuse a whole parse that nothing tainted, every reuse agrees with the
parser, and the next hit on a whole parse agrees if and only if nothing tainted that one. -/
theorem reuse_agrees (c : ParsingConfig) (w : World)
    (hreach : Reach (parsingSystem c) (ReusesWholeParse c) w) :
    w.disagreed = [] ∧
      ∀ (version : String) (target from_ : StagedFile) (r : Attempt),
        reusable w.tables version w.rows target = some (from_, r) → WholeParse c version from_ →
          (agrees c version (afterHit target from_ r) = true ↔ Untainted from_ r) := by
  have hok := WorldOk.of_reach hreach
  refine ⟨hok.disagreed, ?_⟩
  intro version target from_ r hreusable hwhole
  exact agrees_afterHit_iff (hit_of_reusable hreusable) hok.files hwhole

/-! ## Two store files of one content -/

/-- A parser of one header and one store, whatever the archive holds. -/
def storeParser : ParsingConfig where
  limits := attemptLimits
  parse _ _ _ _ := ⟨[.metadata untimedHeader, .store (untimedStore 1)], none⟩

def storeReads : ApplyReads := ⟨false, none, 0, ⟨0, fun _ _ => false, fun _ _ => ""⟩⟩

/-- One file is parsed and completed, and a second one of the same content reuses it. -/
def reuseRun (source : SourceRow) : List Event :=
  [.archive 1 source "sha" .none "1", .file 1 (.begin "1"), .reuse 1, .file 1 (.stage 2),
    .file 1 .finalize, .file 1 .advance, .file 1 .advance, .file 1 .advance, .apply 1 storeReads,
    .file 1 .complete, .archive 2 source "sha" .none "1", .file 2 (.begin "1"), .reuse 2]

/-- The second file takes over the counter of the warning that the first one's apply gave, and not
the warning. -/
theorem tainted_reuse_disagrees :
    ∃ w, Reach (parsingSystem storeParser) Any w ∧ w.disagreed = [2] := by
  refine ⟨(parsingSystem storeParser).after ⟨[], .empty, []⟩ (reuseRun untimedSource), ?_, ?_⟩
  · exact reach_after _ rfl (by decide)
  · decide

/-- A listed timestamp needs no warning. -/
def timedSource : SourceRow :=
  { untimedSource with sourceTimestamp := some 0 }

theorem reuse_agrees_sample :
    ((parsingSystem storeParser).afterChecked (ReusesWholeParse storeParser) ⟨[], .empty, []⟩
      (reuseRun timedSource)).disagreed = [] :=
  (reuse_agrees storeParser _ (reach_afterChecked _ rfl (by decide))).1

end Makolet.Parsing
