import Makolet.Ingestion.Applied
import Makolet.Ingestion.Calls

/-!
# Archive-only files and the selection of a rebuild

`begin_rebuild` selects the archive-backed files whose status is completed or archived. For an
ordinary ingest `archived` is a status in passing, and the stale-job recovery treats it as one; for
`archive_only` it is where the file rests. So a file that `archive_only` has finished leaves the
selection as soon as the recovery finds it, an ordinary ingest starts to parse it, or a later call
records a failure that is not one of its content.

`archived_stays_eligible` says that these are the only ways, and that each of them does it.
-/

set_option autoImplicit false

namespace Makolet.Maintenance

open Makolet.Domain Makolet.Lib Makolet.Normalized Makolet.Ingestion

/-! ## The selection -/

/-- The `WHERE` clause of `begin_rebuild` and its join with the archive objects. -/
def eligible (cutoff : Time) (row : SourceFile) : Bool :=
  row.archive.isSome && row.downloadFinishedAt.any (fun time => decide (time ≤ cutoff)) &&
    decide (row.status ∈ [.completed, .archived])

/-- Failures that are about the content of the archived file. -/
def onContent : ErrorKind → Bool
  | .malformedDocument | .unsafeArchive | .quarantinedFile => true
  | .archiveIntegrity | .domainValidation | .snapshotValidation => true
  | _ => false

theorem not_retryable_of_onContent {k : ErrorKind} (h : onContent k = true) :
    k.retryable = false := by
  cases k <;> simp_all [onContent, ErrorKind.retryable]

theorem failureTarget_of_onContent {e : Failure} (h : onContent e.kind = true)
    (seen : IngestionStatus) :
    failureTarget seen e = .quarantined ∨ failureTarget seen e = .failedTerminal := by
  unfold failureTarget
  split
  · exact .inl rfl
  · rw [if_neg]
    · exact .inr rfl
    · rintro ⟨-, hretry⟩
      rw [not_retryable_of_onContent h] at hretry
      cases hretry

/-! ## Runs with their record -/

/-- A lifecycle with the files whose `archive_only` has succeeded and those that an ordinary ingest
has since quarantined or failed for good on their content. -/
structure Tracked where
  life : Lifecycle
  succeeded : List FileId
  spoiled : List FileId

/-- The call of `archive_only` that an event ended with a result. -/
def succeededBy (life' : Lifecycle) : LifecycleEvent → List FileId
  | .reply p _ =>
    match life'.ingests p with
    | some ⟨_, remote, true, _, _, .returned (.result _)⟩ => [remote.fileId]
    | _ => []
  | _ => []

/-- The content failure of an ordinary ingest that an event recorded. -/
def spoiledBy (life life' : Lifecycle) : LifecycleEvent → List FileId
  | .reply p _ =>
    match life.ingests p with
    | some ⟨_, remote, false, _, _, .recordFailure e seen⟩ =>
      if onContent e.kind = true ∧
          statusOf life'.store.files remote.fileId = some (failureTarget seen e) then
        [remote.fileId]
      else []
    | _ => []
  | _ => []

def Tracked.next (policy : IngestionPolicy) (s : Tracked) (e : LifecycleEvent) : Option Tracked :=
  (s.life.next policy e).map fun life =>
    ⟨life, succeededBy life e ++ s.succeeded, spoiledBy s.life life e ++ s.spoiled⟩

def trackedSystem (policy : IngestionPolicy) : Makolet.Lib.System Tracked LifecycleEvent where
  init s := s = ⟨.empty, [], []⟩
  next := Tracked.next policy

/-- Every file whose `archive_only` has succeeded is selected by every rebuild from then on, unless
an ordinary ingest quarantined it or failed it for good on its content. -/
def Tracked.StaysEligible (s : Tracked) : Prop :=
  ∀ f ∈ s.succeeded, ∃ row finishedAt, s.life.store.files f = some row ∧
    row.downloadFinishedAt = some finishedAt ∧
    ((∀ cutoff, finishedAt ≤ cutoff → eligible cutoff row = true) ∨
      (f ∈ s.spoiled ∧ (row.status = .quarantined ∨ row.status = .failedTerminal)))

/-- The awaited operations that take an archived row out of the selection. -/
def leavesArchived (archiveOnly : Bool) : Pc → Bool
  | .startParsing => true
  | .recordFailure e _ => archiveOnly || !onContent e.kind
  | _ => false

/-- The side condition of a step: a file whose `archive_only` has succeeded is left at rest. -/
def AtRest (s : Tracked) : LifecycleEvent → Prop
  | .recover f => f ∉ s.succeeded
  | .reply p r => r.isRaise = false → ∀ c ∈ s.life.ingests p, c.file ∈ s.succeeded →
      statusOf s.life.store.files c.file = some .archived →
      leavesArchived c.archiveOnly c.pc = false
  | _ => True

instance (s : Tracked) (e : LifecycleEvent) : Decidable (AtRest s e) :=
  match e with
  | .recover f => inferInstanceAs (Decidable (f ∉ s.succeeded))
  | .reply p r => inferInstanceAs (Decidable (r.isRaise = false → ∀ c ∈ s.life.ingests p,
      c.file ∈ s.succeeded → statusOf s.life.store.files c.file = some .archived →
        leavesArchived c.archiveOnly c.pc = false))
  | .start _ _ _ _ | .die _ => inferInstanceAs (Decidable True)

theorem tracked_reach {policy : IngestionPolicy} {ok : Tracked → LifecycleEvent → Prop}
    {s : Tracked} (h : Reach (trackedSystem policy) ok s) :
    Reach (lifecycleSystem policy) Any s.life := by
  induction h with
  | init hi =>
    rw [show _ = _ from hi]
    exact .init rfl
  | step e _ _ hnext ih =>
    obtain ⟨life, hlife, rfl⟩ := Option.map_eq_some_iff.mp hnext
    exact .step e ih trivial hlife

/-! ## Rows that rest -/

/-- An archived row has the time of its archive, and a completed row has an archive. -/
structure SourceFile.Dated (row : SourceFile) : Prop where
  time : row.archive.isSome = true → row.downloadFinishedAt.isSome = true
  completed : row.status = .completed → row.archive.isSome = true

/-- A row in the selection of every later rebuild. -/
structure SourceFile.Rests (row : SourceFile) : Prop where
  archive : row.archive.isSome = true
  time : row.downloadFinishedAt.isSome = true
  status : row.status = .completed ∨ row.status = .archived

theorem SourceFile.Rests.eligible {row : SourceFile} (h : SourceFile.Rests row) {finishedAt : Time}
    (htime : row.downloadFinishedAt = some finishedAt) {cutoff : Time} (hle : finishedAt ≤ cutoff) :
    Maintenance.eligible cutoff row = true := by
  have hstatus : row.status ∈ [IngestionStatus.completed, .archived] := by
    rcases h.status with hs | hs <;> rw [hs] <;> decide
  simp [Maintenance.eligible, h.archive, htime, hle, hstatus]

section Rows

variable {policy : IngestionPolicy} {s s' : Store} {c c' : Ingest} {pc : Pc}

theorem SourceFile.Dated.change {row row' : SourceFile} (h : SourceFile.Dated row)
    (hchange : RowChange (some row) (some row'))
    (hcompleted : row'.status = .completed → row.status = .completed ∨ row.archive.isSome = true) :
    SourceFile.Dated row' := by
  have harchive : row.archive.isSome = true → row'.archive.isSome = true := hchange.archive
  refine ⟨?_, fun hs => harchive ((hcompleted hs).elim h.completed id)⟩
  cases hchange with
  | keep => exact h.time
  | refresh => exact h.time
  | move => exact h.time
  | attach => exact fun _ => rfl

def Dated (files : Files) : Prop :=
  ∀ f row, files f = some row → SourceFile.Dated row

/-- A change of one row keeps the rows dated if it completes archived files only. -/
theorem Dated.change {files files' : Files} (h : Dated files)
    (hchange : ∀ f, RowChange (files f) (files' f))
    (hcompleted : ∀ f, statusOf files' f = some .completed →
      statusOf files f = some .completed ∨ (archiveOf files f).isSome = true) : Dated files' := by
  intro f row' hrow'
  have hrow := hchange f
  cases hold : files f with
  | none =>
    rw [hold, hrow'] at hrow
    cases hrow
    exact ⟨fun h => (by cases h), fun h => (by cases h)⟩
  | some row =>
    rw [hold, hrow'] at hrow
    refine (h f row hold).change hrow fun hs => ?_
    have hstatus : statusOf files' f = some .completed := by
      rw [statusOf, hrow', Option.map_some, hs]
    rcases hcompleted f hstatus with hdone | harchive
    · rw [statusOf, hold, Option.map_some, Option.some.injEq] at hdone
      exact .inl hdone
    · rw [archiveOf, hold] at harchive
      exact .inr harchive

/-- The file that an operation completes has an archive. -/
theorem archive_of_completes (h : c.Acts s pc s' c') (hfits : pc.Fits (s.files c.file)) {f : FileId}
    (hf : statusOf s'.files f = some .completed) :
    statusOf s.files f = some .completed ∨ (archiveOf s.files f).isSome = true := by
  rcases h.completes hf with hold | ⟨rfl, rfl⟩
  · exact .inl hold
  · obtain ⟨row, hrow, -, harchive⟩ := hfits
    rw [archiveOf, hrow]
    exact .inr harchive

/-- A call of `archive_only` that is about to return a result leaves its row at rest. -/
def Delivers (row : Option SourceFile) (c : Ingest) : Prop :=
  c.archiveOnly = true → ∀ result, c.pc = .release (.result result) →
    ∃ r, row = some r ∧ SourceFile.Rests r

theorem delivers_of_ne {row : Option SourceFile}
    (h : ∀ result, c.pc ≠ .release (.result result)) : Delivers row c :=
  fun _ result hpc => absurd hpc (h result)

theorem Delivers.mono {row row' : Option SourceFile} (h : Delivers row c)
    (hrow : ∀ r, row = some r → row' = some r) : Delivers row' c := by
  intro honly result hpc
  obtain ⟨r, hr, hrests⟩ := h honly result hpc
  exact ⟨r, hrow r hr, hrests⟩

theorem raise_delivers (c : Ingest) (e : Failure) (row : Option SourceFile) :
    Delivers row (c.raise e) := by
  refine delivers_of_ne fun result hpc => ?_
  unfold Ingest.raise at hpc
  split at hpc <;> cases hpc

theorem handle_delivers {e : Failure} (h : c.handle policy e = some c') (row : Option SourceFile) :
    Delivers row c' := by
  unfold Ingest.handle at h
  split at h
  case h_7 | h_8 =>
    cases h
    unfold Ingest.raiseDownload
    split
    · dsimp only
      split
      · exact delivers_of_ne fun result hpc => (by cases hpc)
      · exact raise_delivers c _ row
    · exact raise_delivers c _ row
  case h_9 => cases h
  case h_10 =>
    cases h
    exact raise_delivers c e row
  all_goals
    cases h
    exact delivers_of_ne fun result hpc => (by cases hpc)

/-- The three results of `archive_only`: the row was archived already, its download was recorded,
or it went back from a retryable failure. -/
theorem acts_delivers (h : c.Acts s pc s' c') (hfits : pc.Fits (s.files c.file))
    (hmode : pc.inMode c.archiveOnly = true) (hdated : Dated s.files) :
    Delivers (s'.files c.file) c' := by
  intro honly result hpc
  cases h with
  | register hreg =>
    dsimp only at hpc
    split at hpc <;> cases hpc
  | @refresh files row hreg hrow =>
    dsimp only [Ingest.ensureArchived] at hpc
    rw [show c.archiveOnly = true from honly] at hpc
    simp only [Bool.true_eq_false, false_and, if_false] at hpc
    split at hpc <;> cases hpc
  | @verify seen =>
    obtain ⟨r, hr, hstatus, harchive⟩ := hfits
    dsimp only at hpc
    rw [show c.archiveOnly = true from honly] at hpc
    simp only [Bool.true_eq_false, if_false] at hpc
    split at hpc
    · rename_i hseen
      exact ⟨r, hr, harchive, (hdated _ r hr).time harchive, .inr (hstatus.trans hseen)⟩
    · cases hpc
  | recordArchive hrec =>
    obtain ⟨row, hrow, -, rfl⟩ := recordArchive_eq_ok hrec
    exact ⟨_, Function.update_self _ _ _, rfl, rfl, .inr rfl⟩
  | failed hrow =>
    dsimp only at hpc
    split at hpc <;> cases hpc
  | move hguard hmove =>
    obtain ⟨row, hrow, -, -, rfl⟩ := transition_eq_ok hmove
    cases pc with
    | markArchived =>
      cases hguard
      obtain ⟨r, hr, harchive⟩ := hfits
      cases hrow.symm.trans hr
      exact ⟨_, Function.update_self _ _ _, harchive, (hdated _ _ hr).time harchive, .inr rfl⟩
    | complete =>
      -- Only a call without `archive_only` completes a file.
      rw [show c.archiveOnly = true from honly] at hmode
      cases hmode
    | startDownload | startParsing | finishParsing | startValidating | startApplying =>
      cases hpc
    | recordFailure _ _ => cases hpc
    | _ => cases hguard
  | acquire | download | parse | validate | apply | release => cases hpc

end Rows

/-! ## The lifecycle -/

structure Resting (w : Lifecycle) : Prop where
  dated : Dated w.store.files
  mode : ∀ p c, w.ingests p = some c → c.pc.inMode c.archiveOnly = true
  delivers : ∀ p c, w.ingests p = some c → Delivers (w.store.files c.file) c

section Lifecycle

variable {policy : IngestionPolicy} {w w' : Lifecycle}

theorem Resting.reply (h : Resting w) (hown : w.Owned) {p : ProcessId}
    {r : Reply IngestInput Fault} (hw : w.reply policy p r = some w') : Resting w' := by
  have hrows := Lifecycle.reply_row hw
  obtain ⟨c, store, c', hc, hstep, rfl⟩ := Lifecycle.reply_eq_some hw
  have hsame := Ingest.step_same hstep
  have hfile : c'.file = c.file := congrArg RemoteFile.fileId hsame.remote
  refine ⟨?_, ?_, ?_⟩
  · refine h.dated.change hrows ?_
    rw [Store.afterStep_files]
    intro f hf
    rcases Program.step_durable hstep with rfl | ⟨i, next, hact⟩
    · exact .inl hf
    · exact archive_of_completes (Ingest.acts_of_act hact) (hown.fits p c hc) hf
  · intro q d hd
    rcases update_some_eq_some hd with ⟨rfl, rfl⟩ | ⟨-, hd⟩
    · exact Ingest.step_inMode hstep (h.mode q c hc)
    · exact h.mode q d hd
  · intro q d hd
    rw [Store.afterStep_files]
    rcases update_some_eq_some hd with ⟨rfl, rfl⟩ | ⟨hq, hd⟩
    · rw [hfile]
      refine Program.step_local (J := fun s c' => Delivers (s.files c.file) c') hstep ?_ ?_ ?_
      · exact fun i next hact => acts_delivers (Ingest.acts_of_act hact) (hown.fits q c hc)
          (h.mode q c hc) h.dated
      · exact fun e he _ => handle_delivers he _
      · exact fun i f next _ he => handle_delivers he _
    · cases hdl : d.pc.locked with
      | false =>
        refine delivers_of_ne fun result hpc => ?_
        rw [hpc] at hdl
        cases hdl
      | true => exact (h.delivers q d hd).mono (hown.row_kept hc hd hq hdl hstep)

theorem Resting.next (h : Resting w) (hown : w.Owned) {e : LifecycleEvent}
    (hw : w.next policy e = some w') : Resting w' := by
  cases e with
  | start p remote archiveOnly limit =>
    obtain ⟨-, rfl⟩ := Lifecycle.start_eq_some hw
    refine ⟨h.dated, ?_, ?_⟩
    · intro q d hd
      rcases update_some_eq_some hd with ⟨rfl, rfl⟩ | ⟨-, hd⟩
      · rfl
      · exact h.mode q d hd
    · intro q d hd
      rcases update_some_eq_some hd with ⟨rfl, rfl⟩ | ⟨-, hd⟩
      · exact delivers_of_ne fun result hpc => (by cases hpc)
      · exact h.delivers q d hd
  | reply p r => exact h.reply hown hw
  | die p =>
    cases hw
    have hold : ∀ q d, (w.die p).ingests q = some d → w.ingests q = some d := by
      intro q d hd
      rw [Lifecycle.die_ingests] at hd
      split at hd
      · cases hd
      · exact hd
    refine ⟨?_, fun q d hd => h.mode q d (hold q d hd), fun q d hd => ?_⟩
    · rw [Lifecycle.die_files]
      exact h.dated
    · rw [Lifecycle.die_files]
      exact h.delivers q d (hold q d hd)
  | recover f =>
    have hrows := Lifecycle.next_row hw
    obtain ⟨hfree, row, hrow, -, rfl⟩ := Lifecycle.recover_eq_some hw
    refine ⟨h.dated.change hrows ?_, h.mode, ?_⟩
    · intro g hg
      by_cases hgf : g = f
      · subst hgf
        simp [statusOf] at hg
      · refine .inl ?_
        rw [← hg]
        exact (congrArg (Option.map _) (Function.update_of_ne hgf _ _)).symm
    · intro q d hd honly result hpc
      have hfile : d.file ≠ f := by
        intro hfile
        have hlock := hown.locked q d hd (by rw [hpc]; rfl)
        rw [hfile, hfree] at hlock
        cases hlock
      obtain ⟨r, hr, hrests⟩ := h.delivers q d hd honly result hpc
      exact ⟨r, (Function.update_of_ne hfile _ _).trans hr, hrests⟩

theorem lifecycle_resting (h : Reach (lifecycleSystem policy) Any w) : Resting w := by
  refine h.invariant_of (P := Resting) ?_ ?_
  · intro s hs
    rw [show s = .empty from hs]
    exact ⟨fun _ _ h => (by cases h), fun _ _ h => (by cases h), fun _ _ h => (by cases h)⟩
  · exact fun s e s' hreach hrest _ hnext => hrest.next (lifecycle_owned hreach) hnext

theorem handle_not_result {c c' : Ingest} {e : Failure} (h : c.handle policy e = some c')
    (result : IngestionResult) : c'.pc ≠ .returned (.result result) := by
  have hraise : ∀ e : Failure, (c.raise e).pc ≠ .returned (.result result) := by
    intro e hpc
    unfold Ingest.raise at hpc
    split at hpc <;> cases hpc
  unfold Ingest.handle at h
  split at h
  case h_7 | h_8 =>
    cases h
    unfold Ingest.raiseDownload
    split
    · dsimp only
      split
      · exact Pc.noConfusion
      · exact hraise _
    · exact hraise _
  case h_9 => cases h
  case h_10 =>
    cases h
    exact hraise e
  case h_1 | h_2 | h_3 =>
    cases h
    intro hpc
    cases hpc
  all_goals
    cases h
    exact Pc.noConfusion

/-- A call returns a result at once for a completed file, or by giving back its lock. -/
theorem acts_result {s s' : Store} {c c' : Ingest} {pc : Pc} (h : c.Acts s pc s' c')
    {result : IngestionResult} (hpc : c'.pc = .returned (.result result)) :
    statusOf s'.files c.file = some .completed ∨ (pc = .release (.result result) ∧ s' = s) := by
  cases h with
  | register hreg =>
    dsimp only at hpc
    split at hpc
    · rename_i hdone
      exact .inl hdone
    · cases hpc
  | @refresh files row hreg hrow =>
    dsimp only [Ingest.ensureArchived] at hpc
    split at hpc
    · cases hpc
    · split at hpc <;> cases hpc
  | verify =>
    dsimp only at hpc
    split at hpc
    · cases hpc
    · split at hpc <;> cases hpc
  | recordArchive hrec =>
    dsimp only at hpc
    split at hpc <;> cases hpc
  | failed hrow =>
    dsimp only at hpc
    split at hpc <;> cases hpc
  | release =>
    cases hpc
    exact .inr ⟨rfl, rfl⟩
  | move hguard hmove => cases pc <;> first | (cases hpc; done) | cases hguard
  | acquire | download | parse | validate | apply => cases hpc

/-- The file of a call of `archive_only` that has just returned a result is at rest. -/
theorem rests_of_succeeded (hrest : Resting w) (hown : w.Owned) {p : ProcessId}
    {r : Reply IngestInput Fault} (hw : w.reply policy p r = some w') {f : FileId}
    (hf : f ∈ succeededBy w' (.reply p r)) :
    ∃ row, w'.store.files f = some row ∧ SourceFile.Rests row := by
  have hnew := hrest.reply hown hw
  obtain ⟨c, store, c', hc, hstep, rfl⟩ := Lifecycle.reply_eq_some hw
  have hsame := Ingest.step_same hstep
  have hfile : c'.file = c.file := congrArg RemoteFile.fileId hsame.remote
  obtain ⟨rfl, honly, result, hpc⟩ : f = c.file ∧ c.archiveOnly = true ∧
      ∃ result, c'.pc = .returned (.result result) := by
    simp only [succeededBy, Function.update_self] at hf
    split at hf
    · rename_i owner remote limit transferred result heq
      cases heq
      exact ⟨(List.mem_singleton.mp hf).trans hfile, hsame.archiveOnly.symm, result, rfl⟩
    · cases hf
  have hdated : Dated store.files := by
    rw [← Store.afterStep_files store c']
    exact hnew.dated
  show ∃ row, (store.afterStep c').files c.file = some row ∧ SourceFile.Rests row
  rw [Store.afterStep_files]
  rcases Program.step_cases hstep with ⟨i, -, hact⟩ | ⟨e, he, -⟩ | ⟨i, g, next, -, -, he⟩
  · rcases acts_result (Ingest.acts_of_act hact) hpc with hdone | ⟨hrelease, rfl⟩
    · obtain ⟨row, hrow, hstatus⟩ := Option.map_eq_some_iff.mp hdone
      have hrowDated := hdated _ row hrow
      have harchive := hrowDated.completed hstatus
      exact ⟨row, hrow, harchive, hrowDated.time harchive, .inl hstatus⟩
    · exact hrest.delivers p c hc honly result hrelease
  · exact absurd hpc (handle_not_result he result)
  · exact absurd hpc (handle_not_result he result)

end Lifecycle

/-! ## Runs -/

/-- What a run at rest keeps. -/
structure Tracked.Kept (s : Tracked) : Prop where
  rests : ∀ f ∈ s.succeeded, ∃ row, s.life.store.files f = some row ∧ row.archive.isSome = true ∧
    (f ∈ s.spoiled ∨ row.status = .completed ∨ row.status = .archived)
  spoiled : ∀ f ∈ s.spoiled, statusOf s.life.store.files f = some .quarantined ∨
    statusOf s.life.store.files f = some .failedTerminal

section Kept

variable {policy : IngestionPolicy} {s s' : Tracked} {e : LifecycleEvent}

/-- The operations that move an archived row. -/
theorem acts_archived {t t' : Store} {c c' : Ingest} {pc : Pc} (h : c.Acts t pc t' c')
    (hstatus : statusOf t.files c.file = some .archived) :
    statusOf t'.files c.file = some .archived ∨
      (pc = .startParsing ∧ statusOf t'.files c.file = some .parsing) ∨
      ∃ e, pc = .recordFailure e .archived ∧
        statusOf t'.files c.file = some (failureTarget .archived e) := by
  cases h with
  | register hreg => exact .inl (registerDiscovery_statusOf hreg hstatus)
  | refresh hreg hrow => exact .inl (registerDiscovery_statusOf hreg hstatus)
  | recordArchive hrec =>
    obtain ⟨row, -, -, rfl⟩ := recordArchive_eq_ok hrec
    refine .inl ?_
    simp [statusOf]
  | @move _ expected target files hguard hmove =>
    obtain ⟨row, hrow, hexpected, -, rfl⟩ := transition_eq_ok hmove
    have harchived : row.status = .archived := by
      rw [statusOf, hrow, Option.map_some, Option.some.injEq] at hstatus
      exact hstatus
    have hnew : statusOf (Function.update t.files c.file (some { row with status := target }))
        c.file = some target := by
      rw [statusOf, Function.update_self, Option.map_some]
    rw [harchived] at hexpected
    cases pc with
    | startParsing =>
      cases hguard
      exact .inr (.inl ⟨rfl, hnew⟩)
    | recordFailure e seen =>
      cases hguard
      cases List.mem_singleton.mp hexpected
      exact .inr (.inr ⟨e, rfl, hnew⟩)
    | startDownload | finishParsing | startValidating | startApplying | complete | markArchived =>
      cases hguard
      exact absurd hexpected (by decide)
    | _ => cases hguard
  | _ => exact .inl hstatus

theorem mem_spoiledBy {life life' : Lifecycle} {p : ProcessId} {r : Reply IngestInput Fault}
    {f : FileId} : f ∈ spoiledBy life life' (.reply p r) ↔
      ∃ c failure seen, life.ingests p = some c ∧ c.archiveOnly = false ∧
        c.pc = .recordFailure failure seen ∧ f = c.file ∧ onContent failure.kind = true ∧
        statusOf life'.store.files f = some (failureTarget seen failure) := by
  constructor
  · intro h
    simp only [spoiledBy] at h
    split at h
    · rename_i owner remote limit transferred failure seen heq
      split at h
      · rename_i hcond
        cases List.mem_singleton.mp h
        exact ⟨_, failure, seen, heq, rfl, rfl, rfl, hcond⟩
      · cases h
    · cases h
  · rintro ⟨⟨owner, remote, archiveOnly, limit, transferred, pc⟩, failure, seen, hc, rfl, rfl, rfl,
      hcond⟩
    simp only [spoiledBy, hc]
    split
    · exact List.mem_singleton_self _
    · rename_i hnot
      exact absurd hcond hnot

theorem status_of_spoiled {life life' : Lifecycle} {f : FileId} (h : f ∈ spoiledBy life life' e) :
    statusOf life'.store.files f = some .quarantined ∨
      statusOf life'.store.files f = some .failedTerminal := by
  cases e with
  | reply p r =>
    obtain ⟨c, failure, seen, -, -, -, -, hcontent, hstatus⟩ := mem_spoiledBy.mp h
    rw [hstatus, Option.some.injEq, Option.some.injEq]
    exact failureTarget_of_onContent hcontent seen
  | _ => cases h

/-- A final status stays. -/
theorem status_kept_of_final {life life' : Lifecycle} (hnext : life.next policy e = some life')
    {f : FileId} {status : IngestionStatus} (hs : statusOf life.store.files f = some status)
    (hfinal : status.isFinal = true) : statusOf life'.store.files f = some status :=
  (Lifecycle.next_row hnext f).final hs hfinal

/-- The awaited operation of a committed step spoils its archived file or leaves it archived, if
the step is at rest. -/
theorem archived_kept {life' : Lifecycle} (hok : AtRest s e)
    (hnext : s.life.next policy e = some life') {f : FileId} (hf : f ∈ s.succeeded)
    (hs : statusOf s.life.store.files f = some .archived) :
    statusOf life'.store.files f = some .archived ∨ f ∈ spoiledBy s.life life' e := by
  cases e with
  | start p remote archiveOnly limit =>
    obtain ⟨-, rfl⟩ := Lifecycle.start_eq_some hnext
    exact .inl hs
  | die p =>
    cases hnext
    rw [Lifecycle.die_files]
    exact .inl hs
  | recover g =>
    obtain ⟨-, row, hrow, -, rfl⟩ := Lifecycle.recover_eq_some hnext
    have hne : f ≠ g := fun hfg => hok (hfg ▸ hf)
    refine .inl ?_
    rw [← hs]
    exact congrArg (Option.map _) (Function.update_of_ne hne _ _)
  | reply p r =>
    obtain ⟨c, store, c', hc, hstep, rfl⟩ := Lifecycle.reply_eq_some hnext
    show statusOf (store.afterStep c').files f = some .archived ∨ _
    rw [Store.afterStep_files]
    by_cases hraise : r.isRaise = true
    · cases r with
      | raise fault =>
        obtain ⟨_, -, heq⟩ := Option.map_eq_some_iff.mp hstep
        cases heq
        exact .inl hs
      | _ => cases hraise
    · rcases Program.step_durable hstep with rfl | ⟨i, next, hact⟩
      · exact .inl hs
      · have hacts := Ingest.acts_of_act hact
        by_cases hfile : f = c.file
        · subst hfile
          have hleaves := hok (Bool.eq_false_iff.mpr hraise) c hc hf hs
          rcases acts_archived hacts hs with hkept | ⟨hpc, -⟩ | ⟨failure, hpc, hnew⟩
          · exact .inl hkept
          · rw [hpc] at hleaves
            cases hleaves
          · rw [hpc] at hleaves
            obtain ⟨honly, hcontent⟩ := Bool.or_eq_false_iff.mp hleaves
            refine .inr (mem_spoiledBy.mpr ⟨c, failure, .archived, hc, honly, hpc, rfl, ?_, ?_⟩)
            · simpa using hcontent
            · exact (congrArg (fun files => statusOf files c.file)
                (Store.afterStep_files store c')).trans hnew
        · refine .inl ?_
          rw [statusOf, hacts.change.2 f hfile]
          exact hs

theorem Tracked.Kept.next (h : s.Kept) (hrest : Resting s.life) (hown : s.life.Owned)
    (hok : AtRest s e) (hnext : s.next policy e = some s') : s'.Kept := by
  obtain ⟨life, hlife, rfl⟩ := Option.map_eq_some_iff.mp hnext
  refine ⟨?_, ?_⟩
  · intro f hf
    rcases List.mem_append.mp hf with hnew | hold
    · cases e with
      | reply p r =>
        obtain ⟨row, hrow, hrests⟩ := rests_of_succeeded hrest hown hlife hnew
        exact ⟨row, hrow, hrests.archive, .inr hrests.status⟩
      | _ => cases hnew
    · obtain ⟨row, hrow, harchive, hcase⟩ := h.rests f hold
      have hkept : (archiveOf life.store.files f).isSome = true := by
        refine (Lifecycle.next_row hlife f).archive ?_
        rw [hrow]
        exact harchive
      have hstatus : statusOf s.life.store.files f = some row.status := statusOf_of_row hrow
      cases hrow' : life.store.files f with
      | none =>
        rw [archiveOf, hrow'] at hkept
        cases hkept
      | some row' =>
        have hstatus' : statusOf life.store.files f = some row'.status := statusOf_of_row hrow'
        rw [archiveOf, hrow'] at hkept
        refine ⟨row', rfl, hkept, ?_⟩
        rcases hcase with hspoiled | hcompleted | harchived
        · exact .inl (List.mem_append_right _ hspoiled)
        · rw [hcompleted] at hstatus
          have hfinal := status_kept_of_final hlife hstatus rfl
          rw [hstatus', Option.some.injEq] at hfinal
          exact .inr (.inl hfinal)
        · rw [harchived] at hstatus
          rcases archived_kept hok hlife hold hstatus with hsame | hspoiled
          · rw [hstatus', Option.some.injEq] at hsame
            exact .inr (.inr hsame)
          · exact .inl (List.mem_append_left _ hspoiled)
  · intro f hf
    rcases List.mem_append.mp hf with hnew | hold
    · exact status_of_spoiled hnew
    · rcases h.spoiled f hold with hs | hs
      · exact .inl (status_kept_of_final hlife hs rfl)
      · exact .inr (status_kept_of_final hlife hs rfl)

theorem tracked_kept (h : Reach (trackedSystem policy) AtRest s) : s.Kept := by
  refine h.invariant_of (P := Tracked.Kept) ?_ ?_
  · intro s hs
    rw [show s = _ from hs]
    exact ⟨fun f hf => (by cases hf), fun f hf => (by cases hf)⟩
  · intro s e s' hreach hkept hok hnext
    have hlife := tracked_reach hreach
    exact hkept.next (lifecycle_resting hlife) (lifecycle_owned hlife) hok hnext

theorem Tracked.Kept.staysEligible (h : s.Kept) (hrest : Resting s.life) : s.StaysEligible := by
  intro f hf
  obtain ⟨row, hrow, harchive, hcase⟩ := h.rests f hf
  have htime := (hrest.dated f row hrow).time harchive
  obtain ⟨finishedAt, hfinished⟩ := Option.isSome_iff_exists.mp htime
  refine ⟨row, finishedAt, hrow, hfinished, ?_⟩
  rcases hcase with hspoiled | hstatus
  · refine .inr ⟨hspoiled, ?_⟩
    have hfinal := h.spoiled f hspoiled
    rw [statusOf_of_row hrow, Option.some.injEq, Option.some.injEq] at hfinal
    exact hfinal
  · refine .inl fun cutoff hle => ?_
    exact SourceFile.Rests.eligible ⟨harchive, htime, hstatus⟩ hfinished hle

/-- A row that is neither completed nor archived is in no selection. -/
theorem not_staysEligible {f : FileId} {status : IngestionStatus} (hf : f ∈ s.succeeded)
    (hspoiled : f ∉ s.spoiled) (hs : statusOf s.life.store.files f = some status)
    (hout : status ∉ [IngestionStatus.completed, .archived]) : ¬ s.StaysEligible := by
  intro hall
  obtain ⟨row, finishedAt, hrow, -, hcase⟩ := hall f hf
  rw [statusOf_of_row hrow, Option.some.injEq] at hs
  rcases hcase with heligible | ⟨hin, -⟩
  · have hnow := heligible finishedAt (le_refl _)
    simp only [eligible, Bool.and_eq_true, decide_eq_true_eq] at hnow
    exact hout (hs ▸ hnow.2)
  · exact hspoiled hin

/-- A committed transition leaves its target. -/
theorem acts_guard {t t' : Store} {c c' : Ingest} {pc : Pc} {expected : List IngestionStatus}
    {target : IngestionStatus} (h : c.Acts t pc t' c')
    (hguard : pc.guard = some (expected, target)) : statusOf t'.files c.file = some target := by
  cases h with
  | move hguard' hmove =>
    cases hguard.symm.trans hguard'
    obtain ⟨row, -, -, -, rfl⟩ := transition_eq_ok hmove
    simp [statusOf]
  | _ => cases hguard

/-- The transition that takes an archived row out of the selection. -/
theorem guard_of_leaves {archiveOnly : Bool} {pc : Pc} (h : leavesArchived archiveOnly pc = true)
    {row : Option SourceFile} (hfits : pc.Fits row)
    (hs : row.map SourceFile.status = some .archived) :
    ∃ expected target, pc.guard = some (expected, target) ∧ .archived ∈ expected ∧
      target ∈ IngestionStatus.archived.allowed ∧
      target ∉ [IngestionStatus.completed, .archived] := by
  cases pc with
  | startParsing => exact ⟨_, _, rfl, by decide, by decide, by decide⟩
  | recordFailure e seen =>
    obtain ⟨r, rfl, hseen⟩ := hfits
    have harchived : r.status = .archived := Option.some.inj hs
    refine ⟨_, _, rfl, ?_, ?_⟩
    · rw [← hseen, harchived]
      exact List.mem_singleton_self _
    · unfold failureTarget
      split
      · decide
      · split <;> decide
  | _ => cases h

/-- A step that is not at rest takes its file out of the selection. -/
theorem leaves_selection (hkept : s.Kept) (hown : s.life.Owned) (hnot : ¬ AtRest s e)
    (hnext : s.next policy e = some s') : ¬ s'.StaysEligible := by
  obtain ⟨life, hlife, rfl⟩ := Option.map_eq_some_iff.mp hnext
  -- A file that is still active has not been spoiled.
  have hclean : ∀ {f : FileId} {status : IngestionStatus},
      statusOf s.life.store.files f = some status → status.isFinal = false → f ∉ s.spoiled := by
    intro f status hs hfinal hspoiled
    rcases hkept.spoiled f hspoiled with hbad | hbad
    all_goals
      rw [hs, Option.some.injEq] at hbad
      rw [hbad] at hfinal
      cases hfinal
  cases e with
  | start p remote archiveOnly limit => exact absurd trivial hnot
  | die p => exact absurd trivial hnot
  | recover f =>
    have hf : f ∈ s.succeeded := Classical.not_not.mp hnot
    obtain ⟨-, row, hrow, hactive, rfl⟩ := Lifecycle.recover_eq_some hlife
    have hfinal : row.status.isFinal = false := by
      generalize row.status = status at hactive
      revert hactive
      cases status <;> decide
    refine @not_staysEligible _ f .failedRetryable (List.mem_append_right _ hf) ?_ ?_ (by decide)
    · exact fun hspoiled => hclean (statusOf_of_row hrow) hfinal hspoiled
    · simp [statusOf]
  | reply p r =>
    simp only [AtRest, Classical.not_imp, not_forall] at hnot
    obtain ⟨hraise, c, hc, hf, hs, hleaves⟩ := hnot
    have hleaves : leavesArchived c.archiveOnly c.pc = true := by simpa using hleaves
    obtain ⟨expected, target, hguard, hexpected, hallowed, hout⟩ :=
      guard_of_leaves hleaves (hown.fits p c hc) hs
    have hnew : statusOf life.store.files c.file = some target := by
      obtain ⟨d, store, d', hd, hstep, rfl⟩ := Lifecycle.reply_eq_some hlife
      cases hc.symm.trans hd
      show statusOf (store.afterStep d').files c.file = some target
      rw [Store.afterStep_files]
      rcases Program.step_cases hstep with
        ⟨i, -, hact⟩ | ⟨failure, -, -, hwhy⟩ | ⟨i, fault, next, -, hact, -⟩
      · exact acts_guard (Ingest.acts_of_act hact) hguard
      · -- The transition neither raises nor is refused.
        rcases hwhy with ⟨i, -, hact⟩ | ⟨fault, rfl, -⟩
        · obtain ⟨row, hrow, hstatus⟩ := Option.map_eq_some_iff.mp hs
          refine absurd hact (Ingest.act_guarded hguard hrow ?_ ?_ i failure)
          · rwa [hstatus]
          · rwa [hstatus]
        · cases hraise
      · exact acts_guard (Ingest.acts_of_act hact) hguard
    refine not_staysEligible (List.mem_append_right _ hf) ?_ hnew hout
    intro hspoiled
    rcases List.mem_append.mp hspoiled with hnow | hbefore
    · obtain ⟨d, failure, seen, hd, honly, hpc, -, hcontent, -⟩ := mem_spoiledBy.mp hnow
      cases hc.symm.trans hd
      rw [hpc] at hleaves
      simp [leavesArchived, honly, hcontent] at hleaves
    · exact hclean hs rfl hbefore

end Kept

/-- Over every run of archive-only and ordinary calls, deaths and recoveries that leaves the files at
rest whose `archive_only` has succeeded: every later rebuild selects them, unless an ordinary ingest
quarantined them or failed them for good on their content. A step that does not leave them at rest
takes one of them out of the selection. -/
theorem archived_stays_eligible (policy : IngestionPolicy) :
    (∀ s, Reach (trackedSystem policy) AtRest s → s.StaysEligible) ∧
      ∀ s e s', Reach (trackedSystem policy) AtRest s → s.next policy e = some s' →
        (s'.StaysEligible ↔ AtRest s e) := by
  have hrun : ∀ s, Reach (trackedSystem policy) AtRest s → s.StaysEligible := by
    intro s h
    exact (tracked_kept h).staysEligible (lifecycle_resting (tracked_reach h))
  refine ⟨hrun, fun s e s' h hnext => ⟨fun hstays => ?_, fun hok => ?_⟩⟩
  · by_contra hnot
    exact leaves_selection (tracked_kept h) (lifecycle_owned (tracked_reach h)) hnot hnext hstays
  · exact hrun s' (.step e h hok hnext)

/-- A call of `archive_only`, up to its return. -/
def archiveOnlyEvents (remote : RemoteFile) (sha : String) : List LifecycleEvent :=
  .start 0 remote true none ::
    (plainReplies 4 ++ .ok (.downloaded ⟨sha, 10⟩ 10 200) :: plainReplies 2).map (.reply 0)

/-- An ordinary call up to the transition to parsing, where it dies. -/
def unparsedEvents : List LifecycleEvent :=
  .start 1 sampleRemote false none :: (plainReplies 4).map (.reply 1) ++ [.die 1]

/-- An ordinary call that finds the archived bytes changed. -/
def changedArchiveEvents : List LifecycleEvent :=
  .start 1 laterRemote false none :: (plainReplies 3).map (.reply 1) ++
    .reply 1 (.raise ⟨.archiveIntegrity, "archived bytes do not match"⟩) ::
      (plainReplies 3).map (.reply 1)

/-- A third file whose download dies and is recovered. -/
def recoveredEvents : List LifecycleEvent :=
  .start 1 { sampleRemote with fileId := 3 } false none :: (plainReplies 4).map (.reply 1) ++
    [.die 1, .recover 3]

/-- Two archived files, with later calls of both and the recovery of another one. -/
def restingEvents : List LifecycleEvent :=
  archiveOnlyEvents sampleRemote "aa" ++ archiveOnlyEvents laterRemote "bb" ++ unparsedEvents ++
    changedArchiveEvents ++ recoveredEvents

theorem archived_stays_eligible_sample :
    Tracked.StaysEligible
        ((trackedSystem ⟨4⟩).afterChecked AtRest ⟨.empty, [], []⟩ restingEvents) ∧
      ((trackedSystem ⟨4⟩).afterChecked AtRest ⟨.empty, [], []⟩ restingEvents).succeeded = [2, 1] ∧
      ((trackedSystem ⟨4⟩).afterChecked AtRest ⟨.empty, [], []⟩ restingEvents).spoiled = [2] ∧
      statusOf ((trackedSystem ⟨4⟩).afterChecked AtRest ⟨.empty, [], []⟩
        restingEvents).life.store.files 1 = some .archived := by
  refine ⟨(archived_stays_eligible ⟨4⟩).1 _ (reach_afterChecked _ rfl ?_), by decide +kernel,
    by decide +kernel, by decide +kernel⟩
  decide +kernel

/-- The stale-job recovery takes an archive-only file for an interrupted ingest. -/
theorem recovered_archive_leaves_selection :
    ¬ ∀ s, Reach (trackedSystem ⟨4⟩) Any s → s.StaysEligible := by
  intro hall
  have hrun : ((trackedSystem ⟨4⟩).run ⟨.empty, [], []⟩
      (archiveOnlyEvents sampleRemote "aa" ++ [.recover 1])).isSome = true := by
    decide +kernel
  have hstays := hall _ (reach_after _ rfl hrun)
  refine absurd hstays (@not_staysEligible _ 1 .failedRetryable ?_ ?_ ?_ (by decide))
  · decide +kernel
  · decide +kernel
  · decide +kernel

end Makolet.Maintenance
