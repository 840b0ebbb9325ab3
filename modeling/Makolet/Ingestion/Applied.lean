import Makolet.Ingestion.Resume
import Makolet.Normalized.Watermarks

/-!
# Applied files and their status

The apply transaction and the transition to `completed` commit one after the other. In between, the
records of the file are live and its claim stands in `applied_source_contents`, while its status is
still `applying`. `applied_completed` says that nothing else separates the two: in every run in
which no ingest stops or fails in that gap, an applied file is completed as soon as no ingest of it
is in progress.

`applied_file_quarantined` is a run through the gap: the ingest of a file dies there, a newer file
of the same scope is applied, and the retry of the first meets the ordering quarantine.
-/

set_option autoImplicit false

namespace Makolet.Ingestion

open Makolet.Domain Makolet.Lib Makolet.Normalized

/-! ## Claims -/

/-- An apply claims its own file and leaves every other claim alone. -/
theorem claimOf_apply {r : ApplyRequest} {t t' : Tables} {summary : ApplySummary}
    (h : Normalized.apply r t = .ok (t', summary)) {f : FileId} (hf : f ≠ r.sourceFileId) :
    claimOf t' f = claimOf t f := by
  rw [claimOf, apply_appliedContents h]
  unfold claimContent
  split
  · rfl
  · rw [Table.lookup_append, Table.lookup_cons, if_neg (Ne.symm hf), Table.lookup_nil,
      Option.or_none]
    rfl

/-! ## The gap -/

/-- An ingest of the file holds its lock. -/
def InProgress (w : Lifecycle) (f : FileId) : Prop :=
  ∃ p c, w.ingests p = some c ∧ c.file = f ∧ c.pc.locked = true

/-- An applied file is completed once no ingest of it is in progress. -/
def AppliedCompleted (w : Lifecycle) : Prop :=
  ∀ f, (claimOf w.store.tables f).isSome = true → ¬ InProgress w f →
    statusOf w.store.files f = some .completed

/-- An applied file is completed, or may still become so, once no ingest of it is in progress. -/
def AppliedResumable (w : Lifecycle) : Prop :=
  ∀ f, (claimOf w.store.tables f).isSome = true → ¬ InProgress w f →
    statusOf w.store.files f = some .completed ∨ statusOf w.store.files f = some .failedRetryable

/-- The side condition of a step: between the commit of an apply and the commit of the completion
no ingest dies, is cancelled or meets an exception. -/
def ClosesGap (w : Lifecycle) : LifecycleEvent → Prop
  | .reply p r => ∀ c ∈ w.ingests p,
    (c.pc = .complete → r.isRaise = false) ∧ (c.pc = .apply → r.isLost = false)
  | .die p => ∀ c ∈ w.ingests p, c.pc ≠ .complete
  | _ => True

instance (w : Lifecycle) (e : LifecycleEvent) : Decidable (ClosesGap w e) :=
  match e with
  | .reply p r => inferInstanceAs (Decidable (∀ c ∈ w.ingests p,
      (c.pc = .complete → r.isRaise = false) ∧ (c.pc = .apply → r.isLost = false)))
  | .die p => inferInstanceAs (Decidable (∀ c ∈ w.ingests p, c.pc ≠ .complete))
  | .start _ _ _ _ | .recover _ => inferInstanceAs (Decidable True)

/-- A claimed file is completed, or an ingest of it is about to complete it. -/
def ClaimsCompleting (w : Lifecycle) : Prop :=
  ∀ f, (claimOf w.store.tables f).isSome = true → statusOf w.store.files f = some .completed ∨
    ∃ p c, w.ingests p = some c ∧ c.file = f ∧ c.pc = .complete

section Step

variable {policy : IngestionPolicy} {w w' : Lifecycle}

/-- An operation other than an apply leaves the normalized tables alone. -/
theorem Ingest.Acts.tables {s s' : Store} {c c' : Ingest} {pc : Pc} (h : c.Acts s pc s' c')
    (hpc : pc ≠ .apply) : s'.tables = s.tables := by
  cases h with
  | apply => exact absurd rfl hpc
  | _ => rfl

theorem Ingest.Acts.completed {s s' : Store} {c c' : Ingest} (h : c.Acts s .complete s' c') :
    statusOf s'.files c.file = some .completed := by
  cases h with
  | move hguard hmove =>
    cases hguard
    obtain ⟨row, -, -, -, rfl⟩ := transition_eq_ok hmove
    show (Function.update s.files c.file _ c.file).map SourceFile.status = _
    rw [Function.update_self]
    rfl

theorem ClaimsCompleting.reply (h : ClaimsCompleting w) (hown : w.Owned) {p : ProcessId}
    {r : Reply IngestInput Fault} (hok : ClosesGap w (.reply p r))
    (hw : w.reply policy p r = some w') : ClaimsCompleting w' := by
  have hrow := Lifecycle.reply_row hw
  obtain ⟨c, store, c', hc, hstep, rfl⟩ := Lifecycle.reply_eq_some hw
  have hfile : c'.file = c.file := congrArg RemoteFile.fileId (Ingest.step_same hstep).remote
  obtain ⟨hcomplete, happly⟩ := hok c hc
  -- A claim that stood before the step, and is not of a file that this step completes.
  have hold : ∀ f, (claimOf w.store.tables f).isSome = true →
      (c.pc = .complete → f = c.file → statusOf store.files f = some .completed) →
      statusOf store.files f = some .completed ∨ ∃ q d,
        Function.update w.ingests p (some c') q = some d ∧ d.file = f ∧ d.pc = .complete := by
    intro f hf hself
    rcases h f hf with hdone | ⟨q, d, hd, hdf, hpc⟩
    · left
      have hfinal := (hrow f).final hdone rfl
      rw [Store.afterStep_files] at hfinal
      exact hfinal
    · by_cases hq : q = p
      · subst hq
        cases hc.symm.trans hd
        exact .inl (hself hpc hdf.symm)
      · exact .inr ⟨q, d, by rw [Function.update_of_ne hq]; exact hd, hdf, hpc⟩
  intro f hf
  rw [Store.afterStep_tables] at hf
  rw [Store.afterStep_files]
  rcases Program.step_cases hstep with ⟨i, -, hact⟩ | ⟨e, he, rfl, hwhy⟩ | ⟨i, g, next, hr, hact, he⟩
  · have hacts := Ingest.acts_of_act hact
    by_cases happ : c.pc = .apply
    · rw [happ] at hacts
      cases hacts with
      | @apply row input tables summary hrow' happlied =>
        by_cases hff : f = c.file
        · exact .inr ⟨p, _, Function.update_self _ _ _, hff.symm, rfl⟩
        · rw [claimOf_apply happlied hff] at hf
          exact hold f hf fun hpc => by rw [happ] at hpc; cases hpc
      | move hguard => cases hguard
    · rw [hacts.tables happ] at hf
      refine hold f hf fun hpc hff => ?_
      rw [hpc] at hacts
      rw [hff]
      exact hacts.completed
  · refine hold f hf fun hpc hff => ?_
    -- The completion neither raises nor is refused.
    rcases hwhy with ⟨i, -, hact⟩ | ⟨g, hraise, -⟩
    · obtain ⟨row, hrow', hstatus, -⟩ := show Pc.Fits _ Pc.complete from hpc ▸ hown.fits p c hc
      refine absurd hact (Ingest.act_guarded (congrArg Pc.guard hpc) hrow' ?_ ?_ i e)
      · exact List.mem_singleton.mpr hstatus
      · rw [hstatus]
        decide
    · rw [hraise] at hcomplete
      cases hcomplete hpc
  · have hacts := Ingest.acts_of_act hact
    have happ : c.pc ≠ .apply := by
      intro hpc
      rw [hr] at happly
      cases happly hpc
    rw [hacts.tables happ] at hf
    refine hold f hf fun hpc hff => ?_
    rw [hpc] at hacts
    rw [hff]
    exact hacts.completed

/-- Every admitted event keeps the claims completing. -/
theorem ClaimsCompleting.next (h : ClaimsCompleting w) (hown : w.Owned) {e : LifecycleEvent}
    (hok : ClosesGap w e) (hw : w.next policy e = some w') : ClaimsCompleting w' := by
  cases e with
  | start p remote archiveOnly limit =>
    obtain ⟨hidle, rfl⟩ := Lifecycle.start_eq_some hw
    intro f hf
    rcases h f hf with hdone | ⟨q, d, hd, hdf, hpc⟩
    · exact .inl hdone
    · refine .inr ⟨q, d, ?_, hdf, hpc⟩
      -- The starting process was idle, so it is not the completing one.
      by_cases hq : q = p
      · subst hq
        obtain ⟨outcome, hreturned⟩ := hidle d hd
        rw [hpc] at hreturned
        cases hreturned
      · show Function.update w.ingests p _ q = some d
        rw [Function.update_of_ne hq]
        exact hd
  | reply p r => exact h.reply hown hok hw
  | die p =>
    cases hw
    intro f hf
    rw [Lifecycle.die_tables] at hf
    rw [Lifecycle.die_files]
    rcases h f hf with hdone | ⟨q, d, hd, hdf, hpc⟩
    · exact .inl hdone
    · refine .inr ⟨q, d, ?_, hdf, hpc⟩
      rw [Lifecycle.die_ingests, if_neg]
      · exact hd
      · intro hq
        subst hq
        exact hok d hd hpc
  | recover g =>
    have hrow := Lifecycle.recover_row hw
    obtain ⟨-, row, -, -, rfl⟩ := Lifecycle.recover_eq_some hw
    intro f hf
    rcases h f hf with hdone | hbusy
    · exact .inl ((hrow f).final hdone rfl)
    · exact .inr hbusy

end Step

/-- In every run in which no ingest stops or fails between the commit of its apply and that of its
completion, an applied file is completed once no ingest of it is in progress. -/
theorem applied_completed (policy : IngestionPolicy) (w : Lifecycle)
    (h : Reach (lifecycleSystem policy) ClosesGap w) : AppliedCompleted w := by
  have hinv : ClaimsCompleting w := by
    refine h.invariant_of (P := ClaimsCompleting) ?_ ?_
    · intro s hs f hf
      rw [show s = .empty from hs] at hf
      cases hf
    · intro s e s' hreach hP hok hnext
      exact hP.next (lifecycle_owned hreach) hok hnext
  intro f hf hidle
  rcases hinv f hf with hdone | ⟨p, c, hc, hcf, hpc⟩
  · exact hdone
  · refine absurd ⟨p, c, hc, hcf, ?_⟩ hidle
    rw [hpc]
    rfl

/-- A file without a lock owner is in no ingest. -/
theorem not_inProgress {w : Lifecycle} (hown : w.Owned) {f : FileId}
    (hfree : w.store.locks f = none) : ¬ InProgress w f := by
  rintro ⟨p, c, hc, rfl, hlocked⟩
  rw [hown.locked p c hc hlocked] at hfree
  cases hfree

/-- An apply of one price record of store "17". -/
def sampleApplyInput (clock : Time) : ApplyInput :=
  ⟨{ Staging.empty with prices := [sampleRecord "17" "4001" 500] }, false, clock, lenientPolicy,
    ⟨10, 10000, 10⟩, ⟨0, 0, 0, 0, 0⟩⟩

/-- Answers that say nothing but that the operation returned. -/
def plainReplies (n : Nat) : List (Reply IngestInput Fault) :=
  List.replicate n (.ok .done)

/-- The answers that take an ingest from an attached archive to the end of its apply. -/
def applyReplies (clock : Time) : List (Reply IngestInput Fault) :=
  plainReplies 4 ++ [.ok (.validated none), .ok .done, .ok (.applied (sampleApplyInput clock))]

/-- The answers that take a new file through its download and its apply. -/
def ingestReplies (sha : String) (clock : Time) : List (Reply IngestInput Fault) :=
  plainReplies 4 ++ .ok (.downloaded ⟨sha, 10⟩ 10 clock) :: .ok .done :: applyReplies clock

/-- A file of the same store, published later. -/
def laterRemote : RemoteFile :=
  { sampleRemote with fileId := 2, sourceTimestamp := some 110 }

theorem applied_completed_sample :
    AppliedCompleted ((lifecycleSystem ⟨4⟩).afterChecked ClosesGap .empty
      (.start 0 sampleRemote false none ::
        (ingestReplies "aa" 200 ++ plainReplies 2).map (.reply 0))) := by
  refine applied_completed ⟨4⟩ _ (reach_afterChecked _ rfl ?_)
  decide +kernel

/-- The first file dies in the gap and is recovered, the later file of the same scope is applied,
and the retry of the first file is quarantined for its timestamp. -/
def gapEvents : List LifecycleEvent :=
  .start 0 sampleRemote false none :: (ingestReplies "aa" 200).map (.reply 0) ++
    [.die 0, .recover 1, .start 1 laterRemote false none] ++
    (ingestReplies "bb" 300 ++ plainReplies 2).map (.reply 1) ++
    [.start 2 sampleRemote false none] ++
    (plainReplies 4 ++ applyReplies 400 ++ plainReplies 3).map (.reply 2)

theorem applied_file_quarantined :
    ¬ ∀ w, Reach (lifecycleSystem ⟨4⟩) Any w → AppliedResumable w := by
  intro hall
  have hrun : ((lifecycleSystem ⟨4⟩).run .empty gapEvents).isSome = true := by decide +kernel
  have hreach := reach_after gapEvents rfl hrun
  have hstatus : statusOf ((lifecycleSystem ⟨4⟩).after .empty gapEvents).store.files 1 =
      some .quarantined := by
    decide +kernel
  have hclaim : (claimOf ((lifecycleSystem ⟨4⟩).after .empty gapEvents).store.tables 1).isSome =
      true := by
    decide +kernel
  have hfree : ((lifecycleSystem ⟨4⟩).after .empty gapEvents).store.locks 1 = none := by
    decide +kernel
  rcases hall _ hreach 1 hclaim (not_inProgress (lifecycle_owned hreach) hfree) with h | h
  · rw [hstatus] at h
    cases h
  · rw [hstatus] at h
    cases h

end Makolet.Ingestion
