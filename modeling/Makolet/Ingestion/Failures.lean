import Makolet.Ingestion.Resume

/-!
# Recorded failures

`_record_failure` reads the status of the file and moves the file to a target that it selects from
the status and the error; then the exception goes on to the caller. Between the two operations other
processes may do anything. `RecordsFailure` is what a caller counts on: the target is stored and the
exception that arrives is the one that was raised, with its transferred bytes.
-/

set_option autoImplicit false

namespace Makolet.Ingestion

open Makolet.Domain Makolet.Lib Makolet.Normalized

/-! ## The events of other processes -/

/-- The process whose call an event belongs to. -/
def LifecycleEvent.process : LifecycleEvent → Option ProcessId
  | .start p _ _ _ | .reply p _ | .die p => some p
  | .recover _ => none

section Others

variable {policy : IngestionPolicy} {w w' : Lifecycle} {p : ProcessId}

theorem Lifecycle.next_other {e : LifecycleEvent} (hother : e.process ≠ some p)
    (h : w.next policy e = some w') : w'.ingests p = w.ingests p := by
  cases e with
  | start q remote archiveOnly limit =>
    obtain ⟨-, rfl⟩ := Lifecycle.start_eq_some h
    exact Function.update_of_ne (fun hp => hother (congrArg some hp.symm)) _ _
  | reply q r =>
    obtain ⟨c, store, c', -, -, rfl⟩ := Lifecycle.reply_eq_some h
    exact Function.update_of_ne (fun hp => hother (congrArg some hp.symm)) _ _
  | die q =>
    cases h
    rw [Lifecycle.die_ingests, if_neg fun hp => hother (congrArg some hp.symm)]
  | recover f =>
    obtain ⟨-, row, -, -, rfl⟩ := Lifecycle.recover_eq_some h
    rfl

/-- A run of other processes leaves a call where it is. -/
theorem Lifecycle.run_others {events : List LifecycleEvent}
    (hothers : ∀ e ∈ events, e.process ≠ some p)
    (h : (lifecycleSystem policy).run w events = some w') : w'.ingests p = w.ingests p := by
  induction events generalizing w with
  | nil =>
    cases h
    rfl
  | cons e events ih =>
    obtain ⟨m, hm, hrest⟩ := Option.bind_eq_some_iff.mp h
    have hlater := ih (fun e he => hothers e (List.mem_cons_of_mem _ he)) hrest
    exact hlater.trans (Lifecycle.next_other (hothers e List.mem_cons_self) hm)

end Others

/-! ## The selected target -/

/-- A retryable `MakoletError`. -/
def retryableError (e : Failure) : Prop := e.kind.isMakolet = true ∧ e.kind.retryable = true

instance (e : Failure) : Decidable (retryableError e) :=
  inferInstanceAs (Decidable (_ ∧ _))

/-- The selected target is one that the table allows, but for a retryable error of a file that
failed that way before. -/
theorem failureTarget_allowed_iff {seen : IngestionStatus} (hseen : seen.isFinal = false)
    (e : Failure) :
    failureTarget seen e ∈ seen.allowed ↔ ¬ (seen = .failedRetryable ∧ retryableError e) := by
  have htarget : failureTarget seen e = .quarantined ∧
        seen ∈ [.archived, .parsing, .staged, .validating, .applying] ∨
      failureTarget seen e = .failedRetryable ∧ retryableError e ∨
      failureTarget seen e = .failedTerminal ∧
        (seen ∈ [.archived, .parsing, .staged, .validating, .applying] ∨ ¬ retryableError e) := by
    unfold failureTarget
    split
    · rename_i hquarantine
      exact .inl ⟨rfl, hquarantine.2⟩
    · split
      · rename_i hretry
        exact .inr (.inl ⟨rfl, hretry⟩)
      · rename_i hretry
        exact .inr (.inr ⟨rfl, .inr hretry⟩)
  rcases htarget with ⟨heq, hmem⟩ | ⟨heq, hretry⟩ | ⟨heq, hcase⟩
  · rw [heq]
    refine iff_of_true ?_ ?_
    · revert hmem
      cases seen <;> decide
    · rintro ⟨rfl, -⟩
      revert hmem
      decide
  · rw [heq]
    constructor
    · rintro hallowed ⟨rfl, -⟩
      revert hallowed
      decide
    · intro hnot
      have hne : seen ≠ .failedRetryable := fun h => hnot ⟨h, hretry⟩
      revert hne hseen
      cases seen <;> decide
  · rw [heq]
    refine iff_of_true ?_ ?_
    · revert hseen
      cases seen <;> decide
    · rintro ⟨rfl, hretry⟩
      rcases hcase with hmem | hnot
      · revert hmem
        decide
      · exact hnot hretry

/-! ## The two operations -/

section Operations

variable {policy : IngestionPolicy} {w : Lifecycle} {p : ProcessId} {c : Ingest} {e : Failure}

/-- The read of the status. -/
theorem Lifecycle.reply_failed {row : SourceFile} (hc : w.ingests p = some c)
    (hpc : c.pc = .failed e) (hrow : w.store.files c.file = some row) :
    ∃ w', w.next policy (.reply p (.ok .done)) = some w' ∧ w'.store.files = w.store.files ∧
      w'.ingests p = some { c with
        pc := if row.status.isFinal then .release (.raised e) else .recordFailure e row.status } := by
  have hact : c.act w.store .done = some (.ok (w.store, { c with
      pc := if row.status.isFinal then .release (.raised e) else .recordFailure e row.status })) := by
    unfold Ingest.act
    simp only [hpc, hrow]
  refine ⟨_, Lifecycle.reply_ok policy .done hc hact, ?_, Function.update_self _ _ _⟩
  exact Store.afterStep_files _ _

/-- The transition to the selected target. -/
theorem Lifecycle.reply_recordFailure {row : SourceFile} (hc : w.ingests p = some c)
    (hpc : c.pc = .recordFailure e row.status) (hrow : w.store.files c.file = some row)
    (hallowed : failureTarget row.status e ∈ row.status.allowed) :
    ∃ w', w.next policy (.reply p (.ok .done)) = some w' ∧
      w'.ingests p = some { c with pc := .release (.raised e) } ∧
      statusOf w'.store.files c.file = some (failureTarget row.status e) := by
  have hok := transition_ok hrow (List.mem_singleton_self row.status) hallowed
  have hact : c.act w.store .done = some (.ok
      ({ w.store with
          files := Function.update w.store.files c.file
            (some { row with status := failureTarget row.status e }) },
        { c with pc := .release (.raised e) })) := by
    unfold Ingest.act
    simp only [hpc, Pc.guard, Option.map_some, hok, Except.map]
    rfl
  refine ⟨_, Lifecycle.reply_ok policy .done hc hact, Function.update_self _ _ _, ?_⟩
  rw [Store.afterStep_files]
  show statusOf (Function.update _ _ _) _ = _
  rw [statusOf, Function.update_self]
  rfl

/-- A target that the table does not allow: the exception of the table replaces the one that was
raised, and the file keeps its status. -/
theorem Lifecycle.reply_refused {row : SourceFile} (hc : w.ingests p = some c)
    (hpc : c.pc = .recordFailure e row.status) (hrow : w.store.files c.file = some row)
    (hrefused : failureTarget row.status e ∉ row.status.allowed) :
    ∃ w' conflict, w.next policy (.reply p (.ok .done)) = some w' ∧
      conflict.kind = .invalidStateTransition ∧
      w'.ingests p = some { c with pc := .release (.raised conflict) } ∧
      w'.store.files = w.store.files := by
  obtain ⟨conflict, hconflict, hkind⟩ : ∃ conflict,
      ensureIngestionTransition row.status (failureTarget row.status e) = .error conflict ∧
        conflict.kind = .invalidStateTransition := ⟨_, if_neg hrefused, rfl⟩
  have herror : transition c.file [row.status] (failureTarget row.status e) w.store.files =
      .error conflict := by
    simp [transition, hrow, hconflict]
  have hact : c.act w.store .done = some (.error conflict) := by
    unfold Ingest.act
    simp only [hpc, Pc.guard, Option.map_some, herror, Except.map]
  have hstep : (ingestProgram policy).step w.store c (.ok .done) =
      some (w.store, { c with pc := .release (.raised conflict) }) := by
    simp [Program.step, ingestProgram, hact, Ingest.handle, hpc]
  have hnext : w.next policy (.reply p (.ok .done)) =
      some ⟨w.store.afterStep { c with pc := .release (.raised conflict) },
        Function.update w.ingests p (some { c with pc := .release (.raised conflict) })⟩ := by
    show w.reply policy p (.ok .done) = some _
    rw [Lifecycle.reply, hc, Option.bind_some, hstep]
    rfl
  exact ⟨_, conflict, hnext, hkind, Function.update_self _ _ _, Store.afterStep_files _ _⟩

end Operations

/-! ## Recording -/

/-- Whatever other processes do between its two operations, `_record_failure` of the process `p`
stores the target that it selected and passes on the exception. -/
def RecordsFailure (policy : IngestionPolicy) (w : Lifecycle) (p : ProcessId) (c : Ingest)
    (e : Failure) (status : IngestionStatus) : Prop :=
  ∀ w₁ events w₂, w.next policy (.reply p (.ok .done)) = some w₁ →
    (∀ event ∈ events, event.process ≠ some p) →
    (lifecycleSystem policy).run w₁ events = some w₂ →
      ∃ w₃, w₂.next policy (.reply p (.ok .done)) = some w₃ ∧
        w₃.ingests p = some { c with pc := .release (.raised e) } ∧
        statusOf w₃.store.files c.file = some (failureTarget status e)

/-- A failure is recorded on every file that may still move, but for a retryable error of a file that
failed that way before: the table has no transition from `failed_retryable` to itself. -/
theorem recordsFailure_iff {policy : IngestionPolicy} {w : Lifecycle} {p : ProcessId} {c : Ingest}
    {e : Failure} {row : SourceFile} (h : Reach (lifecycleSystem policy) Any w)
    (hc : w.ingests p = some c) (hpc : c.pc = .failed e)
    (hrow : w.store.files c.file = some row) (hfinal : row.status.isFinal = false) :
    RecordsFailure policy w p c e row.status ↔
      ¬ (row.status = .failedRetryable ∧ retryableError e) := by
  obtain ⟨w₁, hfirst, hfiles, hc₁⟩ := Lifecycle.reply_failed hc hpc hrow
  rw [hfinal] at hc₁
  have hc₁ : w₁.ingests p = some { c with pc := .recordFailure e row.status } := hc₁
  constructor
  · rintro hrecords hretry
    have hrefused := mt (failureTarget_allowed_iff hfinal e).mp (not_not_intro hretry)
    have hrow₁ : w₁.store.files c.file = some row := by
      rw [hfiles]
      exact hrow
    obtain ⟨w₃, hsecond, hraised, -⟩ := hrecords w₁ [] w₁ hfirst (by simp) rfl
    obtain ⟨w', conflict, hnext, hkind, hconflict, -⟩ :=
      Lifecycle.reply_refused hc₁ rfl hrow₁ hrefused
    cases hsecond.symm.trans hnext
    -- The exception of the table is not a retryable one.
    have heq : some (Pc.release (.raised e)) = some (Pc.release (.raised conflict)) :=
      congrArg (Option.map Ingest.pc) (hraised.symm.trans hconflict)
    cases heq
    have hnot := hretry.2.2
    rw [hkind] at hnot
    cases hnot
  · intro hnot w₁' events w₂ hfirst' hothers hrun
    have hallowed := (failureTarget_allowed_iff hfinal e).mpr hnot
    cases hfirst.symm.trans hfirst'
    have hreach : Reach (lifecycleSystem policy) Any w₂ :=
      Reach.of_run (.step (.reply p (.ok .done)) h trivial hfirst) hrun
    have hc₂ := (Lifecycle.run_others hothers hrun).trans hc₁
    -- The lock keeps the row at the status that was read.
    obtain ⟨row₂, hrow₂, hseen⟩ := (lifecycle_owned hreach).fits p _ hc₂
    rw [← hseen] at hc₂ hallowed ⊢
    have hrecorded : ∃ w', w₂.next policy (.reply p (.ok .done)) = some w' ∧ _ ∧ _ :=
      Lifecycle.reply_recordFailure hc₂ rfl hrow₂ hallowed
    exact hrecorded

/-- When the failure of an ingest is recorded. On a file that is at a final status nothing is stored
any more and the exception goes on. -/
theorem failure_recorded_iff {policy : IngestionPolicy} {w : Lifecycle} {p : ProcessId} {c : Ingest}
    {e : Failure} {row : SourceFile} (h : Reach (lifecycleSystem policy) Any w)
    (hc : w.ingests p = some c) (hpc : c.pc = .failed e)
    (hrow : w.store.files c.file = some row) :
    (row.status.isFinal = false → (RecordsFailure policy w p c e row.status ↔
      ¬ (row.status = .failedRetryable ∧ retryableError e))) ∧
    (row.status.isFinal = true → ∃ w', w.next policy (.reply p (.ok .done)) = some w' ∧
      w'.ingests p = some { c with pc := .release (.raised e) } ∧
      w'.store.files = w.store.files) := by
  refine ⟨recordsFailure_iff h hc hpc hrow, fun hfinal => ?_⟩
  obtain ⟨w₁, hfirst, hfiles, hc₁⟩ := Lifecycle.reply_failed hc hpc hrow
  refine ⟨w₁, hfirst, ?_, hfiles⟩
  rw [hc₁, hfinal]
  rfl

/-! ## An archive without space to read it -/

def capacityFault : Fault :=
  ⟨.archiveCapacity, "Local archive read spool reached its configured free-space reserve"⟩

/-- An ingest that archives its file and cannot read it back for the parser. -/
def unreadEvents : List LifecycleEvent :=
  [.start 0 sampleRemote false none, .reply 0 (.ok .done), .reply 0 (.ok .done),
    .reply 0 (.ok .done), .reply 0 (.ok .done), .reply 0 (.ok (.downloaded ⟨"5d41", 4⟩ 4 95)),
    .reply 0 (.ok .done), .reply 0 (.ok .done), .reply 0 (.raise capacityFault)]

/-- The end of that ingest, and the next one up to the verification of the archive, which meets the
same shortage. -/
def verifiedEvents : List LifecycleEvent :=
  [.reply 0 (.ok .done), .reply 0 (.ok .done), .reply 0 (.ok .done),
    .start 0 sampleRemote false none, .reply 0 (.ok .done), .reply 0 (.ok .done),
    .reply 0 (.ok .done), .reply 0 (.raise capacityFault)]

theorem failure_recorded_iff_sample :
    RecordsFailure ⟨4⟩ ((lifecycleSystem ⟨4⟩).after .empty unreadEvents) 0
      ⟨0, sampleRemote, false, none, 4, .failed ⟨capacityFault.kind, capacityFault.message, 4⟩⟩
      ⟨capacityFault.kind, capacityFault.message, 4⟩ .parsing := by
  have hreach : Reach (lifecycleSystem ⟨4⟩) Any ((lifecycleSystem ⟨4⟩).after .empty unreadEvents) :=
    reach_after _ rfl (by decide +kernel)
  have hrow : ((lifecycleSystem ⟨4⟩).after .empty unreadEvents).store.files 1 =
      some ⟨sampleRemote, .parsing, some ⟨"5d41", 4⟩, some 95⟩ := by
    decide +kernel
  have hc : ((lifecycleSystem ⟨4⟩).after .empty unreadEvents).ingests 0 = some
      ⟨0, sampleRemote, false, none, 4, .failed ⟨capacityFault.kind, capacityFault.message, 4⟩⟩ := by
    decide +kernel
  exact ((failure_recorded_iff hreach hc rfl hrow).1 rfl).mpr (by decide)

/-- The second shortage is not recorded: the caller gets the conflict of the transition table. -/
theorem repeated_shortage_not_recorded :
    ∃ w p c e row, Reach (lifecycleSystem ⟨4⟩) Any w ∧ w.ingests p = some c ∧ c.pc = .failed e ∧
      w.store.files c.file = some row ∧ row.status.isFinal = false ∧
      ¬ RecordsFailure ⟨4⟩ w p c e row.status := by
  have hreach : Reach (lifecycleSystem ⟨4⟩) Any
      ((lifecycleSystem ⟨4⟩).after .empty (unreadEvents ++ verifiedEvents)) :=
    reach_after _ rfl (by decide +kernel)
  have hc : ((lifecycleSystem ⟨4⟩).after .empty (unreadEvents ++ verifiedEvents)).ingests 0 =
      some ⟨0, sampleRemote, false, none, 0, .failed capacityFault.failure⟩ := by
    decide +kernel
  have hrow : ((lifecycleSystem ⟨4⟩).after .empty (unreadEvents ++ verifiedEvents)).store.files 1 =
      some ⟨sampleRemote, .failedRetryable, some ⟨"5d41", 4⟩, some 95⟩ := by
    decide +kernel
  refine ⟨_, 0, _, _, _, hreach, hc, rfl, hrow, rfl, ?_⟩
  rw [recordsFailure_iff hreach hc rfl hrow rfl]
  exact not_not_intro (by decide)

end Makolet.Ingestion
