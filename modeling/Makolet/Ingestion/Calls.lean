import Makolet.Ingestion.Resume

/-!
# What an ingest call returns

Facts about one call that its caller relies on. A call with `archive_only` never parses or applies,
and a call without it returns a completed file or raises. Only such a call completes a file, and it
completes its own.
-/

set_option autoImplicit false

namespace Makolet.Ingestion

open Makolet.Domain Makolet.Lib Makolet.Normalized

/-! ## Modes -/

/-- The operations of each mode: what comes after the archive belongs to a full ingest, and its
result is a completed file. -/
def Pc.inMode (archiveOnly : Bool) : Pc → Bool
  | .startParsing | .parse | .finishParsing | .startValidating | .validate => !archiveOnly
  | .startApplying | .apply | .complete => !archiveOnly
  | .markArchived => archiveOnly
  | .release (.result r) | .returned (.result r) => archiveOnly || decide (r.status = .completed)
  | _ => true

section Mode

variable {s s' : Store} {c c' : Ingest} {pc : Pc}

theorem Ingest.raise_inMode (c : Ingest) (e : Failure) (archiveOnly : Bool) :
    (c.raise e).pc.inMode archiveOnly = true := by
  unfold Ingest.raise
  split <;> rfl

theorem Ingest.raiseDownload_inMode (policy : IngestionPolicy) (c : Ingest)
    (attempt transferred attemptBytes : Nat) (e : Failure) (archiveOnly : Bool) :
    (c.raiseDownload policy attempt transferred attemptBytes e).pc.inMode archiveOnly = true := by
  unfold Ingest.raiseDownload
  split
  · dsimp only
    split
    · rfl
    · exact c.raise_inMode _ _
  · exact c.raise_inMode _ _

theorem Ingest.handle_inMode {policy : IngestionPolicy} {e : Failure}
    (h : c.handle policy e = some c') (archiveOnly : Bool) : c'.pc.inMode archiveOnly = true := by
  unfold Ingest.handle at h
  split at h
  all_goals first
    | cases h
      first
        | rfl
        | exact c.raiseDownload_inMode _ _ _ _ _ _
        | exact c.raise_inMode _ _
    | cases h

theorem Ingest.Acts.inMode (h : c.Acts s pc s' c') (hmode : pc.inMode c.archiveOnly = true) :
    c'.pc.inMode c.archiveOnly = true := by
  cases h with
  | register hreg =>
    dsimp only
    split
    · simp [Pc.inMode, completedResult]
    · rfl
  | refresh hreg hrow =>
    dsimp only [Ingest.ensureArchived]
    split
    · simp [Pc.inMode, completedResult]
    · split <;> rfl
  | verify =>
    cases honly : c.archiveOnly with
    | false => rfl
    | true =>
      simp only [Bool.true_eq_false, if_false]
      split <;> rfl
  | recordArchive hrec =>
    cases honly : c.archiveOnly with
    | false => rfl
    | true => rfl
  | failed hrow =>
    dsimp only
    split <;> rfl
  | @release outcome =>
    cases outcome with
    | result r => exact hmode
    | raised e => rfl
  | move hguard hmove =>
    cases pc with
    | startDownload | recordFailure _ _ => rfl
    | startParsing | finishParsing | startValidating | startApplying => exact hmode
    | complete => simp [Pc.next, Pc.inMode, completedResult]
    | markArchived =>
      have honly : c.archiveOnly = true := hmode
      simp [Pc.next, Pc.inMode, archivedResult, honly]
    | _ => cases hguard
  | parse | validate | apply => exact hmode
  | acquire | download => rfl

theorem Ingest.step_inMode {policy : IngestionPolicy} {r : Reply IngestInput Fault}
    (h : (ingestProgram policy).step s c r = some (s', c'))
    (hmode : c.pc.inMode c.archiveOnly = true) : c'.pc.inMode c'.archiveOnly = true := by
  rw [(Ingest.step_same h).archiveOnly]
  refine Program.step_local (J := fun _ c' => c'.pc.inMode c.archiveOnly = true) h ?_ ?_ ?_
  · exact fun i next hact => (Ingest.acts_of_act hact).inMode hmode
  · exact fun e he _ => Ingest.handle_inMode he _
  · exact fun i f next _ he => Ingest.handle_inMode he _

theorem failureTarget_ne_completed (seen : IngestionStatus) (e : Failure) :
    failureTarget seen e ≠ .completed := by
  unfold failureTarget
  split
  · decide
  · split <;> decide

theorem registerDiscovery_completed {remote : RemoteFile} {owned : Bool} {files files' : Files}
    (h : registerDiscovery remote owned files = .ok files')
    (hf : statusOf files' remote.fileId = some .completed) :
    statusOf files remote.fileId = some .completed := by
  obtain ⟨row, hrow, hstatus⟩ := Option.map_eq_some_iff.mp hf
  rcases registerDiscovery_status h hrow with hnew | ⟨old, hold, heq⟩
  · rw [hnew] at hstatus
    cases hstatus
  · rw [statusOf, hold, Option.map_some, heq, hstatus]

/-- A file becomes completed by the last transition of its own call only. -/
theorem Ingest.Acts.completes (h : c.Acts s pc s' c') {f : FileId}
    (hf : statusOf s'.files f = some .completed) :
    statusOf s.files f = some .completed ∨ (pc = .complete ∧ f = c.file) := by
  by_cases hfile : f = c.file
  · subst hfile
    cases h with
    | register hreg => exact .inl (registerDiscovery_completed hreg hf)
    | refresh hreg => exact .inl (registerDiscovery_completed hreg hf)
    | recordArchive hrec =>
      obtain ⟨row, -, -, rfl⟩ := recordArchive_eq_ok hrec
      simp only [statusOf, Function.update_self, Option.map_some] at hf
      cases hf
    | move hguard hmove =>
      obtain ⟨row, hrow, -, -, rfl⟩ := transition_eq_ok hmove
      simp only [statusOf, Function.update_self, Option.map_some, Option.some.injEq] at hf
      cases pc with
      | complete => exact .inr ⟨rfl, rfl⟩
      | recordFailure e seen =>
        cases hguard
        exact absurd hf (failureTarget_ne_completed seen e)
      | _ => cases hguard; try cases hf
    | _ => exact .inl hf
  · refine .inl ?_
    rw [statusOf, ← h.change.2 f hfile]
    exact hf

end Mode

end Makolet.Ingestion
