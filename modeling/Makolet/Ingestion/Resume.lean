import Makolet.Ingestion.Ownership

/-!
# Resuming an interrupted ingest

An ingest that dies, or is cancelled, leaves its file at the status of its last transition. The
entry transitions of a later ingest expect `discovered`, `archived` or `failed_retryable`, so the
leftovers `downloading`, `parsing`, `staged`, `validating` and `applying` raise a status conflict
there, which the failure recorder turns into `failed_terminal`. Only the recovery of stale jobs
resolves a leftover.

`leftover_conflict_iff` says when a later ingest runs into its leftover: exactly when it acquired
the lock of a file that had not been recovered.
-/

set_option autoImplicit false

namespace Makolet.Ingestion

open Makolet.Domain Makolet.Lib Makolet.Normalized

/-- The statuses at which a stopped ingest may leave its file, `archived` apart. -/
def interruptedStatuses : List IngestionStatus :=
  [.downloading, .parsing, .staged, .validating, .applying]

/-- The statuses that an awaited transition expects. -/
def Pc.expects : Pc → Option (List IngestionStatus)
  | .recordArchive _ _ _ _ _ => some [.downloading]
  | pc => pc.guard.map Prod.fst

/-- The process awaits a transition that raises a status conflict because of a leftover. -/
def LeftoverConflict (w : Lifecycle) (p : ProcessId) : Prop :=
  ∃ c expected row, w.ingests p = some c ∧ c.pc.expects = some expected ∧
    w.store.files c.file = some row ∧ row.status ∈ interruptedStatuses ∧ row.status ∉ expected

/-- The side condition of a step: a lock is acquired only when its file is not at a leftover, so
the recovery of stale jobs came first. -/
def RecoveredFirst (w : Lifecycle) : LifecycleEvent → Prop
  | .reply p _ => ∀ c ∈ w.ingests p, c.pc = .acquire →
    ∀ s ∈ statusOf w.store.files c.file, s ∉ interruptedStatuses
  | _ => True

instance (w : Lifecycle) (e : LifecycleEvent) : Decidable (RecoveredFirst w e) :=
  match e with
  | .reply p _ => inferInstanceAs (Decidable (∀ c ∈ w.ingests p, c.pc = .acquire →
      ∀ s ∈ statusOf w.store.files c.file, s ∉ interruptedStatuses))
  | .start _ _ _ _ | .die _ | .recover _ => inferInstanceAs (Decidable True)

/-! ## No leftover under the lock -/

/-- Between the acquisition and the entry transition the file is not at a leftover. -/
def Pc.Clean (row : Option SourceFile) : Pc → Prop
  | .refresh | .verify _ | .startDownload | .startParsing | .markArchived =>
    ∀ r, row = some r → r.status ∉ interruptedStatuses
  | _ => True

theorem Pc.Clean.of_not_locked {row : Option SourceFile} {pc : Pc} (h : pc.locked = false) :
    pc.Clean row := by
  cases pc <;> first | exact trivial | cases h

/-- The owned registration does not move a status; a new row is discovered. -/
theorem registerDiscovery_status {remote : RemoteFile} {owned : Bool} {files files' : Files}
    (h : registerDiscovery remote owned files = .ok files') {row : SourceFile}
    (hrow : files' remote.fileId = some row) :
    row.status = .discovered ∨ ∃ old, files remote.fileId = some old ∧ old.status = row.status := by
  unfold registerDiscovery at h
  split at h
  · cases h
    rw [Function.update_self, Option.some.injEq] at hrow
    exact .inl (hrow ▸ rfl)
  · rename_i old hold
    split at h
    · cases h
      cases hold.symm.trans hrow
      exact .inr ⟨row, hold, rfl⟩
    · split at h
      · cases h
      · cases h
        rw [Function.update_self, Option.some.injEq] at hrow
        refine .inr ⟨old, hold, ?_⟩
        rw [← hrow, rediscovered]
        split <;> rfl

section Step

variable {policy : IngestionPolicy} {s s' : Store} {c c' : Ingest}

theorem Ingest.Acts.clean {pc : Pc} (h : c.Acts s pc s' c') (hclean : pc.Clean (s.files c.file))
    (hacquire : pc = .acquire → ∀ r, s.files c.file = some r → r.status ∉ interruptedStatuses) :
    c'.pc.Clean (s'.files c.file) := by
  cases h with
  | register hreg =>
    dsimp only
    split <;> exact trivial
  | acquire hfree => exact hacquire rfl
  | @refresh files row hreg hrow =>
    have hstatus : row.status ∉ interruptedStatuses := by
      rcases registerDiscovery_status hreg hrow with hnew | ⟨old, hold, heq⟩
      · rw [hnew]
        decide
      · rw [← heq]
        exact hclean old hold
    have hall : ∀ r, files c.file = some r → r.status ∉ interruptedStatuses := by
      intro r hr
      cases hrow.symm.trans hr
      exact hstatus
    dsimp only [Ingest.ensureArchived]
    split
    · exact trivial
    · split
      · exact hall
      · exact hall
  | verify =>
    dsimp only
    split
    · exact hclean
    · split
      · exact trivial
      · exact hclean
  | recordArchive hrec =>
    obtain ⟨row, hrow, -, rfl⟩ := recordArchive_eq_ok hrec
    dsimp only
    split
    · exact trivial
    · intro r hr
      rw [Function.update_self, Option.some.injEq] at hr
      rw [← hr]
      show IngestionStatus.archived ∉ interruptedStatuses
      decide
  | failed hrow =>
    dsimp only
    split <;> exact trivial
  | move hguard hmove =>
    cases pc with
    | startDownload | startParsing | finishParsing | startValidating | startApplying | complete
    | markArchived | recordFailure _ _ => exact trivial
    | _ => cases hguard
  | _ => exact trivial

theorem Ingest.raise_clean (c : Ingest) (e : Failure) (row : Option SourceFile) :
    (c.raise e).pc.Clean row := by
  unfold Ingest.raise
  split <;> exact trivial

/-- No handler leads back to an entry transition. -/
theorem Ingest.handle_clean {e : Failure} (h : c.handle policy e = some c')
    (row : Option SourceFile) : c'.pc.Clean row := by
  unfold Ingest.handle at h
  split at h
  case h_7 | h_8 =>
    cases h
    unfold Ingest.raiseDownload
    split
    · dsimp only
      split
      · exact trivial
      · exact c.raise_clean _ _
    · exact c.raise_clean _ _
  case h_9 => cases h
  case h_10 =>
    cases h
    exact c.raise_clean e row
  all_goals
    cases h
    exact trivial

theorem Ingest.step_clean {r : Reply IngestInput Fault}
    (h : (ingestProgram policy).step s c r = some (s', c')) (hclean : c.pc.Clean (s.files c.file))
    (hacquire : c.pc = .acquire → ∀ r, s.files c.file = some r → r.status ∉ interruptedStatuses) :
    c'.pc.Clean (s'.files c.file) := by
  refine Program.step_local (J := fun s c' => c'.pc.Clean (s.files c.file)) h ?_ ?_ ?_
  · exact fun i next hact => (Ingest.acts_of_act hact).clean hclean hacquire
  · exact fun e he _ => Ingest.handle_clean he _
  · exact fun i f next _ he => Ingest.handle_clean he _

end Step

/-! ## Runs -/

section Runs

variable {policy : IngestionPolicy} {w w' : Lifecycle}

/-- Every lock owner found its file off the leftovers. -/
def Lifecycle.Clean (w : Lifecycle) : Prop :=
  ∀ p c, w.ingests p = some c → c.pc.Clean (w.store.files c.file)

theorem statusOf_of_row {files : Files} {f : FileId} {row : SourceFile} (h : files f = some row) :
    statusOf files f = some row.status := by
  rw [statusOf, h, Option.map_some]

theorem Lifecycle.Clean.reply (hclean : w.Clean) (hown : w.Owned) {p : ProcessId}
    {r : Reply IngestInput Fault} (hok : RecoveredFirst w (.reply p r))
    (hw : w.reply policy p r = some w') : w'.Clean := by
  obtain ⟨c, store, c', hc, hstep, rfl⟩ := Lifecycle.reply_eq_some hw
  have hfile : c'.file = c.file := congrArg RemoteFile.fileId (Ingest.step_same hstep).remote
  intro q d hd
  rw [Store.afterStep_files]
  rcases update_some_eq_some hd with ⟨rfl, rfl⟩ | ⟨hq, hd⟩
  · rw [hfile]
    refine Ingest.step_clean hstep (hclean q c hc) ?_
    intro hacquire row hrow
    exact hok c hc hacquire row.status (statusOf_of_row hrow)
  · cases hdl : d.pc.locked with
    | false => exact .of_not_locked hdl
    | true =>
      rcases hown.row_other hc hd hq hdl hstep with heq | ⟨hnone, remote, hnew⟩
      · rw [heq]
        exact hclean q d hd
      · rw [hnew]
        cases hpc : d.pc
        all_goals first
          | exact trivial
          | intro r hr
            cases hr
            show IngestionStatus.discovered ∉ interruptedStatuses
            decide

theorem lifecycle_clean (h : Reach (lifecycleSystem policy) RecoveredFirst w) : w.Clean := by
  refine h.invariant_of (P := Lifecycle.Clean) ?_ ?_
  · intro s hs p c hc
    rw [show s = .empty from hs] at hc
    cases hc
  · intro s e s' hreach hclean hok hnext
    cases e with
    | start p remote archiveOnly limit =>
      obtain ⟨-, rfl⟩ := Lifecycle.start_eq_some hnext
      intro q d hd
      rcases update_some_eq_some hd with ⟨rfl, rfl⟩ | ⟨-, hd⟩
      · exact trivial
      · exact hclean q d hd
    | reply p r => exact hclean.reply (lifecycle_owned hreach) hok hnext
    | die p =>
      cases hnext
      intro q d hd
      rw [Lifecycle.die_ingests] at hd
      rw [Lifecycle.die_files]
      split at hd
      · cases hd
      · exact hclean q d hd
    | recover f =>
      obtain ⟨-, row, hrow, -, rfl⟩ := Lifecycle.recover_eq_some hnext
      intro q d hd
      show d.pc.Clean (Function.update s.store.files f _ d.file)
      by_cases hfile : d.file = f
      · subst hfile
        rw [Function.update_self]
        cases hpc : d.pc
        all_goals first
          | exact trivial
          | intro r hr
            cases hr
            show IngestionStatus.failedRetryable ∉ interruptedStatuses
            decide
      · rw [Function.update_of_ne hfile]
        exact hclean q d hd

/-- Where the file is clean and fits the awaited operation, no leftover is in the way. -/
theorem no_conflict_of_clean {p : ProcessId} (hown : w.Owned)
    (hclean : ∀ c, w.ingests p = some c → c.pc.Clean (w.store.files c.file)) :
    ¬ LeftoverConflict w p := by
  rintro ⟨c, expected, row, hc, hexpects, hrow, hleft, hnot⟩
  have hfits := hown.fits p c hc
  have hclean := hclean c hc
  rw [hrow] at hfits hclean
  cases hpc : c.pc with
  | startDownload | startParsing | markArchived =>
    rw [hpc] at hclean
    exact hclean row rfl hleft
  | recordArchive _ _ _ _ _ =>
    rw [hpc] at hfits hexpects
    cases hexpects
    obtain ⟨r, hr, ⟨hstatus, -⟩ | ⟨hstatus, -⟩⟩ := hfits
    · cases hr
      rw [hstatus] at hnot
      exact hnot (by decide)
    · cases hr
      rw [hstatus] at hleft
      exact absurd hleft (by decide)
  | finishParsing | startValidating | startApplying | complete =>
    rw [hpc] at hfits hexpects
    cases hexpects
    obtain ⟨r, hr, hstatus, -⟩ := hfits
    cases hr
    rw [hstatus] at hnot
    exact hnot (by decide)
  | recordFailure e seen =>
    rw [hpc] at hfits hexpects
    cases hexpects
    obtain ⟨r, hr, hstatus⟩ := hfits
    cases hr
    exact hnot (List.mem_singleton.mpr hstatus)
  | _ =>
    rw [hpc] at hexpects
    cases hexpects

/-! ## One lock owner on its own -/

/-- An ingest registers first and acquires right after that. -/
theorem Ingest.step_entered {s s' : Store} {c c' : Ingest} {r : Reply IngestInput Fault}
    (h : (ingestProgram policy).step s c r = some (s', c')) (hpc : c.pc ≠ .register) :
    c'.pc ≠ .register ∧ c'.pc ≠ .acquire := by
  have hraise : ∀ e, (c.raise e).pc ≠ .register ∧ (c.raise e).pc ≠ .acquire := by
    intro e
    unfold Ingest.raise
    split
    · exact ⟨by simp, by simp⟩
    · exact ⟨by simp, by simp⟩
  have hhandle : ∀ e, c.handle policy e = some c' → c'.pc ≠ .register ∧ c'.pc ≠ .acquire := by
    intro e he
    unfold Ingest.handle at he
    split at he
    case h_7 | h_8 =>
      cases he
      unfold Ingest.raiseDownload
      split
      · dsimp only
        split
        · exact ⟨by simp, by simp⟩
        · exact hraise _
      · exact hraise _
    case h_9 => cases he
    case h_10 =>
      cases he
      exact hraise e
    all_goals
      cases he
      exact ⟨by simp, by simp⟩
  rcases Program.step_cases h with ⟨i, -, hact⟩ | ⟨e, he, -, -⟩ | ⟨i, f, next, -, -, he⟩
  · have hacts := Ingest.acts_of_act hact
    generalize c.pc = pc at hacts hpc
    cases hacts with
    | register hreg => exact absurd rfl hpc
    | refresh hreg hrow =>
      dsimp only [Ingest.ensureArchived]
      split
      · exact ⟨by simp, by simp⟩
      · split <;> exact ⟨by simp, by simp⟩
    | verify =>
      dsimp only
      split
      · exact ⟨by simp, by simp⟩
      · split <;> exact ⟨by simp, by simp⟩
    | recordArchive hrec =>
      dsimp only
      split <;> exact ⟨by simp, by simp⟩
    | failed hrow =>
      dsimp only
      split <;> exact ⟨by simp, by simp⟩
    | move hguard hmove =>
      cases pc with
      | startDownload | startParsing | finishParsing | startValidating | startApplying | complete
      | markArchived | recordFailure _ _ => exact ⟨by simp [Pc.next], by simp [Pc.next]⟩
      | _ => cases hguard
    | _ => exact ⟨by simp, by simp⟩
  · exact hhandle e he
  · exact hhandle _ he

/-- A lock owner that found its file off the leftovers never runs into one. -/
theorem no_conflict_run {p : ProcessId} {c : Ingest} {replies : List (Reply IngestInput Fault)}
    (hown : w.Owned) (hc : w.ingests p = some c) (hentered : c.pc ≠ .register ∧ c.pc ≠ .acquire)
    (hclean : c.pc.Clean (w.store.files c.file))
    (hrun : (lifecycleSystem policy).run w (replies.map (.reply p)) = some w') :
    ¬ LeftoverConflict w' p := by
  induction replies generalizing w c with
  | nil =>
    cases hrun
    refine no_conflict_of_clean hown ?_
    intro d hd
    cases hc.symm.trans hd
    exact hclean
  | cons r rest ih =>
    obtain ⟨m, hm, hrest⟩ := Option.bind_eq_some_iff.mp hrun
    obtain ⟨d, store, d', hd, hstep, hmeq⟩ := Lifecycle.reply_eq_some hm
    cases hc.symm.trans hd
    have hfile : d'.file = c.file := congrArg RemoteFile.fileId (Ingest.step_same hstep).remote
    have hclean' := Ingest.step_clean hstep hclean fun hacquire => absurd hacquire hentered.2
    refine ih (hown.reply hm) (c := d') ?_ (Ingest.step_entered hstep hentered.1) ?_ hrest
    · rw [hmeq]
      exact Function.update_self _ _ _
    · rw [hmeq, Store.afterStep_files, hfile]
      exact hclean'

/-- The owned refresh of a file that agrees with its row. -/
theorem act_refresh {s : Store} {c : Ingest} {row : SourceFile} (hpc : c.pc = .refresh)
    (hrow : s.files c.file = some row) (hstatus : row.status ≠ .completed)
    (hagree : rediscoveryConflict row.remote c.remote = none) :
    c.act s .done = some (.ok
      ({ s with files := Function.update s.files c.file (some (rediscovered row c.remote true)) },
        { c with pc := c.ensureArchived (rediscovered row c.remote true) })) := by
  have hreg : registerDiscovery c.remote true s.files =
      .ok (Function.update s.files c.file (some (rediscovered row c.remote true))) := by
    unfold registerDiscovery
    rw [show s.files c.remote.fileId = some row from hrow]
    simp only [hstatus, if_false, hagree]
    rfl
  unfold Ingest.act
  simp only [hpc, hreg, bind, Except.bind, Function.update_self]

theorem rediscovered_same (row : SourceFile) (remote : RemoteFile) (owned : Bool) :
    (rediscovered row remote owned).status = row.status ∧
      (rediscovered row remote owned).archive = row.archive := by
  unfold rediscovered
  split <;> exact ⟨rfl, rfl⟩

theorem run_reply_cons {p : ProcessId} {r : Reply IngestInput Fault}
    {rest : List (Reply IngestInput Fault)} {m : Lifecycle} (h : w.reply policy p r = some m)
    (hrest : (lifecycleSystem policy).run m (rest.map (.reply p)) = some w') :
    (lifecycleSystem policy).run w ((r :: rest).map (.reply p)) = some w' := by
  show (w.reply policy p r).bind _ = some w'
  rw [h]
  exact hrest

/-- A lock owner that finds its file at a leftover runs into it, if nothing else stops it. -/
theorem conflict_run {p : ProcessId} {c : Ingest} {row : SourceFile} (hc : w.ingests p = some c)
    (hpc : c.pc = .refresh) (hrow : w.store.files c.file = some row)
    (hagree : rediscoveryConflict row.remote c.remote = none)
    (hleft : row.status ∈ interruptedStatuses) :
    ∃ (replies : List (Reply IngestInput Fault)) (w' : Lifecycle),
      (lifecycleSystem policy).run w (replies.map (.reply p)) = some w' ∧
        LeftoverConflict w' p := by
  have hcompleted : row.status ≠ .completed := by
    intro h
    rw [h] at hleft
    exact absurd hleft (by decide)
  have hfirst := Lifecycle.reply_ok policy .done hc (act_refresh hpc hrow hcompleted hagree)
  obtain ⟨hstatus, harchive⟩ := rediscovered_same row c.remote true
  set row₁ := rediscovered row c.remote true with hrow₁
  have hleft₁ : row₁.status ∈ interruptedStatuses := hstatus ▸ hleft
  have hentry : ∀ expected : List IngestionStatus,
      (∀ s ∈ expected, s ∈ [.discovered, .archived, .failedRetryable]) → row₁.status ∉ expected := by
    intro expected hexpected hmem
    have hsafe := hexpected _ hmem
    generalize row₁.status = s at hsafe hleft₁
    revert hsafe hleft₁
    cases s <;> decide
  have hensure : c.ensureArchived row₁ =
      if row₁.archive.isSome then .verify row₁.status else .startDownload := by
    unfold Ingest.ensureArchived
    rw [if_neg]
    rintro ⟨-, hdone⟩
    exact hcompleted (hstatus ▸ hdone)
  cases hsome : row₁.archive.isSome with
  | false =>
    rw [hsome] at hensure
    refine ⟨[.ok .done], _, run_reply_cons hfirst rfl, _, [.discovered, .failedRetryable], row₁,
      Function.update_self _ _ _, ?_, ?_, hleft₁, hentry _ (by decide)⟩
    · show Pc.expects (c.ensureArchived row₁) = _
      rw [hensure]
      rfl
    · rw [Store.afterStep_files]
      exact Function.update_self _ _ _
  | true =>
    rw [hsome] at hensure
    have hverify : c.ensureArchived row₁ = .verify row₁.status := hensure
    -- The second step leaves the verification for the entry transition of the call.
    set w₁ : Lifecycle := ⟨Store.afterStep
      { w.store with files := Function.update w.store.files c.file (some row₁) }
      { c with pc := c.ensureArchived row₁ },
      Function.update w.ingests p (some { c with pc := c.ensureArchived row₁ })⟩ with hw₁
    have hc₁ : w₁.ingests p = some { c with pc := .verify row₁.status } := by
      rw [hw₁, ← hverify]
      exact Function.update_self _ _ _
    have hnext : row₁.status ≠ .archived := by
      intro h
      rw [h] at hleft₁
      exact absurd hleft₁ (by decide)
    have hact : Ingest.act w₁.store { c with pc := .verify row₁.status } .done =
        some (.ok (w₁.store, { c with
          pc := if c.archiveOnly = false then .startParsing
            else if row₁.status = .archived then .release (archivedResult 0)
            else .markArchived })) := rfl
    have hsecond := Lifecycle.reply_ok policy .done hc₁ hact
    refine ⟨[.ok .done, .ok .done], _, run_reply_cons hfirst (run_reply_cons hsecond rfl), ?_⟩
    have hfiles : w₁.store.files c.file = some row₁ := by
      rw [hw₁, Store.afterStep_files]
      exact Function.update_self _ _ _
    cases honly : c.archiveOnly with
    | false =>
      refine ⟨_, [.archived, .failedRetryable], row₁, Function.update_self _ _ _, ?_, ?_, hleft₁,
        hentry _ (by decide)⟩
      · simp only [if_true]
        rfl
      · rw [Store.afterStep_files]
        exact hfiles
    | true =>
      refine ⟨_, [.failedRetryable], row₁, Function.update_self _ _ _, ?_, ?_, hleft₁,
        hentry _ (by decide)⟩
      · simp only [Bool.true_eq_false, if_false, if_neg hnext]
        rfl
      · rw [Store.afterStep_files]
        exact hfiles

end Runs

/-- In every run in which locks are acquired on recovered files only, no ingest runs into a leftover
status. A lock owner about to read its file runs into one, for some answers, exactly when the file
is at a leftover. -/
theorem leftover_conflict_iff (policy : IngestionPolicy) :
    (∀ w, Reach (lifecycleSystem policy) RecoveredFirst w → ∀ p, ¬ LeftoverConflict w p) ∧
      ∀ w p c row, Reach (lifecycleSystem policy) Any w → w.ingests p = some c →
        c.pc = .refresh → w.store.files c.file = some row →
        rediscoveryConflict row.remote c.remote = none →
          ((∀ (replies : List (Reply IngestInput Fault)) (w' : Lifecycle),
            (lifecycleSystem policy).run w (replies.map (.reply p)) = some w' →
              ¬ LeftoverConflict w' p) ↔ row.status ∉ interruptedStatuses) := by
  constructor
  · intro w hw p
    exact no_conflict_of_clean (lifecycle_owned hw) fun c hc => lifecycle_clean hw p c hc
  · intro w p c row hw hc hpc hrow hagree
    constructor
    · intro hnever hleft
      obtain ⟨replies, w', hrun, hconflict⟩ := conflict_run hc hpc hrow hagree hleft
      exact hnever replies w' hrun hconflict
    · intro hsafe replies w' hrun
      refine no_conflict_run (lifecycle_owned hw) hc ?_ ?_ hrun
      · rw [hpc]
        exact ⟨by simp, by simp⟩
      · rw [hpc]
        intro r hr
        cases hrow.symm.trans hr
        exact hsafe

/-- A published price file. -/
def sampleRemote : RemoteFile :=
  ⟨1, 1, 1, .https, .priceDelta, .gzip, 90, some 100⟩

/-- An ingest that dies while it downloads. -/
def interruptedEvents : List LifecycleEvent :=
  [.start 0 sampleRemote false none, .reply 0 (.ok .done), .reply 0 (.ok .done),
    .reply 0 (.ok .done), .reply 0 (.ok .done), .die 0]

/-- The next ingest of the file, up to the read of its row. -/
def laterEvents : List LifecycleEvent :=
  [.start 1 sampleRemote false none, .reply 1 (.ok .done), .reply 1 (.ok .done)]

theorem leftover_conflict_iff_sample :
    ¬ LeftoverConflict ((lifecycleSystem ⟨4⟩).afterChecked RecoveredFirst .empty
      (interruptedEvents ++ [.recover 1] ++ laterEvents)) 1 := by
  refine (leftover_conflict_iff ⟨4⟩).1 _ (reach_afterChecked _ rfl ?_) 1
  decide +kernel

/-- Without the recovery the next ingest awaits a transition that the leftover refuses, and records
the file as failed for good. -/
theorem interrupted_download_fails_terminally :
    (∃ w, Reach (lifecycleSystem ⟨4⟩) Any w ∧ LeftoverConflict w 1) ∧
      ∃ w, Reach (lifecycleSystem ⟨4⟩) Any w ∧
        statusOf w.store.files 1 = some .failedTerminal := by
  have hrun : ((lifecycleSystem ⟨4⟩).run .empty (interruptedEvents ++ laterEvents ++
      [.reply 1 (.ok .done)])).isSome = true := by
    decide +kernel
  have hrun' : ((lifecycleSystem ⟨4⟩).run .empty (interruptedEvents ++ laterEvents ++
      [.reply 1 (.ok .done), .reply 1 (.ok .done), .reply 1 (.ok .done),
        .reply 1 (.ok .done)])).isSome = true := by
    decide +kernel
  refine ⟨⟨_, reach_after _ rfl hrun, ?_⟩, ⟨_, reach_after _ rfl hrun', ?_⟩⟩
  · refine ⟨⟨1, sampleRemote, false, none, 0, .startDownload⟩, [.discovered, .failedRetryable],
      ⟨sampleRemote, .downloading, none, none⟩, ?_, rfl, ?_, by decide, by decide⟩
    · decide +kernel
    · decide +kernel
  · decide +kernel

end Makolet.Ingestion
