import Makolet.Ingestion.Lifecycle

/-!
# Many ingests, one lock owner a file

`lifecycleSystem` interleaves any number of ingests with process deaths and the recovery of stale
jobs. `Owned` is what the per-file lock buys: while an ingest is between `refresh` and `release` no
other program writes the row of its file, so the status that each awaited operation expects is the
one its own last transition left.
-/

set_option autoImplicit false

namespace Makolet.Ingestion

open Makolet.Domain Makolet.Lib Makolet.Normalized

/-! ## The system -/

structure Lifecycle where
  store : Store
  ingests : ProcessId → Option Ingest

def Lifecycle.empty : Lifecycle :=
  ⟨⟨fun _ => none, Tables.empty, fun _ => none⟩, fun _ => none⟩

/-- A session lock ends with its session. -/
def Store.unlock (s : Store) (c : Ingest) : Store :=
  if s.locks c.file = some c.owner then
    { s with locks := Function.update s.locks c.file none }
  else s

/-- The store after a step of an ingest: one that holds no lock any more has freed it. -/
def Store.afterStep (s : Store) (c : Ingest) : Store :=
  if c.pc.locked then s else s.unlock c

namespace Lifecycle

/-- A new call, by a process whose last call is over. -/
def start (w : Lifecycle) (p : ProcessId) (remote : RemoteFile) (archiveOnly : Bool)
    (limit : Option Nat) : Option Lifecycle :=
  if (w.ingests p).all fun c => match c.pc with | .returned _ => true | _ => false then
    some ⟨w.store, Function.update w.ingests p
      (some (Ingest.start p remote archiveOnly limit))⟩
  else none

/-- An answer to the operation that a process awaits. -/
def reply (policy : IngestionPolicy) (w : Lifecycle) (p : ProcessId)
    (r : Reply IngestInput Fault) : Option Lifecycle :=
  (w.ingests p).bind fun c =>
    ((ingestProgram policy).step w.store c r).map fun (store, c') =>
      ⟨store.afterStep c', Function.update w.ingests p (some c')⟩

/-- The death of a process. -/
def die (w : Lifecycle) (p : ProcessId) : Lifecycle :=
  match w.ingests p with
  | none => w
  | some c => ⟨w.store.unlock c, Function.update w.ingests p none⟩

/-- `register`, called outside an ingest. -/
def register (w : Lifecycle) (remote : RemoteFile) : Except Failure Lifecycle :=
  (registerDiscovery remote false w.store.files).map fun files =>
    { w with store := { w.store with files := files } }

/-- `recover_stale_jobs` at one file: it needs the lock of the file. -/
def recover (w : Lifecycle) (f : FileId) : Option Lifecycle :=
  match w.store.locks f, w.store.files f with
  | none, some row =>
    if row.status ∈ activeStatuses then
      some ⟨{ w.store with
        files := Function.update w.store.files f (some { row with status := .failedRetryable }) },
        w.ingests⟩
    else none
  | _, _ => none

end Lifecycle

inductive LifecycleEvent
  | start (p : ProcessId) (remote : RemoteFile) (archiveOnly : Bool) (limit : Option Nat)
  | reply (p : ProcessId) (r : Reply IngestInput Fault)
  | die (p : ProcessId)
  | recover (f : FileId)

def Lifecycle.next (policy : IngestionPolicy) (w : Lifecycle) : LifecycleEvent → Option Lifecycle
  | .start p remote archiveOnly limit => w.start p remote archiveOnly limit
  | .reply p r => w.reply policy p r
  | .die p => some (w.die p)
  | .recover f => w.recover f

def lifecycleSystem (policy : IngestionPolicy) :
    Makolet.Lib.System Lifecycle LifecycleEvent where
  init w := w = .empty
  next := Lifecycle.next policy

/-! ## What a row looks like at each operation -/

/-- The row of the file that an awaited operation relies on. After a lost answer of `record_archive`
the retry loop still believes the file to be downloading. -/
def Pc.Fits (row : Option SourceFile) : Pc → Prop
  | .verify seen => ∃ r, row = some r ∧ r.status = seen ∧ r.archive.isSome = true
  | .startDownload => ∃ r, row = some r ∧ r.archive = none
  | .download _ _ | .recordArchive _ _ _ _ _ => ∃ r, row = some r ∧
      ((r.status = .downloading ∧ r.archive = none) ∨
        (r.status = .archived ∧ r.archive.isSome = true))
  | .startParsing | .markArchived => ∃ r, row = some r ∧ r.archive.isSome = true
  | .parse | .finishParsing => ∃ r, row = some r ∧ r.status = .parsing ∧ r.archive.isSome = true
  | .startValidating => ∃ r, row = some r ∧ r.status = .staged ∧ r.archive.isSome = true
  | .validate | .startApplying =>
    ∃ r, row = some r ∧ r.status = .validating ∧ r.archive.isSome = true
  | .apply | .complete => ∃ r, row = some r ∧ r.status = .applying ∧ r.archive.isSome = true
  | .recordFailure _ seen => ∃ r, row = some r ∧ r.status = seen
  | _ => True

theorem Pc.Fits.mono {row row' : Option SourceFile} {pc : Pc} (h : pc.Fits row)
    (hrow : ∀ r, row = some r → row' = some r) : pc.Fits row' := by
  cases pc
  all_goals first
    | exact trivial
    | obtain ⟨r, hr, hfit⟩ := h
      exact ⟨r, hrow r hr, hfit⟩

theorem Pc.fits_of_not_locked {row : Option SourceFile} {pc : Pc} (h : pc.locked = false) :
    pc.Fits row := by
  cases pc <;> first | exact trivial | cases h

section Step

variable {s s' : Store} {c c' : Ingest}

/-- A committed operation leaves the row as its continuation relies on it. -/
theorem Ingest.Acts.fits {pc : Pc} (h : c.Acts s pc s' c') (hfits : pc.Fits (s.files c.file)) :
    c'.pc.Fits (s'.files c.file) := by
  cases h with
  | register hreg =>
    dsimp only
    split <;> exact trivial
  | acquire hfree => exact trivial
  | @refresh files row hreg hrow =>
    dsimp only [Ingest.ensureArchived]
    split
    · exact trivial
    · split
      · exact ⟨row, hrow, rfl, by assumption⟩
      · rename_i hnone
        exact ⟨row, hrow, Option.not_isSome_iff_eq_none.mp hnone⟩
  | verify =>
    obtain ⟨r, hr, -, harchive⟩ := hfits
    dsimp only
    split
    · exact ⟨r, hr, harchive⟩
    · split
      · exact trivial
      · exact ⟨r, hr, harchive⟩
  | download hlimit => exact hfits
  | recordArchive hrec =>
    obtain ⟨row, hrow, hstatus, rfl⟩ := recordArchive_eq_ok hrec
    dsimp only
    split
    · exact trivial
    · exact ⟨_, Function.update_self _ _ _, rfl⟩
  | parse => exact hfits
  | validate => exact hfits
  | apply hrow happly => exact hfits
  | @failed e row hrow =>
    dsimp only
    split
    · exact trivial
    · exact ⟨row, hrow, rfl⟩
  | release => exact trivial
  | move hguard hmove =>
    obtain ⟨row, hrow, -, -, rfl⟩ := transition_eq_ok hmove
    have hself : ∀ r : Option SourceFile,
        Function.update s.files c.file r c.file = r := fun r => Function.update_self _ _ _
    cases pc with
    | startDownload =>
      obtain ⟨r, hr, harchive⟩ := hfits
      cases hguard
      cases hrow.symm.trans hr
      exact ⟨_, hself _, .inl ⟨rfl, harchive⟩⟩
    | startParsing =>
      obtain ⟨r, hr, harchive⟩ := hfits
      cases hguard
      cases hrow.symm.trans hr
      exact ⟨_, hself _, rfl, harchive⟩
    | finishParsing | startValidating | startApplying =>
      obtain ⟨r, hr, -, harchive⟩ := hfits
      cases hguard
      cases hrow.symm.trans hr
      exact ⟨_, hself _, rfl, harchive⟩
    | complete | markArchived | recordFailure _ _ => exact trivial
    | _ => cases hguard

/-- A handler relies on less than the operation that raised. -/
theorem Ingest.raise_fits (c : Ingest) (e : Failure) (row : Option SourceFile) :
    (c.raise e).pc.Fits row := by
  unfold Ingest.raise
  split <;> exact trivial

/-- A download that the row still allows. -/
def DownloadFits (row : Option SourceFile) : Prop :=
  Pc.Fits row (.download 0 0)

theorem Ingest.raiseDownload_fits {policy : IngestionPolicy} {attempt transferred bytes : Nat}
    {e : Failure} {row : Option SourceFile} (h : DownloadFits row) :
    (c.raiseDownload policy attempt transferred bytes e).pc.Fits row := by
  unfold Ingest.raiseDownload
  split
  · dsimp only
    split
    · exact h
    · exact c.raise_fits _ _
  · exact c.raise_fits _ _

theorem Ingest.handle_fits {policy : IngestionPolicy} {e : Failure} {row : Option SourceFile}
    (h : c.handle policy e = some c')
    (hdownload : (∃ a b, c.pc = .download a b) ∨ (∃ a b d x y, c.pc = .recordArchive a b d x y) →
      DownloadFits row) : c'.pc.Fits row := by
  unfold Ingest.handle at h
  split at h
  · cases h; exact trivial
  · cases h; exact trivial
  · cases h; exact trivial
  · cases h; exact trivial
  · cases h; exact trivial
  · cases h; exact trivial
  · rename_i attempt transferred hpc
    cases h
    exact raiseDownload_fits (hdownload (.inl ⟨_, _, hpc⟩))
  · rename_i attempt transferred attemptBytes archive time hpc
    cases h
    exact raiseDownload_fits (hdownload (.inr ⟨_, _, _, _, _, hpc⟩))
  · cases h
  · cases h
    exact c.raise_fits e row

/-- A step of the program keeps the row fitting, also when the answer of a committed operation is
lost. -/
theorem Ingest.step_fits {policy : IngestionPolicy} {r : Reply IngestInput Fault}
    (h : (ingestProgram policy).step s c r = some (s', c'))
    (hfits : c.pc.Fits (s.files c.file)) : c'.pc.Fits (s'.files c.file) := by
  refine Program.step_local (J := fun s c' => c'.pc.Fits (s.files c.file)) h ?_ ?_ ?_
  · intro i next hact
    exact (Ingest.acts_of_act hact).fits hfits
  · intro e he hs
    refine Ingest.handle_fits he ?_
    rintro (⟨a, b, hpc⟩ | ⟨a, b, d, x, y, hpc⟩)
    · rw [hpc] at hfits
      exact hfits
    · rw [hpc] at hfits
      exact hfits
  · intro i f next hact he
    have hacts := Ingest.acts_of_act hact
    refine Ingest.handle_fits he ?_
    rintro (⟨a, b, hpc⟩ | ⟨a, b, d, x, y, hpc⟩)
    · -- The download itself commits nothing.
      rw [hpc] at hacts hfits
      cases hacts with
      | download hlimit => exact hfits
      | move hguard => cases hguard
    · rw [hpc] at hacts
      cases hacts with
      | recordArchive hrec =>
        obtain ⟨row, hrow, hstatus, rfl⟩ := recordArchive_eq_ok hrec
        exact ⟨_, Function.update_self _ _ _, .inr ⟨rfl, rfl⟩⟩
      | move hguard => cases hguard

end Step

/-! ## Locks -/

@[simp] theorem Store.unlock_files (s : Store) (c : Ingest) : (s.unlock c).files = s.files := by
  unfold Store.unlock
  split <;> rfl

@[simp] theorem Store.unlock_tables (s : Store) (c : Ingest) : (s.unlock c).tables = s.tables := by
  unfold Store.unlock
  split <;> rfl

@[simp] theorem Store.afterStep_files (s : Store) (c : Ingest) :
    (s.afterStep c).files = s.files := by
  unfold Store.afterStep
  split
  · rfl
  · exact s.unlock_files c

@[simp] theorem Store.afterStep_tables (s : Store) (c : Ingest) :
    (s.afterStep c).tables = s.tables := by
  unfold Store.afterStep
  split
  · rfl
  · exact s.unlock_tables c

/-- The end of a session frees no lock of another process. -/
theorem Store.unlock_locks_of_ne {s : Store} {c : Ingest} {f : FileId} {q : ProcessId}
    (h : s.locks f = some q) (hq : q ≠ c.owner) : (s.unlock c).locks f = some q := by
  unfold Store.unlock
  split
  · rename_i hheld
    by_cases hf : f = c.file
    · subst hf
      rw [h] at hheld
      exact absurd (Option.some.inj hheld) hq
    · show Function.update s.locks c.file none f = some q
      rw [Function.update_of_ne hf]
      exact h
  · exact h

theorem Lifecycle.reply_eq_some {policy : IngestionPolicy} {w w' : Lifecycle} {p : ProcessId}
    {r : Reply IngestInput Fault} (h : w.reply policy p r = some w') :
    ∃ c store c', w.ingests p = some c ∧
      (ingestProgram policy).step w.store c r = some (store, c') ∧
      w' = ⟨store.afterStep c', Function.update w.ingests p (some c')⟩ := by
  obtain ⟨c, hc, h⟩ := Option.bind_eq_some_iff.mp h
  obtain ⟨⟨store, c'⟩, hstep, heq⟩ := Option.map_eq_some_iff.mp h
  exact ⟨c, store, c', hc, hstep, heq.symm⟩

theorem Lifecycle.reply_ok (policy : IngestionPolicy) {w : Lifecycle} {p : ProcessId}
    {c c' : Ingest} {store : Store} (input : IngestInput) (hc : w.ingests p = some c)
    (hact : c.act w.store input = some (.ok (store, c'))) :
    w.reply policy p (.ok input) =
      some ⟨store.afterStep c', Function.update w.ingests p (some c')⟩ := by
  simp [Lifecycle.reply, hc, Program.step, ingestProgram, hact]

theorem Lifecycle.start_eq_some {w w' : Lifecycle} {p : ProcessId} {remote : RemoteFile}
    {archiveOnly : Bool} {limit : Option Nat} (h : w.start p remote archiveOnly limit = some w') :
    (∀ c, w.ingests p = some c → ∃ outcome, c.pc = .returned outcome) ∧
      w' = ⟨w.store, Function.update w.ingests p
        (some (Ingest.start p remote archiveOnly limit))⟩ := by
  unfold Lifecycle.start at h
  split at h
  · rename_i hidle
    cases h
    refine ⟨fun c hc => ?_, rfl⟩
    rw [hc, Option.all_some] at hidle
    cases hpc : c.pc with
    | returned outcome => exact ⟨outcome, rfl⟩
    | _ => rw [hpc] at hidle; cases hidle
  · cases h

theorem Lifecycle.recover_eq_some {w w' : Lifecycle} {f : FileId} (h : w.recover f = some w') :
    w.store.locks f = none ∧ ∃ row, w.store.files f = some row ∧ row.status ∈ activeStatuses ∧
      w' = ⟨{ w.store with
        files := Function.update w.store.files f (some { row with status := .failedRetryable }) },
        w.ingests⟩ := by
  unfold Lifecycle.recover at h
  split at h
  · rename_i row hlock hrow
    split at h
    · rename_i hactive
      cases h
      exact ⟨hlock, row, hrow, hactive, rfl⟩
    · cases h
  · cases h

/-- The death of a process writes no row. -/
@[simp] theorem Lifecycle.die_files (w : Lifecycle) (p : ProcessId) :
    (w.die p).store.files = w.store.files := by
  unfold Lifecycle.die
  split
  · rfl
  · exact Store.unlock_files _ _

@[simp] theorem Lifecycle.die_tables (w : Lifecycle) (p : ProcessId) :
    (w.die p).store.tables = w.store.tables := by
  unfold Lifecycle.die
  split
  · rfl
  · exact Store.unlock_tables _ _

/-- The survivors of a death. -/
theorem Lifecycle.die_ingests {w : Lifecycle} {p q : ProcessId} :
    (w.die p).ingests q = if q = p then none else w.ingests q := by
  unfold Lifecycle.die
  split
  · rename_i hp
    split
    · rename_i hq
      rw [hq, hp]
    · rfl
  · exact Function.update_apply _ _ _ _

theorem Lifecycle.reply_row {policy : IngestionPolicy} {w w' : Lifecycle} {p : ProcessId}
    {r : Reply IngestInput Fault} (h : w.reply policy p r = some w') (f : FileId) :
    RowChange (w.store.files f) (w'.store.files f) := by
  obtain ⟨c, store, c', -, hstep, rfl⟩ := Lifecycle.reply_eq_some h
  rw [Store.afterStep_files]
  rcases Program.step_durable hstep with rfl | ⟨i, next, hact⟩
  · exact .keep _
  · exact (Ingest.acts_of_act hact).change.row f

theorem Lifecycle.recover_row {w w' : Lifecycle} {g : FileId} (h : w.recover g = some w')
    (f : FileId) : RowChange (w.store.files f) (w'.store.files f) := by
  obtain ⟨-, row, hrow, hactive, rfl⟩ := Lifecycle.recover_eq_some h
  by_cases hf : f = g
  · subst hf
    show RowChange _ (Function.update w.store.files f _ f)
    rw [Function.update_self, hrow]
    refine .move row .failedRetryable ?_
    generalize row.status = s at hactive
    revert hactive
    cases s <;> decide
  · show RowChange _ (Function.update w.store.files g _ f)
    rw [Function.update_of_ne hf]
    exact .keep _

/-- Every event changes each row at most as the repository allows. -/
theorem Lifecycle.next_row {policy : IngestionPolicy} {w w' : Lifecycle} {e : LifecycleEvent}
    (h : w.next policy e = some w') (f : FileId) :
    RowChange (w.store.files f) (w'.store.files f) := by
  cases e with
  | start p remote archiveOnly limit =>
    obtain ⟨-, rfl⟩ := Lifecycle.start_eq_some h
    exact .keep _
  | reply p r => exact Lifecycle.reply_row h f
  | die p =>
    cases h
    rw [Lifecycle.die_files]
    exact .keep _
  | recover g => exact Lifecycle.recover_row h f

/-- What the per-file locks guarantee. -/
structure Lifecycle.Owned (w : Lifecycle) : Prop where
  owner : ∀ p c, w.ingests p = some c → c.owner = p
  locked : ∀ p c, w.ingests p = some c → c.pc.locked = true → w.store.locks c.file = some p
  fits : ∀ p c, w.ingests p = some c → c.pc.Fits (w.store.files c.file)

theorem Lifecycle.Owned.empty : Lifecycle.empty.Owned where
  owner _ _ h := by cases h
  locked _ _ h := by cases h
  fits _ _ h := by cases h

section Owned

variable {policy : IngestionPolicy} {w w' : Lifecycle}

/-- Two ingests that hold a lock hold locks of different files. -/
theorem Lifecycle.Owned.file_ne (h : w.Owned) {p q : ProcessId} {c d : Ingest}
    (hc : w.ingests p = some c) (hd : w.ingests q = some d) (hne : q ≠ p)
    (hcl : c.pc.locked = true) (hdl : d.pc.locked = true) : d.file ≠ c.file := by
  intro hfile
  have hp := h.locked p c hc hcl
  have hq := h.locked q d hd hdl
  rw [hfile, hp] at hq
  exact hne (Option.some.inj hq).symm

/-- A step of one ingest leaves the row of another lock owner's file alone, or creates it. -/
theorem Lifecycle.Owned.row_other (h : w.Owned) {p q : ProcessId} {c d c' : Ingest} {store : Store}
    {r : Reply IngestInput Fault} (hc : w.ingests p = some c) (hd : w.ingests q = some d)
    (hne : q ≠ p) (hdl : d.pc.locked = true)
    (hstep : (ingestProgram policy).step w.store c r = some (store, c')) :
    store.files d.file = w.store.files d.file ∨ (w.store.files d.file = none ∧
      ∃ remote, store.files d.file = some ⟨remote, .discovered, none, none⟩) := by
  rcases Program.step_durable hstep with rfl | ⟨i, next, hact⟩
  · exact .inl rfl
  · have hacts := Ingest.acts_of_act hact
    by_cases hfile : d.file = c.file
    · -- Only one of the two holds the lock of the common file.
      have hcl : c.pc.locked = false := by
        cases hcl : c.pc.locked with
        | false => rfl
        | true => exact absurd hfile (h.file_ne hc hd hne hcl hdl)
      have hchange := hacts.change.row d.file
      cases hrow : w.store.files d.file with
      | none =>
        rw [hrow] at hchange
        generalize store.files d.file = row' at hchange ⊢
        cases hchange with
        | keep => exact .inl rfl
        | create remote => exact .inr ⟨rfl, remote, rfl⟩
      | some row =>
        rw [hfile] at hrow ⊢
        exact .inl (hacts.kept hcl hrow)
    · exact .inl (hacts.change.2 _ hfile)

theorem Lifecycle.Owned.row_kept (h : w.Owned) {p q : ProcessId} {c d c' : Ingest} {store : Store}
    {r : Reply IngestInput Fault} (hc : w.ingests p = some c) (hd : w.ingests q = some d)
    (hne : q ≠ p) (hdl : d.pc.locked = true)
    (hstep : (ingestProgram policy).step w.store c r = some (store, c')) :
    ∀ row, w.store.files d.file = some row → store.files d.file = some row := by
  intro row hrow
  rcases h.row_other hc hd hne hdl hstep with heq | ⟨hnone, -⟩
  · rw [heq]
    exact hrow
  · cases hnone.symm.trans hrow

theorem Lifecycle.Owned.lock_kept (h : w.Owned) {q : ProcessId} {c d c' : Ingest} {store : Store}
    {r : Reply IngestInput Fault} (hd : w.ingests q = some d) (hdl : d.pc.locked = true)
    (hstep : (ingestProgram policy).step w.store c r = some (store, c')) :
    store.locks d.file = some q := by
  have hq := h.locked q d hd hdl
  rcases Program.step_durable hstep with rfl | ⟨i, next, hact⟩
  · exact hq
  · rcases (Ingest.acts_of_act hact).locks with heq | ⟨-, hfree, heq⟩
    · rw [heq]
      exact hq
    · rw [heq, Function.update_of_ne]
      · exact hq
      · intro hfile
        rw [hfile, hfree] at hq
        cases hq

/-- The acting process holds the lock of its new state. -/
theorem Lifecycle.Owned.lock_self (h : w.Owned) {p : ProcessId} {c c' : Ingest} {store : Store}
    {r : Reply IngestInput Fault} (hc : w.ingests p = some c)
    (hstep : (ingestProgram policy).step w.store c r = some (store, c'))
    (hnew : c'.pc.locked = true) : store.locks c.file = some p := by
  have howner := h.owner p c hc
  rcases Program.step_cases hstep with ⟨i, -, hact⟩ | ⟨e, he, rfl, -⟩ | ⟨i, f, next, -, hact, he⟩
  · have hacts := Ingest.acts_of_act hact
    rcases hacts.locked hnew with hcl | hacq
    · exact h.lock_kept hc hcl hstep
    · rcases hacts.locks with heq | ⟨-, -, heq⟩
      · rw [hacq] at hacts
        cases hacts with
        | acquire hfree =>
          show Function.update w.store.locks c.file (some c.owner) c.file = some p
          rw [Function.update_self, howner]
        | move hguard => cases hguard
      · rw [heq, Function.update_self, howner]
  · exact h.lock_kept hc (Ingest.handle_locked he hnew) hstep
  · exact h.lock_kept hc (Ingest.handle_locked he hnew) hstep

theorem Lifecycle.Owned.reply (h : w.Owned) {p : ProcessId} {r : Reply IngestInput Fault}
    (hw : w.reply policy p r = some w') : w'.Owned := by
  obtain ⟨c, store, c', hc, hstep, rfl⟩ := Lifecycle.reply_eq_some hw
  have hsame := Ingest.step_same hstep
  have howner := h.owner p c hc
  have hfile : c'.file = c.file := congrArg RemoteFile.fileId hsame.remote
  refine ⟨?_, ?_, ?_⟩
  · intro q d hd
    rcases update_some_eq_some hd with ⟨rfl, rfl⟩ | ⟨hq, hd⟩
    · rw [hsame.owner, howner]
    · exact h.owner q d hd
  · intro q d hd hdl
    rcases update_some_eq_some hd with ⟨rfl, rfl⟩ | ⟨hq, hd⟩
    · show (store.afterStep d).locks d.file = some q
      rw [Store.afterStep, if_pos hdl, hfile]
      exact h.lock_self hc hstep hdl
    · have hkept := h.lock_kept hd hdl hstep
      show (store.afterStep c').locks d.file = some q
      unfold Store.afterStep
      split
      · exact hkept
      · exact Store.unlock_locks_of_ne hkept (by rw [hsame.owner, howner]; exact hq)
  · intro q d hd
    rw [Store.afterStep_files]
    rcases update_some_eq_some hd with ⟨rfl, rfl⟩ | ⟨hq, hd⟩
    · rw [hfile]
      exact Ingest.step_fits hstep (h.fits q c hc)
    · cases hdl : d.pc.locked with
      | false => exact Pc.fits_of_not_locked hdl
      | true => exact (h.fits q d hd).mono (h.row_kept hc hd hq hdl hstep)

theorem Lifecycle.Owned.start (h : w.Owned) {p : ProcessId} {remote : RemoteFile}
    {archiveOnly : Bool} {limit : Option Nat} (hw : w.start p remote archiveOnly limit = some w') :
    w'.Owned := by
  obtain ⟨-, rfl⟩ := Lifecycle.start_eq_some hw
  refine ⟨?_, ?_, ?_⟩
  · intro q d hd
    rcases update_some_eq_some hd with ⟨rfl, rfl⟩ | ⟨-, hd⟩
    · rfl
    · exact h.owner q d hd
  · intro q d hd hdl
    rcases update_some_eq_some hd with ⟨rfl, rfl⟩ | ⟨-, hd⟩
    · cases hdl
    · exact h.locked q d hd hdl
  · intro q d hd
    rcases update_some_eq_some hd with ⟨rfl, rfl⟩ | ⟨-, hd⟩
    · exact trivial
    · exact h.fits q d hd

theorem Lifecycle.Owned.die (h : w.Owned) (p : ProcessId) : (w.die p).Owned := by
  have hold : ∀ q d, (w.die p).ingests q = some d → q ≠ p ∧ w.ingests q = some d := by
    intro q d hd
    rw [Lifecycle.die_ingests] at hd
    split at hd
    · cases hd
    · exact ⟨by assumption, hd⟩
  refine ⟨?_, ?_, ?_⟩
  · intro q d hd
    exact h.owner q d (hold q d hd).2
  · intro q d hd hdl
    obtain ⟨hq, hd⟩ := hold q d hd
    have hlock := h.locked q d hd hdl
    unfold Lifecycle.die
    split
    · exact hlock
    · rename_i c hc
      exact Store.unlock_locks_of_ne hlock (by rw [h.owner p c hc]; exact hq)
  · intro q d hd
    rw [Lifecycle.die_files]
    exact h.fits q d (hold q d hd).2

theorem Lifecycle.Owned.recover (h : w.Owned) {f : FileId} (hw : w.recover f = some w') :
    w'.Owned := by
  obtain ⟨hfree, row, hrow, -, rfl⟩ := Lifecycle.recover_eq_some hw
  refine ⟨h.owner, h.locked, ?_⟩
  intro q d hd
  cases hdl : d.pc.locked with
  | false => exact Pc.fits_of_not_locked hdl
  | true =>
    -- The recovered file has no lock owner.
    have hfile : d.file ≠ f := by
      intro hfile
      have hlock := h.locked q d hd hdl
      rw [hfile, hfree] at hlock
      cases hlock
    show d.pc.Fits (Function.update w.store.files f _ d.file)
    rw [Function.update_of_ne hfile]
    exact h.fits q d hd

/-- A registration from outside leaves every existing row alone. -/
theorem Lifecycle.Owned.register (h : w.Owned) {remote : RemoteFile}
    (hw : w.register remote = .ok w') : w'.Owned := by
  obtain ⟨files, hreg, rfl⟩ := map_eq_ok.mp hw
  refine ⟨h.owner, h.locked, ?_⟩
  intro q d hd
  exact (h.fits q d hd).mono fun row hrow => registerDiscovery_kept hreg hrow

/-- Every event of the lifecycle keeps the ownership invariant. -/
theorem Lifecycle.Owned.next (h : w.Owned) {e : LifecycleEvent} (hw : w.next policy e = some w') :
    w'.Owned := by
  cases e with
  | start p remote archiveOnly limit => exact h.start hw
  | reply p r => exact h.reply hw
  | die p =>
    cases hw
    exact h.die p
  | recover f => exact h.recover hw

/-! ## Archives are attached once -/

theorem registerDiscovery_archive {remote : RemoteFile} {owned : Bool} {files files' : Files}
    {object : ArchiveObject} (h : registerDiscovery remote owned files = .ok files')
    (ha : archiveOf files remote.fileId = some object) :
    archiveOf files' remote.fileId = some object := by
  obtain ⟨row, hrow, harchive⟩ := Option.bind_eq_some_iff.mp ha
  unfold registerDiscovery at h
  simp only [hrow] at h
  split at h
  · cases h
    exact ha
  · split at h
    · cases h
    · cases h
      rw [archiveOf, Function.update_self, rediscovered]
      split
      · exact harchive
      · exact harchive

/-- The file of a recorded archive had none before. -/
theorem Ingest.Acts.archive {s s' : Store} {c c' : Ingest} {pc : Pc} (h : c.Acts s pc s' c')
    (hfits : pc.Fits (s.files c.file)) {f : FileId} {object : ArchiveObject}
    (ha : archiveOf s.files f = some object) : archiveOf s'.files f = some object := by
  by_cases hf : f = c.file
  · subst hf
    cases h with
    | register hreg => exact registerDiscovery_archive hreg ha
    | refresh hreg hrow => exact registerDiscovery_archive hreg ha
    | recordArchive hrec =>
      -- A file that is still downloading has no archive.
      obtain ⟨row, hrow, hstatus, -⟩ := recordArchive_eq_ok hrec
      obtain ⟨r, hr, hcase⟩ := hfits
      cases hrow.symm.trans hr
      rw [archiveOf, hrow] at ha
      rcases hcase with ⟨-, hnone⟩ | ⟨harchived, -⟩
      · rw [Option.bind_some, hnone] at ha
        cases ha
      · rw [hstatus] at harchived
        cases harchived
    | move hguard hmove =>
      obtain ⟨row, hrow, -, -, rfl⟩ := transition_eq_ok hmove
      rw [archiveOf, hrow] at ha
      show archiveOf (Function.update s.files c.file _) c.file = some object
      rw [archiveOf, Function.update_self]
      exact ha
    | _ => exact ha
  · rw [archiveOf, h.change.2 f hf]
    exact ha

theorem Lifecycle.register_archive {remote : RemoteFile} (hw : w.register remote = .ok w')
    {f : FileId} {object : ArchiveObject} (ha : archiveOf w.store.files f = some object) :
    archiveOf w'.store.files f = some object := by
  obtain ⟨files, hreg, rfl⟩ := map_eq_ok.mp hw
  obtain ⟨row, hrow, harchive⟩ := Option.bind_eq_some_iff.mp ha
  show archiveOf files f = some object
  rw [archiveOf, registerDiscovery_kept hreg hrow]
  exact harchive

theorem Lifecycle.Owned.archive (h : w.Owned) {e : LifecycleEvent}
    (hw : w.next policy e = some w') {f : FileId} {object : ArchiveObject}
    (ha : archiveOf w.store.files f = some object) : archiveOf w'.store.files f = some object := by
  cases e with
  | start p remote archiveOnly limit =>
    obtain ⟨-, rfl⟩ := Lifecycle.start_eq_some hw
    exact ha
  | reply p r =>
    obtain ⟨c, store, c', hc, hstep, rfl⟩ := Lifecycle.reply_eq_some hw
    show archiveOf (store.afterStep c').files f = some object
    rw [Store.afterStep_files]
    rcases Program.step_durable hstep with rfl | ⟨i, next, hact⟩
    · exact ha
    · exact (Ingest.acts_of_act hact).archive (h.fits p c hc) ha
  | die p =>
    cases hw
    rw [Lifecycle.die_files]
    exact ha
  | recover g =>
    obtain ⟨-, row, hrow, -, rfl⟩ := Lifecycle.recover_eq_some hw
    show archiveOf (Function.update w.store.files g _) f = some object
    by_cases hf : f = g
    · subst hf
      rw [archiveOf, hrow] at ha
      rw [archiveOf, Function.update_self]
      exact ha
    · rw [archiveOf, Function.update_of_ne hf]
      exact ha

theorem lifecycle_owned {ok : Lifecycle → LifecycleEvent → Prop}
    (h : Reach (lifecycleSystem policy) ok w) : w.Owned := by
  refine h.invariant (P := Lifecycle.Owned) ?_ ?_
  · intro s hs
    rw [show s = .empty from hs]
    exact .empty
  · exact fun s e s' hP _ hnext => hP.next hnext

end Owned

end Makolet.Ingestion
