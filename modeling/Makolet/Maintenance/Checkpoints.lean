import Makolet.Maintenance.World

/-!
# Checkpoints in sequence

A step changes the run tables through one of the five operations of a rebuild or not at all
(`RunChange`), and `Sequenced` holds of them after every step, whatever the processes do, however
they fail and whoever resumes them: the checkpoints of a run are the first entries of its sequence.
-/

set_option autoImplicit false

namespace Makolet.Maintenance

open Makolet.Domain Makolet.Lib Makolet.Normalized Makolet.Ingestion

/-! ## What one operation does -/

/-- A replay that belongs to no rebuild relies on its own row from here to its apply. -/
def CallPc.linked : CallPc → Bool
  | .stage (some _) | .apply (some _) => true
  | _ => false

/-- Everything the awaited operation of an ingest or a replay can do. -/
inductive CallActs (wiring : Wiring) (p : ProcessId) (origin : Origin) (f : FileId) (s : Shared) :
    CallPc → Shared → CallPc → Prop
  | silent {pc pc' : CallPc} (h : pc'.linked = false) : CallActs wiring p origin f s pc s pc'
  | acquire (h : s.leases f = none) : CallActs wiring p origin f s .acquire
      { s with leases := Function.update s.leases f (some p) } origin.owning
  | begin {db : Database} {replay : ReplayId} (hlease : s.leases f = some p)
      (h : beginReplay f origin.rebuildRunId s.db = .ok (db, replay)) :
      CallActs wiring p origin f s .begin { s with db := db } (.stage (some replay))
  | stage {replay : Option ReplayId} (staging : Staging) (hlease : s.leases f = some p) :
      CallActs wiring p origin f s (.stage replay)
        { s with db := { s.db with staging := Function.update s.db.staging f staging } }
        (.apply replay)
  | apply {replay : Option ReplayId} {settings : ApplySettings} {db : Database}
      (hlease : s.leases f = some p) (h : applySource settings f s.db = .ok db) :
      CallActs wiring p origin f s (.apply replay) { s with db := db } (afterApply replay)
  | finish {replay : ReplayId} {error : Option Failure} {db : Database}
      (hlease : s.leases f = some p) (h : finishReplay replay s.db = .ok db) :
      CallActs wiring p origin f s (.finish replay error) { s with db := db } (.release error)
  | release {error : Option Failure} (h : s.leases f = some p) :
      CallActs wiring p origin f s (.release error)
        { s with leases := Function.update s.leases f none } (afterRelease error)
  | bootstrap {cursor : Option ItemId} (now : Time) :
      CallActs wiring p origin f s (.bootstrap cursor)
        { s with db := (bootstrapBatch now f cursor s.db).1 }
        (afterBatch (bootstrapBatch now f cursor s.db).2)

section Calls

variable {wiring : Wiring} {p : ProcessId} {origin : Origin} {f : FileId} {s s' : Shared}
  {pc pc' : CallPc} {input : Input}

theorem owned_eq_ok {k : Except Failure (Shared × CallPc)} {r : Shared × CallPc}
    (h : s.owned p f k = .ok r) : s.leases f = some p ∧ k = .ok r :=
  require_bind_eq_ok.mp h

theorem callActs_of_callAct (h : callAct wiring p origin f s pc input = some (.ok (s', pc'))) :
    CallActs wiring p origin f s pc s' pc' := by
  unfold callAct at h
  split at h
  · -- The first barrier check.
    obtain ⟨-, -, heq⟩ := map_eq_ok.mp (Option.some.inj h)
    cases heq
    exact .silent (by cases origin <;> rfl)
  · split at h
    · cases h
    · cases h
      exact .silent (by split <;> rfl)
  · split at h
    · cases h
    · rename_i hfree
      cases h
      exact .acquire hfree
  · split at h
    · cases h
    · obtain ⟨-, hk⟩ := owned_eq_ok (Option.some.inj h)
      cases hk
      exact .silent (by split <;> rfl)
  · obtain ⟨hlease, hk⟩ := owned_eq_ok (Option.some.inj h)
    obtain ⟨begun, hbegun, heq⟩ := map_eq_ok.mp hk
    cases heq
    exact .begin hlease hbegun
  · obtain ⟨hlease, hk⟩ := owned_eq_ok (Option.some.inj h)
    cases hk
    exact .stage _ hlease
  · obtain ⟨hlease, hk⟩ := owned_eq_ok (Option.some.inj h)
    obtain ⟨db, hdb, heq⟩ := map_eq_ok.mp hk
    cases heq
    exact .apply hlease hdb
  · obtain ⟨hlease, hk⟩ := owned_eq_ok (Option.some.inj h)
    obtain ⟨db, hdb, heq⟩ := map_eq_ok.mp hk
    cases heq
    exact .finish hlease hdb
  · rename_i error
    cases h
    split
    · rename_i hlease
      exact .release hlease
    · exact .silent (by cases error <;> rfl)
  · split at h
    · cases h
      exact .bootstrap _
    · cases h
      exact .silent rfl
  · cases h

/-- No exception handler goes on with the replay. -/
theorem callHandle_linked {e : Failure} (h : callHandle e pc = some pc') : pc'.linked = false := by
  cases pc with
  | stage replay | apply replay =>
    cases replay with
    | none =>
      cases h
      rfl
    | some id =>
      simp only [callHandle] at h
      split at h
      · cases h
        rfl
      · cases h
        rfl
  | _ =>
    cases h <;> rfl

end Calls

/-! ## The run tables -/

/-- What a step can do to the runs, their files, the control row and the checkpoints. -/
inductive RunChange (s : Shared) : Shared → Prop
  | keep {s' : Shared} (hactive : s'.db.active = s.db.active) (hruns : s'.db.runs = s.db.runs)
      (hfiles : s'.db.files = s.db.files) (hcheckpoints : s'.checkpoints = s.checkpoints)
      (hnext : s.db.nextId ≤ s'.db.nextId) : RunChange s s'
  | begin {requestedBy parserVersion : String} {now : Time} {db : Database} {id : RunId}
      (h : beginRebuild requestedBy parserVersion now s.db = .ok (db, id)) :
      RunChange s { s with db := db }
  | resume {id : RunId} {db : Database} (h : resumeRebuild id s.db = .ok db) :
      RunChange s { s with db := db }
  | checkpoint {id : RunId} {sequence : Nat} {file : ArchivedSourceFile} {db : Database}
      (h : completeRebuildFile id sequence file s.db = .ok db) :
      RunChange s { s with
        db := db
        checkpoints := s.checkpoints ++ [(id, sequence, file.sourceFileId)] }
  | fail {id : RunId} {errorCode : ErrorKind} {errorMessage : String} {db : Database}
      (h : failRebuild id errorCode errorMessage s.db = .ok db) : RunChange s { s with db := db }
  | finish {reconcile : Reconcile} {id : RunId} {db : Database}
      (h : finishRebuild reconcile id s.db = .ok db) : RunChange s { s with db := db }

theorem RunChange.refl (s : Shared) : RunChange s s :=
  .keep rfl rfl rfl rfl le_rfl

section Change

variable {wiring : Wiring} {p : ProcessId} {s s' : Shared}

theorem CallActs.runChange {origin : Origin} {f : FileId} {pc pc' : CallPc}
    (h : CallActs wiring p origin f s pc s' pc') : RunChange s s' := by
  cases h with
  | silent => exact .refl s
  | begin _ hbegin =>
    cases beginReplay_eq_ok hbegin
    exact .keep rfl rfl rfl rfl (Nat.le_succ _)
  | apply _ happly =>
    obtain ⟨tables, rfl, -⟩ := applySource_eq_ok happly
    exact .keep rfl rfl rfl rfl le_rfl
  | finish _ hfinish =>
    cases finishReplay_eq_ok hfinish
    exact .keep rfl rfl rfl rfl le_rfl
  | acquire | stage | release | bootstrap => exact .keep rfl rfl rfl rfl le_rfl

/-- An operation of the rebuild loop itself changes no lease and no replay row. -/
structure LoopActs (s s' : Shared) : Prop where
  runChange : RunChange s s'
  leases : s'.leases = s.leases
  replays : s'.db.replays = s.db.replays

/-- What an answered operation does: it is one of a call, or one of the rebuild loop. -/
def Acted (wiring : Wiring) (p : ProcessId) (s s' : Shared) : Prop :=
  (∃ origin f pc pc', CallActs wiring p origin f s pc s' pc') ∨ LoopActs s s'

theorem acted_of_callAct {origin : Origin} {f : FileId} {pc : CallPc} {input : Input} {α : Type}
    {g : CallPc → α} {a : α}
    (h : (callAct wiring p origin f s pc input).map
      (fun result => result.map fun next => (next.1, g next.2)) = some (.ok (s', a))) :
    ∃ pc', CallActs wiring p origin f s pc s' pc' ∧ a = g pc' := by
  obtain ⟨result, hresult, hmap⟩ := Option.map_eq_some_iff.mp h
  obtain ⟨next, hnext, heq⟩ := map_eq_ok.mp hmap
  cases heq
  rw [hnext] at hresult
  exact ⟨next.2, callActs_of_callAct hresult, rfl⟩

theorem rebuildAct_acted {id : RunId} {pc pc' : RebuildPc} {input : Input}
    (h : rebuildAct wiring p id s pc input = some (.ok (s', pc'))) : Acted wiring p s s' := by
  unfold rebuildAct at h
  split at h
  · split at h
    · cases h
    · cases h
      exact .inr ⟨.keep rfl rfl rfl rfl le_rfl, rfl, rfl⟩
  · obtain ⟨db, hdb, heq⟩ := map_eq_ok.mp (Option.some.inj h)
    cases heq
    refine .inr ⟨.resume hdb, rfl, ?_⟩
    obtain ⟨-, -, -, -, rfl⟩ := resumeRebuild_eq_ok hdb
    rfl
  · obtain ⟨page, -, heq⟩ := map_eq_ok.mp (Option.some.inj h)
    cases heq
    exact .inr ⟨.refl s, rfl, rfl⟩
  · obtain ⟨callPc, hacts, -⟩ := acted_of_callAct h
    exact .inl ⟨_, _, _, _, hacts⟩
  · obtain ⟨db, hdb, heq⟩ := map_eq_ok.mp (Option.some.inj h)
    cases heq
    refine .inr ⟨.checkpoint hdb, rfl, ?_⟩
    obtain ⟨-, -, -, -, rfl⟩ := completeRebuildFile_eq_ok hdb
    rfl
  · obtain ⟨db, hdb, heq⟩ := map_eq_ok.mp (Option.some.inj h)
    cases heq
    refine .inr ⟨.finish hdb, rfl, ?_⟩
    obtain ⟨-, -, -, -, -, rfl⟩ := finishRebuild_eq_ok hdb
    rfl
  · obtain ⟨db, hdb, heq⟩ := map_eq_ok.mp (Option.some.inj h)
    cases heq
    refine .inr ⟨.fail hdb, rfl, ?_⟩
    obtain ⟨-, rfl⟩ := failRebuild_eq_ok hdb
    rfl
  · cases h
    exact .inr ⟨.keep rfl rfl rfl rfl le_rfl, rfl, rfl⟩
  · cases h

theorem act_acted {proc proc' : Proc} {input : Input}
    (h : proc.act wiring p s input = some (.ok (s', proc'))) : Acted wiring p s s' := by
  unfold Proc.act at h
  split at h
  · obtain ⟨callPc, hacts, -⟩ := acted_of_callAct h
    exact .inl ⟨_, _, _, _, hacts⟩
  · obtain ⟨begun, hbegun, heq⟩ := map_eq_ok.mp (Option.some.inj h)
    cases heq
    obtain ⟨-, -, -, -, -, hreplays, -⟩ := beginRebuild_eq_ok hbegun
    exact .inr ⟨.begin hbegun, rfl, hreplays⟩
  · obtain ⟨result, hresult, hmap⟩ := Option.map_eq_some_iff.mp h
    obtain ⟨next, hnext, heq⟩ := map_eq_ok.mp hmap
    cases heq
    rw [hnext] at hresult
    exact rebuildAct_acted hresult
  · cases h

theorem Acted.runChange (h : Acted wiring p s s') : RunChange s s' := by
  rcases h with ⟨_, _, _, _, hacts⟩ | hloop
  · exact hacts.runChange
  · exact hloop.runChange

end Change

/-! ## One step of the system -/

/-- A process at its first operation. -/
def Proc.starting : Proc → Bool
  | .call .ingest _ .check | .call (.replay none) _ .check => true
  | .begin _ _ | .rebuild _ .lock => true
  | _ => false

/-- What a step can do: start a process, answer one, take a session or a process away, or write a
source row. -/
inductive Steps (wiring : Wiring) (w : World) : Label → World → Prop
  | start {p : ProcessId} {act : Act} {proc : Proc} (hfree : w.procs p = none)
      (hstart : proc.starting = true) :
      Steps wiring w (.proc p act) { w with procs := Function.update w.procs p (some proc) }
  | reply {p : ProcessId} {r : Reply Input Fault} {proc proc' : Proc} {s : Shared}
      (hproc : w.procs p = some proc)
      (hstep : (program wiring p).step w.shared proc r = some (s, proc')) :
      Steps wiring w (.proc p (.reply r))
        ⟨s, Function.update w.procs p (some proc'), w.intrusions ++ intrusion proc w.shared s⟩
  | crash {p : ProcessId} : Steps wiring w (.proc p .crash)
      { w with shared := w.shared.unlock p, procs := Function.update w.procs p none }
  | loseSession {p : ProcessId} : Steps wiring w (.proc p .loseSession)
      { w with shared := w.shared.unlock p }
  | source (row : SourceFile) :
      Steps wiring w (.source row) { w with shared := w.shared.writeSource row }

section Step

variable {wiring : Wiring} {w w' : World} {label : Label}

theorem World.start_eq_some {p : ProcessId} {proc : Proc} (h : w.start p proc = some w') :
    w.procs p = none ∧ w' = { w with procs := Function.update w.procs p (some proc) } := by
  unfold World.start at h
  split at h
  · rename_i hfree
    cases h
    exact ⟨hfree, rfl⟩
  · cases h

theorem steps_of_next (h : next wiring w label = some w') : Steps wiring w label w' := by
  unfold next at h
  split at h
  · obtain ⟨hfree, rfl⟩ := World.start_eq_some h
    exact .start hfree rfl
  · obtain ⟨hfree, rfl⟩ := World.start_eq_some h
    exact .start hfree rfl
  · obtain ⟨hfree, rfl⟩ := World.start_eq_some h
    exact .start hfree rfl
  · obtain ⟨hfree, rfl⟩ := World.start_eq_some h
    exact .start hfree rfl
  · obtain ⟨proc, hproc, h⟩ := Option.bind_eq_some_iff.mp h
    obtain ⟨after, hstep, heq⟩ := Option.map_eq_some_iff.mp h
    cases heq
    exact .reply hproc hstep
  · cases h
    exact .crash
  · cases h
    exact .loseSession
  · cases h
    exact .source _

theorem Steps.runChange (h : Steps wiring w label w') : RunChange w.shared w'.shared := by
  cases h with
  | start => exact .refl _
  | reply _ hstep =>
    rcases Program.step_durable hstep with hsame | ⟨input, proc', hact⟩
    · rw [hsame]
      exact .refl _
    · exact (act_acted hact).runChange
  | crash | loseSession | source => exact .keep rfl rfl rfl rfl le_rfl

end Step

/-! ## Checkpoints in sequence -/

/-- The progress of one run. -/
structure RebuildRun.Ordered (s : Shared) (run : RebuildRun) : Prop where
  last : run.lastSequence.getD 0 = run.sourceFilesCompleted
  total : run.sourceFilesTotal = (s.db.sequenceOf run.id).length
  log : s.checkpointsOf run.id = (s.db.sequenceOf run.id).take run.sourceFilesCompleted
  done : run.status = .completed → run.sourceFilesCompleted = run.sourceFilesTotal
  active : run.status ≠ .completed → s.db.active = some run.id

structure Sequenced (s : Shared) : Prop where
  numbered : ∀ id, (s.db.sequenceOf id).map Prod.fst =
    List.range' 1 (s.db.sequenceOf id).length
  ordered : ∀ run ∈ s.db.runs, run.Ordered s
  unique : Table.UniqueOn RebuildRun.id s.db.runs
  known : ∀ run ∈ s.db.runs, run.id < s.db.nextId
  filesKnown : ∀ f ∈ s.db.files, f.rebuildRunId < s.db.nextId
  logKnown : ∀ c ∈ s.checkpoints, ∃ run ∈ s.db.runs, run.id = c.1

section Sequenced

variable {s s' : Shared}

/-- The numbers of a fresh list. -/
theorem map_sequence_numbered (entries : List RebuildFile) :
    (numbered entries).map RebuildFile.sequence = List.range' 1 entries.length := by
  rw [numbered, List.map_map]
  apply List.ext_getElem
  · simp
  · intro i h₁ h₂
    simp [Nat.add_comm]

theorem rebuildRunId_of_mem_sequence {db : Database} {id : RunId} {cutoff : Time}
    {f : RebuildFile} (h : f ∈ rebuildSequence db id cutoff) : f.rebuildRunId = id := by
  rw [rebuildSequence, numbered, List.mem_map] at h
  obtain ⟨e, he, rfl⟩ := h
  have hmem : e.1 ∈ ((db.sources.filter (eligible cutoff)).map (rebuildEntry db id)).insertionSort
      RebuildFile.SequencedBefore := List.fst_mem_of_mem_zipIdx he
  rw [List.mem_insertionSort, List.mem_map] at hmem
  obtain ⟨row, -, hrow⟩ := hmem
  rw [← hrow]
  rfl

theorem RebuildRun.Ordered.congr {run : RebuildRun} (h : run.Ordered s)
    (hlog : s'.checkpointsOf run.id = s.checkpointsOf run.id)
    (hsequence : s'.db.sequenceOf run.id = s.db.sequenceOf run.id)
    (hactive : run.status ≠ .completed → s'.db.active = s.db.active) : run.Ordered s' where
  last := h.last
  total := by rw [hsequence]; exact h.total
  log := by rw [hlog, hsequence]; exact h.log
  done := h.done
  active := fun hstatus => (hactive hstatus).trans (h.active hstatus)

/-- An update of one run that leaves the sequences alone. -/
theorem Sequenced.of_setRun (h : Sequenced s) {id : RunId} {change : RebuildRun → RebuildRun}
    (hruns : s'.db.runs = Table.updateAt RebuildRun.id id change s.db.runs)
    (hid : ∀ r, (change r).id = r.id)
    (hsequence : ∀ j, s'.db.sequenceOf j = s.db.sequenceOf j)
    (hnext : s'.db.nextId = s.db.nextId)
    (hfiles : ∀ f ∈ s'.db.files, f.rebuildRunId < s.db.nextId)
    (hlog : ∀ c ∈ s'.checkpoints, ∃ run ∈ s.db.runs, run.id = c.1)
    (hother : ∀ run ∈ s.db.runs, run.id ≠ id → run.Ordered s')
    (hself : ∀ run ∈ s.db.runs, run.id = id → (change run).Ordered s') : Sequenced s' where
  numbered := fun j => by rw [hsequence]; exact h.numbered j
  ordered := by
    intro run hrun
    rw [hruns] at hrun
    rcases Table.mem_updateAt hrun with ⟨hold, hne⟩ | ⟨old, hold, heq, rfl⟩
    · exact hother run hold hne
    · exact hself old hold heq
  unique := by
    rw [hruns]
    exact Table.updateAt_unique (fun r _ => hid r) h.unique
  known := by
    intro run hrun
    rw [hruns] at hrun
    rw [hnext]
    rcases Table.mem_updateAt hrun with ⟨hold, -⟩ | ⟨old, hold, -, rfl⟩
    · exact h.known run hold
    · rw [hid]
      exact h.known old hold
  filesKnown := fun f hf => by rw [hnext]; exact hfiles f hf
  logKnown := by
    intro c hc
    obtain ⟨run, hrun, heq⟩ := hlog c hc
    rw [hruns]
    by_cases hk : run.id = id
    · exact ⟨change run, Table.mem_updateAt_self hrun hk, (hid run).trans heq⟩
    · exact ⟨run, Table.mem_updateAt_of_ne hrun hk, heq⟩

theorem Sequenced.keep (h : Sequenced s) (hactive : s'.db.active = s.db.active)
    (hruns : s'.db.runs = s.db.runs) (hfiles : s'.db.files = s.db.files)
    (hcheckpoints : s'.checkpoints = s.checkpoints) (hnext : s.db.nextId ≤ s'.db.nextId) :
    Sequenced s' := by
  have hsequence : ∀ j, s'.db.sequenceOf j = s.db.sequenceOf j := fun j => by
    rw [Database.sequenceOf, Database.filesOf, hfiles]
    rfl
  have hlog : ∀ j, s'.checkpointsOf j = s.checkpointsOf j := fun j => by
    rw [Shared.checkpointsOf, hcheckpoints]
    rfl
  constructor
  · intro j
    rw [hsequence]
    exact h.numbered j
  · intro run hrun
    rw [hruns] at hrun
    exact (h.ordered run hrun).congr (hlog _) (hsequence _) fun _ => hactive
  · rw [hruns]
    exact h.unique
  · intro run hrun
    rw [hruns] at hrun
    exact Nat.lt_of_lt_of_le (h.known run hrun) hnext
  · intro f hf
    rw [hfiles] at hf
    exact Nat.lt_of_lt_of_le (h.filesKnown f hf) hnext
  · intro c hc
    rw [hcheckpoints] at hc
    rw [hruns]
    exact h.logKnown c hc

/-- A status change of the active run, or of any unfinished run, keeps the order. -/
theorem Sequenced.setStatus (h : Sequenced s) {id : RunId} {change : RebuildRun → RebuildRun}
    (hactive : s.db.active = some id) (hid : ∀ r, (change r).id = r.id)
    (hlast : ∀ r, (change r).lastSequence = r.lastSequence)
    (htotal : ∀ r, (change r).sourceFilesTotal = r.sourceFilesTotal)
    (hcompleted : ∀ r, (change r).sourceFilesCompleted = r.sourceFilesCompleted)
    (hstatus : ∀ r, (change r).status ≠ .completed) :
    Sequenced { s with db := s.db.setRun id change } := by
  refine h.of_setRun rfl hid (fun _ => rfl) rfl h.filesKnown h.logKnown ?_ ?_
  · intro run hrun _
    exact (h.ordered run hrun).congr rfl rfl fun _ => rfl
  · intro run hrun heq
    have hold := h.ordered run hrun
    constructor
    · rw [hlast, hcompleted]
      exact hold.last
    · rw [htotal, hid]
      exact hold.total
    · rw [hid, hcompleted]
      exact hold.log
    · intro hdone
      exact absurd hdone (hstatus run)
    · intro _
      rw [hid, heq]
      exact hactive

theorem rebuildSequence_numbered (db : Database) (id : RunId) (cutoff : Time) :
    (rebuildSequence db id cutoff).map RebuildFile.sequence =
      List.range' 1 (rebuildSequence db id cutoff).length := by
  rw [rebuildSequence, map_sequence_numbered, numbered, List.length_map, List.length_zipIdx]

/-- The sequences after the rows of a new run are added. -/
theorem sequenceOf_append {db db' : Database} {more : List RebuildFile} {id : RunId}
    (hfiles : db'.files = db.files ++ more) (hold : ∀ f ∈ db.files, f.rebuildRunId ≠ id)
    (hmore : ∀ f ∈ more, f.rebuildRunId = id) (j : RunId) :
    db'.sequenceOf j = if j = id then more.map fun f => (f.sequence, f.sourceFileId)
      else db.sequenceOf j := by
  rw [Database.sequenceOf, Database.filesOf, hfiles, List.filter_append, List.map_append]
  split
  · rename_i hj
    subst hj
    have hnone : db.files.filter (fun f => decide (f.rebuildRunId = j)) = [] :=
      List.filter_eq_nil_iff.mpr fun f hf => by simpa using hold f hf
    have hall : more.filter (fun f => decide (f.rebuildRunId = j)) = more :=
      List.filter_eq_self.mpr fun f hf => by simpa using hmore f hf
    rw [hnone, hall, List.map_nil, List.nil_append]
  · rename_i hj
    have hnone : more.filter (fun f => decide (f.rebuildRunId = j)) = [] :=
      List.filter_eq_nil_iff.mpr fun f hf => by
        rw [hmore f hf]
        simpa using Ne.symm hj
    rw [hnone, List.map_nil, List.append_nil]
    rfl

/-- A run without checkpoints. -/
theorem checkpointsOf_eq_nil {id : RunId} (h : ∀ c ∈ s.checkpoints, c.1 ≠ id) :
    s.checkpointsOf id = [] := by
  have hnone : s.checkpoints.filter (fun c => decide (c.1 = id)) = [] :=
    List.filter_eq_nil_iff.mpr fun c hc => by simpa using h c hc
  rw [Shared.checkpointsOf, hnone, List.map_nil]

theorem Sequenced.begin (h : Sequenced s) {requestedBy parserVersion : String} {now : Time}
    {db : Database} {id : RunId}
    (hbegin : beginRebuild requestedBy parserVersion now s.db = .ok (db, id)) :
    Sequenced { s with db := db } := by
  obtain ⟨hnone, rfl, hactive, hnext, hfiles, -, run, hruns, hid, hstatus, htotal, hcompleted,
    hlast⟩ := beginRebuild_eq_ok hbegin
  have hsequence : ∀ j, db.sequenceOf j = _ := sequenceOf_append hfiles
    (fun f hf => Nat.ne_of_lt (h.filesKnown f hf)) fun f hf => rebuildRunId_of_mem_sequence hf
  have hself : db.sequenceOf s.db.nextId =
      (rebuildSequence s.db s.db.nextId now).map fun f => (f.sequence, f.sourceFileId) := by
    rw [hsequence, if_pos rfl]
  have hfresh : s.checkpointsOf s.db.nextId = [] := checkpointsOf_eq_nil fun c hc => by
    obtain ⟨known, hknown, heq⟩ := h.logKnown c hc
    rw [← heq]
    exact Nat.ne_of_lt (h.known known hknown)
  -- Every earlier run is completed, since an unfinished one would be active.
  have hearlier : ∀ old ∈ s.db.runs, old.status = .completed := by
    intro old hold
    by_contra hunfinished
    rw [(h.ordered old hold).active hunfinished] at hnone
    cases hnone
  have hne : ∀ old ∈ s.db.runs, old.id ≠ s.db.nextId := fun old hold =>
    Nat.ne_of_lt (h.known old hold)
  constructor
  · intro j
    show (db.sequenceOf j).map Prod.fst = List.range' 1 (db.sequenceOf j).length
    by_cases hj : j = s.db.nextId
    · rw [hj, hself, List.map_map, List.length_map]
      exact rebuildSequence_numbered s.db s.db.nextId now
    · rw [hsequence, if_neg hj]
      exact h.numbered j
  · intro other hother
    change other ∈ db.runs at hother
    rw [hruns, List.mem_append, List.mem_singleton] at hother
    rcases hother with hold | rfl
    · refine (h.ordered other hold).congr rfl ?_ fun hunfinished =>
        absurd (hearlier other hold) hunfinished
      show db.sequenceOf other.id = _
      rw [hsequence, if_neg (hne other hold)]
    · constructor
      · rw [hlast, hcompleted]
        rfl
      · rw [htotal, hid, hself, List.length_map]
      · rw [hid, hcompleted, List.take_zero]
        exact hfresh
      · intro hdone
        rw [hstatus] at hdone
        cases hdone
      · intro _
        rw [hid]
        exact hactive
  · show Table.UniqueOn RebuildRun.id db.runs
    rw [hruns, Table.UniqueOn, List.map_append, List.nodup_append]
    refine ⟨h.unique, List.nodup_singleton _, ?_⟩
    intro a ha b hb
    obtain ⟨old, hold, rfl⟩ := List.mem_map.mp ha
    rw [List.map_singleton, List.mem_singleton] at hb
    rw [hb, hid]
    exact hne old hold
  · intro other hother
    change other ∈ db.runs at hother
    show other.id < db.nextId
    rw [hruns, List.mem_append, List.mem_singleton] at hother
    rw [hnext]
    rcases hother with hold | rfl
    · exact Nat.lt_succ_of_lt (h.known other hold)
    · rw [hid]
      exact Nat.lt_succ_self _
  · intro f hf
    change f ∈ db.files at hf
    show f.rebuildRunId < db.nextId
    rw [hfiles, List.mem_append] at hf
    rw [hnext]
    rcases hf with hold | hnew
    · exact Nat.lt_succ_of_lt (h.filesKnown f hold)
    · rw [rebuildRunId_of_mem_sequence hnew]
      exact Nat.lt_succ_self _
  · intro c hc
    obtain ⟨known, hknown, heq⟩ := h.logKnown c hc
    refine ⟨known, ?_, heq⟩
    show known ∈ db.runs
    rw [hruns]
    exact List.mem_append_left _ hknown

/-- In a numbered sequence the entry with the number `k + 1` stands at the place `k`. -/
theorem getElem?_of_numbered {sequence : List (Nat × FileId)} {k : Nat} {f : FileId}
    (h : sequence.map Prod.fst = List.range' 1 sequence.length) (hmem : (k + 1, f) ∈ sequence) :
    sequence[k]? = some (k + 1, f) := by
  obtain ⟨i, hi, heq⟩ := List.getElem_of_mem hmem
  have hnumber : (sequence.map Prod.fst)[i]? = some (k + 1) := by
    rw [List.getElem?_map, List.getElem?_eq_getElem hi, heq]
    rfl
  rw [h, List.getElem?_range' hi, Option.some.injEq] at hnumber
  have hik : i = k := by omega
  subst hik
  rw [List.getElem?_eq_getElem hi, heq]

theorem checkpointsOf_append (id j : RunId) (sequence : Nat) (f : FileId) (db : Database) :
    Shared.checkpointsOf
        { s with db := db, checkpoints := s.checkpoints ++ [(id, sequence, f)] } j =
      s.checkpointsOf j ++ if id = j then [(sequence, f)] else [] := by
  rw [Shared.checkpointsOf, List.filter_append, List.map_append]
  by_cases hj : id = j
  · rw [if_pos hj, List.filter_cons_of_pos (by simpa using hj), List.filter_nil]
    rfl
  · rw [if_neg hj, List.filter_cons_of_neg (by simpa using hj), List.filter_nil]
    rfl

/-- The status of a file is no part of the sequence. -/
theorem sequenceOf_map_status {db db' : Database} {c : RebuildFile → Prop} [DecidablePred c]
    (h : db'.files = db.files.map fun f => if c f then { f with status := .completed } else f)
    (j : RunId) : db'.sequenceOf j = db.sequenceOf j := by
  rw [Database.sequenceOf, Database.sequenceOf, Database.filesOf, Database.filesOf, h]
  induction db.files with
  | nil => rfl
  | cons f rest ih =>
    by_cases hc : c f
    · by_cases hj : f.rebuildRunId = j
      · simpa [hc, hj] using ih
      · simpa [hc, hj] using ih
    · by_cases hj : f.rebuildRunId = j
      · simpa [hc, hj] using ih
      · simpa [hc, hj] using ih

theorem Sequenced.checkpoint (h : Sequenced s) {id : RunId} {sequence : Nat}
    {file : ArchivedSourceFile} {db : Database}
    (hcomplete : completeRebuildFile id sequence file s.db = .ok db) :
    Sequenced { s with
      db := db
      checkpoints := s.checkpoints ++ [(id, sequence, file.sourceFileId)] } := by
  obtain ⟨run, hrun, hsequence, ⟨f, hf, hat⟩, rfl⟩ := completeRebuildFile_eq_ok hcomplete
  have hmem : run ∈ s.db.runs := Table.mem_of_lookup hrun
  have hid : run.id = id := Table.key_of_lookup hrun
  have hordered := h.ordered run hmem
  rw [hordered.last] at hsequence
  -- The checkpointed row is the next one of the sequence.
  have hnext : (s.db.sequenceOf id)[run.sourceFilesCompleted]? =
      some (sequence, file.sourceFileId) := by
    rw [hsequence]
    refine getElem?_of_numbered (h.numbered id) (List.mem_map.mpr ⟨f, ?_, ?_⟩)
    · exact List.mem_filter.mpr ⟨hf, decide_eq_true hat.1⟩
    · rw [hat.2.1, hat.2.2.1, hsequence]
  refine h.of_setRun rfl (fun _ => rfl) (sequenceOf_map_status rfl) rfl ?_ ?_ ?_ ?_
  · intro g hg
    obtain ⟨old, hold, rfl⟩ := List.mem_map.mp hg
    have hknown := h.filesKnown old hold
    split
    · exact hknown
    · exact hknown
  · intro c hc
    rcases List.mem_append.mp hc with hold | hnew
    · exact h.logKnown c hold
    · rw [List.mem_singleton] at hnew
      exact ⟨run, hmem, by rw [hnew, hid]⟩
  · intro other hother hne
    refine (h.ordered other hother).congr ?_ (sequenceOf_map_status rfl _) fun _ => rfl
    rw [checkpointsOf_append, if_neg (Ne.symm hne), List.append_nil]
  · intro old hold heq
    have hsame : old = run := by
      have hlookup := Table.lookup_of_mem h.unique hold
      rw [heq] at hlookup
      exact Option.some.inj (hlookup.symm.trans hrun)
    subst hsame
    constructor
    · exact hsequence
    · exact hordered.total.trans (congrArg List.length (sequenceOf_map_status rfl _).symm)
    · rw [checkpointsOf_append, sequenceOf_map_status rfl, List.take_add_one]
      show s.checkpointsOf old.id ++ _ = _
      rw [hordered.log, if_pos hid.symm, hid, hnext]
      rfl
    · intro hdone
      -- A completed run has no next row.
      have hfull := hordered.done hdone
      rw [hfull, hordered.total, hid, List.getElem?_eq_none le_rfl] at hnext
      cases hnext
    · exact hordered.active

theorem Sequenced.finish (h : Sequenced s) {reconcile : Reconcile} {id : RunId} {db : Database}
    (hfinish : finishRebuild reconcile id s.db = .ok db) : Sequenced { s with db := db } := by
  obtain ⟨hactive, run, tables, hrun, hfull, rfl⟩ := finishRebuild_eq_ok hfinish
  refine h.of_setRun rfl (fun _ => rfl) (fun _ => rfl) rfl h.filesKnown h.logKnown ?_ ?_
  · intro other hother hne
    refine (h.ordered other hother).congr rfl rfl fun hunfinished => ?_
    have hsame := (h.ordered other hother).active hunfinished
    rw [hactive, Option.some.injEq] at hsame
    exact absurd hsame.symm hne
  · intro old hold heq
    have hordered := h.ordered old hold
    have hsame : old = run := by
      have hlookup := Table.lookup_of_mem h.unique hold
      rw [heq] at hlookup
      exact Option.some.inj (hlookup.symm.trans hrun)
    subst hsame
    exact ⟨hordered.last, hordered.total, hordered.log, fun _ => hfull,
      fun hunfinished => absurd rfl hunfinished⟩

theorem Sequenced.change (h : Sequenced s) (hs : RunChange s s') : Sequenced s' := by
  cases hs with
  | keep hactive hruns hfiles hcheckpoints hnext =>
    exact h.keep hactive hruns hfiles hcheckpoints hnext
  | begin hbegin => exact h.begin hbegin
  | resume hresume =>
    obtain ⟨hactive, -, -, -, rfl⟩ := resumeRebuild_eq_ok hresume
    exact h.setStatus hactive (fun _ => rfl) (fun _ => rfl) (fun _ => rfl) (fun _ => rfl)
      (by intro r; simp)
  | checkpoint hcomplete => exact h.checkpoint hcomplete
  | fail hfail =>
    obtain ⟨⟨run, hrun, hunfinished⟩, rfl⟩ := failRebuild_eq_ok hfail
    have hactive := (h.ordered run (Table.mem_of_lookup hrun)).active hunfinished
    have hid : run.id = _ := Table.key_of_lookup hrun
    rw [hid] at hactive
    exact h.setStatus hactive (fun _ => rfl) (fun _ => rfl) (fun _ => rfl) (fun _ => rfl)
      (by intro r; simp)
  | finish hfinish => exact h.finish hfinish

theorem Sequenced.of_init {wiring : Wiring} {w : World} (h : (rebuildSystem wiring).init w) :
    Sequenced w.shared := by
  obtain ⟨⟨-, hruns, hfiles, -⟩, -, -, hcheckpoints, -, -⟩ := h
  constructor
  · intro id
    rw [Database.sequenceOf, Database.filesOf, hfiles]
    rfl
  · intro run hrun
    rw [hruns] at hrun
    cases hrun
  · rw [hruns]
    exact List.nodup_nil
  · intro run hrun
    rw [hruns] at hrun
    cases hrun
  · intro f hf
    rw [hfiles] at hf
    cases hf
  · intro c hc
    rw [hcheckpoints] at hc
    cases hc

end Sequenced

end Makolet.Maintenance
