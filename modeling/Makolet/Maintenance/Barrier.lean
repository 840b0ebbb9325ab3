import Makolet.Maintenance.Checkpoints
import Makolet.Normalized.Prices

/-!
# The barrier of a rebuild

A replay outside a rebuild holds the only open replay row of its file while it owns the file
(`Guarded`), so the barrier check of its apply sees no rebuild. An ingest has no such row and may
find one that a rebuild left behind when it died; and a catalog bootstrap is not checked at all.

`rebuild_protocol_of_respected` is the main result, over every run in which neither happens.
-/

set_option autoImplicit false

namespace Makolet.Maintenance

open Makolet.Domain Makolet.Lib Makolet.Normalized Makolet.Ingestion

/-! ## What others may do to a replay -/

/-- A step of the process `q`, seen by the others: it takes no lease from them or for them, and opens
no replay row of a file it does not own. -/
structure Foreign (q : ProcessId) (s s' : Shared) : Prop where
  leases : ∀ f p, p ≠ q → s'.leases f = some p → s.leases f = some p
  replays : ∀ f, s.leases f ≠ some q → ∀ r ∈ s'.db.replays, r.sourceFileId = f →
    r.finished = false → r ∈ s.db.replays

section Foreign

variable {wiring : Wiring} {q : ProcessId} {s s' : Shared}

theorem Foreign.of_same (hleases : s'.leases = s.leases) (hreplays : s'.db.replays = s.db.replays) :
    Foreign q s s' where
  leases := fun f p _ h => by rw [← hleases]; exact h
  replays := fun f _ r hr _ _ => by rw [← hreplays]; exact hr

theorem CallActs.foreign {origin : Origin} {f : FileId} {pc pc' : CallPc}
    (h : CallActs wiring q origin f s pc s' pc') : Foreign q s s' := by
  cases h with
  | silent | stage | bootstrap => exact .of_same rfl rfl
  | apply _ happly =>
    obtain ⟨tables, rfl, -⟩ := applySource_eq_ok happly
    exact .of_same rfl rfl
  | acquire =>
    refine ⟨fun g p hne hg => ?_, fun _ _ r hr _ _ => hr⟩
    rcases update_some_eq_some hg with ⟨-, hp⟩ | ⟨-, hg⟩
    · exact absurd hp hne
    · exact hg
  | release =>
    exact ⟨fun g p _ hg => (update_none_eq_some hg).2, fun _ _ r hr _ _ => hr⟩
  | begin hlease hbegin =>
    cases beginReplay_eq_ok hbegin
    refine ⟨fun _ _ _ hg => hg, fun g hg r hr hfile hopen => ?_⟩
    rcases List.mem_append.mp hr with hbefore | hnew
    · obtain ⟨old, hold, rfl⟩ := List.mem_map.mp hbefore
      split at hopen
      · cases hopen
      · rename_i hne
        rw [if_neg hne]
        exact hold
    · rw [List.mem_singleton] at hnew
      rw [hnew] at hfile
      rw [← hfile] at hg
      exact absurd hlease hg
  | finish _ hfinish =>
    cases finishReplay_eq_ok hfinish
    refine ⟨fun _ _ _ hg => hg, fun g _ r hr _ hopen => ?_⟩
    rcases Table.mem_updateAt hr with ⟨hold, -⟩ | ⟨old, -, -, rfl⟩
    · exact hold
    · cases hopen

theorem Acted.foreign (h : Acted wiring q s s') : Foreign q s s' := by
  rcases h with ⟨_, _, _, _, hacts⟩ | hloop
  · exact hacts.foreign
  · exact .of_same hloop.leases hloop.replays

end Foreign

/-! ## The barrier -/

/-- Ordinary processes belong to no rebuild, and a replay that owns its file between its begin and
its apply finds no open row of a rebuild there. -/
structure Guarded (w : World) : Prop where
  plain : ∀ p origin f pc, w.procs p = some (.call origin f pc) → origin.rebuildRunId = none
  linked : ∀ p origin f pc, w.procs p = some (.call origin f pc) → pc.linked = true →
    w.shared.leases f = some p → ∀ r ∈ w.shared.db.replays, r.sourceFileId = f →
      r.finished = false → r.rebuildRunId = none

section Barrier

variable {wiring : Wiring} {w w' : World} {label : Label} {p : ProcessId} {s s' : Shared}

/-- What an answered step leaves of a call. -/
theorem step_call {origin : Origin} {f : FileId} {pc : CallPc} {r : Reply Input Fault}
    {proc' : Proc} (h : (program wiring p).step s (.call origin f pc) r = some (s', proc')) :
    ∃ pc', proc' = .call origin f pc' ∧
      (CallActs wiring p origin f s pc s' pc' ∨ pc'.linked = false) := by
  rcases Program.step_cases h with ⟨input, -, hact⟩ | ⟨e, hhandle, -, -⟩ | ⟨_, e, _, -, -, hhandle⟩
  · obtain ⟨pc', hacts, heq⟩ := acted_of_callAct (g := fun pc' => Proc.call origin f pc') hact
    exact ⟨pc', heq, .inl hacts⟩
  · obtain ⟨pc', hpc, heq⟩ := Option.map_eq_some_iff.mp hhandle
    exact ⟨pc', heq.symm, .inr (callHandle_linked hpc)⟩
  · obtain ⟨pc', hpc, heq⟩ := Option.map_eq_some_iff.mp hhandle
    exact ⟨pc', heq.symm, .inr (callHandle_linked hpc)⟩

/-- The rebuild loop stays a rebuild loop, and a begun run becomes one. -/
theorem step_not_call {proc proc' : Proc} {r : Reply Input Fault} (hproc : proc.ordinary? = none)
    (h : (program wiring p).step s proc r = some (s', proc')) : proc'.ordinary? = none := by
  have hact : ∀ {i s₁ next}, proc.act wiring p s i = some (.ok (s₁, next)) →
      next.ordinary? = none := by
    intro i s₁ next hact
    unfold Proc.act at hact
    split at hact
    · cases hproc
    · obtain ⟨_, -, heq⟩ := map_eq_ok.mp (Option.some.inj hact)
      cases heq
      rfl
    · obtain ⟨_, _, hmap⟩ := Option.map_eq_some_iff.mp hact
      obtain ⟨_, -, heq⟩ := map_eq_ok.mp hmap
      cases heq
      rfl
    · cases hact
  have hhandle : ∀ {e next}, proc.handle e = some next → next.ordinary? = none := by
    intro e next hnext
    unfold Proc.handle at hnext
    split at hnext
    · cases hproc
    · cases hnext
      rfl
    · obtain ⟨_, -, heq⟩ := Option.map_eq_some_iff.mp hnext
      cases heq
      rfl
    · cases hnext
  rcases Program.step_cases h with ⟨_, -, h⟩ | ⟨e, h, -, -⟩ | ⟨_, _, _, -, -, h⟩
  · exact hact h
  · exact hhandle h
  · exact hhandle h

/-- The acting process keeps its own part of `Guarded`. -/
theorem CallActs.linked {origin : Origin} {f : FileId} {pc pc' : CallPc}
    (hplain : origin.rebuildRunId = none)
    (hold : pc.linked = true → s.leases f = some p → ∀ r ∈ s.db.replays, r.sourceFileId = f →
      r.finished = false → r.rebuildRunId = none)
    (h : CallActs wiring p origin f s pc s' pc') (hlinked : pc'.linked = true) :
    ∀ r ∈ s'.db.replays, r.sourceFileId = f → r.finished = false → r.rebuildRunId = none := by
  cases h with
  | silent hnot =>
    rw [hnot] at hlinked
    cases hlinked
  | acquire =>
    cases origin <;> cases hlinked
  | begin _ hbegin =>
    cases beginReplay_eq_ok hbegin
    intro r hr hfile hopen
    rcases List.mem_append.mp hr with hbefore | hnew
    · obtain ⟨old, -, rfl⟩ := List.mem_map.mp hbefore
      split at hopen
      · cases hopen
      · rename_i hne
        rw [if_neg hne] at hfile
        exact absurd hfile hne
    · rw [List.mem_singleton] at hnew
      rw [hnew]
      exact hplain
  | @stage replay _ hlease =>
    cases replay with
    | none => cases hlinked
    | some id => exact hold rfl hlease
  | @apply replay => cases replay <;> cases hlinked
  | finish => cases hlinked
  | @release error => cases error <;> cases hlinked
  | @bootstrap cursor now =>
    cases hnext : (bootstrapBatch now f cursor s.db).2 <;> rw [hnext] at hlinked <;> cases hlinked

/-- A step of `q` that changes the shared state in a foreign way keeps the parts of the others. -/
theorem Guarded.other (h : Guarded w) {q : ProcessId} (hforeign : Foreign q w.shared s')
    {origin : Origin} {f : FileId} {pc : CallPc} (hne : p ≠ q)
    (hproc : w.procs p = some (.call origin f pc)) (hlinked : pc.linked = true)
    (hlease : s'.leases f = some p) :
    ∀ r ∈ s'.db.replays, r.sourceFileId = f → r.finished = false → r.rebuildRunId = none := by
  have hold := hforeign.leases f p hne hlease
  intro r hr hfile hopen
  refine h.linked p origin f pc hproc hlinked hold r (hforeign.replays f ?_ r hr hfile hopen)
    hfile hopen
  rw [hold]
  exact fun heq => hne (Option.some.inj heq)

theorem Guarded.start (h : Guarded w) {proc : Proc} (hstart : proc.starting = true) :
    Guarded { w with procs := Function.update w.procs p (some proc) } := by
  constructor
  · intro q origin f pc hq
    rcases update_some_eq_some hq with ⟨-, rfl⟩ | ⟨-, hq⟩
    · cases origin with
      | ingest => rfl
      | replay id =>
        cases id with
        | none => rfl
        | some id => cases pc <;> cases hstart
    · exact h.plain q origin f pc hq
  · intro q origin f pc hq hlinked
    rcases update_some_eq_some hq with ⟨-, rfl⟩ | ⟨-, hq⟩
    · cases pc with
      | check => cases hlinked
      | _ => cases origin with
        | ingest => cases hstart
        | replay id => cases id <;> cases hstart
    · exact h.linked q origin f pc hq hlinked

theorem Guarded.reply (h : Guarded w) {r : Reply Input Fault} {proc proc' : Proc} {i : List FileId}
    (hproc : w.procs p = some proc)
    (hstep : (program wiring p).step w.shared proc r = some (s', proc')) :
    Guarded ⟨s', Function.update w.procs p (some proc'), i⟩ := by
  have hforeign : Foreign p w.shared s' := by
    rcases Program.step_durable hstep with rfl | ⟨_, _, hact⟩
    · exact .of_same rfl rfl
    · exact (act_acted hact).foreign
  -- The acting process is a call before the step if it is one after it.
  have hcall : ∀ origin f pc', proc' = .call origin f pc' → ∃ pc, proc = .call origin f pc ∧
      (CallActs wiring p origin f w.shared pc s' pc' ∨ pc'.linked = false) := by
    rintro origin f pc' rfl
    cases proc with
    | call origin₀ f₀ pc =>
      obtain ⟨_, heq, hacts⟩ := step_call hstep
      cases heq
      exact ⟨pc, rfl, hacts⟩
    | _ =>
      have hnone := step_not_call rfl hstep
      cases hnone
  constructor
  · intro q origin f pc hq
    rcases update_some_eq_some hq with ⟨rfl, heq⟩ | ⟨-, hq⟩
    · obtain ⟨pc₀, rfl, -⟩ := hcall origin f pc heq.symm
      exact h.plain q origin f pc₀ hproc
    · exact h.plain q origin f pc hq
  · intro q origin f pc hq hlinked hlease
    rcases update_some_eq_some hq with ⟨rfl, heq⟩ | ⟨hne, hq⟩
    · obtain ⟨pc₀, rfl, hacts | hnot⟩ := hcall origin f pc heq.symm
      · exact hacts.linked (h.plain q origin f pc₀ hproc) (h.linked q origin f pc₀ hproc) hlinked
      · rw [hnot] at hlinked
        cases hlinked
    · exact h.other hforeign hne hq hlinked hlease

/-- Losing locks keeps the part of every process. -/
theorem Guarded.unlock (h : Guarded w) {procs : ProcessId → Option Proc}
    (hprocs : ∀ q proc, procs q = some proc → w.procs q = some proc) :
    Guarded { w with shared := w.shared.unlock p, procs := procs } := by
  refine ⟨fun q origin f pc hq => h.plain q origin f pc (hprocs q _ hq), ?_⟩
  intro q origin f pc hq hlinked hlease
  change (if w.shared.leases f = some p then none else w.shared.leases f) = some q at hlease
  split at hlease
  · cases hlease
  · exact h.linked q origin f pc (hprocs q _ hq) hlinked hlease

theorem Guarded.next (h : Guarded w) (hnext : Steps wiring w label w') : Guarded w' := by
  cases hnext with
  | start _ hstart => exact h.start hstart
  | reply hproc hstep => exact h.reply hproc hstep
  | crash => exact h.unlock fun q proc hq => (update_none_eq_some hq).2
  | loseSession => exact h.unlock fun _ _ hq => hq
  | source row => exact ⟨h.plain, h.linked⟩

theorem openReplay_eq_some {db : Database} {f : FileId} {r : ReplayRun}
    (h : db.openReplay f = some r) :
    r ∈ db.replays ∧ r.sourceFileId = f ∧ r.finished = false := by
  have hmem := List.mem_of_find?_eq_some h
  have hopen := List.find?_some h
  simp only [Bool.and_eq_true, decide_eq_true_eq, Bool.not_eq_true'] at hopen
  exact ⟨hmem, hopen⟩

/-- An ordinary operation that respects the barrier leaves the normalized state of an active rebuild
alone. -/
theorem CallActs.tables {origin : Origin} {f : FileId} {pc pc' : CallPc}
    (h : CallActs wiring p origin f s pc s' pc')
    (hlinked : pc.linked = true → s.leases f = some p → ∀ r ∈ s.db.replays, r.sourceFileId = f →
      r.finished = false → r.rebuildRunId = none)
    (hrespects : Proc.Respects s.db (.call origin f pc)) (hactive : s.db.active ≠ none) :
    s'.db.tables = s.db.tables := by
  cases h with
  | silent | acquire | stage | release => rfl
  | begin _ hbegin =>
    cases beginReplay_eq_ok hbegin
    rfl
  | finish _ hfinish =>
    cases finishReplay_eq_ok hfinish
    rfl
  | @apply replay _ _ hlease happly =>
    exfalso
    obtain ⟨-, -, hallowed⟩ := applySource_eq_ok happly
    cases replay with
    | none => exact hrespects hactive hallowed.symm
    | some id =>
      -- The open row of the file is the replay's own, which belongs to no rebuild.
      cases hopen : s.db.openReplay f with
      | none =>
        rw [hopen] at hallowed
        exact hactive hallowed
      | some r =>
        obtain ⟨hmem, hfile, hunfinished⟩ := openReplay_eq_some hopen
        rw [hopen, Option.bind_some, hlinked rfl hlease r hmem hfile hunfinished] at hallowed
        exact hactive hallowed
  | bootstrap now =>
    rcases hrespects with hnone | hempty
    · exact absurd hnone hactive
    · show (bootstrapBatch now f _ s.db).1.tables = _
      rw [bootstrapBatch_of_no_subjects hempty]

/-- No step that respects the barrier is an intrusion. -/
theorem intrusion_of_respected (h : Guarded w) {r : Reply Input Fault} {proc proc' : Proc}
    (hproc : w.procs p = some proc) (hrespects : proc.Respects w.shared.db)
    (hstep : (program wiring p).step w.shared proc r = some (s', proc')) :
    intrusion proc w.shared s' = [] := by
  unfold intrusion
  split
  · rename_i hchanged
    cases proc with
    | call origin f pc =>
      exfalso
      refine hchanged.2 ?_
      rcases Program.step_durable hstep with rfl | ⟨input, next, hact⟩
      · rfl
      · obtain ⟨pc', hacts, -⟩ := acted_of_callAct (g := fun pc' => Proc.call origin f pc') hact
        exact hacts.tables (h.linked p origin f pc hproc) hrespects hchanged.1
    | _ => rfl
  · rfl

end Barrier

/-! ## The protocol -/

section Protocol

variable {wiring : Wiring} {ok : World → Label → Prop} {w : World}

theorem sequenced_of_reach (h : Reach (rebuildSystem wiring) ok w) : Sequenced w.shared :=
  h.invariant (P := fun w => Sequenced w.shared) (fun _ hinit => Sequenced.of_init hinit)
    fun _ _ _ hs _ hnext => hs.change (steps_of_next hnext).runChange

theorem guarded_of_reach (h : Reach (rebuildSystem wiring) ok w) : Guarded w := by
  refine h.invariant (fun w hinit => ?_) fun _ _ _ hs _ hnext => hs.next (steps_of_next hnext)
  obtain ⟨-, -, -, -, hprocs, -⟩ := hinit
  constructor
  · intro p origin f pc hp
    rw [hprocs] at hp
    cases hp
  · intro p origin f pc hp
    rw [hprocs] at hp
    cases hp

theorem no_intrusions (h : Reach (rebuildSystem wiring) Respected w) : w.intrusions = [] := by
  refine h.invariant_of (fun w (hinit : (rebuildSystem wiring).init w) => hinit.2.2.2.2.2)
    fun w label w' hr hs hok hnext => ?_
  cases steps_of_next hnext with
  | reply hproc hstep =>
    show w.intrusions ++ _ = []
    rw [hs, intrusion_of_respected (guarded_of_reach hr) hproc (hok _ hproc) hstep]
    rfl
  | start | crash | loseSession | source => exact hs

/-- In every run, whatever fails, dies or is resumed, the files of a rebuild are checkpointed in
their sequence and at most once, a run is completed only with all of them, and only the active run
is not completed. If moreover every ordinary step respects the barrier, no ordinary ingest or replay
changes the normalized state while a rebuild is active. -/
theorem rebuild_protocol_of_respected (h : Reach (rebuildSystem wiring) Respected w) :
    RebuildProtocol w where
  numbered := (sequenced_of_reach h).numbered
  inOrder := by
    intro id
    have hs := sequenced_of_reach h
    by_cases hrun : ∃ run ∈ w.shared.db.runs, run.id = id
    · obtain ⟨run, hmem, rfl⟩ := hrun
      rw [(hs.ordered run hmem).log]
      exact List.take_prefix _ _
    · have hnone : w.shared.checkpointsOf id = [] := checkpointsOf_eq_nil fun c hc heq => by
        obtain ⟨run, hmem, hid⟩ := hs.logKnown c hc
        exact hrun ⟨run, hmem, hid.trans heq⟩
      rw [hnone]
      exact List.nil_prefix
  finished := by
    intro run hmem hdone
    have hordered := (sequenced_of_reach h).ordered run hmem
    rw [hordered.log, hordered.done hdone, hordered.total, List.take_length]
  oneActive := fun run hmem => ((sequenced_of_reach h).ordered run hmem).active
  barrier := no_intrusions h

/-- Two archived price files of a store and a third one that an ingest applies, before any
rebuild. -/
def archivedWorld : World where
  shared :=
    { db :=
        { tables := .empty
          sources :=
            [⟨sampleRemote, .archived, some ⟨"aa", 10⟩, some 150⟩,
              ⟨{ sampleRemote with fileId := 2, sourceTimestamp := some 110 }, .archived,
                some ⟨"bb", 10⟩, some 160⟩,
              ⟨{ sampleRemote with fileId := 3, sourceTimestamp := some 120 }, .applying,
                some ⟨"cc", 10⟩, some 170⟩]
          staging := fun _ => .empty
          replays := []
          active := none
          runs := []
          files := []
          nextId := 1 }
      leases := fun _ => none
      rebuildLock := none
      checkpoints := [] }
  procs := fun _ => none
  intrusions := []

/-- A wiring whose reconciliation leaves the replayed state as it is. -/
def keepReplayed : Wiring := ⟨true, 200, fun _ db => .ok db.tables⟩

def stagedAnswer : Input :=
  .staged { Staging.empty with prices := [sampleRecord "17" "4001" 500] }

def applyAnswer : Input :=
  .settings ⟨200, lenientPolicy, ⟨10, 10000, 10⟩, ⟨0, 0, 0, 0, 0⟩⟩

/-- The answers to a process, one by one. -/
def answers (p : ProcessId) (inputs : List Input) : List Label :=
  inputs.map fun input => .proc p (.reply (.ok input))

/-- A rebuild, from its first transaction to the begin of the first replay. -/
def rebuildStart : List Label :=
  .proc 1 (.startRebuild "operator" "1") :: answers 1 (.clock 300 :: List.replicate 6 .go)

/-- The answers to a replay behind its begin. -/
def replayAnswers : List Input := [stagedAnswer, applyAnswer, .go, .go, .clock 300]

/-- An ingest of the third file is admitted before the rebuild begins and comes to its apply behind
it. The rebuild dies before its first checkpoint, and another process resumes it to the end. -/
def resumedRebuild : List Label :=
  .proc 0 (.ingest 3) :: answers 0 [.go, .go, .go, .go, stagedAnswer] ++ rebuildStart ++
    answers 0 [applyAnswer, .go] ++ answers 1 replayAnswers ++
    [.proc 1 .crash, .proc 2 (.resumeRebuild 1)] ++
    answers 2 (List.replicate 6 .go ++ replayAnswers ++ List.replicate 4 .go ++ replayAnswers ++
      List.replicate 4 .go)

/-- An ingest of the first file is admitted before the rebuild begins, and takes the lock that the
dead rebuild released. -/
def orphanedReplay : List Label :=
  .proc 0 (.ingest 1) :: answers 0 [.go, .go] ++ rebuildStart ++ [.proc 1 .crash] ++
    answers 0 [.go, .go, stagedAnswer, applyAnswer]

def Proc.failure? : Proc → Option ErrorKind
  | .call _ _ (.raised e) => some e.kind
  | _ => none

/-- The ingest is refused at the barrier, and both files have their checkpoint. -/
theorem rebuild_protocol_sample :
    RebuildProtocol ((rebuildSystem keepReplayed).afterChecked Respected archivedWorld
        resumedRebuild) ∧
      ((rebuildSystem keepReplayed).afterChecked Respected archivedWorld
        resumedRebuild).shared.checkpointsOf 1 = [(1, 1), (2, 2)] ∧
      (((rebuildSystem keepReplayed).afterChecked Respected archivedWorld
        resumedRebuild).procs 0).bind Proc.failure? = some .maintenanceMode :=
  ⟨rebuild_protocol_of_respected (reach_afterChecked resumedRebuild
    ⟨⟨rfl, rfl, rfl, rfl⟩, rfl, rfl, rfl, rfl, rfl⟩ (by decide +kernel)), by decide +kernel,
    by decide +kernel⟩

/-- The ingest applies its file under the active rebuild. -/
theorem ordinary_ingest_intrudes :
    ¬ ∀ w, Reach (rebuildSystem keepReplayed) Any w → RebuildProtocol w := by
  intro hall
  have hreach : Reach (rebuildSystem keepReplayed) Any
      ((rebuildSystem keepReplayed).after archivedWorld orphanedReplay) :=
    reach_after orphanedReplay ⟨⟨rfl, rfl, rfl, rfl⟩, rfl, rfl, rfl, rfl, rfl⟩ (by decide +kernel)
  have hintrusion : ((rebuildSystem keepReplayed).after archivedWorld orphanedReplay).intrusions =
      [1] := by
    decide +kernel
  have hbarrier := (hall _ hreach).barrier
  rw [hintrusion] at hbarrier
  cases hbarrier

end Protocol

end Makolet.Maintenance
