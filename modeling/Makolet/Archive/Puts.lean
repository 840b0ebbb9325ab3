import Makolet.Archive.Reads
import Makolet.Lib.Process

/-!
# Concurrent puts of the same content

`putStep_spec` is the step lemma of a `put`, `worldOk_of_reach` the run lemma. The main theorem says
when concurrent puts agree; the run `bothPut` of two puts shows that they need not.
-/

set_option autoImplicit false

namespace Makolet.Archive

open Makolet.Lib

/-! ## Steps of a put -/

section Putting

variable {a : LocalArchive} {bytes : List UInt8} {fs fs' : Disk} {p : Nat}

/-- Steps left of a put. -/
def putRank (bytes : List UInt8) : PutPc → Nat
  | .initialise chunks => 2 * bytes.length + 24 + chunks.length
  | .create chunks => 2 * bytes.length + 23 + chunks.length
  | .write _ chunks _ => 2 * bytes.length + 22 + chunks.length
  | .fsync _ => 2 * bytes.length + 21
  | .mkdir _ => 2 * bytes.length + 20
  | .parents _ => 2 * bytes.length + 19
  | .link _ => 2 * bytes.length + 18
  | .unlink _ => 3
  | .protect _ => 2
  | .verify _ reading => readRank bytes reading.pc + 2
  | .cleanup _ => 1
  | .done _ => 0

/-- The put has linked the object and has not died. -/
def PutPc.committed : PutPc → Bool
  | .unlink _ | .protect _ => true
  | .cleanup (.ok r) | .done (.ok r) => r.created
  | _ => false

/-- The put verifies the object and reads its link count next. -/
def PutPc.watches : PutPc → Bool
  | .verify _ reading => reading.pc.watches
  | _ => false

variable (a bytes) in
structure PutStep (p : Nat) (fs : Disk) (pc : PutPc) (fs' : Disk) (pc' : PutPc) : Prop where
  frame : Frame a bytes p fs fs'
  disk : DiskOk a bytes fs'
  putOk : PutOk a bytes fs' p pc'
  rank : putRank bytes pc' < putRank bytes pc
  committed : pc'.committed = true → pc.committed = true ∨ fs.find (objectPath a bytes) = none

theorem objectPath_ne_part (u : Nat) : objectPath a bytes ≠ .part u := by
  intro h
  cases h

theorem DiskOk.mkdir (hdisk : DiskOk a bytes fs) (d : Path) : DiskOk a bytes (fs.mkdir d) :=
  fun i hi => ⟨List.mem_cons_of_mem _ (hdisk i hi).1, (hdisk i hi).2⟩

/-- A step that leaves the object's name alone keeps the object. -/
theorem Frame.diskOk (hf : Frame a bytes p fs fs') (hdisk : DiskOk a bytes fs)
    (hobj : fs'.find (objectPath a bytes) = fs.find (objectPath a bytes)) : DiskOk a bytes fs' := by
  intro i hi
  rw [hobj] at hi
  obtain ⟨hparents, hcontent, hmax, hnames⟩ := hdisk i hi
  refine ⟨hf.dirs hparents, ?_, hmax, ?_⟩
  · rw [hf.content _ i (objectPath_ne_part p) hi, hcontent]
  · intro q hq
    rcases hf.names q i hq with hold | hnew | ⟨hobj, -⟩
    · exact hnames q hold
    · exact absurd hi (hnew _)
    · exact .inl hobj

theorem Frame.create {i : Nat} (h : fs.create (.part p) = .ok (fs', i)) :
    Frame a bytes p fs fs' := by
  obtain ⟨-, hother, hnew, hcontent, hdirs⟩ := FileSystem.create_spec h
  refine ⟨fun q hq => hother _ (by simpa using hq), ?_, ?_, ?_, fun d hd => hdirs ▸ hd⟩
  · intro j hj
    rw [hother _ (objectPath_ne_part p), hj]
  · intro r j hj
    by_cases hr : r = .part p
    · obtain ⟨hself, -, -⟩ := FileSystem.create_spec h
      rw [hr, hself, Option.some.injEq] at hj
      exact .inr (.inl (hj ▸ hnew))
    · rw [hother r hr] at hj
      exact .inl hj
  · intro q j _ hj
    rw [hcontent, Function.update_of_ne]
    rintro rfl
    exact hnew q hj

theorem Frame.append {i : Nat} {written chunk : List UInt8} (ht : Temporary fs p i written) :
    Frame a bytes p fs (fs.append i chunk) := by
  refine ⟨fun _ _ => rfl, fun _ h => h, fun _ _ h => .inl h, ?_, fun _ h => h⟩
  intro q j hq hj
  rw [FileSystem.content_append, Function.update_of_ne]
  rintro rfl
  exact hq (ht.2.2 q hj)

/-- Removing the temporary name. -/
theorem Frame.unlink (h : ∀ q, q ≠ Path.part p → fs'.find q = fs.find q)
    (hnone : fs'.find (.part p) = none) (hcontent : fs'.content = fs.content)
    (hdirs : fs'.dirs = fs.dirs) : Frame a bytes p fs fs' := by
  refine ⟨fun q hq => h _ (by simpa using hq), ?_, ?_, ?_, fun d hd => hdirs ▸ hd⟩
  · intro j hj
    rw [h _ (objectPath_ne_part p), hj]
  · intro r j hj
    by_cases hr : r = .part p
    · rw [hr, hnone] at hj
      cases hj
    · rw [h r hr] at hj
      exact .inl hj
  · intro q j _ _
    rw [hcontent]

theorem Temporary.append {i : Nat} {written : List UInt8} (ht : Temporary fs p i written)
    (chunk : List UInt8) : Temporary (fs.append i chunk) p i (written ++ chunk) := by
  refine ⟨ht.1, ?_, ht.2.2⟩
  rw [FileSystem.content_append, Function.update_self, ht.2.1]

theorem Temporary.mkdir {i : Nat} {written : List UInt8} (ht : Temporary fs p i written) (d : Path) :
    Temporary (fs.mkdir d) p i written := ht

/-- A step that does not touch the disk. -/
theorem PutStep.pure {pc pc' : PutPc} (hdisk : DiskOk a bytes fs) (hok : PutOk a bytes fs p pc')
    (hrank : putRank bytes pc' < putRank bytes pc)
    (hcommitted : pc'.committed = true → pc.committed = true) :
    PutStep a bytes p fs pc fs pc' :=
  ⟨.refl, hdisk, hok, hrank, fun h => .inl (hcommitted h)⟩

/-- A step that leaves the object's name alone. -/
theorem PutStep.of_frame {pc pc' : PutPc} (hf : Frame a bytes p fs fs') (hdisk : DiskOk a bytes fs)
    (hobj : fs'.find (objectPath a bytes) = fs.find (objectPath a bytes))
    (hok : PutOk a bytes fs' p pc') (hrank : putRank bytes pc' < putRank bytes pc)
    (hcommitted : pc'.committed = true → pc.committed = true) :
    PutStep a bytes p fs pc fs' pc' :=
  ⟨hf, hf.diskOk hdisk hobj, hok, hrank, fun h => .inl (hcommitted h)⟩

/-- One round of the loop over the chunks. -/
theorem write_spec {fd : Nat} {chunk written : List UInt8} {chunks : List (List UInt8)}
    (hdisk : DiskOk a bytes fs) (hput : PutOk a bytes fs p (.write fd (chunk :: chunks) written)) :
    ∃ fs' pc', putStep a p fs (.write fd (chunk :: chunks) written) = some (fs', pc') ∧
      PutStep a bytes p fs (.write fd (chunk :: chunks) written) fs' pc' := by
  obtain ⟨hall, hmax, ht⟩ := hput
  by_cases hempty : chunk = []
  · have hstep : putStep a p fs (.write fd (chunk :: chunks) written) =
        some (fs, .write fd chunks written) := by
      rw [putStep, if_pos hempty]
    refine ⟨_, _, hstep, .pure hdisk ⟨?_, hmax, ht⟩ ?_ nofun⟩
    · rw [← hall, hempty, List.flatten_cons, List.nil_append]
    · simp [putRank]
  · by_cases hlimit : a.maximumObjectBytes < (written ++ chunk).length
    · have hstep : putStep a p fs (.write fd (chunk :: chunks) written) =
          some (fs, .cleanup (.error (.downloadLimit
            ("Object exceeds " ++ toString a.maximumObjectBytes ++ " archived bytes")
            (written ++ chunk).length))) := by
        rw [putStep, if_neg hempty, if_pos hlimit]
      exact ⟨_, _, hstep, .pure hdisk (by rfl) (by simp only [putRank]; omega) nofun⟩
    · have hstep : putStep a p fs (.write fd (chunk :: chunks) written) =
          some (fs.append fd chunk, .write fd chunks (written ++ chunk)) := by
        rw [putStep, if_neg hempty, if_neg hlimit]
      refine ⟨_, _, hstep, .of_frame (.append ht) hdisk rfl ⟨?_, by omega, ht.append chunk⟩ ?_ nofun⟩
      · rw [← hall, List.flatten_cons, List.append_assoc]
      · simp [putRank]

/-- The link: it creates the object's name, or finds it there. -/
theorem link_spec {written : List UInt8} (hdisk : DiskOk a bytes fs)
    (hput : PutOk a bytes fs p (.link written)) :
    ∃ fs' pc', putStep a p fs (.link written) = some (fs', pc') ∧
      PutStep a bytes p fs (.link written) fs' pc' := by
  obtain ⟨rfl, hmax, ⟨i, ht⟩, hparents⟩ := hput
  have hkey : objectKey a written = keyForDigest (a.sha256 written) := rfl
  rcases FileSystem.link_cases (.part p) (objectPath a written) fs with
    ⟨hnone, -⟩ | ⟨-, hthere, hexists⟩ | ⟨j, fs', hj, habsent, hok, hnew, hother, hcontent, hdirs⟩
  · rw [ht.1] at hnone
    cases hnone
  · have hcommit : commitOnce fs p (objectKey a written) = .ok none := by
      rw [commitOnce, if_pos hparents]
      rw [objectPath] at hexists
      rw [hexists]
    have hstep : putStep a p fs (.link written) = some (fs, .verify written
        ⟨objectKey a written, (a.sha256 written).val, .initialise⟩) := by
      simp only [putStep, ← hkey, hcommit]
      rw [hkey]
      simp only [orAbort, bind, Except.bind, verify_keyForDigest]
      rfl
    refine ⟨_, _, hstep, .pure hdisk ⟨rfl, rfl, rfl, fun _ => ?_⟩ (by simp [putRank, readRank]) nofun⟩
    exact Option.ne_none_iff_exists'.mp hthere
  · rw [ht.1, Option.some.injEq] at hj
    subst hj
    have hcommit : commitOnce fs p (objectKey a written) = .ok (some fs') := by
      rw [commitOnce, if_pos hparents]
      rw [objectPath] at hok
      rw [hok]
    have hstep : putStep a p fs (.link written) = some (fs', .unlink written) := by
      simp only [putStep, ← hkey, hcommit]
      rfl
    have hpart : fs'.find (.part p) = some i := (hother _ (objectPath_ne_part p).symm).trans ht.1
    refine ⟨_, _, hstep, ?_, ?_, ⟨rfl, by rw [hpart]; simp, i, hnew⟩, by simp [putRank], fun _ => .inr habsent⟩
    · refine ⟨fun q _ => hother _ (objectPath_ne_part q).symm, ?_, ?_, ?_, fun d hd => hdirs ▸ hd⟩
      · intro k hk
        rw [habsent] at hk
        cases hk
      · intro r k hk
        by_cases hr : r = objectPath a written
        · rw [hr, hnew, Option.some.injEq] at hk
          exact .inr (.inr ⟨hr, hk ▸ ht.1⟩)
        · rw [hother r hr] at hk
          exact .inl hk
      · intro q k _ _
        rw [hcontent]
    · -- The linked inode has exactly the temporary name besides the new one.
      intro k hk
      rw [hnew, Option.some.injEq] at hk
      subst hk
      refine ⟨hdirs ▸ hparents, by rw [hcontent, ht.2.1], hmax, ?_⟩
      intro q hq
      by_cases hqo : q = objectPath a written
      · exact .inl hqo
      · rw [hother q hqo] at hq
        exact .inr ⟨p, ht.2.2 q hq⟩

/-- Removing the temporary name, in the commit and in the `finally` clause. -/
theorem unlink_frame (hun : fs.unlink (.part p) = .ok fs') :
    Frame a bytes p fs fs' ∧ fs'.find (objectPath a bytes) = fs.find (objectPath a bytes) := by
  rcases FileSystem.unlink_cases (.part p) fs with
    ⟨-, herr⟩ | ⟨fs'', -, hok, hnone, hother, hcontent, hdirs⟩
  · rw [herr] at hun
    cases hun
  · rw [hok, Except.ok.injEq] at hun
    subst hun
    exact ⟨.unlink hother hnone hcontent hdirs, hother _ (objectPath_ne_part p)⟩

theorem putStep_verify {written : List UInt8} {reading : Reading}
    (hpc : ∀ outcome, reading.pc ≠ .done outcome) :
    putStep a p fs (.verify written reading) =
      (readStep a reading.key reading.expected fs reading.pc).map fun next =>
        (next.1, .verify written { reading with pc := next.2 }) := by
  simp only [putStep]
  split
  · rename_i h
    exact absurd h (hpc _)
  · rename_i h
    exact absurd h (hpc _)
  · rfl

/-- The verification in a put takes the steps of an `open` called after the link. -/
theorem verify_spec {written : List UInt8} {reading : Reading} (hdisk : DiskOk a bytes fs)
    (hput : PutOk a bytes fs p (.verify written reading))
    (hsingle : reading.pc.watches = true → Single a bytes fs) :
    ∃ fs' pc', putStep a p fs (.verify written reading) = some (fs', pc') ∧
      PutStep a bytes p fs (.verify written reading) fs' pc' := by
  obtain ⟨key, expected, pc⟩ := reading
  obtain ⟨rfl, rfl, rfl, hread⟩ := hput
  by_cases hdone : ∃ outcome, pc = .done outcome
  · obtain ⟨outcome, rfl⟩ := hdone
    obtain rfl : outcome = .ok written := hread rfl
    exact ⟨_, _, rfl, .pure hdisk ⟨rfl, nofun⟩ (by simp [putRank]) nofun⟩
  · have hpc : ∀ outcome, pc ≠ .done outcome := fun outcome h => hdone ⟨outcome, h⟩
    obtain ⟨fs', pc', hstep, hdo⟩ := readStep_spec hdisk hread hpc fun _ hw => hsingle hw
    have hrank : readRank written pc' < readRank written pc := hdo.rank
    have hput : putStep a p fs (.verify written ⟨objectKey a written, (a.sha256 written).val, pc⟩) =
        some (fs', .verify written ⟨objectKey a written, (a.sha256 written).val, pc'⟩) := by
      rw [putStep_verify hpc]
      simp only [hstep, Option.map_some]
    refine ⟨_, _, hput, ?_⟩
    rcases hdo.disk with rfl | rfl
    · exact .pure hdisk ⟨rfl, rfl, rfl, hdo.readOk⟩ (by simp only [putRank]; omega) nofun
    · exact .of_frame (.mkdir _) hdisk rfl ⟨rfl, rfl, rfl, hdo.readOk⟩
        (by simp only [putRank]; omega) nofun

/-- Every step of a put whose status checks find the object under one name. -/
theorem putStep_spec {pc : PutPc} (hdisk : DiskOk a bytes fs) (hput : PutOk a bytes fs p pc)
    (hpc : ∀ outcome, pc ≠ .done outcome) (hsingle : pc.watches = true → Single a bytes fs) :
    ∃ fs' pc', putStep a p fs pc = some (fs', pc') ∧ PutStep a bytes p fs pc fs' pc' := by
  -- Until the link only the put's own temporary file changes.
  cases pc with
  | initialise chunks =>
    exact ⟨_, _, rfl, .of_frame (.mkdir _) hdisk rfl hput (by simp [putRank]) fun h => by cases h⟩
  | create chunks =>
    obtain ⟨fs', i, hcreate⟩ := FileSystem.create_eq_ok hput.2
    obtain ⟨hself, hother, hnew, hcontent, -⟩ := FileSystem.create_spec hcreate
    have hstep : putStep a p fs (.create chunks) = some (fs', .write i chunks []) := by
      simp only [putStep, hcreate]
    refine ⟨_, _, hstep, .of_frame (.create hcreate) hdisk (hother _ (objectPath_ne_part p))
      ⟨hput.1, Nat.zero_le _, hself, ?_, ?_⟩ (by simp [putRank]) fun h => by cases h⟩
    · rw [hcontent, Function.update_self]
    · intro q hq
      by_contra hne
      rw [hother q hne] at hq
      exact hnew q hq
  | write fd chunks written =>
    cases chunks with
    | nil =>
      obtain ⟨hall, hmax, ht⟩ := hput
      rw [List.flatten_nil, List.append_nil] at hall
      subst hall
      exact ⟨_, _, rfl, .pure hdisk ⟨rfl, hmax, fd, ht⟩ (by simp [putRank]) fun h => by cases h⟩
    | cons chunk chunks => exact write_spec hdisk hput
  | fsync written => exact ⟨_, _, rfl, .pure hdisk hput (by simp [putRank]) fun h => by cases h⟩
  | mkdir written =>
    obtain ⟨rfl, hmax, i, ht⟩ := hput
    exact ⟨_, _, rfl, .of_frame (.mkdir _) hdisk rfl
      ⟨rfl, hmax, ⟨i, ht⟩, List.mem_cons_self⟩ (by simp [putRank]) fun h => by cases h⟩
  | parents written =>
    have hparents := hput.2.2.2
    obtain rfl := hput.1
    have hstep : putStep a p fs (.parents written) = some (fs, .link written) := by
      rw [objectKey] at hparents
      simp [putStep, orAbort, assertSafeParentChain, require, hparents, bind, Except.bind, pure,
        Except.pure]
    exact ⟨_, _, hstep, .pure hdisk hput (by simp [putRank]) fun h => by cases h⟩
  | link written => exact link_spec hdisk hput
  | unlink written =>
    obtain ⟨rfl, hpart, hlinked⟩ := hput
    -- The temporary file is still there, so `FileNotFoundError` is no case.
    rcases FileSystem.unlink_cases (.part p) fs with ⟨hnone, -⟩ | ⟨fs', -, hok, -⟩
    · exact absurd hnone hpart
    · obtain ⟨hframe, hobj⟩ := @unlink_frame a written _ _ _ hok
      have hstep : putStep a p fs (.unlink written) = some (fs', .protect written) := by
        simp only [putStep, syscall, hok]
        rfl
      exact ⟨_, _, hstep, .of_frame hframe hdisk hobj ⟨rfl, hframe.linked hlinked⟩
        (by simp [putRank]) fun _ => rfl⟩
  | protect written =>
    obtain ⟨rfl, hlinked⟩ := hput
    rcases FileSystem.protect_cases (objectPath a written) fs with
      ⟨hnone, -⟩ | ⟨fs', -, hok, hnames, hcontent, hdirs⟩
    · obtain ⟨i, hi⟩ := hlinked
      rw [hnone] at hi
      cases hi
    · have hframe : Frame a written p fs fs' := by
        refine ⟨fun q _ => hnames _, fun j hj => (hnames _).trans hj, fun r j hj => ?_,
          fun _ _ _ _ => by rw [hcontent], fun d hd => hdirs ▸ hd⟩
        rw [hnames] at hj
        exact .inl hj
      have hstep : putStep a p fs (.protect written) =
          some (fs', .cleanup (.ok (receipt a written true))) := by
        rw [objectPath, objectKey] at hok
        simp only [putStep, syscall, hok]
        rfl
      exact ⟨_, _, hstep, .of_frame hframe hdisk (hnames _) ⟨rfl, fun _ => hframe.linked hlinked⟩
        (by simp [putRank]) fun _ => rfl⟩
  | verify written reading => exact verify_spec hdisk hput hsingle
  | cleanup outcome =>
    have hcommitted : PutPc.committed (.done outcome) = PutPc.committed (.cleanup outcome) := by
      cases outcome <;> rfl
    rcases FileSystem.unlink_cases (.part p) fs with ⟨-, herr⟩ | ⟨fs', -, hok, -⟩
    · have hstep : putStep a p fs (.cleanup outcome) = some (fs, .done outcome) := by
        simp only [putStep, herr]
      exact ⟨_, _, hstep, .pure hdisk hput (by simp [putRank]) fun h => hcommitted ▸ h⟩
    · obtain ⟨hframe, hobj⟩ := @unlink_frame a bytes _ _ _ hok
      have hstep : putStep a p fs (.cleanup outcome) = some (fs', .done outcome) := by
        simp only [putStep, hok]
      exact ⟨_, _, hstep, .of_frame hframe hdisk hobj (hframe.outcomeOk hput)
        (by simp [putRank]) fun h => hcommitted ▸ h⟩
  | done outcome => exact absurd rfl (hpc outcome)

theorem linked_of_committed {pc : PutPc} (hput : PutOk a bytes fs p pc)
    (hcommitted : pc.committed = true) : Linked a bytes fs := by
  cases pc with
  | unlink written => exact hput.2.2
  | protect written => exact hput.2
  | cleanup outcome =>
    cases outcome with
    | ok r => exact hput.2 hcommitted
    | error e => cases hcommitted
  | done outcome =>
    cases outcome with
    | ok r => exact hput.2 hcommitted
    | error e => cases hcommitted
  | _ => cases hcommitted

end Putting

/-! ## Runs -/

section Runs

variable (a : LocalArchive) (bytes : List UInt8)

/-- What holds of a process between two of its steps. -/
def ProcOk (fs : Disk) (p : Nat) : Proc → Prop
  | .put pc => PutOk a bytes fs p pc
  | .reader late reading =>
    reading.key = objectKey a bytes ∧ reading.expected = (a.sha256 bytes).val ∧
      ReadOk a bytes fs late reading.pc
  | .crashed => True

def Proc.committed : Proc → Bool
  | .put pc => pc.committed
  | _ => false

def Proc.rank : Proc → Nat
  | .put pc => putRank bytes pc
  | .reader _ reading => readRank bytes reading.pc
  | .crashed => 0

/-- The invariant of a run. -/
structure WorldOk (w : World) : Prop where
  disk : DiskOk a bytes w.disk
  procs : ∀ p proc, w.procs p = some proc → ProcOk a bytes w.disk p proc
  one : ∀ p q proc proc', w.procs p = some proc → w.procs q = some proc' →
    proc.committed = true → proc'.committed = true → p = q

/-- What a step of a process does, as far as the others are concerned. -/
structure ProcStep (p : Nat) (fs : Disk) (proc : Proc) (fs' : Disk) (proc' : Proc) : Prop where
  frame : Frame a bytes p fs fs'
  disk : DiskOk a bytes fs'
  procOk : ProcOk a bytes fs' p proc'
  rank : proc'.rank bytes < proc.rank bytes
  committed : proc'.committed = true →
    proc.committed = true ∨ fs.find (objectPath a bytes) = none

variable {a bytes} {w w' : World} {p q : Nat} {fs : Disk} {proc : Proc}

theorem Frame.procOk {fs' : Disk} (hf : Frame a bytes p fs fs') (hq : q ≠ p)
    (h : ProcOk a bytes fs q proc) : ProcOk a bytes fs' q proc := by
  cases proc with
  | put pc => exact hf.putOk hq h
  | reader late reading => exact ⟨h.1, h.2.1, hf.readOk h.2.2⟩
  | crashed => trivial

/-- Every unfinished process has a step. -/
theorem Proc.step_spec (hdisk : DiskOk a bytes fs) (hproc : ProcOk a bytes fs p proc)
    (hrun : proc.finished = false) (hsingle : proc.watches = true → Single a bytes fs) :
    ∃ fs' proc', proc.step a p fs = some (fs', proc') ∧ ProcStep a bytes p fs proc fs' proc' := by
  cases proc with
  | put pc =>
    have hpc : ∀ outcome, pc ≠ .done outcome := by
      rintro outcome rfl
      cases hrun
    have hwatch : pc.watches = true → Single a bytes fs := by
      intro hw
      apply hsingle
      cases pc <;> exact hw
    obtain ⟨fs', pc', hstep, hdo⟩ := putStep_spec hdisk hproc hpc hwatch
    refine ⟨fs', .put pc', ?_, hdo.frame, hdo.disk, hdo.putOk, hdo.rank, hdo.committed⟩
    rw [Proc.step, hstep, Option.map_some]
  | reader late reading =>
    obtain ⟨key, expected, pc⟩ := reading
    obtain ⟨rfl, rfl, hread⟩ := hproc
    have hpc : ∀ outcome, pc ≠ .done outcome := by
      rintro outcome rfl
      cases hrun
    obtain ⟨fs', pc', hstep, hdo⟩ := readStep_spec hdisk hread hpc fun hl hw =>
      hsingle (by rw [Proc.watches, hl, Bool.true_and]; exact hw)
    refine ⟨fs', .reader late ⟨objectKey a bytes, (a.sha256 bytes).val, pc'⟩, ?_, ?_⟩
    · rw [Proc.step, hstep, Option.map_some]
    · rcases hdo.disk with rfl | rfl
      · exact ⟨.refl, hdisk, ⟨rfl, rfl, hdo.readOk⟩, hdo.rank, nofun⟩
      · exact ⟨.mkdir _, hdisk.mkdir _, ⟨rfl, rfl, hdo.readOk⟩, hdo.rank, nofun⟩
  | crashed => cases hrun

theorem Proc.step_finished (h : proc.step a p fs ≠ none) : proc.finished = false := by
  cases proc with
  | put pc =>
    cases pc with
    | done outcome => exact absurd rfl h
    | _ => rfl
  | reader late reading =>
    obtain ⟨key, expected, pc⟩ := reading
    cases pc with
    | done outcome => exact absurd rfl h
    | _ => rfl
  | crashed => exact absurd rfl h

/-- A process whose state changes while the disk stays. -/
theorem WorldOk.set_same (hw : WorldOk a bytes w) (hproc : ProcOk a bytes w.disk p proc)
    (hcommitted : proc.committed = false) : WorldOk a bytes (w.set p w.disk proc) := by
  refine ⟨hw.disk, ?_, ?_⟩
  · intro q d hd
    rcases update_some_eq_some hd with ⟨rfl, rfl⟩ | ⟨-, hold⟩
    · exact hproc
    · exact hw.procs q d hold
  · intro q r d e hd he hcd hce
    rcases update_some_eq_some hd with ⟨rfl, rfl⟩ | ⟨-, hold⟩
    · rw [hcommitted] at hcd
      cases hcd
    · rcases update_some_eq_some he with ⟨rfl, rfl⟩ | ⟨-, hold'⟩
      · rw [hcommitted] at hce
        cases hce
      · exact hw.one q r d e hold hold' hcd hce

theorem WorldOk.step (hw : WorldOk a bytes w) {fs' : Disk} {proc' : Proc}
    (hp : w.procs p = some proc) (hdo : ProcStep a bytes p w.disk proc fs' proc') :
    WorldOk a bytes (w.set p fs' proc') := by
  -- A put that commits finds the object absent, and then no other put has committed.
  have hnew : ∀ q d, w.procs q = some d → d.committed = true → proc'.committed = true → p = q := by
    intro q d hd hcd hce
    rcases hdo.committed hce with hold | habsent
    · exact hw.one p q proc d hp hd hold hcd
    · cases d with
      | put pc =>
        obtain ⟨i, hi⟩ := linked_of_committed (hw.procs q _ hd) hcd
        rw [habsent] at hi
        cases hi
      | reader late reading => cases hcd
      | crashed => cases hcd
  refine ⟨hdo.disk, ?_, ?_⟩
  · intro q d hd
    rcases update_some_eq_some hd with ⟨rfl, rfl⟩ | ⟨hne, hold⟩
    · exact hdo.procOk
    · exact hdo.frame.procOk hne (hw.procs q d hold)
  · intro q r d e hd he hcd hce
    rcases update_some_eq_some hd with ⟨rfl, rfl⟩ | ⟨hq, hold⟩
    · rcases update_some_eq_some he with ⟨rfl, rfl⟩ | ⟨-, hold'⟩
      · rfl
      · exact hnew r e hold' hce hcd
    · rcases update_some_eq_some he with ⟨rfl, rfl⟩ | ⟨-, hold'⟩
      · exact (hnew q d hold hcd hce).symm
      · exact hw.one q r d e hold hold' hcd hce

theorem beginPut_ok {filename : List Char} {chunks : List (List UInt8)}
    (hall : chunks.flatten = bytes) (hpart : fs.find (.part p) = none) :
    ProcOk a bytes fs p (.put (beginPut filename chunks)) := by
  unfold beginPut
  split
  · rfl
  · exact ⟨hall, hpart⟩

theorem startReader_ok : ProcOk a bytes fs p (startReader a bytes fs) := by
  have hopen : openKey (objectKey a bytes) =
      .ok ⟨objectKey a bytes, (a.sha256 bytes).val, .initialise⟩ := openKey_keyForDigest _
  rw [startReader, hopen]
  exact ⟨rfl, rfl, fun h => Option.isSome_iff_exists.mp h⟩

/-- What a label can do. -/
theorem next_cases {act : Act} (h : next a bytes w (p, act) = some w') :
    (∃ filename chunks, act = .put filename chunks ∧ w.disk.find (.part p) = none ∧
        chunks.flatten = bytes ∧ w' = w.set p w.disk (.put (beginPut filename chunks))) ∨
      (act = .openObject ∧ w' = w.set p w.disk (startReader a bytes w.disk)) ∨
      (act = .step ∧ ∃ proc fs' proc', w.procs p = some proc ∧
        proc.step a p w.disk = some (fs', proc') ∧ w' = w.set p fs' proc') ∨
      (act = .crash ∧ w' = w.set p w.disk .crashed) := by
  cases act with
  | put filename chunks =>
    simp only [next] at h
    split at h
    · rename_i hc
      cases h
      exact .inl ⟨filename, chunks, rfl, hc.2.1, hc.2.2, rfl⟩
    · cases h
  | openObject =>
    simp only [next] at h
    split at h
    · cases h
      exact .inr (.inl ⟨rfl, rfl⟩)
    · cases h
  | step =>
    obtain ⟨proc, hp, hmap⟩ := Option.bind_eq_some_iff.mp h
    obtain ⟨⟨fs', proc'⟩, hstep, rfl⟩ := Option.map_eq_some_iff.mp hmap
    exact .inr (.inr (.inl ⟨rfl, proc, fs', proc', hp, hstep, rfl⟩))
  | crash =>
    obtain ⟨proc, hp, hcrash⟩ := Option.bind_eq_some_iff.mp h
    split at hcrash
    · cases hcrash
    · cases hcrash
      exact .inr (.inr (.inr ⟨rfl, rfl⟩))

/-- The invariant holds along every run in which the object is not watched through a second
name. -/
theorem worldOk_of_reach (hw : Reach (archiveSystem a bytes) (Unwatched a bytes) w) :
    WorldOk a bytes w := by
  refine hw.invariant ?_ ?_
  · rintro w ⟨habsent, hnone⟩
    refine ⟨fun i hi => ?_, fun p proc hp => ?_, fun p _ proc _ hp => ?_⟩
    · rw [habsent] at hi
      cases hi
    · rw [hnone] at hp
      cases hp
    · rw [hnone] at hp
      cases hp
  · rintro w ⟨p, act⟩ w' hw hok hnext
    rcases next_cases hnext with ⟨filename, chunks, -, hpart, hall, rfl⟩ | ⟨-, rfl⟩ |
      ⟨hact, proc, fs', proc', hp, hstep, rfl⟩ | ⟨-, rfl⟩
    · refine hw.set_same (beginPut_ok hall hpart) ?_
      simp only [Proc.committed, beginPut]
      split <;> rfl
    · exact hw.set_same startReader_ok rfl
    · have hrun : proc.finished = false := Proc.step_finished (by rw [hstep]; simp)
      obtain ⟨fs'', proc'', hstep', hdo⟩ :=
        Proc.step_spec hw.disk (hw.procs p proc hp) hrun fun hwatch => hok proc hact hp hwatch
      rw [hstep, Option.some.injEq, Prod.mk.injEq] at hstep'
      obtain ⟨rfl, rfl⟩ := hstep'
      exact hw.step hp hdo
    · exact hw.set_same trivial rfl

theorem World.set_procs_self (w : World) (p : Nat) (fs : Disk) (proc : Proc) :
    (w.set p fs proc).procs p = some proc :=
  Function.update_self ..

theorem next_step (hp : w.procs p = some proc) {fs' : Disk} {proc' : Proc}
    (hstep : proc.step a p w.disk = some (fs', proc')) :
    next a bytes w (p, .step) = some (w.set p fs' proc') := by
  simp only [next, hp, Option.bind_some, hstep, Option.map_some]

/-- A put that has to raise an integrity error does so in its next two steps. -/
theorem not_agreed_of_verify {written : List UInt8} {reading : Reading} {message : String}
    {n : Nat} (hp : w.procs p = some (.put (.verify written reading)))
    (hpc : reading.pc = .done (.error (.integrity message n))) :
    ∃ w'', (archiveSystem a bytes).run w [(p, .step), (p, .step)] = some w'' ∧
      ¬Agreed a bytes w'' := by
  obtain ⟨key, expected, pc⟩ := reading
  subst hpc
  have hfirst : next a bytes w (p, .step) = some (w.set p w.disk
      (.put (.cleanup (.error (.integrity message written.length))))) := next_step hp rfl
  have hself := w.set_procs_self p w.disk
    (.put (.cleanup (.error (.integrity message written.length))))
  obtain ⟨fs', hsecond⟩ : ∃ fs', Proc.step a p w.disk
      (.put (.cleanup (.error (.integrity message written.length)))) =
        some (fs', .put (.done (.error (.integrity message written.length)))) := by
    rcases FileSystem.unlink_cases (.part p) w.disk with ⟨-, herr⟩ | ⟨fs', -, hok, -⟩
    · exact ⟨w.disk, by simp [Proc.step, putStep, herr]⟩
    · exact ⟨fs', by simp [Proc.step, putStep, hok]⟩
  have hlast := @next_step a bytes _ p _ hself _ _ hsecond
  have hrun : (archiveSystem a bytes).run w [(p, .step), (p, .step)] = some _ :=
    Option.bind_eq_some_iff.mpr ⟨_, hfirst, Option.bind_eq_some_iff.mpr ⟨_, hlast, rfl⟩⟩
  refine ⟨_, hrun, fun hagreed => ?_⟩
  have hno := hagreed.noIntegrityError p _ (World.set_procs_self ..)
  cases hno

/-- A link count read through a second name ends in an integrity error: of the put that verifies
the object, or of the `open` called after the link. -/
theorem not_agreed_of_watched (hw : WorldOk a bytes w)
    (hwatched : ¬Unwatched a bytes w (p, .step))
    (hnext : next a bytes w (p, .step) = some w') :
    ∃ n w'', (archiveSystem a bytes).run w' (List.replicate n (p, .step)) = some w'' ∧
      ¬Agreed a bytes w'' := by
  simp only [Unwatched, Single] at hwatched
  push Not at hwatched
  obtain ⟨proc, -, hp, hwatches, u, i, hi, hu⟩ := hwatched
  have hmore : w.disk.nlink i ≠ 1 := by
    intro hone
    exact single_of_nlink hi hone u i hi hu
  cases proc with
  | put pc =>
    cases pc with
    | verify written reading =>
      obtain ⟨rfl, hkey, hexpected, hread⟩ := hw.procs p _ hp
      have hstep := readStep_of_nlink hread hwatches hi hmore
      have hpc : ∀ outcome, reading.pc ≠ .done outcome := by
        intro outcome h
        rw [Proc.watches, h] at hwatches
        cases hwatches
      have hput : Proc.step a p w.disk (.put (.verify written reading)) = some (w.disk, .put
          (.verify written { reading with pc := .done (.error (.integrity
            "Archived object must be one regular non-linked file" 0)) })) := by
        rw [Proc.step, putStep_verify hpc, hkey, hexpected, hstep]
        rfl
      rw [next_step hp hput, Option.some.injEq] at hnext
      subst hnext
      have hself := w.set_procs_self p w.disk (.put (.verify written { reading with
        pc := .done (.error (.integrity
          "Archived object must be one regular non-linked file" 0)) }))
      obtain ⟨w'', hrun, hnot⟩ := @not_agreed_of_verify a written _ p _ _ _ _ hself rfl
      exact ⟨2, w'', hrun, hnot⟩
    | _ => cases hwatches
  | reader late reading =>
    rw [Proc.watches, Bool.and_eq_true] at hwatches
    obtain ⟨rfl, hwatches⟩ := hwatches
    obtain ⟨hkey, hexpected, hread⟩ := hw.procs p _ hp
    have hstep : Proc.step a p w.disk (.reader true reading) = some (w.disk, .reader true
        { reading with pc := .done (.error (.integrity
          "Archived object must be one regular non-linked file" 0)) }) := by
      rw [Proc.step, hkey, hexpected, readStep_of_nlink hread hwatches hi hmore]
      rfl
    rw [next_step hp hstep, Option.some.injEq] at hnext
    subst hnext
    refine ⟨0, _, rfl, fun hagreed => ?_⟩
    have := hagreed.opens p _ _ (World.set_procs_self ..) rfl
    cases this
  | crashed => cases hwatches

theorem WorldOk.agreed (hw : WorldOk a bytes w) : Agreed a bytes w := by
  constructor
  · intro p r hp
    obtain ⟨hr, -⟩ := hw.procs p _ hp
    rw [hr]
    exact ⟨rfl, rfl⟩
  · intro p q r s hp hq hr hs
    exact hw.one p q _ _ hp hq hr hs
  · intro p e hp
    exact hw.procs p _ hp
  · intro p reading outcome hp hpc
    obtain ⟨-, -, hread⟩ := hw.procs p _ hp
    rw [hpc] at hread
    exact hread rfl

/-- Every call that has not ended has a next step, its own steps bring it closer to its end, and
the others do not set it back. -/
def Progress (a : LocalArchive) (bytes : List UInt8) (w : World) : Prop :=
  ∀ p proc, w.procs p = some proc → proc.finished = false →
    (proc.watches = true → Single a bytes w.disk) →
    ∃ w' proc', (archiveSystem a bytes).next w (p, .step) = some w' ∧ w'.procs p = some proc' ∧
      proc'.rank bytes < proc.rank bytes ∧ ∀ q, q ≠ p → w'.procs q = w.procs q

theorem WorldOk.progress (hw : WorldOk a bytes w) : Progress a bytes w := by
  intro p proc hp hrun hsingle
  obtain ⟨fs', proc', hstep, hdo⟩ := Proc.step_spec hw.disk (hw.procs p proc hp) hrun hsingle
  have hnext : next a bytes w (p, .step) = some (w.set p fs' proc') := next_step hp hstep
  refine ⟨_, proc', hnext, World.set_procs_self .., hdo.rank, ?_⟩
  intro q hq
  exact Function.update_of_ne hq _ _

end Runs

/-- Concurrent puts of the same bytes agree, and an `open` called after the link returns them, in
every run in which no put and no such `open` reads the link count of the object while a temporary
name still refers to it. Each step that does read it then ends in an integrity error. -/
theorem puts_agree_while_unwatched (a : LocalArchive) (bytes : List UInt8) (w : World)
    (hw : Reach (archiveSystem a bytes) (Unwatched a bytes) w) :
    Agreed a bytes w ∧ Progress a bytes w ∧
      ∀ p w', ¬Unwatched a bytes w (p, .step) →
        (archiveSystem a bytes).next w (p, .step) = some w' →
        ∃ n w'', (archiveSystem a bytes).run w' (List.replicate n (p, .step)) = some w'' ∧
          ¬Agreed a bytes w'' := by
  have hok := worldOk_of_reach hw
  exact ⟨hok.agreed, hok.progress, fun p w' hwatched hnext => not_agreed_of_watched hok hwatched hnext⟩

/-! ## Two puts of three bytes -/

/-- The bytes `abc`. -/
def sampleBytes : List UInt8 := [0x61, 0x62, 0x63]

/-- The SHA-256 digest of `abc`. -/
def sampleDigest : Digest :=
  ⟨"ba7816bf8f01cfea414140de5dae2223b00361a396177a9cb410ff61f20015ad".toList, by decide, by decide⟩

def sampleArchive : LocalArchive := ⟨fun _ => sampleDigest, 1024, 2, by decide⟩

def sampleWorld : World := ⟨⟨[], fun _ => [], fun _ => false, [], List.nodup_nil⟩, fun _ => none⟩

/-- The first put ends before the second one links; then the object is opened. -/
def oneAfterTheOther : List (Nat × Act) :=
  [(0, .put ['a'] [sampleBytes]), (1, .put ['b'] [[0x61], [0x62, 0x63]])] ++
    List.replicate 11 (0, .step) ++ List.replicate 30 (1, .step) ++ [(2, .openObject)] ++
    List.replicate 19 (2, .step)

theorem puts_agree_one_after_the_other :
    let w := (archiveSystem sampleArchive sampleBytes).afterChecked
      (Unwatched sampleArchive sampleBytes) sampleWorld oneAfterTheOther
    Agreed sampleArchive sampleBytes w ∧
      w.procs 0 = some (.put (.done (.ok (receipt sampleArchive sampleBytes true)))) ∧
      w.procs 1 = some (.put (.done (.ok (receipt sampleArchive sampleBytes false)))) ∧
      ∃ reading, w.procs 2 = some (.reader true reading) ∧ reading.pc = .done (.ok sampleBytes) :=
  ⟨(puts_agree_while_unwatched sampleArchive sampleBytes _
      (reach_afterChecked oneAfterTheOther ⟨rfl, rfl⟩ (by decide +kernel))).1,
    rfl, rfl, _, rfl, rfl⟩

/-- Both puts write their temporary files, the first one links the object, and the second one
finds it linked and verifies it. -/
def bothPut : List (Nat × Act) :=
  [(0, .put ['a'] [sampleBytes]), (1, .put ['b'] [[0x61], [0x62, 0x63]])] ++
    List.replicate 8 (0, .step) ++ List.replicate 14 (1, .step)

/-- The second put raises an integrity error because the first one has not removed its temporary
name yet. -/
theorem not_puts_agree :
    ¬∀ (a : LocalArchive) (bytes : List UInt8) (w : World),
      Reach (archiveSystem a bytes) Any w → Agreed a bytes w := by
  intro h
  have hreach : Reach (archiveSystem sampleArchive sampleBytes) Any
      ((archiveSystem sampleArchive sampleBytes).after sampleWorld bothPut) :=
    reach_after bothPut ⟨rfl, rfl⟩ (by decide +kernel)
  have hfailed : ((archiveSystem sampleArchive sampleBytes).after sampleWorld bothPut).procs 1 =
      some (.put (.done (.error
        (.integrity "Archived object must be one regular non-linked file" 3)))) := by rfl
  have hno := (h _ _ _ hreach).noIntegrityError 1 _ hfailed
  cases hno

end Makolet.Archive
