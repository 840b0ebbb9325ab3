import Makolet.Archive.Puts
import Makolet.Backup.Safety

/-!
# What a successful restore leaves in the bucket

`restore_safe` collects the guarantees of restores that interleave with each other, with archive
puts and with crashes. A staging object may be left behind next to a restore that succeeded:
another one can stage the object after it was cleaned, and die.
-/

set_option autoImplicit false

namespace Makolet.Backup

open Makolet.Archive Makolet.Lib

/-- Two different contents of one length with one SHA-256 digest. -/
def Collision (c : RestoreConfig) (content body : List UInt8) : Prop :=
  content ≠ body ∧ content.length = body.length ∧ c.sha256 content = c.sha256 body

/-- The object of the entry is in the bucket with the bytes of the backup. -/
def Restored (c : RestoreConfig) (backup : BackupDirectory) (b : Bucket) (entry : ManifestEntry) :
    Prop :=
  ∃ content body, b entry.key = some content ∧ backup.files entry.sha256 = some body ∧
    (c.sha256 content).val = entry.sha256 ∧ (content.length : Int) = entry.size ∧
    (content = body ∨ Collision c content body)

theorem Present.restored {c : RestoreConfig} {backup : BackupDirectory} {b : Bucket}
    {entry : ManifestEntry} (h : Present c b entry) (hentry : EntryOk c backup.files entry) :
    Restored c backup b entry := by
  obtain ⟨content, hcontent, hsha, hsize⟩ := h
  obtain ⟨body, hbody, hbodySha, hbodySize⟩ := hentry.file
  refine ⟨content, body, hcontent, hbody, hsha, hsize, ?_⟩
  by_cases heq : content = body
  · exact .inl heq
  · exact .inr ⟨heq, Int.ofNat.inj (hsize.trans hbodySize.symm),
      Subtype.ext (hsha.trans hbodySha.symm)⟩

/-- The guarantees of restores on one bucket, for every interleaving. Canonical objects match the
digests in their keys and never change; a restore that has succeeded finds every object of its
manifest with the backup's bytes, and no staging object of it that another restore has not uploaded
since. -/
theorem restore_safe (c : RestoreConfig) :
    (∀ w, Reach (restoreSystem c) Any w → Matched c w.bucket) ∧
    (∀ w labels w', Reach (restoreSystem c) Any w →
      (restoreSystem c).run w labels = some w' → Grows c w.bucket w'.bucket) ∧
    ∀ w p run summary, Reach (restoreSystem c) Any w → w.runs p = some run →
      run.stage = .succeeded summary → ∀ entry ∈ run.backup.manifest.objects,
        Restored c run.backup w.bucket entry ∧
          (w.bucket (stagingKey c entry) = none ∨
            UploadedSince w.history p (stagingKey c entry)) := by
  refine ⟨fun w hw => (worldOk_of_reach hw).matched, fun w labels w' hw => grows_of_run hw, ?_⟩
  intro w p run summary hw hrun hstage entry hmem
  have hok := (worldOk_of_reach hw).runs p run hrun
  rw [RunOk, hstage] at hok
  obtain ⟨hvalid, hlist, hpresent⟩ := hok
  have hrestored : entry ∈ run.restored := hlist ▸ hmem
  refine ⟨(hpresent entry hrestored).restored (hvalid entry hmem), ?_⟩
  have hstanding : run.Standing := by rw [Run.Standing, hstage]; trivial
  obtain ⟨-, habsent | hsince | ⟨other, hother, -⟩⟩ :=
    tidy_of_reach hw p run hrun hstanding entry hrestored
  · exact .inl habsent
  · exact .inr hsince
  · rw [Run.current, hstage] at hother
    cases hother

/-! ## A leftover -/

/-- The bytes `abc` and their SHA-256 digest. -/
def abcBytes : List UInt8 := [0x61, 0x62, 0x63]

def abcDigest : Digest := sampleDigest

/-- The SHA-256 digest that names the staging key of this object. -/
def abcIdentity : Digest :=
  ⟨"3f4501d2a1780f6c3052dd79d219f5deaa61844a0f860cd80bf4c2a5776c2431".toList, by decide⟩

/-- SHA-256 on the two inputs that are hashed here. -/
def abcConfig : RestoreConfig where
  sha256 bytes := if bytes = abcBytes then abcDigest else abcIdentity
  etag bytes := bytes
  etag_determines := fun _ _ h => h
  keyPrefix := "raw".toList
  maximumObjects := 10
  maximumObjectBytes := 1024
  maximumBackupBytes := 4096

/-- A backup of one object. -/
def abcBackup : BackupDirectory where
  manifest := ⟨"raw".toList, [⟨serviceKey abcConfig abcDigest, abcDigest.val, 3⟩]⟩
  files sha := if sha = abcDigest.val then some abcBytes else none

/-- The first restore goes through its object; the second one stages the same object and dies; the
first one returns. -/
def leftover : List Label :=
  [.restore 0 abcBackup, .step 0 .ok, .step 0 .ok, .step 0 .ok, .step 0 .ok, .step 0 .ok, .step 0 .ok,
    .step 0 .ok, .step 0 .ok, .step 0 .ok,
    .restore 1 abcBackup, .step 1 .ok, .step 1 .ok, .step 1 .ok, .crash 1,
    .step 0 .ok]

def emptyWorld : World := ⟨fun _ => none, fun _ => none, []⟩

def leftoverWorld : World := (restoreSystem abcConfig).after emptyWorld leftover

/-- The restore is at work. -/
def Run.running (run : Run) : Bool :=
  match run.stage with
  | .restoring _ _ _ | .closing => true
  | _ => false

/-- The manifest and the result of a restore that succeeded. -/
def Run.success (run : Run) : Option (Manifest × Summary) :=
  match run.stage with
  | .succeeded summary => some (run.backup.manifest, summary)
  | _ => none

/-- The restore that a label is about. -/
def Label.run : Label → Option Nat
  | .restore p _ | .step p _ | .crash p | .land p => some p
  | .archivePut _ => none

/-- A label moves its own restore only. -/
theorem next_runs_of_ne {c : RestoreConfig} {w w' : World} {l : Label} {q : Nat}
    (h : next c w l = some w') (hq : l.run ≠ some q) : w'.runs q = w.runs q := by
  have hset (p : Nat) (run : Run) (hp : some p ≠ some q) : (w.setRun p run).runs q = w.runs q :=
    Function.update_of_ne (fun heq => hp (congrArg some heq.symm)) _ _
  cases l with
  | restore p backup =>
    dsimp only [next] at h
    split at h <;> cases h
    exact hset p _ hq
  | step p answer =>
    dsimp only [next] at h
    split at h
    · split at h <;> cases h <;> exact hset p _ hq
    · cases h
  | crash p =>
    dsimp only [next] at h
    split at h
    · split at h <;> cases h <;> exact hset p _ hq
    · cases h
  | land p =>
    dsimp only [next] at h
    split at h
    · split at h <;> cases h
      exact hset p _ hq
    · cases h
  | archivePut content =>
    cases h
    rfl

theorem run_runs_of_ne {c : RestoreConfig} {labels : List Label} {w w' : World} {q : Nat}
    (h : (restoreSystem c).run w labels = some w') (hq : ∀ l ∈ labels, l.run ≠ some q) :
    w'.runs q = w.runs q := by
  induction labels generalizing w with
  | nil =>
    cases h
    rfl
  | cons l rest ih =>
    rw [System.run_cons, Option.bind_eq_some_iff] at h
    obtain ⟨m, hm, hrest⟩ := h
    rw [ih hrest fun l' hl' => hq l' (List.mem_cons_of_mem _ hl'),
      next_runs_of_ne hm (hq l List.mem_cons_self)]

theorem leftover_runs : ((restoreSystem abcConfig).run emptyWorld leftover).isSome = true := by
  decide +kernel

/-- The second restore is not at work at the end, and there is no third. -/
theorem leftover_alone (q : Nat) (other : Run) (hq : q ≠ 0)
    (hother : leftoverWorld.runs q = some other) : other.running = false := by
  by_cases hone : q = 1
  · subst hone
    have hcrashed : (leftoverWorld.runs 1).map Run.running = some false := by decide +kernel
    rw [hother] at hcrashed
    exact Option.some.inj hcrashed
  · have hlabels : ∀ l ∈ leftover, l.run = some 0 ∨ l.run = some 1 := by
      simp [leftover, Label.run]
    have hsame := run_runs_of_ne (System.run_after leftover_runs) (q := q) fun l hl heq => by
      rcases hlabels l hl with h | h <;> rw [h] at heq
      · exact hq (Option.some.inj heq).symm
      · exact hone (Option.some.inj heq).symm
    rw [leftoverWorld, hsame] at hother
    cases hother

/-- It does not hold that no staging object of its manifest remains when a restore has succeeded and
no other one is running: the other one may have died after it staged the object anew. -/
theorem not_staging_removed : ¬ ∀ c w p run summary, Reach (restoreSystem c) Any w →
    w.runs p = some run → run.stage = .succeeded summary →
    (∀ q other, q ≠ p → w.runs q = some other → other.running = false) →
    ∀ entry ∈ run.backup.manifest.objects, w.bucket (stagingKey c entry) = none := by
  intro h
  have hreach : Reach (restoreSystem abcConfig) Any leftoverWorld :=
    reach_after leftover ⟨fun _ _ hnone => (by cases hnone), fun _ => rfl, rfl⟩ leftover_runs
  have hsuccess : (leftoverWorld.runs 0).bind Run.success =
      some (abcBackup.manifest, ⟨1, 1⟩) := by decide +kernel
  obtain ⟨run, hrun, hdone⟩ := Option.bind_eq_some_iff.mp hsuccess
  obtain ⟨summary, hstage, hmanifest⟩ : ∃ summary, run.stage = .succeeded summary ∧
      run.backup.manifest = abcBackup.manifest := by
    unfold Run.success at hdone
    split at hdone
    · rename_i summary hstage
      exact ⟨summary, hstage, congrArg Prod.fst (Option.some.inj hdone)⟩
    · cases hdone
  have habsent := h abcConfig leftoverWorld 0 run summary hreach hrun hstage leftover_alone
    ⟨serviceKey abcConfig abcDigest, abcDigest.val, 3⟩ (hmanifest ▸ List.mem_cons_self)
  have hleft : leftoverWorld.bucket (stagingKey abcConfig
      ⟨serviceKey abcConfig abcDigest, abcDigest.val, 3⟩) = some abcBytes := by decide +kernel
  rw [habsent] at hleft
  cases hleft

end Makolet.Backup
