import Makolet.Backup.Restore

/-!
# What restores preserve

Canonical objects keep their content, and new ones match their digests, because a copy asks for the
ETag of the content that was verified (`Point.effect_grows`). A restore that succeeds has read back
every object of its manifest (`RunOk`). Its staging keys are absent, unless another restore has
uploaded to one of them since it was cleaned (`Tidy`): the staging keys of an object are shared, and
a process that dies leaves what it staged.
-/

set_option autoImplicit false

namespace Makolet.Backup

open Makolet.Archive Makolet.Lib

variable {c : RestoreConfig}

/-! ## Canonical objects -/

/-- Canonical objects stay as they are. -/
def Grows (c : RestoreConfig) (b b' : Bucket) : Prop :=
  ∀ d content, b (serviceKey c d) = some content → b' (serviceKey c d) = some content

theorem Grows.refl (b : Bucket) : Grows c b b := fun _ _ h => h

theorem Grows.trans {b b' b'' : Bucket} (h : Grows c b b') (h' : Grows c b' b'') : Grows c b b'' :=
  fun d content hc => h' d content (h d content hc)

/-- The entry's object is in the bucket, with the digest and the size of the manifest. -/
def Present (c : RestoreConfig) (b : Bucket) (entry : ManifestEntry) : Prop :=
  ∃ content, b entry.key = some content ∧ (c.sha256 content).val = entry.sha256 ∧
    (content.length : Int) = entry.size

theorem Present.mono {b b' : Bucket} {entry : ManifestEntry}
    {files : List Char → Option (List UInt8)} (h : Present c b entry)
    (hentry : EntryOk c files entry) (hg : Grows c b b') : Present c b' entry := by
  obtain ⟨content, hcontent, hsha, hsize⟩ := h
  obtain ⟨d, -, hkey⟩ := hentry.key
  rw [hkey] at hcontent
  exact ⟨content, hkey ▸ hg d content hcontent, hsha, hsize⟩

/-- A write to a staging key, or to an absent canonical key. -/
theorem grows_update {b : Bucket} {key : ServiceKey} {value : Option (List UInt8)}
    (h : b key = none ∨ ∀ d, key ≠ serviceKey c d) : Grows c b (Function.update b key value) := by
  intro d content hcontent
  rw [Function.update_of_ne]
  · exact hcontent
  · rintro rfl
    rcases h with hnone | hne
    · rw [hnone] at hcontent
      cases hcontent
    · exact hne d rfl

theorem Matched.update {b : Bucket} {key : ServiceKey} {value : Option (List UInt8)}
    (h : Matched c b) (hvalue : ∀ d content, key = serviceKey c d → value = some content →
      c.sha256 content = d) : Matched c (Function.update b key value) := by
  intro d content hcontent
  by_cases hkey : serviceKey c d = key
  · rw [hkey, Function.update_self] at hcontent
    exact hvalue d content hkey.symm hcontent
  · rw [Function.update_of_ne hkey] at hcontent
    exact h d content hcontent

theorem putIfAbsent_grows (b : Bucket) (key : ServiceKey) (content : List UInt8) :
    Grows c b (putIfAbsent b key content) := by
  unfold putIfAbsent
  split
  · rename_i habsent
    exact grows_update (.inl habsent)
  · exact .refl b

theorem Matched.putIfAbsent {b : Bucket} {key : ServiceKey} {content : List UInt8}
    (h : Matched c b) (hkey : ∀ d, key = serviceKey c d → c.sha256 content = d) :
    Matched c (putIfAbsent b key content) := by
  unfold Backup.putIfAbsent
  split
  · refine h.update fun d found hd hfound => ?_
    cases hfound
    exact hkey d hd
  · exact h

/-! ## What a point knows -/

section Point

variable {files : List Char → Option (List UInt8)} {entry : ManifestEntry} {b : Bucket}

/-- What `_restore_object` has established at an await. -/
def PointOk (c : RestoreConfig) (entry : ManifestEntry) (b : Bucket) : Point → Prop
  | .uploading body => (c.sha256 body).val = entry.sha256 ∧ (body.length : Int) = entry.size
  | .copying etag => ∃ content, c.etag content = etag ∧ (c.sha256 content).val = entry.sha256 ∧
      (content.length : Int) = entry.size
  | .cleaning (.finally (.ok _)) _ _ => Present c b entry
  | _ => True

theorem PointOk.mono {b' : Bucket} {point : Point} (h : PointOk c entry b point)
    (hentry : EntryOk c files entry) (hg : Grows c b b') : PointOk c entry b' point := by
  cases point with
  | cleaning after request attempt =>
    cases after with
    | first => trivial
    | «finally» outcome =>
      cases outcome with
      | error message => trivial
      | ok created => exact Present.mono h hentry hg
  | _ => exact h

theorem stagingKey_ne (entry : ManifestEntry) (d : Digest) : stagingKey c entry ≠ serviceKey c d :=
  restoreStagingKey_ne entry.key entry.sha256 d

/-- A request keeps the canonical objects, and what it adds matches its digest. -/
theorem Point.effect_grows {point : Point} (hentry : EntryOk c files entry)
    (hpoint : PointOk c entry b point) (hb : Matched c b) :
    Grows c b (point.effect c entry b) ∧ Matched c (point.effect c entry b) := by
  have hstaging : ∀ d, stagingKey c entry ≠ serviceKey c d := stagingKey_ne entry
  cases point with
  | cleaning after request attempt =>
    cases request with
    | delete =>
      exact ⟨grows_update (.inr hstaging), hb.update fun _ _ _ hvalue => by cases hvalue⟩
    | _ => exact ⟨.refl b, hb⟩
  | uploading body =>
    exact ⟨putIfAbsent_grows b _ body, hb.putIfAbsent fun d hd => absurd hd (hstaging d)⟩
  | copying etag =>
    obtain ⟨verified, hetag, hsha, -⟩ := hpoint
    obtain ⟨d, hd, hkey⟩ := hentry.key
    show Grows c b (copyIfMatch c b _ entry.key etag) ∧ Matched c (copyIfMatch c b _ entry.key etag)
    unfold copyIfMatch
    split
    · split
      · -- The ETag says that what is copied is what was verified.
        rename_i content _ hmatch
        cases c.etag_determines (hmatch.trans hetag.symm)
        refine ⟨putIfAbsent_grows b _ verified, hb.putIfAbsent fun d' hd' => ?_⟩
        rw [← serviceKey_injective (hkey.symm.trans hd')]
        exact Subtype.ext (hsha.trans hd.symm)
      · exact ⟨.refl b, hb⟩
    · exact ⟨.refl b, hb⟩
  | _ => exact ⟨.refl b, hb⟩

theorem Point.bucket_grows {point : Point} (hentry : EntryOk c files entry)
    (hpoint : PointOk c entry b point) (hb : Matched c b) (answer : Answer) :
    Grows c b (point.bucket c entry b answer) ∧ Matched c (point.bucket c entry b answer) := by
  cases answer with
  | ok | lost => exact Point.effect_grows hentry hpoint hb
  | error | expired => exact ⟨.refl b, hb⟩

/-- Where an answer leads. It returns only after the cleanup has seen the staging key absent, with
the object present. -/
def ProgressOk (c : RestoreConfig) (entry : ManifestEntry) (b b' : Bucket) : Progress → Prop
  | .goto point => PointOk c entry b' point
  | .returns _ => Present c b' entry ∧ b (stagingKey c entry) = none ∧ b' = b
  | .raises _ => True

theorem leave_ok {after : After} {request : Cleaning} {attempt : Nat}
    (hpoint : PointOk c entry b (.cleaning after request attempt))
    (habsent : b (stagingKey c entry) = none) : ProgressOk c entry b b after.leave := by
  cases after with
  | first => trivial
  | «finally» outcome =>
    cases outcome with
    | error message => trivial
    | ok created => exact ⟨hpoint, habsent, rfl⟩

theorem retry_ok {b' : Bucket} {after : After} {request : Cleaning} {attempt : Nat}
    (hpoint : PointOk c entry b' (.cleaning after request attempt)) :
    ProgressOk c entry b b' (retry after attempt) := by
  unfold retry
  split
  · cases after with
    | first => trivial
    | «finally» outcome => cases outcome <;> exact hpoint
  · trivial

/-- The spec of one answer. -/
theorem Point.progress_ok {point : Point} (hentry : EntryOk c files entry)
    (hpoint : PointOk c entry b point) (hb : Matched c b) (answer : Answer) :
    ProgressOk c entry b (point.bucket c entry b answer)
      (point.progress c entry files b answer) := by
  have hnew := hpoint.mono hentry (Point.bucket_grows hentry hpoint hb answer).1
  -- While cleaning a lost or failed request is retried; elsewhere it ends the entry.
  cases point with
  | cleaning after request attempt =>
    cases answer with
    | expired => cases request <;> trivial
    | lost => cases request <;> exact retry_ok hnew
    | error => cases request <;> exact retry_ok hnew
    | ok =>
      cases request with
      | head =>
        simp only [Point.progress]
        split
        · rename_i habsent
          exact leave_ok hpoint habsent
        · cases after with
          | first => trivial
          | «finally» outcome => cases outcome <;> exact hnew
      | delete =>
        cases after with
        | first => trivial
        | «finally» outcome => cases outcome <;> exact hnew
      | confirm =>
        simp only [Point.progress]
        split
        · rename_i habsent
          exact leave_ok hpoint habsent
        · exact retry_ok hnew
  | hashing =>
    cases answer with
    | ok =>
      simp only [Point.progress]
      split
      · rename_i body hbody
        exact (readObject_ok hbody).2
      · trivial
    | _ => trivial
  | uploading body =>
    cases answer with
    | ok =>
      simp only [Point.progress]
      split <;> trivial
    | _ => trivial
  | checkingStaging =>
    cases answer with
    | ok =>
      simp only [Point.progress]
      split
      · trivial
      · rename_i content _
        split
        · rename_i hmatch
          exact ⟨content, rfl, hmatch.2⟩
        · trivial
    | _ => trivial
  | copying etag =>
    cases answer with
    | ok =>
      simp only [Point.progress]
      split <;> trivial
    | _ => trivial
  | checkingTarget created =>
    cases answer with
    | ok =>
      simp only [Point.progress]
      split
      · trivial
      · rename_i content hcontent
        split
        · rename_i hmatch
          exact ⟨content, hcontent, hmatch.2⟩
        · trivial
    | _ => trivial

end Point

/-! ## Runs -/

/-- What holds of a run and the bucket. -/
def RunOk (c : RestoreConfig) (b : Bucket) (run : Run) : Prop :=
  match run.stage with
  | .restoring entry rest point =>
    (∀ e ∈ run.backup.manifest.objects, EntryOk c run.backup.files e) ∧
      run.restored ++ entry :: rest = run.backup.manifest.objects ∧
      (∀ e ∈ run.restored, Present c b e) ∧ PointOk c entry b point
  | .closing | .succeeded _ =>
    (∀ e ∈ run.backup.manifest.objects, EntryOk c run.backup.files e) ∧
      run.restored = run.backup.manifest.objects ∧ ∀ e ∈ run.restored, Present c b e
  | .crashed (some (entry, point)) => EntryOk c run.backup.files entry ∧ PointOk c entry b point
  | .failed _ | .crashed none => True

theorem RunOk.mono {b b' : Bucket} {run : Run} (h : RunOk c b run) (hg : Grows c b b') :
    RunOk c b' run := by
  unfold RunOk at h ⊢
  split at h
  · obtain ⟨hvalid, hlist, hpresent, hpoint⟩ := h
    have hmem : ∀ e ∈ run.restored, e ∈ run.backup.manifest.objects := fun e he =>
      hlist ▸ List.mem_append_left _ he
    refine ⟨hvalid, hlist, fun e he => (hpresent e he).mono (hvalid e (hmem e he)) hg, ?_⟩
    exact hpoint.mono (hvalid _ (hlist ▸ List.mem_append_right _ List.mem_cons_self)) hg
  · obtain ⟨hvalid, hlist, hpresent⟩ := h
    exact ⟨hvalid, hlist, fun e he => (hpresent e he).mono (hvalid e (hlist ▸ he)) hg⟩
  · obtain ⟨hvalid, hlist, hpresent⟩ := h
    exact ⟨hvalid, hlist, fun e he => (hpresent e he).mono (hvalid e (hlist ▸ he)) hg⟩
  · exact ⟨h.1, h.2.mono h.1 hg⟩
  · trivial
  · trivial

/-- The run that begins the next object. -/
theorem runOk_nextObject {b : Bucket} (run : Run) {rest : List ManifestEntry}
    (hvalid : ∀ e ∈ run.backup.manifest.objects, EntryOk c run.backup.files e)
    (hlist : run.restored ++ rest = run.backup.manifest.objects)
    (hpresent : ∀ e ∈ run.restored, Present c b e) :
    RunOk c b { run with stage := nextObject rest } := by
  cases rest with
  | nil => exact ⟨hvalid, (List.append_nil _).symm.trans hlist, hpresent⟩
  | cons entry rest => exact ⟨hvalid, hlist, hpresent, trivial⟩

theorem beginRestore_ok (b : Bucket) (backup : BackupDirectory) :
    RunOk c b (beginRestore c backup) := by
  unfold beginRestore
  split
  · trivial
  · rename_i objects hverified
    exact runOk_nextObject ⟨backup, objects, [], 0, .closing⟩ (verifyManifest_ok hverified) rfl fun _ hmem => absurd hmem List.not_mem_nil

theorem RunOk.advance {b b' : Bucket} {run : Run} {entry : ManifestEntry}
    {rest : List ManifestEntry} {point : Point} {progress : Progress}
    (h : RunOk c b { run with stage := .restoring entry rest point }) (hg : Grows c b b')
    (hp : ProgressOk c entry b b' progress) : RunOk c b' (run.advance entry rest progress) := by
  obtain ⟨hvalid, hlist, hpresent, -⟩ := h.mono hg
  cases progress with
  | goto point => exact ⟨hvalid, hlist, hpresent, hp⟩
  | raises message => trivial
  | returns created =>
    refine runOk_nextObject { run with
      restored := run.restored ++ [entry]
      created := run.created + created.toNat } hvalid ?_ ?_
    · exact (List.append_assoc _ [entry] rest).trans hlist
    · intro e he
      rcases List.mem_append.mp he with hold | hnew
      · exact hpresent e hold
      · exact List.mem_singleton.mp hnew ▸ hp.1

/-- What holds of the bucket and of every run. -/
structure WorldOk (c : RestoreConfig) (w : World) : Prop where
  matched : Matched c w.bucket
  runs : ∀ p run, w.runs p = some run → RunOk c w.bucket run

/-- One run moves while the bucket grows. -/
theorem WorldOk.move {w : World} (h : WorldOk c w) {p : Nat} {run : Run} {b' : Bucket}
    {history : List Event} (hg : Grows c w.bucket b') (hb : Matched c b') (hrun : RunOk c b' run) :
    WorldOk c { w.setRun p run with bucket := b', history := history } := by
  refine ⟨hb, fun q other hq => ?_⟩
  by_cases hqp : q = p
  · subst hqp
    simp only [World.setRun, Function.update_self, Option.some.injEq] at hq
    exact hq ▸ hrun
  · simp only [World.setRun, Function.update_of_ne hqp] at hq
    exact (h.runs q other hq).mono hg

/-- The spec of one step. -/
theorem WorldOk.next {w w' : World} {l : Label} (h : WorldOk c w) (hnext : next c w l = some w') :
    WorldOk c w' ∧ Grows c w.bucket w'.bucket := by
  cases l with
  | restore p backup =>
    dsimp only [Backup.next] at hnext
    split at hnext <;> cases hnext
    exact ⟨h.move (.refl _) h.matched (beginRestore_ok _ backup), .refl _⟩
  | step p answer =>
    dsimp only [Backup.next] at hnext
    split at hnext
    · rename_i run hrun
      have hok := h.runs p run hrun
      split at hnext
      · rename_i entry rest point hstage
        cases hnext
        have hok' : RunOk c w.bucket { run with stage := .restoring entry rest point } := by
          rw [← hstage]
          exact hok
        have ⟨hvalid, hlist, _, hpoint⟩ := hok'
        have hentry := hvalid entry (hlist ▸ List.mem_append_right _ List.mem_cons_self)
        obtain ⟨hg, hb⟩ := Point.bucket_grows hentry hpoint h.matched answer
        exact ⟨h.move hg hb (hok'.advance hg (Point.progress_ok hentry hpoint h.matched answer)), hg⟩
      · rename_i hstage
        cases hnext
        refine ⟨h.move (.refl _) h.matched ?_, .refl _⟩
        rw [RunOk, hstage] at hok
        cases answer with
        | ok => exact hok
        | _ => trivial
      · cases hnext
    · cases hnext
  | crash p =>
    dsimp only [Backup.next] at hnext
    split at hnext
    · rename_i run hrun
      have hok := h.runs p run hrun
      split at hnext <;> cases hnext
      · rename_i entry rest point hstage
        rw [RunOk, hstage] at hok
        obtain ⟨hvalid, hlist, -, hpoint⟩ := hok
        exact ⟨h.move (.refl _) h.matched
          ⟨hvalid entry (hlist ▸ List.mem_append_right _ List.mem_cons_self), hpoint⟩, .refl _⟩
      · exact ⟨h.move (.refl _) h.matched trivial, .refl _⟩
    · cases hnext
  | land p =>
    dsimp only [Backup.next] at hnext
    split at hnext
    · rename_i run hrun
      have hok := h.runs p run hrun
      split at hnext <;> cases hnext
      rename_i entry point hstage
      rw [RunOk, hstage] at hok
      obtain ⟨hg, hb⟩ := Point.effect_grows hok.1 hok.2 h.matched
      exact ⟨h.move hg hb trivial, hg⟩
    · cases hnext
  | archivePut content =>
    cases hnext
    have hg := putIfAbsent_grows (c := c) w.bucket (serviceKey c (c.sha256 content)) content
    refine ⟨⟨h.matched.putIfAbsent fun d hd => serviceKey_injective hd, ?_⟩, hg⟩
    exact fun p run hrun => (h.runs p run hrun).mono hg

theorem worldOk_of_reach {w : World} (hw : Reach (restoreSystem c) Any w) : WorldOk c w := by
  refine hw.invariant ?_ fun _ _ _ h _ hnext => (h.next hnext).1
  rintro w ⟨hb, hruns, -⟩
  exact ⟨hb, fun p run hrun => by rw [hruns p] at hrun; cases hrun⟩

/-- Canonical objects stay as they are along every run. -/
theorem grows_of_run {labels : List Label} {w w' : World} (hw : Reach (restoreSystem c) Any w)
    (hrun : (restoreSystem c).run w labels = some w') : Grows c w.bucket w'.bucket := by
  induction labels generalizing w with
  | nil =>
    cases hrun
    exact .refl _
  | cons l rest ih =>
    rw [System.run_cons, Option.bind_eq_some_iff] at hrun
    obtain ⟨m, hm, hrest⟩ := hrun
    exact ((worldOk_of_reach hw).next hm).2.trans (ih (.step l hw trivial hm) hrest)

/-! ## Staging keys -/

/-- Another restore uploaded to the key after this one had cleaned it. -/
def UploadedSince (history : List Event) (p : Nat) (key : ServiceKey) : Prop :=
  ∃ before after q, history = before ++ .cleaned p key :: after ∧ q ≠ p ∧
    .uploaded q key ∈ after

theorem UploadedSince.mono {history : List Event} {p : Nat} {key : ServiceKey}
    (h : UploadedSince history p key) (more : List Event) : UploadedSince (history ++ more) p key := by
  obtain ⟨before, after, q, rfl, hq, hmem⟩ := h
  refine ⟨before, after ++ more, q, ?_, hq, List.mem_append_left _ hmem⟩
  rw [List.append_assoc, List.cons_append]

/-- An upload after the key was cleaned. -/
theorem uploadedSince_of {history : List Event} {p q : Nat} {key : ServiceKey}
    (hcleaned : Event.cleaned p key ∈ history) (hq : q ≠ p) :
    UploadedSince (history ++ [.uploaded q key]) p key := by
  obtain ⟨before, after, rfl⟩ := List.append_of_mem hcleaned
  refine ⟨before, after ++ [.uploaded q key], q, ?_, hq, List.mem_append_right _ List.mem_cons_self⟩
  rw [List.append_assoc, List.cons_append]

/-- The object that a run works on. -/
def Run.current (run : Run) : Option ManifestEntry :=
  match run.stage with
  | .restoring entry _ _ => some entry
  | _ => none

/-- The run is at work or has succeeded. -/
def Run.Standing (run : Run) : Prop :=
  match run.stage with
  | .restoring _ _ _ | .closing | .succeeded _ => True
  | .failed _ | .crashed _ => False

/-- The staging keys of the objects that a run is through with: cleaned, and absent unless another
restore has uploaded since or the run is at work on the same key. -/
def Tidy (c : RestoreConfig) (w : World) (p : Nat) (run : Run) : Prop :=
  run.Standing → ∀ e ∈ run.restored, .cleaned p (stagingKey c e) ∈ w.history ∧
    (w.bucket (stagingKey c e) = none ∨ UploadedSince w.history p (stagingKey c e) ∨
      ∃ entry, run.current = some entry ∧ stagingKey c entry = stagingKey c e)

theorem putIfAbsent_of_ne {b : Bucket} {key other : ServiceKey} (h : other ≠ key)
    (content : List UInt8) : putIfAbsent b key content other = b other := by
  unfold putIfAbsent
  split
  · exact Function.update_of_ne h _ _
  · rfl

theorem copyIfMatch_of_ne {b : Bucket} {target other : ServiceKey} (h : other ≠ target)
    (source : ServiceKey) (etag : List UInt8) :
    copyIfMatch c b source target etag other = b other := by
  unfold copyIfMatch
  cases b source with
  | none => rfl
  | some content =>
    dsimp only
    split
    · exact putIfAbsent_of_ne h content
    · rfl

/-- An absent staging key stays absent under a request of run `q`, or the upload is recorded. -/
theorem effect_staging {b : Bucket} {entry : ManifestEntry} {files : List Char → Option (List UInt8)}
    (hentry : EntryOk c files entry) {point : Point} (progress : Progress)
    (hreturns : ∀ created, progress = .returns created → point.effect c entry b = b)
    (q : Nat) {e : ManifestEntry} (habsent : b (stagingKey c e) = none) :
    point.effect c entry b (stagingKey c e) = none ∨
      stagingKey c entry = stagingKey c e ∧
        events c q entry b (point.effect c entry b) point progress =
          [.uploaded q (stagingKey c e)] := by
  cases point with
  | cleaning after request attempt =>
    cases request with
    | delete =>
      left
      show deleteObject b _ _ = none
      by_cases hkey : stagingKey c e = stagingKey c entry
      · rw [deleteObject, hkey, Function.update_self]
      · rw [deleteObject, Function.update_of_ne hkey]
        exact habsent
    | _ => exact .inl habsent
  | uploading body =>
    by_cases hkey : stagingKey c e = stagingKey c entry
    · have hnew : Point.effect c entry b (.uploading body) (stagingKey c entry) = some body := by
        show putIfAbsent b _ body _ = _
        rw [putIfAbsent, if_pos (hkey ▸ habsent), Function.update_self]
      cases progress with
      | returns created =>
        rw [hreturns created rfl]
        exact .inl habsent
      | _ =>
        refine .inr ⟨hkey.symm, ?_⟩
        rw [events, hnew, ← hkey, habsent, if_pos (by simp)]
        simp
    · exact .inl ((putIfAbsent_of_ne hkey body).trans habsent)
  | copying etag =>
    left
    obtain ⟨d, -, hd⟩ := hentry.key
    have hne : stagingKey c e ≠ entry.key := hd ▸ stagingKey_ne e d
    exact (copyIfMatch_of_ne hne _ etag).trans habsent
  | _ => exact .inl habsent

/-- The same for the bucket after an answer. -/
theorem bucket_staging {b : Bucket} {entry : ManifestEntry} {files : List Char → Option (List UInt8)}
    (hentry : EntryOk c files entry) {point : Point} (answer : Answer) {progress : Progress}
    (hreturns : ∀ created, progress = .returns created → point.bucket c entry b answer = b)
    (q : Nat) {e : ManifestEntry} (habsent : b (stagingKey c e) = none) :
    point.bucket c entry b answer (stagingKey c e) = none ∨
      stagingKey c entry = stagingKey c e ∧
        events c q entry b (point.bucket c entry b answer) point progress =
          [.uploaded q (stagingKey c e)] := by
  cases answer with
  | ok | lost => exact effect_staging hentry progress hreturns q habsent
  | error | expired => exact .inl habsent

/-- The steps of another run keep a run's staging keys as they should be. -/
theorem Tidy.other {w : World} {p q : Nat} {run : Run} (h : Tidy c w p run) (hq : q ≠ p)
    {entry : ManifestEntry} {b' : Bucket} {more : List Event}
    (hb' : ∀ e, w.bucket (stagingKey c e) = none → b' (stagingKey c e) = none ∨
      stagingKey c entry = stagingKey c e ∧ more = [.uploaded q (stagingKey c e)])
    (runs : Nat → Option Run) : Tidy c ⟨b', runs, w.history ++ more⟩ p run := by
  intro hstanding e he
  obtain ⟨hcleaned, habsent | hsince | hcurrent⟩ := h hstanding e he
  · refine ⟨List.mem_append_left _ hcleaned, ?_⟩
    rcases hb' e habsent with hnone | ⟨-, rfl⟩
    · exact .inl hnone
    · exact .inr (.inl (uploadedSince_of hcleaned hq))
  · exact ⟨List.mem_append_left _ hcleaned, .inr (.inl (hsince.mono more))⟩
  · exact ⟨List.mem_append_left _ hcleaned, .inr (.inr hcurrent)⟩

/-- A run's own step on its object. -/
theorem Tidy.advance {w : World} {p : Nat} {run : Run} {entry : ManifestEntry}
    {rest : List ManifestEntry} {point : Point} {b' : Bucket} {progress : Progress}
    (h : Tidy c w p { run with stage := .restoring entry rest point })
    (hb' : ∀ e, w.bucket (stagingKey c e) = none → b' (stagingKey c e) = none ∨
      stagingKey c entry = stagingKey c e ∧
        events c p entry w.bucket b' point progress = [.uploaded p (stagingKey c e)])
    (hreturns : ∀ created, progress = .returns created →
      w.bucket (stagingKey c entry) = none ∧ b' = w.bucket)
    (runs : Nat → Option Run) :
    Tidy c ⟨b', runs, w.history ++ events c p entry w.bucket b' point progress⟩ p
      (run.advance entry rest progress) := by
  cases progress with
  | raises message => exact False.elim
  | goto next =>
    intro _ e he
    obtain ⟨hcleaned, hkey⟩ := h trivial e he
    refine ⟨List.mem_append_left _ hcleaned, ?_⟩
    rcases hkey with habsent | hsince | hcurrent
    · rcases hb' e habsent with hnone | ⟨hsame, -⟩
      · exact .inl hnone
      · exact .inr (.inr ⟨entry, rfl, hsame⟩)
    · exact .inr (.inl (hsince.mono _))
    · exact .inr (.inr hcurrent)
  | returns created =>
    obtain ⟨hgone, rfl⟩ := hreturns created rfl
    intro _ e he
    -- The staging key of the object has just been seen absent.
    by_cases hsame : stagingKey c e = stagingKey c entry
    · exact ⟨List.mem_append_right _ (by rw [events, hsame]; exact List.mem_cons_self),
        .inl (hsame ▸ hgone)⟩
    · rcases List.mem_append.mp he with hold | hnew
      · obtain ⟨hcleaned, hkey⟩ := h trivial e hold
        refine ⟨List.mem_append_left _ hcleaned, ?_⟩
        rcases hkey with habsent | hsince | ⟨other, hother, hkey⟩
        · exact .inl habsent
        · exact .inr (.inl (hsince.mono _))
        · cases hother
          exact absurd hkey.symm hsame
      · exact absurd (List.mem_singleton.mp hnew ▸ rfl) hsame

/-- A run that stands still, or ends. -/
theorem Tidy.stage {w : World} {p : Nat} {run : Run} (h : Tidy c w p run) {stage : Stage}
    (hidle : run.current = none) (hstanding : run.Standing) :
    Tidy c w p { run with stage := stage } := by
  intro _ e he
  obtain ⟨hcleaned, hkey⟩ := h hstanding e he
  refine ⟨hcleaned, ?_⟩
  rcases hkey with habsent | hsince | ⟨other, hother, -⟩
  · exact .inl habsent
  · exact .inr (.inl hsince)
  · rw [hidle] at hother
    cases hother

theorem Tidy.next {w w' : World} {l : Label} (hok : WorldOk c w)
    (h : ∀ p run, w.runs p = some run → Tidy c w p run) (hnext : next c w l = some w') :
    ∀ p run, w'.runs p = some run → Tidy c w' p run := by
  intro q other hother
  -- Two runs may share a staging key: what another run does to it is an upload `q` then knows of.
  cases l with
  | restore p backup =>
    dsimp only [Backup.next] at hnext
    split at hnext <;> cases hnext
    by_cases hqp : q = p
    · subst hqp
      simp only [World.setRun, Function.update_self, Option.some.injEq] at hother
      subst hother
      intro _ e he
      unfold beginRestore at he
      split at he <;> cases he
    · simp only [World.setRun, Function.update_of_ne hqp] at hother
      exact h q other hother
  | step p answer =>
    dsimp only [Backup.next] at hnext
    split at hnext
    · rename_i run hrun
      have hrunOk := hok.runs p run hrun
      have htidy := h p run hrun
      split at hnext
      · rename_i entry rest point hstage
        cases hnext
        have hstep : run = { run with stage := .restoring entry rest point } := by rw [← hstage]
        rw [hstep] at hrunOk htidy
        obtain ⟨hvalid, hlist, -, hpoint⟩ := hrunOk
        have hentry := hvalid entry (hlist ▸ List.mem_append_right _ List.mem_cons_self)
        have hprogress := Point.progress_ok hentry hpoint hok.matched answer
        have hreturns : ∀ created, point.progress c entry run.backup.files w.bucket answer =
            .returns created → w.bucket (stagingKey c entry) = none ∧
              point.bucket c entry w.bucket answer = w.bucket := by
          intro created heq
          rw [heq] at hprogress
          exact hprogress.2
        have hb' := fun e => bucket_staging hentry answer (fun created heq => (hreturns created heq).2)
          p (e := e)
        by_cases hqp : q = p
        · subst hqp
          simp only [World.setRun, Function.update_self, Option.some.injEq] at hother
          subst hother
          exact htidy.advance hb' hreturns _
        · simp only [World.setRun, Function.update_of_ne hqp] at hother
          exact (h q other hother).other (Ne.symm hqp) hb' _
      · rename_i hstage
        cases hnext
        by_cases hqp : q = p
        · subst hqp
          simp only [World.setRun, Function.update_self, Option.some.injEq] at hother
          subst hother
          exact htidy.stage (by rw [Run.current, hstage]) (by rw [Run.Standing, hstage]; trivial)
        · simp only [World.setRun, Function.update_of_ne hqp] at hother
          exact h q other hother
      · cases hnext
    · cases hnext
  | crash p =>
    dsimp only [Backup.next] at hnext
    split at hnext
    · rename_i run hrun
      by_cases hqp : q = p
      · subst hqp
        split at hnext <;> cases hnext <;>
          simp only [World.setRun, Function.update_self, Option.some.injEq] at hother <;>
          subst hother <;> exact False.elim
      · split at hnext <;> cases hnext <;>
          simp only [World.setRun, Function.update_of_ne hqp] at hother <;>
          exact h q other hother
    · cases hnext
  | land p =>
    dsimp only [Backup.next] at hnext
    split at hnext
    · rename_i run hrun
      have hrunOk := hok.runs p run hrun
      split at hnext <;> cases hnext
      rename_i entry point hstage
      rw [RunOk, hstage] at hrunOk
      by_cases hqp : q = p
      · subst hqp
        simp only [World.setRun, Function.update_self, Option.some.injEq] at hother
        subst hother
        exact False.elim
      · simp only [World.setRun, Function.update_of_ne hqp] at hother
        exact (h q other hother).other (Ne.symm hqp)
          (fun e => effect_staging hrunOk.1 (.goto point) (fun _ heq => by cases heq) p) _
    · cases hnext
  | archivePut content =>
    cases hnext
    intro hstanding e he
    obtain ⟨hcleaned, hkey⟩ := h q other hother hstanding e he
    refine ⟨hcleaned, hkey.imp_left fun habsent => ?_⟩
    exact (putIfAbsent_of_ne (stagingKey_ne e _) content).trans habsent

theorem tidy_of_reach {w : World} (hw : Reach (restoreSystem c) Any w) :
    ∀ p run, w.runs p = some run → Tidy c w p run := by
  refine hw.invariant_of ?_ fun _ _ _ hr h _ hnext => Tidy.next (worldOk_of_reach hr) h hnext
  rintro w ⟨-, hruns, -⟩ p run hrun
  rw [hruns p] at hrun
  cases hrun

end Makolet.Backup
