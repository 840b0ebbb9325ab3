import Makolet.Archive.World

/-!
# Steps of an open

`ReadOk` says what an `open` knows of the object between two of its system calls, and `Frame` what
the steps of the others may do to the disk meanwhile. `readStep_spec` says what a step does when the
link count it reads is one, and `readStep_of_nlink` what it does otherwise.
-/

set_option autoImplicit false

namespace Makolet.Archive

open Makolet.Lib

/-! ## Invariants -/

section Invariants

variable (a : LocalArchive) (bytes : List UInt8)

/-- Once linked, the object is complete, and further names of its inode are temporary. -/
def DiskOk (fs : Disk) : Prop :=
  ∀ i, fs.find (objectPath a bytes) = some i →
    Path.parents (objectKey a bytes) ∈ fs.dirs ∧ fs.content i = bytes ∧
      bytes.length ≤ a.maximumObjectBytes ∧
      ∀ q, fs.find q = some i → q = objectPath a bytes ∨ ∃ u, q = .part u

/-- The temporary file of the put `p` holds `written` and has no other name. -/
def Temporary (fs : Disk) (p i : Nat) (written : List UInt8) : Prop :=
  fs.find (.part p) = some i ∧ fs.content i = written ∧ ∀ q, fs.find q = some i → q = .part p

def Linked (fs : Disk) : Prop :=
  ∃ i, fs.find (objectPath a bytes) = some i

/-- What holds of an `open` between two of its steps. -/
def ReadOk (fs : Disk) (late : Bool) : ReadPc → Prop
  | .initialise => late = true → Linked a bytes fs
  | .parents | .lstat => Path.incoming ∈ fs.dirs ∧ (late = true → Linked a bytes fs)
  | .openFile st => Path.incoming ∈ fs.dirs ∧ fs.find (objectPath a bytes) = some st.ino
  | .fstat st fd =>
    Path.incoming ∈ fs.dirs ∧ fs.find (objectPath a bytes) = some fd ∧ st.ino = fd
  | .parentsAgain fd st | .lstatAgain fd st =>
    Path.incoming ∈ fs.dirs ∧ fs.find (objectPath a bytes) = some fd ∧ st.ino = fd
  | .initialStatus fd => Path.incoming ∈ fs.dirs ∧ fs.find (objectPath a bytes) = some fd
  | .lstatIncoming fd st =>
    Path.incoming ∈ fs.dirs ∧ fs.find (objectPath a bytes) = some fd ∧ st.ino = fd ∧
      st.size = bytes.length
  | .copy fd st spool =>
    fs.find (objectPath a bytes) = some fd ∧ st.ino = fd ∧ st.size = bytes.length ∧
      spool <+: bytes
  | .finalStatus fd st spool =>
    fs.find (objectPath a bytes) = some fd ∧ st.ino = fd ∧ st.size = bytes.length ∧ spool = bytes
  | .parentsFinally st spool | .lstatFinally st spool =>
    fs.find (objectPath a bytes) = some st.ino ∧ spool = bytes
  | .compare spool => spool = bytes
  | .parse rest yielded n => yielded ++ rest = bytes ∧ n = bytes.length
  | .done outcome => late = true → outcome = .ok bytes

/-- What holds of the outcome of a put. -/
def OutcomeOk (fs : Disk) : Except ArchiveError Receipt → Prop
  | .ok r => r = receipt a bytes r.created ∧ (r.created = true → Linked a bytes fs)
  | .error e => e.isIntegrity = false

/-- What holds of the put `p` between two of its steps. -/
def PutOk (fs : Disk) (p : Nat) : PutPc → Prop
  | .initialise chunks | .create chunks => chunks.flatten = bytes ∧ fs.find (.part p) = none
  | .write fd chunks written =>
    written ++ chunks.flatten = bytes ∧ written.length ≤ a.maximumObjectBytes ∧
      Temporary fs p fd written
  | .fsync written | .mkdir written =>
    written = bytes ∧ bytes.length ≤ a.maximumObjectBytes ∧ ∃ i, Temporary fs p i bytes
  | .parents written | .link written =>
    written = bytes ∧ bytes.length ≤ a.maximumObjectBytes ∧ (∃ i, Temporary fs p i bytes) ∧
      Path.parents (objectKey a bytes) ∈ fs.dirs
  | .unlink written => written = bytes ∧ fs.find (.part p) ≠ none ∧ Linked a bytes fs
  | .protect written => written = bytes ∧ Linked a bytes fs
  | .verify written reading =>
    written = bytes ∧ reading.key = objectKey a bytes ∧
      reading.expected = (a.sha256 bytes).val ∧ ReadOk a bytes fs true reading.pc
  | .cleanup outcome | .done outcome => OutcomeOk a bytes fs outcome

/-- What a step of the put `p`, or of an `open`, may do to the disk. -/
structure Frame (p : Nat) (fs fs' : Disk) : Prop where
  parts : ∀ q, q ≠ p → fs'.find (.part q) = fs.find (.part q)
  object : ∀ i, fs.find (objectPath a bytes) = some i → fs'.find (objectPath a bytes) = some i
  names : ∀ r i, fs'.find r = some i →
    fs.find r = some i ∨ (∀ q, fs.find q ≠ some i) ∨
      (r = objectPath a bytes ∧ fs.find (.part p) = some i)
  content : ∀ q i, q ≠ .part p → fs.find q = some i → fs'.content i = fs.content i
  dirs : fs.dirs ⊆ fs'.dirs

end Invariants

section Frames

variable {a : LocalArchive} {bytes : List UInt8} {p q : Nat} {fs fs' : Disk}

theorem Frame.refl : Frame a bytes p fs fs :=
  ⟨fun _ _ => rfl, fun _ h => h, fun _ _ h => .inl h, fun _ _ _ _ => rfl, fun _ h => h⟩

theorem Frame.mkdir (d : Path) : Frame a bytes p fs (fs.mkdir d) :=
  ⟨fun _ _ => rfl, fun _ h => h, fun _ _ h => .inl h, fun _ _ _ _ => rfl, List.subset_cons_self _ _⟩

theorem Frame.linked (hf : Frame a bytes p fs fs') : Linked a bytes fs → Linked a bytes fs'
  | ⟨i, hi⟩ => ⟨i, hf.object i hi⟩

theorem Frame.temporary (hf : Frame a bytes p fs fs') (hq : q ≠ p) {i : Nat} {written : List UInt8}
    (h : Temporary fs q i written) : Temporary fs' q i written := by
  obtain ⟨hname, hcontent, hsole⟩ := h
  refine ⟨(hf.parts q hq).trans hname, ?_, ?_⟩
  · rw [hf.content (.part q) i (by simpa using hq) hname, hcontent]
  · intro r hr
    rcases hf.names r i hr with hold | hnew | ⟨-, hown⟩
    · exact hsole r hold
    · exact absurd hname (hnew _)
    · -- the inode of another put's temporary file has no second name
      exact absurd (hsole _ hown) (by simpa using Ne.symm hq)

/-- An `open` does not notice the steps of others. -/
theorem Frame.readOk (hf : Frame a bytes p fs fs') {late : Bool} {pc : ReadPc}
    (h : ReadOk a bytes fs late pc) : ReadOk a bytes fs' late pc := by
  cases pc with
  | initialise => exact fun hl => hf.linked (h hl)
  | parents => exact ⟨hf.dirs h.1, fun hl => hf.linked (h.2 hl)⟩
  | lstat => exact ⟨hf.dirs h.1, fun hl => hf.linked (h.2 hl)⟩
  | openFile st => exact ⟨hf.dirs h.1, hf.object _ h.2⟩
  | fstat st fd => exact ⟨hf.dirs h.1, hf.object _ h.2.1, h.2.2⟩
  | parentsAgain fd st => exact ⟨hf.dirs h.1, hf.object _ h.2.1, h.2.2⟩
  | lstatAgain fd st => exact ⟨hf.dirs h.1, hf.object _ h.2.1, h.2.2⟩
  | initialStatus fd => exact ⟨hf.dirs h.1, hf.object _ h.2⟩
  | lstatIncoming fd st => exact ⟨hf.dirs h.1, hf.object _ h.2.1, h.2.2⟩
  | copy fd st spool => exact ⟨hf.object _ h.1, h.2⟩
  | finalStatus fd st spool => exact ⟨hf.object _ h.1, h.2⟩
  | parentsFinally st spool => exact ⟨hf.object _ h.1, h.2⟩
  | lstatFinally st spool => exact ⟨hf.object _ h.1, h.2⟩
  | compare spool => exact h
  | parse rest yielded n => exact h
  | done outcome => exact h

theorem Frame.outcomeOk (hf : Frame a bytes p fs fs') {outcome : Except ArchiveError Receipt}
    (h : OutcomeOk a bytes fs outcome) : OutcomeOk a bytes fs' outcome := by
  cases outcome with
  | ok r => exact ⟨h.1, fun hc => hf.linked (h.2 hc)⟩
  | error e => exact h

/-- A put does not notice the steps of others. -/
theorem Frame.putOk (hf : Frame a bytes p fs fs') (hq : q ≠ p) {pc : PutPc}
    (h : PutOk a bytes fs q pc) : PutOk a bytes fs' q pc := by
  cases pc with
  | initialise chunks => exact ⟨h.1, (hf.parts q hq).trans h.2⟩
  | create chunks => exact ⟨h.1, (hf.parts q hq).trans h.2⟩
  | write fd chunks written => exact ⟨h.1, h.2.1, hf.temporary hq h.2.2⟩
  | fsync written => exact ⟨h.1, h.2.1, h.2.2.imp fun _ ht => hf.temporary hq ht⟩
  | mkdir written => exact ⟨h.1, h.2.1, h.2.2.imp fun _ ht => hf.temporary hq ht⟩
  | parents written =>
    exact ⟨h.1, h.2.1, h.2.2.1.imp fun _ ht => hf.temporary hq ht, hf.dirs h.2.2.2⟩
  | link written =>
    exact ⟨h.1, h.2.1, h.2.2.1.imp fun _ ht => hf.temporary hq ht, hf.dirs h.2.2.2⟩
  | unlink written => exact ⟨h.1, by rw [hf.parts q hq]; exact h.2.1, hf.linked h.2.2⟩
  | protect written => exact ⟨h.1, hf.linked h.2⟩
  | verify written reading => exact ⟨h.1, h.2.1, h.2.2.1, hf.readOk h.2.2.2⟩
  | cleanup outcome => exact hf.outcomeOk h
  | done outcome => exact hf.outcomeOk h

end Frames

/-! ## Steps of an `open` -/

section Reading

variable {a : LocalArchive} {bytes : List UInt8} {fs : Disk} {late : Bool} {i : Nat}

theorem nlink_of_single (hdisk : DiskOk a bytes fs) (hsingle : Single a bytes fs)
    (hi : fs.find (objectPath a bytes) = some i) : fs.nlink i = 1 := by
  rw [FileSystem.nlink_eq_one hi]
  intro q hq
  rcases (hdisk i hi).2.2.2 q hq with hobj | ⟨u, rfl⟩
  · exact hobj
  · exact absurd hq (hsingle u i hi)

theorem single_of_nlink (hi : fs.find (objectPath a bytes) = some i) (hone : fs.nlink i = 1) :
    Single a bytes fs := by
  intro u j hj hu
  rw [hi, Option.some.injEq] at hj
  subst hj
  have hsole := (FileSystem.nlink_eq_one hi).mp hone _ hu
  cases hsole

theorem lstat_object (hi : fs.find (objectPath a bytes) = some i) :
    lstat fs (.object (objectKey a bytes)) = .ok (fs.stat i) := by
  have hi' : fs.find (.object (objectKey a bytes)) = some i := hi
  rw [lstat, hi']

theorem assertSafeParentChain_object (hdisk : DiskOk a bytes fs)
    (hi : fs.find (objectPath a bytes) = some i) :
    assertSafeParentChain fs (objectKey a bytes) = .ok () := by
  rw [assertSafeParentChain, require, if_pos (hdisk i hi).1]

/-- Steps left of an `open`, with the loops counted by the bytes they have to move. -/
def readRank (bytes : List UInt8) : ReadPc → Nat
  | .initialise => 2 * bytes.length + 15
  | .parents => 2 * bytes.length + 14
  | .lstat => 2 * bytes.length + 13
  | .openFile _ => 2 * bytes.length + 12
  | .fstat _ _ => 2 * bytes.length + 11
  | .parentsAgain _ _ => 2 * bytes.length + 10
  | .lstatAgain _ _ => 2 * bytes.length + 9
  | .initialStatus _ => 2 * bytes.length + 8
  | .lstatIncoming _ _ => 2 * bytes.length + 7
  | .copy _ _ spool => bytes.length + 6 + (bytes.length - spool.length)
  | .finalStatus _ _ _ => bytes.length + 5
  | .parentsFinally _ _ => bytes.length + 4
  | .lstatFinally _ _ => bytes.length + 3
  | .compare _ => bytes.length + 2
  | .parse rest _ _ => rest.length + 1
  | .done _ => 0

variable (a bytes) in
/-- What a step of an `open` does when it goes well. -/
structure ReadStep (late : Bool) (fs : Disk) (pc : ReadPc) (fs' : Disk) (pc' : ReadPc) : Prop where
  disk : fs' = fs ∨ fs' = fs.mkdir .incoming
  readOk : ReadOk a bytes fs' late pc'
  rank : readRank bytes pc' < readRank bytes pc

theorem readStep_pure {pc pc' : ReadPc} (hok : ReadOk a bytes fs late pc')
    (hrank : readRank bytes pc' < readRank bytes pc) : ReadStep a bytes late fs pc fs pc' :=
  ⟨.inl rfl, hok, hrank⟩

/-- A failing check ends an `open` that was called before the link. -/
theorem readStep_fail {pc : ReadPc} (hlate : late = false) (hrank : 0 < readRank bytes pc)
    (e : ArchiveError) : ReadStep a bytes late fs pc fs (.done (.error e)) :=
  ⟨.inl rfl, fun h => (by rw [hlate] at h; cases h), hrank⟩

theorem eq_false_of_not {P : Prop} (h : late = true → P) (hn : ¬P) : late = false := by
  cases late with
  | false => rfl
  | true => exact absurd (h rfl) hn

theorem assertRegular_of (st : Stat) (h : st.nlink = 1) : assertRegularNonReparse st = .ok () := by
  rw [assertRegularNonReparse, require, if_pos h]

theorem assertRegular_of_not (st : Stat) (h : st.nlink ≠ 1) : assertRegularNonReparse st =
    .error (.integrity "Archived object must be one regular non-linked file" 0) := by
  rw [assertRegularNonReparse, require, if_neg h]

theorem orFail_regular :
    orFail (.error (.integrity "Archived object must be one regular non-linked file" 0)) =
      .done (.error (.integrity "Archived object must be one regular non-linked file" 0)) := by
  simp [orFail, childError, safeLocalIntegrityMessages]

/-- Reading a link count other than one is an integrity error. -/
theorem readStep_of_nlink {pc : ReadPc} (hread : ReadOk a bytes fs late pc)
    (hwatches : pc.watches = true) (hi : fs.find (objectPath a bytes) = some i)
    (hmore : fs.nlink i ≠ 1) :
    readStep a (objectKey a bytes) (a.sha256 bytes).val fs pc = some (fs, .done (.error
      (.integrity "Archived object must be one regular non-linked file" 0))) := by
  have hfd : ∀ {fd}, fs.find (objectPath a bytes) = some fd → fd = i := by
    intro fd hfd
    rw [hi, Option.some.injEq] at hfd
    exact hfd.symm
  have hassert := assertRegular_of_not (fs.stat i) hmore
  cases pc with
  | lstat => simp [readStep, lstat_object hi, hassert, orFail_regular, bind, Except.bind]
  | fstat st fd =>
    obtain rfl := hfd hread.2.1
    simp [readStep, hassert, orFail_regular, bind, Except.bind]
  | lstatAgain fd st =>
    simp [readStep, assertPathIdentifies, lstat_object hi, hassert, orFail_regular, bind, Except.bind]
  | lstatFinally st spool =>
    simp [readStep, assertPathIdentifies, lstat_object hi, hassert, orFail_regular, bind, Except.bind]
  | _ => cases hwatches

theorem rest_eq_nil {rest : List UInt8} (h : rest.take a.chunkSize = []) : rest = [] := by
  rcases List.take_eq_nil_iff.mp h with hzero | hnil
  · exact absurd hzero (Nat.pos_iff_ne_zero.mp a.chunkSize_pos)
  · exact hnil

/-- The loop that fills the spool: the spool is a prefix of the object that grows. -/
theorem copy_spec {fd : Nat} {st : Stat} {spool : List UInt8} (hdisk : DiskOk a bytes fs)
    (hread : ReadOk a bytes fs late (.copy fd st spool)) :
    ∃ fs' pc', readStep a (objectKey a bytes) (a.sha256 bytes).val fs (.copy fd st spool) =
      some (fs', pc') ∧ ReadStep a bytes late fs (.copy fd st spool) fs' pc' := by
  obtain ⟨hf, hino, hsize, rest, hrest⟩ := hread
  obtain ⟨-, hcontent, hmax, -⟩ := hdisk fd hf
  have hdrop : (fs.content fd).drop spool.length = rest := by
    rw [hcontent, ← hrest, List.drop_left]
  have hlen : bytes.length = spool.length + rest.length := by
    rw [← hrest, List.length_append]
  by_cases hend : rest.take a.chunkSize = []
  · have hnil := rest_eq_nil hend
    have hstep : readStep a (objectKey a bytes) (a.sha256 bytes).val fs (.copy fd st spool) =
        some (fs, .finalStatus fd st spool) := by
      simp [readStep, hdrop, hend]
    refine ⟨_, _, hstep, readStep_pure ⟨hf, hino, hsize, ?_⟩ ?_⟩
    · rw [← hrest, hnil, List.append_nil]
    · simp only [readRank]
      omega
  · have hle : (spool ++ rest.take a.chunkSize).length ≤ a.maximumObjectBytes := by
      have := List.length_take_le a.chunkSize rest
      have := List.length_take_le' a.chunkSize rest
      rw [List.length_append]
      omega
    have hstep : readStep a (objectKey a bytes) (a.sha256 bytes).val fs (.copy fd st spool) =
        some (fs, .copy fd st (spool ++ rest.take a.chunkSize)) := by
      simp only [readStep, hdrop, if_neg hend, require, if_pos hle]
      rfl
    refine ⟨_, _, hstep, readStep_pure ⟨hf, hino, hsize, rest.drop a.chunkSize, ?_⟩ ?_⟩
    · rw [List.append_assoc, List.take_append_drop, hrest]
    · have hpos := List.length_pos_of_ne_nil hend
      have := List.length_take_le' a.chunkSize rest
      simp only [readRank, List.length_append]
      omega

/-- The loop that hands the spool to the consumer. -/
theorem parse_spec {rest yielded : List UInt8} {n : Nat}
    (hread : ReadOk a bytes fs late (.parse rest yielded n)) :
    ∃ fs' pc', readStep a (objectKey a bytes) (a.sha256 bytes).val fs (.parse rest yielded n) =
      some (fs', pc') ∧ ReadStep a bytes late fs (.parse rest yielded n) fs' pc' := by
  obtain ⟨hall, hn⟩ := hread
  by_cases hend : rest.take a.chunkSize = []
  · have hnil := rest_eq_nil hend
    rw [hnil, List.append_nil] at hall
    have hstep : readStep a (objectKey a bytes) (a.sha256 bytes).val fs
        (.parse rest yielded n) = some (fs, .done (.ok bytes)) := by
      simp [readStep, hend, hall, hn, require, bind, Except.bind, pure, Except.pure]
    exact ⟨_, _, hstep, readStep_pure (fun _ => rfl) (by simp [readRank])⟩
  · have hlen : bytes.length = yielded.length + rest.length := by
      rw [← hall, List.length_append]
    have := List.length_take_le' a.chunkSize rest
    have hle : ¬n < (yielded ++ rest.take a.chunkSize).length := by
      rw [List.length_append]
      omega
    have hstep : readStep a (objectKey a bytes) (a.sha256 bytes).val fs
        (.parse rest yielded n) = some (fs, .parse (rest.drop a.chunkSize)
          (yielded ++ rest.take a.chunkSize) n) := by
      simp only [readStep, if_neg hend, if_neg hle]
    refine ⟨_, _, hstep, readStep_pure ⟨?_, hn⟩ ?_⟩
    · rw [List.append_assoc, List.take_append_drop, hall]
    · have hpos := List.length_pos_of_ne_nil hend
      rw [List.length_take] at hpos
      simp only [readRank, List.length_drop]
      omega

/-- An `open` whose status checks find the object under one name goes on. -/
theorem readStep_spec {pc : ReadPc} (hdisk : DiskOk a bytes fs)
    (hread : ReadOk a bytes fs late pc) (hpc : ∀ outcome, pc ≠ .done outcome)
    (hsingle : late = true → pc.watches = true → Single a bytes fs) :
    ∃ fs' pc', readStep a (objectKey a bytes) (a.sha256 bytes).val fs pc = some (fs', pc') ∧
      ReadStep a bytes late fs pc fs' pc' := by
  -- A status check fails where the object has two names, which a late read never meets.
  by_cases hbad : pc.watches = true ∧ ∃ i, fs.find (objectPath a bytes) = some i ∧ fs.nlink i ≠ 1
  · obtain ⟨hwatches, i, hi, hmore⟩ := hbad
    have hlate : late = false :=
      eq_false_of_not (fun hl => nlink_of_single hdisk (hsingle hl hwatches) hi) hmore
    refine ⟨_, _, readStep_of_nlink hread hwatches hi hmore, readStep_fail hlate ?_ _⟩
    cases pc <;> first | (cases hwatches; done) | simp [readRank]
  · have hone : pc.watches = true → ∀ i, fs.find (objectPath a bytes) = some i → fs.nlink i = 1 :=
      fun hw i hi => Classical.byContradiction fun hmore => hbad ⟨hw, i, hi, hmore⟩
    cases pc with
    | initialise =>
      exact ⟨_, _, rfl, .inr rfl, ⟨List.mem_cons_self, hread⟩, by simp [readRank]⟩
    | parents =>
      -- Before the object is linked its shard directory may be missing, and below the object.
      by_cases hp : Path.parents (objectKey a bytes) ∈ fs.dirs
      · have hstep : readStep a (objectKey a bytes) (a.sha256 bytes).val fs .parents =
            some (fs, .lstat) := by
          simp [readStep, orFail, assertSafeParentChain, require, hp, bind, Except.bind, pure,
            Except.pure]
        exact ⟨_, _, hstep, readStep_pure hread (by simp [readRank])⟩
      · have hlate : late = false := eq_false_of_not hread.2 fun ⟨i, hi⟩ => hp (hdisk i hi).1
        have hstep : readStep a (objectKey a bytes) (a.sha256 bytes).val fs .parents =
            some (fs, .done (.error (childError (.osError .notFound)))) := by
          simp [readStep, orFail, assertSafeParentChain, require, hp, bind, Except.bind]
        exact ⟨_, _, hstep, readStep_fail hlate (by simp [readRank]) _⟩
    | lstat =>
      cases hf : fs.find (objectPath a bytes) with
      | none =>
        have hf' : fs.find (.object (objectKey a bytes)) = none := hf
        have hlate : late = false :=
          eq_false_of_not hread.2 fun ⟨i, hi⟩ => by rw [hf] at hi; cases hi
        have hstep : readStep a (objectKey a bytes) (a.sha256 bytes).val fs .lstat =
            some (fs, .done (.error (childError (.osError .notFound)))) := by
          simp [readStep, orFail, lstat, hf', bind, Except.bind]
        exact ⟨_, _, hstep, readStep_fail hlate (by simp [readRank]) _⟩
      | some i =>
        have hassert := assertRegular_of (fs.stat i) (hone rfl i hf)
        have hstep : readStep a (objectKey a bytes) (a.sha256 bytes).val fs .lstat =
            some (fs, .openFile (fs.stat i)) := by
          simp [readStep, orFail, lstat_object hf, hassert, bind, Except.bind, pure, Except.pure]
        exact ⟨_, _, hstep, readStep_pure ⟨hread.1, hf⟩ (by simp [readRank])⟩
    | openFile st =>
      have hstep : readStep a (objectKey a bytes) (a.sha256 bytes).val fs (.openFile st) =
          some (fs, .fstat st st.ino) := by
        simp [readStep, orFail, lstat_object hread.2, bind, Except.bind, pure,
          Except.pure]
      exact ⟨_, _, hstep, readStep_pure ⟨hread.1, hread.2, rfl⟩ (by simp [readRank])⟩
    | fstat st fd =>
      obtain ⟨hin, hf, hino⟩ := hread
      have hassert := assertRegular_of (fs.stat fd) (hone rfl fd hf)
      have hstep : readStep a (objectKey a bytes) (a.sha256 bytes).val fs (.fstat st fd) =
          some (fs, .parentsAgain fd (fs.stat fd)) := by
        simp [readStep, orFail, hassert, sameFileIdentity, hino, require, bind,
          Except.bind, pure, Except.pure]
      exact ⟨_, _, hstep, readStep_pure ⟨hin, hf, rfl⟩ (by simp [readRank])⟩
    | parentsAgain fd st =>
      have hstep : readStep a (objectKey a bytes) (a.sha256 bytes).val fs (.parentsAgain fd st) =
          some (fs, .lstatAgain fd st) := by
        simp [readStep, orFail, assertSafeParentChain_object hdisk hread.2.1, bind, Except.bind,
          pure, Except.pure]
      exact ⟨_, _, hstep, readStep_pure hread (by simp [readRank])⟩
    | lstatAgain fd st =>
      obtain ⟨hin, hf, hino⟩ := hread
      have hassert := assertRegular_of (fs.stat fd) (hone rfl fd hf)
      have hstep : readStep a (objectKey a bytes) (a.sha256 bytes).val fs (.lstatAgain fd st) =
          some (fs, .initialStatus fd) := by
        simp [readStep, orFail, assertPathIdentifies, lstat_object hf, hassert, sameFileIdentity,
          hino, require, bind, Except.bind, pure, Except.pure]
      exact ⟨_, _, hstep, readStep_pure ⟨hin, hf⟩ (by simp [readRank])⟩
    | initialStatus fd =>
      obtain ⟨-, hcontent, hmax, -⟩ := hdisk fd hread.2
      have hstep : readStep a (objectKey a bytes) (a.sha256 bytes).val fs (.initialStatus fd) =
          some (fs, .lstatIncoming fd (fs.stat fd)) := by
        simp [readStep, orFail, hcontent, hmax, require, bind, Except.bind, pure,
          Except.pure]
      refine ⟨_, _, hstep, readStep_pure ⟨hread.1, hread.2, rfl, ?_⟩ (by simp [readRank])⟩
      rw [FileSystem.stat_size, hcontent]
    | lstatIncoming fd st =>
      have hstep : readStep a (objectKey a bytes) (a.sha256 bytes).val fs (.lstatIncoming fd st) =
          some (fs, .copy fd st []) := by
        simp [readStep, orFail, hread.1, require, bind, Except.bind, pure, Except.pure]
      refine ⟨_, _, hstep, readStep_pure ⟨hread.2.1, hread.2.2.1, hread.2.2.2, List.nil_prefix⟩ ?_⟩
      simp only [readRank, List.length_nil]
      omega
    | copy fd st spool => exact copy_spec hdisk hread
    | finalStatus fd st spool =>
      obtain ⟨hf, hino, hsize, hspool⟩ := hread
      obtain ⟨-, hcontent, hmax, -⟩ := hdisk fd hf
      have hstep : readStep a (objectKey a bytes) (a.sha256 bytes).val fs
          (.finalStatus fd st spool) = some (fs, .parentsFinally (fs.stat fd) spool) := by
        simp [readStep, orFail, sameFileIdentity, hcontent, hino, hsize, hspool,
          require, bind, Except.bind, pure, Except.pure]
      exact ⟨_, _, hstep, readStep_pure ⟨hf, hspool⟩ (by simp [readRank])⟩
    | parentsFinally st spool =>
      have hstep : readStep a (objectKey a bytes) (a.sha256 bytes).val fs
          (.parentsFinally st spool) = some (fs, .lstatFinally st spool) := by
        simp [readStep, orFail, assertSafeParentChain_object hdisk hread.1, bind, Except.bind,
          pure, Except.pure]
      exact ⟨_, _, hstep, readStep_pure hread (by simp [readRank])⟩
    | lstatFinally st spool =>
      obtain ⟨hf, hspool⟩ := hread
      have hassert := assertRegular_of (fs.stat st.ino) (hone rfl st.ino hf)
      have hstep : readStep a (objectKey a bytes) (a.sha256 bytes).val fs
          (.lstatFinally st spool) = some (fs, .compare spool) := by
        simp [readStep, orFail, assertPathIdentifies, lstat_object hf, hassert, sameFileIdentity,
          require, bind, Except.bind, pure, Except.pure]
      exact ⟨_, _, hstep, readStep_pure hspool (by simp [readRank])⟩
    | compare spool =>
      obtain rfl : spool = bytes := hread
      have hstep : readStep a (objectKey a spool) (a.sha256 spool).val fs (.compare spool) =
          some (fs, .parse spool [] spool.length) := by
        simp [readStep, orFail, require, bind, Except.bind, pure, Except.pure]
      exact ⟨_, _, hstep, readStep_pure ⟨rfl, rfl⟩ (by simp [readRank])⟩
    | parse rest yielded n => exact parse_spec hread
    | done outcome => exact absurd rfl (hpc outcome)

end Reading

end Makolet.Archive
