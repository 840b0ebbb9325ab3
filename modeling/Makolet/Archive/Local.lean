import Makolet.Lib.FileSystem
import Makolet.Lib.Outcome
import Makolet.Lib.System

/-!
# The local content-addressed archive

`LocalContentAddressedArchive` stores bytes once, under a key made of their SHA-256 digest. `put`
writes a temporary file, links it to the object's name, and removes the temporary name; where the
object exists already, it verifies the object and drops its own copy. `open` copies the object to a
private spool and checks the identity, the link count and the digest on the way.

Both are modelled one system call a step, so that any number of calls interleave and a process may
die between any two calls. Free-space reservations and deadlines do not run out here, the private
spool of a reader is a part of its control state, and `mkdir(parents=True)` is one step.

SHA-256 is a parameter. All directories are plain directories, so that the check of the parent
chain asks for their presence only.
-/

set_option autoImplicit false

namespace Makolet.Archive

open Makolet.Lib

/-- What the functions of the archive raise. `transferred_bytes` is a field of every domain
error; `osError` stands for the exceptions of the system calls. -/
inductive ArchiveError
  | value (message : String)
  | downloadLimit (message : String) (transferredBytes : Nat)
  | integrity (message : String) (transferredBytes : Nat)
  | osError (error : FileError)
  deriving DecidableEq, Repr

/-! ## Keys -/

def isLowerHex (c : Char) : Bool :=
  c ∈ "0123456789abcdef".toList

/-- The digests `hexdigest` returns: 64 lowercase hexadecimal digits. -/
def Digest : Type :=
  { s : List Char // s.length = 64 ∧ s.all isLowerHex = true }

def keyForDigest (digest : Digest) : List Char :=
  "sha256/".toList ++ digest.val.take 2 ++ ['/'] ++ (digest.val.drop 2).take 2 ++ ['/'] ++ digest.val

/-- The groups `first`, `second` and `digest` of `OBJECT_KEY_PATTERN`. -/
def matchObjectKey (key : List Char) : Option (List Char × List Char × List Char) :=
  let first := (key.drop 7).take 2
  let second := (key.drop 10).take 2
  let digest := key.drop 13
  if key.take 7 = "sha256/".toList ∧ (key.drop 9).take 1 = ['/'] ∧ (key.drop 12).take 1 = ['/'] ∧
      (first ++ second ++ digest).all isLowerHex ∧ digest.length = 64 then
    some (first, second, digest)
  else none

def digestForKey (key : List Char) (expected : Option (List Char)) :
    Except ArchiveError (List Char) :=
  match matchObjectKey key with
  | none => .error (.integrity "Archive object key is not canonical" 0)
  | some (first, second, digest) => do
    require (first = digest.take 2 ∧ second = (digest.drop 2).take 2)
      (.integrity "Archive object key is not canonical" 0)
    require (∀ sha256 ∈ expected, digest = sha256)
      (.integrity "Object key and expected SHA-256 disagree" 0)
    pure digest

/-! ## The archive -/

/-- The names under the root of the archive. The temporary name of a put is drawn by `uuid4`; the
draws of different puts are different. -/
inductive Path
  | incoming
  | part (uuid : Nat)
  | parents (key : List Char)
  | object (key : List Char)
  deriving DecidableEq, Repr

abbrev Disk := FileSystem Path UInt8

/-- The configuration of an archive and its hash function. -/
structure LocalArchive where
  sha256 : List UInt8 → Digest
  maximumObjectBytes : Nat
  chunkSize : Nat
  chunkSize_pos : 0 < chunkSize

/-! ## Reading an object -/

/-- The control state of `open` and of the child process it spawns, one constructor a system
call. `copy` and `parse` are the loops that fill the spool and hand it to the consumer. -/
inductive ReadPc
  | initialise
  | parents
  | lstat
  | openFile (pathStatus : Stat)
  | fstat (pathStatus : Stat) (fd : Nat)
  | parentsAgain (fd : Nat) (descriptorStatus : Stat)
  | lstatAgain (fd : Nat) (descriptorStatus : Stat)
  | initialStatus (fd : Nat)
  | lstatIncoming (fd : Nat) (initial : Stat)
  | copy (fd : Nat) (initial : Stat) (spool : List UInt8)
  | finalStatus (fd : Nat) (initial : Stat) (spool : List UInt8)
  | parentsFinally (final : Stat) (spool : List UInt8)
  | lstatFinally (final : Stat) (spool : List UInt8)
  | compare (spool : List UInt8)
  | parse (rest yielded : List UInt8) (expectedLength : Nat)
  | done (outcome : Except ArchiveError (List UInt8))

/-- A call of `open`: the key, the digest in it, and where the call stands. -/
structure Reading where
  key : List Char
  expected : List Char
  pc : ReadPc

/-- `_SAFE_LOCAL_INTEGRITY_MESSAGES`. -/
def safeLocalIntegrityMessages : List String :=
  ["Archived local object exceeds configured bounds",
    "Archived local object changed during verification",
    "Archived object failed SHA-256 verification",
    "Archived object must be one regular non-linked file",
    "Archive object path contains an unsafe directory",
    "Archive object key escaped its root",
    "Archived object identity changed while opening",
    "Archived object identity changed during verification"]

/-- The status `_verified_spool_in_child` reports for an exception, as `open` raises it. -/
def childError : ArchiveError → ArchiveError
  | .osError .notFound => .integrity "Archived object is missing" 0
  | .integrity message _ =>
    .integrity (if message ∈ safeLocalIntegrityMessages then message
      else "Archived object could not be read safely") 0
  | _ => .integrity "Archived object could not be read safely" 0

def assertSafeParentChain (fs : Disk) (key : List Char) : Except ArchiveError Unit :=
  require (Path.parents key ∈ fs.dirs) (.osError .notFound)

def lstat (fs : Disk) (p : Path) : Except ArchiveError Stat :=
  match fs.find p with
  | none => .error (.osError .notFound)
  | some i => .ok (fs.stat i)

def assertRegularNonReparse (status : Stat) : Except ArchiveError Unit :=
  require (status.nlink = 1) (.integrity "Archived object must be one regular non-linked file" 0)

def sameFileIdentity (first second : Stat) : Prop :=
  first.ino = second.ino

instance (first second : Stat) : Decidable (sameFileIdentity first second) :=
  inferInstanceAs (Decidable (first.ino = second.ino))

/-- The last two calls of `_assert_path_still_identifies_file`. -/
def assertPathIdentifies (fs : Disk) (key : List Char) (expected : Stat) :
    Except ArchiveError Unit := do
  let pathStatus ← lstat fs (.object key)
  assertRegularNonReparse pathStatus
  require (sameFileIdentity pathStatus expected)
    (.integrity "Archived object identity changed during verification" 0)

/-- The next state of a call in the child process; an exception ends it. -/
def orFail (x : Except ArchiveError ReadPc) : ReadPc :=
  match x with
  | .ok pc => pc
  | .error e => .done (.error (childError e))

/-- One system call of `open`. Only `initialise` writes to the disk. -/
def readStep (a : LocalArchive) (key expected : List Char) (fs : Disk) : ReadPc → Option (Disk × ReadPc)
  | .initialise => some (fs.mkdir .incoming, .parents)
  -- `_open_regular_file_no_follow`
  | .parents => some (fs, orFail do
      assertSafeParentChain fs key
      pure .lstat)
  | .lstat => some (fs, orFail do
      let pathStatus ← lstat fs (.object key)
      assertRegularNonReparse pathStatus
      pure (.openFile pathStatus))
  | .openFile pathStatus => some (fs, orFail do
      let status ← lstat fs (.object key)
      pure (.fstat pathStatus status.ino))
  | .fstat pathStatus fd => some (fs, orFail do
      assertRegularNonReparse (fs.stat fd)
      require (sameFileIdentity pathStatus (fs.stat fd))
        (.integrity "Archived object identity changed while opening" 0)
      pure (.parentsAgain fd (fs.stat fd)))
  | .parentsAgain fd status => some (fs, orFail do
      assertSafeParentChain fs key
      pure (.lstatAgain fd status))
  | .lstatAgain fd status => some (fs, orFail do
      assertPathIdentifies fs key status
      pure (.initialStatus fd))
  -- `_copy_verified_local_object`
  | .initialStatus fd => some (fs, orFail do
      require ((fs.stat fd).size ≤ a.maximumObjectBytes)
        (.integrity "Archived local object exceeds configured bounds" 0)
      pure (.lstatIncoming fd (fs.stat fd)))
  | .lstatIncoming fd initial => some (fs, orFail do
      require (Path.incoming ∈ fs.dirs) (.osError .notFound)
      pure (.copy fd initial []))
  | .copy fd initial spool =>
    let chunk := ((fs.content fd).drop spool.length).take a.chunkSize
    if chunk = [] then some (fs, .finalStatus fd initial spool)
    else some (fs, orFail do
      require ((spool ++ chunk).length ≤ a.maximumObjectBytes)
        (.integrity "Archived local object exceeds configured bounds" 0)
      pure (.copy fd initial (spool ++ chunk)))
  | .finalStatus fd initial spool => some (fs, orFail do
      require (sameFileIdentity initial (fs.stat fd) ∧ (fs.stat fd).size = initial.size ∧
        spool.length = initial.size) (.integrity "Archived local object changed during verification" 0)
      pure (.parentsFinally (fs.stat fd) spool))
  | .parentsFinally final spool => some (fs, orFail do
      assertSafeParentChain fs key
      pure (.lstatFinally final spool))
  | .lstatFinally final spool => some (fs, orFail do
      assertPathIdentifies fs key final
      pure (.compare spool))
  | .compare spool => some (fs, orFail do
      require ((a.sha256 spool).val = expected)
        (.integrity "Archived object failed SHA-256 verification" 0)
      pure (.parse spool [] spool.length))
  -- back in the parent process: the consumer reads the spool
  | .parse rest yielded expectedLength =>
    let chunk := rest.take a.chunkSize
    if chunk = [] then
      some (fs, .done do
        require (yielded.length = expectedLength)
          (.integrity "Parser-visible local object length changed" 0)
        require ((a.sha256 yielded).val = expected)
          (.integrity "Parser-visible object failed SHA-256 verification" 0)
        pure yielded)
    else if expectedLength < (yielded ++ chunk).length then
      some (fs, .done (.error (.integrity "Parser-visible local object exceeds expected bounds" 0)))
    else some (fs, .parse (rest.drop a.chunkSize) (yielded ++ chunk) expectedLength)
  | .done _ => none

/-- `open` up to its first system call. -/
def openKey (key : List Char) : Except ArchiveError Reading := do
  let expected ← digestForKey key none
  pure ⟨key, expected, .initialise⟩

/-- `verify` up to the first system call of the `open` in it. -/
def verify (key expectedSha256 : List Char) : Except ArchiveError Reading := do
  let _ ← digestForKey key (some expectedSha256)
  openKey key

/-! ## Storing an object -/

/-- What a completed `put` returns: `object_key`, `content_length` and `created`. -/
structure Receipt where
  objectKey : List Char
  contentLength : Nat
  created : Bool
  deriving DecidableEq, Repr

/-- The control state of `put`. `written` are the bytes written and hashed so far; `cleanup` is
the `finally` clause, entered with the outcome of the body. -/
inductive PutPc
  | initialise (chunks : List (List UInt8))
  | create (chunks : List (List UInt8))
  | write (fd : Nat) (chunks : List (List UInt8)) (written : List UInt8)
  | fsync (written : List UInt8)
  | mkdir (written : List UInt8)
  | parents (written : List UInt8)
  | link (written : List UInt8)
  | unlink (written : List UInt8)
  | protect (written : List UInt8)
  | verify (written : List UInt8) (reading : Reading)
  | cleanup (outcome : Except ArchiveError Receipt)
  | done (outcome : Except ArchiveError Receipt)

/-- `put` up to its first system call. -/
def beginPut (originalFilename : List Char) (chunks : List (List UInt8)) : PutPc :=
  if originalFilename = [] ∨ Char.ofNat 0 ∈ originalFilename then
    .done (.error (.value "original_filename is empty or unsafe"))
  else .initialise chunks

/-- The handler around the commit: an integrity error gets the transferred bytes, any other
exception becomes an integrity error. -/
def commitError (transferred : Nat) : ArchiveError → ArchiveError
  | .integrity message _ => .integrity message transferred
  | _ => .integrity "Local archive commit could not be confirmed" transferred

/-- The next state of a call in the commit section of `put`. -/
def orAbort (written : List UInt8) (x : Except ArchiveError (Disk × PutPc)) (fs : Disk) :
    Disk × PutPc :=
  match x with
  | .ok next => next
  | .error e => (fs, .cleanup (.error (commitError written.length e)))

/-- The exception of a system call. -/
def syscall {α : Type} (x : Except FileError α) : Except ArchiveError α :=
  x.mapError .osError

def receipt (a : LocalArchive) (written : List UInt8) (created : Bool) : Receipt :=
  ⟨keyForDigest (a.sha256 written), written.length, created⟩

/-- `_commit_once`. The link needs the parent directory of the object. -/
def commitOnce (fs : Disk) (p : Nat) (key : List Char) : Except ArchiveError (Option Disk) :=
  if Path.parents key ∈ fs.dirs then
    match fs.link (.part p) (.object key) with
    | .ok fs' => .ok (some fs')
    | .error .exists => .ok none
    | .error .notFound => .error (.osError .notFound)
  else .error (.osError .notFound)

/-- One system call of the `put` with the temporary name `p`. -/
def putStep (a : LocalArchive) (p : Nat) (fs : Disk) : PutPc → Option (Disk × PutPc)
  | .initialise chunks => some (fs.mkdir .incoming, .create chunks)
  | .create chunks =>
    match fs.create (.part p) with
    | .ok (fs', fd) => some (fs', .write fd chunks [])
    | .error e => some (fs, .cleanup (.error (.osError e)))
  | .write _ [] written => some (fs, .fsync written)
  | .write fd (chunk :: chunks) written =>
    if chunk = [] then some (fs, .write fd chunks written)
    else if a.maximumObjectBytes < (written ++ chunk).length then
      some (fs, .cleanup (.error (.downloadLimit
        ("Object exceeds " ++ toString a.maximumObjectBytes ++ " archived bytes")
        (written ++ chunk).length)))
    else some (fs.append fd chunk, .write fd chunks (written ++ chunk))
  | .fsync written => some (fs, .mkdir written)
  | .mkdir written => some (fs.mkdir (.parents (keyForDigest (a.sha256 written))), .parents written)
  | .parents written => some (orAbort written (do
      assertSafeParentChain fs (keyForDigest (a.sha256 written))
      pure (fs, .link written)) fs)
  | .link written => some (orAbort written (do
      match ← commitOnce fs p (keyForDigest (a.sha256 written)) with
      | some fs' => pure (fs', .unlink written)
      | none =>
        let reading ← verify (keyForDigest (a.sha256 written)) (a.sha256 written).val
        pure (fs, .verify written reading)) fs)
  | .unlink written => some (orAbort written (do
      let fs' ← syscall (fs.unlink (.part p))
      pure (fs', .protect written)) fs)
  | .protect written => some (orAbort written (do
      let fs' ← syscall (fs.protect (.object (keyForDigest (a.sha256 written))))
      pure (fs', .cleanup (.ok (receipt a written true)))) fs)
  | .verify written reading =>
    match reading.pc with
    | .done (.ok _) => some (fs, .cleanup (.ok (receipt a written false)))
    | .done (.error e) => some (fs, .cleanup (.error (commitError written.length e)))
    | pc => (readStep a reading.key reading.expected fs pc).map fun next =>
        (next.1, .verify written { reading with pc := next.2 })
  -- `suppress(FileNotFoundError)`
  | .cleanup outcome =>
    match fs.unlink (.part p) with
    | .ok fs' => some (fs', .done outcome)
    | .error _ => some (fs, .done outcome)
  | .done _ => none

/-! ## Keys of digests -/

theorem matchObjectKey_keyForDigest (d : Digest) :
    matchObjectKey (keyForDigest d) = some (d.val.take 2, (d.val.drop 2).take 2, d.val) := by
  obtain ⟨hlen, hhex⟩ := d.property
  have hfirst : (d.val.take 2).length = 2 := by rw [List.length_take, hlen]; rfl
  have hsecond : ((d.val.drop 2).take 2).length = 2 := by
    rw [List.length_take, List.length_drop, hlen]; rfl
  have hall : ∀ {s : List Char}, s ⊆ d.val → s.all isLowerHex = true := by
    intro s hs
    exact List.all_eq_true.mpr fun c hc => List.all_eq_true.mp hhex c (hs hc)
  have hfirstHex := hall (List.take_subset 2 d.val)
  have hsecondHex := hall fun c hc => List.drop_subset 2 d.val (List.take_subset 2 _ hc)
  unfold matchObjectKey keyForDigest
  generalize d.val.take 2 = first at *
  generalize (d.val.drop 2).take 2 = second at *
  -- The groups are cut out by position, so their characters have to be visible.
  match first, second, hfirst, hsecond with
  | [c₀, c₁], [c₂, c₃], _, _ =>
    have hkey : "sha256/".toList ++ [c₀, c₁] ++ ['/'] ++ [c₂, c₃] ++ ['/'] ++ d.val =
        's' :: 'h' :: 'a' :: '2' :: '5' :: '6' :: '/' :: c₀ :: c₁ :: '/' :: c₂ :: c₃ :: '/' ::
          d.val := rfl
    simp only [hkey, List.drop_succ_cons, List.drop_zero, List.take_succ_cons, List.take_zero]
    rw [if_pos]
    refine ⟨rfl, trivial, trivial, ?_, hlen⟩
    rw [List.all_append, List.all_append, hfirstHex, hsecondHex, hhex]
    rfl

/-- The digest is read back from its key. -/
theorem digestForKey_keyForDigest (d : Digest) (expected : Option (List Char))
    (h : ∀ sha256 ∈ expected, d.val = sha256) :
    digestForKey (keyForDigest d) expected = .ok d.val := by
  unfold digestForKey
  rw [matchObjectKey_keyForDigest]
  show (require _ _ >>= fun _ => require _ _ >>= fun _ => _) = _
  rw [require_bind_of ⟨rfl, rfl⟩, require_bind_of h]
  rfl

theorem eq_of_matchObjectKey {key first second digest : List Char}
    (h : matchObjectKey key = some (first, second, digest)) :
    key = "sha256/".toList ++ first ++ ['/'] ++ second ++ ['/'] ++ digest ∧ digest.length = 64 ∧
      digest.all isLowerHex = true := by
  unfold matchObjectKey at h
  dsimp only at h
  split at h
  · rename_i hmatch
    obtain ⟨hstarts, hslash, hslash', hhex, hlength⟩ := hmatch
    cases h
    rw [List.all_append, Bool.and_eq_true] at hhex
    refine ⟨?_, hlength, hhex.2⟩
    -- The key is the concatenation of the pieces it is cut into.
    have hcut (n m : Nat) : key.drop n = (key.drop n).take m ++ key.drop (n + m) := by
      rw [← List.drop_drop, List.take_append_drop]
    calc key = key.take 7 ++ key.drop 7 := (List.take_append_drop 7 key).symm
      _ = key.take 7 ++ ((key.drop 7).take 2 ++ ((key.drop 9).take 1 ++ ((key.drop 10).take 2 ++
          ((key.drop 12).take 1 ++ key.drop 13)))) := by
        rw [← hcut 12 1, ← hcut 10 2, ← hcut 9 1, ← hcut 7 2]
      _ = _ := by rw [hstarts, hslash, hslash']; simp only [List.append_assoc]
  · cases h

/-- A key from which a digest is read is the key of that digest. -/
theorem eq_keyForDigest {key sha : List Char} {expected : Option (List Char)}
    (h : digestForKey key expected = .ok sha) :
    ∃ d : Digest, d.val = sha ∧ key = keyForDigest d ∧ ∀ s ∈ expected, sha = s := by
  unfold digestForKey at h
  split at h
  · cases h
  · rename_i first second digest hmatch
    obtain ⟨⟨hfirst, hsecond⟩, h⟩ := require_bind_eq_ok.mp h
    obtain ⟨hexpected, h⟩ := require_bind_eq_ok.mp h
    cases pure_eq_ok.mp h
    obtain ⟨hkey, hlength, hhex⟩ := eq_of_matchObjectKey hmatch
    exact ⟨⟨sha, hlength, hhex⟩, rfl, by rw [hkey, hfirst, hsecond]; rfl, hexpected⟩

theorem openKey_keyForDigest (d : Digest) :
    openKey (keyForDigest d) = .ok ⟨keyForDigest d, d.val, .initialise⟩ := by
  rw [openKey, digestForKey_keyForDigest d none (fun _ h => by cases h)]
  rfl

theorem verify_keyForDigest (d : Digest) :
    verify (keyForDigest d) d.val = .ok ⟨keyForDigest d, d.val, .initialise⟩ := by
  rw [verify, digestForKey_keyForDigest d (some d.val) (fun _ h => by cases h; rfl)]
  exact openKey_keyForDigest d

end Makolet.Archive
