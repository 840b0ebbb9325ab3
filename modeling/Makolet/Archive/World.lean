import Makolet.Archive.Local

/-!
# Concurrent puts and opens of one object

The system of this module runs any number of `put` calls with the same bytes and any number of
`open` calls of the key of these bytes on one disk, one system call at a time, and lets processes
die between two calls. `Agreed` is what the callers rely on.

The object's name is made by a hard link to the temporary file, and the temporary name is removed
by a later call. In between the object has link count two, and every status check of an `open`
insists on one. `Unwatched` is the condition that nobody looks in between.
-/

set_option autoImplicit false

namespace Makolet.Archive

open Makolet.Lib

/-- A process of the system. An `open` notes whether it was called after the object was linked. -/
inductive Proc
  | put (pc : PutPc)
  | reader (late : Bool) (reading : Reading)
  | crashed

/-- The call has returned or raised, or the process is gone. -/
def Proc.finished : Proc → Bool
  | .put (.done _) | .reader _ ⟨_, _, .done _⟩ | .crashed => true
  | _ => false

structure World where
  disk : Disk
  procs : Nat → Option Proc

/-- What can happen to a process: a call of `put` or `open` starts, it takes its next step, it
dies. -/
inductive Act
  | put (originalFilename : List Char) (chunks : List (List UInt8))
  | openObject
  | step
  | crash

section System

variable (a : LocalArchive) (bytes : List UInt8)

/-- The key of the bytes that are put. -/
def objectKey : List Char := keyForDigest (a.sha256 bytes)

def objectPath : Path := .object (objectKey a bytes)

def World.set (w : World) (p : Nat) (disk : Disk) (proc : Proc) : World :=
  ⟨disk, Function.update w.procs p (some proc)⟩

/-- An `open` of the key; `late` if the object's link is committed. -/
def startReader (disk : Disk) : Proc :=
  .reader (disk.find (objectPath a bytes)).isSome
    (match openKey (objectKey a bytes) with
    | .ok reading => reading
    | .error e => ⟨objectKey a bytes, [], .done (.error e)⟩)

def Proc.step (p : Nat) (disk : Disk) : Proc → Option (Disk × Proc)
  | .put pc => (putStep a p disk pc).map fun next => (next.1, .put next.2)
  | .reader late reading =>
    (readStep a reading.key reading.expected disk reading.pc).map fun next =>
      (next.1, .reader late { reading with pc := next.2 })
  | .crashed => none

/-- A put starts under a temporary name that is not in use. -/
def next (w : World) : Nat × Act → Option World
  | (p, .put originalFilename chunks) =>
    if w.procs p = none ∧ w.disk.find (.part p) = none ∧ chunks.flatten = bytes then
      some (w.set p w.disk (.put (beginPut originalFilename chunks)))
    else none
  | (p, .openObject) =>
    if w.procs p = none then some (w.set p w.disk (startReader a bytes w.disk)) else none
  | (p, .step) =>
    (w.procs p).bind fun proc => (proc.step a p w.disk).map fun next => w.set p next.1 next.2
  | (p, .crash) =>
    (w.procs p).bind fun proc =>
      if proc.finished then none else some (w.set p w.disk .crashed)

/-- At the start the object is not there and no process runs. -/
def archiveSystem : System World (Nat × Act) where
  init w := w.disk.find (objectPath a bytes) = none ∧ w.procs = fun _ => none
  next := next a bytes

/-! ## The property and its condition -/

def ArchiveError.isIntegrity : ArchiveError → Bool
  | .integrity _ _ => true
  | _ => false

/-- What the callers of the archive rely on. -/
structure Agreed (w : World) : Prop where
  sameKey : ∀ p r, w.procs p = some (.put (.done (.ok r))) →
    r.objectKey = objectKey a bytes ∧ r.contentLength = bytes.length
  oneCreated : ∀ p q r s, w.procs p = some (.put (.done (.ok r))) →
    w.procs q = some (.put (.done (.ok s))) → r.created = true → s.created = true → p = q
  noIntegrityError : ∀ p e, w.procs p = some (.put (.done (.error e))) → e.isIntegrity = false
  opens : ∀ p reading outcome, w.procs p = some (.reader true reading) →
    reading.pc = .done outcome → outcome = .ok bytes

/-- The steps of `open` that read the link count. -/
def ReadPc.watches : ReadPc → Bool
  | .lstat | .fstat _ _ | .lstatAgain _ _ | .lstatFinally _ _ => true
  | _ => false

/-- The process verifies the object for a put or for an `open` called after the link, and reads
the link count next. -/
def Proc.watches : Proc → Bool
  | .put (.verify _ reading) => reading.pc.watches
  | .reader late reading => late && reading.pc.watches
  | _ => false

/-- No temporary name refers to the object. -/
def Single (disk : Disk) : Prop :=
  ∀ u i, disk.find (objectPath a bytes) = some i → disk.find (.part u) ≠ some i

/-- The object is not watched while a temporary name still refers to it. -/
def Unwatched (w : World) (label : Nat × Act) : Prop :=
  ∀ proc, label.2 = .step → w.procs label.1 = some proc → proc.watches = true →
    Single a bytes w.disk

end System

section Decidable

variable (a : LocalArchive) (bytes : List UInt8)

def Path.isPart : Path → Bool
  | .part _ => true
  | _ => false

theorem single_iff (disk : Disk) :
    Single a bytes disk ↔
      ∀ e ∈ disk.entries, e.1.isPart = true → disk.find (objectPath a bytes) ≠ some e.2 := by
  constructor
  · rintro h ⟨path, i⟩ he hpart hi
    cases path with
    | part u => exact h u i hi (FileSystem.find_eq_some.mpr he)
    | _ => cases hpart
  · intro h u i hi hu
    exact h (.part u, i) (FileSystem.find_eq_some.mp hu) rfl hi

instance (disk : Disk) : Decidable (Single a bytes disk) :=
  decidable_of_iff _ (single_iff a bytes disk).symm

def Act.isStep : Act → Bool
  | .step => true
  | _ => false

theorem unwatched_iff (w : World) (label : Nat × Act) :
    Unwatched a bytes w label ↔
      (label.2.isStep && (w.procs label.1).any Proc.watches) = true → Single a bytes w.disk := by
  obtain ⟨p, act⟩ := label
  cases act with
  | step =>
    simp only [Unwatched, Act.isStep, Bool.true_and, forall_const]
    cases w.procs p with
    | none => simp
    | some proc => simp
  | _ => simp [Unwatched, Act.isStep]

instance (w : World) (label : Nat × Act) : Decidable (Unwatched a bytes w label) :=
  decidable_of_iff _ (unwatched_iff a bytes w label).symm

end Decidable

end Makolet.Archive
