import Makolet.Backup.Bucket
import Makolet.Lib.System

/-!
# Restore runs on one bucket

`restore` and `_restore_object`, one request a step. An object is staged, read back, copied to its
canonical key under the ETag that was read, and read back there; its staging key is cleaned before
and, in the `finally`, after. Any number of restores and archive puts interleave. A request may be
applied and its answer lost, it may fail, the deadline may run out in front of it, and a process may
die; what it has sent by then may still arrive.

The staging key of an object is the same in all restores, so one restore may remove or use what
another one staged.
-/

set_option autoImplicit false

namespace Makolet.Backup

open Makolet.Archive Makolet.Lib

/-- The answer to a request: it is applied and answered, applied with the answer lost, refused with a
`ClientError` or `BotoCoreError`, or not sent because the deadline has run out. -/
inductive Answer
  | ok
  | lost
  | error
  | expired
  deriving DecidableEq, Repr

/-- The request that a cleanup awaits. -/
inductive Cleaning
  | head
  | delete
  | confirm
  deriving DecidableEq, Repr

/-- What follows a cleanup: the upload, or the end of `_restore_object` with what its body returned
or raised. -/
inductive After
  | first
  | finally (outcome : Except String Bool)

/-- Where `_restore_object` stands. -/
inductive Point
  | cleaning (after : After) (request : Cleaning) (attempt : Nat)
  | hashing
  | uploading (body : List UInt8)
  | checkingStaging
  | copying (etag : List UInt8)
  | checkingTarget (created : Bool)

/-- Where `_restore_object` goes. -/
inductive Progress
  | goto (point : Point)
  | returns (created : Bool)
  | raises (message : String)

section Steps

variable (c : RestoreConfig) (entry : ManifestEntry)

def stagingKey : ServiceKey := restoreStagingKey c entry.key entry.sha256

/-- What the awaited request does to the bucket. -/
def Point.effect (b : Bucket) : Point → Bucket
  | .cleaning _ .delete _ => deleteObject b (stagingKey c entry)
  | .uploading body => putIfAbsent b (stagingKey c entry) body
  | .copying etag => copyIfMatch c b (stagingKey c entry) entry.key etag
  | _ => b

/-- The body raised: its `finally` comes next. -/
def fail (message : String) : Progress := .goto (.cleaning (.finally (.error message)) .head 0)

/-- The cleanup is complete. -/
def After.leave : After → Progress
  | .first => .goto .hashing
  | .finally (.ok created) => .returns created
  | .finally (.error message) => .raises message

def cleanupFailed : String := "Raw archive restore staging cleanup failed"

/-- `_RESTORE_CLEANUP_ATTEMPTS`. -/
def cleanupAttempts : Nat := 5

/-- The next attempt of a cleanup, if there is one. -/
def retry (after : After) (attempt : Nat) : Progress :=
  if attempt + 1 < cleanupAttempts then .goto (.cleaning after .head (attempt + 1))
  else .raises cleanupFailed

/-- `_remote_digest` and the comparison with the entry. -/
def remoteMatches (content : List UInt8) : Prop :=
  content.length ≤ c.maximumObjectBytes ∧ (c.sha256 content).val = entry.sha256 ∧
    (content.length : Int) = entry.size

instance (content : List UInt8) : Decidable (remoteMatches c entry content) :=
  inferInstanceAs (Decidable (_ ∧ _ ∧ _))

def deadlineExceeded : String := "Raw archive operation exceeded its total operation deadline"

def cleanupDeadlineExceeded : String := "Raw archive operation exceeded its cleanup phase deadline"

/-- `_restore_object` from one request to the next. -/
def Point.progress (files : List Char → Option (List UInt8)) (b : Bucket) : Point → Answer → Progress
  -- `_cleanup_staging_object`: look, delete, look again.
  | .cleaning _ _ _, .expired => .raises cleanupDeadlineExceeded
  | .cleaning after .head attempt, .ok =>
    if b (stagingKey c entry) = none then after.leave else .goto (.cleaning after .delete attempt)
  | .cleaning after .delete attempt, .ok => .goto (.cleaning after .confirm attempt)
  | .cleaning after .confirm attempt, .ok =>
    if b (stagingKey c entry) = none then after.leave else retry after attempt
  | .cleaning after _ attempt, _ => retry after attempt
  | .hashing, .ok =>
    match readObject c files entry with
    | .ok body => .goto (.uploading body)
    | .error message => fail message
  | .uploading _, .ok =>
    if b (stagingKey c entry) = none then .goto .checkingStaging
    else fail "Raw archive restore staging upload failed"
  | .checkingStaging, .ok =>
    match b (stagingKey c entry) with
    | none => fail "NoSuchKey"
    | some content =>
      if remoteMatches c entry content then .goto (.copying (c.etag content))
      else fail "Raw archive restore staging object failed verification"
  | .copying etag, .ok =>
    match b (stagingKey c entry) with
    | none => fail "Raw archive restore publication failed"
    | some content =>
      -- Both preconditions are answered with 412, which is taken for an existing target.
      .goto (.checkingTarget (decide (c.etag content = etag ∧ b entry.key = none)))
  | .checkingTarget created, .ok =>
    match b entry.key with
    | none => fail "NoSuchKey"
    | some content =>
      if remoteMatches c entry content then .goto (.cleaning (.finally (.ok created)) .head 0)
      else fail "Restored raw archive object failed verification"
  | .hashing, _ => fail "Backup object cannot be opened"
  | _, .expired => fail deadlineExceeded
  | .uploading _, _ => fail "Raw archive restore staging upload failed"
  | .copying _, _ => fail "Raw archive restore publication failed"
  | .checkingStaging, _ | .checkingTarget _, _ => fail "ClientError"

/-- The bucket after an answer. -/
def Point.bucket (b : Bucket) (point : Point) : Answer → Bucket
  | .ok | .lost => point.effect c entry b
  | .error | .expired => b

end Steps

/-! ## Runs -/

structure Summary where
  objects : Nat
  objectsCreated : Nat
  deriving DecidableEq, Repr

/-- Where a restore stands. `closing` is the end of `restore`, after its last object. -/
inductive Stage
  | restoring (entry : ManifestEntry) (rest : List ManifestEntry) (point : Point)
  | closing
  | succeeded (summary : Summary)
  | failed (message : String)
  | crashed (inFlight : Option (ManifestEntry × Point))

/-- A restore run. `restored` are the entries that it is through with. -/
structure Run where
  backup : BackupDirectory
  objects : Nat
  restored : List ManifestEntry
  created : Nat
  stage : Stage

/-- What the history of the bucket records: uploads to staging keys, and the ends of the cleanups
that follow a restored object. -/
inductive Event
  | uploaded (run : Nat) (key : ServiceKey)
  | cleaned (run : Nat) (key : ServiceKey)
  deriving DecidableEq, Repr

structure World where
  bucket : Bucket
  runs : Nat → Option Run
  history : List Event

inductive Label
  | restore (run : Nat) (backup : BackupDirectory)
  | step (run : Nat) (answer : Answer)
  | crash (run : Nat)
  | land (run : Nat)
  | archivePut (content : List UInt8)

section World

variable (c : RestoreConfig)

/-- The next object of the loop, or its end. -/
def nextObject : List ManifestEntry → Stage
  | [] => .closing
  | entry :: rest => .restoring entry rest (.cleaning .first .head 0)

/-- `restore` up to its first request. -/
def beginRestore (backup : BackupDirectory) : Run :=
  match verifyManifest c backup with
  | .error message => ⟨backup, 0, [], 0, .failed message⟩
  | .ok objects => ⟨backup, objects, [], 0, nextObject backup.manifest.objects⟩

/-- The run after the progress of `_restore_object`. -/
def Run.advance (run : Run) (entry : ManifestEntry) (rest : List ManifestEntry) : Progress → Run
  | .goto point => { run with stage := .restoring entry rest point }
  | .raises message => { run with stage := .failed message }
  | .returns created =>
    { run with
      restored := run.restored ++ [entry]
      created := run.created + created.toNat
      stage := nextObject rest }

/-- The events of an answer. -/
def events (p : Nat) (entry : ManifestEntry) (b b' : Bucket) (point : Point) :
    Progress → List Event
  | .returns _ => [.cleaned p (stagingKey c entry)]
  | _ =>
    match point with
    | .uploading _ => if b (stagingKey c entry) ≠ b' (stagingKey c entry)
        then [.uploaded p (stagingKey c entry)] else []
    | _ => []

def World.setRun (w : World) (p : Nat) (run : Run) : World :=
  { w with runs := Function.update w.runs p (some run) }

def next (w : World) : Label → Option World
  | .restore p backup =>
    if w.runs p = none then some (w.setRun p (beginRestore c backup)) else none
  | .step p answer =>
    match w.runs p with
    | some run =>
      match run.stage with
      | .restoring entry rest point =>
        let bucket := point.bucket c entry w.bucket answer
        let progress := point.progress c entry run.backup.files w.bucket answer
        some { w.setRun p (run.advance entry rest progress) with
          bucket := bucket
          history := w.history ++ events c p entry w.bucket bucket point progress }
      | .closing =>
        some (w.setRun p { run with stage := match answer with
          | .ok => .succeeded ⟨run.objects, run.created⟩
          | _ => .failed deadlineExceeded })
      | _ => none
    | none => none
  | .crash p =>
    match w.runs p with
    | some run =>
      match run.stage with
      | .restoring entry _ point =>
        some (w.setRun p { run with stage := .crashed (some (entry, point)) })
      | .closing => some (w.setRun p { run with stage := .crashed none })
      | _ => none
    | none => none
  -- The last request of a process that died arrives.
  | .land p =>
    match w.runs p with
    | some run =>
      match run.stage with
      | .crashed (some (entry, point)) =>
        let bucket := point.effect c entry w.bucket
        some { w.setRun p { run with stage := .crashed none } with
          bucket := bucket
          history := w.history ++ events c p entry w.bucket bucket point (.goto point) }
      | _ => none
    | none => none
  | .archivePut content => some { w with bucket := putS3Object c w.bucket content }

/-- The canonical objects match the digests in their keys. -/
def Matched (b : Bucket) : Prop :=
  ∀ d content, b (serviceKey c d) = some content → c.sha256 content = d

/-- A bucket with matching canonical objects, and nobody at work. -/
def restoreSystem : System World Label where
  init w := Matched c w.bucket ∧ (∀ p, w.runs p = none) ∧ w.history = []
  next := next c

end World

end Makolet.Backup
