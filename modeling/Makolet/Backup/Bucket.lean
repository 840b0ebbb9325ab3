import Mathlib.Logic.Function.Basic
import Makolet.Archive.Local

/-!
# The archive bucket and the manifest of a backup

The bucket is a map from service keys to contents. A put with `IfNoneMatch` writes an absent key
only; a copy with `CopySourceIfMatch` and `IfNoneMatch` also asks for the ETag of its source. The
ETag determines the content. SHA-256 is a parameter, as in the archive.

`verifyManifest` is `_verify_manifest`: what it accepts are canonical keys, with the digest in the
key, whose local files have that digest and the recorded size.
-/

set_option autoImplicit false

namespace Makolet.Backup

open Makolet.Archive Makolet.Lib

abbrev ServiceKey := List Char

/-- The configuration shared by the archive and the backup tool. -/
structure RestoreConfig where
  sha256 : List UInt8 → Digest
  etag : List UInt8 → List UInt8
  etag_determines : Function.Injective etag
  keyPrefix : List Char
  maximumObjects : Nat
  maximumObjectBytes : Nat
  maximumBackupBytes : Nat

/-! ## Keys -/

section Keys

variable (c : RestoreConfig)

/-- `service_key_for_object` of the key of a digest. -/
def serviceKey (d : Digest) : ServiceKey := c.keyPrefix ++ '/' :: keyForDigest d

/-- `object_key_from_service_key`. -/
def objectKeyFromServiceKey (key : ServiceKey) (expected : Option (List Char)) :
    Except ArchiveError (List Char) := do
  require ((c.keyPrefix ++ ['/']).isPrefixOf key = true)
    (.integrity "S3 archive object is outside the configured key prefix" 0)
  let objectKey := key.drop (c.keyPrefix.length + 1)
  let _ ← digestForKey objectKey expected
  pure objectKey

/-- `_restore_staging_key`. -/
def restoreStagingKey (key : ServiceKey) (digest : List Char) : ServiceKey :=
  let identity := c.sha256 (String.ofList ("makolet-raw-restore-staging-v1\x00".toList ++ key ++
    '\x00' :: digest)).toUTF8.data.toList
  c.keyPrefix ++ "/restore-staging/".toList ++ identity.val

variable {c}

theorem eq_serviceKey {key : ServiceKey} {sha : List Char} {objectKey : List Char}
    (h : objectKeyFromServiceKey c key (some sha) = .ok objectKey) :
    ∃ d : Digest, d.val = sha ∧ key = serviceKey c d := by
  obtain ⟨hstarts, h⟩ := require_bind_eq_ok.mp h
  obtain ⟨found, hfound, -⟩ := bind_eq_ok.mp h
  obtain ⟨d, hd, hkey, hsha⟩ := eq_keyForDigest hfound
  obtain ⟨tail, rfl⟩ := List.isPrefixOf_iff_prefix.mp hstarts
  refine ⟨d, hd.trans (hsha sha rfl), ?_⟩
  rw [serviceKey, ← hkey, List.append_assoc, List.singleton_append, List.drop_append,
    List.drop_eq_nil_of_le (Nat.le_succ _), Nat.add_sub_cancel_left, List.nil_append]
  rfl

theorem serviceKey_injective : Function.Injective (serviceKey c) := by
  intro d d' h
  have hkey := List.tail_eq_of_cons_eq (List.append_cancel_left h)
  have hread := digestForKey_keyForDigest d none fun _ hs => by cases hs
  rw [hkey, digestForKey_keyForDigest d' none fun _ hs => by cases hs] at hread
  exact (Subtype.ext (Except.ok.inj hread)).symm

/-- No staging key is canonical. -/
theorem restoreStagingKey_ne (key : ServiceKey) (digest : List Char) (d : Digest) :
    restoreStagingKey c key digest ≠ serviceKey c d := by
  intro h
  rw [restoreStagingKey, serviceKey, List.append_assoc] at h
  have hhead := congrArg (fun s : List Char => s[1]?) (List.append_cancel_left h)
  cases hhead

end Keys

/-! ## The bucket -/

abbrev Bucket := ServiceKey → Option (List UInt8)

/-- `put_object` with `IfNoneMatch="*"`. -/
def putIfAbsent (b : Bucket) (key : ServiceKey) (content : List UInt8) : Bucket :=
  if b key = none then Function.update b key (some content) else b

/-- `delete_object`. -/
def deleteObject (b : Bucket) (key : ServiceKey) : Bucket := Function.update b key none

/-- `copy_object` with `CopySourceIfMatch` and `IfNoneMatch="*"`. -/
def copyIfMatch (c : RestoreConfig) (b : Bucket) (source target : ServiceKey) (etag : List UInt8) :
    Bucket :=
  match b source with
  | some content => if c.etag content = etag then putIfAbsent b target content else b
  | none => b

/-- `_put_s3_object_in_child`: the archive puts a content under the key of its digest. -/
def putS3Object (c : RestoreConfig) (b : Bucket) (content : List UInt8) : Bucket :=
  putIfAbsent b (serviceKey c (c.sha256 content)) content

/-! ## The manifest -/

structure ManifestEntry where
  key : ServiceKey
  sha256 : List Char
  size : Int
  deriving DecidableEq

structure Manifest where
  keyPrefix : List Char
  objects : List ManifestEntry
  deriving DecidableEq

/-- A backup directory: its manifest and its object files. -/
structure BackupDirectory where
  manifest : Manifest
  files : List Char → Option (List UInt8)

/-- `_open_regular_file` and `_hash_stream` of a local object. -/
def readObject (c : RestoreConfig) (files : List Char → Option (List UInt8)) (entry : ManifestEntry) :
    Except String (List UInt8) :=
  match files entry.sha256 with
  | none => .error "Backup object is missing or unavailable"
  | some body => do
    require (body.length ≤ c.maximumObjectBytes) "Backup object exceeds its size limit"
    require ((c.sha256 body).val = entry.sha256 ∧ (body.length : Int) = entry.size)
      "Backup object failed checksum or length verification"
    pure body

/-- The loop of `_verify_manifest`. -/
def verifyEntries (c : RestoreConfig) (files : List Char → Option (List UInt8)) :
    List ServiceKey → Int → List ManifestEntry → Except String Unit
  | _, _, [] => .ok ()
  | seenKeys, aggregateBytes, entry :: rest => do
    require (entry.key ∉ seenKeys ∧ entry.sha256.length = 64 ∧ entry.sha256.all isLowerHex = true ∧
        0 ≤ entry.size ∧ entry.size ≤ c.maximumObjectBytes)
      "Backup manifest contains unsafe object metadata"
    require (aggregateBytes + entry.size ≤ c.maximumBackupBytes)
      "Backup manifest exceeds the configured aggregate byte limit"
    let _ ← (objectKeyFromServiceKey c entry.key (some entry.sha256)).mapError fun _ =>
      "Backup manifest contains a non-canonical archive key"
    let _ ← readObject c files entry
    verifyEntries c files (entry.key :: seenKeys) (aggregateBytes + entry.size) rest

/-- `_verify_manifest`. -/
def verifyManifest (c : RestoreConfig) (backup : BackupDirectory) : Except String Nat := do
  require (backup.manifest.keyPrefix = c.keyPrefix)
    "Backup manifest key prefix does not match the configured archive"
  require (backup.manifest.objects.length ≤ c.maximumObjects)
    "Backup manifest exceeds the configured object limit"
  verifyEntries c backup.files [] 0 backup.manifest.objects
  pure backup.manifest.objects.length

/-- What the verification says about an entry: its key is canonical, and its local file is the
content it records. -/
structure EntryOk (c : RestoreConfig) (files : List Char → Option (List UInt8)) (entry : ManifestEntry) :
    Prop where
  key : ∃ d : Digest, d.val = entry.sha256 ∧ entry.key = serviceKey c d
  file : ∃ body, files entry.sha256 = some body ∧ (c.sha256 body).val = entry.sha256 ∧
    (body.length : Int) = entry.size

section Verified

variable {c : RestoreConfig} {files : List Char → Option (List UInt8)}

theorem readObject_ok {entry : ManifestEntry} {body : List UInt8}
    (h : readObject c files entry = .ok body) : files entry.sha256 = some body ∧
      (c.sha256 body).val = entry.sha256 ∧ (body.length : Int) = entry.size := by
  unfold readObject at h
  split at h
  · cases h
  · rename_i found hfound
    obtain ⟨-, h⟩ := require_bind_eq_ok.mp h
    obtain ⟨hcheck, h⟩ := require_bind_eq_ok.mp h
    cases pure_eq_ok.mp h
    exact ⟨hfound, hcheck⟩

theorem verifyEntries_ok {seen : List ServiceKey} {aggregate : Int} {entries : List ManifestEntry}
    (h : verifyEntries c files seen aggregate entries = .ok ()) :
    ∀ entry ∈ entries, EntryOk c files entry := by
  induction entries generalizing seen aggregate with
  | nil => exact fun _ hmem => absurd hmem List.not_mem_nil
  | cons first rest ih =>
    obtain ⟨-, h⟩ := require_bind_eq_ok.mp h
    obtain ⟨-, h⟩ := require_bind_eq_ok.mp h
    obtain ⟨objectKey, hkey, h⟩ := bind_eq_ok.mp h
    obtain ⟨body, hbody, h⟩ := bind_eq_ok.mp h
    intro entry hmem
    rcases List.mem_cons.mp hmem with rfl | hrest
    · exact ⟨eq_serviceKey (mapError_eq_ok.mp hkey), body, readObject_ok hbody⟩
    · exact ih h entry hrest

theorem verifyManifest_ok {backup : BackupDirectory} {n : Nat} (h : verifyManifest c backup = .ok n) :
    ∀ entry ∈ backup.manifest.objects, EntryOk c backup.files entry := by
  obtain ⟨-, h⟩ := require_bind_eq_ok.mp h
  obtain ⟨-, h⟩ := require_bind_eq_ok.mp h
  obtain ⟨⟨⟩, h, -⟩ := bind_eq_ok.mp h
  exact verifyEntries_ok h

end Verified

end Makolet.Backup
