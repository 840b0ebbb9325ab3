import Makolet.Domain.Enums
import Makolet.Lib.Bytes
import Makolet.Lib.Outcome

/-!
# The directory of a ZIP archive

`_preflight_zip` of `adapters/parsers/streams.py` and the search for the end record that `zipfile`
makes after it. Both look backwards for the signature of the record, in the same final bytes. The
preflight passes over a signature whose comment does not reach the end of the file, `zipfile` does
not; and the preflight looks for a ZIP64 locator in the final bytes only. `preflight_checked_iff`
says when the record that is used is the one that was checked.
-/

set_option autoImplicit false

namespace Makolet.Parsing

open Makolet.Domain Makolet.Lib

def unsafeArchive (message : String) : Failure := ⟨.unsafeArchive, message, 0⟩

/-- `s[start:stop]`. -/
def slice (s : Bytes) (start stop : Nat) : Bytes := (s.drop start).take (stop - start)

/-- The number in some bytes of a file. -/
def unsigned (s : Bytes) (offset width : Nat) : Nat := ofLittle (slice s offset (offset + width))

/-- `_ZIP_END_SIGNATURE`. -/
def zipEndSignature : Bytes := [0x50, 0x4b, 0x05, 0x06]

/-- `_ZIP64_LOCATOR_SIGNATURE`. -/
def zip64LocatorSignature : Bytes := [0x50, 0x4b, 0x06, 0x07]

/-- `_ZIP_CENTRAL_SIGNATURE`. -/
def zipCentralSignature : Bytes := [0x50, 0x4b, 0x01, 0x02]

/-- The size of `_ZIP_END_RECORD`. -/
def zipEndSize : Nat := 22

/-- The size of `_ZIP_CENTRAL_HEADER`. -/
def zipCentralSize : Nat := 46

/-- `_ZIP_END_RECORD.size + _ZIP_MAXIMUM_COMMENT_BYTES`. -/
def zipTailSize : Nat := 65557

/-- The limits that the preflight reads. -/
structure ZipLimits where
  maximumZipEntries : Nat
  maximumZipDirectoryBytes : Nat

/-- `_ZipEndRecord`. -/
structure ZipEndRecord where
  entries : Nat
  directorySize : Nat
  directoryOffset : Nat
  recordOffset : Nat
  deriving DecidableEq, Repr

/-! ## The end record -/

/-- The last place of a signature among the first so many. -/
def lastBefore (s signature : Bytes) : Nat → Option Nat
  | 0 => none
  | n + 1 =>
    if slice s n (n + signature.length) = signature then some n else lastBefore s signature n

/-- `s.rfind(signature, 0, stop)`. -/
def rfind (s signature : Bytes) (stop : Nat) : Option Nat :=
  lastBefore s signature (stop + 1 - signature.length)

/-- The comment size of a record. -/
def commentSize (s : Bytes) (offset : Nat) : Nat := unsigned s (offset + 20) 2

/-- The record of the tail that was found, with the offset of the tail in the file. -/
def endRecordAt (tail : Bytes) (start offset : Nat) : Except Failure ZipEndRecord := do
  require (¬(20 ≤ offset ∧ slice tail (offset - 20) (offset - 16) = zip64LocatorSignature))
    (unsafeArchive "ZIP64 archives are not supported")
  let diskNumber := unsigned tail (offset + 4) 2
  let directoryDisk := unsigned tail (offset + 6) 2
  let diskEntries := unsigned tail (offset + 8) 2
  let entries := unsigned tail (offset + 10) 2
  let size := unsigned tail (offset + 12) 4
  let directoryOffset := unsigned tail (offset + 16) 4
  require (diskNumber = 0 ∧ directoryDisk = 0 ∧ diskEntries = entries)
    (unsafeArchive "Multi-disk ZIP archives are not supported")
  require (entries ≠ 0xFFFF ∧ size ≠ 0xFFFFFFFF ∧ directoryOffset ≠ 0xFFFFFFFF)
    (unsafeArchive "ZIP64 archives are not supported")
  pure
    { entries := entries
      directorySize := size
      directoryOffset := directoryOffset
      recordOffset := start + offset }

/-- The loop of `_read_zip_end_record`; each turn finds an earlier signature. -/
def searchEndRecord (tail : Bytes) (start : Nat) : Nat → Nat → Except Failure ZipEndRecord
  | 0, _ => .error (unsafeArchive "ZIP end-of-directory record is missing")
  | turns + 1, searchEnd =>
    match rfind tail zipEndSignature searchEnd with
    | none => .error (unsafeArchive "ZIP end-of-directory record is missing")
    | some offset =>
      if tail.length < offset + zipEndSize then searchEndRecord tail start turns offset
      else if offset + zipEndSize + commentSize tail offset ≠ tail.length then
        searchEndRecord tail start turns offset
      else endRecordAt tail start offset

/-- `_read_zip_end_record`. -/
def readZipEndRecord (spool : Bytes) (fileSize : Nat) : Except Failure ZipEndRecord := do
  require (zipEndSize ≤ fileSize) (unsafeArchive "ZIP payload is invalid")
  let tailSize := min fileSize zipTailSize
  let tail := slice spool (fileSize - tailSize) fileSize
  require (tail.length = tailSize) (unsafeArchive "ZIP payload is truncated")
  searchEndRecord tail (fileSize - tailSize) (tail.length + 1) tail.length

/-! ## The directory -/

/-- The loop of `_reject_zip64_extra`; each turn takes at least four bytes. -/
def rejectZip64Extra (extra : Bytes) : Nat → Nat → Except Failure Unit
  | 0, _ => .ok ()
  | turns + 1, cursor =>
    if cursor < extra.length then do
      require (cursor + 4 ≤ extra.length) (unsafeArchive "ZIP extra field is truncated")
      let fieldType := unsigned extra cursor 2
      let fieldEnd := cursor + 4 + unsigned extra (cursor + 2) 2
      require (fieldEnd ≤ extra.length) (unsafeArchive "ZIP extra field is truncated")
      require (fieldType ≠ 1) (unsafeArchive "ZIP64 archives are not supported")
      rejectZip64Extra extra turns fieldEnd
    else .ok ()

/-- The loop of `_validate_central_directory`, with so many entries left. -/
def validateEntries (directory : Bytes) (record : ZipEndRecord) : Nat → Nat → Except Failure Unit
  | 0, cursor =>
    require (cursor = directory.length)
      (unsafeArchive "ZIP central directory entry count is inconsistent")
  | left + 1, cursor => do
    let headerEnd := cursor + zipCentralSize
    require (headerEnd ≤ directory.length) (unsafeArchive "ZIP central directory is truncated")
    require (slice directory cursor (cursor + 4) = zipCentralSignature)
      (unsafeArchive "ZIP central directory entry is invalid")
    let compressedSize := unsigned directory (cursor + 20) 4
    let fileSize := unsigned directory (cursor + 24) 4
    let nameSize := unsigned directory (cursor + 28) 2
    let extraSize := unsigned directory (cursor + 30) 2
    let commentSize := unsigned directory (cursor + 32) 2
    let diskNumber := unsigned directory (cursor + 34) 2
    let localHeaderOffset := unsigned directory (cursor + 42) 4
    let entryEnd := headerEnd + nameSize + extraSize + commentSize
    require (entryEnd ≤ directory.length)
      (unsafeArchive "ZIP central directory entry is truncated")
    require (diskNumber = 0) (unsafeArchive "Multi-disk ZIP archives are not supported")
    require (0xFFFFFFFF ∉ [compressedSize, fileSize, localHeaderOffset])
      (unsafeArchive "ZIP64 archives are not supported")
    require (localHeaderOffset < record.directoryOffset)
      (unsafeArchive "ZIP member offset is outside the payload area")
    let nameEnd := headerEnd + nameSize
    require (0 ∉ slice directory headerEnd nameEnd)
      (unsafeArchive "ZIP member name contains a null byte")
    let extra := slice directory nameEnd (nameEnd + extraSize)
    rejectZip64Extra extra extra.length 0
    validateEntries directory record left entryEnd

/-- `_preflight_zip`. -/
def preflightZip (spool : Bytes) (fileSize : Nat) (limits : ZipLimits) : Except Failure Unit := do
  let record ← readZipEndRecord spool fileSize
  require (record.entries ≤ limits.maximumZipEntries)
    (unsafeArchive "ZIP archive contains too many entries")
  require (record.directorySize ≤ limits.maximumZipDirectoryBytes)
    (unsafeArchive "ZIP central directory exceeds the byte limit")
  require (record.directoryOffset + record.directorySize = record.recordOffset)
    (unsafeArchive "ZIP central directory has invalid bounds")
  let directory :=
    slice spool record.directoryOffset (record.directoryOffset + record.directorySize)
  require (directory.length = record.directorySize)
    (unsafeArchive "ZIP central directory is truncated")
  validateEntries directory record record.entries 0

/-! ## The record that is used -/

/-- The final bytes, in which both search. -/
def finalBytes (file : Bytes) : Bytes := slice file (file.length - zipTailSize) file.length

/-- The last bytes are a record without a comment. -/
def PlainEnd (file : Bytes) : Prop :=
  slice file (file.length - zipEndSize) (file.length - zipEndSize + 4) = zipEndSignature ∧
    slice file (file.length - 2) file.length = [0, 0]

instance (file : Bytes) : Decidable (PlainEnd file) :=
  inferInstanceAs (Decidable (_ ∧ _))

/-- Where `zipfile` finds its record. -/
def zipfileOffset (file : Bytes) : Option Nat :=
  if file.length < zipEndSize then none
  else if PlainEnd file then some (file.length - zipEndSize)
  else
    (rfind (finalBytes file) zipEndSignature (finalBytes file).length).map
      (file.length - zipTailSize + ·)

/-- The record that `zipfile` reads. -/
def zipfileEndRecord (file : Bytes) : Option ZipEndRecord :=
  (zipfileOffset file).bind fun offset =>
    if file.length < offset + zipEndSize then none
    else some
      { entries := unsigned file (offset + 10) 2
        directorySize := unsigned file (offset + 12) 4
        directoryOffset := unsigned file (offset + 16) 4
        recordOffset := offset }

/-- `zipfile` finds a ZIP64 locator before its record, and reads the ZIP64 record instead. -/
def Zip64Located (file : Bytes) (offset : Nat) : Prop :=
  20 ≤ offset ∧ slice file (offset - 20) (offset - 16) = zip64LocatorSignature

/-- The record that was checked is the one that is used. -/
def Checked (file : Bytes) : Prop :=
  ∃ record, readZipEndRecord file file.length = .ok record ∧
    zipfileEndRecord file = some record ∧ ¬Zip64Located file record.recordOffset

/-! ## Slices -/

theorem length_slice {s : Bytes} {start stop : Nat} (h : stop ≤ s.length) :
    (slice s start stop).length = stop - start := by
  rw [slice, List.length_take, List.length_drop]
  omega

theorem length_finalBytes (file : Bytes) :
    (finalBytes file).length = min file.length zipTailSize := by
  rw [finalBytes, length_slice (Nat.le_refl _)]
  omega

theorem zipEndSize_le : zipEndSize ≤ zipTailSize := by decide

theorem finalBytes_eq (file : Bytes) : finalBytes file = file.drop (file.length - zipTailSize) :=
  List.take_of_length_le (by rw [List.length_drop])

/-- A slice of the final bytes is one of the file. -/
theorem slice_finalBytes (file : Bytes) (start stop : Nat) :
    slice (finalBytes file) start stop =
      slice file (file.length - zipTailSize + start) (file.length - zipTailSize + stop) := by
  rw [slice, slice, finalBytes_eq, List.drop_drop, Nat.add_sub_add_left]

theorem unsigned_finalBytes (file : Bytes) (offset width : Nat) :
    unsigned (finalBytes file) offset width =
      unsigned file (file.length - zipTailSize + offset) width := by
  rw [unsigned, unsigned, slice_finalBytes, Nat.add_assoc]

theorem getElem?_of_slice {s t : Bytes} {offset : Nat} (h : slice s offset (offset + t.length) = t)
    {k : Nat} (hk : k < t.length) : s[offset + k]? = some t[k] := by
  have hget : (slice s offset (offset + t.length))[k]? = t[k]? := by rw [h]
  rw [slice, Nat.add_sub_cancel_left, List.getElem?_take_of_lt hk, List.getElem?_drop,
    List.getElem?_eq_getElem hk] at hget
  exact hget

/-! ## Signatures -/

def HasEndSignature (s : Bytes) (offset : Nat) : Prop :=
  slice s offset (offset + 4) = zipEndSignature

/-- A place behind which there is no other such. -/
def IsLast (p : Nat → Prop) (offset : Nat) : Prop := p offset ∧ ∀ later, offset < later → ¬p later

theorem IsLast.unique {p : Nat → Prop} {i j : Nat} (hi : IsLast p i) (hj : IsLast p j) : i = j :=
  Nat.le_antisymm (Nat.le_of_not_lt fun h => hj.2 i h hi.1)
    (Nat.le_of_not_lt fun h => hi.2 j h hj.1)

theorem HasEndSignature.le {s : Bytes} {offset : Nat} (h : HasEndSignature s offset) :
    offset + 4 ≤ s.length := by
  have hlength := congrArg List.length h
  rw [slice, List.length_take, List.length_drop, Nat.add_sub_cancel_left] at hlength
  have hfour : zipEndSignature.length = 4 := rfl
  omega

/-- Two signatures do not overlap: the first byte of one is none of the others of another. -/
theorem HasEndSignature.apart {s : Bytes} {i j : Nat} (hi : HasEndSignature s i)
    (hj : HasEndSignature s j) (hlt : i < j) : i + 4 ≤ j := by
  by_contra hnear
  obtain ⟨k, rfl⟩ : ∃ k, j = i + k := ⟨j - i, by omega⟩
  have hk : k < 4 := by omega
  have hfirst : s[i + k]? = some 0x50 := getElem?_of_slice (t := zipEndSignature) hj (k := 0) (by decide)
  have hinside : s[i + k]? = some (zipEndSignature[k]) := getElem?_of_slice (t := zipEndSignature) hi hk
  have hbyte : zipEndSignature[k] = 0x50 := Option.some.inj (hinside.symm.trans hfirst)
  have honly : ∀ k : Fin 4, 0 < k.val → zipEndSignature[k] ≠ 0x50 := by decide
  exact honly ⟨k, hk⟩ (by show 0 < k; omega) hbyte

theorem lastBefore_succ (s : Bytes) (n : Nat) :
    (HasEndSignature s n ∧ lastBefore s zipEndSignature (n + 1) = some n) ∨
      (¬HasEndSignature s n ∧
        lastBefore s zipEndSignature (n + 1) = lastBefore s zipEndSignature n) := by
  by_cases h : HasEndSignature s n
  · exact .inl ⟨h, if_pos h⟩
  · exact .inr ⟨h, if_neg h⟩

theorem lastBefore_eq_some {s : Bytes} {n i : Nat} (h : lastBefore s zipEndSignature n = some i) :
    i < n ∧ HasEndSignature s i ∧ ∀ j, i < j → j < n → ¬HasEndSignature s j := by
  induction n with
  | zero => cases h
  | succ n ih =>
    rcases lastBefore_succ s n with ⟨hhere, heq⟩ | ⟨hnot, heq⟩
    · rw [heq] at h
      cases h
      exact ⟨Nat.lt_succ_self _, hhere, fun j hlow hhigh => by omega⟩
    · obtain ⟨hlt, hhas, hlast⟩ := ih (heq ▸ h)
      refine ⟨by omega, hhas, fun j hlow hhigh => ?_⟩
      rcases Nat.lt_succ_iff_lt_or_eq.mp hhigh with hj | rfl
      · exact hlast j hlow hj
      · exact hnot

theorem lastBefore_eq_none {s : Bytes} {n : Nat} (h : lastBefore s zipEndSignature n = none) :
    ∀ j < n, ¬HasEndSignature s j := by
  induction n with
  | zero => exact fun j hj => absurd hj (Nat.not_lt_zero j)
  | succ n ih =>
    rcases lastBefore_succ s n with ⟨-, heq⟩ | ⟨hnot, heq⟩
    · rw [heq] at h
      cases h
    · intro j hj
      rcases Nat.lt_succ_iff_lt_or_eq.mp hj with hj | rfl
      · exact ih (heq ▸ h) j hj
      · exact hnot

/-- `rfind` returns the last signature before the given end. -/
theorem rfind_eq_some {s : Bytes} {stop i : Nat} (h : rfind s zipEndSignature stop = some i) :
    i + 4 ≤ stop ∧ HasEndSignature s i ∧ ∀ j, i < j → j + 4 ≤ stop → ¬HasEndSignature s j := by
  have hfour : zipEndSignature.length = 4 := rfl
  obtain ⟨hlt, hhas, hlast⟩ := lastBefore_eq_some h
  exact ⟨by omega, hhas, fun j hlow hhigh => hlast j hlow (by omega)⟩

theorem rfind_eq_none {s : Bytes} {stop : Nat} (h : rfind s zipEndSignature stop = none) {j : Nat}
    (hj : j + 4 ≤ stop) : ¬HasEndSignature s j := by
  have hfour : zipEndSignature.length = 4 := rfl
  exact lastBefore_eq_none h j (by omega)

/-- In the whole of a text `rfind` returns the last signature. -/
theorem rfind_isLast {s : Bytes} {i : Nat} :
    rfind s zipEndSignature s.length = some i ↔ IsLast (HasEndSignature s) i := by
  have hsome : ∀ {i}, rfind s zipEndSignature s.length = some i → IsLast (HasEndSignature s) i := by
    intro i h
    obtain ⟨-, hhas, hlast⟩ := rfind_eq_some h
    exact ⟨hhas, fun j hlt hj => hlast j hlt hj.le hj⟩
  refine ⟨hsome, fun h => ?_⟩
  cases hfound : rfind s zipEndSignature s.length with
  | none => exact absurd h.1 (rfind_eq_none hfound h.1.le)
  | some j => rw [(hsome hfound).unique h]

/-! ## The search of the preflight -/

/-- The comment of a record reaches exactly to the end. -/
def ReachesEnd (s : Bytes) (offset : Nat) : Prop :=
  offset + zipEndSize + commentSize s offset = s.length

/-- A signature that the preflight takes. -/
def IsEndRecord (s : Bytes) (offset : Nat) : Prop := HasEndSignature s offset ∧ ReachesEnd s offset

/-- What is found is the last record. The signatures from `searchEnd` on are passed already. -/
theorem searchEndRecord_spec {tail : Bytes} {start turns searchEnd : Nat} {record : ZipEndRecord}
    (hpassed : ∀ j, IsEndRecord tail j → j + 4 ≤ searchEnd)
    (h : searchEndRecord tail start turns searchEnd = .ok record) :
    ∃ offset, IsLast (IsEndRecord tail) offset ∧ endRecordAt tail start offset = .ok record := by
  induction turns generalizing searchEnd with
  | zero => cases h
  | succ turns ih =>
    rw [searchEndRecord] at h
    cases hfound : rfind tail zipEndSignature searchEnd with
    | none =>
      rw [hfound] at h
      cases h
    | some offset =>
      obtain ⟨-, hhas, hlast⟩ := rfind_eq_some hfound
      rw [hfound] at h
      have hupto : ∀ j, IsEndRecord tail j → j ≤ offset := fun j hj =>
        Nat.le_of_not_lt fun hlt => hlast j hlt (hpassed j hj) hj.1
      have hnext : ¬ReachesEnd tail offset → ∀ j, IsEndRecord tail j → j + 4 ≤ offset := by
        intro hshort j hj
        rcases Nat.lt_or_eq_of_le (hupto j hj) with hlt | rfl
        · exact hj.1.apart hhas hlt
        · exact absurd hj.2 hshort
      dsimp only at h
      split at h
      · rename_i hcut
        exact ih (hnext (by unfold ReachesEnd; omega)) h
      · split at h
        · rename_i hshort
          exact ih (hnext hshort) h
        · rename_i hreach
          refine ⟨offset, ⟨⟨hhas, by unfold ReachesEnd; omega⟩, fun j hlt hj => ?_⟩, h⟩
          exact absurd (hupto j hj) (Nat.not_le_of_lt hlt)

theorem endRecordAt_eq_ok {tail : Bytes} {start offset : Nat} {record : ZipEndRecord}
    (h : endRecordAt tail start offset = .ok record) :
    ¬(20 ≤ offset ∧ slice tail (offset - 20) (offset - 16) = zip64LocatorSignature) ∧
      record =
        { entries := unsigned tail (offset + 10) 2
          directorySize := unsigned tail (offset + 12) 4
          directoryOffset := unsigned tail (offset + 16) 4
          recordOffset := start + offset } := by
  obtain ⟨hlocator, h⟩ := require_bind_eq_ok.mp h
  obtain ⟨-, h⟩ := require_bind_eq_ok.mp h
  obtain ⟨-, h⟩ := require_bind_eq_ok.mp h
  exact ⟨hlocator, (pure_eq_ok.mp h).symm⟩

/-- The record of a file at a place of its final bytes. -/
def recordOf (file : Bytes) (offset : Nat) : ZipEndRecord :=
  { entries := unsigned file (file.length - zipTailSize + offset + 10) 2
    directorySize := unsigned file (file.length - zipTailSize + offset + 12) 4
    directoryOffset := unsigned file (file.length - zipTailSize + offset + 16) 4
    recordOffset := file.length - zipTailSize + offset }

/-- What the preflight reads is the last record of the final bytes, without a ZIP64 locator there. -/
theorem readZipEndRecord_eq_ok {file : Bytes} {record : ZipEndRecord}
    (h : readZipEndRecord file file.length = .ok record) :
    zipEndSize ≤ file.length ∧ ∃ offset, IsLast (IsEndRecord (finalBytes file)) offset ∧
      ¬(20 ≤ offset ∧
        slice (finalBytes file) (offset - 20) (offset - 16) = zip64LocatorSignature) ∧
      record = recordOf file offset := by
  obtain ⟨hsize, h⟩ := require_bind_eq_ok.mp h
  obtain ⟨-, h⟩ := require_bind_eq_ok.mp h
  have hstart : file.length - min file.length zipTailSize = file.length - zipTailSize := by omega
  rw [hstart] at h
  have h : searchEndRecord (finalBytes file) (file.length - zipTailSize)
      ((finalBytes file).length + 1) (finalBytes file).length = .ok record := h
  obtain ⟨offset, hlast, hrecord⟩ := searchEndRecord_spec (fun j hj => hj.1.le) h
  obtain ⟨hlocator, rfl⟩ := endRecordAt_eq_ok hrecord
  refine ⟨hsize, offset, hlast, hlocator, ?_⟩
  simp only [recordOf, unsigned_finalBytes, Nat.add_assoc]

/-! ## The search of `zipfile` -/

/-- Where the file ends without a comment, both see that record. -/
theorem PlainEnd.isLast {file : Bytes} (hsize : zipEndSize ≤ file.length) (h : PlainEnd file) :
    IsLast (IsEndRecord (finalBytes file)) ((finalBytes file).length - zipEndSize) := by
  obtain ⟨hsignature, hcomment⟩ := h
  have hlength := length_finalBytes file
  have htail := zipEndSize_le
  have hend : zipEndSize = 22 := rfl
  have hcommentSize : commentSize (finalBytes file) ((finalBytes file).length - zipEndSize) = 0 := by
    have hstart : file.length - zipTailSize + ((finalBytes file).length - zipEndSize + 20) =
        file.length - 2 := by omega
    have hstop : file.length - zipTailSize + ((finalBytes file).length - zipEndSize + 20 + 2) =
        file.length := by omega
    rw [commentSize, unsigned, slice_finalBytes, hstart, hstop, hcomment]
    rfl
  refine ⟨⟨?_, ?_⟩, fun later hlater hrecord => ?_⟩
  · have hstart : file.length - zipTailSize + ((finalBytes file).length - zipEndSize) =
        file.length - zipEndSize := by omega
    rw [HasEndSignature, slice_finalBytes, ← Nat.add_assoc, hstart, hsignature]
  · unfold ReachesEnd
    omega
  · have hreach := hrecord.2
    unfold ReachesEnd at hreach
    omega

/-- With a plain end `zipfile` reads that record. -/
theorem zipfileEndRecord_of_plain {file : Bytes} (hsize : zipEndSize ≤ file.length)
    (h : PlainEnd file) :
    zipfileEndRecord file = some (recordOf file ((finalBytes file).length - zipEndSize)) := by
  have hlength := length_finalBytes file
  have hoffset : file.length - zipTailSize + ((finalBytes file).length - zipEndSize) =
      file.length - zipEndSize := by
    have htail := zipEndSize_le
    omega
  rw [zipfileEndRecord, zipfileOffset, if_neg (Nat.not_lt.mpr hsize), if_pos h, Option.bind_some,
    if_neg (by omega), recordOf, hoffset]

/-- Otherwise it reads the one at the last signature, if the file has so many bytes. -/
theorem zipfileEndRecord_of_last {file : Bytes} (hsize : zipEndSize ≤ file.length)
    (h : ¬PlainEnd file) {offset : Nat}
    (hlast : IsLast (HasEndSignature (finalBytes file)) offset) :
    zipfileEndRecord file =
      if file.length < file.length - zipTailSize + offset + zipEndSize then none
      else some (recordOf file offset) := by
  rw [zipfileEndRecord, zipfileOffset, if_neg (Nat.not_lt.mpr hsize), if_neg h,
    rfind_isLast.mpr hlast, Option.map_some, Option.bind_some, recordOf]

theorem recordOf_injective {file : Bytes} {i j : Nat} (h : recordOf file i = recordOf file j) :
    i = j :=
  Nat.add_left_cancel (congrArg ZipEndRecord.recordOffset h)

/-! ## Agreement -/

/-- The last signature is that of a record whose comment reaches the end. -/
def LastSignatureReachesEnd (file : Bytes) : Prop :=
  ∀ offset, IsLast (HasEndSignature (finalBytes file)) offset →
    ReachesEnd (finalBytes file) offset

/-- A record so early in the final bytes that a locator before it lies outside of them has none. -/
def NoLocatorOutside (file : Bytes) : Prop :=
  ∀ offset < 20, IsLast (IsEndRecord (finalBytes file)) offset →
    ¬Zip64Located file (file.length - zipTailSize + offset)

theorem zipfileEndRecord_iff {file : Bytes} (hsize : zipEndSize ≤ file.length) {offset : Nat}
    (hlast : IsLast (IsEndRecord (finalBytes file)) offset) :
    zipfileEndRecord file = some (recordOf file offset) ↔
      PlainEnd file ∨ LastSignatureReachesEnd file := by
  by_cases hplain : PlainEnd file
  · rw [zipfileEndRecord_of_plain hsize hplain, (hplain.isLast hsize).unique hlast]
    exact iff_of_true rfl (.inl hplain)
  · have hsome : ∃ last, IsLast (HasEndSignature (finalBytes file)) last := by
      cases hfound : rfind (finalBytes file) zipEndSignature (finalBytes file).length with
      | none => exact absurd hlast.1.1 (rfind_eq_none hfound hlast.1.1.le)
      | some last => exact ⟨last, rfind_isLast.mp hfound⟩
    obtain ⟨last, hsignature⟩ := hsome
    rw [zipfileEndRecord_of_last hsize hplain hsignature, or_iff_right hplain]
    constructor
    · intro h
      split at h
      · cases h
      · obtain rfl := recordOf_injective (Option.some.inj h)
        intro other hother
        rw [hother.unique hsignature]
        exact hlast.1.2
    · intro h
      have hreach := h last hsignature
      have hrecord : IsLast (IsEndRecord (finalBytes file)) last :=
        ⟨⟨hsignature.1, hreach⟩, fun later hlater hj => hsignature.2 later hlater hj.1⟩
      have hlength := length_finalBytes file
      unfold ReachesEnd at hreach
      rw [hrecord.unique hlast] at hreach ⊢
      exact if_neg (by omega)

/-- A record that the preflight has checked for a locator in the final bytes. -/
theorem not_located_iff {file : Bytes} {offset : Nat}
    (hlast : IsLast (IsEndRecord (finalBytes file)) offset)
    (hlocator : ¬(20 ≤ offset ∧
      slice (finalBytes file) (offset - 20) (offset - 16) = zip64LocatorSignature)) :
    ¬Zip64Located file (file.length - zipTailSize + offset) ↔ NoLocatorOutside file := by
  constructor
  · intro h other _ hother
    rw [hother.unique hlast]
    exact h
  · intro h
    rcases Nat.lt_or_ge offset 20 with hlt | hge
    · exact h offset hlt hlast
    · rintro ⟨-, hlocated⟩
      refine hlocator ⟨hge, ?_⟩
      rw [slice_finalBytes, ← Nat.add_sub_assoc hge, ← Nat.add_sub_assoc (by omega), hlocated]

/-- Of an accepted file the record that is used is the one that was checked, without a ZIP64 record
in its place, exactly when the file ends with a record without a comment or the comment of the last
signature reaches the end, and no locator lies outside of the final bytes. -/
theorem preflight_checked_iff (file : Bytes) (limits : ZipLimits)
    (h : preflightZip file file.length limits = .ok ()) :
    Checked file ↔ (PlainEnd file ∨ LastSignatureReachesEnd file) ∧ NoLocatorOutside file := by
  obtain ⟨record, hrecord, -⟩ := bind_eq_ok.mp h
  obtain ⟨hsize, offset, hlast, hlocator, rfl⟩ := readZipEndRecord_eq_ok hrecord
  rw [← zipfileEndRecord_iff hsize hlast, ← not_located_iff hlast hlocator]
  constructor
  · rintro ⟨record, hrecord', hused⟩
    rw [hrecord] at hrecord'
    cases hrecord'
    exact hused
  · exact fun hused => ⟨_, hrecord, hused⟩

/-! ## Samples -/

def sampleLimits : ZipLimits := ⟨16, 4 * 1024 * 1024⟩

/-- An end record with the given counts and sizes. -/
def endRecordBytes (entries size offset comment : Nat) : Bytes :=
  zipEndSignature ++ [0, 0, 0, 0] ++ little 2 entries ++ little 2 entries ++ little 4 size ++
    little 4 offset ++ little 2 comment

/-- An empty archive with a comment of one byte. -/
def commentedArchive : Bytes := endRecordBytes 0 0 0 1 ++ [0x21]

/-- An empty archive whose comment holds a record of 17 entries, with a comment size past the end. -/
def smuggledArchive : Bytes := endRecordBytes 0 0 0 22 ++ endRecordBytes 17 0 0 1

theorem commentedArchive_last : LastSignatureReachesEnd commentedArchive := by
  intro offset hoffset
  have hfound : rfind (finalBytes commentedArchive) zipEndSignature
      (finalBytes commentedArchive).length = some 0 := by decide
  rw [hoffset.unique (rfind_isLast.mp hfound)]
  unfold ReachesEnd
  decide

theorem preflight_checked_iff_sample : Checked commentedArchive :=
  (preflight_checked_iff commentedArchive sampleLimits (by decide)).mpr
    ⟨.inr commentedArchive_last, fun offset hearly _ hlocated => absurd hlocated.1
      (Nat.not_le_of_lt (by
        rw [show commentedArchive.length - zipTailSize = 0 by decide, Nat.zero_add]
        exact hearly))⟩

/-- The record in the comment is used and not checked. -/
theorem smuggled_record_used : ¬∀ (file : Bytes) (limits : ZipLimits),
    preflightZip file file.length limits = .ok () → Checked file := by
  intro h
  obtain ⟨record, hrecord, hused, -⟩ := h smuggledArchive sampleLimits (by decide)
  have hchecked : readZipEndRecord smuggledArchive smuggledArchive.length = .ok ⟨0, 0, 0, 0⟩ := by
    decide
  have hother : zipfileEndRecord smuggledArchive = some ⟨17, 0, 0, 22⟩ := by decide
  rw [hchecked] at hrecord
  cases hrecord
  rw [hother] at hused
  cases hused

end Makolet.Parsing
