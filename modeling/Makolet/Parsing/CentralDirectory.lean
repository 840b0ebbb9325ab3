import Makolet.Parsing.ZipDirectory

/-!
# The grammar of a central directory

What `_validate_central_directory` of `adapters/parsers/streams.py` accepts. An `ExtraField` and a
`CentralHeader` carry what is asked of them, and `validateEntries_ok_iff` says that a directory is
accepted exactly where it is the headers of so many members, one behind the other.
-/

set_option autoImplicit false

namespace Makolet.Parsing

open Makolet.Domain Makolet.Lib

/-! ## Headers -/

/-- A record of an extra field that is not ZIP64. -/
structure ExtraField where
  id : Nat
  data : Bytes
  id_lt : id < 256 ^ 2
  id_ne : id ≠ 1
  data_lt : data.length < 256 ^ 2

def ExtraField.bytes (f : ExtraField) : Bytes := little 2 f.id ++ (little 2 f.data.length ++ f.data)

def extraBytes (fields : List ExtraField) : Bytes := fields.flatMap ExtraField.bytes

/-- A central header of a member in front of the directory. `versions` stands for the versions, the
flags, the method, the time and the checksum, and `attributes` for both kinds of attributes. -/
structure CentralHeader (directoryOffset : Nat) where
  versions : Bytes
  compressedSize : Nat
  fileSize : Nat
  attributes : Bytes
  localHeaderOffset : Nat
  name : Bytes
  extra : List ExtraField
  comment : Bytes
  versions_length : versions.length = 16
  compressedSize_lt : compressedSize < 0xFFFFFFFF
  fileSize_lt : fileSize < 0xFFFFFFFF
  attributes_length : attributes.length = 6
  localHeaderOffset_lt : localHeaderOffset < 0xFFFFFFFF
  offset_lt : localHeaderOffset < directoryOffset
  name_lt : name.length < 256 ^ 2
  name_nul : 0 ∉ name
  extra_lt : (extraBytes extra).length < 256 ^ 2
  comment_lt : comment.length < 256 ^ 2

namespace CentralHeader

variable {directoryOffset : Nat}

/-- The bytes behind the fixed fields. -/
def tail (h : CentralHeader directoryOffset) : Bytes := h.name ++ (extraBytes h.extra ++ h.comment)

/-- A header on the disk with the number 0. -/
def bytes (h : CentralHeader directoryOffset) : Bytes :=
  zipCentralSignature ++ (h.versions ++ (little 4 h.compressedSize ++ (little 4 h.fileSize ++
    (little 2 h.name.length ++ (little 2 (extraBytes h.extra).length ++
      (little 2 h.comment.length ++ (little 2 0 ++ (h.attributes ++
        (little 4 h.localHeaderOffset ++ h.tail)))))))))

end CentralHeader

def directoryBytes {directoryOffset : Nat} (headers : List (CentralHeader directoryOffset)) :
    Bytes :=
  headers.flatMap CentralHeader.bytes

/-! ## Fields of a text -/

/-- A field and the bytes behind it. -/
theorem drop_eq_slice_append (s : Bytes) (offset width : Nat) :
    s.drop offset = slice s offset (offset + width) ++ s.drop (offset + width) := by
  rw [slice, Nat.add_sub_cancel_left, ← List.drop_drop, List.take_append_drop]

theorem length_field {s : Bytes} {offset width : Nat} (h : offset + width ≤ s.length) :
    (slice s offset (offset + width)).length = width := by
  rw [length_slice h, Nat.add_sub_cancel_left]

theorem unsigned_lt {s : Bytes} {offset width : Nat} (h : offset + width ≤ s.length) :
    unsigned s offset width < 256 ^ width := by
  have hlt := ofLittle_lt (slice s offset (offset + width))
  rwa [length_field h] at hlt

theorem little_unsigned {s : Bytes} {offset width : Nat} (h : offset + width ≤ s.length) :
    little width (unsigned s offset width) = slice s offset (offset + width) := by
  have hread := little_ofLittle (slice s offset (offset + width))
  rwa [length_field h] at hread

/-- A number and the bytes behind it. -/
theorem drop_eq_little_append {s : Bytes} (offset width : Nat) (h : offset + width ≤ s.length) :
    s.drop offset = little width (unsigned s offset width) ++ s.drop (offset + width) := by
  rw [little_unsigned h, ← drop_eq_slice_append]

section Fields

variable {s p t : Bytes} {offset width : Nat}

theorem slice_of_drop (h : s.drop offset = p ++ t) (hp : p.length = width) :
    slice s offset (offset + width) = p := by
  rw [slice, h, Nat.add_sub_cancel_left, List.take_left' hp]

theorem drop_of_drop (h : s.drop offset = p ++ t) (hp : p.length = width) :
    s.drop (offset + width) = t := by
  rw [← List.drop_drop, h, List.drop_left' hp]

theorem unsigned_of_drop {n : Nat} (h : s.drop offset = little width n ++ t)
    (hn : n < 256 ^ width) : unsigned s offset width = n := by
  rw [unsigned, slice_of_drop h (length_little width n), ofLittle_little, Nat.mod_eq_of_lt hn]

/-- A field that is there lies in the text. -/
theorem le_of_drop (h : s.drop offset = p ++ t) (hp : 0 < p.length) :
    offset + p.length + t.length = s.length := by
  have hlength := congrArg List.length h
  rw [List.length_drop, List.length_append] at hlength
  omega

end Fields

/-! ## Extra fields -/

/-- One turn of the loop of `_reject_zip64_extra`: where the next turn begins. -/
def extraTurn (extra : Bytes) (cursor : Nat) : Except Failure (Option Nat) :=
  if cursor < extra.length then do
    require (cursor + 4 ≤ extra.length) (unsafeArchive "ZIP extra field is truncated")
    let fieldType := unsigned extra cursor 2
    let fieldEnd := cursor + 4 + unsigned extra (cursor + 2) 2
    require (fieldEnd ≤ extra.length) (unsafeArchive "ZIP extra field is truncated")
    require (fieldType ≠ 1) (unsafeArchive "ZIP64 archives are not supported")
    pure (some fieldEnd)
  else .ok none

/-- Every turn but the last goes forward in the field, by four bytes at least. -/
theorem extraTurn_forward {extra : Bytes} {cursor next : Nat}
    (h : extraTurn extra cursor = .ok (some next)) : cursor + 4 ≤ next ∧ next ≤ extra.length := by
  rw [extraTurn] at h
  split at h
  · obtain ⟨-, h⟩ := require_bind_eq_ok.1 h
    obtain ⟨hend, h⟩ := require_bind_eq_ok.1 h
    obtain ⟨-, h⟩ := require_bind_eq_ok.1 h
    obtain rfl := Option.some.inj (pure_eq_ok.1 h)
    exact ⟨Nat.le_add_right _ _, hend⟩
  · cases h

theorem extraTurn_wellFounded (extra : Bytes) :
    WellFounded fun next cursor => extraTurn extra cursor = .ok (some next) := by
  refine Subrelation.wf (r := InvImage (· < ·) fun cursor => extra.length - cursor) ?_
    (InvImage.wf _ Nat.lt_wfRel.wf)
  intro next cursor h
  obtain ⟨hlt, hle⟩ := extraTurn_forward h
  show extra.length - next < extra.length - cursor
  omega

/-- The loop makes its turns one after the other. -/
theorem rejectZip64Extra_succ (extra : Bytes) (turns cursor : Nat) :
    rejectZip64Extra extra (turns + 1) cursor = extraTurn extra cursor >>= fun next =>
      match next with
      | none => .ok ()
      | some next => rejectZip64Extra extra turns next := by
  rw [rejectZip64Extra, extraTurn]
  split
  · simp only [bind_assoc, pure_bind]
  · rfl

theorem extraTurn_none {extra : Bytes} {cursor : Nat} :
    extraTurn extra cursor = .ok none ↔ extra.length ≤ cursor := by
  rw [extraTurn]
  split
  · rename_i hlt
    refine iff_of_false (fun h => ?_) (Nat.not_le_of_lt hlt)
    obtain ⟨-, h⟩ := require_bind_eq_ok.1 h
    obtain ⟨-, h⟩ := require_bind_eq_ok.1 h
    obtain ⟨-, h⟩ := require_bind_eq_ok.1 h
    cases pure_eq_ok.1 h
  · rename_i hge
    exact iff_of_true rfl (Nat.le_of_not_lt hge)

/-- So many turns as there are bytes left are enough: more of them change nothing. -/
theorem rejectZip64Extra_enough {extra : Bytes} {turns cursor : Nat}
    (h : extra.length ≤ turns + cursor) :
    rejectZip64Extra extra (turns + 1) cursor = rejectZip64Extra extra turns cursor := by
  induction turns generalizing cursor with
  | zero =>
    rw [rejectZip64Extra_succ, extraTurn_none.2 (by omega)]
    rfl
  | succ turns ih =>
    rw [rejectZip64Extra_succ, rejectZip64Extra_succ extra turns]
    cases hturn : extraTurn extra cursor with
    | error e => rfl
    | ok next =>
      cases next with
      | none => rfl
      | some next =>
        have hforward := extraTurn_forward hturn
        exact ih (by omega)

theorem ExtraField.length_bytes (f : ExtraField) : f.bytes.length = 4 + f.data.length := by
  simp only [ExtraField.bytes, List.length_append, length_little]
  omega

/-- A turn goes over one record. -/
theorem extraTurn_some {extra : Bytes} {cursor next : Nat} :
    extraTurn extra cursor = .ok (some next) ↔
      ∃ f : ExtraField, extra.drop cursor = f.bytes ++ extra.drop next ∧
        next = cursor + f.bytes.length := by
  constructor
  · intro h
    rw [extraTurn] at h
    split at h
    · obtain ⟨hheader, h⟩ := require_bind_eq_ok.1 h
      obtain ⟨hend, h⟩ := require_bind_eq_ok.1 h
      obtain ⟨htype, h⟩ := require_bind_eq_ok.1 h
      obtain rfl := Option.some.inj (pure_eq_ok.1 h)
      obtain ⟨data, hdata, hlength⟩ : ∃ data, slice extra (cursor + 4)
          (cursor + 4 + unsigned extra (cursor + 2) 2) = data ∧
          data.length = unsigned extra (cursor + 2) 2 := ⟨_, rfl, length_field hend⟩
      have hlt : unsigned extra (cursor + 2) 2 < 256 ^ 2 := unsigned_lt (by omega)
      refine ⟨⟨unsigned extra cursor 2, data, unsigned_lt (by omega), htype, hlength ▸ hlt⟩, ?_, ?_⟩
      · rw [drop_eq_little_append cursor 2 (by omega),
          drop_eq_little_append (cursor + 2) 2 (by omega),
          drop_eq_slice_append extra (cursor + 4) (unsigned extra (cursor + 2) 2), hdata]
        simp only [ExtraField.bytes, hlength, List.append_assoc]
      · rw [ExtraField.length_bytes, hlength, Nat.add_assoc]
    · cases h
  · rintro ⟨f, hdrop, rfl⟩
    have hpos : 0 < f.bytes.length := by
      rw [f.length_bytes]
      omega
    have hle := le_of_drop hdrop hpos
    rw [ExtraField.bytes, List.append_assoc, List.append_assoc] at hdrop
    have hsize := drop_of_drop hdrop (length_little 2 f.id)
    have hlength := f.length_bytes
    rw [extraTurn, if_pos (by omega), unsigned_of_drop hdrop f.id_lt,
      unsigned_of_drop hsize f.data_lt, require_bind_of (by omega), require_bind_of (by omega),
      require_bind_of f.id_ne, hlength, Nat.add_assoc]
    rfl

/-- The loop accepts the records of the rest of the field. -/
theorem rejectZip64Extra_ok_iff {extra : Bytes} {turns cursor : Nat}
    (h : extra.length ≤ turns + cursor) :
    rejectZip64Extra extra turns cursor = .ok () ↔
      ∃ fields : List ExtraField, extra.drop cursor = extraBytes fields := by
  induction turns generalizing cursor with
  | zero =>
    rw [List.drop_of_length_le (by omega)]
    exact iff_of_true rfl ⟨[], rfl⟩
  | succ turns ih =>
    rw [rejectZip64Extra_succ, bind_eq_ok]
    constructor
    -- A turn either ends the loop at the end of the field or goes over one record.
    · rintro ⟨_ | next, hturn, hrest⟩
      · rw [List.drop_of_length_le (extraTurn_none.1 hturn)]
        exact ⟨[], rfl⟩
      · have hforward := extraTurn_forward hturn
        obtain ⟨f, hdrop, hnext⟩ := extraTurn_some.1 hturn
        obtain ⟨fields, hfields⟩ := (ih (by omega)).1 hrest
        exact ⟨f :: fields, by rw [hdrop, hfields]; rfl⟩
    · rintro ⟨_ | ⟨f, fields⟩, hdrop⟩
      · exact ⟨none, extraTurn_none.2 (List.drop_eq_nil_iff.1 hdrop), rfl⟩
      · have hrest : extra.drop (cursor + f.bytes.length) = extraBytes fields :=
          drop_of_drop hdrop rfl
        have hturn : extraTurn extra cursor = .ok (some (cursor + f.bytes.length)) :=
          extraTurn_some.2 ⟨f, by rw [hrest]; exact hdrop, rfl⟩
        have hforward := extraTurn_forward hturn
        exact ⟨_, hturn, (ih (by omega)).2 ⟨fields, hrest⟩⟩

/-! ## Headers of members -/

namespace CentralHeader

variable {directoryOffset : Nat} (h : CentralHeader directoryOffset)

theorem length_bytes : h.bytes.length =
    46 + h.name.length + (extraBytes h.extra).length + h.comment.length := by
  have hversions := h.versions_length
  have hattributes := h.attributes_length
  simp only [bytes, tail, zipCentralSignature, List.length_append, List.length_cons,
    List.length_nil, length_little]
  omega

theorem sizes_ne : 0xFFFFFFFF ∉ [h.compressedSize, h.fileSize, h.localHeaderOffset] := by
  have hcompressed := h.compressedSize_lt
  have hfile := h.fileSize_lt
  have hoffset := h.localHeaderOffset_lt
  simp only [List.mem_cons, List.not_mem_nil, or_false]
  omega

end CentralHeader

/-- An entry is accepted where a header stands. -/
theorem validateEntries_of_header {directory : Bytes} {record : ZipEndRecord} {left cursor : Nat}
    (h : CentralHeader record.directoryOffset) {t : Bytes}
    (hdrop : directory.drop cursor = h.bytes ++ t) :
    validateEntries directory record (left + 1) cursor =
      validateEntries directory record left (cursor + h.bytes.length) := by
  -- The fields are read one behind the other, each where the one before it ends.
  have hlength := h.length_bytes
  have hle := le_of_drop hdrop (by omega)
  simp only [CentralHeader.bytes, CentralHeader.tail, List.append_assoc] at hdrop
  have hsignature : zipCentralSignature.length = 4 := rfl
  have hversions := drop_of_drop hdrop hsignature
  have hcompressed := drop_of_drop hversions h.versions_length
  have hfile := drop_of_drop hcompressed (length_little 4 _)
  have hname := drop_of_drop hfile (length_little 4 _)
  have hextra := drop_of_drop hname (length_little 2 _)
  have hcomment := drop_of_drop hextra (length_little 2 _)
  have hdisk := drop_of_drop hcomment (length_little 2 _)
  have hattributes := drop_of_drop hdisk (length_little 2 _)
  have hoffset := drop_of_drop hattributes h.attributes_length
  have hnames := drop_of_drop hoffset (length_little 4 _)
  have hextras := drop_of_drop hnames rfl
  have hfour : 0xFFFFFFFF < 256 ^ 4 := by decide
  have hcompressedSize : unsigned directory (cursor + 20) 4 = h.compressedSize :=
    unsigned_of_drop hcompressed (Nat.lt_trans h.compressedSize_lt hfour)
  have hfileSize : unsigned directory (cursor + 24) 4 = h.fileSize :=
    unsigned_of_drop hfile (Nat.lt_trans h.fileSize_lt hfour)
  have hnameSize : unsigned directory (cursor + 28) 2 = h.name.length :=
    unsigned_of_drop hname h.name_lt
  have hextraSize : unsigned directory (cursor + 30) 2 = (extraBytes h.extra).length :=
    unsigned_of_drop hextra h.extra_lt
  have hcommentSize : unsigned directory (cursor + 32) 2 = h.comment.length :=
    unsigned_of_drop hcomment h.comment_lt
  have hdiskNumber : unsigned directory (cursor + 34) 2 = 0 := unsigned_of_drop hdisk (by decide)
  have hlocalOffset : unsigned directory (cursor + 42) 4 = h.localHeaderOffset :=
    unsigned_of_drop hoffset (Nat.lt_trans h.localHeaderOffset_lt hfour)
  have hnameSlice : slice directory (cursor + zipCentralSize)
      (cursor + zipCentralSize + h.name.length) = h.name := slice_of_drop hnames rfl
  have hextraSlice : slice directory (cursor + zipCentralSize + h.name.length)
      (cursor + zipCentralSize + h.name.length + (extraBytes h.extra).length) =
        extraBytes h.extra := slice_of_drop hextras rfl
  have hextraFields :
      rejectZip64Extra (extraBytes h.extra) (extraBytes h.extra).length 0 = .ok () :=
    (rejectZip64Extra_ok_iff (Nat.le_refl _)).2 ⟨h.extra, rfl⟩
  have hend : cursor + zipCentralSize + h.name.length + (extraBytes h.extra).length +
      h.comment.length = cursor + h.bytes.length := by
    rw [hlength, zipCentralSize]
    omega
  rw [validateEntries]
  simp only [hcompressedSize, hfileSize, hnameSize, hextraSize, hcommentSize, hdiskNumber,
    hlocalOffset, hnameSlice, hextraSlice, hextraFields, hend]
  rw [require_bind_of (by rw [zipCentralSize]; omega),
    require_bind_of (slice_of_drop hdrop hsignature), require_bind_of (by omega),
    require_bind_of trivial, require_bind_of h.sizes_ne, require_bind_of h.offset_lt,
    require_bind_of h.name_nul]
  rfl

/-- The fixed fields of a header and the bytes behind them. -/
theorem drop_eq_fixed_append {s : Bytes} {cursor : Nat} (h : cursor + zipCentralSize ≤ s.length) :
    s.drop cursor = slice s cursor (cursor + 4) ++ (slice s (cursor + 4) (cursor + 4 + 16) ++
      (little 4 (unsigned s (cursor + 20) 4) ++ (little 4 (unsigned s (cursor + 24) 4) ++
        (little 2 (unsigned s (cursor + 28) 2) ++ (little 2 (unsigned s (cursor + 30) 2) ++
          (little 2 (unsigned s (cursor + 32) 2) ++ (little 2 (unsigned s (cursor + 34) 2) ++
            (slice s (cursor + 36) (cursor + 36 + 6) ++ (little 4 (unsigned s (cursor + 42) 4) ++
              s.drop (cursor + zipCentralSize)))))))))) := by
  have hsize : zipCentralSize = 46 := rfl
  rw [drop_eq_slice_append s cursor 4, drop_eq_slice_append s (cursor + 4) 16,
    drop_eq_little_append (cursor + 20) 4 (by omega),
    drop_eq_little_append (cursor + 24) 4 (by omega),
    drop_eq_little_append (cursor + 28) 2 (by omega),
    drop_eq_little_append (cursor + 30) 2 (by omega),
    drop_eq_little_append (cursor + 32) 2 (by omega),
    drop_eq_little_append (cursor + 34) 2 (by omega),
    drop_eq_slice_append s (cursor + 36) 6,
    drop_eq_little_append (cursor + 42) 4 (by omega), Nat.add_assoc cursor 42 4]
  rfl

/-- The name, the extra field and the comment of a header, and the bytes behind them. -/
theorem drop_eq_slices_append (s : Bytes) (offset nameSize extraSize commentSize : Nat) :
    s.drop offset = slice s offset (offset + nameSize) ++
      (slice s (offset + nameSize) (offset + nameSize + extraSize) ++
        (slice s (offset + nameSize + extraSize) (offset + nameSize + extraSize + commentSize) ++
          s.drop (offset + nameSize + extraSize + commentSize))) := by
  rw [← drop_eq_slice_append, ← drop_eq_slice_append, ← drop_eq_slice_append]

/-- Where an entry is accepted there stands a header. -/
theorem exists_header_of_validateEntries {directory : Bytes} {record : ZipEndRecord}
    {left cursor : Nat} (h : validateEntries directory record (left + 1) cursor = .ok ()) :
    ∃ header : CentralHeader record.directoryOffset, ∃ t,
      directory.drop cursor = header.bytes ++ t := by
  rw [validateEntries] at h
  obtain ⟨hheader, h⟩ := require_bind_eq_ok.1 h
  obtain ⟨hsignature, h⟩ := require_bind_eq_ok.1 h
  obtain ⟨hentry, h⟩ := require_bind_eq_ok.1 h
  obtain ⟨hdisk, h⟩ := require_bind_eq_ok.1 h
  obtain ⟨hsizes, h⟩ := require_bind_eq_ok.1 h
  obtain ⟨hoffset, h⟩ := require_bind_eq_ok.1 h
  obtain ⟨hnul, h⟩ := require_bind_eq_ok.1 h
  -- The checks bound the numbers, and the extra field is the bytes of its records.
  obtain ⟨_, hextra, -⟩ := bind_eq_ok.1 h
  obtain ⟨fields, hfields⟩ := (rejectZip64Extra_ok_iff (by omega)).1 hextra
  rw [List.drop_zero] at hfields
  have hsize : zipCentralSize = 46 := rfl
  obtain ⟨name, hname, hnameLength⟩ : ∃ name, slice directory (cursor + zipCentralSize)
      (cursor + zipCentralSize + unsigned directory (cursor + 28) 2) = name ∧
      name.length = unsigned directory (cursor + 28) 2 := ⟨_, rfl, length_field (by omega)⟩
  have hextraLength : (extraBytes fields).length = unsigned directory (cursor + 30) 2 :=
    hfields ▸ length_field (by omega)
  obtain ⟨comment, hcomment, hcommentLength⟩ : ∃ comment, slice directory
      (cursor + zipCentralSize + unsigned directory (cursor + 28) 2 +
        unsigned directory (cursor + 30) 2)
      (cursor + zipCentralSize + unsigned directory (cursor + 28) 2 +
        unsigned directory (cursor + 30) 2 + unsigned directory (cursor + 32) 2) = comment ∧
      comment.length = unsigned directory (cursor + 32) 2 := ⟨_, rfl, length_field (by omega)⟩
  have hbehind := drop_eq_slices_append directory (cursor + zipCentralSize)
    (unsigned directory (cursor + 28) 2) (unsigned directory (cursor + 30) 2)
    (unsigned directory (cursor + 32) 2)
  rw [hname, hfields, hcomment] at hbehind
  rw [hname] at hnul
  have hnameLt : unsigned directory (cursor + 28) 2 < 256 ^ 2 := unsigned_lt (by omega)
  have hextraLt : unsigned directory (cursor + 30) 2 < 256 ^ 2 := unsigned_lt (by omega)
  have hcommentLt : unsigned directory (cursor + 32) 2 < 256 ^ 2 := unsigned_lt (by omega)
  have hcompressed : unsigned directory (cursor + 20) 4 < 256 ^ 4 := unsigned_lt (by omega)
  have hfile : unsigned directory (cursor + 24) 4 < 256 ^ 4 := unsigned_lt (by omega)
  have hlocal : unsigned directory (cursor + 42) 4 < 256 ^ 4 := unsigned_lt (by omega)
  simp only [List.mem_cons, List.not_mem_nil, or_false, not_or] at hsizes
  refine ⟨{
    versions := slice directory (cursor + 4) (cursor + 4 + 16)
    compressedSize := unsigned directory (cursor + 20) 4
    fileSize := unsigned directory (cursor + 24) 4
    attributes := slice directory (cursor + 36) (cursor + 36 + 6)
    localHeaderOffset := unsigned directory (cursor + 42) 4
    name := name
    extra := fields
    comment := comment
    versions_length := length_field (by omega)
    compressedSize_lt := by omega
    fileSize_lt := by omega
    attributes_length := length_field (by omega)
    localHeaderOffset_lt := by omega
    offset_lt := hoffset
    name_lt := hnameLength ▸ hnameLt
    name_nul := hnul
    extra_lt := hextraLength ▸ hextraLt
    comment_lt := hcommentLength ▸ hcommentLt }, directory.drop
      (cursor + zipCentralSize + unsigned directory (cursor + 28) 2 +
        unsigned directory (cursor + 30) 2 + unsigned directory (cursor + 32) 2), ?_⟩
  rw [drop_eq_fixed_append (by omega), hsignature, hdisk, hbehind]
  simp only [CentralHeader.bytes, CentralHeader.tail, hnameLength, hextraLength, hcommentLength,
    List.append_assoc]

/-- The loop accepts so many headers in the rest of the directory. -/
theorem validateEntries_drop {directory : Bytes} {record : ZipEndRecord} {left cursor : Nat}
    (h : cursor ≤ directory.length) :
    validateEntries directory record left cursor = .ok () ↔
      ∃ headers : List (CentralHeader record.directoryOffset), headers.length = left ∧
        directory.drop cursor = directoryBytes headers := by
  induction left generalizing cursor with
  | zero =>
    rw [validateEntries, require_eq_ok]
    constructor
    · rintro rfl
      exact ⟨[], rfl, List.drop_length⟩
    · rintro ⟨headers, hlength, hdrop⟩
      obtain rfl := List.length_eq_zero_iff.1 hlength
      exact Nat.le_antisymm h (List.drop_eq_nil_iff.1 hdrop)
  | succ left ih =>
    constructor
    · intro hok
      obtain ⟨header, t, hdrop⟩ := exists_header_of_validateEntries hok
      have hlength := header.length_bytes
      have hle := le_of_drop hdrop (by omega)
      rw [validateEntries_of_header header hdrop, ih (by omega), drop_of_drop hdrop rfl] at hok
      obtain ⟨headers, hcount, hheaders⟩ := hok
      exact ⟨header :: headers, congrArg (· + 1) hcount, by rw [hdrop, hheaders]; rfl⟩
    · rintro ⟨_ | ⟨header, headers⟩, hcount, hdrop⟩
      · cases hcount
      · have hlength := header.length_bytes
        have hdrop : directory.drop cursor = header.bytes ++ directoryBytes headers := hdrop
        have hle := le_of_drop hdrop (by omega)
        rw [validateEntries_of_header header hdrop, ih (by omega), drop_of_drop hdrop rfl]
        exact ⟨headers, Nat.succ.inj hcount, rfl⟩

/-- A directory is accepted exactly where it is so many headers one behind the other, and the loop
over an extra field comes to its end: it cannot turn for ever, and more turns than the field has
bytes change nothing. -/
theorem validateEntries_ok_iff (directory : Bytes) (record : ZipEndRecord) (entries : Nat) :
    (validateEntries directory record entries 0 = .ok () ↔
      ∃ headers : List (CentralHeader record.directoryOffset), headers.length = entries ∧
        directory = directoryBytes headers) ∧
      ∀ extra : Bytes,
        (WellFounded fun next cursor => extraTurn extra cursor = .ok (some next)) ∧
          ∀ more, rejectZip64Extra extra (extra.length + more) 0 =
            rejectZip64Extra extra extra.length 0 := by
  refine ⟨validateEntries_drop (Nat.zero_le _), fun extra => ⟨extraTurn_wellFounded extra, ?_⟩⟩
  intro more
  induction more with
  | zero => rfl
  | succ more ih => rw [← ih, ← Nat.add_assoc, rejectZip64Extra_enough (by omega)]

end Makolet.Parsing
