import Makolet.Export.Parquet

/-!
# The metadata of a Parquet file

The metadata the writer emits are encodings of the compact protocol: `Encodes bytes fields` says
that the bytes are those of a struct with these fields, whose numbers fit their types. Each function
of the writer has its fields here.
-/

set_option autoImplicit false

namespace Makolet.Export

open Makolet.Lib
open Makolet.Lib.Compact (Value Width Kind encode encodeFields lastId WritableFields Writable)

/-! ## Varints -/

theorem unsignedVarintLoop_eq (fuel value : Nat) (h : value < fuel) :
    unsignedVarintLoop fuel value = varint value := by
  induction fuel generalizing value with
  | zero => omega
  | succ fuel ih =>
    have hlow : value &&& 0x7F = value % 128 := Nat.and_two_pow_sub_one_eq_mod value 7
    have hshift : value >>> 7 = value / 128 := Nat.shiftRight_eq_div_pow value 7
    have hhigh : value % 128 ||| 0x80 = value % 128 + 128 := by
      have hor : 2 ^ 7 * 1 + value % 128 = 2 ^ 7 * 1 ||| value % 128 :=
        Nat.two_pow_add_eq_or_of_lt (Nat.mod_lt value (by decide)) 1
      rw [Nat.or_comm, Nat.add_comm]
      exact hor.symm
    rw [unsignedVarintLoop, hlow, hshift]
    by_cases hsmall : value < 128
    · rw [if_pos (by omega), varint_of_lt hsmall, Nat.mod_eq_of_lt hsmall]
    · rw [if_neg (by omega), varint_of_le (by omega), hhigh, ih (value / 128) (by omega)]

theorem unsignedVarint_eq (value : Nat) : unsignedVarint value = varint value :=
  unsignedVarintLoop_eq (value + 1) value (Nat.lt_succ_self value)

/-- The shifts compute the zigzag form of the numbers of 64 bits. -/
theorem signedVarint_eq {value : Int} (h : Signed 64 value) :
    signedVarint value = varint (zigzag value) := by
  have hhigh (n : Nat) (hn : n < 2 ^ 63) : n >>> 63 = 0 := by
    rw [Nat.shiftRight_eq_div_pow]
    exact Nat.div_eq_of_lt hn
  have hxor : (Int.xor (value <<< (1 : Nat)) (value >>> (63 : Nat))).toNat = zigzag value := by
    obtain ⟨hlow, hlt⟩ := h
    cases value with
    | ofNat n =>
      have hl : Int.ofNat n <<< (1 : Nat) = Int.ofNat (2 * n) := by
        rw [Int.shiftLeft_eq]
        simp only [Int.ofNat_eq_natCast]
        omega
      have hr : Int.ofNat n >>> (63 : Nat) = Int.ofNat (n >>> 63) := rfl
      rw [hl, hr, hhigh n (by simp only [Int.ofNat_eq_natCast] at hlt; omega)]
      show 2 * n ^^^ 0 = zigzag n
      rw [Nat.xor_zero, zigzag_natCast]
    | negSucc n =>
      have hl : Int.negSucc n <<< (1 : Nat) = Int.negSucc (2 * n + 1) := by
        rw [Int.shiftLeft_eq]
        omega
      have hr : Int.negSucc n >>> (63 : Nat) = Int.negSucc (n >>> 63) := rfl
      rw [hl, hr, hhigh n (by omega)]
      show (2 * n + 1) ^^^ 0 = zigzag (Int.negSucc n)
      rw [Nat.xor_zero, zigzag, if_neg (by omega)]
      omega
  rw [signedVarint, unsignedVarint_eq, hxor]

/-! ## Structs -/

/-- The encoding of a struct whose fields fit their types. -/
def Encodes (bytes : Bytes) (fields : List (Int × Value)) : Prop :=
  bytes = encode (.struct fields) ∧ WritableFields fields

/-- What has been written of a struct are these fields. -/
structure CompactStruct.Holds (s : CompactStruct) (fields : List (Int × Value)) : Prop where
  buffer : s.buffer = encodeFields 0 fields
  last : (s.lastFieldId : Int) = lastId 0 fields
  writable : WritableFields fields

theorem shiftLeft_or {n code : Nat} (h : code < 16) : (n <<< 4) ||| code = 16 * n + code := by
  rw [← Nat.shiftLeft_add_eq_or_of_lt (i := 4) h, Nat.shiftLeft_eq, Nat.mul_comm]

theorem CompactType.code_lt (t : CompactType) : t.code < 16 := by
  cases t <;> decide

namespace CompactStruct

variable {s : CompactStruct} {fields : List (Int × Value)} {id : Nat}

theorem holds_empty : empty.Holds [] := ⟨rfl, rfl, trivial⟩

theorem Holds.finish (h : s.Holds fields) : Encodes s.finish fields := by
  constructor
  · rw [CompactStruct.finish, h.buffer, encode]
    rfl
  · exact h.writable

/-- The header of a field. -/
theorem fieldHeader_buffer (h : s.Holds fields) (hid : id < 2 ^ 15) (t : CompactType) :
    (s.fieldHeader id t).buffer =
      encodeFields 0 fields ++ Compact.fieldHeader (lastId 0 fields) id t.code := by
  have hlong : signedVarint id = varint (zigzag id) :=
    signedVarint_eq ((signed_natCast hid : Signed 16 id).mono (by decide))
  rw [fieldHeader, Compact.fieldHeader, ← h.last, ← h.buffer, hlong]
  simp only [shiftLeft_or t.code_lt]

/-- A field after those that are written. -/
theorem Holds.field (h : s.Holds fields) (hid : id < 2 ^ 15) {t : CompactType} {v : Value}
    {body : Bytes} (hcode : t.code = v.code) (hkind : v.kind ≠ .bool) (hbody : body = encode v)
    (hv : Writable v) : ((s.fieldHeader id t).extend body).Holds (fields ++ [((id : Int), v)]) where
  buffer := by
    rw [Compact.encodeFields_append, extend, fieldHeader_buffer h hid, if_neg hkind, hcode, hbody,
      List.append_assoc]
  last := by
    rw [Compact.lastId_append]
    rfl
  writable := Compact.writableFields_append h.writable (signed_natCast hid) hv

theorem Holds.i16 (h : s.Holds fields) (hid : id < 2 ^ 15) {n : Int} (hn : Signed 16 n) :
    (s.i16 id n).Holds (fields ++ [((id : Int), .int .w16 n)]) :=
  h.field hid rfl (by simp [Value.kind]) (signedVarint_eq (hn.mono (by decide))) hn

theorem Holds.i32 (h : s.Holds fields) (hid : id < 2 ^ 15) {n : Int} (hn : Signed 32 n) :
    (s.i32 id n).Holds (fields ++ [((id : Int), .int .w32 n)]) :=
  h.field hid rfl (by simp [Value.kind]) (signedVarint_eq (hn.mono (by decide))) hn

theorem Holds.i64 (h : s.Holds fields) (hid : id < 2 ^ 15) {n : Int} (hn : Signed 64 n) :
    (s.i64 id n).Holds (fields ++ [((id : Int), .int .w64 n)]) :=
  h.field hid rfl (by simp [Value.kind]) (signedVarint_eq hn) hn

theorem Holds.binary (h : s.Holds fields) (hid : id < 2 ^ 15) (bytes : Bytes) :
    (s.binary id bytes).Holds (fields ++ [((id : Int), .binary bytes)]) :=
  h.field hid rfl (by simp [Value.kind]) (by rw [unsignedVarint_eq, encode]) trivial

theorem Holds.string (h : s.Holds fields) (hid : id < 2 ^ 15) (text : List Char) :
    (s.string id text).Holds (fields ++ [((id : Int), .binary (utf8 text))]) :=
  h.binary hid (utf8 text)

theorem Holds.struct (h : s.Holds fields) (hid : id < 2 ^ 15) {bytes : Bytes}
    {inner : List (Int × Value)} (hinner : Encodes bytes inner) :
    (s.struct id bytes).Holds (fields ++ [((id : Int), .struct inner)]) :=
  h.field hid rfl (by simp [Value.kind]) hinner.1 hinner.2

theorem listHeader_eq {t : CompactType} {k : Kind} (h : t.code = k.code) (size : Nat) :
    listHeader t size = Compact.listHeader k size := by
  have hlong : 0xF0 ||| t.code = 240 + t.code := shiftLeft_or (n := 15) t.code_lt
  rw [listHeader, Compact.listHeader, shiftLeft_or t.code_lt, hlong, unsignedVarint_eq, h]

/-- A list of elements of one kind. -/
theorem Holds.list (h : s.Holds fields) (hid : id < 2 ^ 15) {t : CompactType} {k : Kind}
    (hcode : t.code = k.code) (values : List Value) (hkind : ∀ v ∈ values, v.kind = k)
    (hvalues : ∀ v ∈ values, Writable v) {body : Bytes} (hbody : body = values.flatMap encode) :
    ((s.fieldHeader id .list).extend (listHeader t values.length ++ body)).Holds
      (fields ++ [((id : Int), .list k values)]) := by
  refine h.field hid rfl (by simp [Value.kind]) ?_ ?_
  · rw [encode, Compact.encodeAll_eq_flatMap, listHeader_eq hcode, hbody]
  · exact Compact.writableAll_iff.2 fun v hv => ⟨hkind v hv, hvalues v hv⟩

theorem Holds.listI32 (h : s.Holds fields) (hid : id < 2 ^ 15) {values : List Int}
    (hvalues : ∀ n ∈ values, Signed 32 n) :
    (s.listI32 id values).Holds
      (fields ++ [((id : Int), .list (.int .w32) (values.map (.int .w32)))]) := by
  have hbody : values.flatMap signedVarint = (values.map (Value.int .w32)).flatMap encode := by
    rw [List.flatMap_map]
    exact List.flatMap_congr fun n hn => signedVarint_eq ((hvalues n hn).mono (by decide))
  have hwritable : ∀ v ∈ values.map (Value.int .w32), Writable v := by
    intro v hv
    obtain ⟨n, hn, rfl⟩ := List.mem_map.1 hv
    exact hvalues n hn
  have hlist := h.list hid (t := .i32) (k := .int .w32) rfl (values.map (.int .w32))
    (by simp [Value.kind]) hwritable hbody
  rwa [List.length_map] at hlist

theorem Holds.listBinary (h : s.Holds fields) (hid : id < 2 ^ 15) (values : List Bytes) :
    (s.listBinary id values).Holds
      (fields ++ [((id : Int), .list .binary (values.map .binary))]) := by
  have hbody : (values.flatMap fun value => unsignedVarint value.length ++ value) =
      (values.map Value.binary).flatMap encode := by
    rw [List.flatMap_map]
    exact List.flatMap_congr fun value _ => by rw [unsignedVarint_eq, encode]
  have hlist := h.list hid (t := .binary) (k := .binary) rfl (values.map .binary)
    (by simp [Value.kind]) (by simp [Writable]) hbody
  rwa [List.length_map] at hlist

theorem Holds.listStruct (h : s.Holds fields) (hid : id < 2 ^ 15) {values : List Bytes}
    {elements : List (List (Int × Value))} (hvalues : List.Forall₂ Encodes values elements) :
    (s.listStruct id values).Holds
      (fields ++ [((id : Int), .list .struct (elements.map .struct))]) := by
  have hbody : values.flatten = (elements.map Value.struct).flatMap encode := by
    induction hvalues with
    | nil => rfl
    | cons hvalue _ ih => rw [List.flatten_cons, List.map_cons, List.flatMap_cons, hvalue.1, ih]
  have hwritable : ∀ v ∈ elements.map Value.struct, Writable v := by
    clear hbody
    induction hvalues with
    | nil => simp
    | cons hvalue _ ih => simpa [Writable] using ⟨hvalue.2, by simpa [Writable] using ih⟩
  have hlist := h.list hid (t := .struct) (k := .struct) rfl (elements.map .struct)
    (by simp [Value.kind]) hwritable hbody
  rwa [List.length_map, ← hvalues.length_eq] at hlist

end CompactStruct

/-! ## The fields of the metadata -/

section Fields

open CompactStruct

def int32 (n : Nat) : Value := .int .w32 n

def int64 (n : Nat) : Value := .int .w64 n

theorem signed32 {n : Nat} (h : n < 2 ^ 31) : Signed 32 (n : Int) := signed_natCast h

theorem signed64 {n : Nat} (h : n < 2 ^ 31) : Signed 64 (n : Int) := (signed32 h).mono (by decide)

/-- What the reader knows of a string column beside its physical type. -/
def stringFields (field : ExportField) : List (Int × Value) :=
  if isStringType field.valueType then [(6, int32 0), (10, .struct [(1, .struct [])])] else []

def elementFields (field : ExportField) : List (Int × Value) :=
  [(1, int32 (physicalType field.valueType).code), (3, int32 (if field.nullable then 1 else 0)),
    (4, .binary (utf8 field.name))] ++ stringFields field

def rootFields (schema : ExportSchema) : List (Int × Value) :=
  [(4, .binary (utf8 "schema".toList)), (5, int32 schema.fields.length)]

def pageFields (rowCount pageSize : Nat) : List (Int × Value) :=
  [(1, int32 0), (2, int32 pageSize), (3, int32 pageSize),
    (5, .struct [(1, int32 rowCount), (2, int32 0), (3, int32 3), (4, int32 3)])]

def keyValueFields (item : List Char × List Char) : List (Int × Value) :=
  [(1, .binary (utf8 item.1)), (2, .binary (utf8 item.2))]

def columnFields (field : ExportField) (rowCount totalSize dataPageOffset : Nat) :
    List (Int × Value) :=
  [(1, int32 (physicalType field.valueType).code), (2, .list (.int .w32) [int32 0, int32 3]),
    (3, .list .binary [.binary (utf8 field.name)]), (4, int32 0), (5, int64 rowCount),
    (6, int64 totalSize), (7, int64 totalSize), (9, int64 dataPageOffset)]

def chunkFields (metadata : List (Int × Value)) : List (Int × Value) :=
  [(2, int64 0), (3, .struct metadata)]

def groupFields (chunks : List (List (Int × Value))) (totalSize rowCount fileOffset : Nat) :
    List (Int × Value) :=
  [(1, .list .struct (chunks.map .struct)), (2, int64 totalSize), (3, int64 rowCount),
    (5, int64 fileOffset), (6, int64 totalSize), (7, .int .w16 0)]

def fileFields (schema : ExportSchema) (rowCount : Nat) (groups : List (List (Int × Value))) :
    List (Int × Value) :=
  [(1, int32 1),
    (2, .list .struct ((rootFields schema :: schema.fields.map elementFields).map .struct)),
    (3, int64 rowCount), (4, .list .struct (groups.map .struct)),
    (5, .list .struct (((schemaMetadata schema).map keyValueFields).map .struct)),
    (6, .binary (utf8 createdBy))]

theorem physicalType_code_lt (t : ExportType) : (physicalType t).code < 2 ^ 31 := by
  cases t <;> decide

theorem physicalType_of_isStringType {t : ExportType} (h : isStringType t = true) :
    physicalType t = .byteArray := by
  cases t <;> first | rfl | exact absurd h (by decide)

theorem signed_nullable (nullable : Bool) : Signed 32 (if nullable then 1 else 0) := by
  cases nullable <;> decide

theorem fieldElement_encodes (field : ExportField) :
    Encodes (fieldElement field) (elementFields field) := by
  have hnull : ((if field.nullable then 1 else 0 : Nat) : Int) = if field.nullable then 1 else 0 := by
    split <;> rfl
  by_cases hstring : isStringType field.valueType = true
  · have hphysical := physicalType_of_isStringType hstring
    rw [fieldElement, if_pos hstring, elementFields, stringFields, if_pos hstring, hphysical,
      int32, int32, hnull]
    have hlogical : Encodes (empty.struct 1 empty.finish).finish [(1, .struct [])] :=
      (holds_empty.struct (by decide) holds_empty.finish).finish
    exact (((((holds_empty.i32 (by decide) (by decide)).i32 (by decide)
      (signed_nullable field.nullable)).string (by decide) field.name).i32 (by decide)
        (by decide)).struct (by decide) hlogical).finish
  · rw [fieldElement, if_neg hstring, elementFields, stringFields, if_neg hstring, List.append_nil,
      int32, int32, hnull]
    exact (((holds_empty.i32 (by decide) (signed32 (physicalType_code_lt _))).i32 (by decide)
      (signed_nullable field.nullable)).string (by decide) field.name).finish

theorem root_encodes {schema : ExportSchema} (h : schema.fields.length < 2 ^ 31) :
    Encodes (schemaElement "schema".toList none none (some schema.fields.length))
      (rootFields schema) :=
  ((holds_empty.string (by decide) "schema".toList).i32 (by decide) (signed32 h)).finish

theorem dataPageHeader_encodes {rowCount pageSize : Nat} (hrows : rowCount < 2 ^ 31)
    (hsize : pageSize < 2 ^ 31) :
    Encodes (dataPageHeader rowCount pageSize) (pageFields rowCount pageSize) := by
  have hdata : Encodes
      ((((empty.i32 1 rowCount).i32 2 Encoding.plain.code).i32 3 Encoding.rle.code).i32 4
        Encoding.rle.code).finish
      [(1, int32 rowCount), (2, int32 0), (3, int32 3), (4, int32 3)] :=
    ((((holds_empty.i32 (by decide) (signed32 hrows)).i32 (by decide) (by decide)).i32 (by decide)
      (by decide)).i32 (by decide) (by decide)).finish
  exact ((((holds_empty.i32 (by decide) (by decide)).i32 (by decide) (signed32 hsize)).i32
    (by decide) (signed32 hsize)).struct (by decide) hdata).finish

theorem keyValue_encodes (item : List Char × List Char) :
    Encodes (keyValue item.1 item.2) (keyValueFields item) :=
  ((holds_empty.string (by decide) item.1).string (by decide) item.2).finish

theorem columnMetadata_encodes (field : ExportField) {rowCount totalSize dataPageOffset : Nat}
    (hrows : rowCount < 2 ^ 31) (htotal : totalSize < 2 ^ 31) (hoffset : dataPageOffset < 2 ^ 31) :
    Encodes (columnMetadata (physicalType field.valueType) field.name rowCount totalSize
        dataPageOffset)
      (columnFields field rowCount totalSize dataPageOffset) := by
  have hencodings : ∀ n ∈ [(Encoding.plain.code : Int), Encoding.rle.code], Signed 32 n := by
    decide
  exact ((((((((holds_empty.i32 (by decide) (signed32 (physicalType_code_lt _))).listI32 (by decide)
    hencodings).listBinary (by decide) [utf8 field.name]).i32 (by decide) (by decide)).i64
      (by decide) (signed64 hrows)).i64 (by decide) (signed64 htotal)).i64 (by decide)
        (signed64 htotal)).i64 (by decide) (signed64 hoffset)).finish

theorem columnChunk_encodes {metadata : Bytes} {fields : List (Int × Value)}
    (h : Encodes metadata fields) : Encodes (columnChunk metadata) (chunkFields fields) :=
  ((holds_empty.i64 (by decide) (by decide)).struct (by decide) h).finish

theorem rowGroup_encodes {chunks : List Bytes} {fields : List (List (Int × Value))}
    (h : List.Forall₂ Encodes chunks fields) {totalSize rowCount fileOffset : Nat}
    (htotal : totalSize < 2 ^ 31) (hrows : rowCount < 2 ^ 31) (hoffset : fileOffset < 2 ^ 31) :
    Encodes (rowGroup chunks totalSize rowCount fileOffset)
      (groupFields fields totalSize rowCount fileOffset) :=
  ((((((holds_empty.listStruct (by decide) h).i64 (by decide) (signed64 htotal)).i64 (by decide)
    (signed64 hrows)).i64 (by decide) (signed64 hoffset)).i64 (by decide) (signed64 htotal)).i16
      (by decide) (by decide)).finish

theorem fileMetadata_encodes {schema : ExportSchema} {rowCount : Nat} {groups : List Bytes}
    {fields : List (List (Int × Value))} (hfields : schema.fields.length < 2 ^ 31)
    (hrows : rowCount < 2 ^ 31) (hgroups : List.Forall₂ Encodes groups fields) :
    Encodes (fileMetadata schema rowCount groups) (fileFields schema rowCount fields) := by
  have helements : List.Forall₂ Encodes
      (schemaElement "schema".toList none none (some schema.fields.length) ::
        schema.fields.map fieldElement)
      (rootFields schema :: schema.fields.map elementFields) := by
    refine .cons (root_encodes hfields) ?_
    rw [List.forall₂_map_left_iff, List.forall₂_map_right_iff, List.forall₂_same]
    exact fun field _ => fieldElement_encodes field
  have hkeys : List.Forall₂ Encodes
      ((schemaMetadata schema).map fun item => keyValue item.1 item.2)
      ((schemaMetadata schema).map keyValueFields) := by
    rw [List.forall₂_map_left_iff, List.forall₂_map_right_iff, List.forall₂_same]
    exact fun item _ => keyValue_encodes item
  exact ((((((holds_empty.i32 (by decide) (by decide)).listStruct (by decide) helements).i64
    (by decide) (signed64 hrows)).listStruct (by decide) hgroups).listStruct (by decide)
      hkeys).string (by decide) createdBy).finish

end Fields

end Makolet.Export
