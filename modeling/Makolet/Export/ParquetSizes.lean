import Makolet.Export.ParquetFile

/-!
# The sizes of Parquet files

Metadata of larger numbers are not shorter, field by field. The bound that `ParquetBatchBudget`
computes for the largest batch of the limits, less the bytes of its pages, therefore holds for every
smaller batch.
-/

set_option autoImplicit false

namespace Makolet.Export

open Makolet.Lib

/-- The second struct is not shorter, and goes on from the same field. -/
structure CompactStruct.Le (s s' : CompactStruct) : Prop where
  length : s.buffer.length ≤ s'.buffer.length
  last : s.lastFieldId = s'.lastFieldId

theorem length_signedVarint_mono {m n : Nat} (h : m ≤ n) (hn : n < 2 ^ 63) :
    (signedVarint (m : Int)).length ≤ (signedVarint (n : Int)).length := by
  rw [signedVarint_eq (signed_natCast (by omega)), signedVarint_eq (signed_natCast (by omega)),
    zigzag_natCast, zigzag_natCast]
  exact length_varint_mono (by omega)

namespace CompactStruct

variable {s s' : CompactStruct}

theorem Le.refl (s : CompactStruct) : s.Le s := ⟨Nat.le_refl _, rfl⟩

theorem Le.finish (h : s.Le s') : s.finish.length ≤ s'.finish.length := by
  have hlength := h.length
  simp only [CompactStruct.finish, List.length_append]
  omega

theorem Le.field (h : s.Le s') (id : Nat) (t : CompactType) {body body' : Bytes}
    (hbody : body.length ≤ body'.length) :
    ((s.fieldHeader id t).extend body).Le ((s'.fieldHeader id t).extend body') := by
  have hlength := h.length
  constructor
  · simp only [extend, fieldHeader, h.last, List.length_append]
    omega
  · rfl

theorem Le.i16 (h : s.Le s') (id : Nat) {m n : Nat} (hle : m ≤ n) (hn : n < 2 ^ 63) :
    (s.i16 id m).Le (s'.i16 id n) := h.field id .i16 (length_signedVarint_mono hle hn)

theorem Le.i32 (h : s.Le s') (id : Nat) {m n : Nat} (hle : m ≤ n) (hn : n < 2 ^ 63) :
    (s.i32 id m).Le (s'.i32 id n) := h.field id .i32 (length_signedVarint_mono hle hn)

theorem Le.i64 (h : s.Le s') (id : Nat) {m n : Nat} (hle : m ≤ n) (hn : n < 2 ^ 63) :
    (s.i64 id m).Le (s'.i64 id n) := h.field id .i64 (length_signedVarint_mono hle hn)

theorem Le.struct (h : s.Le s') (id : Nat) {bytes bytes' : Bytes}
    (hbytes : bytes.length ≤ bytes'.length) : (s.struct id bytes).Le (s'.struct id bytes') :=
  h.field id .struct hbytes

theorem Le.listStruct (h : s.Le s') (id : Nat) {values values' : List Bytes}
    (hvalues : List.Forall₂ (fun v w => v.length ≤ w.length) values values') :
    (s.listStruct id values).Le (s'.listStruct id values') := by
  have hflatten : values.flatten.length ≤ values'.flatten.length := by
    induction hvalues with
    | nil => exact Nat.le_refl 0
    | cons hvalue _ ih =>
      rw [List.flatten_cons, List.flatten_cons, List.length_append, List.length_append]
      omega
  refine h.field id .list ?_
  rw [List.length_append, List.length_append, hvalues.length_eq]
  omega

end CompactStruct

/-! ## Metadata -/

section Metadata

open CompactStruct

variable {rowCount rowCount' : Nat} (hrows : rowCount ≤ rowCount') (hrows' : rowCount' < 2 ^ 63)

include hrows hrows'

theorem length_dataPageHeader_mono {pageSize pageSize' : Nat} (hsize : pageSize ≤ pageSize')
    (hsize' : pageSize' < 2 ^ 63) :
    (dataPageHeader rowCount pageSize).length ≤ (dataPageHeader rowCount' pageSize').length := by
  have hdata := (((((Le.refl empty).i32 1 hrows hrows').i32 2 (Nat.le_refl Encoding.plain.code)
    (by decide)).i32 3 (Nat.le_refl Encoding.rle.code) (by decide)).i32 4
      (Nat.le_refl Encoding.rle.code) (by decide)).finish
  exact (((((Le.refl empty).field 1 .i32 (Nat.le_refl _)).i32 2 hsize hsize').i32 3 hsize
    hsize').struct 5 hdata).finish

theorem length_columnMetadata_mono (field : ExportField) {totalSize totalSize' offset offset' : Nat}
    (htotal : totalSize ≤ totalSize') (htotal' : totalSize' < 2 ^ 63) (hoffset : offset ≤ offset')
    (hoffset' : offset' < 2 ^ 63) :
    (columnMetadata (physicalType field.valueType) field.name rowCount totalSize offset).length ≤
      (columnMetadata (physicalType field.valueType) field.name rowCount' totalSize'
        offset').length := by
  have hstart : Le ((((empty.i32 1 (physicalType field.valueType).code).listI32 2
      [(Encoding.plain.code : Int), Encoding.rle.code]).listBinary 3 [utf8 field.name]).i32 4 0) _ :=
    Le.refl _
  exact ((((hstart.i64 5 hrows hrows').i64 6 htotal htotal').i64 7 htotal htotal').i64 9 hoffset
    hoffset').finish

theorem length_rowGroup_mono {chunks chunks' : List Bytes}
    (hchunks : List.Forall₂ (fun v w => v.length ≤ w.length) chunks chunks')
    {totalSize totalSize' : Nat} (htotal : totalSize ≤ totalSize') (htotal' : totalSize' < 2 ^ 63)
    (offset : Nat) (hoffset : offset < 2 ^ 63) :
    (rowGroup chunks totalSize rowCount offset).length ≤
      (rowGroup chunks' totalSize' rowCount' offset).length :=
  (((((((Le.refl empty).listStruct 1 hchunks).i64 2 htotal htotal').i64 3 hrows hrows').i64 5
    (Nat.le_refl offset) hoffset).i64 6 htotal htotal').field 7 .i16 (Nat.le_refl _)).finish

theorem length_fileMetadata_mono (schema : ExportSchema) {groups groups' : List Bytes}
    (hgroups : List.Forall₂ (fun v w => v.length ≤ w.length) groups groups') :
    (fileMetadata schema rowCount groups).length ≤
      (fileMetadata schema rowCount' groups').length := by
  have hstart : Le ((empty.i32 1 1).listStruct 2
      (schemaElement "schema".toList none none (some schema.fields.length) ::
        schema.fields.map fieldElement)) _ := Le.refl _
  exact ((((hstart.i64 3 hrows hrows').listStruct 4 hgroups).field 5 .list (Nat.le_refl _)).field 6
    .binary (Nat.le_refl _)).finish

end Metadata

theorem length_columnChunk_mono {metadata metadata' : Bytes}
    (h : metadata.length ≤ metadata'.length) :
    (columnChunk metadata).length ≤ (columnChunk metadata').length :=
  (((CompactStruct.Le.refl .empty).field 2 .i64 (Nat.le_refl _)).struct 3 h).finish

/-! ## The bound of a file -/

/-- The bytes of the page headers and of the pages of these sizes. -/
def headerBytes (rowCount : Nat) (pages : List (ExportField × Nat)) : Nat :=
  (pages.map fun p => (dataPageHeader rowCount p.2).length).sum

def bodyBytes (pages : List (ExportField × Nat)) : Nat := (pages.map Prod.snd).sum

section Bound

variable {rowCount rowCount' : Nat} {pages pages' : List (ExportField × Nat)}

/-- Pages of the same fields that are not smaller. -/
def Smaller (pages pages' : List (ExportField × Nat)) : Prop :=
  List.Forall₂ (fun p q => p.1 = q.1 ∧ p.2 ≤ q.2) pages pages'

theorem sizedChunks_totals (rowCount offset : Nat) (pages : List (ExportField × Nat)) :
    (sizedChunks rowCount offset pages).2 =
      (offset + (headerBytes rowCount pages + bodyBytes pages),
        headerBytes rowCount pages + bodyBytes pages) := by
  induction pages generalizing offset with
  | nil => rfl
  | cons p rest ih =>
    have hrest := ih (offset + ((dataPageHeader rowCount p.2).length + p.2))
    have hlast := congrArg Prod.fst hrest
    have htotal := congrArg Prod.snd hrest
    dsimp only at hlast htotal
    rw [sizedChunks, headerBytes, bodyBytes, List.map_cons, List.map_cons, List.sum_cons,
      List.sum_cons, ← headerBytes, ← bodyBytes]
    dsimp only
    rw [hlast, htotal]
    exact Prod.ext (by dsimp only; omega) (by dsimp only; omega)

theorem bodyBytes_mono (h : Smaller pages pages') : bodyBytes pages ≤ bodyBytes pages' := by
  induction h with
  | nil => exact Nat.le_refl 0
  | cons hpq _ ih =>
    simp only [bodyBytes, List.map_cons, List.sum_cons] at ih ⊢
    omega

theorem headerBytes_mono (h : Smaller pages pages') (hrows : rowCount ≤ rowCount')
    (hrows' : rowCount' < 2 ^ 63) (hend : bodyBytes pages' < 2 ^ 63) :
    headerBytes rowCount pages ≤ headerBytes rowCount' pages' := by
  induction h with
  | nil => exact Nat.le_refl 0
  | @cons p q rest rest' hpq _ ih =>
    rw [bodyBytes, List.map_cons, List.sum_cons, ← bodyBytes] at hend
    have hheader := length_dataPageHeader_mono hrows hrows' hpq.2 (by omega)
    have hrest := ih (by omega)
    simp only [headerBytes, List.map_cons, List.sum_cons] at hrest ⊢
    omega

theorem sizedChunks_mono (h : Smaller pages pages') (hrows : rowCount ≤ rowCount')
    (hrows' : rowCount' < 2 ^ 63) {offset offset' : Nat} (hoffset : offset ≤ offset')
    (hend : offset' + (headerBytes rowCount' pages' + bodyBytes pages') < 2 ^ 63) :
    List.Forall₂ (fun v w => v.length ≤ w.length) (sizedChunks rowCount offset pages).1
      (sizedChunks rowCount' offset' pages').1 := by
  induction h generalizing offset offset' with
  | nil => exact .nil
  | @cons p q rest rest' hpq _ ih =>
    obtain ⟨hfield, hsize⟩ := hpq
    simp only [headerBytes, bodyBytes, List.map_cons, List.sum_cons] at hend ih
    have hheader := length_dataPageHeader_mono hrows hrows' hsize (by omega)
    have hmetadata := length_columnMetadata_mono hrows hrows' q.1
      (by omega : (dataPageHeader rowCount p.2).length + p.2 ≤
        (dataPageHeader rowCount' q.2).length + q.2) (by omega) hoffset (by omega)
    rw [sizedChunks, sizedChunks, hfield]
    exact .cons (length_columnChunk_mono hmetadata)
      (ih (by omega : offset + ((dataPageHeader rowCount p.2).length + p.2) ≤
        offset' + ((dataPageHeader rowCount' q.2).length + q.2)) (by omega))

theorem parquetFileSizeUpperBound_eq (hpos : 0 < rowCount) (pageSizes : List Nat)
    (schema : ExportSchema) :
    parquetFileSizeUpperBound rowCount pageSizes schema =
      4 + (headerBytes rowCount (schema.fields.zip pageSizes) +
        bodyBytes (schema.fields.zip pageSizes)) +
      (fileMetadata schema rowCount
        [rowGroup (sizedChunks rowCount 4 (schema.fields.zip pageSizes)).1
          (headerBytes rowCount (schema.fields.zip pageSizes) +
            bodyBytes (schema.fields.zip pageSizes)) rowCount 4]).length + 8 := by
  have htotals := sizedChunks_totals rowCount 4 (schema.fields.zip pageSizes)
  have hlast := congrArg Prod.fst htotals
  have htotal := congrArg Prod.snd htotals
  dsimp only at hlast htotal
  have hmagic : parquetMagic.length = 4 := rfl
  rw [parquetFileSizeUpperBound, if_neg (by omega), hmagic]
  dsimp only
  rw [hlast, htotal]

/-- **A smaller batch makes a file smaller by at least as much as its pages are.** -/
theorem parquetFileSizeUpperBound_mono {schema : ExportSchema} {pageSizes pageSizes' : List Nat}
    (hpos : 0 < rowCount) (hrows : rowCount ≤ rowCount') (hrows' : rowCount' < 2 ^ 63)
    (h : Smaller (schema.fields.zip pageSizes) (schema.fields.zip pageSizes'))
    (hend : 4 + (headerBytes rowCount' (schema.fields.zip pageSizes') +
      bodyBytes (schema.fields.zip pageSizes')) < 2 ^ 63) :
    parquetFileSizeUpperBound rowCount pageSizes schema +
        bodyBytes (schema.fields.zip pageSizes') ≤
      parquetFileSizeUpperBound rowCount' pageSizes' schema +
        bodyBytes (schema.fields.zip pageSizes) := by
  have hbody := bodyBytes_mono h
  have hheaders := headerBytes_mono h hrows hrows' (by omega)
  have hchunks := sizedChunks_mono h hrows hrows' (Nat.le_refl 4) hend
  have hgroup := length_rowGroup_mono hrows hrows' hchunks
    (by omega : headerBytes rowCount (schema.fields.zip pageSizes) +
      bodyBytes (schema.fields.zip pageSizes) ≤
        headerBytes rowCount' (schema.fields.zip pageSizes') +
          bodyBytes (schema.fields.zip pageSizes')) (by omega) 4 (by decide)
  have hfooter := length_fileMetadata_mono hrows hrows' schema (.cons hgroup .nil)
  rw [parquetFileSizeUpperBound_eq hpos, parquetFileSizeUpperBound_eq (by omega)]
  omega

end Bound

end Makolet.Export
