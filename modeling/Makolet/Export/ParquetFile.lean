import Makolet.Export.ParquetPages

/-!
# The file the Parquet writer builds

The loop over the columns appends the pages and records a chunk for each; `sized` are the chunks of
the pages. A file made of the magic, the pages, the footer, its length and the magic is decoded to
the schema and the columns it was made of.
-/

set_option autoImplicit false

namespace Makolet.Export

open Makolet.Lib
open Makolet.Lib.Compact (Value encode decodeStruct decodeStruct_encode structs_map)
open Makolet.Lib.Parquet (PlainValue readPage readPages readColumn)

/-- A reader that returns on the image of every element returns on the list. -/
theorem mapM_eq_some {α β γ : Type} {f : α → Option β} {e : γ → α} {g : γ → β} {xs : List γ}
    (h : ∀ x ∈ xs, f (e x) = some (g x)) : (xs.map e).mapM f = some (xs.map g) := by
  induction xs with
  | nil => rfl
  | cons x rest ih =>
    rw [List.map_cons, List.mapM_cons, h x List.mem_cons_self,
      ih fun y hy => h y (List.mem_cons_of_mem x hy)]
    rfl

/-! ## Metadata as the reader sees them -/

theorem pageHeader_pageFields (rowCount pageSize : Nat) :
    Parquet.pageHeader (pageFields rowCount pageSize) =
      some { size := pageSize, valueCount := rowCount } := by
  have hguard : (0 : Int) ≤ (pageSize : Int) ∧ (0 : Int) ≤ (rowCount : Int) := by omega
  simp [Parquet.pageHeader, pageFields, Compact.intField, Compact.structField, List.lookup_cons,
    int32]

theorem leaf_elementFields (field : ExportField) :
    Parquet.leaf (elementFields field) = some (leafOf field) := by
  have hphysical := ofCode_physicalType (physicalType field.valueType)
  have hname := ofUtf8_utf8 field.name
  cases hnull : field.nullable <;> cases hstring : isStringType field.valueType <;>
    simp [Parquet.leaf, elementFields, stringFields, leafOf, Compact.intField, Compact.binaryField,
      Compact.structField, List.lookup_cons, int32, hphysical, hname, hnull, hstring]

theorem leaves_fileFields (schema : ExportSchema) :
    Parquet.leaves (rootFields schema :: schema.fields.map elementFields) =
      some (schema.fields.map leafOf) := by
  have hroot : Compact.intField (rootFields schema) 5 .w32 =
      some ((schema.fields.map elementFields).length : Int) := by
    simp [rootFields, Compact.intField, List.lookup_cons, int32]
  have hleaves : (schema.fields.map elementFields).mapM Parquet.leaf =
      some (schema.fields.map leafOf) := mapM_eq_some fun field _ => leaf_elementFields field
  rw [Parquet.leaves, hroot, hleaves]
  simp

theorem keyValue_keyValueFields (item : List Char × List Char) :
    Parquet.keyValue (keyValueFields item) = some item := by
  simp [Parquet.keyValue, keyValueFields, Compact.binaryField, List.lookup_cons, ofUtf8_utf8]

theorem chunk_chunkFields (field : ExportField) (rowCount totalSize dataPageOffset : Nat) :
    Parquet.chunk (leafOf field)
        (chunkFields (columnFields field rowCount totalSize dataPageOffset)) =
      some { valueCount := rowCount, dataPageOffset } := by
  have hphysical := ofCode_physicalType (physicalType field.valueType)
  have hname := ofUtf8_utf8 field.name
  simp [Parquet.chunk, chunkFields, columnFields, leafOf, Compact.intField, Compact.binaryField,
    Compact.structField, Compact.listField, List.lookup_cons, int32, int64, hphysical, hname]

/-! ## Columns in their places -/

/-- A field and the values of its column. -/
abbrev Column := ExportField × List (Option PlainValue)

def bodySize (c : Column) : Nat := (pageBytes c.1 c.2).length

def page (rowCount : Nat) (c : Column) : Bytes :=
  dataPageHeader rowCount (bodySize c) ++ pageBytes c.1 c.2

def pages (rowCount : Nat) (columns : List Column) : Bytes := columns.flatMap (page rowCount)

/-- The chunks of pages one after the other, from an offset on. -/
def placed (rowCount : Nat) : Nat → List Column → List (List (Int × Value))
  | _, [] => []
  | offset, c :: rest =>
    chunkFields (columnFields c.1 rowCount (page rowCount c).length offset) ::
      placed rowCount (offset + (page rowCount c).length) rest

/-- The sizes of the pages, as the functions of the writer take them. -/
def sizes (columns : List Column) : List (ExportField × Nat) :=
  columns.map fun c => (c.1, bodySize c)

/-- What a page holds is of its field, and small enough for its size to be written. -/
structure Writes (rowCount : Nat) (c : Column) : Prop where
  admits : Admits c.1 c.2
  length : c.2.length = rowCount
  levels : (levelRuns (c.2.map Option.isSome)).length < 2 ^ 32
  size : bodySize c < 2 ^ 31

section Placed

variable {rowCount : Nat} {columns : List Column}

theorem length_page (rowCount : Nat) (c : Column) :
    (page rowCount c).length = (dataPageHeader rowCount (bodySize c)).length + bodySize c := by
  rw [page, List.length_append, bodySize]

theorem sizedChunks_end (rowCount offset : Nat) (columns : List Column) :
    (sizedChunks rowCount offset (sizes columns)).2 =
      (offset + (pages rowCount columns).length, (pages rowCount columns).length) := by
  induction columns generalizing offset with
  | nil => rfl
  | cons c rest ih =>
    have hrest := ih (offset + (page rowCount c).length)
    rw [length_page] at hrest
    rw [sizes, List.map_cons, sizedChunks, pages, List.flatMap_cons, List.length_append,
      length_page]
    dsimp only
    rw [sizes] at hrest
    have hlast := congrArg Prod.fst hrest
    have htotal := congrArg Prod.snd hrest
    dsimp only at hlast htotal
    rw [hlast, htotal, pages]
    exact Prod.ext (Nat.add_assoc _ _ _) rfl

theorem sizedChunks_encodes (hrows : rowCount < 2 ^ 31) (offset : Nat)
    (hend : offset + (pages rowCount columns).length < 2 ^ 31) :
    List.Forall₂ Encodes (sizedChunks rowCount offset (sizes columns)).1
      (placed rowCount offset columns) := by
  induction columns generalizing offset with
  | nil => exact .nil
  | cons c rest ih =>
    rw [pages, List.flatMap_cons, List.length_append] at hend
    have hrest := ih (offset + (page rowCount c).length) (by rw [pages]; omega)
    have hchunk := columnMetadata_encodes c.1 hrows
      (by omega : (page rowCount c).length < 2 ^ 31) (by omega : offset < 2 ^ 31)
    rw [length_page] at hrest hchunk
    rw [placed, length_page]
    exact .cons (columnChunk_encodes hchunk) hrest

/-- A page is read to its values. -/
theorem readPages_page {c : Column} (h : Writes rowCount c) (hpos : 0 < rowCount)
    (hrows : rowCount < 2 ^ 31) (fuel : Nat) (rest : Bytes) :
    readPages (leafOf c.1) (fuel + 1) rowCount (page rowCount c ++ rest) = some c.2 := by
  obtain ⟨hheader, hwritable⟩ := dataPageHeader_encodes hrows h.size
  have hdecode := decodeStruct_encode hwritable (pageBytes c.1 c.2 ++ rest)
  have htake := Reads.take (pageBytes c.1 c.2) rest
  have hread := readPage_pageBytes h.admits h.levels
  have hdone (leaf : Parquet.Leaf) : readPages leaf fuel 0 rest = some [] := by
    cases fuel <;> rfl
  rw [h.length] at hread
  rw [readPages, if_neg (by omega), page, hheader, List.append_assoc, hdecode]
  show (Parquet.pageHeader _).bind _ = _
  rw [pageHeader_pageFields, Option.bind_some]
  show (Reader.take (bodySize c) _).bind _ = _
  rw [bodySize, htake, Option.bind_some, guard, if_pos (Nat.le_refl rowCount)]
  show (readPage _ rowCount _).bind _ = _
  rw [hread, Option.bind_some, Nat.sub_self, hdone]
  exact congrArg some (List.append_nil c.2)

/-- **The columns are read at the offsets of their chunks.** -/
theorem readColumns_placed (hcolumns : ∀ c ∈ columns, Writes rowCount c) (hpos : 0 < rowCount)
    (hrows : rowCount < 2 ^ 31) (before after : Bytes) :
    ((columns.map fun c => leafOf c.1).zip (placed rowCount before.length columns)).mapM
        (fun p => readColumn (before ++ pages rowCount columns ++ after) rowCount p.1 p.2) =
      some (columns.map Prod.snd) := by
  induction columns generalizing before with
  | nil => rfl
  | cons c rest ih =>
    have hrest := ih (fun d hd => hcolumns d (List.mem_cons_of_mem c hd))
      (before ++ page rowCount c)
    have hcontent : before ++ pages rowCount (c :: rest) ++ after =
        before ++ page rowCount c ++ pages rowCount rest ++ after := by
      rw [pages, List.flatMap_cons, ← List.append_assoc, pages]
    have hdrop : (before ++ pages rowCount (c :: rest) ++ after).drop before.length =
        page rowCount c ++ (pages rowCount rest ++ after) := by
      rw [hcontent, List.append_assoc, List.append_assoc, List.drop_left]
    have hcolumn : readColumn (before ++ pages rowCount (c :: rest) ++ after) rowCount (leafOf c.1)
        (chunkFields (columnFields c.1 rowCount (page rowCount c).length before.length)) =
          some c.2 := by
      rw [readColumn, chunk_chunkFields]
      show (guard _ : Option Unit).bind _ = _
      rw [guard, if_pos rfl]
      show readPages _ _ rowCount (List.drop before.length _) = _
      rw [hdrop]
      exact readPages_page (hcolumns c List.mem_cons_self) hpos hrows _ _
    rw [List.length_append] at hrest
    rw [List.map_cons, placed, List.zip_cons_cons, List.mapM_cons, hcolumn, hcontent, hrest]
    rfl

/-- The row group of the columns. -/
def groupOf (rowCount : Nat) (columns : List Column) : List (Int × Value) :=
  groupFields (placed rowCount Parquet.magic.length columns) (pages rowCount columns).length rowCount
    Parquet.magic.length

/-- A file without rows has no row group. -/
def groupsOf (rowCount : Nat) (columns : List Column) : List (List (Int × Value)) :=
  if rowCount = 0 then [] else [groupOf rowCount columns]

theorem length_placed (rowCount offset : Nat) (columns : List Column) :
    (placed rowCount offset columns).length = columns.length := by
  induction columns generalizing offset with
  | nil => rfl
  | cons c rest ih => exact congrArg (· + 1) (ih _)

theorem readRowGroup_groupOf (hcolumns : ∀ c ∈ columns, Writes rowCount c) (hpos : 0 < rowCount)
    (hrows : rowCount < 2 ^ 31) (after : Bytes) :
    Parquet.readRowGroup (Parquet.magic ++ pages rowCount columns ++ after)
        (columns.map fun c => leafOf c.1) (groupOf rowCount columns) =
      some (rowCount, columns.map Prod.snd) := by
  have hread := readColumns_placed hcolumns hpos hrows Parquet.magic after
  have hlength : (placed rowCount Parquet.magic.length columns).length =
      (columns.map fun c => leafOf c.1).length := by
    rw [length_placed, List.length_map]
  have hrowCount : Compact.intField (groupOf rowCount columns) 3 .w64 = some (rowCount : Int) := by
    simp [groupOf, groupFields, Compact.intField, List.lookup_cons, int64]
  have hchunks : (Compact.listField (groupOf rowCount columns) 1).bind Compact.structs =
      some (placed rowCount Parquet.magic.length columns) := structs_map _
  rw [Parquet.readRowGroup, hrowCount, hchunks]
  show (guard _ : Option Unit).bind _ = _
  rw [guard, if_pos ⟨hlength, by omega⟩]
  show (List.mapM _ _ : Option _).bind _ = _
  rw [Int.toNat_natCast, hread]
  rfl

/-- The pages are read where there are rows; a file without rows has none. -/
theorem readRowGroups_groupsOf (hcolumns : ∀ c ∈ columns, Writes rowCount c)
    (hrows : rowCount < 2 ^ 31) {content after : Bytes}
    (hcontent : 0 < rowCount → content = Parquet.magic ++ pages rowCount columns ++ after) :
    Parquet.readRowGroups content (columns.map fun c => leafOf c.1) (groupsOf rowCount columns) =
      some (rowCount, columns.map Prod.snd) := by
  by_cases hpos : rowCount = 0
  · have hempty : columns.map Prod.snd = (columns.map fun c => leafOf c.1).map fun _ => [] := by
      rw [List.map_map]
      refine List.map_congr_left fun c hc => ?_
      exact List.eq_nil_of_length_eq_zero ((hcolumns c hc).length.trans hpos)
    rw [groupsOf, if_pos hpos, Parquet.readRowGroups, hempty, hpos]
  · have hread := readRowGroup_groupOf hcolumns (Nat.pos_of_ne_zero hpos) hrows after
    have hzip (columns : List Column) : List.zipWith (· ++ ·) (columns.map Prod.snd)
        ((columns.map fun c => leafOf c.1).map fun _ => []) = columns.map Prod.snd := by
      induction columns with
      | nil => rfl
      | cons c rest ih =>
        rw [List.map_cons, List.map_cons, List.map_cons, List.zipWith_cons_cons, List.append_nil, ih]
    rw [groupsOf, if_neg hpos, Parquet.readRowGroups, hcontent (Nat.pos_of_ne_zero hpos), hread]
    show some (rowCount + 0, _) = _
    rw [hzip]
    rfl

end Placed

/-- What a file with this schema and these columns is decoded to. -/
def tableOf (schema : ExportSchema) (rowCount : Nat) (columns : List (List (Option PlainValue))) :
    Parquet.Table where
  leaves := schema.fields.map leafOf
  rowCount := rowCount
  columns := columns
  keyValues := schemaMetadata schema

section File

variable {schema : ExportSchema} {rowCount : Nat} {columns : List Column}

theorem fileFields_elements (schema : ExportSchema) (rowCount : Nat)
    (groups : List (List (Int × Value))) :
    Compact.listField (fileFields schema rowCount groups) 2 =
      some ((rootFields schema :: schema.fields.map elementFields).map .struct) := by
  simp [fileFields, Compact.listField, List.lookup_cons]

theorem fileFields_rowCount (schema : ExportSchema) (rowCount : Nat)
    (groups : List (List (Int × Value))) :
    Compact.intField (fileFields schema rowCount groups) 3 .w64 = some (rowCount : Int) := by
  simp [fileFields, Compact.intField, List.lookup_cons, int64]

theorem fileFields_groups (schema : ExportSchema) (rowCount : Nat)
    (groups : List (List (Int × Value))) :
    Compact.listField (fileFields schema rowCount groups) 4 = some (groups.map .struct) := by
  simp [fileFields, Compact.listField, List.lookup_cons]

theorem fileFields_keyValues (schema : ExportSchema) (rowCount : Nat)
    (groups : List (List (Int × Value))) :
    Compact.listField (fileFields schema rowCount groups) 5 =
      some (((schemaMetadata schema).map keyValueFields).map .struct) := by
  generalize hitems : (schemaMetadata schema).map keyValueFields = items
  simp [fileFields, Compact.listField, List.lookup_cons, hitems]

theorem readMetadata_fileFields (hfields : columns.map Prod.fst = schema.fields)
    (hcolumns : ∀ c ∈ columns, Writes rowCount c) (hrows : rowCount < 2 ^ 31)
    {content after : Bytes}
    (hcontent : 0 < rowCount → content = Parquet.magic ++ pages rowCount columns ++ after) :
    Parquet.readMetadata content (fileFields schema rowCount (groupsOf rowCount columns)) =
      some (tableOf schema rowCount (columns.map Prod.snd)) := by
  have hread := readRowGroups_groupsOf hcolumns hrows hcontent
  have hleaves : (columns.map fun c => leafOf c.1) = schema.fields.map leafOf := by
    rw [← hfields, List.map_map]
    rfl
  rw [hleaves] at hread
  rw [Parquet.readMetadata, fileFields_elements, fileFields_rowCount, fileFields_groups,
    fileFields_keyValues, Option.bind_some, Option.bind_some, Option.bind_some, structs_map,
    structs_map, structs_map, Option.bind_some, Option.bind_some, leaves_fileFields,
    mapM_eq_some fun item _ => keyValue_keyValueFields item, List.map_id']
  show (Parquet.readRowGroups _ _ _).bind _ = _
  rw [hread]
  show (guard _ : Option Unit).bind _ = _
  rw [guard, if_pos rfl]
  rfl

/-- **The file of a schema and its columns is decoded to them.** -/
theorem decode_file (hfields : columns.map Prod.fst = schema.fields)
    (hcolumns : ∀ c ∈ columns, Writes rowCount c) (hrows : rowCount < 2 ^ 31)
    {body footer : Bytes} (hbody : 0 < rowCount → body = pages rowCount columns)
    (hfooter : Encodes footer (fileFields schema rowCount (groupsOf rowCount columns)))
    (hlength : footer.length < 2 ^ 32) :
    Parquet.decode (Parquet.assembled body footer) =
      some (tableOf schema rowCount (columns.map Prod.snd)) := by
  obtain ⟨rfl, hwritable⟩ := hfooter
  have hcontent (footer : Bytes) (hpos : 0 < rowCount) : Parquet.assembled body footer =
      Parquet.magic ++ pages rowCount columns ++
        (footer ++ little 4 footer.length ++ Parquet.magic) := by
    simp only [Parquet.assembled, hbody hpos, List.append_assoc]
  rw [Parquet.decode_assembled body hwritable hlength]
  exact readMetadata_fileFields hfields hcolumns hrows (hcontent _)

end File

end Makolet.Export
