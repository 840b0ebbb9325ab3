import Makolet.Export.ParquetBudget
import Mathlib.Algebra.Order.BigOperators.Group.List

/-!
# Parquet files are read back

For every schema and every batch of rows that a budget admits, the file the writer builds is decoded
to the fields of the schema, the number of rows and the normalized values, nulls where they were.
-/

set_option autoImplicit false

namespace Makolet.Export

open Makolet.Lib
open Makolet.Lib.Parquet (PlainValue)

/-! ## The loop over the columns -/

section Loop

variable {rows : List PreparedParquetRow} {limits : ExportLimits}

/-- The columns at these places. -/
def columnsAt (rows : List PreparedParquetRow) (places : List (ExportField × Nat)) : List Column :=
  places.map fun c => (c.1, columnValues rows c.2)

theorem writeColumn_eq {w : Written} {place : ExportField × Nat}
    (h : Writes rows.length (place.1, columnValues rows place.2))
    (hpage : bodySize (place.1, columnValues rows place.2) ≤ limits.maxPageBytes)
    (hfile : w.output.length + (page rows.length (place.1, columnValues rows place.2)).length ≤
      limits.maxFileBytes) :
    writeColumn rows limits w place = .ok {
      output := w.output ++ page rows.length (place.1, columnValues rows place.2)
      columnChunks := w.columnChunks ++ [columnChunk
        (columnMetadata (physicalType place.1.valueType) place.1.name rows.length
          (page rows.length (place.1, columnValues rows place.2)).length w.output.length)]
      totalRowGroupSize :=
        w.totalRowGroupSize + (page rows.length (place.1, columnValues rows place.2)).length } := by
  rw [length_page] at hfile
  rw [bodySize] at hpage hfile
  dsimp only at hpage hfile
  have hbody := pageBody_eq h.admits h.levels
  dsimp only at hbody
  rw [writeColumn]
  dsimp only
  rw [hbody]
  refine bind_eq_ok.2 ⟨_, rfl, ?_⟩
  rw [require_bind_of hpage, require_bind_of (by omega), length_page, page, ← List.append_assoc]
  rfl

theorem writeColumns_eq (places : List (ExportField × Nat)) : ∀ {w : Written},
    (∀ c ∈ columnsAt rows places, Writes rows.length c ∧ bodySize c ≤ limits.maxPageBytes) →
      w.output.length + (pages rows.length (columnsAt rows places)).length ≤ limits.maxFileBytes →
        places.foldlM (writeColumn rows limits) w = .ok {
          output := w.output ++ pages rows.length (columnsAt rows places)
          columnChunks := w.columnChunks ++
            (sizedChunks rows.length w.output.length (sizes (columnsAt rows places))).1
          totalRowGroupSize :=
            w.totalRowGroupSize + (pages rows.length (columnsAt rows places)).length } := by
  induction places with
  | nil =>
    intro w _ _
    simp [columnsAt, pages, sizes, sizedChunks]
    rfl
  | cons place rest ih =>
    intro w hcolumns hfile
    have hhead := hcolumns _ List.mem_cons_self
    have hpages : pages rows.length (columnsAt rows (place :: rest)) =
        page rows.length (place.1, columnValues rows place.2) ++
          pages rows.length (columnsAt rows rest) := rfl
    rw [hpages, List.length_append] at hfile
    rw [List.foldlM_cons, writeColumn_eq hhead.1 hhead.2 (by omega)]
    refine bind_eq_ok.2 ⟨_, rfl, ?_⟩
    rw [ih (fun c hc => hcolumns c (List.mem_cons_of_mem _ hc))
      (by rw [List.length_append]; omega)]
    refine congrArg Except.ok ?_
    rw [hpages, List.length_append]
    simp only [columnsAt, sizes, List.map_cons, sizedChunks, length_page, List.append_assoc,
      List.length_append, List.singleton_append, Nat.add_assoc]

end Loop

/-! ## The size of the file -/

section Size

variable {schema : ExportSchema} {rows : List PreparedParquetRow}

theorem fields_columnsOf (schema : ExportSchema) (rows : List PreparedParquetRow) :
    (columnsOf schema rows).map Prod.fst = schema.fields := by
  rw [columnsOf, List.map_map]
  exact List.zipIdx_map_fst 0 schema.fields

theorem sizes_columnsOf (schema : ExportSchema) (rows : List PreparedParquetRow) :
    sizes (columnsOf schema rows) = schema.fields.zip ((columnsOf schema rows).map bodySize) := by
  have hzip : ((columnsOf schema rows).map Prod.fst).zip ((columnsOf schema rows).map bodySize) =
      (columnsOf schema rows).map fun c => (c.1, bodySize c) := List.zip_map'
  rw [fields_columnsOf] at hzip
  exact hzip.symm

/-- The footer of a file. -/
def footerOf (schema : ExportSchema) (rows : List PreparedParquetRow) : Bytes :=
  fileMetadata schema rows.length
    (if rows = [] then []
      else [rowGroup (sizedChunks rows.length 4 (sizes (columnsOf schema rows))).1
        (pages rows.length (columnsOf schema rows)).length rows.length 4])

/-- The body of a file: a file without rows has none. -/
def bodyOf (schema : ExportSchema) (rows : List PreparedParquetRow) : Bytes :=
  if rows = [] then [] else pages rows.length (columnsOf schema rows)

/-- The bound is the size of the file where the pages have these sizes. -/
theorem parquetFileSizeUpperBound_columnsOf (hne : rows ≠ []) :
    parquetFileSizeUpperBound rows.length ((columnsOf schema rows).map bodySize) schema =
      4 + (pages rows.length (columnsOf schema rows)).length + (footerOf schema rows).length +
        8 := by
  have hend := sizedChunks_end rows.length 4 (columnsOf schema rows)
  have hlast := congrArg Prod.fst hend
  have htotal := congrArg Prod.snd hend
  dsimp only at hlast htotal
  have hmagic : parquetMagic.length = 4 := rfl
  have hpos : rows.length ≠ 0 := fun h => hne (List.eq_nil_of_length_eq_zero h)
  rw [parquetFileSizeUpperBound, if_neg hpos, hmagic, ← sizes_columnsOf, footerOf, if_neg hne]
  dsimp only
  rw [hlast, htotal]

theorem length_dataPageHeader_pos (rowCount pageSize : Nat) :
    0 < (dataPageHeader rowCount pageSize).length := by
  simp [dataPageHeader, CompactStruct.finish]

theorem length_le_headerBytes (rowCount : Nat) (pages : List (ExportField × Nat)) :
    pages.length ≤ headerBytes rowCount pages := by
  induction pages with
  | nil => exact Nat.le_refl 0
  | cons p rest ih =>
    have hpos := length_dataPageHeader_pos rowCount p.2
    simp only [headerBytes, List.map_cons, List.sum_cons, List.length_cons] at ih ⊢
    omega

theorem bodyBytes_zip (fields : List ExportField) (pageSizes : List Nat)
    (h : pageSizes.length = fields.length) : bodyBytes (fields.zip pageSizes) = pageSizes.sum := by
  rw [bodyBytes, List.map_snd_zip (by omega)]

/-- The pages of an accepted batch are within the page limit. -/
theorem bodySize_le {b start : ParquetBatchBudget} (hne : rows ≠ [])
    (haccounts : Accounts start b rows)
    (hadmits : ∀ c ∈ columnsOf start.schema rows, Admits c.1 c.2) :
    ∀ c ∈ columnsOf start.schema rows, bodySize c ≤ start.limits.maxPageBytes := by
  intro c hc
  have hle := haccounts.page_le hne (charged c.1 c.2)
    (by rw [haccounts.pageSizes]; exact List.mem_map.2 ⟨c, hc, rfl⟩)
  exact (length_pageBytes_le (hadmits c hc)).trans hle

/-- **The file of an accepted batch is charged at least its size.** -/
theorem fileSize_le {b start : ParquetBatchBudget} (hne : rows ≠ [])
    (hoverhead : start.fileOverheadBytes =
      parquetFileSizeUpperBound start.limits.maxRowsPerFile
        (List.replicate start.schema.fields.length start.limits.maxPageBytes) start.schema -
          (List.replicate start.schema.fields.length start.limits.maxPageBytes).sum)
    (haccounts : Accounts start b rows)
    (hadmits : ∀ c ∈ columnsOf start.schema rows, Admits c.1 c.2) :
    4 + (pages rows.length (columnsOf start.schema rows)).length +
        (footerOf start.schema rows).length + 8 ≤
      b.usage.totalPageBytes + start.fileOverheadBytes := by
  have hsizes := haccounts.pageSizes
  have hcharged : ∀ c ∈ columnsOf start.schema rows, bodySize c ≤ charged c.1 c.2 :=
    fun c hc => length_pageBytes_le (hadmits c hc)
  have hpages := bodySize_le hne haccounts hadmits
  rw [← parquetFileSizeUpperBound_columnsOf hne]
  -- The largest batch has pages of `maxPageBytes` each; the overhead is its bound without them.
  have hk := length_columnsOf start.schema rows
  have hzipped : (start.schema.fields.zip (List.replicate start.schema.fields.length
      start.limits.maxPageBytes)).length = start.schema.fields.length := by
    rw [List.length_zip, List.length_replicate, Nat.min_self]
  have hlargest := bodyBytes_zip start.schema.fields
    (List.replicate start.schema.fields.length start.limits.maxPageBytes) List.length_replicate
  have hbodies := bodyBytes_zip start.schema.fields
    ((columnsOf start.schema rows).map bodySize) (by rw [List.length_map, hk])
  have hmaximum : 0 < start.limits.maxRowsPerFile := start.limits.positive.2.1
  have hbound := parquetFileSizeUpperBound_eq hmaximum
    (List.replicate start.schema.fields.length start.limits.maxPageBytes) start.schema
  have hheaders := length_le_headerBytes start.limits.maxRowsPerFile
    (start.schema.fields.zip (List.replicate start.schema.fields.length start.limits.maxPageBytes))
  have hfile := haccounts.file_le hne
  have hsigned := start.limits.signed
  have hsum : (List.replicate start.schema.fields.length start.limits.maxPageBytes).sum =
      start.schema.fields.length * start.limits.maxPageBytes := List.sum_replicate_nat
  have htotal : ((columnsOf start.schema rows).map bodySize).sum ≤
      b.usage.totalPageBytes := by
    rw [haccounts.total, hsizes]
    exact List.sum_le_sum hcharged
  have hproduct : start.schema.fields.length * start.limits.maxPageBytes ≤ 2 ^ 31 * 2 ^ 31 :=
    Nat.mul_le_mul (by omega) (by omega)
  have hsmaller : Smaller
      (start.schema.fields.zip ((columnsOf start.schema rows).map bodySize))
      (start.schema.fields.zip
        (List.replicate start.schema.fields.length start.limits.maxPageBytes)) := by
    rw [Smaller, List.forall₂_iff_get]
    refine ⟨by simp [hk], fun i hi hi' => ?_⟩
    simp only [List.get_eq_getElem, List.getElem_zip, List.getElem_replicate, List.getElem_map]
    exact ⟨trivial, hpages _ (List.getElem_mem _)⟩
  have hmono := parquetFileSizeUpperBound_mono
    (List.length_pos_of_ne_nil hne) (haccounts.rowCount_le hne) (by omega) hsmaller (by omega)
  omega

/-- **An accepted batch fits in the file limit.** -/
theorem file_le {limits : ExportLimits} {b : ParquetBatchBudget} (hne : rows ≠ [])
    {start : ParquetBatchBudget} (hschema : start.schema = schema) (hlimits : start.limits = limits)
    (hoverhead : start.fileOverheadBytes =
      parquetFileSizeUpperBound limits.maxRowsPerFile
        (List.replicate schema.fields.length limits.maxPageBytes) schema -
          (List.replicate schema.fields.length limits.maxPageBytes).sum)
    (haccounts : Accounts start b rows)
    (hadmits : ∀ c ∈ columnsOf schema rows, Admits c.1 c.2) :
    (∀ c ∈ columnsOf schema rows, bodySize c ≤ limits.maxPageBytes) ∧
      4 + (pages rows.length (columnsOf schema rows)).length + (footerOf schema rows).length + 8 ≤
        limits.maxFileBytes := by
  subst hschema hlimits
  exact ⟨bodySize_le hne haccounts hadmits,
    (fileSize_le hne hoverhead haccounts hadmits).trans (haccounts.file_le hne)⟩

theorem length_fileMetadata_ge (schema : ExportSchema) (rowCount : Nat) (groups : List Bytes) :
    schema.fields.length ≤ (fileMetadata schema rowCount groups).length := by
  have helements (fields : List ExportField) :
      fields.length ≤ (fields.map fieldElement).flatten.length := by
    induction fields with
    | nil => exact Nat.le_refl 0
    | cons field rest ih =>
      have hpos : 0 < (fieldElement field).length := by
        rw [(fieldElement_encodes field).1, Compact.encode, List.length_append,
          List.length_singleton]
        omega
      rw [List.map_cons, List.flatten_cons, List.length_append, List.length_cons]
      omega
  have h := helements schema.fields
  simp only [fileMetadata, CompactStruct.finish, CompactStruct.string, CompactStruct.binary,
    CompactStruct.listStruct, CompactStruct.i64, CompactStruct.extend, CompactStruct.fieldHeader,
    List.length_append, List.flatten_cons]
  omega

end Size

/-! ## The round trip -/

section RoundTrip

variable {interpreter : Interpreter} {schema : ExportSchema} {limits : ExportLimits}
  {rows : List PreparedParquetRow}

/-- The file of a batch. -/
def fileOf (schema : ExportSchema) (rows : List PreparedParquetRow) : Bytes :=
  Parquet.assembled (bodyOf schema rows) (footerOf schema rows)

/-- The last checks of `_build_parquet_bytes`. -/
def FooterFits (schema : ExportSchema) (limits : ExportLimits) (rows : List PreparedParquetRow) :
    Prop :=
  4 + (bodyOf schema rows).length + (footerOf schema rows).length + 8 ≤ limits.maxFileBytes

/-- The checks of the loop over the columns. -/
structure PagesFit (schema : ExportSchema) (limits : ExportLimits)
    (rows : List PreparedParquetRow) : Prop where
  page : ∀ c ∈ columnsOf schema rows, bodySize c ≤ limits.maxPageBytes
  output : 4 + (pages rows.length (columnsOf schema rows)).length ≤ limits.maxFileBytes

theorem writes_columnsOf (hrows : rows.length < 2 ^ 31)
    (hadmits : ∀ row ∈ rows, List.Forall₂ AdmitsValue schema.fields row.values)
    (hsizes : ∀ c ∈ columnsOf schema rows, bodySize c < 2 ^ 31) :
    ∀ c ∈ columnsOf schema rows, Writes rows.length c := by
  intro c hc
  obtain ⟨hadmitted, hlength⟩ := admits_columnsOf hadmits hc
  have hlevels := length_levelRuns (c.2.map Option.isSome)
  rw [List.length_map, hlength] at hlevels
  exact ⟨hadmitted, hlength, by omega, hsizes c hc⟩

/-- The page of a column without values has at most the size of its levels. -/
theorem bodySize_nil {c : Column} (hadmitted : Admits c.1 c.2) (hlength : c.2.length = 0) :
    bodySize c ≤ 4 := by
  have hle := length_pageBytes_le hadmitted
  rw [List.eq_nil_of_length_eq_zero hlength, charged] at hle
  rw [bodySize, List.eq_nil_of_length_eq_zero hlength]
  refine hle.trans ?_
  split <;> simp

/-- What the loop over the columns starts with. -/
def started : Written := { output := parquetMagic, columnChunks := [], totalRowGroupSize := 0 }

/-- The loop writes the pages and the chunks of the footer. -/
theorem loop_eq (hwrites : ∀ c ∈ columnsOf schema rows, Writes rows.length c)
    (hpages : PagesFit schema limits rows) :
    schema.fields.zipIdx.foldlM (writeColumn rows limits) started = .ok {
      output := parquetMagic ++ pages rows.length (columnsOf schema rows)
      columnChunks := (sizedChunks rows.length 4 (sizes (columnsOf schema rows))).1
      totalRowGroupSize := (pages rows.length (columnsOf schema rows)).length } := by
  have hcolumns : ∀ c ∈ columnsAt rows schema.fields.zipIdx,
      Writes rows.length c ∧ bodySize c ≤ limits.maxPageBytes :=
    fun c hc => ⟨hwrites c hc, hpages.page c hc⟩
  have hloop := writeColumns_eq schema.fields.zipIdx (w := started) hcolumns hpages.output
  rw [hloop]
  simp only [started, List.nil_append, Nat.zero_add]
  rfl

/-- What the loop returned decides the file; without rows it decides nothing. -/
theorem footer_of_loop (hwrites : ∀ c ∈ columnsOf schema rows, Writes rows.length c)
    {w : Written} (hloop : schema.fields.zipIdx.foldlM (writeColumn rows limits) started = .ok w)
    (hpages : rows ≠ [] → PagesFit schema limits rows) :
    fileMetadata schema rows.length
        (if rows = [] then []
          else [rowGroup w.columnChunks w.totalRowGroupSize rows.length parquetMagic.length]) =
        footerOf schema rows ∧
      (if rows = [] then parquetMagic else w.output) = parquetMagic ++ bodyOf schema rows := by
  by_cases hne : rows = []
  · rw [if_pos hne, if_pos hne, footerOf, if_pos hne, bodyOf, if_pos hne, List.append_nil]
    exact ⟨rfl, rfl⟩
  · rw [loop_eq hwrites (hpages hne)] at hloop
    cases hloop
    rw [if_neg hne, if_neg hne, footerOf, if_neg hne, bodyOf, if_neg hne]
    exact ⟨rfl, rfl⟩

theorem ok_bind {α β : Type} (a : α) (f : α → Except ExportError β) :
    ((.ok a : Except ExportError α) >>= f) = f a := rfl

theorem appendFooter_ok_iff {output footer content : Bytes} :
    appendFooter limits output footer = .ok content ↔
      output.length + footer.length + 8 ≤ limits.maxFileBytes ∧
        content = output ++ footer ++ little 4 footer.length ++ parquetMagic := by
  have hsigned := limits.signed
  have hmagic : parquetMagic.length = 4 := rfl
  rw [appendFooter, hmagic]
  constructor
  · intro h
    obtain ⟨hshort, h⟩ := require_bind_eq_ok.1 h
    obtain ⟨hfits, h⟩ := require_bind_eq_ok.1 h
    rw [packUnsigned32_eq hshort] at h
    cases h
    exact ⟨by omega, rfl⟩
  · rintro ⟨hfits, rfl⟩
    rw [require_bind_of (by omega), require_bind_of (by omega), packUnsigned32_eq (by omega)]
    rfl

/-- **The bytes that are built are those of the file, if they fit.** -/
theorem buildParquetBytes_ok_iff {start b : ParquetBatchBudget} {w : Written}
    (hinit : ParquetBatchBudget.init interpreter schema limits = .ok start)
    (hfold : rows.foldlM (fun budget row => budget.add interpreter row) start = .ok b)
    (hwrites : ∀ c ∈ columnsOf schema rows, Writes rows.length c)
    (hloop : schema.fields.zipIdx.foldlM (writeColumn rows limits) started = .ok w)
    (hpages : rows ≠ [] → PagesFit schema limits rows) (content : Bytes) :
    buildParquetBytes interpreter rows schema limits = .ok content ↔
      FooterFits schema limits rows ∧ content = fileOf schema rows := by
  obtain ⟨hfooter, houtput⟩ := footer_of_loop hwrites hloop hpages
  have hstep : buildParquetBytes interpreter rows schema limits =
      appendFooter limits (parquetMagic ++ bodyOf schema rows) (footerOf schema rows) := by
    rw [← hfooter, ← houtput, buildParquetBytes, hinit, ok_bind, hfold, ok_bind, ← started, hloop,
      ok_bind]
  have hlength : (parquetMagic ++ bodyOf schema rows).length = 4 + (bodyOf schema rows).length := by
    rw [List.length_append]
    rfl
  rw [hstep, appendFooter_ok_iff, hlength]
  rfl

theorem footerOf_encodes (hfits : FooterFits schema limits rows) (hrows : rows.length < 2 ^ 31) :
    Encodes (footerOf schema rows)
      (fileFields schema rows.length (groupsOf rows.length (columnsOf schema rows))) := by
  have hsigned := limits.signed
  rw [FooterFits] at hfits
  have hfields : schema.fields.length < 2 ^ 31 :=
    Nat.lt_of_le_of_lt (length_fileMetadata_ge schema rows.length _)
      (by rw [← footerOf]; omega)
  refine fileMetadata_encodes hfields hrows ?_
  by_cases hne : rows = []
  · rw [if_pos hne, groupsOf, if_pos (by rw [hne, List.length_nil])]
    exact .nil
  · have hpos : rows.length ≠ 0 := fun h => hne (List.eq_nil_of_length_eq_zero h)
    rw [bodyOf, if_neg hne] at hfits
    rw [if_neg hne, groupsOf, if_neg hpos]
    exact .cons (rowGroup_encodes (sizedChunks_encodes hrows 4 (by omega)) (by omega) hrows
      (by decide)) .nil

/-- The file of admitted rows is decoded to their columns. -/
theorem decode_fileOf (hfits : FooterFits schema limits rows) (hrows : rows.length < 2 ^ 31)
    (hwrites : ∀ c ∈ columnsOf schema rows, Writes rows.length c) :
    Parquet.decode (fileOf schema rows) =
      some (tableOf schema rows.length ((columnsOf schema rows).map Prod.snd)) := by
  have hsigned := limits.signed
  have hlength := hfits
  rw [FooterFits] at hlength
  refine decode_file (fields_columnsOf schema rows) hwrites hrows (fun hpos => ?_)
    (footerOf_encodes hfits hrows) (by omega)
  rw [bodyOf, if_neg (List.ne_nil_of_length_pos hpos)]

/-- A batch without rows is not charged; its file is built where the limits hold it. -/
structure EmptyFits (schema : ExportSchema) (limits : ExportLimits) : Prop where
  pages : PagesFit schema limits []
  footer : FooterFits schema limits []

/-- The normalized values of the rows, one list for each field of the schema. -/
def normalizedColumns (schema : ExportSchema) (normalized : List (List (Option PlainValue))) :
    List (List (Option PlainValue)) :=
  schema.fields.zipIdx.map fun c => normalized.map fun values => values.getD c.2 none

theorem columnsOf_eq_normalizedColumns (prepared : List PreparedParquetRow) :
    (columnsOf schema prepared).map Prod.snd =
      normalizedColumns schema (prepared.map PreparedParquetRow.values) := by
  rw [columnsOf, normalizedColumns, List.map_map]
  refine List.map_congr_left fun c _ => ?_
  rw [List.map_map]
  rfl

/-- The fields that the logical schema of a file is the text of. -/
def Declares (table : Parquet.Table) (fields : List ExportField) : Prop :=
  table.keyValues.lookup "makolet.logical_schema".toList = some (fieldsJson fields)

theorem declares_tableOf (rowCount : Nat) (columns : List (List (Option PlainValue)))
    (fields : List ExportField) :
    Declares (tableOf schema rowCount columns) fields ↔ fields = schema.fields := by
  have hlookup : (tableOf schema rowCount columns).keyValues.lookup
      "makolet.logical_schema".toList = some (fieldsJson schema.fields) := by
    have hentity : ("makolet.logical_schema".toList == "makolet.entity".toList) = false := by decide
    rw [tableOf, schemaMetadata, logicalSchemaJson, List.lookup_cons, hentity, List.lookup_cons,
      beq_self_eq_true]
  rw [Declares, hlookup]
  constructor
  · intro h
    exact fieldsJson_injective (Option.some.inj h.symm)
  · rintro rfl
    rfl

theorem loop_of_build {content : Bytes}
    (h : buildParquetBytes interpreter rows schema limits = .ok content) :
    ∃ w, schema.fields.zipIdx.foldlM (writeColumn rows limits) started = .ok w := by
  obtain ⟨_, -, h⟩ := bind_eq_ok.1 h
  obtain ⟨_, -, h⟩ := bind_eq_ok.1 h
  obtain ⟨w, hw, -⟩ := bind_eq_ok.1 h
  exact ⟨w, hw⟩

theorem exists_of_mem_right {α β : Type} {R : α → β → Prop} {xs : List α} {ys : List β}
    (h : List.Forall₂ R xs ys) {y : β} (hy : y ∈ ys) : ∃ x ∈ xs, R x y := by
  induction h with
  | nil => exact absurd hy List.not_mem_nil
  | @cons x y' xs ys hxy _ ih =>
    rcases List.mem_cons.1 hy with rfl | hy
    · exact ⟨x, List.mem_cons_self, hxy⟩
    · obtain ⟨x', hx', hr⟩ := ih hy
      exact ⟨x', List.mem_cons_of_mem x hx', hr⟩

/-- A batch of prepared rows that a budget has accepted one by one. -/
structure Batch (interpreter : Interpreter) (schema : ExportSchema) (limits : ExportLimits)
    (start b : ParquetBatchBudget) (prepared : List PreparedParquetRow) : Prop where
  init : ParquetBatchBudget.init interpreter schema limits = .ok start
  fold : prepared.foldlM (fun budget row => budget.add interpreter row) start = .ok b
  admits : ∀ row ∈ prepared, List.Forall₂ AdmitsValue schema.fields row.values

namespace Batch

variable {start b : ParquetBatchBudget} {prepared : List PreparedParquetRow}

theorem schema_eq (h : Batch interpreter schema limits start b prepared) : start.schema = schema :=
  (init_ok h.init).2.1

theorem limits_eq (h : Batch interpreter schema limits start b prepared) : start.limits = limits :=
  (init_ok h.init).2.2.1

theorem accounts (h : Batch interpreter schema limits start b prepared) :
    Accounts start b prepared := by
  have haccount := (init_ok h.init).1.foldlM prepared h.fold
  rwa [List.nil_append] at haccount

theorem admitsColumns (h : Batch interpreter schema limits start b prepared) :
    ∀ c ∈ columnsOf schema prepared, Admits c.1 c.2 :=
  fun _ hc => (admits_columnsOf h.admits hc).1

theorem file_le (h : Batch interpreter schema limits start b prepared) (hne : prepared ≠ []) :
    (∀ c ∈ columnsOf schema prepared, bodySize c ≤ limits.maxPageBytes) ∧
      4 + (pages prepared.length (columnsOf schema prepared)).length +
        (footerOf schema prepared).length + 8 ≤ limits.maxFileBytes :=
  Export.file_le hne h.schema_eq h.limits_eq (init_ok h.init).2.2.2 h.accounts h.admitsColumns

theorem pagesFit (h : Batch interpreter schema limits start b prepared) (hne : prepared ≠ []) :
    PagesFit schema limits prepared :=
  ⟨(h.file_le hne).1, by have hle := (h.file_le hne).2; omega⟩

theorem footerFits (h : Batch interpreter schema limits start b prepared) (hne : prepared ≠ []) :
    FooterFits schema limits prepared := by
  rw [FooterFits, bodyOf, if_neg hne]
  exact (h.file_le hne).2

theorem count (h : Batch interpreter schema limits start b prepared) :
    prepared.length < 2 ^ 31 := by
  have hsigned := limits.signed
  by_cases hne : prepared = []
  · rw [hne]
    decide
  · have hle := h.accounts.rowCount_le hne
    rw [h.limits_eq] at hle
    omega

theorem writes (h : Batch interpreter schema limits start b prepared) :
    ∀ c ∈ columnsOf schema prepared, Writes prepared.length c := by
  have hsigned := limits.signed
  refine writes_columnsOf h.count h.admits fun c hc => ?_
  by_cases hne : prepared = []
  · obtain ⟨hadmitted, hlength⟩ := admits_columnsOf h.admits hc
    have hle := bodySize_nil hadmitted (by rw [hlength, hne, List.length_nil])
    omega
  · have hle := (h.file_le hne).1 c hc
    omega

theorem build_iff (h : Batch interpreter schema limits start b prepared) {w : Written}
    (hloop : schema.fields.zipIdx.foldlM (writeColumn prepared limits) started = .ok w)
    (content : Bytes) :
    buildParquetBytes interpreter prepared schema limits = .ok content ↔
      FooterFits schema limits prepared ∧ content = fileOf schema prepared :=
  buildParquetBytes_ok_iff h.init h.fold h.writes hloop h.pagesFit content

/-- What is built is the file of the batch, within the file limit. -/
theorem of_build (h : Batch interpreter schema limits start b prepared) {content : Bytes}
    (hcontent : buildParquetBytes interpreter prepared schema limits = .ok content) :
    FooterFits schema limits prepared ∧ content = fileOf schema prepared := by
  obtain ⟨w, hw⟩ := loop_of_build hcontent
  exact (h.build_iff hw content).1 hcontent

theorem decode (h : Batch interpreter schema limits start b prepared) {content : Bytes}
    (hcontent : buildParquetBytes interpreter prepared schema limits = .ok content) :
    Parquet.decode content =
      some (tableOf schema prepared.length ((columnsOf schema prepared).map Prod.snd)) := by
  obtain ⟨hfits, rfl⟩ := h.of_build hcontent
  exact decode_fileOf hfits h.count h.writes

/-- A batch is built where its pages and its footer fit. -/
theorem build (h : Batch interpreter schema limits start b prepared)
    (hpages : PagesFit schema limits prepared) (hfooter : FooterFits schema limits prepared) :
    buildParquetBytes interpreter prepared schema limits = .ok (fileOf schema prepared) :=
  (h.build_iff (loop_eq h.writes hpages) _).2 ⟨hfooter, rfl⟩

end Batch

/-- **Every batch that the budget accepts is read back from its file.** -/
theorem parquet_round_trip {rows : List (List (List Char × PyValue))}
    {prepared : List PreparedParquetRow} {budget : ParquetBatchBudget}
    (hbudget : ParquetBatchBudget.init interpreter schema limits = .ok budget)
    (haccepted : prepareRows interpreter budget 0 rows = .ok prepared) :
    ∃ normalized,
      rows.mapM (fun row => schema.fields.mapM (normalizeField limits row)) = .ok normalized ∧
      (∀ content, buildParquetBytes interpreter prepared schema limits = .ok content →
        Parquet.decode content =
          some (tableOf schema rows.length (normalizedColumns schema normalized))) ∧
      (rows ≠ [] ∨ EmptyFits schema limits →
        ∃ content, buildParquetBytes interpreter prepared schema limits = .ok content) ∧
      ∀ fields, Declares (tableOf schema rows.length (normalizedColumns schema normalized)) fields ↔
        fields = schema.fields := by
  obtain ⟨haccounts, hschema, hlimits, -⟩ := init_ok hbudget
  obtain ⟨hprepares, b, hfold⟩ := prepareRows_ok rows haccounts haccepted
  rw [hschema, hlimits] at hprepares
  have hadmits : ∀ row ∈ prepared, List.Forall₂ AdmitsValue schema.fields row.values := by
    intro row hrow
    obtain ⟨raw, -, hraw⟩ := exists_of_mem_right hprepares hrow
    exact hraw.imp fun field v h => h.2
  have hbatch : Batch interpreter schema limits budget b prepared := ⟨hbudget, hfold, hadmits⟩
  have hempty : prepared = [] ↔ rows = [] := by
    rw [← List.length_eq_zero_iff, ← List.length_eq_zero_iff, hprepares.length_eq]
  refine ⟨prepared.map PreparedParquetRow.values, ?_, ?_, ?_, fun fields =>
    declares_tableOf rows.length _ fields⟩
  · rw [mapM_eq_ok, List.forall₂_map_right_iff]
    exact hprepares.imp fun row p h => mapM_eq_ok.2 (h.imp fun field v hv => hv.1)
  · intro content hcontent
    rw [hbatch.decode hcontent, columnsOf_eq_normalizedColumns, hprepares.length_eq]
  · intro hcase
    by_cases hne : prepared = []
    · rcases hcase with hrows | hempty'
      · exact absurd (hempty.1 hne) hrows
      · exact ⟨_, hbatch.build (hne ▸ hempty'.pages) (hne ▸ hempty'.footer)⟩
    · exact ⟨_, hbatch.build (hbatch.pagesFit hne) (hbatch.footerFits hne)⟩

/-- The sizes of a 64-bit interpreter. -/
def cpython : Interpreter where
  pointerBytes := 8
  listBaseBytes := 56
  preparedRowBytes := 40
  tupleBytes := fun n => 40 + 8 * n
  valueBytes
    | none => 16
    | some (.bytes bytes) => 33 + bytes.length
    | some (.int _) => 32
    | some (.bool _) => 28

def shelfSchema : ExportSchema where
  entity := "shelf".toList
  version := "1".toList
  fields := [⟨"name".toList, .string, true, by decide⟩, ⟨"units".toList, .int32, false, by decide⟩,
    ⟨"active".toList, .boolean, true, by decide⟩]
  identified := by decide
  versioned := by decide
  inhabited := by decide
  unique := by decide

def shelfRows : List (List (List Char × PyValue)) :=
  [[("name".toList, .str []), ("units".toList, .int (-2147483648)), ("active".toList, .bool true)],
    [("units".toList, .int 2147483647)]]

theorem parquet_round_trip_shelf : ∃ budget prepared content normalized,
    ParquetBatchBudget.init cpython shelfSchema .default = .ok budget ∧
      prepareRows cpython budget 0 shelfRows = .ok prepared ∧
      shelfRows.mapM (fun row => shelfSchema.fields.mapM (normalizeField .default row)) =
        .ok normalized ∧
      buildParquetBytes cpython prepared shelfSchema .default = .ok content ∧
      Parquet.decode content =
        some (tableOf shelfSchema shelfRows.length (normalizedColumns shelfSchema normalized)) := by
  obtain ⟨budget, hbudget⟩ : ∃ budget,
      ParquetBatchBudget.init cpython shelfSchema .default = .ok budget := ⟨_, rfl⟩
  have hok : ((ParquetBatchBudget.init cpython shelfSchema .default).bind fun budget =>
      prepareRows cpython budget 0 shelfRows).toBool = true := by decide +kernel
  rw [hbudget] at hok
  replace hok : (prepareRows cpython budget 0 shelfRows).toBool = true := hok
  obtain ⟨prepared, hprepared⟩ : ∃ prepared,
      prepareRows cpython budget 0 shelfRows = .ok prepared := by
    cases hrows : prepareRows cpython budget 0 shelfRows with
    | ok prepared => exact ⟨prepared, rfl⟩
    | error e =>
      rw [hrows] at hok
      cases hok
  obtain ⟨normalized, hnormalized, hdecode, hbuild, -⟩ := parquet_round_trip hbudget hprepared
  obtain ⟨content, hcontent⟩ := hbuild (Or.inl (by decide))
  exact ⟨budget, prepared, content, normalized, hbudget, hprepared, hnormalized, hcontent,
    hdecode content hcontent⟩

end RoundTrip

end Makolet.Export
