import Mathlib.Data.List.Nodup
import Makolet.Export.BatchBound

/-!
# Partitioned datasets

`PartitionedParquetExporter.export` of `adapters/export/dataset.py`: rows are collected in a chunk
until the budget of the chunk turns one away, the chunk becomes a part file, and the row that was
turned away starts the next chunk under a fresh budget. The parts are staged and then published as a
generation, of which the manifest lists the files.

`Progress` holds in every state of the loop; `export_loses_no_row` is read off it at the end.
-/

set_option autoImplicit false

namespace Makolet.Export

open Makolet.Lib
open Makolet.Lib.Parquet (PlainValue)

/-! ## The exporter -/

structure ManifestFile where
  path : List Char
  sha256 : List Char
  byteLength : Nat
  rowCount : Nat
  deriving DecidableEq, Repr

/-- A part file and its entry. -/
structure StagedPart where
  file : ManifestFile
  content : Bytes
  deriving DecidableEq, Repr

/-- What the exporter meets: the digest, the operation budget, and whatever else may refuse the
publication (an existing manifest under the policy, the journal, the commit). -/
structure ExportEnvironment where
  interpreter : Interpreter
  sha256 : Bytes → List Char
  checkpoint : Nat → Except ExportError Unit
  chargeFile : Nat → Nat → Except ExportError Unit
  commit : List ManifestFile → Nat → Except ExportError Unit

/-- The name of a part. -/
def partName (n : Nat) : List Char := "part-".toList ++ padded 5 n ++ ".parquet".toList

structure ExportState where
  staged : List StagedPart
  chunk : List PreparedParquetRow
  budget : ParquetBatchBudget
  rowCount : Nat

abbrev ExportRow := List (List Char × PyValue)

section Exporter

variable (env : ExportEnvironment) (schema : ExportSchema) (limits : ExportLimits)

/-- `_write_chunk`. -/
def writeChunk (staged : List StagedPart) (rows : List PreparedParquetRow) :
    Except ExportError (List StagedPart) := do
  require (staged.length < limits.maxFiles) (.validation "dataset exceeds max_files")
  let content ← buildParquetBytes env.interpreter rows schema limits
  env.chargeFile staged.length content.length
  pure (staged ++
    [⟨⟨partName staged.length, env.sha256 content, content.length, rows.length⟩, content⟩])

/-- One turn of the loop. -/
def exportRow (s : ExportState) (row : ExportRow) : Except ExportError ExportState := do
  let rowCount := s.rowCount + 1
  env.checkpoint rowCount
  require (rowCount ≤ limits.maxDatasetRows) (.validation "dataset exceeds max_dataset_rows")
  let prepared ← s.budget.prepareRow row (rowCount - 1)
  let added ← s.budget.addIfWithinLimits env.interpreter prepared
  match added with
  | .ok budget => pure ⟨s.staged, s.chunk ++ [prepared], budget, rowCount⟩
  | .error reason =>
    if s.chunk = [] then .error reason
    else do
      let staged ← writeChunk env schema limits s.staged s.chunk
      let fresh ← ParquetBatchBudget.init env.interpreter schema limits
      let again ← fresh.addIfWithinLimits env.interpreter prepared
      match again with
      | .ok budget => pure ⟨staged, [prepared], budget, rowCount⟩
      | .error reason => .error reason

/-- The loop over the rows. -/
def exportRows (rows : List ExportRow) : Except ExportError ExportState := do
  let budget ← ParquetBatchBudget.init env.interpreter schema limits
  rows.foldlM (exportRow env schema limits) ⟨[], [], budget, 0⟩

/-- The last chunk, which an empty dataset has as well. -/
def lastChunk (s : ExportState) : Except ExportError (List StagedPart) :=
  if s.chunk ≠ [] ∨ s.staged = [] then writeChunk env schema limits s.staged s.chunk
  else pure s.staged

/-- `_validate_existing_generation`. -/
def validateExistingGeneration (files : List (List Char × Bytes)) (staged : List StagedPart) :
    Except ExportError Unit := do
  let expectedNames := staged.map fun p : StagedPart => p.file.path
  let actualNames := files.map Prod.fst
  require ((∀ name ∈ actualNames, name ∈ expectedNames) ∧
      ∀ name ∈ expectedNames, name ∈ actualNames)
    (.conflict "existing dataset generation has unexpected files")
  require (∀ p ∈ staged, ∀ content ∈ files.lookup p.file.path,
      content.length = p.file.byteLength ∧ env.sha256 content = p.file.sha256)
    (.conflict "existing dataset generation is corrupt")

structure ExportResult where
  files : List ManifestFile
  rowCount : Nat
  generation : List (List Char × Bytes)

/-- `export`, where the generation may be there already. -/
def exportPartition (existing : Option (List (List Char × Bytes))) (rows : List ExportRow) :
    Except ExportError ExportResult := do
  let s ← exportRows env schema limits rows
  let staged ← lastChunk env schema limits s
  let files := staged.map StagedPart.file
  match existing with
  | some generation => do
    validateExistingGeneration env generation staged
    env.commit files s.rowCount
    pure ⟨files, s.rowCount, generation⟩
  | none => do
    env.commit files s.rowCount
    pure ⟨files, s.rowCount, staged.map fun p => (p.file.path, p.content)⟩

end Exporter

/-! ## Names of parts -/

theorem padded_injective (width : Nat) : Function.Injective (padded width) := by
  have hvalue : ∀ n, Nat.ofDigitChars 10 (padded width n) 0 = n := by
    intro n
    rw [padded, Nat.ofDigitChars_append, Nat.ofDigitChars_replicate_zero, Nat.mul_zero, natText,
      Nat.ofDigitChars_ten_toDigits]
  intro m n h
  rw [← hvalue m, h, hvalue n]

theorem partName_injective : Function.Injective partName := by
  intro m n h
  exact padded_injective 5 (List.append_cancel_left (List.append_cancel_right h))

/-! ## Rows of a decoded part -/

/-- The rows of a table. -/
def tableRows (table : Parquet.Table) : List (List (Option PlainValue)) :=
  (List.range table.rowCount).map fun j => table.columns.map fun column => column.getD j none

theorem tableRows_tableOf {schema : ExportSchema} {rows : List (List (Option PlainValue))}
    (h : ∀ row ∈ rows, row.length = schema.fields.length) :
    tableRows (tableOf schema rows.length (normalizedColumns schema rows)) = rows := by
  refine List.ext_getElem (by simp [tableRows, tableOf]) fun j hj hj' => ?_
  have hrow := h rows[j] (List.getElem_mem hj')
  refine List.ext_getElem (by simp [tableRows, tableOf, normalizedColumns, hrow]) fun i hi hi' => ?_
  simp only [tableRows, tableOf, normalizedColumns, List.getElem_map, List.getElem_range,
    List.getElem_zipIdx, Nat.zero_add]
  rw [List.getD_eq_getElem?_getD, List.getElem?_map, List.getElem?_eq_getElem hj', Option.map_some,
    Option.getD_some, List.getD_eq_getElem?_getD, List.getElem?_eq_getElem hi', Option.getD_some]

/-! ## Batches that grow -/

namespace Batch

variable {interpreter : Interpreter} {schema : ExportSchema} {limits : ExportLimits}
  {start b c : ParquetBatchBudget} {prepared : List PreparedParquetRow} {row : PreparedParquetRow}

theorem fresh (h : ParquetBatchBudget.init interpreter schema limits = .ok start) :
    Batch interpreter schema limits start start [] :=
  ⟨h, rfl, fun _ hrow => by cases hrow⟩

theorem snoc (h : Batch interpreter schema limits start b prepared)
    (hadd : b.addIfWithinLimits interpreter row = .ok (.ok c))
    (hadmits : List.Forall₂ AdmitsValue schema.fields row.values) :
    Batch interpreter schema limits start c (prepared ++ [row]) := by
  refine ⟨h.init, ?_, ?_⟩
  · rw [List.foldlM_append, h.fold, ok_bind, List.foldlM_cons, add_of_accepted hadd, ok_bind]
    rfl
  · intro other hother
    rcases List.mem_append.1 hother with hother | hother
    · exact h.admits other hother
    · rw [List.mem_singleton.1 hother]
      exact hadmits

theorem budget_keeps (h : Batch interpreter schema limits start b prepared) :
    b.schema = schema ∧ b.limits = limits := by
  have haccounts := h.accounts
  exact ⟨haccounts.schema.trans h.schema_eq, haccounts.limits.trans h.limits_eq⟩

/-- A chunk without rows has a fresh budget. -/
theorem budget_of_nil (h : Batch interpreter schema limits start b []) : b = start := by
  have hfold := h.fold
  rw [List.foldlM_nil] at hfold
  exact (pure_eq_ok.1 hfold).symm

end Batch

/-- A row is prepared alike under every budget of the schema and the limits. -/
theorem prepareRow_congr {b c : ParquetBatchBudget} (hschema : b.schema = c.schema)
    (hlimits : b.limits = c.limits) (row : ExportRow) (rowIndex : Nat) :
    b.prepareRow row rowIndex = c.prepareRow row rowIndex := by
  rw [ParquetBatchBudget.prepareRow, ParquetBatchBudget.prepareRow, hschema, hlimits]

/-! ## Parts -/

section Parts

variable (env : ExportEnvironment) (schema : ExportSchema) (limits : ExportLimits)

/-- The part file of a chunk. -/
structure IsPart (part : StagedPart) (chunk : List PreparedParquetRow) : Prop where
  batch : ∃ start b, Batch env.interpreter schema limits start b chunk
  built : buildParquetBytes env.interpreter chunk schema limits = .ok part.content
  sha256 : part.file.sha256 = env.sha256 part.content
  byteLength : part.file.byteLength = part.content.length
  rowCount : part.file.rowCount = chunk.length

/-- A content is read back as the rows, and is within the limits. -/
structure HoldsRows (content : Bytes) (rows : List (List (Option PlainValue))) : Prop where
  decodes : (Parquet.decode content).map tableRows = some rows
  file_le : content.length ≤ limits.maxFileBytes
  rows_le : rows.length ≤ limits.maxRowsPerFile
  pages_le : rows ≠ [] → ∃ prepared : List PreparedParquetRow,
    prepared.map PreparedParquetRow.values = rows ∧
      buildParquetBytes env.interpreter prepared schema limits = .ok content ∧
      ∀ index field body, schema.fields[index]? = some field →
        pageBody prepared field index = .ok body → body.length ≤ limits.maxPageBytes

variable {env schema limits}

theorem IsPart.holds {part : StagedPart} {chunk : List PreparedParquetRow}
    (h : IsPart env schema limits part chunk) :
    HoldsRows env schema limits part.content (chunk.map PreparedParquetRow.values) := by
  obtain ⟨start, b, hbatch⟩ := h.batch
  have haccounts := hbatch.accounts
  have hwidth : ∀ row ∈ chunk.map PreparedParquetRow.values,
      row.length = schema.fields.length := by
    intro row hrow
    obtain ⟨p, hp, rfl⟩ := List.mem_map.1 hrow
    rw [haccounts.width p hp, hbatch.schema_eq]
  refine ⟨?_, ?_, ?_, ?_⟩
  · have hdecode := hbatch.decode h.built
    rw [columnsOf_eq_normalizedColumns] at hdecode
    have hrows := tableRows_tableOf hwidth
    rw [List.length_map] at hrows
    rw [hdecode, Option.map_some, hrows]
  · obtain ⟨hfits, hcontent⟩ := hbatch.of_build h.built
    rw [hcontent, length_fileOf]
    exact hfits
  · rw [List.length_map]
    by_cases hne : chunk = []
    · rw [hne]
      exact Nat.zero_le _
    · have hle := haccounts.rowCount_le hne
      rwa [hbatch.limits_eq] at hle
  · intro hne
    refine ⟨chunk, rfl, h.built, fun index field body hfield hbody => ?_⟩
    have hchunk : chunk ≠ [] := fun hnil => hne (by rw [hnil]; rfl)
    obtain ⟨n, hn, hle⟩ := hbatch.pageBody_le hfield hbody
    have hpage := haccounts.page_le hchunk n (List.mem_of_getElem? hn)
    rw [hbatch.limits_eq] at hpage
    exact hle.trans hpage

theorem writeChunk_eq_ok {staged staged' : List StagedPart} {chunk : List PreparedParquetRow}
    {start b : ParquetBatchBudget} (hbatch : Batch env.interpreter schema limits start b chunk)
    (h : writeChunk env schema limits staged chunk = .ok staged') :
    ∃ part, staged' = staged ++ [part] ∧ staged.length < limits.maxFiles ∧
      part.file.path = partName staged.length ∧ IsPart env schema limits part chunk := by
  obtain ⟨hfiles, h⟩ := require_bind_eq_ok.1 h
  obtain ⟨content, hcontent, h⟩ := bind_eq_ok.1 h
  obtain ⟨⟨⟩, -, h⟩ := bind_eq_ok.1 h
  exact ⟨_, (pure_eq_ok.1 h).symm, hfiles, rfl, ⟨start, b, hbatch⟩, hcontent, rfl, rfl, rfl⟩

/-- A chunk that was accepted can be refused for the number of files and by the operation only. -/
theorem writeChunk_eq_error {staged : List StagedPart} {chunk : List PreparedParquetRow}
    {start b : ParquetBatchBudget} (hbatch : Batch env.interpreter schema limits start b chunk)
    (hne : chunk ≠ []) {e : ExportError}
    (h : writeChunk env schema limits staged chunk = .error e) :
    (limits.maxFiles ≤ staged.length ∧ e = .validation "dataset exceeds max_files") ∨
      ∃ byteLength, env.chargeFile staged.length byteLength = .error e := by
  by_cases hfiles : staged.length < limits.maxFiles
  · rw [writeChunk, require_bind_of hfiles,
      hbatch.build (hbatch.pagesFit hne) (hbatch.footerFits hne), ok_bind] at h
    refine Or.inr ⟨(fileOf schema chunk).length, ?_⟩
    cases hcharge : env.chargeFile staged.length (fileOf schema chunk).length with
    | ok _ =>
      rw [hcharge] at h
      cases h
    | error e' =>
      rw [hcharge] at h
      cases h
      rfl
  · rw [writeChunk, require, if_neg hfiles] at h
    cases h
    exact Or.inl ⟨by omega, rfl⟩

/-! ## The loop -/

variable (env schema limits)

/-- What holds after the rows `done`, of which `chunks` are staged. -/
structure Progress (done : List ExportRow) (s : ExportState)
    (chunks : List (List PreparedParquetRow)) : Prop where
  parts : List.Forall₂ (IsPart env schema limits) s.staged chunks
  names : s.staged.map (fun part => part.file.path) = (List.range s.staged.length).map partName
  staged_le : s.staged.length ≤ limits.maxFiles
  full : ∀ chunk ∈ chunks, chunk ≠ []
  prepares : List.Forall₂ (Prepares schema limits) done (chunks.flatten ++ s.chunk)
  batch : ∃ start, Batch env.interpreter schema limits start s.budget s.chunk
  count : s.rowCount = done.length

variable {env schema limits}

theorem Progress.start {budget : ParquetBatchBudget}
    (h : ParquetBatchBudget.init env.interpreter schema limits = .ok budget) :
    Progress env schema limits [] ⟨[], [], budget, 0⟩ [] where
  parts := .nil
  names := rfl
  staged_le := Nat.zero_le _
  full := fun _ hchunk => by cases hchunk
  prepares := .nil
  batch := ⟨budget, Batch.fresh h⟩
  count := rfl

theorem names_append {staged : List StagedPart} {part : StagedPart}
    (h : staged.map (fun part => part.file.path) = (List.range staged.length).map partName)
    (hpart : part.file.path = partName staged.length) :
    (staged ++ [part]).map (fun part => part.file.path) =
      (List.range (staged ++ [part]).length).map partName := by
  rw [List.map_append, h, List.length_append, List.length_singleton, List.range_succ,
    List.map_append, List.map_singleton, List.map_singleton, hpart]

/-- A row is kept in the chunk, or starts the next one behind a new part. -/
theorem Progress.step {done : List ExportRow} {s s' : ExportState} {row : ExportRow}
    {chunks : List (List PreparedParquetRow)} (h : Progress env schema limits done s chunks)
    (hrow : exportRow env schema limits s row = .ok s') :
    ∃ chunks', Progress env schema limits (done ++ [row]) s' chunks' := by
  obtain ⟨start, hbatch⟩ := h.batch
  obtain ⟨hschema, hlimits⟩ := hbatch.budget_keeps
  obtain ⟨⟨⟩, -, hrow⟩ := bind_eq_ok.1 hrow
  obtain ⟨-, hrow⟩ := require_bind_eq_ok.1 hrow
  obtain ⟨prepared, hprepared, hrow⟩ := bind_eq_ok.1 hrow
  obtain ⟨added, hadded, hrow⟩ := bind_eq_ok.1 hrow
  have hprepares := prepareRow_ok hprepared
  rw [hschema, hlimits] at hprepares
  have hadmits : List.Forall₂ AdmitsValue schema.fields prepared.values :=
    hprepares.imp fun _ _ hv => hv.2
  have hcount : s.rowCount + 1 = (done ++ [row]).length := by
    rw [List.length_append, h.count, List.length_singleton]
  have hall : List.Forall₂ (Prepares schema limits) (done ++ [row])
      ((chunks.flatten ++ s.chunk) ++ [prepared]) :=
    List.rel_append h.prepares (.cons hprepares .nil)
  cases added with
  | ok budget =>
    cases pure_eq_ok.1 hrow
    rw [List.append_assoc] at hall
    exact ⟨chunks, h.parts, h.names, h.staged_le, h.full, hall,
      ⟨start, hbatch.snoc hadded hadmits⟩, hcount⟩
  | error reason =>
    dsimp only at hrow
    split_ifs at hrow with hchunk
    obtain ⟨staged, hstaged, hrow⟩ := bind_eq_ok.1 hrow
    obtain ⟨fresh, hfresh, hrow⟩ := bind_eq_ok.1 hrow
    obtain ⟨again, hagain, hrow⟩ := bind_eq_ok.1 hrow
    obtain ⟨part, rfl, hfiles, hname, hpart⟩ := writeChunk_eq_ok hbatch hstaged
    cases again with
    | error reason' => cases hrow
    | ok budget =>
      cases pure_eq_ok.1 hrow
      have hflatten : (chunks ++ [s.chunk]).flatten ++ [prepared] =
          (chunks.flatten ++ s.chunk) ++ [prepared] := by
        rw [List.flatten_append, List.flatten_singleton]
      refine ⟨chunks ++ [s.chunk], List.rel_append h.parts (.cons hpart .nil),
        names_append h.names hname, ?_, ?_, ?_, ?_, hcount⟩
      · rw [List.length_append, List.length_singleton]
        exact hfiles
      · intro chunk hmem
        rcases List.mem_append.1 hmem with hmem | hmem
        · exact h.full chunk hmem
        · rw [List.mem_singleton.1 hmem]
          exact hchunk
      · rw [hflatten]
        exact hall
      · exact ⟨fresh, (Batch.fresh hfresh).snoc hagain hadmits⟩

theorem Progress.run (rows : List ExportRow) : ∀ {done : List ExportRow} {s s' : ExportState}
    {chunks : List (List PreparedParquetRow)}, Progress env schema limits done s chunks →
      rows.foldlM (exportRow env schema limits) s = .ok s' →
        ∃ chunks', Progress env schema limits (done ++ rows) s' chunks' := by
  induction rows with
  | nil =>
    intro done s s' chunks h hrun
    cases pure_eq_ok.1 hrun
    rw [List.append_nil]
    exact ⟨chunks, h⟩
  | cons row rows ih =>
    intro done s s' chunks h hrun
    rw [List.foldlM_cons] at hrun
    obtain ⟨middle, hmiddle, hrun⟩ := bind_eq_ok.1 hrun
    obtain ⟨chunks', h'⟩ := h.step hmiddle
    obtain ⟨chunks'', h''⟩ := ih h' hrun
    rw [List.append_assoc] at h''
    exact ⟨chunks'', h''⟩

theorem Progress.of_exportRows {rows : List ExportRow} {s : ExportState}
    (h : exportRows env schema limits rows = .ok s) :
    ∃ chunks, Progress env schema limits rows s chunks := by
  obtain ⟨budget, hbudget, h⟩ := bind_eq_ok.1 h
  exact (Progress.start hbudget).run rows h

/-! ## Rows that are turned away -/

theorem optionalSize_total {field : ExportField} {v : Option PlainValue}
    (h : AdmitsValue field v) : ∃ n, ParquetBatchBudget.optionalSize field v = .ok n := by
  cases v with
  | none => exact ⟨0, rfl⟩
  | some w =>
    have hfits := h.fits w rfl
    rw [ParquetBatchBudget.optionalSize]
    cases ht : field.valueType <;> cases w <;> simp_all [Fits, plainValueSize]

theorem addedPages_total {limits : ExportLimits} :
    ∀ {pages : List (ExportField × Option PlainValue × Nat)},
      (∀ p ∈ pages, AdmitsValue p.1 p.2.1) →
        ∃ added, ParquetBatchBudget.addedPages limits pages = .ok added := by
  intro pages
  induction pages with
  | nil => exact fun _ => ⟨_, rfl⟩
  | cons p rest ih =>
    intro h
    obtain ⟨field, value, pageSize⟩ := p
    obtain ⟨n, hn⟩ := optionalSize_total (h _ List.mem_cons_self)
    obtain ⟨added, hadded⟩ := ih fun q hq => h q (List.mem_cons_of_mem _ hq)
    rw [ParquetBatchBudget.addedPages, hn, ok_bind]
    dsimp only
    by_cases hpage : limits.maxPageBytes < pageSize + n + if field.nullable then 2 else 0
    · rw [if_pos hpage]
      exact ⟨_, rfl⟩
    · rw [if_neg hpage, hadded, ok_bind]
      exact ⟨_, rfl⟩

/-- A prepared row is either added or turned away for a reason. -/
theorem addIfWithinLimits_total {interpreter : Interpreter} {b : ParquetBatchBudget}
    {row : PreparedParquetRow} (h : List.Forall₂ AdmitsValue b.schema.fields row.values) :
    ∃ added, b.addIfWithinLimits interpreter row = .ok added := by
  have hpages : ∀ p ∈ b.schema.fields.zip (row.values.zip b.usage.pageSizes),
      AdmitsValue p.1 p.2.1 := by
    rintro ⟨field, value, n⟩ hp
    obtain ⟨i, hi, heq⟩ := List.mem_iff_getElem.1 hp
    rw [List.length_zip, List.length_zip] at hi
    rw [List.getElem_zip, List.getElem_zip] at heq
    cases heq
    exact h.get (by omega) (by omega)
  obtain ⟨added, hadded⟩ := @addedPages_total b.limits _ hpages
  rw [ParquetBatchBudget.addIfWithinLimits, ParquetBatchBudget.prospectiveUsage,
    require_bind_of h.length_eq.symm]
  dsimp only
  split
  · exact ⟨_, rfl⟩
  · rw [hadded, ok_bind]
    exact ⟨_, rfl⟩

variable (env schema limits)

/-- A row that a file of its own does not take: it is not prepared, or the budget of an empty file
turns it away. -/
def RejectedAlone (row : ExportRow) (rowIndex : Nat) (e : ExportError) : Prop :=
  ∃ fresh, ParquetBatchBudget.init env.interpreter schema limits = .ok fresh ∧
    (fresh.prepareRow row rowIndex = .error e ∨
      ∃ prepared, fresh.prepareRow row rowIndex = .ok prepared ∧
        fresh.addIfWithinLimits env.interpreter prepared = .ok (.error e))

/-- Why the loop stops at a row. -/
inductive StopsAt (s : ExportState) (row : ExportRow) (e : ExportError) : Prop
  | checkpoint (h : env.checkpoint (s.rowCount + 1) = .error e)
  | datasetRows (hle : limits.maxDatasetRows ≤ s.rowCount)
      (h : e = .validation "dataset exceeds max_dataset_rows")
  | files (hle : limits.maxFiles ≤ s.staged.length)
      (h : e = .validation "dataset exceeds max_files")
  | operation (byteLength : Nat) (h : env.chargeFile s.staged.length byteLength = .error e)
  | alone (h : RejectedAlone env schema limits row s.rowCount e)

variable {env schema limits}

theorem Progress.stops {done : List ExportRow} {s : ExportState} {row : ExportRow}
    {chunks : List (List PreparedParquetRow)} (h : Progress env schema limits done s chunks)
    {e : ExportError} (hrow : exportRow env schema limits s row = .error e) :
    StopsAt env schema limits s row e := by
  obtain ⟨start, hbatch⟩ := h.batch
  obtain ⟨hschema, hlimits⟩ := hbatch.budget_keeps
  have hprepare : ∀ rowIndex, s.budget.prepareRow row rowIndex = start.prepareRow row rowIndex :=
    prepareRow_congr (hschema.trans hbatch.schema_eq.symm) (hlimits.trans hbatch.limits_eq.symm) row
  -- The checks in their order: the caller's, the rows of the dataset, the row, and where it does
  -- not fit, the chunk before it and the row in a chunk of its own.
  rw [exportRow] at hrow
  cases hcheckpoint : env.checkpoint (s.rowCount + 1) with
  | error e' =>
    rw [hcheckpoint] at hrow
    cases hrow
    exact .checkpoint hcheckpoint
  | ok _ =>
    rw [hcheckpoint, ok_bind] at hrow
    by_cases hcount : s.rowCount + 1 ≤ limits.maxDatasetRows
    · rw [require_bind_of hcount, Nat.add_sub_cancel, hprepare] at hrow
      cases hprepared : start.prepareRow row s.rowCount with
      | error e' =>
        rw [hprepared] at hrow
        cases hrow
        exact .alone ⟨start, hbatch.init, Or.inl hprepared⟩
      | ok prepared =>
        have hprepares := prepareRow_ok hprepared
        rw [hbatch.schema_eq, hbatch.limits_eq] at hprepares
        have hadmits : List.Forall₂ AdmitsValue schema.fields prepared.values :=
          hprepares.imp fun _ _ hv => hv.2
        have hadmitsBudget : List.Forall₂ AdmitsValue s.budget.schema.fields prepared.values := by
          rwa [hschema]
        have hadmitsStart : List.Forall₂ AdmitsValue start.schema.fields prepared.values := by
          rwa [hbatch.schema_eq]
        obtain ⟨added, hadded⟩ := @addIfWithinLimits_total env.interpreter _ _ hadmitsBudget
        obtain ⟨again, hagain⟩ := @addIfWithinLimits_total env.interpreter _ _ hadmitsStart
        rw [hprepared, ok_bind, hadded, ok_bind] at hrow
        cases added with
        | ok budget => cases hrow
        | error reason =>
          dsimp only at hrow
          split_ifs at hrow with hchunk
          · -- The chunk is empty, so that its budget is the fresh one.
            cases hrow
            rw [hchunk] at hbatch
            rw [hbatch.budget_of_nil] at hadded
            exact .alone ⟨start, hbatch.init, Or.inr ⟨prepared, hprepared, hadded⟩⟩
          · cases hwrite : writeChunk env schema limits s.staged s.chunk with
            | error e' =>
              rw [hwrite] at hrow
              cases hrow
              rcases writeChunk_eq_error hbatch hchunk hwrite with ⟨hfiles, he⟩ | ⟨n, hcharge⟩
              · exact .files hfiles he
              · exact .operation n hcharge
            | ok staged =>
              rw [hwrite, ok_bind, hbatch.init, ok_bind, hagain, ok_bind] at hrow
              cases again with
              | ok budget => cases hrow
              | error reason' =>
                cases hrow
                exact .alone ⟨start, hbatch.init, Or.inr ⟨prepared, hprepared, hagain⟩⟩
    · rw [require, if_neg hcount] at hrow
      cases hrow
      exact .datasetRows (by omega) rfl

theorem Progress.run_stops (rows : List ExportRow) : ∀ {done : List ExportRow} {s : ExportState}
    {chunks : List (List PreparedParquetRow)}, Progress env schema limits done s chunks →
      ∀ {e : ExportError}, rows.foldlM (exportRow env schema limits) s = .error e →
        ∃ before row after s', rows = before ++ row :: after ∧
          before.foldlM (exportRow env schema limits) s = .ok s' ∧
            StopsAt env schema limits s' row e := by
  induction rows with
  | nil =>
    intro done s chunks h e hrun
    cases hrun
  | cons row rows ih =>
    intro done s chunks h e hrun
    rw [List.foldlM_cons] at hrun
    cases hrow : exportRow env schema limits s row with
    | error e' =>
      rw [hrow] at hrun
      cases hrun
      exact ⟨[], row, rows, s, rfl, rfl, h.stops hrow⟩
    | ok middle =>
      rw [hrow, ok_bind] at hrun
      obtain ⟨chunks', h'⟩ := h.step hrow
      obtain ⟨before, row', after, s', rfl, hbefore, hstops⟩ := ih h' hrun
      refine ⟨row :: before, row', after, s', rfl, ?_, hstops⟩
      rw [List.foldlM_cons, hrow, ok_bind]
      exact hbefore

/-! ## Publication -/

variable (env schema limits)

/-- What the parts of a dataset are when they are complete. -/
structure Complete (rows : List ExportRow) (staged : List StagedPart)
    (chunks : List (List PreparedParquetRow)) : Prop where
  parts : List.Forall₂ (IsPart env schema limits) staged chunks
  names : staged.map (fun part => part.file.path) = (List.range staged.length).map partName
  staged_le : staged.length ≤ limits.maxFiles
  full : rows ≠ [] → ∀ chunk ∈ chunks, chunk ≠ []
  prepares : List.Forall₂ (Prepares schema limits) rows chunks.flatten

variable {env schema limits}

theorem Progress.complete {rows : List ExportRow} {s : ExportState} {staged : List StagedPart}
    {chunks : List (List PreparedParquetRow)} (h : Progress env schema limits rows s chunks)
    (hlast : lastChunk env schema limits s = .ok staged) :
    ∃ chunks', Complete env schema limits rows staged chunks' := by
  obtain ⟨start, hbatch⟩ := h.batch
  rw [lastChunk] at hlast
  split_ifs at hlast with hcase
  · obtain ⟨part, rfl, hfiles, hname, hpart⟩ := writeChunk_eq_ok hbatch hlast
    have hflatten : (chunks ++ [s.chunk]).flatten = chunks.flatten ++ s.chunk := by
      rw [List.flatten_append, List.flatten_singleton]
    refine ⟨chunks ++ [s.chunk], List.rel_append h.parts (.cons hpart .nil),
      names_append h.names hname, ?_, ?_, ?_⟩
    · rw [List.length_append, List.length_singleton]
      exact hfiles
    · intro hrows chunk hmem
      rcases List.mem_append.1 hmem with hmem | hmem
      · exact h.full chunk hmem
      · rw [List.mem_singleton.1 hmem]
        rcases hcase with hchunk | hstaged
        · exact hchunk
        · -- Nothing is staged: the rows are all in the last chunk.
          intro hchunk
          have hchunks : chunks = [] := by
            have hlength := h.parts.length_eq
            rw [hstaged, List.length_nil] at hlength
            exact List.length_eq_zero_iff.1 hlength.symm
          have hnone := h.prepares.length_eq
          rw [hchunks, hchunk, List.flatten_nil, List.append_nil, List.length_nil] at hnone
          exact hrows (List.length_eq_zero_iff.1 hnone)
    · rw [hflatten]
      exact h.prepares
  · cases pure_eq_ok.1 hlast
    have hprepares := h.prepares
    rw [not_not.1 (not_or.1 hcase).1, List.append_nil] at hprepares
    exact ⟨chunks, h.parts, h.names, h.staged_le, fun _ => h.full, hprepares⟩

/-- The contents under distinct names are found by their names. -/
theorem lookup_of_nodup {α : Type} (path : α → List Char) (content : α → Bytes) {xs : List α}
    (hnodup : (xs.map path).Nodup) {x : α} (hx : x ∈ xs) :
    (xs.map fun y => (path y, content y)).lookup (path x) = some (content x) := by
  induction xs with
  | nil => cases hx
  | cons y xs ih =>
    rw [List.map_cons, List.nodup_cons] at hnodup
    rw [List.map_cons, List.lookup_cons]
    rcases List.mem_cons.1 hx with rfl | hx
    · rw [beq_self_eq_true]
    · have hne : (path x == path y) = false := by
        rw [beq_eq_false_iff_ne]
        intro heq
        exact hnodup.1 (heq ▸ List.mem_map_of_mem hx)
      rw [hne]
      exact ih hnodup.2 hx

theorem lookup_isSome_of_mem {α : Type} {files : List (List Char × α)} {name : List Char}
    (h : name ∈ files.map Prod.fst) : ∃ content, files.lookup name = some content := by
  induction files with
  | nil => cases h
  | cons file files ih =>
    rw [List.lookup_cons]
    cases hname : name == file.1 with
    | true => exact ⟨_, rfl⟩
    | false =>
      rcases List.mem_cons.1 h with rfl | h
      · rw [beq_self_eq_true] at hname
        cases hname
      · exact ih h

theorem mem_of_lookup {α : Type} {files : List (List Char × α)} {name : List Char} {content : α}
    (h : files.lookup name = some content) : (name, content) ∈ files := by
  induction files with
  | nil => cases h
  | cons file files ih =>
    rw [List.lookup_cons] at h
    cases hname : name == file.1 with
    | true =>
      rw [hname] at h
      cases h
      rw [eq_of_beq hname]
      exact List.mem_cons_self
    | false =>
      rw [hname] at h
      exact List.mem_cons_of_mem _ (ih h)

theorem Complete.nodup {rows : List ExportRow} {staged : List StagedPart}
    {chunks : List (List PreparedParquetRow)}
    (h : Complete env schema limits rows staged chunks) :
    (staged.map fun part => part.file.path).Nodup := by
  rw [h.names]
  exact (List.nodup_map_iff partName_injective).2 List.nodup_range

theorem lookup_of_validated {generation : List (List Char × Bytes)} {staged : List StagedPart}
    (h : validateExistingGeneration env generation staged = .ok ())
    (hsha : ∀ part ∈ staged, ∀ file ∈ generation,
      env.sha256 file.2 = env.sha256 part.content → file.2 = part.content)
    (hdigest : ∀ part ∈ staged, part.file.sha256 = env.sha256 part.content) {part : StagedPart}
    (hpart : part ∈ staged) : generation.lookup part.file.path = some part.content := by
  obtain ⟨⟨-, hnames⟩, h⟩ := require_bind_eq_ok.1 h
  have hcontents := require_eq_ok.1 h
  obtain ⟨content, hcontent⟩ := lookup_isSome_of_mem
    (hnames part.file.path (List.mem_map_of_mem hpart))
  obtain ⟨-, heq⟩ := hcontents part hpart content hcontent
  rw [hdigest part hpart] at heq
  have hsame := hsha part hpart (part.file.path, content) (mem_of_lookup hcontent) heq
  rw [hcontent, ← hsame]

variable (env schema limits)

/-- The files of a result hold the rows, in order. -/
structure Holds (rows : List ExportRow) (result : ExportResult)
    (parts : List (List (List (Option PlainValue)))) : Prop where
  normalized : rows.mapM (fun row => schema.fields.mapM (normalizeField limits row)) =
    .ok parts.flatten
  files : List.Forall₂ (fun file part => file.rowCount = part.length ∧
    ∃ content, result.generation.lookup file.path = some content ∧
      HoldsRows env schema limits content part) result.files parts
  full : rows ≠ [] → ∀ part ∈ parts, part ≠ []
  rowCount : result.rowCount = rows.length
  sum : (result.files.map ManifestFile.rowCount).sum = result.rowCount
  files_le : result.files.length ≤ limits.maxFiles

/-- No file of the generation that is there already has the digest of another part of this
export. -/
def DigestsDiffer (existing : Option (List (List Char × Bytes))) (rows : List ExportRow) : Prop :=
  ∀ s staged, exportRows env schema limits rows = .ok s →
    lastChunk env schema limits s = .ok staged →
      ∀ generation ∈ existing, ∀ part ∈ staged, ∀ file ∈ generation,
        env.sha256 file.2 = env.sha256 part.content → file.2 = part.content

variable {env schema limits}

theorem Complete.holds {rows : List ExportRow} {staged : List StagedPart}
    {chunks : List (List PreparedParquetRow)} {result : ExportResult}
    (h : Complete env schema limits rows staged chunks)
    (hfiles : result.files = staged.map StagedPart.file) (hcount : result.rowCount = rows.length)
    (hlookup : ∀ part ∈ staged, result.generation.lookup part.file.path = some part.content) :
    Holds env schema limits rows result
      (chunks.map (List.map PreparedParquetRow.values)) := by
  have hlengths : staged.map (fun part => part.file.rowCount) = chunks.map List.length := by
    rw [← List.forall₂_eq_eq_eq, List.forall₂_map_left_iff, List.forall₂_map_right_iff]
    exact h.parts.imp fun part chunk hpart => hpart.rowCount
  refine ⟨?_, ?_, ?_, hcount, ?_, ?_⟩
  · rw [← List.map_flatten, mapM_eq_ok, List.forall₂_map_right_iff]
    exact h.prepares.imp fun row p hp => mapM_eq_ok.2 (hp.imp fun field v hv => hv.1)
  · rw [hfiles, List.forall₂_map_left_iff, List.forall₂_map_right_iff]
    have hboth := (List.forall₂_and_left _ _).2 ⟨hlookup, h.parts⟩
    refine hboth.imp fun part chunk hp => ⟨?_, part.content, hp.1, hp.2.holds⟩
    rw [List.length_map]
    exact hp.2.rowCount
  · intro hrows part hpart
    obtain ⟨chunk, hchunk, rfl⟩ := List.mem_map.1 hpart
    intro hnil
    exact h.full hrows chunk hchunk (List.map_eq_nil_iff.1 hnil)
  · rw [hfiles, List.map_map, hcount, h.prepares.length_eq, List.length_flatten]
    exact congrArg List.sum hlengths
  · rw [hfiles, List.length_map]
    exact h.staged_le

/-- **The parts of a dataset hold every row once and in order, and a row that is turned away does
not fit a file of its own.** -/
theorem export_loses_no_row (existing : Option (List (List Char × Bytes)))
    (rows : List ExportRow) :
    (∀ result, exportPartition env schema limits existing rows = .ok result →
      DigestsDiffer env schema limits existing rows →
        ∃ parts, Holds env schema limits rows result parts) ∧
    ∀ e, exportRows env schema limits rows = .error e →
      ParquetBatchBudget.init env.interpreter schema limits = .error e ∨
        ∃ before row after s, rows = before ++ row :: after ∧
          exportRows env schema limits before = .ok s ∧ StopsAt env schema limits s row e := by
  constructor
  · intro result h hsha
    obtain ⟨s, hs, h⟩ := bind_eq_ok.1 h
    obtain ⟨staged, hstaged, h⟩ := bind_eq_ok.1 h
    obtain ⟨chunks, hprogress⟩ := Progress.of_exportRows hs
    obtain ⟨chunks', hcomplete⟩ := hprogress.complete hstaged
    have hdigest : ∀ part ∈ staged, part.file.sha256 = env.sha256 part.content := by
      intro part hpart
      obtain ⟨chunk, -, hchunk⟩ := exists_of_mem_right hcomplete.parts.flip hpart
      exact hchunk.sha256
    cases existing with
    | none =>
      obtain ⟨⟨⟩, -, h⟩ := bind_eq_ok.1 h
      cases pure_eq_ok.1 h
      exact ⟨_, hcomplete.holds rfl hprogress.count fun part hpart =>
        lookup_of_nodup (fun p : StagedPart => p.file.path) StagedPart.content hcomplete.nodup
          hpart⟩
    | some generation =>
      obtain ⟨⟨⟩, hvalid, h⟩ := bind_eq_ok.1 h
      obtain ⟨⟨⟩, -, h⟩ := bind_eq_ok.1 h
      cases pure_eq_ok.1 h
      exact ⟨_, hcomplete.holds rfl hprogress.count fun part hpart =>
        lookup_of_validated hvalid (hsha s staged hs hstaged generation rfl) hdigest hpart⟩
  · intro e h
    cases hbudget : ParquetBatchBudget.init env.interpreter schema limits with
    | error e' =>
      rw [exportRows, hbudget] at h
      cases h
      exact Or.inl rfl
    | ok budget =>
      rw [exportRows, hbudget, ok_bind] at h
      obtain ⟨before, row, after, s, hsplit, hbefore, hstops⟩ :=
        (Progress.start hbudget).run_stops rows h
      refine Or.inr ⟨before, row, after, s, hsplit, ?_, hstops⟩
      rw [exportRows, hbudget, ok_bind]
      exact hbefore

/-- An export that nothing outside of it refuses. -/
def shelfEnvironment : ExportEnvironment where
  interpreter := cpython
  sha256 := fun content => content.map fun byte => Char.ofNat byte.toNat
  checkpoint := fun _ => .ok ()
  chargeFile := fun _ _ => .ok ()
  commit := fun _ _ => .ok ()

/-- Limits under which every row has a part of its own. -/
def oneRowLimits : ExportLimits :=
  { ExportLimits.default with
    maxRowsPerFile := 1
    positive := by decide
    datasetRows := by decide
    signed := by decide }

/-- Two rows in two parts. -/
theorem export_loses_no_row_shelf : ∃ result parts,
    exportPartition shelfEnvironment shelfSchema oneRowLimits none shelfRows = .ok result ∧
      result.files.map (fun file => (file.path, file.rowCount)) =
        [("part-00000.parquet".toList, 1), ("part-00001.parquet".toList, 1)] ∧
      Holds shelfEnvironment shelfSchema oneRowLimits shelfRows result parts := by
  have hfiles : (exportPartition shelfEnvironment shelfSchema oneRowLimits none shelfRows).map
      (fun result => result.files.map fun file => (file.path, file.rowCount)) =
        .ok [("part-00000.parquet".toList, 1), ("part-00001.parquet".toList, 1)] := by
    decide +kernel
  cases hresult : exportPartition shelfEnvironment shelfSchema oneRowLimits none shelfRows with
  | error e =>
    rw [hresult] at hfiles
    cases hfiles
  | ok result =>
    rw [hresult] at hfiles
    obtain ⟨parts, hparts⟩ := (export_loses_no_row none shelfRows).1 result hresult
      fun _ _ _ _ generation hgeneration => by cases hgeneration
    exact ⟨result, parts, rfl, Except.ok.inj hfiles, hparts⟩

end Parts

end Makolet.Export
