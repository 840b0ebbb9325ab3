import Makolet.Export.ParquetRoundTrip

/-!
# The budget of a batch bounds its file

`add_if_within_limits` charges the pages and the file of a batch before a row is kept. What the
budget has charged is at least what the builder then encodes, page by page and for the whole file.
The limits are compared row by row, so that the charges of a batch are within them once it has a
row; a batch without rows is not compared with any limit.
-/

set_option autoImplicit false

namespace Makolet.Export

open Makolet.Lib

/-- Rows that `prepare_row` returns and `add_if_within_limits` accepts, one after the other. -/
inductive Accepted (interpreter : Interpreter) : ParquetBatchBudget →
    List (List (List Char × PyValue)) → List PreparedParquetRow → ParquetBatchBudget → Prop
  | nil (b : ParquetBatchBudget) : Accepted interpreter b [] [] b
  | cons {b c d : ParquetBatchBudget} {row : List (List Char × PyValue)} {rowIndex : Nat}
      {prepared : PreparedParquetRow} {rows : List (List (List Char × PyValue))}
      {rest : List PreparedParquetRow} :
      b.prepareRow row rowIndex = .ok prepared →
      b.addIfWithinLimits interpreter prepared = .ok (.ok c) →
      Accepted interpreter c rows rest d →
      Accepted interpreter b (row :: rows) (prepared :: rest) d

section Accepted

variable {interpreter : Interpreter} {schema : ExportSchema} {limits : ExportLimits}
  {start b c : ParquetBatchBudget} {rows : List (List (List Char × PyValue))}
  {prepared : List PreparedParquetRow}

theorem add_of_accepted {row : PreparedParquetRow}
    (h : b.addIfWithinLimits interpreter row = .ok (.ok c)) : b.add interpreter row = .ok c :=
  bind_eq_ok.2 ⟨_, h, rfl⟩

theorem accepted_of_add {row : PreparedParquetRow} (h : b.add interpreter row = .ok c) :
    b.addIfWithinLimits interpreter row = .ok (.ok c) := by
  obtain ⟨added, hadded, hc⟩ := bind_eq_ok.1 h
  rw [hadded, hc]

/-- A row that is accepted changes the counts of the budget only. -/
theorem accepted_keeps {row : PreparedParquetRow}
    (h : b.addIfWithinLimits interpreter row = .ok (.ok c)) :
    c.schema = b.schema ∧ c.limits = b.limits ∧ c.fileOverheadBytes = b.fileOverheadBytes ∧
      c.usage.fileBytes = c.usage.totalPageBytes + b.fileOverheadBytes := by
  obtain ⟨prospective, hprospective, hmap⟩ := bind_eq_ok.1 h
  obtain ⟨usage, rfl, rfl⟩ := map_eq_ok.1 (pure_eq_ok.1 hmap)
  refine ⟨rfl, rfl, rfl, ?_⟩
  rw [ParquetBatchBudget.prospectiveUsage] at hprospective
  obtain ⟨-, hprospective⟩ := require_bind_eq_ok.1 hprospective
  dsimp only at hprospective
  split at hprospective
  · cases pure_eq_ok.1 hprospective
  · obtain ⟨added, -, hprospective⟩ := bind_eq_ok.1 hprospective
    obtain ⟨⟨pages, n⟩, -, hinner⟩ := bind_eq_ok.1 (pure_eq_ok.1 hprospective)
    obtain ⟨-, hinner⟩ := require_bind_eq_ok.1 hinner
    obtain ⟨-, hinner⟩ := require_bind_eq_ok.1 hinner
    cases pure_eq_ok.1 hinner
    rfl

theorem Accepted.keeps (h : Accepted interpreter b rows prepared c) :
    c.schema = b.schema ∧ c.limits = b.limits ∧ c.fileOverheadBytes = b.fileOverheadBytes := by
  induction h with
  | nil b => exact ⟨rfl, rfl, rfl⟩
  | cons _ hadd _ ih =>
    obtain ⟨hschema, hlimits, hoverhead, -⟩ := accepted_keeps hadd
    exact ⟨ih.1.trans hschema, ih.2.1.trans hlimits, ih.2.2.trans hoverhead⟩

/-- After the first row the file is charged its pages and the overhead. -/
theorem Accepted.fileBytes (h : Accepted interpreter b rows prepared c) (hne : rows ≠ []) :
    c.usage.fileBytes = c.usage.totalPageBytes + b.fileOverheadBytes := by
  induction h with
  | nil b => exact absurd rfl hne
  | @cons b b' d row rowIndex p rows rest _ hadd hrest ih =>
    obtain ⟨-, -, hoverhead, hbytes⟩ := accepted_keeps hadd
    cases hrest with
    | nil _ => exact hbytes
    | cons hprepare hadd' hrest' =>
      rw [ih (List.cons_ne_nil _ _), hoverhead]

theorem Accepted.fold (h : Accepted interpreter b rows prepared c) :
    prepared.foldlM (fun budget row => budget.add interpreter row) b = .ok c := by
  induction h with
  | nil b => rfl
  | cons _ hadd _ ih =>
    rw [List.foldlM_cons]
    exact bind_eq_ok.2 ⟨_, add_of_accepted hadd, ih⟩

theorem Accepted.prepares (h : Accepted interpreter b rows prepared c) :
    List.Forall₂ (Prepares b.schema b.limits) rows prepared := by
  induction h with
  | nil b => exact .nil
  | cons hprepare hadd _ ih =>
    obtain ⟨hschema, hlimits, -⟩ := accepted_keeps hadd
    rw [hschema, hlimits] at ih
    exact .cons (prepareRow_ok hprepare) ih

/-- The rows that `write_parquet` prepares are accepted one by one. -/
theorem accepted_of_prepareRows : ∀ {b : ParquetBatchBudget} {rowIndex : Nat}
    {rows : List (List (List Char × PyValue))} {prepared : List PreparedParquetRow},
      prepareRows interpreter b rowIndex rows = .ok prepared →
        ∃ c, Accepted interpreter b rows prepared c := by
  intro b rowIndex rows
  induction rows generalizing b rowIndex with
  | nil =>
    intro prepared h
    cases h
    exact ⟨b, .nil b⟩
  | cons row rest ih =>
    intro prepared h
    rw [prepareRows] at h
    obtain ⟨row', hrow, h⟩ := bind_eq_ok.1 h
    obtain ⟨c, hc, h⟩ := bind_eq_ok.1 h
    obtain ⟨rest', hrest, h⟩ := bind_eq_ok.1 h
    cases pure_eq_ok.1 h
    obtain ⟨d, hd⟩ := ih hrest
    exact ⟨d, .cons hrow (accepted_of_add hc) hd⟩

theorem admits_of_prepares {schema : ExportSchema}
    (h : List.Forall₂ (Prepares schema limits) rows prepared) :
    ∀ row ∈ prepared, List.Forall₂ AdmitsValue schema.fields row.values := by
  intro row hrow
  obtain ⟨raw, -, hraw⟩ := exists_of_mem_right h hrow
  exact hraw.imp fun field v hv => hv.2

theorem Accepted.batch (hinit : ParquetBatchBudget.init interpreter schema limits = .ok start)
    (h : Accepted interpreter start rows prepared b) :
    Batch interpreter schema limits start b prepared := by
  have hprepares := h.prepares
  rw [(init_ok hinit).2.1] at hprepares
  exact ⟨hinit, h.fold, admits_of_prepares hprepares⟩

/-- A budget starts with the size of the file without rows. -/
theorem init_fileBytes (hinit : ParquetBatchBudget.init interpreter schema limits = .ok start) :
    start.usage.fileBytes = 4 + (footerOf schema []).length + 8 := by
  obtain ⟨-, hstart⟩ := require_bind_eq_ok.1 hinit
  have hbound : start.usage.fileBytes = parquetFileSizeUpperBound 0
      (schema.fields.map fun field => if field.nullable then 4 else 0) schema := by
    rw [← pure_eq_ok.1 hstart]
  have hmagic : parquetMagic.length = 4 := rfl
  rw [hbound, parquetFileSizeUpperBound, if_pos rfl, footerOf, if_pos rfl, hmagic, List.length_nil]

theorem length_fileOf (schema : ExportSchema) (prepared : List PreparedParquetRow) :
    (fileOf schema prepared).length =
      4 + (bodyOf schema prepared).length + (footerOf schema prepared).length + 8 := by
  have hmagic : Parquet.magic.length = 4 := rfl
  rw [fileOf, Parquet.assembled]
  simp only [List.length_append, length_little, hmagic]

/-- The pages of a batch are charged at least what their bodies take. -/
theorem Batch.pageBody_le (h : Batch interpreter schema limits start b prepared) {index : Nat}
    {field : ExportField} {body : Bytes} (hfield : schema.fields[index]? = some field)
    (hbody : pageBody prepared field index = .ok body) :
    ∃ n, b.usage.pageSizes[index]? = some n ∧ body.length ≤ n := by
  have hmem : (field, columnValues prepared index) ∈ columnsOf schema prepared :=
    List.mem_map.2 ⟨(field, index), List.mem_zipIdx_iff_getElem?.2 hfield, rfl⟩
  have hwrites := h.writes _ hmem
  rw [pageBody_eq hwrites.admits hwrites.levels] at hbody
  cases hbody
  refine ⟨charged field (columnValues prepared index), ?_, length_pageBytes_le hwrites.admits⟩
  rw [h.accounts.pageSizes, h.schema_eq, columnsOf, List.map_map, List.getElem?_map,
    List.getElem?_zipIdx, hfield, Option.map_some, Option.map_some, Nat.zero_add]
  rfl

/-- **The budget bounds the pages and the file, and once a batch has a row the limits bound the
budget.** -/
theorem batch_budget_sound
    (hinit : ParquetBatchBudget.init interpreter schema limits = .ok start)
    (hrows : Accepted interpreter start rows prepared b) :
    (∀ index field body, schema.fields[index]? = some field →
      pageBody prepared field index = .ok body →
        ∃ n, b.usage.pageSizes[index]? = some n ∧ body.length ≤ n) ∧
    (∀ content, buildParquetBytes interpreter prepared schema limits = .ok content →
      content.length ≤ b.usage.fileBytes) ∧
    (rows ≠ [] → (∀ n ∈ b.usage.pageSizes, n ≤ limits.maxPageBytes) ∧
      b.usage.fileBytes ≤ limits.maxFileBytes ∧
        ∃ content, buildParquetBytes interpreter prepared schema limits = .ok content) := by
  have hbatch := hrows.batch hinit
  have haccounts := hbatch.accounts
  have hempty : prepared = [] ↔ rows = [] := by
    rw [← List.length_eq_zero_iff, ← List.length_eq_zero_iff, hrows.prepares.length_eq]
  refine ⟨fun index field body => hbatch.pageBody_le, ?_, ?_⟩
  · intro content hcontent
    obtain ⟨-, rfl⟩ := hbatch.of_build hcontent
    rw [length_fileOf]
    by_cases hne : rows = []
    · subst hne
      cases hrows
      rw [init_fileBytes hinit, bodyOf, if_pos rfl, List.length_nil]
    · have hprepared : prepared ≠ [] := fun h => hne (hempty.1 h)
      have hsize := fileSize_le hprepared
        (by rw [hbatch.schema_eq, hbatch.limits_eq]; exact (init_ok hinit).2.2.2) haccounts
        (by rw [hbatch.schema_eq]; exact hbatch.admitsColumns)
      rw [hrows.fileBytes hne, bodyOf, if_neg hprepared, ← hbatch.schema_eq]
      exact hsize
  · intro hne
    have hprepared : prepared ≠ [] := fun h => hne (hempty.1 h)
    refine ⟨?_, ?_, ?_⟩
    · have hpages := haccounts.page_le hprepared
      rwa [hbatch.limits_eq] at hpages
    · have hfile := haccounts.file_le hprepared
      rw [hbatch.limits_eq] at hfile
      rw [hrows.fileBytes hne]
      exact hfile
    · exact ⟨_, hbatch.build (hbatch.pagesFit hprepared) (hbatch.footerFits hprepared)⟩

end Accepted

theorem batch_budget_sound_shelf :
    ∃ start prepared b, ParquetBatchBudget.init cpython shelfSchema .default = .ok start ∧
      Accepted cpython start shelfRows prepared b ∧
      (∀ content, buildParquetBytes cpython prepared shelfSchema .default = .ok content →
        content.length ≤ b.usage.fileBytes) ∧
      b.usage.fileBytes ≤ ExportLimits.default.maxFileBytes := by
  obtain ⟨start, hstart⟩ : ∃ start,
      ParquetBatchBudget.init cpython shelfSchema .default = .ok start := ⟨_, rfl⟩
  have hok : ((ParquetBatchBudget.init cpython shelfSchema .default).bind fun budget =>
      prepareRows cpython budget 0 shelfRows).toBool = true := by decide +kernel
  rw [hstart] at hok
  replace hok : (prepareRows cpython start 0 shelfRows).toBool = true := hok
  obtain ⟨prepared, hprepared⟩ : ∃ prepared,
      prepareRows cpython start 0 shelfRows = .ok prepared := by
    cases hrows : prepareRows cpython start 0 shelfRows with
    | ok prepared => exact ⟨prepared, rfl⟩
    | error e =>
      rw [hrows] at hok
      cases hok
  obtain ⟨b, haccepted⟩ := accepted_of_prepareRows hprepared
  obtain ⟨-, hsize, hlimits⟩ := batch_budget_sound hstart haccepted
  exact ⟨start, prepared, b, hstart, haccepted, hsize, (hlimits (by decide)).2.1⟩

/-- The tightest limits. -/
def tightLimits : ExportLimits where
  maxColumns := 1
  maxRowsPerFile := 1
  maxFiles := 1
  maxDatasetRows := 1
  maxStringBytes := 1
  maxBinaryBytes := 1
  maxPageBytes := 1
  maxFileBytes := 1
  maxWorkingSetBytes := 1
  positive := by decide
  datasetRows := by decide
  signed := by decide
  lengths := by decide
  pages := by decide
  files := by decide

def noteSchema : ExportSchema where
  entity := "note".toList
  version := "1".toList
  fields := [⟨"text".toList, .string, true, by decide⟩]
  identified := by decide
  versioned := shelfSchema.versioned
  inhabited := by decide
  unique := by decide

/-- A batch without rows is charged more than the limits. -/
theorem empty_batch_over_limits :
    ∃ start, ParquetBatchBudget.init cpython noteSchema tightLimits = .ok start ∧
      Accepted cpython start [] [] start ∧
      (∃ n ∈ start.usage.pageSizes, tightLimits.maxPageBytes < n) ∧
      tightLimits.maxFileBytes < start.usage.fileBytes := by
  refine ⟨_, rfl, .nil _, ⟨4, List.mem_cons_self, by decide⟩, ?_⟩
  have hinit : ParquetBatchBudget.init cpython noteSchema tightLimits = .ok _ := rfl
  rw [init_fileBytes hinit]
  show 1 < _
  omega

end Makolet.Export
