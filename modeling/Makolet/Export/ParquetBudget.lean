import Makolet.Export.ParquetSizes

/-!
# What the budget of a batch admits

The rows that `prepare_row` returns have values of the types of their fields. The budget charges a
page at least what its body takes, so that after every row the pages and the whole file stay within
the limits.
-/

set_option autoImplicit false

namespace Makolet.Export

open Makolet.Lib
open Makolet.Lib.Parquet (PlainValue)

/-! ## Prepared rows -/

/-- The normalized value of a field. -/
def normalizeField (limits : ExportLimits) (row : List (List Char × PyValue)) (field : ExportField) :
    Except ExportError (Option PlainValue) :=
  match (row.lookup field.name).getD .none with
  | .none => .ok none
  | value => (normalizeValue value field.valueType limits).map some

/-- A value of the type of the field, or none where the field is nullable. -/
structure AdmitsValue (field : ExportField) (v : Option PlainValue) : Prop where
  fits : ∀ w, v = some w → Fits field.valueType w
  required : field.nullable = false → v.isSome = true

theorem length_utf8_le (text : List Char) : (utf8 text).length ≤ 4 * text.length := by
  induction text with
  | nil => exact Nat.le_refl 0
  | cons c rest ih =>
    have hc := c.utf8Size_le_four
    rw [utf8, List.flatMap_cons, List.length_append, String.length_utf8EncodeChar, List.length_cons]
    rw [utf8] at ih
    omega

theorem length_padded_le {width n : Nat} (hwidth : width ≤ 8) (hn : n < 10 ^ 8) :
    (padded width n).length ≤ 8 := by
  have hdigits : (natText n).length ≤ 8 :=
    (Nat.length_toDigits_le_iff (by decide) (by decide)).2 hn
  rw [padded, List.length_append, List.length_replicate]
  omega

theorem ymdOfOrdinal_le (ordinal : Nat) : (ymdOfOrdinal ordinal).1 ≤ ordinal + 1 ∧
    (ymdOfOrdinal ordinal).2.1 ≤ 13 ∧ (ymdOfOrdinal ordinal).2.2 ≤ 366 := by
  simp only [ymdOfOrdinal]
  split_ifs
  all_goals
    dsimp only
    refine ⟨?_, ?_, ?_⟩ <;> omega

/-- The text of a datetime is short. -/
theorem length_isoformatUtc_le {instant : Nat}
    (h : (instant : Int) < maximumOrdinal * microsecondsPerDay) :
    (isoformatUtc instant).length ≤ 63 := by
  have hinstant : instant < 3652059 * 86400000000 := by
    simp only [maximumOrdinal, microsecondsPerDay] at h
    omega
  obtain ⟨hyear, hmonth, hday⟩ := ymdOfOrdinal_le (instant / 86400000000 + 1)
  rw [isoformatUtc]
  generalize ymdOfOrdinal (instant / 86400000000 + 1) = date at hyear hmonth hday
  obtain ⟨year, month, day⟩ := date
  dsimp only at hyear hmonth hday ⊢
  have h1 := length_padded_le (by decide : 4 ≤ 8) (by omega : year < 10 ^ 8)
  have h2 := length_padded_le (by decide : 2 ≤ 8) (by omega : month < 10 ^ 8)
  have h3 := length_padded_le (by decide : 2 ≤ 8) (by omega : day < 10 ^ 8)
  have h4 := length_padded_le (by decide : 2 ≤ 8)
    (by omega : instant % 86400000000 / 3600000000 < 10 ^ 8)
  have h5 := length_padded_le (by decide : 2 ≤ 8)
    (by omega : instant % 86400000000 / 60000000 % 60 < 10 ^ 8)
  have h6 := length_padded_le (by decide : 2 ≤ 8)
    (by omega : instant % 86400000000 / 1000000 % 60 < 10 ^ 8)
  have h7 := length_padded_le (by decide : 6 ≤ 8)
    (by omega : instant % 86400000000 % 1000000 < 10 ^ 8)
  simp only [List.length_append, List.length_singleton]
  omega

/-- **Normalized values fit their types.** -/
theorem fits_of_normalizeValue {value : PyValue} {t : ExportType} {limits : ExportLimits}
    {v : PlainValue} (h : normalizeValue value t limits = .ok v) : Fits t v := by
  have hlimits := limits.lengths
  cases t with
  | string =>
    cases value <;> try cases h
    simp only [normalizeValue, require_bind_eq_ok] at h
    obtain ⟨-, hlength, h⟩ := h
    cases pure_eq_ok.1 h
    exact Nat.lt_of_le_of_lt hlength hlimits.1
  | binary =>
    cases value <;> try cases h
    simp only [normalizeValue, require_bind_eq_ok] at h
    obtain ⟨hlength, h⟩ := h
    cases pure_eq_ok.1 h
    exact Nat.lt_of_le_of_lt hlength hlimits.2
  | int32 =>
    cases value <;> try cases h
    simp only [normalizeValue, require_bind_eq_ok] at h
    obtain ⟨hsigned, h⟩ := h
    cases pure_eq_ok.1 h
    exact hsigned
  | int64 =>
    cases value <;> try cases h
    simp only [normalizeValue, require_bind_eq_ok] at h
    obtain ⟨hsigned, h⟩ := h
    cases pure_eq_ok.1 h
    exact hsigned
  | boolean =>
    cases value <;> try cases h
    trivial
  | decimalString =>
    cases value with
    | decimal d =>
      cases d with
      | finite negative coefficient exponent =>
        simp only [normalizeValue, require_bind_eq_ok] at h
        obtain ⟨-, hlength, h⟩ := h
        cases pure_eq_ok.1 h
        exact Nat.lt_of_le_of_lt hlength hlimits.1
      | special => cases h
    | _ => cases h
  | timestampIso8601 =>
    cases value with
    | datetime d =>
      obtain ⟨wall, utcoffset⟩ := d
      cases utcoffset with
      -- The text of an instant is short, whatever the offset was.
      | some utcoffset =>
        simp only [normalizeValue, bind_eq_ok, astimezoneUtc] at h
        obtain ⟨instant, hinstant, h⟩ := h
        split at hinstant
        case isTrue hrange =>
          cases hinstant
          cases pure_eq_ok.1 h
          have hshort := length_isoformatUtc_le
            (by rw [Int.toNat_of_nonneg hrange.1]; exact hrange.2 :
              ((wall - utcoffset).toNat : Int) < maximumOrdinal * microsecondsPerDay)
          have hutf8 := length_utf8_le (isoformatUtc (wall - utcoffset).toNat)
          show (utf8 _).length < 2 ^ 32
          omega
        case isFalse => cases hinstant
      | none => cases h
    | _ => cases h

theorem admitsValue_of_normalizeField {limits : ExportLimits} {row : List (List Char × PyValue)}
    {field : ExportField} {v : Option PlainValue} (h : normalizeField limits row field = .ok v)
    (hrequired : field.nullable = false → v.isSome = true) : AdmitsValue field v where
  fits := by
    intro w hw
    subst hw
    rw [normalizeField] at h
    split at h
    · cases h
    · obtain ⟨w', hw', heq⟩ := map_eq_ok.1 h
      cases heq
      exact fits_of_normalizeValue hw'
  required := hrequired

theorem prepareField_ok {limits : ExportLimits} {rowIndex : Nat}
    {row : List (List Char × PyValue)} {field : ExportField} {v : Option PlainValue} {size : Nat}
    (h : ParquetBatchBudget.prepareField limits rowIndex row field = .ok (v, size)) :
    normalizeField limits row field = .ok v ∧ (field.nullable = false → v.isSome = true) := by
  rw [ParquetBatchBudget.prepareField] at h
  rw [normalizeField]
  generalize (row.lookup field.name).getD .none = value at h
  cases value with
  | none =>
    obtain ⟨hnull, h⟩ := require_bind_eq_ok.1 h
    cases pure_eq_ok.1 h
    exact ⟨rfl, fun hfalse => absurd hnull (by simp [hfalse])⟩
  | _ =>
    obtain ⟨normalized, hnormalized, h⟩ := bind_eq_ok.1 h
    obtain ⟨valueBytes, -, h⟩ := bind_eq_ok.1 h
    cases pure_eq_ok.1 h
    exact ⟨map_eq_ok.2 ⟨_, hnormalized, rfl⟩, fun _ => rfl⟩

/-- The fields of a prepared row are normalized, and admitted. -/
theorem prepareFields_ok {limits : ExportLimits} {rowIndex : Nat}
    {row : List (List Char × PyValue)} (fields : List ExportField) :
    ∀ {totalPageBytes : Nat} {values : List (Option PlainValue)},
      ParquetBatchBudget.prepareFields limits rowIndex row totalPageBytes fields = .ok values →
        List.Forall₂ (fun field v => normalizeField limits row field = .ok v ∧ AdmitsValue field v)
          fields values := by
  induction fields with
  | nil =>
    intro totalPageBytes values h
    cases h
    exact .nil
  | cons field rest ih =>
    intro totalPageBytes values h
    rw [ParquetBatchBudget.prepareFields] at h
    obtain ⟨⟨value, size⟩, hvalue, h⟩ := bind_eq_ok.1 h
    obtain ⟨-, h⟩ := require_bind_eq_ok.1 h
    obtain ⟨-, h⟩ := require_bind_eq_ok.1 h
    obtain ⟨values', hvalues, h⟩ := bind_eq_ok.1 h
    cases pure_eq_ok.1 h
    obtain ⟨hnormalized, hrequired⟩ := prepareField_ok hvalue
    exact .cons ⟨hnormalized, admitsValue_of_normalizeField hnormalized hrequired⟩ (ih hvalues)

/-! ## Charges -/

/-- The bytes charged for a value. -/
def plainSize (t : ExportType) (v : PlainValue) : Nat :=
  match plainValueSize v t with
  | .ok n => n
  | .error _ => 0

def charge (field : ExportField) (v : Option PlainValue) : Nat :=
  (match v with
    | some v => plainSize field.valueType v
    | none => 0) + if field.nullable then 2 else 0

/-- The size of a page in the usage of a budget. -/
def charged (field : ExportField) (column : List (Option PlainValue)) : Nat :=
  (if field.nullable then 4 else 0) + (column.map (charge field)).sum

theorem length_plainValue {t : ExportType} {v : PlainValue} (ht : t ≠ .boolean) (h : Fits t v) :
    (plainValue t v).length = plainSize t v := by
  cases t <;> cases v <;> try exact h.elim
  case boolean.bool => exact absurd rfl ht
  all_goals simp [plainValue, plainSize, plainValueSize]

theorem plainSize_pos {t : ExportType} {v : PlainValue} (h : Fits t v) : 0 < plainSize t v := by
  cases t <;> cases v <;> try exact h.elim
  all_goals simp [plainSize, plainValueSize]

theorem length_plain_le {values : List PlainValue} {t : ExportType} (h : ∀ v ∈ values, Fits t v) :
    (plain values t).length ≤ (values.map (plainSize t)).sum := by
  rw [plain]
  split
  case isTrue ht =>
    have hcount : values.length ≤ (values.map (plainSize t)).sum := by
      clear ht
      induction values with
      | nil => exact Nat.le_refl 0
      | cons v rest ih =>
        have hpos := plainSize_pos (h v List.mem_cons_self)
        have hrest := ih fun w hw => h w (List.mem_cons_of_mem v hw)
        rw [List.length_cons, List.map_cons, List.sum_cons]
        omega
    rw [length_packBits, List.length_map]
    omega
  case isFalse ht =>
    rw [List.length_flatMap]
    exact le_of_eq (congrArg List.sum
      (List.map_congr_left fun v hv => length_plainValue ht (h v hv)))

/-- **A page is charged at least what its body takes.** -/
theorem length_pageBytes_le {field : ExportField} {column : List (Option PlainValue)}
    (h : Admits field column) : (pageBytes field column).length ≤ charged field column := by
  have hplain := length_plain_le h.fits_values
  have hlevels := length_levelRuns (column.map Option.isSome)
  have hsum : (column.map (charge field)).sum =
      ((column.filterMap id).map (plainSize field.valueType)).sum +
        column.length * (if field.nullable then 2 else 0) := by
    clear hplain hlevels h
    induction column with
    | nil => simp
    | cons v rest ih =>
      cases v with
      | none =>
        simp only [List.map_cons, List.sum_cons, charge, ih, List.length_cons, Nat.succ_mul]
        show _ = ((rest.filterMap id).map _).sum + _
        omega
      | some v =>
        simp only [List.map_cons, List.sum_cons, charge, ih, List.length_cons, Nat.succ_mul]
        show _ = (plainSize field.valueType v + ((rest.filterMap id).map _).sum) + _
        omega
  rw [List.length_map] at hlevels
  rw [pageBytes, charged, List.length_append, hsum]
  split
  · rw [levels, List.length_append, length_little]
    omega
  · rw [List.length_nil]
    omega

/-! ## Accounts -/

/-- The columns of the rows. -/
def columnsOf (schema : ExportSchema) (rows : List PreparedParquetRow) : List Column :=
  schema.fields.zipIdx.map fun c => (c.1, columnValues rows c.2)

open ParquetBatchBudget

theorem optionalSize_ok {field : ExportField} {value : Option PlainValue} {n : Nat}
    (h : optionalSize field value = .ok n) :
    charge field value = n + if field.nullable then 2 else 0 := by
  cases value with
  | none =>
    cases h
    rfl
  | some v =>
    rw [optionalSize] at h
    rw [charge, plainSize, h]

theorem addedPages_ok {limits : ExportLimits} :
    ∀ {pages : List (ExportField × Option PlainValue × Nat)} {pageSizes : List Nat} {added : Nat},
      addedPages limits pages = .ok (.ok (pageSizes, added)) →
        pageSizes = pages.map (fun p => p.2.2 + charge p.1 p.2.1) ∧
          added = (pages.map fun p => charge p.1 p.2.1).sum ∧
            ∀ n ∈ pageSizes, n ≤ limits.maxPageBytes := by
  intro pages
  induction pages with
  | nil =>
    intro pageSizes added h
    cases h
    exact ⟨rfl, rfl, fun n hn => absurd hn List.not_mem_nil⟩
  | cons p rest ih =>
    intro pageSizes added h
    obtain ⟨field, value, pageSize⟩ := p
    rw [addedPages] at h
    obtain ⟨valueBytes, hvalue, h⟩ := bind_eq_ok.1 h
    have hcharge := optionalSize_ok hvalue
    dsimp only at h
    by_cases hpage : limits.maxPageBytes < pageSize + valueBytes + if field.nullable then 2 else 0
    · rw [if_pos hpage] at h
      cases pure_eq_ok.1 h
    · rw [if_neg hpage] at h
      obtain ⟨added', hadded, h⟩ := bind_eq_ok.1 h
      obtain ⟨⟨pageSizes', n⟩, rfl, heq⟩ := map_eq_ok.1 (pure_eq_ok.1 h)
      cases heq
      obtain ⟨hsizes, hn, hle⟩ := ih hadded
      subst hsizes
      refine ⟨?_, ?_, ?_⟩
      · simp only [List.map_cons, hcharge]
        exact congrArg₂ _ (by omega) rfl
      · rw [List.map_cons, List.sum_cons, hcharge, hn]
      · intro m hm
        rcases List.mem_cons.1 hm with rfl | hm
        · omega
        · exact hle m hm

/-- What a budget has accounted for. -/
structure Accounts (start b : ParquetBatchBudget) (rows : List PreparedParquetRow) : Prop where
  schema : b.schema = start.schema
  limits : b.limits = start.limits
  overhead : b.fileOverheadBytes = start.fileOverheadBytes
  rowCount : b.rowCount = rows.length
  rowCount_le : rows ≠ [] → rows.length ≤ start.limits.maxRowsPerFile
  width : ∀ row ∈ rows, row.values.length = start.schema.fields.length
  pageSizes : b.usage.pageSizes = (columnsOf start.schema rows).map fun c => charged c.1 c.2
  page_le : rows ≠ [] → ∀ n ∈ b.usage.pageSizes, n ≤ start.limits.maxPageBytes
  total : b.usage.totalPageBytes = b.usage.pageSizes.sum
  file_le : rows ≠ [] →
    b.usage.totalPageBytes + start.fileOverheadBytes ≤ start.limits.maxFileBytes

theorem length_columnsOf (schema : ExportSchema) (rows : List PreparedParquetRow) :
    (columnsOf schema rows).length = schema.fields.length := by
  rw [columnsOf, List.length_map, List.length_zipIdx]

/-- A row adds the charges of its values. -/
theorem charged_columnsOf {schema : ExportSchema} (rows : List PreparedParquetRow)
    {row : PreparedParquetRow} (hwidth : row.values.length = schema.fields.length) :
    ((columnsOf schema (rows ++ [row])).map fun c => charged c.1 c.2) =
      (schema.fields.zip (row.values.zip ((columnsOf schema rows).map fun c =>
        charged c.1 c.2))).map fun p => p.2.2 + charge p.1 p.2.1 := by
  have hlength := length_columnsOf schema rows
  refine List.ext_getElem ?_ fun i hi hi' => ?_
  · simp only [List.length_map, length_columnsOf, List.length_zip, hwidth, Nat.min_self]
  · rw [List.length_map, length_columnsOf] at hi
    have hvalue : row.values.getD i none = row.values[i] := by
      rw [List.getD_eq_getElem?_getD, List.getElem?_eq_getElem (by omega), Option.getD_some]
    simp only [columnsOf, List.getElem_map, List.getElem_zip, List.getElem_zipIdx, charged,
      columnValues, List.map_append, List.sum_append, List.map_cons, List.map_nil, List.sum_cons,
      List.sum_nil, Nat.zero_add, hvalue]
    omega

theorem prospectiveUsage_ok {interpreter : Interpreter} {b : ParquetBatchBudget}
    {row : PreparedParquetRow} {usage : BatchUsage}
    (h : b.prospectiveUsage interpreter row = .ok (.ok usage)) :
    row.values.length = b.schema.fields.length ∧ b.rowCount + 1 ≤ b.limits.maxRowsPerFile ∧
      ∃ pages added,
        addedPages b.limits (b.schema.fields.zip (row.values.zip b.usage.pageSizes)) =
            .ok (.ok (pages, added)) ∧
          usage.pageSizes = pages ∧ usage.totalPageBytes = b.usage.totalPageBytes + added ∧
            usage.totalPageBytes + b.fileOverheadBytes ≤ b.limits.maxFileBytes := by
  rw [prospectiveUsage] at h
  obtain ⟨hwidth, h⟩ := require_bind_eq_ok.1 h
  dsimp only at h
  by_cases hrows : b.limits.maxRowsPerFile < b.rowCount + 1
  · rw [if_pos hrows] at h
    cases pure_eq_ok.1 h
  · rw [if_neg hrows] at h
    obtain ⟨added, hadded, h⟩ := bind_eq_ok.1 h
    have hinner := pure_eq_ok.1 h
    obtain ⟨⟨pages, n⟩, rfl, hinner⟩ := bind_eq_ok.1 hinner
    obtain ⟨hfile, hinner⟩ := require_bind_eq_ok.1 hinner
    obtain ⟨-, hinner⟩ := require_bind_eq_ok.1 hinner
    cases pure_eq_ok.1 hinner
    exact ⟨hwidth, by omega, pages, n, hadded, rfl, rfl, hfile⟩

theorem sum_map_add {α : Type} (f g : α → Nat) (xs : List α) :
    (xs.map fun x => f x + g x).sum = (xs.map f).sum + (xs.map g).sum := by
  induction xs with
  | nil => rfl
  | cons x rest ih =>
    simp only [List.map_cons, List.sum_cons, ih]
    omega

/-- **One row that is added.** -/
theorem Accounts.add {interpreter : Interpreter} {start b b' : ParquetBatchBudget}
    {rows : List PreparedParquetRow} {row : PreparedParquetRow} (h : Accounts start b rows)
    (hadd : b.add interpreter row = .ok b') : Accounts start b' (rows ++ [row]) := by
  obtain ⟨added, hadded, hb⟩ := bind_eq_ok.1 hadd
  subst hb
  obtain ⟨prospective, hprospective, hmap⟩ := bind_eq_ok.1 hadded
  obtain ⟨usage, rfl, rfl⟩ := map_eq_ok.1 (pure_eq_ok.1 hmap)
  obtain ⟨hwidth, hrows, pages, n, hpages, hsizes, htotal, hfile⟩ :=
    prospectiveUsage_ok hprospective
  obtain ⟨hpages, hn, hle⟩ := addedPages_ok hpages
  rw [h.schema] at hwidth hpages hn
  rw [h.pageSizes] at hpages hn
  have hcolumns := charged_columnsOf rows hwidth
  have hzip : (start.schema.fields.zip (row.values.zip ((columnsOf start.schema rows).map fun c =>
      charged c.1 c.2))).map (fun p => p.2.2) =
        (columnsOf start.schema rows).map fun c => charged c.1 c.2 := by
    have hlength := length_columnsOf start.schema rows
    show List.map (Prod.snd ∘ Prod.snd) _ = _
    rw [← List.map_map, List.map_snd_zip, List.map_snd_zip]
    · rw [List.length_map, hlength, hwidth]
    · rw [List.length_zip, List.length_map, hlength, hwidth, Nat.min_self]
  refine
    { schema := h.schema
      limits := h.limits
      overhead := h.overhead
      rowCount := ?_
      rowCount_le := ?_
      width := ?_
      pageSizes := ?_
      page_le := ?_
      total := ?_
      file_le := ?_ }
  · rw [List.length_append, List.length_singleton, h.rowCount]
  · intro _
    rw [List.length_append, List.length_singleton, ← h.rowCount, ← h.limits]
    exact hrows
  · intro r hr
    rcases List.mem_append.1 hr with hr | hr
    · exact h.width r hr
    · rw [List.mem_singleton.1 hr]
      exact hwidth
  · rw [hcolumns]
    exact hsizes.trans hpages
  · intro _
    rw [← h.limits]
    show ∀ n ∈ usage.pageSizes, _
    rw [hsizes]
    exact hle
  · show usage.totalPageBytes = usage.pageSizes.sum
    rw [htotal, hsizes, hpages, hn, sum_map_add, hzip, h.total, h.pageSizes]
  · intro _
    rw [← h.limits, ← h.overhead]
    exact hfile

/-! ## Batches -/

/-- The overhead of a budget: the bound of the largest batch, less its pages. -/
theorem init_ok {interpreter : Interpreter} {schema : ExportSchema} {limits : ExportLimits}
    {b : ParquetBatchBudget} (h : init interpreter schema limits = .ok b) :
    Accounts b b [] ∧ b.schema = schema ∧ b.limits = limits ∧
      b.fileOverheadBytes =
        parquetFileSizeUpperBound limits.maxRowsPerFile
          (List.replicate schema.fields.length limits.maxPageBytes) schema -
            (List.replicate schema.fields.length limits.maxPageBytes).sum := by
  obtain ⟨-, h⟩ := require_bind_eq_ok.1 h
  cases pure_eq_ok.1 h
  refine ⟨?_, rfl, rfl, rfl⟩
  refine
    { schema := rfl
      limits := rfl
      overhead := rfl
      rowCount := rfl
      rowCount_le := fun hne => absurd rfl hne
      width := fun row hrow => absurd hrow List.not_mem_nil
      pageSizes := ?_
      page_le := fun hne => absurd rfl hne
      total := rfl
      file_le := fun hne => absurd rfl hne }
  refine List.ext_getElem ?_ fun i hi hi' => ?_
  · simp [columnsOf]
  · simp [columnsOf, charged, columnValues]

/-- **The rows that are added one after the other.** -/
theorem Accounts.foldlM {interpreter : Interpreter} {start : ParquetBatchBudget}
    (rows : List PreparedParquetRow) : ∀ {b b' : ParquetBatchBudget} {before : List PreparedParquetRow},
      Accounts start b before →
        rows.foldlM (fun budget row => budget.add interpreter row) b = .ok b' →
          Accounts start b' (before ++ rows) := by
  induction rows with
  | nil =>
    intro b b' before h hfold
    cases pure_eq_ok.1 hfold
    rwa [List.append_nil]
  | cons row rest ih =>
    intro b b' before h hfold
    rw [List.foldlM_cons] at hfold
    obtain ⟨c, hc, hfold⟩ := bind_eq_ok.1 hfold
    have hrest := ih (h.add hc) hfold
    rwa [List.append_assoc, List.singleton_append] at hrest

/-- The values of a row are those of its mapping, normalized and admitted. -/
def Prepares (schema : ExportSchema) (limits : ExportLimits) (row : List (List Char × PyValue))
    (prepared : PreparedParquetRow) : Prop :=
  List.Forall₂ (fun field v => normalizeField limits row field = .ok v ∧ AdmitsValue field v)
    schema.fields prepared.values

theorem prepareRow_ok {b : ParquetBatchBudget} {row : List (List Char × PyValue)} {rowIndex : Nat}
    {prepared : PreparedParquetRow} (h : b.prepareRow row rowIndex = .ok prepared) :
    Prepares b.schema b.limits row prepared := by
  obtain ⟨-, h⟩ := require_bind_eq_ok.1 h
  obtain ⟨values, hvalues, h⟩ := bind_eq_ok.1 h
  cases pure_eq_ok.1 h
  exact prepareFields_ok b.schema.fields hvalues

theorem prepareRows_ok {interpreter : Interpreter} {start : ParquetBatchBudget}
    (rows : List (List (List Char × PyValue))) :
    ∀ {b : ParquetBatchBudget} {before prepared : List PreparedParquetRow} {rowIndex : Nat},
      Accounts start b before → prepareRows interpreter b rowIndex rows = .ok prepared →
        List.Forall₂ (Prepares start.schema start.limits) rows prepared ∧
          ∃ b', prepared.foldlM (fun budget row => budget.add interpreter row) b = .ok b' := by
  induction rows with
  | nil =>
    intro b before prepared rowIndex h hprepared
    cases hprepared
    exact ⟨.nil, b, rfl⟩
  | cons row rest ih =>
    intro b before prepared rowIndex h hprepared
    rw [prepareRows] at hprepared
    obtain ⟨row', hrow, hprepared⟩ := bind_eq_ok.1 hprepared
    obtain ⟨c, hc, hprepared⟩ := bind_eq_ok.1 hprepared
    obtain ⟨rest', hrest, hprepared⟩ := bind_eq_ok.1 hprepared
    cases pure_eq_ok.1 hprepared
    obtain ⟨hall, b', hfold⟩ := ih (h.add hc) hrest
    have hprepares := prepareRow_ok hrow
    rw [h.schema, h.limits] at hprepares
    refine ⟨.cons hprepares hall, b', ?_⟩
    rw [List.foldlM_cons]
    exact bind_eq_ok.2 ⟨c, hc, hfold⟩

/-- The columns of prepared rows are admitted by their fields. -/
theorem admits_columnsOf {schema : ExportSchema} {rows : List PreparedParquetRow}
    (h : ∀ row ∈ rows, List.Forall₂ AdmitsValue schema.fields row.values) {c : Column}
    (hc : c ∈ columnsOf schema rows) : Admits c.1 c.2 ∧ c.2.length = rows.length := by
  obtain ⟨⟨field, index⟩, hindex, rfl⟩ := List.mem_map.1 hc
  have hfield : schema.fields[index]? = some field := List.mem_zipIdx_iff_getElem?.1 hindex
  have hvalue : ∀ row ∈ rows, AdmitsValue field (row.values.getD index none) := by
    intro row hrow
    have hall := h row hrow
    obtain ⟨hlt, heq⟩ := List.getElem?_eq_some_iff.1 hfield
    have hlt' : index < row.values.length := hall.length_eq ▸ hlt
    rw [List.getD_eq_getElem?_getD, List.getElem?_eq_getElem hlt', Option.getD_some, ← heq]
    exact hall.get hlt hlt'
  refine ⟨⟨fun v hv => ?_, fun hnull v hv => ?_⟩, ?_⟩
  · obtain ⟨row, hrow, heq⟩ := List.mem_map.1 hv
    exact (hvalue row hrow).fits v heq
  · obtain ⟨row, hrow, rfl⟩ := List.mem_map.1 hv
    exact (hvalue row hrow).required hnull
  · rw [columnValues, List.length_map]

end Makolet.Export
