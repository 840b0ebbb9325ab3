import Makolet.Lib.Bytes
import Makolet.Lib.Text

/-!
# The values of analytical exports

Fields, schemas and limits of an export. Their classes refuse invalid values when they are built, so
the structures here carry what was checked. The fields of a schema are written as one JSON text, in
the metadata of the Parquet files and in the manifests; the text determines the fields.
-/

set_option autoImplicit false

namespace Makolet.Export

open Makolet.Lib

inductive ExportType
  | string
  | binary
  | int32
  | int64
  | boolean
  | decimalString
  | timestampIso8601
  deriving DecidableEq, Repr

namespace ExportType

def value : ExportType → List Char
  | string => "string".toList
  | binary => "binary".toList
  | int32 => "int32".toList
  | int64 => "int64".toList
  | boolean => "boolean".toList
  | decimalString => "decimal_string".toList
  | timestampIso8601 => "timestamp_iso8601".toList

theorem value_injective : Function.Injective value := by
  intro a b h
  cases a <;> cases b <;> first | rfl | exact absurd h (by decide)

end ExportType

/-- `ExportField.__post_init__`: non-empty UTF-8 names up to 255 bytes without NUL. -/
def IsFieldName (name : List Char) : Prop :=
  name ≠ [] ∧ '\x00' ∉ name ∧ (utf8 name).length ≤ 255

instance (name : List Char) : Decidable (IsFieldName name) :=
  inferInstanceAs (Decidable (_ ∧ _ ∧ _))

structure ExportField where
  name : List Char
  valueType : ExportType
  nullable : Bool
  named : IsFieldName name

theorem ExportField.ext_iff {a b : ExportField} :
    a = b ↔ a.name = b.name ∧ a.valueType = b.valueType ∧ a.nullable = b.nullable := by
  cases a
  cases b
  simp

def isLower (c : Char) : Bool := 'a' ≤ c && c ≤ 'z'

def isUpper (c : Char) : Bool := 'A' ≤ c && c ≤ 'Z'

def isDigit (c : Char) : Bool := '0' ≤ c && c ≤ '9'

/-- `_IDENTIFIER_PATTERN`: `[a-z][a-z0-9_]{0,63}`. -/
def isIdentifier : List Char → Bool
  | [] => false
  | c :: rest => isLower c && rest.all (fun c => isLower c || isDigit c || c == '_') &&
    rest.length ≤ 63

/-- `_SCHEMA_VERSION_PATTERN`: `[A-Za-z0-9][A-Za-z0-9._-]{0,63}`. -/
def isSchemaVersion : List Char → Bool
  | [] => false
  | c :: rest => (isLower c || isUpper c || isDigit c) &&
    rest.all (fun c => isLower c || isUpper c || isDigit c || c == '.' || c == '_' || c == '-') &&
    rest.length ≤ 63

structure ExportSchema where
  entity : List Char
  version : List Char
  fields : List ExportField
  identified : isIdentifier entity = true
  versioned : isSchemaVersion version = true
  inhabited : fields ≠ []
  unique : (fields.map ExportField.name).Nodup

/-- The limits of an export. Those of the spool, the output and the time of an operation bound the
calls that read the database, and are left out. -/
structure ExportLimits where
  maxColumns : Nat
  maxRowsPerFile : Nat
  maxFiles : Nat
  maxDatasetRows : Nat
  maxStringBytes : Nat
  maxBinaryBytes : Nat
  maxPageBytes : Nat
  maxFileBytes : Nat
  maxWorkingSetBytes : Nat
  positive : 0 < maxColumns ∧ 0 < maxRowsPerFile ∧ 0 < maxFiles ∧ 0 < maxDatasetRows ∧
    0 < maxStringBytes ∧ 0 < maxBinaryBytes ∧ 0 < maxPageBytes ∧ 0 < maxFileBytes ∧
    0 < maxWorkingSetBytes
  datasetRows : maxRowsPerFile ≤ maxDatasetRows
  signed : maxRowsPerFile < 2 ^ 31 ∧ maxPageBytes < 2 ^ 31 ∧ maxFileBytes < 2 ^ 31
  lengths : maxStringBytes < 2 ^ 32 ∧ maxBinaryBytes < 2 ^ 32
  pages : maxPageBytes ≤ maxFileBytes
  files : maxFileBytes ≤ maxWorkingSetBytes

/-- The values an `ExportLimits()` has. -/
def ExportLimits.default : ExportLimits where
  maxColumns := 128
  maxRowsPerFile := 50000
  maxFiles := 1000
  maxDatasetRows := 10000000
  maxStringBytes := 1048576
  maxBinaryBytes := 16777216
  maxPageBytes := 67108864
  maxFileBytes := 67108864
  maxWorkingSetBytes := 268435456
  positive := by decide
  datasetRows := by decide
  signed := by decide
  lengths := by decide
  pages := by decide
  files := by decide

/-! ## The text of a schema -/

/-- The keys of a field are sorted. -/
def fieldJson (field : ExportField) : List Char :=
  "\x7b\"name\":".toList ++ (quote field.name ++ (",\"nullable\":".toList ++
    (boolText field.nullable ++ (",\"type\":".toList ++ (quote field.valueType.value ++
      "\x7d".toList)))))

def fieldsJson (fields : List ExportField) : List Char := writeList fieldJson fields

theorem fieldJson_unambiguous : Unambiguous fieldJson := by
  have htype : Unambiguous fun field : ExportType => quote field.value :=
    quote_unambiguous.comap ExportType.value_injective
  have hparts := (quote_unambiguous.pair ((boolText_unambiguous.pair
    ((htype.before "\x7d".toList).literal ",\"type\":".toList)).literal
      ",\"nullable\":".toList)).literal "\x7b\"name\":".toList
  refine hparts.comap (e := fun field : ExportField =>
    (field.name, field.nullable, field.valueType)) ?_
  intro a b h
  simp only [Prod.mk.injEq] at h
  exact ExportField.ext_iff.2 ⟨h.1, h.2.2, h.2.1⟩

theorem fieldsJson_unambiguous : Unambiguous fieldsJson := by
  have hfirst (field : ExportField) : ∃ rest, fieldJson field = '\x7b' :: rest := ⟨_, rfl⟩
  exact fieldJson_unambiguous.writeList hfirst (by decide)

/-- **The text of the fields determines them.** -/
theorem fieldsJson_injective : Function.Injective fieldsJson :=
  fieldsJson_unambiguous.injective

end Makolet.Export
