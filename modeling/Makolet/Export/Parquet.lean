import Makolet.Domain.Filenames
import Makolet.Export.Values
import Mathlib.Data.Int.Bitwise

/-!
# The Parquet writer

`_build_parquet_bytes`: format version 1, one data page of version 1 for each column, uncompressed
`PLAIN` values, `RLE` definition levels, and metadata in the compact protocol of Thrift. The sizes
that `ParquetBatchBudget` accounts for are computed with the same functions.

What `sys.getsizeof` returns and the size of a pointer are parameters.
-/

set_option autoImplicit false

namespace Makolet.Export

open Makolet.Lib
open Makolet.Lib.Parquet (PlainValue)

/-! ## The compact protocol -/

inductive CompactType
  | stop
  | booleanTrue
  | booleanFalse
  | byte
  | i16
  | i32
  | i64
  | double
  | binary
  | list
  | struct
  deriving DecidableEq, Repr

def CompactType.code : CompactType → Nat
  | stop => 0
  | booleanTrue => 1
  | booleanFalse => 2
  | byte => 3
  | i16 => 4
  | i32 => 5
  | i64 => 6
  | double => 7
  | binary => 8
  | list => 9
  | struct => 12

inductive PhysicalType
  | boolean
  | int32
  | int64
  | byteArray
  deriving DecidableEq, Repr

def PhysicalType.code : PhysicalType → Nat
  | boolean => 0
  | int32 => 1
  | int64 => 2
  | byteArray => 6

inductive Encoding
  | plain
  | rle
  deriving DecidableEq, Repr

def Encoding.code : Encoding → Nat
  | plain => 0
  | rle => 3

/-- The loop of `_unsigned_varint`. A value has fewer than `fuel` bits left. -/
def unsignedVarintLoop : Nat → Nat → Bytes
  | 0, _ => []
  | fuel + 1, value =>
    let byte := value &&& 0x7F
    let value := value >>> 7
    if value = 0 then [UInt8.ofNat byte]
    else UInt8.ofNat (byte ||| 0x80) :: unsignedVarintLoop fuel value

def unsignedVarint (value : Nat) : Bytes := unsignedVarintLoop (value + 1) value

/-- Both shifts have the sign of the value, so that the result is not negative. -/
def signedVarint (value : Int) : Bytes :=
  unsignedVarint (Int.xor (value <<< (1 : Nat)) (value >>> (63 : Nat))).toNat

structure CompactStruct where
  buffer : Bytes
  lastFieldId : Nat

namespace CompactStruct

def empty : CompactStruct := { buffer := [], lastFieldId := 0 }

def fieldHeader (s : CompactStruct) (fieldId : Nat) (fieldType : CompactType) : CompactStruct :=
  let delta : Int := (fieldId : Int) - s.lastFieldId
  let header :=
    if 1 ≤ delta ∧ delta ≤ 15 then [UInt8.ofNat ((delta.toNat <<< 4) ||| fieldType.code)]
    else UInt8.ofNat fieldType.code :: signedVarint fieldId
  { buffer := s.buffer ++ header, lastFieldId := fieldId }

def extend (s : CompactStruct) (bytes : Bytes) : CompactStruct :=
  { s with buffer := s.buffer ++ bytes }

def i16 (s : CompactStruct) (fieldId : Nat) (value : Int) : CompactStruct :=
  (s.fieldHeader fieldId .i16).extend (signedVarint value)

def i32 (s : CompactStruct) (fieldId : Nat) (value : Int) : CompactStruct :=
  (s.fieldHeader fieldId .i32).extend (signedVarint value)

def i64 (s : CompactStruct) (fieldId : Nat) (value : Int) : CompactStruct :=
  (s.fieldHeader fieldId .i64).extend (signedVarint value)

def binary (s : CompactStruct) (fieldId : Nat) (value : Bytes) : CompactStruct :=
  (s.fieldHeader fieldId .binary).extend (unsignedVarint value.length ++ value)

def string (s : CompactStruct) (fieldId : Nat) (value : List Char) : CompactStruct :=
  s.binary fieldId (utf8 value)

def struct (s : CompactStruct) (fieldId : Nat) (value : Bytes) : CompactStruct :=
  (s.fieldHeader fieldId .struct).extend value

def listHeader (elementType : CompactType) (size : Nat) : Bytes :=
  if size ≤ 14 then [UInt8.ofNat ((size <<< 4) ||| elementType.code)]
  else UInt8.ofNat (0xF0 ||| elementType.code) :: unsignedVarint size

def listI32 (s : CompactStruct) (fieldId : Nat) (values : List Int) : CompactStruct :=
  (s.fieldHeader fieldId .list).extend
    (listHeader .i32 values.length ++ values.flatMap signedVarint)

def listBinary (s : CompactStruct) (fieldId : Nat) (values : List Bytes) : CompactStruct :=
  (s.fieldHeader fieldId .list).extend
    (listHeader .binary values.length ++
      values.flatMap fun value => unsignedVarint value.length ++ value)

def listStruct (s : CompactStruct) (fieldId : Nat) (values : List Bytes) : CompactStruct :=
  (s.fieldHeader fieldId .list).extend (listHeader .struct values.length ++ values.flatten)

def finish (s : CompactStruct) : Bytes := s.buffer ++ [UInt8.ofNat CompactType.stop.code]

end CompactStruct

/-! ## The metadata -/

def physicalType (valueType : ExportType) : PhysicalType :=
  if valueType = .boolean then .boolean
  else if valueType = .int32 then .int32
  else if valueType = .int64 then .int64
  else .byteArray

def isStringType (valueType : ExportType) : Bool :=
  valueType ∈ [ExportType.string, .decimalString, .timestampIso8601]

/-- `_schema_element`; an argument that is `None` leaves its field out. -/
def schemaElement (name : List Char) (physicalType : Option PhysicalType) (nullable : Option Bool)
    (children : Option Nat) : Bytes :=
  let thrift := CompactStruct.empty
  let thrift := match physicalType with
    | some physicalType => thrift.i32 1 physicalType.code
    | none => thrift
  let thrift := match nullable with
    | some nullable => thrift.i32 3 (if nullable then 1 else 0)
    | none => thrift
  let thrift := thrift.string 4 name
  let thrift := match children with
    | some children => thrift.i32 5 children
    | none => thrift
  thrift.finish

def stringSchemaElement (name : List Char) (nullable : Bool) : Bytes :=
  let thrift := CompactStruct.empty
  let thrift := thrift.i32 1 PhysicalType.byteArray.code
  let thrift := thrift.i32 3 (if nullable then 1 else 0)
  let thrift := thrift.string 4 name
  let thrift := thrift.i32 6 0  -- `ConvertedType.UTF8`
  let logicalType := CompactStruct.empty.struct 1 CompactStruct.empty.finish
  let thrift := thrift.struct 10 logicalType.finish
  thrift.finish

def dataPageHeader (rowCount pageSize : Nat) : Bytes :=
  let dataHeader := CompactStruct.empty
  let dataHeader := dataHeader.i32 1 rowCount
  let dataHeader := dataHeader.i32 2 Encoding.plain.code
  let dataHeader := dataHeader.i32 3 Encoding.rle.code
  let dataHeader := dataHeader.i32 4 Encoding.rle.code
  let pageHeader := CompactStruct.empty
  let pageHeader := pageHeader.i32 1 0  -- `PageType.DATA_PAGE`
  let pageHeader := pageHeader.i32 2 pageSize
  let pageHeader := pageHeader.i32 3 pageSize
  let pageHeader := pageHeader.struct 5 dataHeader.finish
  pageHeader.finish

def keyValue (key value : List Char) : Bytes :=
  let thrift := CompactStruct.empty
  let thrift := thrift.string 1 key
  let thrift := thrift.string 2 value
  thrift.finish

def columnMetadata (physicalType : PhysicalType) (fieldName : List Char)
    (rowCount totalSize dataPageOffset : Nat) : Bytes :=
  let thrift := CompactStruct.empty
  let thrift := thrift.i32 1 physicalType.code
  let thrift := thrift.listI32 2 [(Encoding.plain.code : Int), Encoding.rle.code]
  let thrift := thrift.listBinary 3 [utf8 fieldName]
  let thrift := thrift.i32 4 0  -- `CompressionCodec.UNCOMPRESSED`
  let thrift := thrift.i64 5 rowCount
  let thrift := thrift.i64 6 totalSize
  let thrift := thrift.i64 7 totalSize
  let thrift := thrift.i64 9 dataPageOffset
  thrift.finish

def columnChunk (metadata : Bytes) : Bytes :=
  let thrift := CompactStruct.empty
  let thrift := thrift.i64 2 0  -- no column metadata outside the footer
  let thrift := thrift.struct 3 metadata
  thrift.finish

def rowGroup (columnChunks : List Bytes) (totalSize rowCount fileOffset : Nat) : Bytes :=
  let thrift := CompactStruct.empty
  let thrift := thrift.listStruct 1 columnChunks
  let thrift := thrift.i64 2 totalSize
  let thrift := thrift.i64 3 rowCount
  let thrift := thrift.i64 5 fileOffset
  let thrift := thrift.i64 6 totalSize
  let thrift := thrift.i16 7 0
  thrift.finish

def logicalSchemaJson (schema : ExportSchema) : List Char := fieldsJson schema.fields

def createdBy : List Char :=
  "makolet version 0.1.0 (dependency-free parquet writer)".toList

/-- The element of a field of the schema. -/
def fieldElement (field : ExportField) : Bytes :=
  if isStringType field.valueType then stringSchemaElement field.name field.nullable
  else schemaElement field.name (some (physicalType field.valueType)) (some field.nullable) none

/-- The keys of the metadata are sorted. -/
def schemaMetadata (schema : ExportSchema) : List (List Char × List Char) :=
  [("makolet.entity".toList, schema.entity),
    ("makolet.logical_schema".toList, logicalSchemaJson schema),
    ("makolet.schema_version".toList, schema.version)]

def fileMetadata (schema : ExportSchema) (rowCount : Nat) (rowGroups : List Bytes) : Bytes :=
  let schemaElements :=
    schemaElement "schema".toList none none (some schema.fields.length) ::
      schema.fields.map fieldElement
  let keyValues := (schemaMetadata schema).map fun item => keyValue item.1 item.2
  let thrift := CompactStruct.empty
  let thrift := thrift.i32 1 1
  let thrift := thrift.listStruct 2 schemaElements
  let thrift := thrift.i64 3 rowCount
  let thrift := thrift.listStruct 4 rowGroups
  let thrift := thrift.listStruct 5 keyValues
  let thrift := thrift.string 6 createdBy
  thrift.finish

/-! ## Pages -/

/-- `struct.pack("<I", n)`. -/
def packUnsigned32 (n : Nat) : Except ExportError Bytes := do
  require (n < 2 ^ 32) (.library "struct.error")
  return little 4 n

/-- `struct.pack` with the format `<i` or `<q`. -/
def packSigned (width : Nat) (n : Int) : Except ExportError Bytes := do
  require (Signed (8 * width) n) (.library "struct.error")
  return little width (toTwos (8 * width) n)

def encodeRun (value : Bool) (count : Nat) : Bytes :=
  unsignedVarint (count <<< 1) ++ [if value then 1 else 0]

/-- The runs of a sequence that goes on after `count` times `value`. -/
def encodeRuns (value : Bool) (count : Nat) : List Bool → Bytes
  | [] => encodeRun value count
  | next :: rest =>
    if next = value then encodeRuns value (count + 1) rest
    else encodeRun value count ++ encodeRuns next 1 rest

/-- The loop of `_encode_definition_levels`. -/
def levelRuns : List Bool → Bytes
  | [] => []
  | value :: rest => encodeRuns value 1 rest

def encodeDefinitionLevels (present : List Bool) : Except ExportError Bytes := do
  let encoded := levelRuns present
  let size ← packUnsigned32 encoded.length
  return size ++ encoded

/-- `packed` of up to eight values: one bit for each value that is `True`. -/
def packValues (values : List PlainValue) : Nat :=
  values.zipIdx.foldl (fun packed value =>
    if value.1 = .bool true then packed ||| (1 <<< value.2) else packed) 0

def encodePlainValue (valueType : ExportType) (value : PlainValue) : Except ExportError Bytes :=
  match valueType, value with
  | .int32, .int n => packSigned 4 n
  | .int32, _ => .error (.validation "normalized int32 value is not an integer")
  | .int64, .int n => packSigned 8 n
  | .int64, _ => .error (.validation "normalized int64 value is not an integer")
  | _, .bytes bytes => do
    let size ← packUnsigned32 bytes.length
    return size ++ bytes
  | _, _ => .error (.validation "normalized byte-array value is not bytes")

def encodePlain (values : List PlainValue) (valueType : ExportType) : Except ExportError Bytes :=
  if valueType = .boolean then
    .ok ((List.range ((values.length + 7) / 8)).map fun index =>
      UInt8.ofNat (packValues ((values.drop (8 * index)).take 8)))
  else do
    let encoded ← values.mapM (encodePlainValue valueType)
    return encoded.flatten

def plainValueSize (value : PlainValue) (valueType : ExportType) : Except ExportError Nat :=
  match valueType, value with
  | .boolean, _ => .ok 1
  | .int32, _ => .ok 4
  | .int64, _ => .ok 8
  | _, .bytes bytes => .ok (4 + bytes.length)
  | _, _ => .error (.validation "normalized byte-array value is not bytes")

/-! ## The budget of a batch -/

structure PreparedParquetRow where
  values : List (Option PlainValue)
  deriving DecidableEq, Repr

structure BatchUsage where
  pageSizes : List Nat
  totalPageBytes : Nat
  retainedValueBytes : Nat
  fileBytes : Nat
  workingSetBytes : Nat
  deriving DecidableEq, Repr

/-- The sizes of the objects of the running interpreter. -/
structure Interpreter where
  pointerBytes : Nat
  listBaseBytes : Nat
  preparedRowBytes : Nat
  tupleBytes : Nat → Nat
  valueBytes : Option PlainValue → Nat

def encoderOutputCopyFactor : Nat := 5

def batchFixedOverheadBytes : Nat := 65536

def parquetMagic : Bytes := [80, 65, 82, 49]

def boundedListBytes (interpreter : Interpreter) (itemCount : Nat) : Nat :=
  interpreter.listBaseBytes + itemCount * interpreter.pointerBytes * 2

/-- The column chunks of pages of these sizes, with the offset after them and their total size. -/
def sizedChunks (rowCount : Nat) : Nat → List (ExportField × Nat) → List Bytes × Nat × Nat
  | offset, [] => ([], offset, 0)
  | offset, (field, pageSize) :: rest =>
    let totalSize := (dataPageHeader rowCount pageSize).length + pageSize
    let metadata :=
      columnMetadata (physicalType field.valueType) field.name rowCount totalSize offset
    let (columnChunks, last, total) := sizedChunks rowCount (offset + totalSize) rest
    (columnChunk metadata :: columnChunks, last, totalSize + total)

def parquetFileSizeUpperBound (rowCount : Nat) (pageSizes : List Nat) (schema : ExportSchema) :
    Nat :=
  if rowCount = 0 then
    parquetMagic.length + (fileMetadata schema 0 []).length + 4 + parquetMagic.length
  else
    let rowGroupOffset := parquetMagic.length
    let (columnChunks, offset, totalRowGroupSize) :=
      sizedChunks rowCount rowGroupOffset (schema.fields.zip pageSizes)
    let rowGroup := rowGroup columnChunks totalRowGroupSize rowCount rowGroupOffset
    let footer := fileMetadata schema rowCount [rowGroup]
    offset + footer.length + 4 + parquetMagic.length

def preparedRowRetainedBytes (interpreter : Interpreter) (row : PreparedParquetRow) : Nat :=
  interpreter.preparedRowBytes + interpreter.tupleBytes row.values.length +
    (row.values.map interpreter.valueBytes).sum

def workingSetUpperBound (interpreter : Interpreter) (rowCount retainedValueBytes fileBytes : Nat) :
    Nat :=
  batchFixedOverheadBytes + retainedValueBytes + boundedListBytes interpreter rowCount +
    boundedListBytes interpreter rowCount * 2 + fileBytes * encoderOutputCopyFactor

structure ParquetBatchBudget where
  schema : ExportSchema
  limits : ExportLimits
  fileOverheadBytes : Nat
  usage : BatchUsage
  rowCount : Nat

namespace ParquetBatchBudget

def init (interpreter : Interpreter) (schema : ExportSchema) (limits : ExportLimits) :
    Except ExportError ParquetBatchBudget := do
  require (schema.fields.length ≤ limits.maxColumns) (.validation "schema exceeds max_columns")
  let pageSizes := schema.fields.map fun field => if field.nullable then 4 else 0
  let maximumPageSizes := List.replicate schema.fields.length limits.maxPageBytes
  let fileBytes := parquetFileSizeUpperBound 0 pageSizes schema
  return {
    schema
    limits
    fileOverheadBytes :=
      parquetFileSizeUpperBound limits.maxRowsPerFile maximumPageSizes schema -
        maximumPageSizes.sum
    usage := {
      pageSizes
      totalPageBytes := pageSizes.sum
      retainedValueBytes := 0
      fileBytes
      workingSetBytes := workingSetUpperBound interpreter 0 0 fileBytes }
    rowCount := 0 }

/-- The value of one field of a row, with the bytes it is charged. -/
def prepareField (limits : ExportLimits) (rowIndex : Nat) (row : List (List Char × PyValue))
    (field : ExportField) : Except ExportError (Option PlainValue × Nat) :=
  match (row.lookup field.name).getD .none with
  | .none => do
    require field.nullable (.row rowIndex "is missing required field" [field.name])
    return (none, 0)
  | value => do
    let normalized ← normalizeValue value field.valueType limits
    let valueBytes ← plainValueSize normalized field.valueType
    return (some normalized, valueBytes)

/-- The loop of `prepare_row` over the fields. Every field reads its own entry of the page sizes
only, so that an entry is started where the field is reached; `totalPageBytes` holds what all fields
start with. -/
def prepareFields (limits : ExportLimits) (rowIndex : Nat) (row : List (List Char × PyValue)) :
    Nat → List ExportField → Except ExportError (List (Option PlainValue))
  | _, [] => .ok []
  | totalPageBytes, field :: rest => do
    let (value, valueBytes) ← prepareField limits rowIndex row field
    let levelBytes := if field.nullable then 2 else 0
    let pageSize := (if field.nullable then 4 else 0) + valueBytes + levelBytes
    let totalPageBytes := totalPageBytes + valueBytes + levelBytes
    require (pageSize ≤ limits.maxPageBytes)
      (.rendered "column " field.name " exceeds max_page_bytes")
    require (totalPageBytes ≤ limits.maxFileBytes)
      (.validation "Parquet row batch exceeds max_file_bytes")
    let values ← prepareFields limits rowIndex row totalPageBytes rest
    return value :: values

/-- `prepare_row`; a row that is no mapping is left out. -/
def prepareRow (b : ParquetBatchBudget) (row : List (List Char × PyValue)) (rowIndex : Nat) :
    Except ExportError PreparedParquetRow := do
  let unknown := (row.map Prod.fst).filter fun name =>
    name ∉ b.schema.fields.map ExportField.name
  require (unknown = []) (.row rowIndex "has unknown fields" unknown)
  let started := (b.schema.fields.map fun field => if field.nullable then 4 else 0).sum
  let values ← prepareFields b.limits rowIndex row started b.schema.fields
  return { values }

def optionalSize (field : ExportField) : Option PlainValue → Except ExportError Nat
  | some value => plainValueSize value field.valueType
  | none => .ok 0

/-- The loop of `_prospective_usage`: the new page sizes and the bytes added to all pages. The inner
error is the reason a row is not added for. -/
def addedPages (limits : ExportLimits) :
    List (ExportField × Option PlainValue × Nat) →
      Except ExportError (Except ExportError (List Nat × Nat))
  | [] => .ok (.ok ([], 0))
  | (field, value, pageSize) :: rest => do
    let valueBytes ← optionalSize field value
    let levelBytes := if field.nullable then 2 else 0
    let pageSize := pageSize + valueBytes + levelBytes
    if limits.maxPageBytes < pageSize then
      return .error (.rendered "column " field.name " exceeds max_page_bytes")
    else do
      let added ← addedPages limits rest
      return added.map fun r => (pageSize :: r.1, valueBytes + levelBytes + r.2)

def prospectiveUsage (interpreter : Interpreter) (b : ParquetBatchBudget)
    (row : PreparedParquetRow) : Except ExportError (Except ExportError BatchUsage) := do
  require (row.values.length = b.schema.fields.length)
    (.validation "prepared row does not match export schema")
  let rowCount := b.rowCount + 1
  if b.limits.maxRowsPerFile < rowCount then
    return .error (.validation "row batch exceeds max_rows_per_file")
  else do
    let added ← addedPages b.limits (b.schema.fields.zip (row.values.zip b.usage.pageSizes))
    return do
      let (pageSizes, addedBytes) ← added
      let totalPageBytes := b.usage.totalPageBytes + addedBytes
      let fileBytes := totalPageBytes + b.fileOverheadBytes
      require (fileBytes ≤ b.limits.maxFileBytes)
        (.validation "Parquet row batch exceeds max_file_bytes")
      let retainedValueBytes :=
        b.usage.retainedValueBytes + preparedRowRetainedBytes interpreter row
      let workingSetBytes :=
        workingSetUpperBound interpreter rowCount retainedValueBytes fileBytes
      require (workingSetBytes ≤ b.limits.maxWorkingSetBytes)
        (.validation "Parquet row batch exceeds max_working_set_bytes")
      return { pageSizes, totalPageBytes, retainedValueBytes, fileBytes, workingSetBytes }

/-- The budget after a row that fits, or the reason for which it does not. -/
def addIfWithinLimits (interpreter : Interpreter) (b : ParquetBatchBudget)
    (row : PreparedParquetRow) : Except ExportError (Except ExportError ParquetBatchBudget) := do
  let prospective ← b.prospectiveUsage interpreter row
  return prospective.map fun usage => { b with usage, rowCount := b.rowCount + 1 }

def add (interpreter : Interpreter) (b : ParquetBatchBudget) (row : PreparedParquetRow) :
    Except ExportError ParquetBatchBudget := do
  let added ← b.addIfWithinLimits interpreter row
  added

end ParquetBatchBudget

/-! ## The file -/

/-- The values of a column. The rows have a value for every field of the schema. -/
def columnValues (rows : List PreparedParquetRow) (fieldIndex : Nat) : List (Option PlainValue) :=
  rows.map fun row => row.values.getD fieldIndex none

def preparedColumn (rows : List PreparedParquetRow) (fieldIndex : Nat) :
    List Bool × List PlainValue :=
  ((columnValues rows fieldIndex).map Option.isSome, (columnValues rows fieldIndex).filterMap id)

/-- What the loop over the columns has written. -/
structure Written where
  output : Bytes
  columnChunks : List Bytes
  totalRowGroupSize : Nat

def pageBody (rows : List PreparedParquetRow) (field : ExportField) (fieldIndex : Nat) :
    Except ExportError Bytes := do
  let (present, nonNullValues) := preparedColumn rows fieldIndex
  let definitionLevels ← if field.nullable then encodeDefinitionLevels present else pure []
  let values ← encodePlain nonNullValues field.valueType
  return definitionLevels ++ values

def writeColumn (rows : List PreparedParquetRow) (limits : ExportLimits) (w : Written)
    (column : ExportField × Nat) : Except ExportError Written := do
  let (field, fieldIndex) := column
  let pageBody ← pageBody rows field fieldIndex
  require (pageBody.length ≤ limits.maxPageBytes)
    (.rendered "column " field.name " exceeds max_page_bytes")
  let pageHeader := dataPageHeader rows.length pageBody.length
  require (w.output.length + pageHeader.length + pageBody.length ≤ limits.maxFileBytes)
    (.validation "Parquet output exceeds max_file_bytes")
  let totalSize := pageHeader.length + pageBody.length
  let metadata := columnMetadata (physicalType field.valueType) field.name rows.length totalSize
    w.output.length
  return {
    output := w.output ++ pageHeader ++ pageBody
    columnChunks := w.columnChunks ++ [columnChunk metadata]
    totalRowGroupSize := w.totalRowGroupSize + totalSize }

/-- The end of the file: the footer, its length and the magic. -/
def appendFooter (limits : ExportLimits) (output footer : Bytes) : Except ExportError Bytes := do
  require (footer.length < 2 ^ 32)
    (.validation "Parquet footer exceeds the unsigned 32-bit length field")
  let finalSize := output.length + footer.length + 4 + parquetMagic.length
  require (finalSize ≤ limits.maxFileBytes)
    (.validation "Parquet output exceeds max_file_bytes")
  let size ← packUnsigned32 footer.length
  return output ++ footer ++ size ++ parquetMagic

def buildParquetBytes (interpreter : Interpreter) (rows : List PreparedParquetRow)
    (schema : ExportSchema) (limits : ExportLimits) : Except ExportError Bytes := do
  let budget ← ParquetBatchBudget.init interpreter schema limits
  let _ ← rows.foldlM (fun budget row => budget.add interpreter row) budget
  let rowGroupOffset := parquetMagic.length
  let written ← schema.fields.zipIdx.foldlM (writeColumn rows limits)
    { output := parquetMagic, columnChunks := [], totalRowGroupSize := 0 }
  let output := if rows = [] then parquetMagic else written.output
  let rowGroups :=
    if rows = [] then []
    else [rowGroup written.columnChunks written.totalRowGroupSize rows.length rowGroupOffset]
  appendFooter limits output (fileMetadata schema rows.length rowGroups)

/-- The rows of `write_parquet`, each prepared and then added to the budget. -/
def prepareRows (interpreter : Interpreter) :
    ParquetBatchBudget → Nat → List (List (List Char × PyValue)) →
      Except ExportError (List PreparedParquetRow)
  | _, _, [] => .ok []
  | budget, rowIndex, row :: rest => do
    let prepared ← budget.prepareRow row rowIndex
    let budget ← budget.add interpreter prepared
    let preparedRows ← prepareRows interpreter budget (rowIndex + 1) rest
    return prepared :: preparedRows

end Makolet.Export
