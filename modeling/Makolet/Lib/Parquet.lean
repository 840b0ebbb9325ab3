import Makolet.Lib.Compact

/-!
# A reader of Parquet files

The part of the Parquet format that flat, uncompressed files use: the magic at both ends, the length
of the footer, the metadata of the file in the compact protocol of Thrift, and for each column of a
row group its data pages of version 1, with definition levels in the hybrid of runs and packed bits
and values in the `PLAIN` encoding. Anything else of the format makes the reader fail.
-/

set_option autoImplicit false

namespace Makolet.Lib.Parquet

open Makolet.Lib.Compact

def magic : Bytes := [80, 65, 82, 49]

/-- A value in the `PLAIN` encoding. -/
inductive PlainValue
  | bytes (bytes : Bytes)
  | int (n : Int)
  | bool (b : Bool)
  deriving DecidableEq, Repr

inductive Physical
  | boolean
  | int32
  | int64
  | byteArray
  deriving DecidableEq, Repr

/-- The codes of `Type`; the other physical types are not read. -/
def Physical.ofCode (code : Int) : Option Physical :=
  if code = 0 then some boolean
  else if code = 1 then some int32
  else if code = 2 then some int64
  else if code = 6 then some byteArray
  else none

/-- A column: `converted` and `logical` are the converted type and the logical type, which is
`some true` for a string. -/
structure Leaf where
  name : List Char
  physical : Physical
  optional : Bool
  converted : Option Int
  logical : Option Bool
  deriving DecidableEq, Repr

structure Table where
  leaves : List Leaf
  rowCount : Nat
  columns : List (List (Option PlainValue))
  keyValues : List (List Char × List Char)
  deriving DecidableEq, Repr

/-! ## Pages -/

/-- Levels of one bit: a run of one level, or groups of eight packed levels. -/
def readLevels : Nat → Nat → Bytes → Option (List Bool)
  | 0, remaining, _ => if remaining = 0 then some [] else none
  | fuel + 1, remaining, bytes =>
    if remaining = 0 then some []
    else (Reader.varint bytes).bind fun header =>
      if header.1 % 2 = 0 then
        (Reader.byte header.2).bind fun level =>
          if level.1.toNat ≤ 1 then
            let count := min (header.1 / 2) remaining
            (readLevels fuel (remaining - count) level.2).map fun rest =>
              List.replicate count (level.1 == 1) ++ rest
          else none
      else
        (Reader.take (header.1 / 2) header.2).bind fun packed =>
          let levels := (packed.1.flatMap fun b => bits 8 b.toNat).take remaining
          (readLevels fuel (remaining - levels.length) packed.2).map fun rest => levels ++ rest

def readPlainValue : Physical → Reader PlainValue
  | .boolean => Reader.fail
  | .int32 => (Reader.little 4).bind fun n => .pure (.int (ofTwos 32 n))
  | .int64 => (Reader.little 8).bind fun n => .pure (.int (ofTwos 64 n))
  | .byteArray => (Reader.little 4).bind fun size =>
    (Reader.take size).bind fun bytes => .pure (.bytes bytes)

def readPlain (physical : Physical) (count : Nat) : Reader (List PlainValue) :=
  if physical = .boolean then
    (Reader.take ((count + 7) / 8)).bind fun packed =>
      .pure (((packed.flatMap fun b => bits 8 b.toNat).take count).map .bool)
  else (readPlainValue physical).many count

/-- Values where the level is one, nulls elsewhere. -/
def assemble : List Bool → List PlainValue → Option (List (Option PlainValue))
  | [], [] => some []
  | false :: levels, values => (assemble levels values).map (none :: ·)
  | true :: levels, value :: values => (assemble levels values).map (some value :: ·)
  | _, _ => none

/-- The definition levels of a page: an optional column has them, after their size. -/
def readPageLevels (leaf : Leaf) (count : Nat) (body : Bytes) : Option (List Bool × Bytes) :=
  if leaf.optional then do
    let (size, rest) ← Reader.little 4 body
    let (encoded, rest) ← Reader.take size rest
    let levels ← readLevels encoded.length count encoded
    pure (levels, rest)
  else some (List.replicate count true, body)

/-- The values of a page, which is read to its end. -/
def readPage (leaf : Leaf) (count : Nat) (body : Bytes) : Option (List (Option PlainValue)) := do
  let (levels, rest) ← readPageLevels leaf count body
  let (values, rest) ← readPlain leaf.physical (levels.count true) rest
  guard (rest = [])
  assemble levels values

structure PageHeader where
  size : Nat
  valueCount : Nat
  deriving DecidableEq, Repr

/-- A data page of version 1 without compression, with `PLAIN` values and `RLE` levels. -/
def pageHeader (fields : List (Int × Value)) : Option PageHeader := do
  let pageType ← intField fields 1 .w32
  let uncompressedSize ← intField fields 2 .w32
  let compressedSize ← intField fields 3 .w32
  let header ← structField fields 5
  let valueCount ← intField header 1 .w32
  let encoding ← intField header 2 .w32
  let definitionEncoding ← intField header 3 .w32
  let repetitionEncoding ← intField header 4 .w32
  guard (pageType = 0 ∧ uncompressedSize = compressedSize ∧ encoding = 0 ∧
    definitionEncoding = 3 ∧ repetitionEncoding = 3 ∧ 0 ≤ compressedSize ∧ 0 ≤ valueCount)
  pure { size := compressedSize.toNat, valueCount := valueCount.toNat }

/-- The pages of a column chunk, until all its values are read. -/
def readPages (leaf : Leaf) : Nat → Nat → Bytes → Option (List (Option PlainValue))
  | 0, remaining, _ => if remaining = 0 then some [] else none
  | fuel + 1, remaining, bytes =>
    if remaining = 0 then some []
    else do
      let (fields, rest) ← decodeStruct bytes
      let header ← pageHeader fields
      let (body, rest) ← Reader.take header.size rest
      guard (header.valueCount ≤ remaining)
      let values ← readPage leaf header.valueCount body
      let more ← readPages leaf fuel (remaining - header.valueCount) rest
      pure (values ++ more)

/-! ## Metadata -/

def leaf (fields : List (Int × Value)) : Option Leaf := do
  let physical ← (intField fields 1 .w32).bind Physical.ofCode
  let repetition ← intField fields 3 .w32
  let name ← (binaryField fields 4).bind ofUtf8
  guard (intField fields 5 .w32 = none ∧ (repetition = 0 ∨ repetition = 1))
  pure {
    name
    physical
    optional := repetition = 1
    converted := intField fields 6 .w32
    logical := (structField fields 10).map fun logical => (structField logical 1).isSome }

/-- A flat schema: the root and its children. -/
def leaves (elements : List (List (Int × Value))) : Option (List Leaf) :=
  match elements with
  | [] => none
  | root :: children => do
    guard (intField root 5 .w32 = some (children.length : Int))
    children.mapM leaf

structure Chunk where
  valueCount : Nat
  dataPageOffset : Nat
  deriving DecidableEq, Repr

/-- The chunk of a column, in the same file, of its type and path, and not compressed. -/
def chunk (leaf : Leaf) (fields : List (Int × Value)) : Option Chunk := do
  let metadata ← structField fields 3
  let physical ← (intField metadata 1 .w32).bind Physical.ofCode
  let path ← listField metadata 3
  let codec ← intField metadata 4 .w32
  let valueCount ← intField metadata 5 .w64
  let dataPageOffset ← intField metadata 9 .w64
  let name ← match path with
    | [.binary name] => ofUtf8 name
    | _ => none
  guard (binaryField fields 1 = none ∧ physical = leaf.physical ∧ name = leaf.name ∧ codec = 0 ∧
    0 ≤ valueCount ∧ 0 ≤ dataPageOffset)
  pure { valueCount := valueCount.toNat, dataPageOffset := dataPageOffset.toNat }

def readColumn (content : Bytes) (rowCount : Nat) (leaf : Leaf) (fields : List (Int × Value)) :
    Option (List (Option PlainValue)) := do
  let chunk ← chunk leaf fields
  guard (chunk.valueCount = rowCount)
  readPages leaf (content.length + 1) chunk.valueCount (content.drop chunk.dataPageOffset)

/-- The columns of a row group, in the order of the schema. -/
def readRowGroup (content : Bytes) (leaves : List Leaf) (fields : List (Int × Value)) :
    Option (Nat × List (List (Option PlainValue))) := do
  let rowCount ← intField fields 3 .w64
  let chunks ← (listField fields 1).bind structs
  guard (chunks.length = leaves.length ∧ 0 ≤ rowCount)
  let columns ← (leaves.zip chunks).mapM fun column =>
    readColumn content rowCount.toNat column.1 column.2
  pure (rowCount.toNat, columns)

def readRowGroups (content : Bytes) (leaves : List Leaf) :
    List (List (Int × Value)) → Option (Nat × List (List (Option PlainValue)))
  | [] => some (0, leaves.map fun _ => [])
  | group :: rest => do
    let (rowCount, columns) ← readRowGroup content leaves group
    let (more, moreColumns) ← readRowGroups content leaves rest
    pure (rowCount + more, List.zipWith (· ++ ·) columns moreColumns)

def keyValue (fields : List (Int × Value)) : Option (List Char × List Char) := do
  let key ← (binaryField fields 1).bind ofUtf8
  let value ← (binaryField fields 2).bind ofUtf8
  pure (key, value)

def readMetadata (content : Bytes) (fields : List (Int × Value)) : Option Table := do
  let leaves ← ((listField fields 2).bind structs).bind leaves
  let rowCount ← intField fields 3 .w64
  let groups ← (listField fields 4).bind structs
  let keyValues ← ((listField fields 5).bind structs).bind (·.mapM keyValue)
  let (rows, columns) ← readRowGroups content leaves groups
  guard (rowCount = (rows : Int))
  pure { leaves, rowCount := rows, columns, keyValues }

/-- The footer: what stands before its length and the trailing magic. -/
def footer (content : Bytes) : Option Bytes := do
  guard (12 ≤ content.length ∧ content.take 4 = magic ∧
    content.drop (content.length - 4) = magic)
  let size := ofLittle ((content.drop (content.length - 8)).take 4)
  guard (size + 12 ≤ content.length)
  pure ((content.drop (content.length - 8 - size)).take size)

def decode (content : Bytes) : Option Table := do
  let footer ← footer content
  let (fields, rest) ← decodeStruct footer
  guard (rest = [])
  readMetadata content fields

/-! ## Files that are read to the end -/

/-- A file of a body and a footer, between the magics. -/
def assembled (body footer : Bytes) : Bytes :=
  magic ++ body ++ footer ++ little 4 footer.length ++ magic

theorem footer_assembled (body : Bytes) {text : Bytes} (h : text.length < 2 ^ 32) :
    footer (assembled body text) = some text := by
  have hlength : (assembled body text).length = body.length + text.length + 12 := by
    simp only [assembled, List.length_append, length_little, magic, List.length_cons,
      List.length_nil]
    omega
  have hhead : (assembled body text).take 4 = magic := by
    rw [assembled, List.append_assoc, List.append_assoc, List.append_assoc]
    rfl
  have hlast : (assembled body text).drop ((assembled body text).length - 4) = magic := by
    have hsplit : (assembled body text).length - 4 =
        (magic ++ body ++ text ++ little 4 text.length).length := by
      rw [hlength]
      simp only [List.length_append, length_little, magic, List.length_cons, List.length_nil]
      omega
    rw [hsplit, assembled, List.drop_left]
  have hsize : ((assembled body text).drop ((assembled body text).length - 8)).take 4 =
      little 4 text.length := by
    have hsplit : (assembled body text).length - 8 = (magic ++ body ++ text).length := by
      rw [hlength]
      simp only [List.length_append, magic, List.length_cons, List.length_nil]
      omega
    rw [hsplit, assembled, List.append_assoc _ (little 4 text.length), List.drop_left,
      List.take_append_of_le_length (by simp), List.take_of_length_le (by simp)]
  have hread : ofLittle (little 4 text.length) = text.length := by
    rw [ofLittle_little]
    exact Nat.mod_eq_of_lt h
  have htext : ((assembled body text).drop ((assembled body text).length - 8 - text.length)).take
      text.length = text := by
    have hsplit : (assembled body text).length - 8 - text.length = (magic ++ body).length := by
      rw [hlength]
      simp only [List.length_append, magic, List.length_cons, List.length_nil]
      omega
    rw [hsplit, assembled, List.append_assoc, List.append_assoc (magic ++ body), List.drop_left,
      List.take_left]
  rw [footer, hhead, hlast, hsize, hread]
  dsimp only
  rw [htext, guard, guard, if_pos ⟨by omega, rfl, rfl⟩, if_pos (by omega)]
  rfl

/-- The metadata of such a file decide what it is decoded to. -/
theorem decode_assembled (body : Bytes) {fields : List (Int × Value)} (h : WritableFields fields)
    (hlength : (encode (.struct fields)).length < 2 ^ 32) :
    decode (assembled body (encode (.struct fields))) =
      readMetadata (assembled body (encode (.struct fields))) fields := by
  have hstruct := decodeStruct_encode h []
  rw [List.append_nil] at hstruct
  rw [decode, footer_assembled body hlength]
  show (decodeStruct _).bind _ = _
  rw [hstruct]
  rfl

end Makolet.Lib.Parquet
