import Makolet.Export.Models
import Makolet.Lib.Parquet
import Makolet.Lib.Outcome

/-!
# Normalized values

`_normalize_value` turns a value of a row into what the Parquet writer stores: the bytes of a string,
of a decimal in positional notation or of an instant in UTC, or a number or a boolean as it is.
Decimals and datetimes are those of the Python library, as far as their texts are concerned.
-/

set_option autoImplicit false

namespace Makolet.Export

open Makolet.Lib
open Makolet.Lib.Parquet (PlainValue)

/-- What the exporter raises. `rendered` is a message that names a field; `library` stands for the
exceptions of `struct`, `datetime` and of an index. -/
inductive ExportError
  | validation (message : String)
  | conflict (message : String)
  | rendered (before : String) (name : List Char) (after : String)
  | row (index : Nat) (message : String) (names : List (List Char))
  | library (name : String)
  deriving DecidableEq, Repr

/-! ## Decimals -/

/-- A decimal is finite, with the digits of its coefficient and an exponent, or special. -/
inductive Decimal
  | finite (negative : Bool) (coefficient : Nat) (exponent : Int)
  | special
  deriving DecidableEq, Repr

def digitsOf (coefficient : Nat) : List Char := natText coefficient

/-- `format(value, "f")`: a zero with a positive exponent is rescaled to the exponent 0 first. -/
def formatDecimal (negative : Bool) (coefficient : Nat) (exponent : Int) : List Char :=
  let exponent := if coefficient = 0 ∧ 0 < exponent then 0 else exponent
  let digits := digitsOf coefficient
  let dotplace : Int := exponent + digits.length
  let sign := if negative then ['-'] else []
  let integral :=
    if dotplace < 0 then ['0']
    else if digits.length < dotplace then
      digits ++ List.replicate (dotplace - digits.length).toNat '0'
    else if digits.take dotplace.toNat = [] then ['0'] else digits.take dotplace.toNat
  let fractional :=
    if dotplace < 0 then List.replicate (-dotplace).toNat '0' ++ digits
    else if digits.length < dotplace then []
    else digits.drop dotplace.toNat
  sign ++ integral ++ (if fractional = [] then [] else '.' :: fractional)

/-- The length of the text, from the parts of the value. -/
def formattedLength (negative : Bool) (coefficient : Nat) (exponent : Int) : Int :=
  let sign : Int := if negative then 1 else 0
  let digits := digitsOf coefficient
  if coefficient = 0 ∧ 0 ≤ exponent then sign + 1
  else if 0 ≤ exponent then sign + digits.length + exponent
  else if -exponent < digits.length then sign + digits.length + 1
  else sign + 2 - exponent

/-! ## Datetimes -/

/-- A datetime: the microseconds of its wall clock since the first day of the year 1, and its offset
from UTC when it has one. -/
structure DateTime where
  wall : Int
  utcoffset : Option Int
  deriving DecidableEq, Repr

def microsecondsPerDay : Int := 86400000000

/-- The days before 10000-01-01, where the datetimes end. -/
def maximumOrdinal : Int := 3652059

/-- `_ord2ymd` of the library: year, month and day of the `n`-th day, counted from 1. -/
def ymdOfOrdinal (ordinal : Nat) : Nat × Nat × Nat :=
  let n := ordinal - 1
  let n400 := n / 146097
  let n := n % 146097
  let n100 := n / 36524
  let n := n % 36524
  let n4 := n / 1461
  let n := n % 1461
  let n1 := n / 365
  let n := n % 365
  let year := n400 * 400 + 1 + n100 * 100 + n4 * 4 + n1
  if n1 = 4 ∨ n100 = 4 then (year - 1, 12, 31)
  else
    let leapyear := n1 = 3 ∧ (n4 ≠ 24 ∨ n100 = 3)
    let daysBefore := [0, 0, 31, 59, 90, 120, 151, 181, 212, 243, 273, 304, 334]
    let daysIn := [0, 31, 28, 31, 30, 31, 30, 31, 31, 30, 31, 30, 31]
    let month := (n + 50) / 32
    let preceding := daysBefore.getD month 0 + if 2 < month ∧ leapyear then 1 else 0
    if n < preceding then
      -- The estimate of the month is one too large.
      let month := month - 1
      let preceding := preceding - (daysIn.getD month 0 + if month = 2 ∧ leapyear then 1 else 0)
      (year, month, n - preceding + 1)
    else (year, month, n - preceding + 1)

def padded (width n : Nat) : List Char :=
  List.replicate (width - (natText n).length) '0' ++ natText n

/-- `isoformat(timespec="microseconds")` of a datetime in UTC, with `Z` for its offset. -/
def isoformatUtc (instant : Nat) : List Char :=
  let (year, month, day) := ymdOfOrdinal (instant / 86400000000 + 1)
  let time := instant % 86400000000
  padded 4 year ++ ['-'] ++ padded 2 month ++ ['-'] ++ padded 2 day ++ ['T'] ++
    padded 2 (time / 3600000000) ++ [':'] ++ padded 2 (time / 60000000 % 60) ++ [':'] ++
    padded 2 (time / 1000000 % 60) ++ ['.'] ++ padded 6 (time % 1000000) ++ ['Z']

/-- `astimezone(UTC)`, which overflows outside the years 1 to 9999. -/
def astimezoneUtc (wall utcoffset : Int) : Except ExportError Nat :=
  let instant := wall - utcoffset
  if 0 ≤ instant ∧ instant < maximumOrdinal * microsecondsPerDay then .ok instant.toNat
  else .error (.library "OverflowError")

example : isoformatUtc 63922048496000789 = "2026-08-11T12:34:56.000789Z".toList := by decide

/-! ## Normalization -/

/-- A value of a row; `object` is of any other class. -/
inductive PyValue
  | none
  | str (text : List Char)
  | bytes (bytes : Bytes)
  | int (n : Int)
  | bool (b : Bool)
  | decimal (value : Decimal)
  | datetime (value : DateTime)
  | object
  deriving DecidableEq, Repr

def normalizeValue (value : PyValue) (valueType : ExportType) (limits : ExportLimits) :
    Except ExportError PlainValue :=
  match valueType with
  | .string =>
    match value with
    | .str text => do
      require (text.length ≤ limits.maxStringBytes)
        (.validation "string value exceeds max_string_bytes")
      require ((utf8 text).length ≤ limits.maxStringBytes)
        (.validation "string value exceeds max_string_bytes")
      return .bytes (utf8 text)
    | _ => .error (.validation "string fields accept only str values")
  | .binary =>
    match value with
    | .bytes bytes => do
      require (bytes.length ≤ limits.maxBinaryBytes)
        (.validation "binary value exceeds max_binary_bytes")
      return .bytes bytes
    | _ => .error (.validation "binary fields accept only bytes values")
  | .int32 =>
    match value with
    | .int n => do
      require (Signed 32 n) (.validation "int32 value is not a signed 32-bit integer")
      return .int n
    | _ => .error (.validation "int32 value is not a signed 32-bit integer")
  | .int64 =>
    match value with
    | .int n => do
      require (Signed 64 n) (.validation "int64 value is not a signed 64-bit integer")
      return .int n
    | _ => .error (.validation "int64 value is not a signed 64-bit integer")
  | .boolean =>
    match value with
    | .bool b => .ok (.bool b)
    | _ => .error (.validation "boolean fields accept only bool values")
  | .decimalString =>
    match value with
    | .decimal (.finite negative coefficient exponent) => do
      require (formattedLength negative coefficient exponent ≤ limits.maxStringBytes)
        (.validation "decimal value exceeds max_string_bytes")
      let encoded := utf8 (formatDecimal negative coefficient exponent)
      require (encoded.length ≤ limits.maxStringBytes)
        (.validation "decimal value exceeds max_string_bytes")
      return .bytes encoded
    | _ => .error (.validation "decimal_string fields require a finite Decimal")
  | .timestampIso8601 =>
    match value with
    | .datetime ⟨wall, some utcoffset⟩ => do
      let instant ← astimezoneUtc wall utcoffset
      return .bytes (utf8 (isoformatUtc instant))
    | .datetime ⟨_, none⟩ => .error (.validation "timestamp values must include a timezone")
    | _ => .error (.validation "timestamp_iso8601 fields require datetime values")

end Makolet.Export
