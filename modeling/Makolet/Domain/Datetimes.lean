import Mathlib.Data.List.Dedup
import Makolet.Domain.Enums
import Makolet.Lib.Backtracking

/-!
# Source dates

`clean_source_text` and `parse_source_datetime` of `domain/normalization.py`. A text is a list of
characters; the character tables of Unicode and the rules of the time zone are parameters. A format
of `strptime` is compiled to directives, each a piece of a backtracking match: the preferred match
of the whole format is taken, and it has to reach the end of the text.
-/

set_option autoImplicit false

namespace Makolet.Domain

open Makolet.Lib

/-! ## Texts -/

/-- An ASCII digit. -/
def digit (n : Nat) : Char := Char.ofNat (48 + n)

/-- The character tables: compatibility normalization, the control categories, whitespace and the
decimal digits. -/
structure Unicode where
  nfkc : List Char → List Char
  isControl : Char → Bool
  isSpace : Char → Bool
  decimal : Char → Option Nat
  nfkc_digits : ∀ s, (∀ c ∈ s, ∃ n < 10, c = digit n) → nfkc s = s
  not_control : ∀ n < 10, isControl (digit n) = false
  not_space : ∀ n < 10, isSpace (digit n) = false
  decimal_digit : ∀ n < 10, decimal (digit n) = some n

def domainInvalid (message : String) : Failure := ⟨.domainValidation, message, 0⟩

namespace Unicode

variable (u : Unicode)

/-- `str.strip`. -/
def strip (s : List Char) : List Char :=
  ((s.dropWhile u.isSpace).reverse.dropWhile u.isSpace).reverse

/-- Every run of whitespace becomes a blank; `run` says that the last character was whitespace. -/
def collapse : Bool → List Char → List Char
  | _, [] => []
  | run, c :: s =>
      if u.isSpace c then if run then collapse true s else ' ' :: collapse true s
      else c :: collapse false s

/-- `clean_source_text`. -/
def cleanSourceText (maxLength : Nat) : Option (List Char) → Except Failure (Option (List Char))
  | none => .ok none
  | some value =>
      let normalized := u.strip (u.nfkc value)
      let normalized := normalized.filter fun c =>
        c ∈ ['\t', '\n', '\r'] || !u.isControl c
      let normalized := u.strip (u.collapse false normalized)
      if normalized = [] then .ok none
      else if maxLength < normalized.length then
        .error (domainInvalid ("Text exceeds the " ++ toString maxLength ++ "-character limit"))
      else .ok (some normalized)

/-- `int` of decimal digits. -/
def int (s : List Char) : Nat := s.foldl (fun n c => 10 * n + (u.decimal c).getD 0) 0

end Unicode

/-! ## Formats -/

/-- What a format is compiled to. -/
inductive Directive
  | year
  | month
  | day
  | hour
  | hour12
  | minute
  | second
  | fraction
  | meridiem
  | offset
  | space
  | literal (c : Char)
  deriving DecidableEq, Repr

/-- A format of `strptime`. -/
def directives : List Char → List Directive
  | '%' :: 'Y' :: format => .year :: directives format
  | '%' :: 'm' :: format => .month :: directives format
  | '%' :: 'd' :: format => .day :: directives format
  | '%' :: 'H' :: format => .hour :: directives format
  | '%' :: 'I' :: format => .hour12 :: directives format
  | '%' :: 'M' :: format => .minute :: directives format
  | '%' :: 'S' :: format => .second :: directives format
  | '%' :: 'f' :: format => .fraction :: directives format
  | '%' :: 'p' :: format => .meridiem :: directives format
  | '%' :: 'z' :: format => .offset :: directives format
  | ' ' :: format => .space :: directives format
  | c :: format => .literal c :: directives format
  | [] => []

/-- `_DATETIME_FORMATS`. -/
def datetimeFormats : List String := [
  "%Y-%m-%dT%H:%M:%S.%f%z",
  "%Y-%m-%dT%H:%M:%S%z",
  "%Y-%m-%dT%H:%M:%S.%f",
  "%Y-%m-%dT%H:%M:%S",
  "%Y-%m-%d %H:%M:%S.%f",
  "%Y-%m-%d %H:%M:%S",
  "%Y-%m-%d %H:%M",
  "%Y/%m/%d %H:%M:%S",
  "%Y/%m/%d %H:%M",
  "%d/%m/%Y %H:%M:%S",
  "%d/%m/%Y %H:%M",
  "%m/%d/%Y %I:%M:%S %p",
  "%Y%m%d%H%M%S",
  "%Y%m%d%H%M",
  "%Y%m%d",
  "%Y-%m-%d",
  "%Y/%m/%d"]

/-- The ASCII digits from `lo` to `hi`. -/
def range (lo hi : Nat) (c : Char) : Bool := decide (48 + lo ≤ c.toNat ∧ c.toNat ≤ 48 + hi)

/-- A letter in either case, or a character without case. -/
def caseless (c x : Char) : Bool := decide (x.toLower = c.toLower)

namespace Directive

variable (u : Unicode)

/-- `\d`. -/
def decimalClass (c : Char) : Bool := (u.decimal c).isSome

/-- The fractions of a second in an offset. -/
def offsetFractions : List (List (Char → Bool)) :=
  [6, 5, 4, 3, 2, 1].map fun n => (· = '.') :: List.replicate n (decimalClass u)

/-- The optional seconds of an offset. -/
def offsetSeconds : List (List (Char → Bool)) :=
  [[fun c => decide (c = ':')], []].flatMap fun colon =>
    (offsetFractions u ++ [[]]).map fun fraction =>
      colon ++ [range 0 5, decimalClass u] ++ fraction

/-- The piece of a pattern that `strptime` makes of a directive. -/
def piece : Directive → Piece Char
  | year => .choice [[decimalClass u, decimalClass u, decimalClass u, decimalClass u]]
  | month => .choice [[range 1 1, range 0 2], [range 0 0, range 1 9], [range 1 9]]
  | day => .choice [[range 3 3, range 0 1], [range 1 2, decimalClass u], [range 0 0, range 1 9],
      [range 1 9], [(· = ' '), range 1 9]]
  | hour => .choice [[range 2 2, range 0 3], [range 0 1, decimalClass u], [decimalClass u]]
  | hour12 => .choice [[range 1 1, range 0 2], [range 0 0, range 1 9], [range 1 9]]
  | minute => .choice [[range 0 5, decimalClass u], [decimalClass u]]
  | second => .choice [[range 6 6, range 0 1], [range 0 5, decimalClass u], [decimalClass u]]
  | fraction => .choice ([6, 5, 4, 3, 2, 1].map fun n => List.replicate n (range 0 9))
  | meridiem => .choice [[caseless 'a', caseless 'm'], [caseless 'p', caseless 'm']]
  | offset => .choice ([[fun c => decide (c = ':')], []].flatMap (fun colon =>
      (offsetSeconds u ++ [[]]).map fun seconds =>
        [fun c => decide (c = '+' ∨ c = '-'), decimalClass u, decimalClass u] ++ colon ++
          [range 0 5, decimalClass u] ++ seconds) ++ [[fun c => decide (c = 'Z')]])
  | space => .run u.isSpace
  | literal c => .choice [[caseless c]]

end Directive

/-! ## Wall times -/

/-- A naive `datetime`. -/
structure WallTime where
  year : Nat
  month : Nat
  day : Nat
  hour : Nat
  minute : Nat
  second : Nat
  microsecond : Nat
  deriving DecidableEq, Repr

def daysIn (year month : Nat) : Nat :=
  if month = 2 then
    if year % 4 = 0 ∧ (year % 100 ≠ 0 ∨ year % 400 = 0) then 29 else 28
  else if month ∈ [4, 6, 9, 11] then 30 else 31

/-- What `datetime` accepts. -/
def WallTime.Valid (w : WallTime) : Prop :=
  (1 ≤ w.year ∧ w.year ≤ 9999) ∧ (1 ≤ w.month ∧ w.month ≤ 12) ∧
    (1 ≤ w.day ∧ w.day ≤ daysIn w.year w.month) ∧ w.hour < 24 ∧ w.minute < 60 ∧ w.second < 60 ∧
    w.microsecond < 1000000

instance (w : WallTime) : Decidable w.Valid :=
  inferInstanceAs (Decidable ((1 ≤ w.year ∧ w.year ≤ 9999) ∧ (1 ≤ w.month ∧ w.month ≤ 12) ∧
    (1 ≤ w.day ∧ w.day ≤ daysIn w.year w.month) ∧ w.hour < 24 ∧ w.minute < 60 ∧ w.second < 60 ∧
    w.microsecond < 1000000))

/-- The rules of a time zone: the instant of a wall time, with its `fold`, and the wall time of an
instant; and offsets, with the instant of a wall time at an offset. -/
structure Zone where
  Instant : Type
  [eq : DecidableEq Instant]
  utc : WallTime → Bool → Instant
  wall : Instant → WallTime
  Offset : Type
  offset : List Char → Option Offset
  atOffset : WallTime → Offset → Instant

instance (zone : Zone) : DecidableEq zone.Instant := zone.eq

/-- The hour of a clock with twelve hours. -/
def hourOf12 (hour : Nat) (meridiem : List Char) : Nat :=
  if meridiem.map Char.toLower = ['a', 'm'] then if hour = 12 then 0 else hour
  else if meridiem.map Char.toLower = ['p', 'm'] then if hour = 12 then hour else hour + 12
  else hour

/-- The wall time of the texts of a format. -/
def wallTimeOf (u : Unicode) (fields : List (Directive × List Char)) : WallTime :=
  let number (d : Directive) (default : Nat) : Nat :=
    match fields.lookup d with
    | some text => u.int text
    | none => default
  { year := number .year 1900
    month := number .month 1
    day := number .day 1
    hour :=
      match fields.lookup .hour12 with
      | some text => hourOf12 (u.int text) ((fields.lookup .meridiem).getD [])
      | none => number .hour 0
    minute := number .minute 0
    second := number .second 0
    microsecond :=
      match fields.lookup .fraction with
      | some text => u.int (text ++ List.replicate (6 - text.length) (digit 0))
      | none => 0 }

/-- `datetime.strptime`: the wall time, with its offset; none for a `ValueError`. -/
def strptime (u : Unicode) (zone : Zone) (format : String) (s : List Char) :
    Option (WallTime × Option zone.Offset) :=
  let format := directives format.toList
  match (sequenceMatches (format.map (Directive.piece u)) s).head? with
  | some (texts, []) =>
      let fields := format.zip texts
      let w := wallTimeOf u fields
      if w.Valid then
        match fields.lookup .offset with
        | none => some (w, none)
        | some text => (zone.offset text).map fun offset => (w, some offset)
      else none
  | _ => none

/-! ## Instants -/

namespace Zone

variable (zone : Zone)

/-- The instants that a wall time maps to. -/
def candidates (w : WallTime) : List zone.Instant :=
  (([false, true].map (zone.utc w)).filter fun t => zone.wall t = w).dedup

/-- `_unambiguous_israel_local_time`. -/
def unambiguousIsraelLocalTime (w : WallTime) : Except Failure zone.Instant :=
  match zone.candidates w with
  | [t] => .ok t
  | [] => .error (domainInvalid
      "Source local date is nonexistent in Asia/Jerusalem; an explicit offset is required")
  | _ => .error (domainInvalid
      "Source local date is ambiguous in Asia/Jerusalem; an explicit offset is required")

/-- `parse_source_datetime`. -/
def parseSourceDatetime (u : Unicode) (value : Option (List Char)) :
    Except Failure (Option zone.Instant) := do
  match ← u.cleanSourceText 64 value with
  | none => pure none
  | some cleaned =>
      let source :=
        if cleaned.getLast? = some 'Z' then
          cleaned.flatMap fun c => if c = 'Z' then "+00:00".toList else [c]
        else cleaned
      match datetimeFormats.findSome? fun format => strptime u zone format source with
      | none => throw (domainInvalid "Source date is not in a supported unambiguous format")
      | some (w, none) => some <$> zone.unambiguousIsraelLocalTime w
      | some (w, some offset) => pure (some (zone.atOffset w offset))

end Zone

end Makolet.Domain
