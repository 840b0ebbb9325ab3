import Mathlib.Data.List.Infix
import Makolet.Domain.Datetimes
import Makolet.Lib.Outcome

/-!
# Source filenames

`extract_source_timestamp` of `domain/filenames.py`, with the basename and suffix rules under it.
Percent decoding, URL splitting and the path classes are parameters.
-/

set_option autoImplicit false

namespace Makolet.Domain

open Makolet.Lib

instance instLawfulBEqText : LawfulBEq (List Char) := List.instLawfulBEq

/-- What filenames are decoded and split with. -/
structure PathRules where
  unquote : List Char → List Char
  urlPath : List Char → List Char
  posixName : List Char → List Char
  windowsName : List Char → List Char
  isUnsafe : Char → Bool
  encodedLength : List Char → Nat
  casefold : List Char → List Char

namespace PathRules

variable (r : PathRules)

/-- `validate_display_filename`. -/
def validateDisplayFilename (value : List Char) : Except Failure Unit := do
  require (value ≠ []) (domainInvalid "Filename is empty")
  require (value.any r.isUnsafe = false)
    (domainInvalid "Filename contains unsafe Unicode controls")
  require (value.length ≤ 255 ∧ r.encodedLength value ≤ 255)
    (domainInvalid "Filename exceeds the 255-byte/character limit")

/-- `safe_basename`. -/
def safeBasename (value : List Char) : Except Failure (List Char) := do
  require (value ≠ []) (domainInvalid "Filename is empty")
  let parsedPath :=
    if "://".toList <:+: value then r.unquote (r.urlPath value) else r.unquote value
  let name := r.windowsName (r.posixName (parsedPath.map fun c => if c = '\\' then '/' else c))
  require (name ∉ [[], ['.'], ['.', '.']])
    (domainInvalid "Filename basename is empty or reserved")
  r.validateDisplayFilename name
  pure name

def knownSuffixes : List (List Char) :=
  [".gzip".toList, ".zstd".toList, ".gz".toList, ".zip".toList, ".zst".toList, ".xml".toList,
    ".json".toList, ".csv".toList]

/-- The loop of `strip_known_suffixes`; each turn takes characters away. -/
def stripSuffixes : Nat → List Char → List Char
  | 0, result => result
  | turns + 1, result =>
      match knownSuffixes.find? fun suffix => suffix <:+ r.casefold result with
      | none => result
      | some suffix => stripSuffixes turns (result.take (result.length - suffix.length))

/-- `strip_known_suffixes`. -/
def stripKnownSuffixes (filename : List Char) : Except Failure (List Char) := do
  let basename ← r.safeBasename filename
  pure (r.stripSuffixes basename.length basename)

end PathRules

/-! ## Timestamps -/

section Timestamps

variable (u : Unicode)

/-- The lookarounds of `_TIMESTAMP_PATTERN`: no decimal digit here. -/
def noDecimal (c : Option Char) : Bool := !(c.any (Directive.decimalClass u))

def timeSeparator (c : Char) : Bool := decide (c = '-' ∨ c = '_' ∨ c = 'T')

/-- The date of `_TIMESTAMP_PATTERN`. -/
def datePiece : Piece Char :=
  .choice [[fun c => decide (c = '2'), fun c => decide (c = '0')] ++
    List.replicate 6 (Directive.decimalClass u)]

/-- The optional separator and time of `_TIMESTAMP_PATTERN`. -/
def timePiece : Piece Char :=
  let four := List.replicate 4 (Directive.decimalClass u)
  let six := List.replicate 6 (Directive.decimalClass u)
  .choice [timeSeparator :: six, timeSeparator :: four, six, four, []]

/-- `_TIMESTAMP_PATTERN` at a position: the date, and the text of its optional group. -/
def stampAt (previous : Option Char) (s : List Char) : Option (List Char × List Char) :=
  if noDecimal u previous then
    ((sequenceMatches [datePiece u, timePiece u] s).find? fun m => noDecimal u m.2.head?).bind
      fun m =>
        match m.1 with
        | [date, group] => some (date, group)
        | _ => none
  else none

/-- `_TIMESTAMP_PATTERN.finditer`: the matches from left to right, the next one behind the last. -/
def stamps : Nat → Option Char → List Char → List (List Char × List Char)
  | _, _, [] => []
  | skip + 1, _, c :: s => stamps skip (some c) s
  | 0, previous, c :: s =>
      match stampAt u previous (c :: s) with
      | some (date, group) => (date, group) :: stamps (date.length + group.length - 1) (some c) s
      | none => stamps 0 (some c) s

/-- The digits of the group `time`. -/
def timeOfGroup (group : List Char) : List Char :=
  match group with
  | c :: time => if timeSeparator c then time else group
  | [] => []

/-- `extract_source_timestamp`. -/
def extractSourceTimestamp (r : PathRules) (zone : Zone) (filename : List Char) :
    Except Failure (Option zone.Instant) := do
  let stem ← r.stripKnownSuffixes filename
  match (stamps u 0 none stem).getLast? with
  | none => pure none
  | some (date, group) =>
      match zone.parseSourceDatetime u (some (date ++ timeOfGroup group)) with
      | .ok instant => pure instant
      | .error failure =>
          if failure.kind = .domainValidation then pure none else throw failure

end Timestamps

end Makolet.Domain
