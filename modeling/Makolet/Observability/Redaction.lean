import Makolet.Lib.Bytes
import Makolet.Lib.Substitution

/-!
# Secrets in logs

`_sanitize_value` of `adapters/observability/logging.py` on texts. Control characters are escaped,
then three passes hide secrets: user names in URLs, the values of secret query parameters, and
assignments such as `token=x`.

A text is a list of code points, which may be surrogates. What the program reads of the Unicode
database is the record `Unicode`. Matching ignores case as `re.IGNORECASE` does.
-/

set_option autoImplicit false

namespace Makolet.Observability

open Makolet.Lib

abbrev Text := List Nat

def ascii (s : String) : Text := s.toList.map Char.toNat

/-! ## Characters -/

/-- The general categories that the program asks for. -/
inductive Category
  | cc
  | cf
  | cs
  | co
  | cn
  | zl
  | zp
  | other
  deriving DecidableEq, Repr

structure Unicode where
  category : Nat → Category
  casefold : Nat → Text
  isAlnum : Nat → Bool

/-- What is escaped in a log: control, surrogate and format characters and separators of lines. -/
def Category.isUnsafe : Category → Bool
  | .cc | .cs | .cf | .zl | .zp => true
  | _ => false

/-- `category(character).startswith("C")`. -/
def Category.startsWithC : Category → Bool
  | .cc | .cf | .cs | .co | .cn => true
  | _ => false

/-- `\s`. -/
def isSpace (p : Nat) : Bool :=
  decide (9 ≤ p ∧ p ≤ 13 ∨ 28 ≤ p ∧ p ≤ 32 ∨ 0x2000 ≤ p ∧ p ≤ 0x200A ∨
    p ∈ [0x85, 0xA0, 0x1680, 0x2028, 0x2029, 0x202F, 0x205F, 0x3000])

/-- A small letter of a pattern, with case ignored: the Kelvin sign, the long s, and the dotted and
dotless letters are equal to `k`, `s` and `i`. -/
def matchesLetter (letter : Char) (p : Nat) : Bool :=
  p = letter.toNat || (letter.isLower && p + 32 = letter.toNat) ||
    (letter = 's' && p = 0x17F) || (letter = 'k' && p = 0x212A) ||
    (letter = 'i' && (p = 0x130 || p = 0x131))

def matchesWord : List Char → Text → Bool
  | [], text => text.isEmpty
  | letter :: word, p :: text => matchesLetter letter p && matchesWord word text
  | _ :: _, [] => false

/-! ## Escapes -/

def hexDigit (n : Nat) : Nat := if n < 10 then 48 + n else 87 + n

/-- The last hexadecimal digits of a number, with zeros in front. -/
def hexText : Nat → Nat → Text
  | 0, _ => []
  | width + 1, n => hexText width (n / 16) ++ [hexDigit (n % 16)]

def cleanCharacter (u : Unicode) (p : Nat) : Text :=
  if p = 13 then ascii "\\r"
  else if p = 10 then ascii "\\n"
  else if p = 9 then ascii "\\t"
  else if p = 0 then ascii "\\0"
  else if (u.category p).isUnsafe then
    if p ≤ 0xFFFF then ascii "\\u" ++ hexText 4 p else ascii "\\U" ++ hexText 8 p
  else [p]

def cleanString (u : Unicode) (value : Text) : Text := value.flatMap (cleanCharacter u)

/-! ## User names in URLs -/

def schemes : List (List Char) :=
  ["http".toList, "https".toList, "ftp".toList, "ftps".toList]

/-- `[^/@\s]`. -/
def isUserCharacter (p : Nat) : Bool := p ≠ 47 && p ≠ 64 && !isSpace p

/-- The scheme and the user name at the beginning of a text, and what follows the at sign. The
scheme is what stands before the first colon. -/
def userinfoAt (text : Text) : Option (Text × Text × Text) :=
  let scheme := text.takeWhile (· ≠ 58)
  let rest := text.dropWhile (· ≠ 58)
  if schemes.any (matchesWord · scheme) ∧ rest.take 3 = ascii "://" then
    let user := (rest.drop 3).takeWhile isUserCharacter
    match (rest.drop 3).dropWhile isUserCharacter with
    | 64 :: rest => if user = [] then none else some (scheme, user, rest)
    | _ => none
  else none

/-- `_USERINFO` and its replacement. -/
def userinfoPattern (text : Text) : Option (Text × Nat) :=
  (userinfoAt text).map fun (scheme, user, _) =>
    (scheme ++ ascii "://[REDACTED]@", scheme.length + 3 + user.length + 1)

/-! ## Query parameters -/

def maximumString : Nat := 4096

def maximumQueryKey : Nat := 256

/-- `[^?&=#\s"<>]`. -/
def isKeyCharacter (p : Nat) : Bool :=
  p ≠ 63 && p ≠ 38 && p ≠ 61 && p ≠ 35 && p ≠ 34 && p ≠ 60 && p ≠ 62 && !isSpace p

/-- `_QUERY_VALUE_END`. -/
def isValueEnd (p : Nat) : Bool :=
  p = 38 || p = 35 || p = 34 || p = 60 || p = 62 || isSpace p

/-- `_QUERY_PARAMETER`: the key at the beginning of a text, behind its separator. -/
def queryKeyAt : Text → Option Text
  | [] => none
  | separator :: text =>
    let key := text.takeWhile isKeyCharacter
    if (separator = 63 ∨ separator = 38) ∧ key ≠ [] ∧ key.length ≤ maximumString ∧
        (text.dropWhile isKeyCharacter).head? = some 61 then some key
    else none

structure QueryMatch where
  start : Nat
  stop : Nat
  key : Text
  deriving DecidableEq, Repr

/-- `_QUERY_PARAMETER.finditer` from a position on. -/
def findQueryParameters : Nat → Nat → Text → List QueryMatch
  | _, _, [] => []
  | position, skip + 1, _ :: text => findQueryParameters (position + 1) skip text
  | position, 0, p :: text =>
    match queryKeyAt (p :: text) with
    | some key =>
      ⟨position, position + (key.length + 2), key⟩ ::
        findQueryParameters (position + 1) (key.length + 1) text
    | none => findQueryParameters (position + 1) 0 text

def isHexDigit (p : Nat) : Bool :=
  decide (48 ≤ p ∧ p ≤ 57 ∨ 97 ≤ p ∧ p ≤ 102 ∨ 65 ≤ p ∧ p ≤ 70)

def hexValue (p : Nat) : Nat := if p ≤ 57 then p - 48 else if p ≤ 70 then p - 55 else p - 87

/-- The bytes of `_strict_percent_decode`. The texts that it reads have no surrogates. -/
def percentBytes : Text → Option Bytes
  | [] => some []
  | 37 :: a :: b :: text =>
    if isHexDigit a && isHexDigit b then
      (percentBytes text).map (UInt8.ofNat (16 * hexValue a + hexValue b) :: ·)
    else none
  | 37 :: _ => none
  | p :: text => (percentBytes text).map (String.utf8EncodeChar (Char.ofNat p) ++ ·)

def strictPercentDecode (u : Unicode) (value : Text) : Option Text := do
  let decoded ← percentBytes value
  let text ← ofUtf8 decoded
  let decodedText := text.map Char.toNat
  if decodedText.any fun p => (u.category p).startsWithC then none else some decodedText

/-- `[-._:+\s\[\]]`. -/
def isKeySeparator (p : Nat) : Bool :=
  [45, 46, 95, 58, 43, 91, 93].contains p || isSpace p

def querySecretNames : List Text :=
  ["accesskey", "accesstoken", "apikey", "auth", "authentication", "authorization", "authtoken",
    "credential", "credentials", "key", "password", "secret", "secretkey",
    "sharedaccesssignature", "sig", "signature", "token"].map ascii

def querySecretTerminals : List Text :=
  ["auth", "authentication", "authorization", "credential", "credentials", "key", "password",
    "secret", "sig", "signature", "token"].map ascii

def isSecretQueryKey (u : Unicode) (rawKey : Text) : Bool :=
  if maximumQueryKey < rawKey.length then true
  else
    -- What cannot be decoded is taken for a secret.
    match strictPercentDecode u rawKey with
    | none => true
    | some decodedKey =>
      let casefoldedKey := decodedKey.flatMap u.casefold
      let canonicalKey := casefoldedKey.filter (!isKeySeparator ·)
      let components := (casefoldedKey.splitOnP isKeySeparator).filter (· ≠ [])
      querySecretNames.contains canonicalKey ||
        components.getLast?.any querySecretTerminals.contains

def redactedMark : Text := ascii "[REDACTED]"

/-- The loop of `_redact_query_secrets` over the matches. -/
def redactMatches (u : Unicode) (value : Text) : Nat → List QueryMatch → Text
  | preservedFrom, [] => value.drop preservedFrom
  | preservedFrom, m :: rest =>
    -- A parameter inside of a hidden value is passed over.
    if m.start < preservedFrom ∨ isSecretQueryKey u m.key = false then
      redactMatches u value preservedFrom rest
    else
      let valueEnd := m.stop + ((value.drop m.stop).takeWhile (!isValueEnd ·)).length
      (value.take m.stop).drop preservedFrom ++
        (redactedMark ++ redactMatches u value valueEnd rest)

def redactQuerySecrets (u : Unicode) (value : Text) : Text :=
  redactMatches u value 0 (findQueryParameters 0 0 value)

/-! ## Assigned secrets -/

def assignedWords : List (List Char) :=
  ["password".toList, "secret".toList, "token".toList, "apikey".toList, "api_key".toList,
    "api-key".toList]

/-- A character of a word, for `\b`. -/
def isWord (u : Unicode) (p : Nat) : Bool := u.isAlnum p || p = 95

/-- `[^,;\s]`. -/
def isAssignedCharacter (p : Nat) : Bool := p ≠ 44 && p ≠ 59 && !isSpace p

/-- What `\s*[:=]\s*[^,;\s]+` takes of a text. -/
def assignedValue (text : Text) : Option Nat :=
  let afterWord := text.dropWhile isSpace
  match afterWord with
  | [] => none
  | mark :: afterMark =>
    let value := (afterMark.dropWhile isSpace).takeWhile isAssignedCharacter
    if (mark = 58 ∨ mark = 61) ∧ value ≠ [] then
      some ((text.takeWhile isSpace).length + 1 + (afterMark.takeWhile isSpace).length +
        value.length)
    else none

/-- `_ASSIGNED_SECRET` and its replacement. -/
def assignedPattern (u : Unicode) (before : Option Nat) (text : Text) : Option (Text × Nat) :=
  -- `\b` holds between a character of a word and one that is none.
  if before.any (isWord u) ≠ text.head?.any (isWord u) then
    assignedWords.findSome? fun word =>
      if matchesWord word (text.take word.length) then
        (assignedValue (text.drop word.length)).map fun length =>
          (text.take word.length ++ ascii "=[REDACTED]", word.length + length)
      else none
  else none

/-! ## Values -/

def secretKeys : List Text :=
  ["access_key", "api_key", "authorization", "cookie", "credential", "credentials", "password",
    "secret", "secret_key", "set_cookie", "token"].map ascii

def secretKeyEndings : List Text := ["_password", "_secret", "_token"].map ascii

def isSecretKey (u : Unicode) (key : Text) : Bool :=
  let normalizedKey := (key.flatMap u.casefold).map fun p => if p = 45 then 95 else p
  secretKeys.contains normalizedKey || secretKeyEndings.any (·.isSuffixOf normalizedKey)

def hideUserinfo (text : Text) : Text := replaceAll userinfoPattern text

/-- `_sanitize_value` of a text. -/
def sanitizeText (u : Unicode) (key value : Text) (depth : Nat) : Text :=
  if isSecretKey u key then redactedMark
  else if 4 ≤ depth then ascii "[TRUNCATED]"
  else
    let cleaned := hideUserinfo (cleanString u value)
    -- The cut comes before the query pass, and the user names have changed the length.
    let cleaned := redactQuerySecrets u (cleaned.take maximumString)
    let cleaned := substitute (assignedPattern u) none 0 cleaned
    cleaned.take maximumString

end Makolet.Observability
