import Mathlib.Tactic.SplitIfs
import Makolet.Domain.Enums
import Makolet.Lib.Outcome

/-!
# The XML token guard

`_XmlTokenGuard` of `adapters/parsers/xml.py`: it reads the decoded text feed by feed, before the
XML parser does, and bounds every run of character data, every CDATA section, every quoted attribute
value and every markup token. A position of the source is the text that is left from it.
-/

set_option autoImplicit false

namespace Makolet.Parsing

open Makolet.Domain Makolet.Lib

/-- `XmlParserLimits`, without the limits of the decompression. -/
structure XmlParserLimits where
  maximumDepth : Nat
  maximumElements : Nat
  maximumRecords : Nat
  maximumRecordBytes : Nat
  maximumFieldCharacters : Nat
  maximumTokenCharacters : Nat
  depth_pos : 0 < maximumDepth
  elements_pos : 0 < maximumElements
  records_pos : 0 < maximumRecords
  recordBytes_pos : 0 < maximumRecordBytes
  field_pos : 0 < maximumFieldCharacters
  token_pos : 0 < maximumTokenCharacters

def malformedDocument (message : String) : Failure := ⟨.malformedDocument, message, 0⟩

/-- The `_TOKEN_` constants. -/
inductive TokenMode
  | text
  | opened
  | element
  | declaration
  | comment
  | cdata
  | processingInstruction
  deriving DecidableEq, Repr

/-- `_XmlTokenGuard`. -/
structure XmlTokenGuard where
  mode : TokenMode
  tokenCharacters : Nat
  textCharacters : Nat
  quote : Option Char
  quotedCharacters : Nat
  declarationPrefix : List Char
  deriving DecidableEq, Repr

def XmlTokenGuard.init : XmlTokenGuard := ⟨.text, 0, 0, none, 0, []⟩

/-- The quotation mark and the apostrophe. -/
def quotes : List Char := [Char.ofNat 34, Char.ofNat 39]

/-- `text.find(delimiter)`: the text before the first occurrence and the text behind it. -/
def find (delimiter : List Char) : List Char → Option (List Char × List Char)
  | [] => none
  | c :: rest =>
      if delimiter <+: c :: rest then some ([], (c :: rest).drop delimiter.length)
      else (find delimiter rest).map fun found => (c :: found.1, found.2)

def commentEnd : List Char := ['-', '-', '>']

def cdataEnd : List Char := [']', ']', '>']

def processingInstructionEnd : List Char := ['?', '>']

def commentStart : List Char := ['<', '!', '-', '-']

def cdataStart : List Char := ['<', '!', '[', 'C', 'D', 'A', 'T', 'A', '[']

namespace XmlTokenGuard

variable (limits : XmlParserLimits) (g : XmlTokenGuard)

def addText (characters : Nat) : Except Failure XmlTokenGuard :=
  if g.textCharacters + characters ≤ limits.maximumFieldCharacters then
    .ok { g with textCharacters := g.textCharacters + characters }
  else .error (malformedDocument "XML character data exceeds the field limit")

def addQuoted (characters : Nat) : Except Failure XmlTokenGuard :=
  if g.quotedCharacters + characters ≤ limits.maximumFieldCharacters then
    .ok { g with quotedCharacters := g.quotedCharacters + characters }
  else .error (malformedDocument "XML attribute value exceeds the field limit")

def addToken (characters : Nat) : Except Failure XmlTokenGuard :=
  if g.tokenCharacters + characters ≤ limits.maximumTokenCharacters then
    .ok { g with tokenCharacters := g.tokenCharacters + characters }
  else .error (malformedDocument "XML token exceeds the tokenizer limit")

section Limits

variable {limits : XmlParserLimits} {g : XmlTokenGuard} {characters : Nat} {β : Type}
  {f : XmlTokenGuard → Except Failure β} {r : β}

theorem addText_bind_eq_ok : (g.addText limits characters >>= f) = .ok r ↔
    g.textCharacters + characters ≤ limits.maximumFieldCharacters ∧
      f { g with textCharacters := g.textCharacters + characters } = .ok r := by
  unfold addText
  split_ifs with h <;> simp [bind, Except.bind, h]

theorem addQuoted_bind_eq_ok : (g.addQuoted limits characters >>= f) = .ok r ↔
    g.quotedCharacters + characters ≤ limits.maximumFieldCharacters ∧
      f { g with quotedCharacters := g.quotedCharacters + characters } = .ok r := by
  unfold addQuoted
  split_ifs with h <;> simp [bind, Except.bind, h]

theorem addToken_bind_eq_ok : (g.addToken limits characters >>= f) = .ok r ↔
    g.tokenCharacters + characters ≤ limits.maximumTokenCharacters ∧
      f { g with tokenCharacters := g.tokenCharacters + characters } = .ok r := by
  unfold addToken
  split_ifs with h <;> simp [bind, Except.bind, h]

end Limits

def finishMarkup : XmlTokenGuard := ⟨.text, 0, 0, none, 0, []⟩

def scanText (rest : List Char) : Except Failure (XmlTokenGuard × List Char) :=
  match find ['<'] rest with
  | none => do
      let g ← g.addText limits rest.length
      pure (g, [])
  | some (before, behind) => do
      let g ← g.addText limits before.length
      pure ({ g with
        mode := .opened
        tokenCharacters := 1
        textCharacters := 0
        declarationPrefix := ['<'] }, behind)

def scanOpen (character : Char) (rest : List Char) : Except Failure (XmlTokenGuard × List Char) :=
  if character = '?' then do
    let g ← g.addToken limits 1
    pure ({ g with mode := .processingInstruction }, rest)
  else if character = '!' then do
    let g ← g.addToken limits 1
    pure ({ g with
      mode := .declaration
      declarationPrefix := ['<', '!'] }, rest)
  -- The character of an ordinary tag is not consumed: the next pass reads it again.
  else pure ({ g with mode := .element }, character :: rest)

def scanElement (rest : List Char) : Except Failure (XmlTokenGuard × List Char) :=
  match g.quote with
  | some quote =>
      match find [quote] rest with
      | none => do
          let g ← g.addToken limits rest.length
          let g ← g.addQuoted limits rest.length
          pure (g, [])
      | some (value, behind) => do
          let g ← g.addToken limits value.length
          let g ← g.addQuoted limits value.length
          let g ← g.addToken limits 1
          pure ({ g with
            quote := none
            quotedCharacters := 0 }, behind)
  | none =>
      match rest.dropWhile fun c => c ∉ '>' :: quotes with
      | [] => do
          let g ← g.addToken limits rest.length
          pure (g, [])
      | character :: behind => do
          -- The terminator belongs to the token, be it the end of the tag or a quotation mark.
          let g ← g.addToken limits ((rest.takeWhile fun c => c ∉ '>' :: quotes).length + 1)
          if character = '>' then pure (finishMarkup, behind)
          else pure ({ g with
            quote := some character
            quotedCharacters := 0 }, behind)

def scanDeclaration (character : Char) (rest : List Char) :
    Except Failure (XmlTokenGuard × List Char) := do
  let g ← g.addToken limits 1
  let g := { g with declarationPrefix := g.declarationPrefix ++ [character] }
  if g.declarationPrefix = commentStart then pure ({ g with mode := .comment }, rest)
  else if g.declarationPrefix = cdataStart then
    pure ({ g with
      mode := .cdata
      textCharacters := 0 }, rest)
  else if g.declarationPrefix <+: commentStart ∨ g.declarationPrefix <+: cdataStart then
    pure (g, rest)
  -- Neither a comment nor a CDATA section: the declaration is counted like a tag.
  else pure ({ g with mode := .element }, rest)

def scanDelimited (delimiter rest : List Char) : Except Failure (XmlTokenGuard × List Char) :=
  -- The search starts anew in each feed: a delimiter that two feeds share is not found.
  match find delimiter rest with
  | none => do
      let g ← g.addToken limits rest.length
      pure (g, [])
  | some (content, behind) => do
      let _ ← g.addToken limits (content.length + delimiter.length)
      pure (finishMarkup, behind)

def scanCdata (rest : List Char) : Except Failure (XmlTokenGuard × List Char) :=
  match find cdataEnd rest with
  | none => do
      let g ← g.addText limits rest.length
      let g ← g.addToken limits rest.length
      pure (g, [])
  | some (content, behind) => do
      let g ← g.addText limits content.length
      let g ← g.addToken limits content.length
      let _ ← g.addToken limits 3
      pure (finishMarkup, behind)

/-- One pass of the loop of `feed`. -/
def scan (character : Char) (rest : List Char) : Except Failure (XmlTokenGuard × List Char) :=
  match g.mode with
  | .text => g.scanText limits (character :: rest)
  | .opened => g.scanOpen limits character rest
  | .element => g.scanElement limits (character :: rest)
  | .declaration => g.scanDeclaration limits character rest
  | .comment => g.scanDelimited limits commentEnd (character :: rest)
  | .cdata => g.scanCdata limits (character :: rest)
  | .processingInstruction =>
      g.scanDelimited limits processingInstructionEnd (character :: rest)

/-- The loop of `feed`, for at most `fuel` passes. -/
def feedFrom : Nat → XmlTokenGuard → List Char → Except Failure XmlTokenGuard
  | _, g, [] => .ok g
  | 0, g, _ :: _ => .ok g
  | fuel + 1, g, character :: rest => do
      let (g, rest) ← g.scan limits character rest
      feedFrom fuel g rest

/-- `feed`. Every pass consumes a character, or leaves the mode `opened`, so that the passes
suffice. -/
def feed (text : List Char) : Except Failure XmlTokenGuard :=
  feedFrom limits (2 * text.length + 1) g text

/-- The feeds of a document, one after the other. -/
def feedAll (feeds : List (List Char)) : Except Failure XmlTokenGuard :=
  feeds.foldlM (feed limits) g

/-- `close`. -/
def close : Except Failure Unit :=
  require (g.mode = .text)
    (malformedDocument "XML document ended inside an unfinished token")

end XmlTokenGuard

end Makolet.Parsing
