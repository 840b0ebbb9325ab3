import Makolet.Lib.JsonSyntax
import Makolet.Sources.Common

/-!
# The scanner of JSON values

`bounded_json_value_span` of `adapters/sources/common.py` finds the end of a value before the
decoder reads it: a counter of brackets without recursion, that fails at a value that is nested too
deeply or too large.

`Scans` says what it does on a part of a text, in terms of the part alone. There is one rule for
each character, and `Scans.append` for two parts behind each other.
-/

set_option autoImplicit false

namespace Makolet.Sources

open Makolet.Domain Makolet.Lib

/-! ## Limits -/

def maximumListingBytes : Nat := 8 * 1024 * 1024

def maximumJsonDepth : Nat := 64

def maximumJsonStringCharacters : Nat := 64 * 1024

def maximumJsonStructuralTokens : Nat := 500000

def maximumJsonScalarCharacters : Nat := 4096

def malformedJson : Failure := sourceResponse "Source listing returned malformed JSON"

def tooComplexJson : Failure := sourceResponse "Source listing JSON is structurally too complex"

def oversizedScalar : Failure := sourceResponse "Source listing JSON contains an oversized scalar"

/-- `str.isspace` of a character. -/
def isSpace (c : Char) : Bool :=
  decide (9 ≤ c.toNat ∧ c.toNat ≤ 13 ∨ 28 ≤ c.toNat ∧ c.toNat ≤ 32 ∨
    0x2000 ≤ c.toNat ∧ c.toNat ≤ 0x200A ∨
    c.toNat ∈ [0x85, 0xA0, 0x1680, 0x2028, 0x2029, 0x202F, 0x205F, 0x3000])

def characterBytes (c : Char) : Nat :=
  if 0xFFFF < c.toNat then 4 else if c.toNat ≤ 0x7F then 1 else if c.toNat ≤ 0x7FF then 2 else 3

/-- `_bounded_json_byte_count`. -/
def boundedJsonByteCount (current : Nat) (c : Char) : Except Failure Nat := do
  let total := current + characterBytes c
  require (total ≤ maximumListingBytes)
    (sourceResponse "Source listing exceeds the parser byte limit")
  return total

/-- `_bounded_json_string_character_count`. -/
def boundedJsonStringCharacterCount (current : Nat) : Except Failure Nat := do
  let total := current + 1
  require (total ≤ maximumJsonStringCharacters)
    (sourceResponse "Source listing JSON contains an oversized string")
  return total

/-! ## The scanner -/

/-- The variables of `_bounded_json_container_end`. -/
structure JsonShape where
  depth : Nat
  structuralTokens : Nat
  inString : Bool
  escaped : Bool
  stringCharacters : Nat
  scalarCharacters : Nat
  valueBytes : Nat
  deriving DecidableEq, Repr

def JsonShape.initial : JsonShape := ⟨0, 0, false, false, 0, 0, 0⟩

/-- A character inside a string. -/
def JsonShape.stringStep (s : JsonShape) (c : Char) : Except Failure JsonShape :=
  if s.escaped then do
    let stringCharacters ← boundedJsonStringCharacterCount s.stringCharacters
    return { s with escaped := false, stringCharacters := stringCharacters }
  else if c = '\\' then return { s with escaped := true }
  else if c = '"' then return { s with inString := false, stringCharacters := 0 }
  else do
    let stringCharacters ← boundedJsonStringCharacterCount s.stringCharacters
    return { s with stringCharacters := stringCharacters }

/-- A character outside of strings: nothing at the bracket that closes the value. -/
def JsonShape.structureStep (s : JsonShape) (c : Char) : Except Failure (Option JsonShape) :=
  if c = '"' then return some { s with inString := true, scalarCharacters := 0 }
  else if c = '[' ∨ c = '\x7b' then do
    require (s.depth + 1 ≤ maximumJsonDepth)
      (sourceResponse "Source listing JSON is nested too deeply")
    return some { s with
      depth := s.depth + 1, structuralTokens := s.structuralTokens + 1, scalarCharacters := 0 }
  else if c = ']' ∨ c = '\x7d' then do
    -- The depth of the source is below zero after this bracket.
    require (s.depth ≠ 0) malformedJson
    require (s.structuralTokens + 1 ≤ maximumJsonStructuralTokens) tooComplexJson
    if s.depth = 1 then return none
    else return some { s with
      depth := s.depth - 1, structuralTokens := s.structuralTokens + 1, scalarCharacters := 0 }
  else if c = ',' ∨ c = ':' then
    return some { s with structuralTokens := s.structuralTokens + 1, scalarCharacters := 0 }
  -- More characters are white space here than in the grammar.
  else if isSpace c then return some { s with scalarCharacters := 0 }
  else do
    require (s.scalarCharacters + 1 ≤ maximumJsonScalarCharacters) oversizedScalar
    return some { s with scalarCharacters := s.scalarCharacters + 1 }

def JsonShape.characterStep (s : JsonShape) (c : Char) : Except Failure (Option JsonShape) :=
  if s.inString then do
    let next ← s.stringStep c
    return some next
  else do
    match ← s.structureStep c with
    | none => return none
    | some next =>
      require (next.structuralTokens ≤ maximumJsonStructuralTokens) tooComplexJson
      return some next

/-- One turn of the loop of `_bounded_json_container_end`. -/
def JsonShape.step (s : JsonShape) (c : Char) : Except Failure (Option JsonShape) := do
  let valueBytes ← boundedJsonByteCount s.valueBytes c
  JsonShape.characterStep { s with valueBytes := valueBytes } c

/-- `_bounded_json_container_end`, with what follows the value in place of its end. -/
def boundedJsonContainerEnd : JsonShape → List Char → Except Failure (List Char)
  | _, [] => .error malformedJson
  | s, c :: text => do
    match ← s.step c with
    | none => return text
    | some next => boundedJsonContainerEnd next text

/-- `_bounded_json_string_end` behind the opening quote. -/
def boundedJsonStringEnd (escaped : Bool) (stringCharacters valueBytes : Nat) :
    List Char → Except Failure (List Char)
  | [] => .error malformedJson
  | c :: text => do
    let valueBytes ← boundedJsonByteCount valueBytes c
    if escaped then
      let stringCharacters ← boundedJsonStringCharacterCount stringCharacters
      boundedJsonStringEnd false stringCharacters valueBytes text
    else if c = '\\' then boundedJsonStringEnd true stringCharacters valueBytes text
    else if c = '"' then return text
    else
      let stringCharacters ← boundedJsonStringCharacterCount stringCharacters
      boundedJsonStringEnd false stringCharacters valueBytes text

/-- What ends a scalar. -/
def isDelimiter (c : Char) : Bool := isBlank c || ";<>(),]\x7d".toList.contains c

/-- `_bounded_json_scalar_end`. -/
def boundedJsonScalarEnd (characters valueBytes : Nat) : List Char → Except Failure (List Char)
  | [] => .ok []
  | c :: text =>
    if isDelimiter c then
      if characters = 0 then .error malformedJson else .ok (c :: text)
    else do
      let valueBytes ← boundedJsonByteCount valueBytes c
      require (characters + 1 ≤ maximumJsonScalarCharacters) oversizedScalar
      boundedJsonScalarEnd (characters + 1) valueBytes text

/-- What follows the value at the beginning of a text. -/
def boundedJsonValueEnd : List Char → Except Failure (List Char)
  | [] => .error malformedJson
  | first :: text =>
    if first = '[' ∨ first = '\x7b' then boundedJsonContainerEnd .initial (first :: text)
    else if first = '"' then do
      let valueBytes ← boundedJsonByteCount 0 first
      boundedJsonStringEnd false 0 valueBytes text
    else boundedJsonScalarEnd 0 0 (first :: text)

/-! ## What the scanner does on a part of a text -/

def textBytes (text : List Char) : Nat := (text.map characterBytes).sum

@[simp] theorem textBytes_nil : textBytes [] = 0 := rfl

@[simp] theorem textBytes_cons (c : Char) (text : List Char) :
    textBytes (c :: text) = characterBytes c + textBytes text := rfl

@[simp] theorem textBytes_append (s t : List Char) :
    textBytes (s ++ t) = textBytes s + textBytes t := by
  rw [textBytes, List.map_append, List.sum_append]
  rfl

/-- A program that goes on as another one if some limits hold, and fails otherwise. -/
structure Decides {α : Type} (limits : Prop) (x y : Except Failure α) : Prop where
  pass : limits → x = y
  stop : ¬limits → ∃ e, x = .error e

theorem Decides.trans {α : Type} {first second : Prop} {x y z : Except Failure α}
    (hfirst : Decides first x y) (hsecond : Decides second y z) :
    Decides (first ∧ second) x z := by
  constructor
  · rintro ⟨h, h'⟩
    rw [hfirst.pass h, hsecond.pass h']
  · intro h
    by_cases hf : first
    · rw [hfirst.pass hf]
      exact hsecond.stop fun h' => h ⟨hf, h'⟩
    · exact hfirst.stop hf

theorem Decides.congr {α : Type} {limits limits' : Prop} {x y : Except Failure α}
    (h : Decides limits x y) (hiff : limits ↔ limits') : Decides limits' x y :=
  ⟨fun h' => h.pass (hiff.2 h'), fun h' => h.stop fun h'' => h' (hiff.1 h'')⟩

theorem Decides.of_true {α : Type} {limits : Prop} (h : limits) (x : Except Failure α) :
    Decides limits x x :=
  ⟨fun _ => rfl, fun h' => absurd h h'⟩

theorem Decides.bind {α β : Type} {limits : Prop} {x y : Except Failure α}
    (h : Decides limits x y) (f : α → Except Failure β) :
    Decides limits (x >>= f) (y >>= f) := by
  constructor
  · intro h'
    rw [h.pass h']
  · intro h'
    obtain ⟨e, he⟩ := h.stop h'
    rw [he]
    exact ⟨e, rfl⟩

/-- A guard in front of a program. -/
theorem decides_require {α : Type} (c : Prop) [Decidable c] (e : Failure)
    (f : PUnit → Except Failure α) : Decides c (require c e >>= f) (f ⟨⟩) :=
  ⟨fun h => require_bind_of h f, fun h => ⟨e, require_bind_of_not h f⟩⟩

theorem decides_byteCount {α : Type} (b : Nat) (c : Char) (f : Nat → Except Failure α) :
    Decides (b + characterBytes c ≤ maximumListingBytes) (boundedJsonByteCount b c >>= f)
      (f (b + characterBytes c)) := by
  rw [boundedJsonByteCount, bind_assoc]
  exact decides_require _ _ _

theorem decides_stringCharacterCount {α : Type} (m : Nat) (f : Nat → Except Failure α) :
    Decides (m + 1 ≤ maximumJsonStringCharacters) (boundedJsonStringCharacterCount m >>= f)
      (f (m + 1)) := by
  rw [boundedJsonStringCharacterCount, bind_assoc]
  exact decides_require _ _ _

/-- The state with counts of tokens and bytes. -/
def JsonShape.charge (s : JsonShape) (tokens bytes : Nat) : JsonShape :=
  { s with structuralTokens := tokens, valueBytes := bytes }

def JsonShape.outside (depth scalarCharacters : Nat) : JsonShape :=
  ⟨depth, 0, false, false, 0, scalarCharacters, 0⟩

def JsonShape.inside (depth stringCharacters : Nat) : JsonShape :=
  ⟨depth, 0, true, false, stringCharacters, 0, 0⟩

def JsonShape.escaping (depth stringCharacters : Nat) : JsonShape :=
  ⟨depth, 0, true, true, stringCharacters, 0, 0⟩

/-- From one state to the other over a part of a text with some tokens, if its own limits and those
of tokens and bytes hold, and to a failure otherwise. -/
def Scans (s : JsonShape) (part : List Char) (limits : Prop) (tokens : Nat) (s' : JsonShape) :
    Prop :=
  ∀ t b, t ≤ maximumJsonStructuralTokens → b ≤ maximumListingBytes → ∀ rest,
    Decides (limits ∧ t + tokens ≤ maximumJsonStructuralTokens ∧
        b + textBytes part ≤ maximumListingBytes)
      (boundedJsonContainerEnd (s.charge t b) (part ++ rest))
      (boundedJsonContainerEnd (s'.charge (t + tokens) (b + textBytes part)) rest)

/-- The scanner fails on a text, whatever it has counted. -/
def Fails (s : JsonShape) (text : List Char) : Prop :=
  ∀ t b, t ≤ maximumJsonStructuralTokens → b ≤ maximumListingBytes →
    ∃ e, boundedJsonContainerEnd (s.charge t b) text = .error e

theorem Scans.nil (s : JsonShape) : Scans s [] True 0 s := by
  intro t b ht hb rest
  exact ⟨fun _ => rfl, fun h => absurd ⟨trivial, ht, hb⟩ h⟩

theorem Scans.append {s s' s'' : JsonShape} {p q : List Char} {first second : Prop} {m n : Nat}
    (hp : Scans s p first m s') (hq : Scans s' q second n s'') :
    Scans s (p ++ q) (first ∧ second) (m + n) s'' := by
  intro t b ht hb rest
  have hfirst := hp t b ht hb (q ++ rest)
  rw [List.append_assoc, textBytes_append, ← Nat.add_assoc, ← Nat.add_assoc]
  by_cases hfits : first ∧ t + m ≤ maximumJsonStructuralTokens ∧
      b + textBytes p ≤ maximumListingBytes
  · apply Decides.congr
    · exact hfirst.trans (hq _ _ hfits.2.1 hfits.2.2 rest)
    · rw [and_iff_right hfits, and_iff_right hfits.1]
  · -- The counts only grow, so what is too much for the first part is too much for both.
    constructor
    · rintro ⟨⟨h, _⟩, ht', hb'⟩
      exact absurd ⟨h, by omega, by omega⟩ hfits
    · exact fun _ => hfirst.stop hfits

theorem Scans.congr {s s' : JsonShape} {p : List Char} {limits limits' : Prop} {m n : Nat}
    (h : Scans s p limits m s') (hiff : limits ↔ limits') (heq : m = n) :
    Scans s p limits' n s' := by
  rw [← heq, ← propext hiff]
  exact h

theorem Scans.fails {s s' : JsonShape} {p text : List Char} {limits : Prop} {n : Nat}
    (h : Scans s p limits n s') (hfails : Fails s' text) : Fails s (p ++ text) := by
  intro t b ht hb
  obtain ⟨hpass, hstop⟩ := h t b ht hb text
  by_cases hfits : limits ∧ t + n ≤ maximumJsonStructuralTokens ∧
      b + textBytes p ≤ maximumListingBytes
  · rw [hpass hfits]
    exact hfails _ _ hfits.2.1 hfits.2.2
  · exact hstop hfits

theorem Scans.fails_of_not {s s' : JsonShape} {p : List Char} {limits : Prop} {n : Nat}
    (h : Scans s p limits n s') (hlimits : ¬limits) (text : List Char) : Fails s (p ++ text) :=
  fun t b ht hb => (h t b ht hb text).2 fun hfits => hlimits hfits.1

/-- What the loop does with the state after a character. -/
def continueScan (rest : List Char) : Option JsonShape → Except Failure (List Char)
  | none => .ok rest
  | some next => boundedJsonContainerEnd next rest

theorem containerEnd_cons (s : JsonShape) (t b : Nat) (c : Char) (rest : List Char) :
    boundedJsonContainerEnd (s.charge t b) (c :: rest) =
      boundedJsonByteCount b c >>= fun b => (s.charge t b).characterStep c >>= continueScan rest := by
  rw [boundedJsonContainerEnd, JsonShape.step, bind_assoc]
  rfl

/-- One character. -/
theorem Scans.single {s s' : JsonShape} {c : Char} {limits : Prop} {n : Nat}
    (hstep : ∀ t b, t ≤ maximumJsonStructuralTokens →
      Decides (limits ∧ t + n ≤ maximumJsonStructuralTokens) ((s.charge t b).characterStep c)
        (.ok (some (s'.charge (t + n) b)))) :
    Scans s [c] limits n s' := by
  intro t b ht hb rest
  rw [textBytes_cons, textBytes_nil, Nat.add_zero, List.singleton_append, containerEnd_cons]
  apply Decides.congr
  · apply Decides.trans
    · apply decides_byteCount
    · exact (hstep t _ ht).bind (continueScan rest)
  · rw [and_comm, and_assoc]

theorem characterStep_outside {s : JsonShape} (h : s.inString = false) (t b : Nat) (c : Char) :
    (s.charge t b).characterStep c = (do
      match ← (s.charge t b).structureStep c with
      | none => return none
      | some next =>
        require (next.structuralTokens ≤ maximumJsonStructuralTokens) tooComplexJson
        return some next) := by
  have houtside : ¬(s.charge t b).inString = true := by
    intro hin
    exact Bool.noConfusion (h.symm.trans hin)
  rw [JsonShape.characterStep, if_neg houtside]

/-- A character outside of strings. -/
theorem Scans.of_structureStep {s s' : JsonShape} {c : Char} {limits : Prop} {n : Nat}
    (houtside : s.inString = false)
    (hstep : ∀ t b, Decides limits ((s.charge t b).structureStep c)
      (.ok (some (s'.charge (t + n) b)))) :
    Scans s [c] limits n s' := by
  apply Scans.single
  intro t b _
  rw [characterStep_outside houtside]
  apply Decides.trans
  · exact (hstep t b).bind _
  · apply decides_require

/-- A character of a string. -/
theorem Scans.of_stringStep {s s' : JsonShape} {c : Char} {limits : Prop}
    (hinside : s.inString = true)
    (hstep : ∀ t b, Decides limits ((s.charge t b).stringStep c) (.ok (s'.charge t b))) :
    Scans s [c] limits 0 s' := by
  have hcharge (t b : Nat) : (s.charge t b).inString = true := hinside
  apply Scans.single
  intro t b ht
  rw [JsonShape.characterStep, if_pos (hcharge t b)]
  apply Decides.congr
  · exact (hstep t b).bind fun next => .ok (some next)
  · exact (and_iff_left ht).symm

/-! ### Characters outside of strings -/

/-- A character that is no part of the structure. -/
structure IsOrdinary (c : Char) : Prop where
  quote : c ≠ '"'
  opens : ¬(c = '[' ∨ c = '\x7b')
  closes : ¬(c = ']' ∨ c = '\x7d')
  marks : ¬(c = ',' ∨ c = ':')

theorem isOrdinary_of_isBlank {c : Char} (h : isBlank c = true) : IsOrdinary c := by
  simp only [isBlank, Bool.or_eq_true, decide_eq_true_eq] at h
  rcases h with ((rfl | rfl) | rfl) | rfl <;> constructor <;> decide

theorem isSpace_of_isBlank {c : Char} (h : isBlank c = true) : isSpace c = true := by
  simp only [isBlank, Bool.or_eq_true, decide_eq_true_eq] at h
  rcases h with ((rfl | rfl) | rfl) | rfl <;> decide

theorem toNat_of_isScalarChar {c : Char} (h : isScalarChar c = true) :
    c.toNat = 43 ∨ c.toNat = 45 ∨ c.toNat = 46 ∨ 48 ≤ c.toNat ∧ c.toNat ≤ 57 ∨
      65 ≤ c.toNat ∧ c.toNat ≤ 90 ∨ 97 ≤ c.toNat ∧ c.toNat ≤ 122 := by
  have hchar : (((c.isUpper || c.isLower) || c.isDigit) || c = '+' || c = '-' || c = '.') = true :=
    h
  simp only [Bool.or_eq_true, decide_eq_true_eq] at hchar
  rcases hchar with ((((hupper | hlower) | hdigit) | rfl) | rfl) | rfl
  · exact .inr (.inr (.inr (.inr (.inl (of_decide_eq_true hupper)))))
  · have hbounds : (decide (97 ≤ c.toNat) && decide (c.toNat ≤ 122)) = true := hlower
    rw [Bool.and_eq_true, decide_eq_true_eq, decide_eq_true_eq] at hbounds
    exact .inr (.inr (.inr (.inr (.inr hbounds))))
  · exact .inr (.inr (.inr (.inl (Char.isDigit_iff_toNat.1 hdigit))))
  · exact .inl rfl
  · exact .inr (.inl rfl)
  · exact .inr (.inr (.inl rfl))

theorem isOrdinary_of_isScalarChar {c : Char} (h : isScalarChar c = true) : IsOrdinary c := by
  constructor
  · rintro rfl
    revert h
    decide
  all_goals
    rintro (rfl | rfl) <;> revert h <;> decide

theorem isSpace_of_isScalarChar {c : Char} (h : isScalarChar c = true) : ¬isSpace c = true := by
  have hrange := toNat_of_isScalarChar h
  simp only [isSpace, decide_eq_true_eq, List.mem_cons, List.not_mem_nil, or_false]
  omega

theorem scans_opening (d k : Nat) (isObject : Bool) :
    Scans (.outside d k) [opening isObject] (d + 1 ≤ maximumJsonDepth) 1 (.outside (d + 1) 0) := by
  have hquote : opening isObject ≠ '"' := by cases isObject <;> decide
  have hopens : opening isObject = '[' ∨ opening isObject = '\x7b' := by
    cases isObject <;> decide
  apply Scans.of_structureStep rfl
  intro t b
  rw [JsonShape.structureStep, if_neg hquote, if_pos hopens]
  apply decides_require

theorem closing_ne_quote (isObject : Bool) : closing isObject ≠ '"' := by
  cases isObject <;> decide

theorem not_opens_closing (isObject : Bool) :
    ¬(closing isObject = '[' ∨ closing isObject = '\x7b') := by
  cases isObject <;> decide

theorem closes_closing (isObject : Bool) :
    closing isObject = ']' ∨ closing isObject = '\x7d' := by
  cases isObject <;> decide

theorem structureStep_closing (d k t b : Nat) (isObject : Bool) :
    ((JsonShape.outside (d + 1) k).charge t b).structureStep (closing isObject) = (do
      require (t + 1 ≤ maximumJsonStructuralTokens) tooComplexJson
      if d = 0 then pure none
      else pure (some ((JsonShape.outside d 0).charge (t + 1) b))) := by
  rw [JsonShape.structureStep, if_neg (closing_ne_quote _), if_neg (not_opens_closing _),
    if_pos (closes_closing _)]
  refine (require_bind_of (Nat.succ_ne_zero d) _).trans ?_
  cases d <;> rfl

/-- A bracket that closes something inside of the value. -/
theorem scans_closing {d : Nat} (hd : 1 ≤ d) (k : Nat) (isObject : Bool) :
    Scans (.outside (d + 1) k) [closing isObject] True 1 (.outside d 0) := by
  apply Scans.single
  intro t b _
  rw [characterStep_outside rfl, structureStep_closing, if_neg (Nat.ne_of_gt hd)]
  apply Decides.congr
  · apply Decides.trans
    · exact (decides_require _ _ _).bind _
    · apply decides_require
  · exact ⟨fun h => ⟨trivial, h.1⟩, fun h => ⟨h.2, h.2⟩⟩

/-- The bracket that closes the value. -/
theorem containerEnd_closing (k t b : Nat) (isObject : Bool) (rest : List Char) :
    Decides (t + 1 ≤ maximumJsonStructuralTokens ∧
        b + characterBytes (closing isObject) ≤ maximumListingBytes)
      (boundedJsonContainerEnd ((JsonShape.outside 1 k).charge t b) (closing isObject :: rest))
      (.ok rest) := by
  rw [containerEnd_cons]
  apply Decides.congr
  · apply Decides.trans
    · apply decides_byteCount
    · rw [characterStep_outside rfl, structureStep_closing, if_pos rfl]
      exact ((decides_require _ _ _).bind _).bind _
  · exact and_comm

theorem scans_mark (d k : Nat) {c : Char} (hc : c = ',' ∨ c = ':') :
    Scans (.outside d k) [c] True 1 (.outside d 0) := by
  have hquote : c ≠ '"' := by rcases hc with rfl | rfl <;> decide
  have hopens : ¬(c = '[' ∨ c = '\x7b') := by rcases hc with rfl | rfl <;> decide
  have hcloses : ¬(c = ']' ∨ c = '\x7d') := by rcases hc with rfl | rfl <;> decide
  apply Scans.of_structureStep rfl
  intro t b
  rw [JsonShape.structureStep, if_neg hquote, if_neg hopens, if_neg hcloses, if_pos hc]
  exact Decides.of_true trivial _

theorem structureStep_of_isOrdinary {c : Char} (hc : IsOrdinary c) (s : JsonShape) :
    s.structureStep c =
      if isSpace c then return some { s with scalarCharacters := 0 }
      else do
        require (s.scalarCharacters + 1 ≤ maximumJsonScalarCharacters) oversizedScalar
        return some { s with scalarCharacters := s.scalarCharacters + 1 } := by
  rw [JsonShape.structureStep, if_neg hc.quote, if_neg hc.opens, if_neg hc.closes, if_neg hc.marks]

theorem scans_blankChar (d k : Nat) {c : Char} (hc : isBlank c = true) :
    Scans (.outside d k) [c] True 0 (.outside d 0) := by
  apply Scans.of_structureStep rfl
  intro t b
  rw [structureStep_of_isOrdinary (isOrdinary_of_isBlank hc), if_pos (isSpace_of_isBlank hc)]
  exact Decides.of_true trivial _

theorem scans_scalarChar (d k : Nat) {c : Char} (hc : isScalarChar c = true) :
    Scans (.outside d k) [c] (k + 1 ≤ maximumJsonScalarCharacters) 0 (.outside d (k + 1)) := by
  apply Scans.of_structureStep rfl
  intro t b
  rw [structureStep_of_isOrdinary (isOrdinary_of_isScalarChar hc),
    if_neg (isSpace_of_isScalarChar hc)]
  apply decides_require

theorem scans_openingQuote (d k : Nat) : Scans (.outside d k) ['"'] True 0 (.inside d 0) :=
  Scans.of_structureStep rfl fun _ _ => Decides.of_true trivial _

/-! ### Characters of strings -/

theorem scans_closingQuote (d m : Nat) : Scans (.inside d m) ['"'] True 0 (.outside d 0) :=
  Scans.of_stringStep rfl fun _ _ => Decides.of_true trivial _

theorem scans_backslash (d m : Nat) : Scans (.inside d m) ['\\'] True 0 (.escaping d m) :=
  Scans.of_stringStep rfl fun _ _ => Decides.of_true trivial _

/-- A character that counts. -/
theorem scans_counted {s : JsonShape} {d m : Nat} {c : Char} (hinside : s.inString = true)
    (hstep : ∀ t b, (s.charge t b).stringStep c =
      boundedJsonStringCharacterCount m >>= fun n => pure ((JsonShape.inside d n).charge t b)) :
    Scans s [c] (m + 1 ≤ maximumJsonStringCharacters) 0 (.inside d (m + 1)) := by
  apply Scans.of_stringStep hinside
  intro t b
  rw [hstep]
  apply decides_stringCharacterCount

theorem scans_escaped (d m : Nat) (c : Char) :
    Scans (.escaping d m) [c] (m + 1 ≤ maximumJsonStringCharacters) 0 (.inside d (m + 1)) :=
  scans_counted rfl fun _ _ => rfl

theorem scans_plain (d m : Nat) {c : Char} (hc : c ≠ '"' ∧ c ≠ '\\') :
    Scans (.inside d m) [c] (m + 1 ≤ maximumJsonStringCharacters) 0 (.inside d (m + 1)) := by
  apply scans_counted rfl
  intro t b
  have hescaped : ¬((JsonShape.inside d m).charge t b).escaped = true := Bool.false_ne_true
  rw [JsonShape.stringStep, if_neg hescaped, if_neg hc.2, if_neg hc.1]
  rfl

end Makolet.Sources
