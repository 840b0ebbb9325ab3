import Mathlib.Data.List.Basic
import Mathlib.Data.List.TakeWhile
import Makolet.Lib.Outcome

/-!
# The syntax of JSON and its decoder

`rawDecode` is `raw_decode` of the standard decoder, with the tree of what it has read in place of a
value: a decoder by recursive descent that takes `NaN`, `Infinity` and `-Infinity` for numbers, and
that fails also on values in too many others and on integers of too many digits. The tree has all
characters of the text in it, so that `rawDecode_text` says what was read.

The recursion is bounded by a fuel; `rawDecode_ne_exhausted` says that there is always enough of it.
-/

set_option autoImplicit false

namespace Makolet.Lib

/-! ## Texts -/

/-- White space between tokens. -/
def isBlank (c : Char) : Bool := c = ' ' || c = '\t' || c = '\n' || c = '\r'

abbrev Blank := { s : List Char // ∀ c ∈ s, isBlank c = true }

/-- A character of a number or a constant. -/
def isScalarChar (c : Char) : Bool := c.isAlphanum || c = '+' || c = '-' || c = '.'

abbrev Scalar := { s : List Char // s ≠ [] ∧ ∀ c ∈ s, isScalarChar c = true }

/-- A character of a string, or a backslash with the character behind it. Hexadecimal digits behind
`\u` are characters of their own. -/
inductive StringItem
  | plain (c : Char) (h : c ≠ '"' ∧ c ≠ '\\')
  | escape (c : Char)

def StringItem.text : StringItem → List Char
  | .plain c _ => [c]
  | .escape c => ['\\', c]

def stringText (body : List StringItem) : List Char :=
  '"' :: (body.flatMap StringItem.text ++ ['"'])

/-- A key of an object with its colon. -/
structure Label where
  body : List StringItem
  before : Blank
  after : Blank

def Label.text (label : Label) : List Char :=
  stringText label.body ++ (label.before.val ++ ':' :: label.after.val)

def labelText : Option Label → List Char
  | none => []
  | some label => label.text

mutual

/-- What a value is in a text. -/
inductive JsonTree
  | scalar (literal : Scalar)
  | string (body : List StringItem)
  | container (isObject : Bool) (space : Blank) (items : JsonItems)

/-- What is in an array or an object. -/
inductive JsonItems
  | nil
  | last (label : Option Label) (value : JsonTree) (after : Blank)
  | more (label : Option Label) (value : JsonTree) (after before : Blank) (items : JsonItems)

end

def opening (isObject : Bool) : Char := if isObject then '\x7b' else '['

def closing (isObject : Bool) : Char := if isObject then '\x7d' else ']'

mutual

def JsonTree.text : JsonTree → List Char
  | .scalar literal => literal.val
  | .string body => stringText body
  | .container isObject space items =>
    opening isObject :: (space.val ++ (items.text ++ [closing isObject]))

def JsonItems.text : JsonItems → List Char
  | .nil => []
  | .last label value after => labelText label ++ (value.text ++ after.val)
  | .more label value after before items =>
    labelText label ++ (value.text ++ (after.val ++ ',' :: (before.val ++ items.text)))

end

/-! ## Strings and scalars -/

inductive JsonError
  /-- `JSONDecodeError`. -/
  | malformed
  /-- `RecursionError`. -/
  | recursion
  /-- The `ValueError` of `int` for too many digits. -/
  | digits
  /-- There was not enough fuel, which does not happen. -/
  | exhausted
  deriving DecidableEq, Repr

/-- The limits of the interpreter. -/
structure JsonRuntime where
  maximumDepth : Nat
  maximumDigits : Nat

def takeBlank (text : List Char) : Blank × List Char :=
  (⟨text.takeWhile isBlank, fun _ h => List.mem_takeWhile_imp h⟩, text.dropWhile isBlank)

def isHexDigit (c : Char) : Bool :=
  c.isDigit || ('a' ≤ c && c ≤ 'f') || ('A' ≤ c && c ≤ 'F')

theorem plain_of_isHexDigit {c : Char} (h : isHexDigit c = true) : c ≠ '"' ∧ c ≠ '\\' := by
  constructor <;> rintro rfl <;> revert h <;> decide

/-- A string behind its opening quote. -/
def readString : List Char → Except JsonError (List StringItem × List Char)
  | [] => .error .malformed
  | c :: text =>
    if hquote : c = '"' then .ok ([], text)
    else if hescape : c = '\\' then
      match text with
      | [] => .error .malformed
      | e :: text =>
        if e = 'u' then
          -- The digits are characters of the string like others, so that a tree is its text.
          match text with
          | a :: b :: c :: d :: text =>
            if h : (isHexDigit a = true ∧ isHexDigit b = true) ∧
                isHexDigit c = true ∧ isHexDigit d = true then
              (readString text).map fun r =>
                (.escape e :: .plain a (plain_of_isHexDigit h.1.1) ::
                  .plain b (plain_of_isHexDigit h.1.2) :: .plain c (plain_of_isHexDigit h.2.1) ::
                  .plain d (plain_of_isHexDigit h.2.2) :: r.1, r.2)
            else .error .malformed
          | _ => .error .malformed
        else if e ∈ ['"', '\\', '/', 'b', 'f', 'n', 'r', 't'] then
          (readString text).map fun r => (.escape e :: r.1, r.2)
        else .error .malformed
    else if c.toNat < 0x20 then .error .malformed
    else (readString text).map fun r => (.plain c ⟨hquote, hescape⟩ :: r.1, r.2)

/-- A sign, if there is one of the given. -/
def matchSign (signs : List Char) : List Char → List Char × List Char
  | [] => ([], [])
  | c :: text => if c ∈ signs then ([c], text) else ([], c :: text)

def matchInteger : List Char → Option (List Char × List Char)
  | [] => none
  | c :: text =>
    -- Behind a zero only a fraction or an exponent belongs to the number.
    if c = '0' then some (['0'], text)
    else if c.isDigit then some (c :: text.takeWhile Char.isDigit, text.dropWhile Char.isDigit)
    else none

/-- A mark with the digits behind it and a sign between them, where there are digits. -/
def matchDigits (marks signs : List Char) : List Char → List Char × List Char
  | [] => ([], [])
  | c :: text =>
    let sign := matchSign signs text
    let digits := sign.2.takeWhile Char.isDigit
    if c ∈ marks ∧ digits ≠ [] then (c :: (sign.1 ++ digits), sign.2.dropWhile Char.isDigit)
    else ([], c :: text)

/-- A number: its text, the digits of an integer, and what follows. -/
structure NumberMatch where
  literal : List Char
  digits : Option Nat
  rest : List Char

def matchNumber (text : List Char) : Option NumberMatch :=
  let sign := matchSign ['-'] text
  (matchInteger sign.2).map fun integer =>
    let fraction := matchDigits ['.'] [] integer.2
    let exponent := matchDigits ['e', 'E'] ['+', '-'] fraction.2
    { literal := sign.1 ++ (integer.1 ++ (fraction.1 ++ exponent.1))
      digits := if fraction.1 = [] ∧ exponent.1 = [] then some integer.1.length else none
      rest := exponent.2 }

def constants : List (List Char) :=
  ["null".toList, "true".toList, "false".toList, "NaN".toList, "Infinity".toList,
    "-Infinity".toList]

/-- The constant or the number at the beginning of a text. -/
def matchScalar (text : List Char) : Option NumberMatch :=
  -- The constants come first: `-Infinity` begins like a number.
  match constants.find? (·.isPrefixOf text) with
  | some constant => some ⟨constant, none, text.drop constant.length⟩
  | none => matchNumber text

/-- What a part of a text is made of. -/
def IsScalarText (s : List Char) : Prop := ∀ c ∈ s, isScalarChar c = true

theorem isScalarText_append {s t : List Char} (hs : IsScalarText s) (ht : IsScalarText t) :
    IsScalarText (s ++ t) := by
  intro c hc
  rcases List.mem_append.1 hc with hc | hc
  · exact hs c hc
  · exact ht c hc

theorem isScalarChar_of_isDigit {c : Char} (h : c.isDigit = true) : isScalarChar c = true := by
  rw [isScalarChar, Char.isAlphanum, h]
  simp

theorem isScalarText_digits (text : List Char) : IsScalarText (text.takeWhile Char.isDigit) :=
  fun _ hc => isScalarChar_of_isDigit (List.mem_takeWhile_imp hc)

theorem isScalarText_cons {c : Char} {s : List Char} (hc : isScalarChar c = true)
    (hs : IsScalarText s) : IsScalarText (c :: s) :=
  List.forall_mem_cons.2 ⟨hc, hs⟩

theorem matchSign_spec {signs : List Char} (hsigns : IsScalarText signs) (text : List Char) :
    (matchSign signs text).1 ++ (matchSign signs text).2 = text ∧
      IsScalarText (matchSign signs text).1 := by
  cases text with
  | nil => exact ⟨rfl, fun _ h => absurd h List.not_mem_nil⟩
  | cons c text =>
    rw [matchSign]
    split
    · rename_i hc
      exact ⟨rfl, isScalarText_cons (hsigns c hc) fun _ h => absurd h List.not_mem_nil⟩
    · exact ⟨rfl, fun _ h => absurd h List.not_mem_nil⟩

theorem matchDigits_spec {marks signs : List Char} (hmarks : IsScalarText marks)
    (hsigns : IsScalarText signs) (text : List Char) :
    (matchDigits marks signs text).1 ++ (matchDigits marks signs text).2 = text ∧
      IsScalarText (matchDigits marks signs text).1 := by
  cases text with
  | nil => exact ⟨rfl, fun _ h => absurd h List.not_mem_nil⟩
  | cons c text =>
    obtain ⟨hsplit, hsign⟩ := matchSign_spec hsigns text
    rw [matchDigits]
    split
    · rename_i hc
      refine ⟨?_, isScalarText_cons (hmarks c hc.1)
        (isScalarText_append hsign (isScalarText_digits _))⟩
      rw [List.cons_append, List.append_assoc, List.takeWhile_append_dropWhile, hsplit]
    · exact ⟨rfl, fun _ h => absurd h List.not_mem_nil⟩

theorem matchInteger_spec {text : List Char} {r : List Char × List Char}
    (h : matchInteger text = some r) :
    r.1 ++ r.2 = text ∧ r.1 ≠ [] ∧ IsScalarText r.1 := by
  cases text with
  | nil => cases h
  | cons c text =>
    rw [matchInteger] at h
    split at h
    · rename_i hc
      obtain rfl := Option.some.inj h
      exact ⟨by rw [hc]; rfl, List.cons_ne_nil _ _,
        isScalarText_cons (by decide) fun _ h => absurd h List.not_mem_nil⟩
    · split at h
      · rename_i hc
        obtain rfl := Option.some.inj h
        refine ⟨?_, List.cons_ne_nil _ _,
          isScalarText_cons (isScalarChar_of_isDigit hc) (isScalarText_digits text)⟩
        rw [List.cons_append, List.takeWhile_append_dropWhile]
      · cases h

/-- What a scalar is in a text, and that the digits of an integer are in it. -/
structure NumberMatch.Spec (m : NumberMatch) (text : List Char) : Prop where
  text_eq : text = m.literal ++ m.rest
  literal_ne : m.literal ≠ []
  literal_scalar : IsScalarText m.literal
  digits_le : ∀ n, m.digits = some n → n ≤ m.literal.length

theorem matchNumber_spec {text : List Char} {m : NumberMatch} (h : matchNumber text = some m) :
    m.Spec text := by
  obtain ⟨integer, hinteger, rfl⟩ := Option.map_eq_some_iff.1 h
  have hnone : IsScalarText [] := fun _ h => absurd h List.not_mem_nil
  have hminus : IsScalarText ['-'] := isScalarText_cons (by decide) hnone
  have hsigns : IsScalarText ['+', '-'] := isScalarText_cons (by decide) hminus
  have hpoint : IsScalarText ['.'] := isScalarText_cons (by decide) hnone
  have hmarks : IsScalarText ['e', 'E'] :=
    isScalarText_cons (by decide) (isScalarText_cons (by decide) hnone)
  obtain ⟨hsign, hsignText⟩ := matchSign_spec hminus text
  obtain ⟨hint, hne, hintText⟩ := matchInteger_spec hinteger
  obtain ⟨hfraction, hfractionText⟩ := matchDigits_spec hpoint hnone integer.2
  obtain ⟨hexponent, hexponentText⟩ :=
    matchDigits_spec hmarks hsigns (matchDigits ['.'] [] integer.2).2
  refine ⟨?_, ?_, ?_, ?_⟩
  · simp only [List.append_assoc]
    rw [hexponent, hfraction, hint, hsign]
  · simp only [ne_eq, List.append_eq_nil_iff, not_and]
    exact fun _ hempty => absurd hempty hne
  · exact isScalarText_append hsignText
      (isScalarText_append hintText (isScalarText_append hfractionText hexponentText))
  · intro n hn
    simp only at hn
    split at hn
    · obtain rfl := Option.some.inj hn
      simp only [List.length_append]
      omega
    · cases hn

theorem matchScalar_spec {text : List Char} {m : NumberMatch} (h : matchScalar text = some m) :
    m.Spec text := by
  rw [matchScalar] at h
  split at h
  · rename_i constant hfind
    obtain rfl := Option.some.inj h
    have hconstant : constant ≠ [] ∧ IsScalarText constant := by
      have hall : ∀ s ∈ constants, s ≠ [] ∧ s.all isScalarChar = true := by decide
      obtain ⟨hne, hscalar⟩ := hall constant (List.mem_of_find?_eq_some hfind)
      exact ⟨hne, List.all_eq_true.1 hscalar⟩
    obtain ⟨rest, rfl⟩ := List.isPrefixOf_iff_prefix.1 
      (List.find?_some (p := fun s : List Char => s.isPrefixOf text) hfind)
    exact ⟨by rw [List.drop_left], hconstant.1, hconstant.2, fun n hn => by cases hn⟩
  · exact matchNumber_spec h

def readScalar (r : JsonRuntime) (text : List Char) : Except JsonError (JsonTree × List Char) :=
  match h : matchScalar text with
  | none => .error .malformed
  | some m =>
    -- `int` refuses long texts of digits, `float` does not.
    if m.digits.getD 0 ≤ r.maximumDigits then
      have hspec := matchScalar_spec h
      .ok (.scalar ⟨m.literal, hspec.literal_ne, hspec.literal_scalar⟩, m.rest)
    else .error .digits

/-! ## Values -/

def readLabel (isObject : Bool) (text : List Char) :
    Except JsonError (Option Label × List Char) :=
  if isObject then
    match text with
    | '"' :: text => do
      let (body, text) ← readString text
      let (before, text) := takeBlank text
      match text with
      | ':' :: text =>
        let (after, text) := takeBlank text
        .ok (some ⟨body, before, after⟩, text)
      | _ => .error .malformed
    | _ => .error .malformed
  else .ok (none, text)

mutual

/-- `scan_once`, inside of as many values as the level says. -/
def scanOnce (r : JsonRuntime) :
    Nat → Nat → List Char → Except JsonError (JsonTree × List Char)
  | 0, _, _ => .error .exhausted
  | _ + 1, _, [] => .error .malformed
  | fuel + 1, level, c :: text =>
    if c = '"' then (readString text).map fun p => (.string p.1, p.2)
    else if c = opening true then scanContainer r fuel level true text
    else if c = opening false then scanContainer r fuel level false text
    else readScalar r (c :: text)

/-- A container behind its opening bracket. -/
def scanContainer (r : JsonRuntime) :
    Nat → Nat → Bool → List Char → Except JsonError (JsonTree × List Char)
  | 0, _, _, _ => .error .exhausted
  | fuel + 1, level, isObject, text =>
    -- Only containers take a frame of the stack.
    if r.maximumDepth ≤ level then .error .recursion
    else
      let (space, text) := takeBlank text
      if text.head? = some (closing isObject) then .ok (.container isObject space .nil, text.tail)
      else (scanItems r fuel (level + 1) isObject text).map fun p =>
        (.container isObject space p.1, p.2)

/-- What is in a container, with its closing bracket. -/
def scanItems (r : JsonRuntime) :
    Nat → Nat → Bool → List Char → Except JsonError (JsonItems × List Char)
  | 0, _, _, _ => .error .exhausted
  | fuel + 1, level, isObject, text => do
    let (label, text) ← readLabel isObject text
    let (value, text) ← scanOnce r fuel level text
    let (after, text) := takeBlank text
    match text with
    | [] => .error .malformed
    | c :: text =>
      if c = closing isObject then .ok (.last label value after, text)
      else if c = ',' then
        let (before, text) := takeBlank text
        let (items, text) ← scanItems r fuel level isObject text
        .ok (.more label value after before items, text)
      else .error .malformed

end

/-! ## What is read is the text -/

theorem takeBlank_text (text : List Char) :
    text = (takeBlank text).1.val ++ (takeBlank text).2 :=
  List.takeWhile_append_dropWhile.symm

theorem readString_text (text : List Char) {body : List StringItem} {rest : List Char}
    (h : readString text = .ok (body, rest)) :
    text = body.flatMap StringItem.text ++ '"' :: rest := by
  fun_induction readString text generalizing body with
  | case1 | case3 | case5 | case6 | case8 | case9 => cases h
  | case2 => cases h; rfl
  | case4 _ _ _ _ _ _ _ ih | case7 _ _ _ _ _ ih | case10 _ _ _ _ _ ih =>
    obtain ⟨⟨body', rest'⟩, hread, heq⟩ := map_eq_ok.1 h
    cases heq
    rw [ih hread]
    rfl

theorem readString_error {text : List Char} {e : JsonError} (h : readString text = .error e) :
    e = .malformed := by
  fun_induction readString text with
  | case1 | case3 | case5 | case6 | case8 | case9 => cases h; rfl
  | case2 => cases h
  | case4 _ _ _ _ _ _ _ ih | case7 _ _ _ _ _ ih | case10 _ _ _ _ _ ih =>
    exact ih (map_eq_error.1 h)

theorem readLabel_text {isObject : Bool} {text : List Char} {label : Option Label}
    {rest : List Char} (h : readLabel isObject text = .ok (label, rest)) :
    text = labelText label ++ rest := by
  unfold readLabel at h
  split at h
  · split at h
    · rename_i text
      obtain ⟨⟨body, t⟩, hread, h⟩ := bind_eq_ok.1 h
      simp only at h
      split at h
      · rename_i u hcolon
        cases h
        rw [readString_text text hread]
        conv_lhs => rw [takeBlank_text t, hcolon]
        simp only [labelText, Label.text, stringText, List.cons_append, List.append_assoc,
          List.nil_append]
        rw [← takeBlank_text u]
      · cases h
    · cases h
  · cases h
    rfl

theorem readLabel_error {isObject : Bool} {text : List Char} {e : JsonError}
    (h : readLabel isObject text = .error e) : e = .malformed := by
  unfold readLabel at h
  split at h
  · split at h
    · rcases bind_eq_error.1 h with h | ⟨_, _, h⟩
      · exact readString_error h
      · simp only at h
        split at h
        · cases h
        · cases h
          rfl
    · cases h
      rfl
  · cases h

theorem readScalar_text {r : JsonRuntime} {text rest : List Char} {v : JsonTree}
    (h : readScalar r text = .ok (v, rest)) : text = v.text ++ rest := by
  unfold readScalar at h
  split at h
  · cases h
  · rename_i m hm
    split at h
    · cases h
      exact (matchScalar_spec hm).text_eq
    · cases h

/-- Why there is no scalar: an integer with too many digits. -/
theorem readScalar_error {r : JsonRuntime} {text : List Char} {e : JsonError}
    (h : readScalar r text = .error e) :
    e = .malformed ∨ e = .digits ∧ ∃ (literal : Scalar) (rest : List Char),
      text = literal.val ++ rest ∧ r.maximumDigits < literal.val.length := by
  unfold readScalar at h
  split at h
  · cases h
    exact .inl rfl
  · rename_i m hm
    have hspec := matchScalar_spec hm
    split at h
    · cases h
    · rename_i hdigits
      cases h
      refine .inr ⟨rfl, ⟨m.literal, hspec.literal_ne, hspec.literal_scalar⟩, m.rest,
        hspec.text_eq, ?_⟩
      cases hn : m.digits with
      | none =>
        rw [hn] at hdigits
        exact absurd (Nat.zero_le _) hdigits
      | some n =>
        rw [hn] at hdigits
        exact lt_of_lt_of_le (Nat.lt_of_not_le hdigits) (hspec.digits_le n hn)

/-- What a decoder that has read a value, a container or its items has read. -/
structure ScanText (r : JsonRuntime) (fuel : Nat) : Prop where
  once : ∀ {level text v rest}, scanOnce r fuel level text = .ok (v, rest) → text = v.text ++ rest
  container : ∀ {level isObject text v rest},
    scanContainer r fuel level isObject text = .ok (v, rest) →
      opening isObject :: text = v.text ++ rest
  items : ∀ {level isObject text items rest},
    scanItems r fuel level isObject text = .ok (items, rest) →
      text = items.text ++ closing isObject :: rest

theorem scanOnce_text {r : JsonRuntime} {fuel : Nat} (ih : ScanText r fuel) {level : Nat}
    {text rest : List Char} {v : JsonTree}
    (h : scanOnce r (fuel + 1) level text = .ok (v, rest)) : text = v.text ++ rest := by
  cases text with
  | nil =>
    rw [scanOnce] at h
    cases h
  | cons c text =>
    rw [scanOnce] at h
    split at h
    · rename_i hc
      obtain ⟨⟨body, t⟩, hread, heq⟩ := map_eq_ok.1 h
      cases heq
      rw [hc, readString_text text hread]
      simp [JsonTree.text, stringText]
    · split at h
      · rename_i hc
        rw [hc, ih.container h]
      · split at h
        · rename_i hc
          rw [hc, ih.container h]
        · exact readScalar_text h

theorem scanContainer_text {r : JsonRuntime} {fuel : Nat} (ih : ScanText r fuel) {level : Nat}
    {isObject : Bool} {text rest : List Char} {v : JsonTree}
    (h : scanContainer r (fuel + 1) level isObject text = .ok (v, rest)) :
    opening isObject :: text = v.text ++ rest := by
  have htext := takeBlank_text text
  rw [scanContainer] at h
  split at h
  · cases h
  · simp only at h
    split at h
    · rename_i hclose
      cases h
      obtain ⟨t, ht⟩ := List.head?_eq_some_iff.1 hclose
      rw [ht] at htext ⊢
      simp only [JsonTree.text, JsonItems.text, List.cons_append, List.append_assoc,
        List.nil_append, List.tail_cons]
      rw [← htext]
    · obtain ⟨⟨items, t⟩, hread, heq⟩ := map_eq_ok.1 h
      cases heq
      rw [ih.items hread] at htext
      simp only [JsonTree.text, List.cons_append, List.append_assoc, List.nil_append]
      rw [← htext]

theorem scanItems_text {r : JsonRuntime} {fuel : Nat} (ih : ScanText r fuel) {level : Nat}
    {isObject : Bool} {text rest : List Char} {items : JsonItems}
    (h : scanItems r (fuel + 1) level isObject text = .ok (items, rest)) :
    text = items.text ++ closing isObject :: rest := by
  rw [scanItems] at h
  obtain ⟨⟨label, t⟩, hlabel, h⟩ := bind_eq_ok.1 h
  obtain ⟨⟨value, u⟩, hvalue, h⟩ := bind_eq_ok.1 h
  have htext := readLabel_text hlabel
  rw [ih.once hvalue, takeBlank_text u] at htext
  simp only at h
  split at h
  · cases h
  · rename_i c w hrest
    rw [hrest] at htext
    split at h
    · rename_i hc
      cases h
      rw [htext, hc]
      simp only [JsonItems.text, List.append_assoc]
    · split at h
      · rename_i hc
        obtain ⟨⟨more, x⟩, hmore, heq⟩ := bind_eq_ok.1 h
        cases heq
        rw [takeBlank_text w, ih.items hmore] at htext
        rw [htext, hc]
        simp only [JsonItems.text, List.append_assoc, List.cons_append]
      · cases h

/-- By induction on the fuel, which bounds all three parts of the decoder. -/
theorem scan_text (r : JsonRuntime) (fuel : Nat) : ScanText r fuel := by
  induction fuel with
  | zero =>
    constructor
    · intro level text v rest h
      rw [scanOnce.eq_def] at h
      cases h
    · intro level isObject text v rest h
      rw [scanContainer] at h
      cases h
    · intro level isObject text items rest h
      rw [scanItems] at h
      cases h
  | succ fuel ih => exact ⟨scanOnce_text ih, scanContainer_text ih, scanItems_text ih⟩

/-! ## Why nothing was read -/

theorem scanOnce_error {r : JsonRuntime} {fuel level : Nat} {text : List Char} {e : JsonError}
    (h : scanOnce r (fuel + 1) level text = .error e) :
    e = .malformed ∨
      (e = .digits ∧ ∃ (literal : Scalar) (rest : List Char), text = literal.val ++ rest ∧
        r.maximumDigits < literal.val.length) ∨
      ∃ isObject inner, text = opening isObject :: inner ∧
        scanContainer r fuel level isObject inner = .error e := by
  cases text with
  | nil =>
    rw [scanOnce] at h
    cases h
    exact .inl rfl
  | cons c text =>
    rw [scanOnce] at h
    split at h
    · exact .inl (readString_error (map_eq_error.1 h))
    · split at h
      · rename_i hc
        exact .inr (.inr ⟨true, text, by rw [hc], h⟩)
      · split at h
        · rename_i hc
          exact .inr (.inr ⟨false, text, by rw [hc], h⟩)
        · exact (readScalar_error h).imp_right .inl

theorem scanContainer_error {r : JsonRuntime} {fuel level : Nat} {isObject : Bool}
    {text : List Char} {e : JsonError}
    (h : scanContainer r (fuel + 1) level isObject text = .error e) :
    (e = .recursion ∧ r.maximumDepth ≤ level) ∨
      ∃ (space : Blank) (inner : List Char), text = space.val ++ inner ∧
        scanItems r fuel (level + 1) isObject inner = .error e := by
  rw [scanContainer] at h
  split at h
  · rename_i hdepth
    cases h
    exact .inl ⟨rfl, hdepth⟩
  · simp only at h
    split at h
    · cases h
    · exact .inr ⟨_, _, takeBlank_text text, map_eq_error.1 h⟩

theorem scanItems_error {r : JsonRuntime} {fuel level : Nat} {isObject : Bool}
    {text : List Char} {e : JsonError}
    (h : scanItems r (fuel + 1) level isObject text = .error e) :
    e = .malformed ∨
      ∃ label inner, text = labelText label ++ inner ∧
        (scanOnce r fuel level inner = .error e ∨
          ∃ (value : JsonTree) (after before : Blank) (more : List Char),
            inner = value.text ++ (after.val ++ ',' :: (before.val ++ more)) ∧
              scanItems r fuel level isObject more = .error e) := by
  rw [scanItems] at h
  rcases bind_eq_error.1 h with h | ⟨⟨label, inner⟩, hlabel, h⟩
  · exact .inl (readLabel_error h)
  · rcases bind_eq_error.1 h with h | ⟨⟨value, u⟩, hvalue, h⟩
    · exact .inr ⟨label, inner, readLabel_text hlabel, .inl h⟩
    · have htext := (scan_text r fuel).once hvalue
      conv_rhs at htext => rw [takeBlank_text u]
      simp only at h
      split at h
      · cases h
        exact .inl rfl
      · rename_i c w hrest
        split at h
        · cases h
        · split at h
          · rename_i hc
            rcases bind_eq_error.1 h with h | ⟨_, _, h⟩
            · rw [hrest, hc] at htext
              conv_rhs at htext => rw [takeBlank_text w]
              exact .inr ⟨label, inner, readLabel_text hlabel, .inr ⟨value, _, _, _, htext, h⟩⟩
            · cases h
          · cases h
            exact .inl rfl

/-- How much fuel is not enough. -/
structure ScanFuel (r : JsonRuntime) (fuel : Nat) : Prop where
  once : ∀ {level text}, scanOnce r fuel level text = .error .exhausted →
    fuel < 3 * text.length + 1
  container : ∀ {level isObject text},
    scanContainer r fuel level isObject text = .error .exhausted →
    fuel < 3 * text.length + 3
  items : ∀ {level isObject text}, scanItems r fuel level isObject text = .error .exhausted →
    fuel < 3 * text.length + 2

theorem scan_fuel (r : JsonRuntime) (fuel : Nat) : ScanFuel r fuel := by
  induction fuel with
  | zero => exact ⟨fun _ => by omega, fun _ => by omega, fun _ => by omega⟩
  | succ fuel ih =>
    constructor
    -- A container has its bracket before it, and items have a comma before them.
    · intro level text h
      rcases scanOnce_error h with h | ⟨h, _⟩ | ⟨isObject, inner, rfl, hin⟩
      · cases h
      · cases h
      · have hless := ih.container hin
        rw [List.length_cons]
        omega
    · intro level isObject text h
      rcases scanContainer_error h with ⟨h, _⟩ | ⟨space, inner, rfl, hin⟩
      · cases h
      · have hless := ih.items hin
        rw [List.length_append]
        omega
    · intro level isObject text h
      rcases scanItems_error h with h |
        ⟨label, inner, rfl, hin | ⟨value, after, before, more, rfl, hin⟩⟩
      · cases h
      · have hless := ih.once hin
        rw [List.length_append]
        omega
      · have hless := ih.items hin
        simp only [List.length_append, List.length_cons]
        omega

/-! ## Documents -/

/-- `raw_decode` at the beginning of a text. -/
def rawDecode (r : JsonRuntime) (text : List Char) : Except JsonError (JsonTree × List Char) :=
  scanOnce r (3 * text.length + 1) 0 text

theorem rawDecode_text {r : JsonRuntime} {text rest : List Char} {v : JsonTree}
    (h : rawDecode r text = .ok (v, rest)) : text = v.text ++ rest :=
  (scan_text r _).once h

theorem rawDecode_ne_exhausted (r : JsonRuntime) (text : List Char) :
    rawDecode r text ≠ .error .exhausted :=
  fun h => absurd ((scan_fuel r _).once h) (Nat.lt_irrefl _)

/-- `raw_decode` at an index, with the index behind the value. -/
def rawDecodeAt (r : JsonRuntime) (text : List Char) (index : Nat) :
    Except JsonError (JsonTree × Nat) :=
  (rawDecode r (text.drop index)).map fun p => (p.1, text.length - p.2.length)

theorem rawDecodeAt_eq_ok {r : JsonRuntime} {text : List Char} {index valueEnd : Nat} {v : JsonTree}
    (h : rawDecodeAt r text index = .ok (v, valueEnd)) :
    ∃ rest, rawDecode r (text.drop index) = .ok (v, rest) ∧ valueEnd = text.length - rest.length ∧
      text.drop valueEnd = rest := by
  obtain ⟨⟨w, rest⟩, hraw, heq⟩ := map_eq_ok.1 h
  cases heq
  have hends : rest <:+ text := by
    have hrest : rest <:+ text.drop index := ⟨w.text, (rawDecode_text hraw).symm⟩
    exact hrest.trans (List.drop_suffix _ _)
  exact ⟨rest, hraw, rfl, (List.suffix_iff_eq_drop.1 hends).symm⟩

/-- `loads` of a text. -/
def loads (r : JsonRuntime) (text : List Char) : Except JsonError JsonTree := do
  require (text.head? ≠ some '\ufeff') .malformed
  let (v, rest) ← rawDecode r (takeBlank text).2
  require ((takeBlank rest).2 = []) .malformed
  return v

theorem loads_eq_ok {r : JsonRuntime} {text : List Char} {v : JsonTree}
    (h : loads r text = .ok v) :
    ∃ rest, rawDecode r (takeBlank text).2 = .ok (v, rest) ∧ (takeBlank rest).2 = [] := by
  obtain ⟨_, h⟩ := require_bind_eq_ok.1 h
  obtain ⟨⟨w, rest⟩, hraw, h⟩ := bind_eq_ok.1 h
  obtain ⟨hend, h⟩ := require_bind_eq_ok.1 h
  cases h
  exact ⟨rest, hraw, hend⟩

theorem loads_eq_error {r : JsonRuntime} {text : List Char} {e : JsonError}
    (h : loads r text = .error e) :
    e = .malformed ∨ rawDecode r (takeBlank text).2 = .error e := by
  unfold loads at h
  by_cases hmark : text.head? ≠ some '\ufeff'
  · rw [require_bind_of hmark] at h
    rcases bind_eq_error.1 h with h | ⟨⟨v, rest⟩, _, h⟩
    · exact .inr h
    · by_cases hend : (takeBlank rest).2 = []
      · simp only [require_bind_of hend] at h
        cases h
      · simp only [require_bind_of_not hend] at h
        cases h
        exact .inl rfl
  · rw [require_bind_of_not hmark] at h
    cases h
    exact .inl rfl

end Makolet.Lib
