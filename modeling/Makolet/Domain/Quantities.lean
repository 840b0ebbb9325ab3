import Mathlib.Algebra.Group.Nat.Defs
import Makolet.Domain.Datetimes
import Makolet.Domain.Filenames
import Makolet.Lib.Outcome

/-!
# Quantities in texts

`parse_quantity_text` and `without_first_quantity_text` of `domain/normalization.py`. Both search the
normalized text with `_NUMBER_WITH_UNIT`; the one looks the unit up in the sets of the base units, the
other replaces the match. The pattern has three spellings of a unit that no set has, so that the two
agree only where the first match has none of them (`quantity_agrees_iff`).
-/

set_option autoImplicit false

namespace Makolet.Domain

open Makolet.Lib

/-- The character tables with the class `\w`. Decimal digits are neither whitespace nor punctuation. -/
structure WordTables extends Unicode where
  isWord : Char → Bool
  decimal_not_space : ∀ c, (decimal c).isSome = true → isSpace c = false
  decimal_not_mark : ∀ c ∈ ['.', ',', '\u00a0'], decimal c = none

variable (u : WordTables)

/-! ## The pattern -/

/-- The spellings of the group `unit`, in the order of the pattern; an optional character is first
taken and then left out. -/
def unitSpellings : List (List Char) := [
  "ק\"ג", "ק״ג", "ק'ג", "קג", "קילוגרם", "קילוגרמים", "kg",
  "גרם", "גרמים", "g", "מ\"ל", "מ״ל", "מ'ל", "מל", "מיליליטרים", "מיליליטר", "ml", "ליטרים", "ליטר",
  "l", "יחידה", "יחידות", "יח'", "ea", "each", "מטרים", "מטר", "m"].map String.toList

/-- The lower case of a character that a unit can have. Besides the Latin letters only the Kelvin
sign has one that the pattern knows; `casefold` is the same on these. -/
def lower (c : Char) : Char := if c = Char.ofNat 0x212a then 'k' else c.toLower

/-- A character of the pattern under `re.IGNORECASE`. -/
def unitClass (p c : Char) : Bool := decide (lower c = p)

def decimalRun : Piece Char := .run (Directive.decimalClass u.toUnicode)

/-- The matches of the group `number`, the preferred one first. -/
def numberMatches (s : List Char) : List (List Char × List Char) :=
  ((decimalRun u).found s).flatMap fun (whole, rest) =>
    (match rest with
      | c :: behind =>
        if c = '.' ∨ c = ',' then
          ((decimalRun u).found behind).map fun m => (whole ++ c :: m.1, m.2)
        else []
      | [] => []) ++ [(whole, rest)]

/-- The matches of `\s*`. -/
def gapMatches (s : List Char) : List (List Char × List Char) :=
  (Piece.run u.isSpace).found s ++ [([], s)]

/-- The matches of the group `unit`. -/
def unitMatches (s : List Char) : List (List Char × List Char) :=
  unitSpellings.filterMap fun spelling => matchClasses (spelling.map unitClass) s

/-- `\b` behind a text, before another. -/
def boundary (text rest : List Char) : Bool :=
  text.getLast?.any u.isWord != rest.head?.any u.isWord

/-- A match with what is before and behind it. -/
structure QuantityMatch where
  before : List Char
  number : List Char
  gap : List Char
  unit : List Char
  after : List Char
  deriving DecidableEq, Repr

/-- `_NUMBER_WITH_UNIT` at a position. -/
def matchAt (before s : List Char) : Option QuantityMatch :=
  ((numberMatches u s).flatMap fun (number, s) =>
    (gapMatches u s).flatMap fun (gap, s) =>
      (unitMatches s).map fun (unit, after) => ⟨before, number, gap, unit, after⟩).find?
    fun m => boundary u m.unit m.after

/-- `_NUMBER_WITH_UNIT.search`: the leftmost match. -/
def searchFrom (before : List Char) : List Char → Option QuantityMatch
  | [] => matchAt u before []
  | c :: s => (matchAt u before (c :: s)).or (searchFrom (before ++ [c]) s)

def search (s : List Char) : Option QuantityMatch := searchFrom u [] s

/-! ## Amounts -/

/-- A finite `decimal.Decimal` that is not negative. -/
structure Amount where
  coefficient : Nat
  exponent : Int
  deriving DecidableEq, Repr

/-- A quotient, rounded half to even. -/
def roundHalfEven (n d : Nat) : Nat :=
  if 2 * (n % d) < d then n / d
  else if d < 2 * (n % d) then n / d + 1
  else if n / d % 2 = 0 then n / d else n / d + 1

namespace Amount

/-- The result of an operation in the default context, which has 28 digits. -/
def rounded (a : Amount) : Amount :=
  let drop := (Nat.toDigits 10 a.coefficient).length - 28
  let coefficient := roundHalfEven a.coefficient (10 ^ drop)
  if coefficient = 10 ^ 28 then ⟨10 ^ 27, a.exponent + drop + 1⟩ else ⟨coefficient, a.exponent + drop⟩

/-- `amount * 1000`. -/
def thousandfold (a : Amount) : Amount := rounded ⟨a.coefficient * 1000, a.exponent⟩

/-- Above `MAX_MONEY`, which is 9999999999.9999. -/
def exceedsMaxMoney (a : Amount) : Bool :=
  let shift := a.exponent + 4
  if 0 ≤ shift then decide (99999999999999 < a.coefficient * 10 ^ shift.toNat)
  else decide (99999999999999 * 10 ^ (-shift).toNat < a.coefficient)

end Amount

/-- `Decimal` of a text without sign and exponent: digits with at most one point. -/
def decimalOf (s : List Char) : Option Amount :=
  let whole := s.takeWhile (· ≠ '.')
  let fraction := (s.dropWhile (· ≠ '.')).drop 1
  if whole ++ fraction ≠ [] ∧ (whole ++ fraction).all (Directive.decimalClass u.toUnicode) then
    some ⟨u.int (whole ++ fraction), -fraction.length⟩
  else none

/-- The source text of a number: with one comma and no point the comma is the point, otherwise
commas are dropped. -/
def decimalSource (value : List Char) : List Char :=
  let source := (u.strip value).filter (· ≠ '\u00a0')
  if source.count ',' = 1 ∧ '.' ∉ source then source.map fun c => if c = ',' then '.' else c
  else source.filter (· ≠ ',')

/-- `parse_decimal` with its default bounds. A text without sign is neither infinite nor negative. -/
def parseDecimal (value : List Char) (fieldName : String) (required : Bool) :
    Except Failure (Option Amount) :=
  if u.strip value = [] then
    if required then .error (domainInvalid (fieldName ++ " is required")) else .ok none
  else
    match decimalOf u (decimalSource u value) with
    | none => .error (domainInvalid (fieldName ++ " is not a decimal value"))
    | some parsed =>
      if parsed.rounded.exceedsMaxMoney then
        .error (domainInvalid (fieldName ++ " exceeds the allowed maximum"))
      else .ok (some parsed)

/-! ## Quantities -/

inductive BaseUnit
  | g
  | ml
  | each
  | m
  deriving DecidableEq, Repr

/-- `NormalizedQuantity`. -/
structure NormalizedQuantity where
  amount : Amount
  unit : BaseUnit
  deriving DecidableEq, Repr

/-- The unit as it is looked up. -/
def rawUnit (unit : List Char) : List Char :=
  (unit.map lower).map fun c => if c = '״' ∨ c = Char.ofNat 39 then '"' else c

def kilograms : List (List Char) := ["ק\"ג", "קילוגרם", "קילוגרמים", "kg"].map String.toList

def grams : List (List Char) := ["גרם", "גרמים", "g"].map String.toList

def millilitres : List (List Char) := ["מ\"ל", "מיליליטר", "מיליליטרים", "ml"].map String.toList

def litres : List (List Char) := ["ליטר", "ליטרים", "l"].map String.toList

def pieces : List (List Char) := ["יחידה", "יחידות", "יח'", "ea", "each"].map String.toList

def metres : List (List Char) := ["מטר", "מטרים", "m"].map String.toList

/-- The quantity of an amount in a unit, where a set has the unit. -/
def quantityOf (amount : Amount) (unit : List Char) : Option NormalizedQuantity :=
  if unit ∈ kilograms then some ⟨amount.thousandfold, .g⟩
  else if unit ∈ grams then some ⟨amount, .g⟩
  else if unit ∈ millilitres then some ⟨amount, .ml⟩
  else if unit ∈ litres then some ⟨amount.thousandfold, .ml⟩
  else if unit ∈ pieces then some ⟨amount, .each⟩
  else if unit ∈ metres then some ⟨amount, .m⟩
  else none

/-- `parse_quantity_text`. -/
def parseQuantityText (value : List Char) : Except Failure (Option NormalizedQuantity) :=
  match search u (u.nfkc value) with
  | none => .ok none
  | some found =>
    match parseDecimal u found.number "quantity" true with
    | .error e => .error e
    | .ok none => .error (domainInvalid "quantity is required")
    | .ok (some amount) => .ok (quantityOf amount (rawUnit found.unit))

/-- `without_first_quantity_text`. -/
def withoutFirstQuantityText (value : List Char) : List Char :=
  match search u (u.nfkc value) with
  | none => u.nfkc value
  | some found => found.before ++ ' ' :: found.after

variable {u}

/-! ## Matches -/

/-- What the group `number` takes. -/
inductive IsNumber (u : WordTables) : List Char → Prop
  | whole {digits : List Char} (hne : digits ≠ [])
      (hdigits : ∀ c ∈ digits, Directive.decimalClass u.toUnicode c = true) : IsNumber u digits
  | fraction {digits behind : List Char} {mark : Char} (hne : digits ≠ [])
      (hdigits : ∀ c ∈ digits, Directive.decimalClass u.toUnicode c = true)
      (hmark : mark = '.' ∨ mark = ',') (hbehind : behind ≠ [])
      (hall : ∀ c ∈ behind, Directive.decimalClass u.toUnicode c = true) :
      IsNumber u (digits ++ mark :: behind)

theorem IsNumber.ne_nil {s : List Char} (h : IsNumber u s) : s ≠ [] := by
  cases h with
  | whole hne => exact hne
  | fraction => simp

theorem of_mem_decimalRun {s : List Char} {m : List Char × List Char}
    (h : m ∈ (decimalRun u).found s) :
    m.1 ++ m.2 = s ∧ m.1 ≠ [] ∧ ∀ c ∈ m.1, Directive.decimalClass u.toUnicode c = true :=
  ⟨(Piece.append_of_mem_found h).symm,
    List.ne_nil_of_length_pos
      (Piece.length_pos_of_mem_found (show (decimalRun u).Takes from trivial) h),
    Piece.of_mem_found_run h⟩

theorem of_mem_numberMatches {s : List Char} {m : List Char × List Char}
    (h : m ∈ numberMatches u s) : m.1 ++ m.2 = s ∧ IsNumber u m.1 := by
  obtain ⟨⟨whole, rest⟩, hwhole, hm⟩ := List.mem_flatMap.mp h
  obtain ⟨rfl, hne, hdigits⟩ := of_mem_decimalRun hwhole
  rcases List.mem_append.mp hm with hfraction | hplain
  · cases rest with
    | nil => cases hfraction
    | cons mark behind =>
      dsimp only at hfraction
      split at hfraction
      · rename_i hmark
        obtain ⟨⟨fraction, rest⟩, hbehind, rfl⟩ := List.mem_map.mp hfraction
        obtain ⟨rfl, hbehind, hall⟩ := of_mem_decimalRun hbehind
        exact ⟨by simp, .fraction hne hdigits hmark hbehind hall⟩
      · cases hfraction
  · obtain rfl := List.mem_singleton.mp hplain
    exact ⟨rfl, .whole hne hdigits⟩

theorem of_mem_gapMatches {s : List Char} {m : List Char × List Char} (h : m ∈ gapMatches u s) :
    m.1 ++ m.2 = s := by
  rcases List.mem_append.mp h with hrun | hnone
  · exact (Piece.append_of_mem_found hrun).symm
  · rw [List.mem_singleton.mp hnone, List.nil_append]

/-- A unit is a spelling in some case. -/
theorem of_mem_unitMatches {s : List Char} {m : List Char × List Char} (h : m ∈ unitMatches s) :
    m.1 ++ m.2 = s ∧ m.1.map lower ∈ unitSpellings := by
  obtain ⟨spelling, hspelling, hm⟩ := List.mem_filterMap.mp h
  obtain ⟨rfl, hclasses⟩ := matchClasses_eq_some hm
  rw [List.forall₂_map_left_iff] at hclasses
  have hlower : List.Forall₂ (· = ·) spelling (m.1.map lower) :=
    List.forall₂_map_right_iff.mpr (hclasses.imp fun p c hc => (of_decide_eq_true hc).symm)
  rw [List.forall₂_eq_eq_eq] at hlower
  exact ⟨rfl, hlower ▸ hspelling⟩

namespace QuantityMatch

/-- The text of a match. -/
def text (m : QuantityMatch) : List Char := m.before ++ (m.number ++ (m.gap ++ (m.unit ++ m.after)))

/-- What the groups of a match are. -/
structure WellFormed (u : WordTables) (m : QuantityMatch) : Prop where
  number : IsNumber u m.number
  unit : m.unit.map lower ∈ unitSpellings

end QuantityMatch

theorem matchAt_spec {before s : List Char} {m : QuantityMatch} (h : matchAt u before s = some m) :
    m.text = before ++ s ∧ m.WellFormed u := by
  obtain ⟨number, hnumber, hm⟩ := List.mem_flatMap.mp (List.mem_of_find?_eq_some h)
  obtain ⟨gap, hgap, hm⟩ := List.mem_flatMap.mp hm
  obtain ⟨unit, hunit, rfl⟩ := List.mem_map.mp hm
  obtain ⟨hs, hnumber⟩ := of_mem_numberMatches hnumber
  have hgap := of_mem_gapMatches hgap
  obtain ⟨hrest, hunit⟩ := of_mem_unitMatches hunit
  refine ⟨?_, hnumber, hunit⟩
  rw [← hs, ← hgap, ← hrest]
  rfl

theorem searchFrom_spec {before s : List Char} {m : QuantityMatch}
    (h : searchFrom u before s = some m) : m.text = before ++ s ∧ m.WellFormed u := by
  induction s generalizing before with
  | nil => exact matchAt_spec h
  | cons c s ih =>
    rcases Option.or_eq_some_iff.mp h with hhere | ⟨-, hlater⟩
    · exact matchAt_spec hhere
    · obtain ⟨htext, hm⟩ := ih hlater
      exact ⟨by rw [htext, List.append_assoc]; rfl, hm⟩

theorem search_spec {s : List Char} {m : QuantityMatch} (h : search u s = some m) :
    m.text = s ∧ m.WellFormed u :=
  searchFrom_spec h

/-! ## Numbers -/

theorem not_space_of_decimal {c : Char} (h : Directive.decimalClass u.toUnicode c = true) :
    u.isSpace c = false :=
  u.decimal_not_space c h

theorem ne_of_decimal {c mark : Char} (h : Directive.decimalClass u.toUnicode c = true)
    (hmark : mark ∈ ['.', ',', '\u00a0']) : c ≠ mark := by
  rintro rfl
  rw [Directive.decimalClass, u.decimal_not_mark c hmark] at h
  cases h

/-- A text that begins and ends with other characters than whitespace is stripped already. -/
theorem strip_eq {s : List Char} (hhead : s.head?.all (fun c => !u.isSpace c) = true)
    (hlast : s.getLast?.all (fun c => !u.isSpace c) = true) : u.strip s = s := by
  have hdrop : ∀ {t : List Char}, t.head?.all (fun c => !u.isSpace c) = true →
      t.dropWhile u.isSpace = t := by
    intro t ht
    cases t with
    | nil => rfl
    | cons c t => exact List.dropWhile_cons_of_neg (by simpa using ht)
  rw [Unicode.strip, hdrop hhead, hdrop (by rwa [List.head?_reverse]), List.reverse_reverse]

theorem IsNumber.strip {s : List Char} (h : IsNumber u s) : u.strip s = s := by
  have hends : ∀ {digits : List Char} (behind : List Char), digits ≠ [] →
      (∀ c ∈ digits, Directive.decimalClass u.toUnicode c = true) →
      (digits ++ behind).head?.all (fun c => !u.isSpace c) = true ∧
        (behind ++ digits).getLast?.all (fun c => !u.isSpace c) = true := by
    intro digits behind hne hdigits
    constructor
    · rw [List.head?_append_of_ne_nil _ hne, List.head?_eq_some_head hne, Option.all_some,
        not_space_of_decimal (hdigits _ (List.head_mem hne))]
      rfl
    · rw [List.getLast?_append_of_ne_nil _ hne, List.getLast?_eq_some_getLast hne, Option.all_some,
        not_space_of_decimal (hdigits _ (List.getLast_mem hne))]
      rfl
  cases h with
  | whole hne hdigits =>
    have hhead := (hends [] hne hdigits).1
    rw [List.append_nil] at hhead
    exact strip_eq hhead (hends [] hne hdigits).2
  | @fraction digits behind mark hne hdigits _ hbehind hall =>
    refine strip_eq (hends _ hne hdigits).1 ?_
    rw [List.append_cons]
    exact (hends _ hbehind hall).2

theorem takeWhile_digits {digits : List Char} (behind : List Char)
    (hdigits : ∀ c ∈ digits, Directive.decimalClass u.toUnicode c = true) :
    (digits ++ behind).takeWhile (· ≠ '.') = digits ++ behind.takeWhile (· ≠ '.') ∧
      (digits ++ behind).dropWhile (· ≠ '.') = behind.dropWhile (· ≠ '.') := by
  have hpoint : ∀ c ∈ digits, decide (c ≠ '.') = true := fun c hc =>
    decide_eq_true (ne_of_decimal (hdigits c hc) (by decide))
  exact ⟨List.takeWhile_append_of_pos hpoint, List.dropWhile_append_of_pos hpoint⟩

theorem decimalOf_digits {digits : List Char} (hne : digits ≠ [])
    (hdigits : ∀ c ∈ digits, Directive.decimalClass u.toUnicode c = true) :
    decimalOf u digits = some ⟨u.int digits, 0⟩ := by
  obtain ⟨htake, hdrop⟩ := takeWhile_digits [] hdigits
  rw [List.append_nil, List.takeWhile_nil, List.append_nil] at htake
  rw [List.append_nil, List.dropWhile_nil] at hdrop
  unfold decimalOf
  simp only [htake, hdrop, List.drop_nil, List.append_nil]
  rw [if_pos ⟨hne, List.all_eq_true.mpr hdigits⟩]
  rfl

theorem decimalOf_point {digits behind : List Char} (hne : digits ≠ [])
    (hdigits : ∀ c ∈ digits, Directive.decimalClass u.toUnicode c = true)
    (hall : ∀ c ∈ behind, Directive.decimalClass u.toUnicode c = true) :
    decimalOf u (digits ++ '.' :: behind) = some ⟨u.int (digits ++ behind), -behind.length⟩ := by
  obtain ⟨htake, hdrop⟩ := takeWhile_digits ('.' :: behind) hdigits
  rw [List.takeWhile_cons_of_neg (by simp), List.append_nil] at htake
  rw [List.dropWhile_cons_of_neg (by simp)] at hdrop
  unfold decimalOf
  simp only [htake, hdrop, List.drop_one, List.tail_cons]
  rw [if_pos ⟨by simp [hne],
    by rw [List.all_append, List.all_eq_true.mpr hdigits, List.all_eq_true.mpr hall]; rfl⟩]

theorem filter_digits {digits : List Char} {mark : Char} (hmark : mark ∈ ['.', ',', '\u00a0'])
    (hdigits : ∀ c ∈ digits, Directive.decimalClass u.toUnicode c = true) :
    digits.filter (· ≠ mark) = digits :=
  List.filter_eq_self.mpr fun c hc => decide_eq_true (ne_of_decimal (hdigits c hc) hmark)

/-- A number is a decimal. -/
theorem IsNumber.decimal {s : List Char} (h : IsNumber u s) :
    ∃ amount, decimalOf u (decimalSource u s) = some amount := by
  have hstrip := h.strip
  unfold decimalSource
  dsimp only
  rw [hstrip]
  cases h with
  | whole hne hdigits =>
    have hcomma : s.count ',' = 0 :=
      List.count_eq_zero.mpr fun hmem => ne_of_decimal (hdigits _ hmem) (by decide) rfl
    rw [filter_digits (by decide) hdigits, if_neg (by simp [hcomma]),
      filter_digits (by decide) hdigits]
    exact ⟨_, decimalOf_digits hne hdigits⟩
  | @fraction digits behind mark hne hdigits hmark hbehind hall =>
    have hplain : (digits ++ mark :: behind).filter (· ≠ '\u00a0') = digits ++ mark :: behind := by
      rw [List.filter_append, filter_digits (by decide) hdigits, List.filter_cons_of_pos,
        filter_digits (by decide) hall]
      rcases hmark with rfl | rfl <;> decide
    have hcount : ∀ {l : List Char} {c : Char}, c ∈ ['.', ',', '\u00a0'] →
        (∀ d ∈ l, Directive.decimalClass u.toUnicode d = true) → c ∉ l :=
      fun hc hl hmem => ne_of_decimal (hl _ hmem) hc rfl
    refine ⟨⟨u.int (digits ++ behind), -behind.length⟩, ?_⟩
    rw [hplain, ← decimalOf_point hne hdigits hall]
    congr 1
    rcases hmark with rfl | rfl
    · -- A point: there is no comma to drop.
      have hcomma : (digits ++ '.' :: behind).count ',' = 0 := by
        rw [List.count_eq_zero]
        simp [hcount (c := ',') (by decide) hdigits, hcount (c := ',') (by decide) hall]
      rw [if_neg (by simp [hcomma]), List.filter_append, filter_digits (by decide) hdigits,
        List.filter_cons_of_pos (by decide), filter_digits (by decide) hall]
    · -- A comma: it becomes the point.
      have hsame : ∀ {l : List Char}, (∀ d ∈ l, Directive.decimalClass u.toUnicode d = true) →
          l.map (fun c => if c = ',' then '.' else c) = l := fun hl =>
        (List.map_congr_left fun c hc => if_neg (ne_of_decimal (hl c hc) (by decide))).trans
          (List.map_id' _)
      rw [if_pos ?_, List.map_append, List.map_cons, hsame hdigits, hsame hall, if_pos rfl]
      constructor
      · rw [List.count_append, List.count_cons_self,
          List.count_eq_zero.mpr (hcount (by decide) hdigits),
          List.count_eq_zero.mpr (hcount (by decide) hall)]
      · simp [hcount (c := '.') (by decide) hdigits, hcount (c := '.') (by decide) hall]

/-- The amount of a number is taken as it is, unless it is too large. -/
theorem IsNumber.parseDecimal {s : List Char} (h : IsNumber u s) (fieldName : String) :
    ∃ amount, decimalOf u (decimalSource u s) = some amount ∧
      parseDecimal u s fieldName true =
        if amount.rounded.exceedsMaxMoney then
          .error (domainInvalid (fieldName ++ " exceeds the allowed maximum"))
        else .ok (some amount) := by
  obtain ⟨amount, hamount⟩ := h.decimal
  refine ⟨amount, hamount, ?_⟩
  rw [Domain.parseDecimal, h.strip, if_neg h.ne_nil, hamount]

/-! ## Units -/

/-- The spellings that the pattern takes and no set has: those without a quote, and the one whose
apostrophe is rewritten before the lookup. -/
def unmappedSpellings : List (List Char) := ["קג", "מל", "יח'"].map String.toList

/-- The units of all sets. -/
def mappedUnits : List (List Char) :=
  kilograms ++ (grams ++ (millilitres ++ (litres ++ (pieces ++ metres))))

theorem quantityOf_isSome {amount : Amount} {unit : List Char} :
    (quantityOf amount unit).isSome = true ↔ unit ∈ mappedUnits := by
  unfold quantityOf mappedUnits
  simp only [List.mem_append]
  split_ifs <;> simp [*]

/-- Of the spellings of the pattern all but three are in a set after their quotes are rewritten. -/
theorem rawUnit_mapped {unit : List Char} (h : unit.map lower ∈ unitSpellings) :
    rawUnit unit ∈ mappedUnits ↔ unit.map lower ∉ unmappedSpellings := by
  have hall : ∀ spelling ∈ unitSpellings,
      spelling.map (fun c => if c = '״' ∨ c = Char.ofNat 39 then '"' else c) ∈ mappedUnits ↔
        spelling ∉ unmappedSpellings := by
    decide
  exact hall _ h

/-! ## Agreement -/

/-- The removal takes an expression away exactly when the extraction returns a quantity, and what is
returned is the quantity of what is removed. -/
def Agrees (u : WordTables) (value : List Char) : Prop :=
  (withoutFirstQuantityText u value ≠ u.nfkc value ↔
    ∃ quantity, parseQuantityText u value = .ok (some quantity)) ∧
  ∀ quantity, parseQuantityText u value = .ok (some quantity) →
    ∃ (m : QuantityMatch) (amount : Amount), m.text = u.nfkc value ∧
      withoutFirstQuantityText u value = m.before ++ ' ' :: m.after ∧
      decimalOf u (decimalSource u m.number) = some amount ∧
      quantityOf amount (rawUnit m.unit) = some quantity

/-- The first match, if there is one, has a unit of the sets and an amount that is not too large. -/
def Extractable (u : WordTables) (s : List Char) : Prop :=
  ∀ m, search u s = some m → m.unit.map lower ∉ unmappedSpellings ∧
    ∀ amount, decimalOf u (decimalSource u m.number) = some amount →
      amount.rounded.exceedsMaxMoney = false

theorem withoutFirstQuantityText_ne {value : List Char} :
    withoutFirstQuantityText u value ≠ u.nfkc value ↔ ∃ m, search u (u.nfkc value) = some m := by
  unfold withoutFirstQuantityText
  cases hsearch : search u (u.nfkc value) with
  | none => simp
  | some m =>
    obtain ⟨htext, hm⟩ := search_spec hsearch
    have hunit : m.unit ≠ [] := fun hnil => by
      have hmem := hm.unit
      rw [hnil] at hmem
      exact absurd hmem (by decide)
    -- A number and a unit are longer than a blank.
    refine ⟨fun _ => ⟨m, rfl⟩, fun _ heq => ?_⟩
    have hlength := congrArg List.length (htext.trans heq.symm)
    simp only [QuantityMatch.text, List.length_append, List.length_cons] at hlength
    have hnumber := List.length_pos_of_ne_nil hm.number.ne_nil
    have hunit := List.length_pos_of_ne_nil hunit
    omega

/-- Of a match the extraction returns the quantity, if its amount is not too large. -/
theorem parseQuantityText_of_match {value : List Char} {m : QuantityMatch}
    (h : search u (u.nfkc value) = some m) :
    ∃ amount, decimalOf u (decimalSource u m.number) = some amount ∧
      parseQuantityText u value =
        if amount.rounded.exceedsMaxMoney then
          .error (domainInvalid "quantity exceeds the allowed maximum")
        else .ok (quantityOf amount (rawUnit m.unit)) := by
  obtain ⟨amount, hamount, hparse⟩ := (search_spec h).2.number.parseDecimal "quantity"
  refine ⟨amount, hamount, ?_⟩
  unfold parseQuantityText
  rw [h]
  dsimp only
  rw [hparse]
  cases amount.rounded.exceedsMaxMoney with
  | true => rfl
  | false => rfl

/-- The two functions agree on a text exactly when its first match has a unit of the sets and an
amount that is not too large, or when there is no match. -/
theorem quantity_agrees_iff (u : WordTables) (value : List Char) :
    Agrees u value ↔ Extractable u (u.nfkc value) := by
  unfold Agrees Extractable
  rw [withoutFirstQuantityText_ne]
  cases hsearch : search u (u.nfkc value) with
  | none =>
    have hnone : parseQuantityText u value = .ok none := by rw [parseQuantityText, hsearch]
    simp [hnone]
  | some m =>
    obtain ⟨htext, hm⟩ := search_spec hsearch
    obtain ⟨amount, hamount, hparse⟩ := parseQuantityText_of_match hsearch
    have hunit : (quantityOf amount (rawUnit m.unit)).isSome = true ↔
        m.unit.map lower ∉ unmappedSpellings :=
      quantityOf_isSome.trans (rawUnit_mapped hm.unit)
    have hreturns : (∃ quantity, parseQuantityText u value = .ok (some quantity)) ↔
        m.unit.map lower ∉ unmappedSpellings ∧ amount.rounded.exceedsMaxMoney = false := by
      rw [hparse, ← hunit, Option.isSome_iff_exists]
      cases amount.rounded.exceedsMaxMoney <;> simp
    constructor
    · rintro ⟨hagree, -⟩ m' hm'
      cases hm'
      obtain ⟨hmapped, hsmall⟩ := hreturns.mp (hagree.mp ⟨m, rfl⟩)
      refine ⟨hmapped, fun amount' hamount' => ?_⟩
      rw [hamount] at hamount'
      cases hamount'
      exact hsmall
    · intro h
      obtain ⟨hmapped, hsmall⟩ := h m rfl
      refine ⟨⟨fun _ => hreturns.mpr ⟨hmapped, hsmall amount hamount⟩, fun _ => ⟨m, rfl⟩⟩, ?_⟩
      intro quantity hquantity
      rw [hparse, if_neg (by simp [hsmall amount hamount])] at hquantity
      exact ⟨m, amount, htext, by rw [withoutFirstQuantityText, hsearch], hamount,
        Except.ok.inj hquantity⟩

/-! ## Samples -/

/-- Tables of ASCII and the Hebrew letters. -/
def plainTables : WordTables where
  nfkc := id
  isControl := fun c => decide (c.toNat < 32)
  isSpace := fun c => decide (c = ' ' ∨ 9 ≤ c.toNat ∧ c.toNat ≤ 13)
  decimal := fun c => if range 0 9 c then some (c.toNat - 48) else none
  nfkc_digits := fun _ _ => rfl
  not_control := by decide
  not_space := by decide
  decimal_digit := by decide
  isWord := fun c => c.isAlphanum || decide (c = '_' ∨ 0x5d0 ≤ c.toNat ∧ c.toNat ≤ 0x5ea)
  decimal_not_space := by
    intro c hc
    have hrange : range 0 9 c = true := by
      by_contra hout
      rw [if_neg hout] at hc
      cases hc
    refine decide_eq_false ?_
    rintro (rfl | ⟨-, hcontrol⟩)
    · exact absurd hrange (by decide)
    · have hdigit := (of_decide_eq_true hrange).1
      omega
  decimal_not_mark := by
    intro c hc
    simp only [List.mem_cons, List.not_mem_nil, or_false] at hc
    rcases hc with rfl | rfl | rfl
    · rfl
    · rfl
    · rfl

/-- One kilogram without the quotation mark is removed and not returned. -/
theorem kilogram_without_quote_dropped : ¬ Agrees plainTables "1 קג".toList := by
  intro hagrees
  obtain ⟨quantity, hquantity⟩ := hagrees.1.mp (by decide)
  have hnone : parseQuantityText plainTables "1 קג".toList = .ok none := rfl
  rw [hnone] at hquantity
  cases hquantity

end Makolet.Domain
