import Mathlib.Tactic.IntervalCases
import Makolet.Domain.Filenames

/-!
# Compact timestamps

The wall times that the compact formats write, and what `parse_source_datetime` and
`extract_source_timestamp` make of them. The formats of fourteen, twelve and eight digits overlap: a
longer format is tried first, and where its two-digit directives can take one digit each it takes
the shorter timestamp.
-/

set_option autoImplicit false

namespace Makolet.Domain

open Makolet.Lib

/-! ## Digits -/

def two (n : Nat) : List Char := [digit (n / 10), digit (n % 10)]

def four (n : Nat) : List Char := two (n / 100) ++ two (n % 100)

/-- A text of ASCII digits. -/
def Digits (s : List Char) : Prop := ∀ c ∈ s, ∃ n < 10, c = digit n

theorem Digits.append {s s' : List Char} (h : Digits s) (h' : Digits s') : Digits (s ++ s') := by
  intro c hc
  rcases List.mem_append.mp hc with hs | hs'
  · exact h c hs
  · exact h' c hs'

theorem digits_two {n : Nat} (h : n < 100) : Digits (two n) := by
  intro c hc
  simp only [two, List.mem_cons, List.not_mem_nil, or_false] at hc
  rcases hc with rfl | rfl
  · exact ⟨n / 10, by omega, rfl⟩
  · exact ⟨n % 10, by omega, rfl⟩

theorem digits_four {n : Nat} (h : n < 10000) : Digits (four n) :=
  (digits_two (by omega)).append (digits_two (by omega))

theorem toNat_digit {n : Nat} (h : n < 10) : (digit n).toNat = 48 + n := by
  unfold digit
  interval_cases n <;> rfl

theorem range_digit {lo hi n : Nat} (h : n < 10) :
    range lo hi (digit n) = decide (lo ≤ n ∧ n ≤ hi) := by
  rw [range, toNat_digit h]
  simp

theorem decimalClass_digit (u : Unicode) {n : Nat} (h : n < 10) :
    Directive.decimalClass u (digit n) = true := by
  rw [Directive.decimalClass, u.decimal_digit n h]
  rfl

theorem int_append (u : Unicode) (s : List Char) {n : Nat} (h : n < 10) :
    u.int (s ++ [digit n]) = 10 * u.int s + n := by
  rw [Unicode.int, List.foldl_append]
  simp [u.decimal_digit n h, Unicode.int]

theorem int_digit (u : Unicode) {n : Nat} (h : n < 10) : u.int [digit n] = n := by
  simp [Unicode.int, u.decimal_digit n h]

theorem int_two (u : Unicode) {n : Nat} (h : n < 100) : u.int (two n) = n := by
  have hn := int_append u [digit (n / 10)] (n := n % 10) (by omega)
  rw [int_digit u (by omega)] at hn
  refine hn.trans ?_
  omega

theorem int_four (u : Unicode) {n : Nat} (h : n < 10000) : u.int (four n) = n := by
  have hhigh := int_two u (n := n / 100) (by omega)
  have hmid := int_append u (two (n / 100)) (n := n % 100 / 10) (by omega)
  have hlow := int_append u (two (n / 100) ++ [digit (n % 100 / 10)]) (n := n % 100 % 10) (by omega)
  rw [hmid, hhigh, List.append_assoc] at hlow
  refine hlow.trans ?_
  omega

/-! ## Cleaning -/

theorem dropWhile_of_digits (u : Unicode) {s : List Char} (h : Digits s) :
    s.dropWhile u.isSpace = s := by
  cases s with
  | nil => rfl
  | cons c s =>
    obtain ⟨n, hn, rfl⟩ := h c List.mem_cons_self
    rw [List.dropWhile_cons_of_neg]
    rw [u.not_space n hn]
    exact Bool.false_ne_true

theorem strip_of_digits (u : Unicode) {s : List Char} (h : Digits s) : u.strip s = s := by
  have hreverse : Digits s.reverse := fun c hc => h c (List.mem_reverse.mp hc)
  rw [Unicode.strip, dropWhile_of_digits u h, dropWhile_of_digits u hreverse, List.reverse_reverse]

theorem collapse_of_digits (u : Unicode) {s : List Char} (h : Digits s) (run : Bool) :
    u.collapse run s = s := by
  induction s generalizing run with
  | nil => rfl
  | cons c s ih =>
    obtain ⟨n, hn, rfl⟩ := h c List.mem_cons_self
    rw [Unicode.collapse, u.not_space n hn, if_neg Bool.false_ne_true,
      ih fun c hc => h c (List.mem_cons_of_mem _ hc)]

/-- A text of digits is clean. -/
theorem cleanSourceText_of_digits (u : Unicode) {s : List Char} (h : Digits s) (hne : s ≠ [])
    {maxLength : Nat} (hlength : s.length ≤ maxLength) :
    u.cleanSourceText maxLength (some s) = .ok (some s) := by
  have hfilter : s.filter (fun c => c ∈ ['\t', '\n', '\r'] || !u.isControl c) = s := by
    rw [List.filter_eq_self]
    intro c hc
    obtain ⟨n, hn, rfl⟩ := h c hc
    rw [u.not_control n hn]
    simp
  unfold Unicode.cleanSourceText
  simp only [u.nfkc_digits s h, strip_of_digits u h, hfilter, collapse_of_digits u h]
  rw [if_neg hne, if_neg (Nat.not_lt.mpr hlength)]

/-! ## Two-digit directives -/

/-- The first alternative that takes the two characters, when it comes before all others that match
them. -/
def takesPair : List (List (Char → Bool)) → Char → Char → Bool
  | [p, q] :: alternatives, a, b => p a && q b || takesPair alternatives a b
  | _, _, _ => false

theorem head?_found_pair {alternatives : List (List (Char → Bool))} {a b : Char}
    (h : takesPair alternatives a b = true) (s : List Char) :
    ((Piece.choice alternatives).found ([a, b] ++ s)).head? = some ([a, b], s) := by
  induction alternatives with
  | nil => cases h
  | cons classes alternatives ih =>
    rcases classes with _ | ⟨p, _ | ⟨q, _ | ⟨r, classes⟩⟩⟩
    · cases h
    · cases h
    · rw [takesPair, Bool.or_eq_true, Bool.and_eq_true] at h
      rw [Piece.found]
      by_cases hfirst : p a = true ∧ q b = true
      · have hmatch : matchClasses [p, q] ([a, b] ++ s) = some ([a, b], s) := by
          simp [matchClasses, hfirst.1, hfirst.2]
        rw [List.filterMap_cons_some (f := (matchClasses · ([a, b] ++ s))) hmatch]
        rfl
      · have hmatch : matchClasses [p, q] ([a, b] ++ s) = none := by
          simp only [matchClasses, List.cons_append, List.nil_append]
          by_cases hp : p a = true <;> simp_all
        rw [List.filterMap_cons_none (f := (matchClasses · ([a, b] ++ s))) hmatch]
        exact ih (h.resolve_left hfirst)
    · cases h

section Directives

variable (u : Unicode)

attribute [local simp] takesPair Directive.piece

theorem head?_found_two {alternatives : List (List (Char → Bool))} {n : Nat}
    (h : takesPair alternatives (digit (n / 10)) (digit (n % 10)) = true) (s : List Char) :
    ((Piece.choice alternatives).found (two n ++ s)).head? = some (two n, s) :=
  head?_found_pair h s

theorem found_month {n : Nat} (h : 1 ≤ n ∧ n ≤ 12) (s : List Char) :
    ((Directive.month.piece u).found (two n ++ s)).head? = some (two n, s) := by
  apply head?_found_two
  have htens : n / 10 < 10 := by omega
  have hones : n % 10 < 10 := by omega
  simp only [takesPair, range_digit htens, range_digit hones, Bool.or_eq_true, Bool.and_eq_true,
    decide_eq_true_eq]
  omega

theorem found_day {n : Nat} (h : 1 ≤ n ∧ n ≤ 31) (s : List Char) :
    ((Directive.day.piece u).found (two n ++ s)).head? = some (two n, s) := by
  apply head?_found_two
  have htens : n / 10 < 10 := by omega
  have hones : n % 10 < 10 := by omega
  simp only [takesPair, range_digit htens, range_digit hones, decimalClass_digit u hones,
    Bool.or_eq_true, Bool.and_eq_true, decide_eq_true_eq, and_true]
  omega

theorem found_hour {n : Nat} (h : n < 24) (s : List Char) :
    ((Directive.hour.piece u).found (two n ++ s)).head? = some (two n, s) := by
  apply head?_found_two
  have htens : n / 10 < 10 := by omega
  have hones : n % 10 < 10 := by omega
  simp only [takesPair, range_digit htens, range_digit hones, decimalClass_digit u hones,
    Bool.or_eq_true, Bool.and_eq_true, decide_eq_true_eq, and_true]
  omega

theorem found_minute {n : Nat} (h : n < 60) (s : List Char) :
    ((Directive.minute.piece u).found (two n ++ s)).head? = some (two n, s) := by
  apply head?_found_two
  have htens : n / 10 < 10 := by omega
  have hones : n % 10 < 10 := by omega
  simp only [takesPair, range_digit htens, decimalClass_digit u hones, Bool.or_eq_true,
    Bool.and_eq_true, decide_eq_true_eq, and_true]
  omega

theorem found_second {n : Nat} (h : n < 60) (s : List Char) :
    ((Directive.second.piece u).found (two n ++ s)).head? = some (two n, s) := by
  apply head?_found_two
  have htens : n / 10 < 10 := by omega
  have hones : n % 10 < 10 := by omega
  simp only [takesPair, range_digit htens, range_digit hones, decimalClass_digit u hones,
    Bool.or_eq_true, Bool.and_eq_true, decide_eq_true_eq, and_true]
  omega

theorem found_year {n : Nat} (h : n < 10000) (s : List Char) :
    ((Directive.year.piece u).found (four n ++ s)).head? = some (four n, s) := by
  have h₁ := decimalClass_digit u (n := n / 100 / 10) (by omega)
  have h₂ := decimalClass_digit u (n := n / 100 % 10) (by omega)
  have h₃ := decimalClass_digit u (n := n % 100 / 10) (by omega)
  have h₄ := decimalClass_digit u (n := n % 10) (by omega)
  simp [Directive.piece, Piece.found, four, two, matchClasses, h₁, h₂, h₃, h₄]

/-- All directives of the compact formats take at least one character. -/
theorem takes_compact {pieces : List Directive}
    (h : ∀ d ∈ pieces, d ∈ [Directive.year, .month, .day, .hour, .minute, .second]) :
    ∀ piece ∈ pieces.map (Directive.piece u), piece.Takes := by
  intro piece hmem
  obtain ⟨d, hd, rfl⟩ := List.mem_map.mp hmem
  have hcases := h d hd
  simp only [List.mem_cons, List.not_mem_nil, or_false] at hcases
  rcases hcases with rfl | rfl | rfl | rfl | rfl | rfl <;> simp [Directive.piece, Piece.Takes]

theorem single_month {n : Nat} (h : n < 10) :
    (Directive.month.piece u).single (digit n) = decide (1 ≤ n) := by
  simp [Directive.piece, Piece.single, range_digit h]
  omega

theorem single_day {n : Nat} (h : n < 10) :
    (Directive.day.piece u).single (digit n) = decide (1 ≤ n) := by
  simp [Directive.piece, Piece.single, range_digit h]
  omega

theorem single_hour {n : Nat} (h : n < 10) :
    (Directive.hour.piece u).single (digit n) = true := by
  simp [Directive.piece, Piece.single, decimalClass_digit u h]

theorem single_minute {n : Nat} (h : n < 10) :
    (Directive.minute.piece u).single (digit n) = true := by
  simp [Directive.piece, Piece.single, decimalClass_digit u h]

theorem single_second {n : Nat} (h : n < 10) :
    (Directive.second.piece u).single (digit n) = true := by
  simp [Directive.piece, Piece.single, decimalClass_digit u h]

end Directives

/-! ## Compact formats -/

/-- The precision of a compact timestamp: fourteen, twelve or eight digits. -/
inductive Precision
  | second
  | minute
  | day
  deriving DecidableEq, Repr

namespace WallTime

/-- The wall time at a precision. -/
def truncate (w : WallTime) : Precision → WallTime
  | .second => { w with microsecond := 0 }
  | .minute => { w with
      second := 0
      microsecond := 0 }
  | .day => { w with
      hour := 0
      minute := 0
      second := 0
      microsecond := 0 }

/-- `YYYYMMDD`. -/
def dateText (w : WallTime) : List Char := four w.year ++ (two w.month ++ two w.day)

/-- `HHMMSS`, `HHMM` or nothing. -/
def timeText (w : WallTime) : Precision → List Char
  | .second => two w.hour ++ (two w.minute ++ two w.second)
  | .minute => two w.hour ++ two w.minute
  | .day => []

/-- A wall time of the years 2000 to 2099. -/
structure Compact (w : WallTime) : Prop where
  valid : w.Valid
  century : 2000 ≤ w.year ∧ w.year ≤ 2099

/-- What the formats read in the compact timestamp of a precision. -/
def misread (w : WallTime) : Precision → WallTime
  | .second => w.truncate .second
  | .minute => { w with
      minute := w.minute / 10
      second := w.minute % 10
      microsecond := 0 }
  | .day =>
      if w.month = 11 ∨ w.month = 12 then {
        year := w.year
        month := 1
        day := w.month % 10
        hour := w.day / 10
        minute := w.day % 10
        second := 0
        microsecond := 0 }
      else w.truncate .day

/-- The compact timestamps that are read as they were written. -/
def ReadsBack (w : WallTime) : Precision → Prop
  | .second => True
  | .minute => w.minute = 0
  | .day => w.month ≠ 11 ∧ w.month ≠ 12

theorem misread_eq_truncate_iff {w : WallTime} (precision : Precision) :
    w.misread precision = w.truncate precision ↔ w.ReadsBack precision := by
  cases precision with
  | second => exact iff_of_true rfl trivial
  | minute =>
    simp only [misread, truncate, ReadsBack, mk.injEq, true_and, and_true]
    omega
  | day =>
    simp only [misread, truncate, ReadsBack]
    by_cases hmonth : w.month = 11 ∨ w.month = 12
    · rw [if_pos hmonth]
      refine iff_of_false (fun heq => ?_) (by omega)
      have hfirst := congrArg month heq
      simp only at hfirst
      omega
    · rw [if_neg hmonth]
      exact iff_of_true rfl (by omega)

theorem day_le {w : WallTime} (h : w.Valid) : w.day ≤ 31 := by
  have hday := h.2.2.1.2
  unfold daysIn at hday
  split at hday
  · split at hday <;> omega
  · split at hday <;> omega

theorem valid_misread {w : WallTime} (h : w.Valid) (precision : Precision) :
    (w.misread precision).Valid := by
  have hday := day_le h
  obtain ⟨hyear, hmonth, hdays, hhour, hminute, hsecond, -⟩ := h
  cases precision with
  | second => exact ⟨hyear, hmonth, hdays, hhour, hminute, hsecond, Nat.succ_pos _⟩
  | minute =>
    refine ⟨hyear, hmonth, hdays, hhour, ?_, ?_, Nat.succ_pos _⟩
    · show w.minute / 10 < 60
      omega
    · show w.minute % 10 < 60
      omega
  | day =>
    simp only [misread]
    split
    · refine ⟨hyear, ⟨Nat.le_refl 1, ?_⟩, ⟨?_, ?_⟩, ?_, ?_, Nat.succ_pos _, Nat.succ_pos _⟩
      · show 1 ≤ 12
        omega
      · show 1 ≤ w.month % 10
        omega
      · show w.month % 10 ≤ 31
        omega
      · show w.day / 10 < 24
        omega
      · show w.day % 10 < 60
        omega
    · exact ⟨hyear, hmonth, hdays, Nat.succ_pos _, Nat.succ_pos _, Nat.succ_pos _, Nat.succ_pos _⟩

theorem Compact.digits_dateText {w : WallTime} (h : w.Compact) : Digits w.dateText := by
  have hday := day_le h.valid
  have hmonth := h.valid.2.1
  have hyear := h.century
  exact (digits_four (by omega)).append ((digits_two (by omega)).append (digits_two (by omega)))

theorem Compact.digits_timeText {w : WallTime} (h : w.Compact) (precision : Precision) :
    Digits (w.timeText precision) := by
  obtain ⟨-, -, -, hhour, hminute, hsecond, -⟩ := h.valid
  cases precision with
  | second =>
    exact (digits_two (by omega)).append ((digits_two (by omega)).append (digits_two (by omega)))
  | minute => exact (digits_two (by omega)).append (digits_two (by omega))
  | day =>
    intro c hc
    cases hc

end WallTime

/-! ## Reading digits -/

section Reading

variable (u : Unicode) (zone : Zone)

/-- A format with a dash or a slash reads no digits. -/
theorem strptime_eq_none_of_literal {format : String} {c : Char}
    (hmem : Directive.literal c ∈ directives format.toList) (hc : c = '-' ∨ c = '/') {s : List Char}
    (hs : Digits s) : strptime u zone format s = none := by
  have hrejects : (Piece.choice [[caseless c]]).Rejects fun x => ∃ n < 10, x = digit n := by
    intro classes hclasses
    obtain rfl := List.mem_singleton.mp hclasses
    refine ⟨_, List.mem_cons_self, ?_⟩
    rintro x ⟨n, hn, rfl⟩
    rcases hc with rfl | rfl <;> interval_cases n <;> decide
  have hnone := sequenceMatches_eq_nil_of_rejects
    (List.mem_map_of_mem (f := Directive.piece u) hmem) hrejects hs
  rw [strptime, hnone]
  rfl

theorem findSome?_of_digits {s : List Char} (hs : Digits s) :
    (datetimeFormats.findSome? fun format => strptime u zone format s) =
      (strptime u zone "%Y%m%d%H%M%S" s).or
        ((strptime u zone "%Y%m%d%H%M" s).or (strptime u zone "%Y%m%d" s)) := by
  have hliteral : ∀ format ∈ datetimeFormats.take 12 ++ datetimeFormats.drop 15,
      Directive.literal '-' ∈ directives format.toList ∨
        Directive.literal '/' ∈ directives format.toList := by decide
  have hnone : ∀ format ∈ datetimeFormats.take 12 ++ datetimeFormats.drop 15,
      strptime u zone format s = none := by
    intro format hmem
    rcases hliteral format hmem with hdash | hslash
    · exact strptime_eq_none_of_literal u zone hdash (.inl rfl) hs
    · exact strptime_eq_none_of_literal u zone hslash (.inr rfl) hs
  have hsplit : datetimeFormats = datetimeFormats.take 12 ++
      (["%Y%m%d%H%M%S", "%Y%m%d%H%M", "%Y%m%d"] ++ datetimeFormats.drop 15) := rfl
  have hfirst : ((datetimeFormats.take 12).findSome? fun format => strptime u zone format s) =
      none :=
    List.findSome?_eq_none_iff.mpr fun format hmem => hnone format (List.mem_append_left _ hmem)
  have hlast : ((datetimeFormats.drop 15).findSome? fun format => strptime u zone format s) =
      none :=
    List.findSome?_eq_none_iff.mpr fun format hmem => hnone format (List.mem_append_right _ hmem)
  rw [hsplit, List.findSome?_append, hfirst, Option.none_or, List.findSome?_append, hlast,
    Option.or_none]
  simp only [List.findSome?_cons, List.findSome?_nil]
  cases strptime u zone "%Y%m%d%H%M%S" s <;> cases strptime u zone "%Y%m%d%H%M" s <;>
    cases strptime u zone "%Y%m%d" s <;> rfl

/-- A format without an offset reads the wall time of the preferred match of the whole text. -/
theorem strptime_of_head? {format : String} {s : List Char} {texts : List (List Char)}
    {w : WallTime}
    (h : (sequenceMatches ((directives format.toList).map (Directive.piece u)) s).head? =
      some (texts, []))
    (hw : wallTimeOf u ((directives format.toList).zip texts) = w) (hvalid : w.Valid)
    (hoffset : ((directives format.toList).zip texts).lookup .offset = none) :
    strptime u zone format s = some (w, none) := by
  rw [strptime, h]
  simp only [hw, hoffset]
  rw [if_pos hvalid]

variable {w : WallTime} (hw : w.Compact)

include hw

/-- The preferred match of the first three directives takes the date. -/
theorem head?_date {ds : List Directive} {s : List Char} {texts : List (List Char)}
    (h : (sequenceMatches (ds.map (Directive.piece u)) s).head? = some (texts, [])) :
    (sequenceMatches ((Directive.year :: .month :: .day :: ds).map (Directive.piece u))
      (w.dateText ++ s)).head? =
        some (four w.year :: two w.month :: two w.day :: texts, []) := by
  have hday := WallTime.day_le hw.valid
  obtain ⟨⟨-, hyear⟩, hmonth, ⟨hfirst, -⟩, -⟩ := hw.valid
  rw [WallTime.dateText, List.append_assoc, List.append_assoc]
  apply head?_cons (found_year u (by omega) _)
  apply head?_cons (found_month u hmonth _)
  exact head?_cons (found_day u ⟨hfirst, hday⟩ _) h

theorem strptime_second :
    strptime u zone "%Y%m%d%H%M%S" (w.dateText ++ w.timeText .second) =
      some (w.truncate .second, none) := by
  have hday := WallTime.day_le hw.valid
  obtain ⟨hyear, hmonth, -, hhour, hminute, hsecond, -⟩ := hw.valid
  have htime : (sequenceMatches ([Directive.hour, .minute, .second].map (Directive.piece u))
      (w.timeText .second)).head? = some ([two w.hour, two w.minute, two w.second], []) := by
    apply head?_cons (found_hour u hhour _)
    apply head?_cons (found_minute u hminute _)
    have hend := found_second u hsecond []
    rw [List.append_nil] at hend
    exact head?_cons hend rfl
  refine strptime_of_head? u zone (head?_date u hw htime) ?_
    (WallTime.valid_misread hw.valid .second) rfl
  show (⟨u.int (four w.year), u.int (two w.month), u.int (two w.day), u.int (two w.hour),
    u.int (two w.minute), u.int (two w.second), 0⟩ : WallTime) = _
  rw [int_four u (by omega), int_two u (by omega), int_two u (by omega), int_two u (by omega),
    int_two u (by omega), int_two u (by omega)]
  rfl

/-- With seconds to read, the two digits of the minute are read as one minute and one second. -/
theorem strptime_minute :
    strptime u zone "%Y%m%d%H%M%S" (w.dateText ++ w.timeText .minute) =
      some (w.misread .minute, none) := by
  have hday := WallTime.day_le hw.valid
  obtain ⟨hyear, hmonth, -, hhour, hminute, -⟩ := hw.valid
  have htens : w.minute / 10 < 10 := by omega
  have hones : w.minute % 10 < 10 := by omega
  -- Two directives share two digits in one way only: one digit each.
  have hsplit : (sequenceMatches ([Directive.minute, .second].map (Directive.piece u))
      (two w.minute)).head? = some ([[digit (w.minute / 10)], [digit (w.minute % 10)]], []) := by
    rw [head?_of_length_eq (takes_compact u (by decide)) rfl, if_pos]
    · rfl
    · intro m hm
      simp only [two, List.map_cons, List.map_nil, List.zip_cons_cons, List.zip_nil_left,
        List.mem_cons, List.not_mem_nil, or_false] at hm
      rcases hm with rfl | rfl
      · exact single_minute u htens
      · exact single_second u hones
  have htime : (sequenceMatches ([Directive.hour, .minute, .second].map (Directive.piece u))
      (w.timeText .minute)).head? =
        some ([two w.hour, [digit (w.minute / 10)], [digit (w.minute % 10)]], []) :=
    head?_cons (found_hour u hhour _) hsplit
  refine strptime_of_head? u zone (head?_date u hw htime) ?_
    (WallTime.valid_misread hw.valid .minute) rfl
  show (⟨u.int (four w.year), u.int (two w.month), u.int (two w.day), u.int (two w.hour),
    u.int [digit (w.minute / 10)], u.int [digit (w.minute % 10)], 0⟩ : WallTime) = _
  rw [int_four u (by omega), int_two u (by omega), int_two u (by omega), int_two u (by omega),
    int_digit u htens, int_digit u hones]
  rfl

theorem strptime_date : strptime u zone "%Y%m%d" w.dateText = some (w.truncate .day, none) := by
  have hday := WallTime.day_le hw.valid
  obtain ⟨hyear, hmonth, hdays, -⟩ := hw.valid
  have hnil : (sequenceMatches (([] : List Directive).map (Directive.piece u)) []).head? =
      some ([], []) := rfl
  have hdate := head?_date u hw hnil
  rw [List.append_nil] at hdate
  refine strptime_of_head? u zone hdate ?_
    ⟨hyear, hmonth, hdays, Nat.succ_pos _, Nat.succ_pos _, Nat.succ_pos _, Nat.succ_pos _⟩ rfl
  show (⟨u.int (four w.year), u.int (two w.month), u.int (two w.day), 0, 0, 0, 0⟩ : WallTime) = _
  rw [int_four u (by omega), int_two u (by omega), int_two u (by omega)]
  rfl

omit hw in
/-- A year takes four digits in one way. -/
theorem head?_year {n : Nat} (hn : n < 10000) (ds : List Directive) (s : List Char) :
    (sequenceMatches ((Directive.year :: ds).map (Directive.piece u)) (four n ++ s)).head? =
      (sequenceMatches (ds.map (Directive.piece u)) s).head?.map fun m => (four n :: m.1, m.2) := by
  have hfound : (Directive.year.piece u).found (four n ++ s) = [(four n, s)] := by
    have hhead := found_year u hn s
    have hlength : ((Directive.year.piece u).found (four n ++ s)).length ≤ 1 :=
      List.length_filterMap_le _ _
    obtain ⟨later, hlater⟩ := List.head?_eq_some_iff.mp hhead
    rw [hlater] at hlength ⊢
    rw [List.eq_nil_of_length_eq_zero (Nat.le_zero.mp (Nat.le_of_succ_le_succ hlength))]
  rw [List.map_cons, sequenceMatches, hfound, List.flatMap_singleton, List.head?_map]

/-- Five directives cannot share the four digits behind a year. -/
theorem strptime_second_date : strptime u zone "%Y%m%d%H%M%S" w.dateText = none := by
  have hyear := hw.century
  have hnone : sequenceMatches
      ([Directive.month, .day, .hour, .minute, .second].map (Directive.piece u))
      (two w.month ++ two w.day) = [] :=
    sequenceMatches_eq_nil_of_length_lt (takes_compact u (by decide)) (show 4 < 5 by decide)
  have hhead := head?_year u (n := w.year) (by omega) [.month, .day, .hour, .minute, .second]
    (two w.month ++ two w.day)
  rw [hnone] at hhead
  rw [strptime, show directives "%Y%m%d%H%M%S".toList =
    [.year, .month, .day, .hour, .minute, .second] from rfl, WallTime.dateText, hhead]
  rfl

/-- Four directives share the four digits behind a year only in November and in December: there the
first digits of the month and of the day stand for a month and a day. -/
theorem strptime_minute_date : strptime u zone "%Y%m%d%H%M" w.dateText =
    if w.month = 11 ∨ w.month = 12 then some (w.misread .day, none) else none := by
  have hday := WallTime.day_le hw.valid
  have hvalid := WallTime.valid_misread hw.valid .day
  obtain ⟨⟨-, hyear⟩, hmonth, ⟨hfirst, -⟩, -⟩ := hw.valid
  have htens : w.month / 10 < 10 := by omega
  have hones : w.month % 10 < 10 := by omega
  have hdtens : w.day / 10 < 10 := by omega
  have hdones : w.day % 10 < 10 := by omega
  have hhead := head?_year u (n := w.year) (by omega) [.month, .day, .hour, .minute]
    (two w.month ++ two w.day)
  have htight := head?_of_length_eq
    (takes_compact u (by decide : ∀ d ∈ [Directive.month, .day, .hour, .minute],
      d ∈ [Directive.year, .month, .day, .hour, .minute, .second]))
    (s := two w.month ++ two w.day) rfl
  rw [htight] at hhead
  -- One digit is a month from 1 on, and a day from 1 on; an hour and a minute may be 0.
  have hsingle : (∀ m ∈ ([Directive.month, .day, .hour, .minute].map (Directive.piece u)).zip
      (two w.month ++ two w.day), m.1.single m.2 = true) ↔ w.month = 11 ∨ w.month = 12 := by
    simp only [two, List.map_cons, List.map_nil, List.cons_append, List.nil_append,
      List.zip_cons_cons, List.zip_nil_left, List.forall_mem_cons, single_month u htens,
      single_day u hones, single_hour u hdtens, single_minute u hdones, decide_eq_true_eq,
      List.not_mem_nil, false_implies, implies_true, and_true]
    omega
  by_cases hlate : w.month = 11 ∨ w.month = 12
  · rw [if_pos (hsingle.mpr hlate)] at hhead
    rw [if_pos hlate]
    refine strptime_of_head? u zone hhead ?_ hvalid rfl
    show (⟨u.int (four w.year), u.int [digit (w.month / 10)], u.int [digit (w.month % 10)],
      u.int [digit (w.day / 10)], u.int [digit (w.day % 10)], 0, 0⟩ : WallTime) = _
    rw [int_four u (by omega), int_digit u htens, int_digit u hones, int_digit u hdtens,
      int_digit u hdones, WallTime.misread, if_pos hlate, WallTime.mk.injEq]
    omega
  · rw [if_neg fun h => hlate (hsingle.mp h)] at hhead
    rw [if_neg hlate, strptime, show directives "%Y%m%d%H%M".toList =
      [.year, .month, .day, .hour, .minute] from rfl, WallTime.dateText, hhead]
    rfl

/-- What the formats make of a compact timestamp. -/
theorem findSome?_compact (precision : Precision) :
    (datetimeFormats.findSome? fun format =>
      strptime u zone format (w.dateText ++ w.timeText precision)) =
        some (w.misread precision, none) := by
  rw [findSome?_of_digits u zone (hw.digits_dateText.append (hw.digits_timeText precision))]
  cases precision with
  | second =>
    rw [strptime_second u zone hw]
    rfl
  | minute =>
    rw [strptime_minute u zone hw]
    rfl
  | day =>
    rw [WallTime.timeText, List.append_nil, strptime_second_date u zone hw,
      strptime_minute_date u zone hw, strptime_date u zone hw, Option.none_or]
    split
    · rfl
    · rename_i hlate
      rw [WallTime.misread, if_neg hlate]
      rfl

omit hw in
theorem parseSourceDatetime_of_findSome? {s : List Char} {w : WallTime}
    (hclean : u.cleanSourceText 64 (some s) = .ok (some s)) (hlast : s.getLast? ≠ some 'Z')
    (hformats : (datetimeFormats.findSome? fun format => strptime u zone format s) =
      some (w, none)) :
    zone.parseSourceDatetime u (some s) = some <$> zone.unambiguousIsraelLocalTime w := by
  rw [Zone.parseSourceDatetime, hclean]
  simp only [bind, Except.bind]
  rw [if_neg hlast, hformats]

/-- `parse_source_datetime` of a compact timestamp. -/
theorem parseSourceDatetime_compact (precision : Precision) :
    zone.parseSourceDatetime u (some (w.dateText ++ w.timeText precision)) =
      some <$> zone.unambiguousIsraelLocalTime (w.misread precision) := by
  have hdigits := hw.digits_dateText.append (hw.digits_timeText precision)
  have hlength : (w.dateText ++ w.timeText precision).length ≤ 64 := by
    cases precision
    · show 14 ≤ 64
      decide
    · show 12 ≤ 64
      decide
    · show 8 ≤ 64
      decide
  have hne : w.dateText ++ w.timeText precision ≠ [] := by
    simp [WallTime.dateText, four, two]
  -- The text ends in a digit, so the suffix `Z` is not replaced.
  have hlast : (w.dateText ++ w.timeText precision).getLast? ≠ some 'Z' := by
    intro heq
    obtain ⟨n, hn, hZ⟩ := hdigits _ (List.mem_of_getLast? heq)
    have htoNat := congrArg Char.toNat hZ
    rw [toNat_digit hn] at htoNat
    have hcode : 'Z'.toNat = 90 := rfl
    omega
  exact parseSourceDatetime_of_findSome? u zone (cleanSourceText_of_digits u hdigits hne hlength)
    hlast (findSome?_compact u zone hw precision)

end Reading

end Makolet.Domain
