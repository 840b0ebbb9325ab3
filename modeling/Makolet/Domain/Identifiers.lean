import Makolet.Domain.Datetimes

/-!
# GTIN checksums

`is_valid_gtin` of `domain/normalization.py`. The weights alternate between three and one from the
right, so the sum over a whole code, the check digit included, is a multiple of ten exactly when the
code is valid (`isValidGtin_iff`). What the checksum detects and what it is blind to both follow from
how that sum splits at a character.
-/

set_option autoImplicit false

namespace Makolet.Domain

/-! ## The checksum -/

/-- `int` of one ASCII digit. -/
def digitValue (c : Char) : Nat := c.toNat - 48

/-- `value.isascii() and value.isdigit()`, of a text that is not empty. -/
def isDigits (s : List Char) : Bool := s.all (range 0 9)

/-- The lengths of GTIN-8, GTIN-12, GTIN-13 and GTIN-14. -/
def gtinLengths : List Nat := [8, 12, 13, 14]

def gtinWeight (offset : Nat) : Nat := if offset % 2 = 0 then 3 else 1

/-- `checksum_sum` of reversed characters, the first of them at the given offset. -/
def checksumSum : Nat → List Char → Nat
  | _, [] => 0
  | offset, c :: s => digitValue c * gtinWeight offset + checksumSum (offset + 1) s

/-- `is_valid_gtin`. -/
def isValidGtin (value : List Char) : Bool :=
  decide (value.length ∈ gtinLengths) && isDigits value &&
    value.getLast?.any fun last =>
      decide ((10 - checksumSum 0 value.dropLast.reverse % 10) % 10 = digitValue last)

/-! ## Digits -/

theorem range_digit_iff {c : Char} : range 0 9 c = true ↔ 48 ≤ c.toNat ∧ c.toNat ≤ 57 := by
  simp [range]

theorem digitValue_lt {c : Char} (h : range 0 9 c = true) : digitValue c < 10 := by
  obtain ⟨hlo, hhi⟩ := range_digit_iff.mp h
  rw [digitValue]
  omega

/-- A digit is known by its value. -/
theorem digitValue_injective {c d : Char} (hc : range 0 9 c = true) (hd : range 0 9 d = true)
    (h : digitValue c = digitValue d) : c = d := by
  obtain ⟨hc, -⟩ := range_digit_iff.mp hc
  obtain ⟨hd, -⟩ := range_digit_iff.mp hd
  rw [digitValue, digitValue] at h
  have hnat : c.toNat = d.toNat := by omega
  exact Char.toNat_inj.mp hnat

theorem digit_spec : ∀ n < 10, range 0 9 (digit n) = true ∧ digitValue (digit n) = n := by
  decide

/-! ## Sums -/

theorem gtinWeight_cases (offset : Nat) : gtinWeight offset = 3 ∨ gtinWeight offset = 1 := by
  unfold gtinWeight
  split
  · exact .inl rfl
  · exact .inr rfl

theorem checksumSum_append (offset : Nat) (s t : List Char) :
    checksumSum offset (s ++ t) = checksumSum offset s + checksumSum (offset + s.length) t := by
  induction s generalizing offset with
  | nil => simp [checksumSum]
  | cons c s ih =>
    rw [List.cons_append, checksumSum, checksumSum, ih, List.length_cons]
    rw [show offset + 1 + s.length = offset + (s.length + 1) by omega]
    omega

theorem checksumSum_zeros (offset n : Nat) : checksumSum offset (List.replicate n '0') = 0 := by
  induction n generalizing offset with
  | zero => rfl
  | succ n ih =>
    rw [List.replicate_succ, checksumSum, ih]
    simp [digitValue]

/-- The sum over a whole code, whose check digit has the weight one. -/
def gtinSum (value : List Char) : Nat := checksumSum 1 value.reverse

theorem gtinSum_concat (s : List Char) (last : Char) :
    gtinSum (s ++ [last]) = digitValue last + checksumSum 0 s.reverse := by
  -- Offsets count modulo two only.
  have hshift : ∀ (t : List Char) (offset : Nat), checksumSum (offset + 2) t = checksumSum offset t := by
    intro t
    induction t with
    | nil => exact fun _ => rfl
    | cons c t ih =>
      intro offset
      have hnext := ih (offset + 1)
      have hweight : gtinWeight (offset + 2) = gtinWeight offset := by
        rw [gtinWeight, Nat.add_mod_right, gtinWeight]
      rw [checksumSum, checksumSum, hweight, show offset + 2 + 1 = offset + 1 + 2 by omega, hnext]
  rw [gtinSum, List.reverse_append, List.reverse_singleton, List.singleton_append, checksumSum,
    hshift, gtinWeight]
  simp

/-- Where a character stands, the sum splits into its own share and that of the others. -/
theorem gtinSum_split (s t : List Char) (c : Char) :
    gtinSum (s ++ c :: t) =
      gtinSum t + digitValue c * gtinWeight (1 + t.length) + checksumSum (2 + t.length) s.reverse := by
  rw [gtinSum, List.reverse_append, List.reverse_cons, List.append_assoc, List.singleton_append,
    checksumSum_append, checksumSum, List.length_reverse, ← gtinSum,
    show 1 + t.length + 1 = 2 + t.length by omega]
  omega

/-! ## Valid codes -/

/-- A text of a GTIN length, made of digits, is valid when its sum is a multiple of ten. -/
theorem isValidGtin_iff {value : List Char} :
    isValidGtin value = true ↔
      value.length ∈ gtinLengths ∧ isDigits value = true ∧ gtinSum value % 10 = 0 := by
  rw [isValidGtin, Bool.and_eq_true, Bool.and_eq_true, decide_eq_true_iff, and_assoc]
  refine and_congr_right fun hlength => and_congr_right fun hdigits => ?_
  rcases List.eq_nil_or_concat value with rfl | ⟨s, last, rfl⟩
  · revert hlength
    decide
  · rw [List.concat_eq_append] at hdigits ⊢
    have hlast : digitValue last < 10 := digitValue_lt (List.all_eq_true.mp hdigits last (by simp))
    rw [List.getLast?_concat, List.dropLast_concat, Option.any_some, decide_eq_true_iff,
      gtinSum_concat]
    omega

theorem isValidGtin_eq_false_of_not_digit {value : List Char} {c : Char} (hc : c ∈ value)
    (h : range 0 9 c = false) : isValidGtin value = false := by
  rw [Bool.eq_false_iff, Ne, isValidGtin_iff]
  rintro ⟨-, hdigits, -⟩
  rw [List.all_eq_true.mp hdigits c hc] at h
  cases h

/-- A code with one character changed is not valid. -/
theorem isValidGtin_changed {s t : List Char} {c d : Char} (h : isValidGtin (s ++ c :: t) = true)
    (hne : d ≠ c) : isValidGtin (s ++ d :: t) = false := by
  cases hd : range 0 9 d with
  | false => exact isValidGtin_eq_false_of_not_digit (by simp) hd
  | true =>
    obtain ⟨-, hdigits, hsum⟩ := isValidGtin_iff.mp h
    have hc : range 0 9 c = true := List.all_eq_true.mp hdigits c (by simp)
    have hvalue : digitValue d ≠ digitValue c := fun heq => hne (digitValue_injective hd hc heq)
    have hclt := digitValue_lt hc
    have hdlt := digitValue_lt hd
    rw [Bool.eq_false_iff, Ne, isValidGtin_iff]
    rintro ⟨-, -, hsum'⟩
    rw [gtinSum_split] at hsum hsum'
    -- Both weights are prime to ten, so the two digits agree modulo ten.
    rcases gtinWeight_cases (1 + t.length) with hweight | hweight
    · rw [hweight] at hsum hsum'
      omega
    · rw [hweight] at hsum hsum'
      omega

/-- One check digit completes a prefix. -/
theorem existsUnique_checkDigit {s : List Char} (hlength : s.length + 1 ∈ gtinLengths)
    (hdigits : isDigits s = true) : ∃! c, isValidGtin (s ++ [c]) = true := by
  have hall : ∀ c, range 0 9 c = true → isDigits (s ++ [c]) = true := by
    intro c hc
    rw [isDigits, List.all_append, ← isDigits, hdigits]
    simp [hc]
  have hlength' : ∀ c : Char, (s ++ [c]).length ∈ gtinLengths := by
    intro c
    rw [List.length_append, List.length_singleton]
    exact hlength
  set n := (10 - checksumSum 0 s.reverse % 10) % 10 with hn
  have hlt : n < 10 := Nat.mod_lt _ (by decide)
  obtain ⟨hdigit, hvalue⟩ := digit_spec n hlt
  refine ⟨digit n, isValidGtin_iff.mpr ⟨hlength' _, hall _ hdigit, ?_⟩, ?_⟩
  · rw [gtinSum_concat, hvalue]
    omega
  · intro c hc
    obtain ⟨-, hc, hsum⟩ := isValidGtin_iff.mp hc
    have hc : range 0 9 c = true := List.all_eq_true.mp hc c (by simp)
    have hclt := digitValue_lt hc
    rw [gtinSum_concat] at hsum
    refine digitValue_injective hc hdigit ?_
    rw [hvalue]
    omega

/-- Zeros on the left do not matter as long as the length is one of a GTIN. -/
theorem isValidGtin_padded {s : List Char} {n : Nat} (hlength : s.length ∈ gtinLengths)
    (hpadded : n + s.length ∈ gtinLengths) :
    isValidGtin (List.replicate n '0' ++ s) = isValidGtin s := by
  have hlength' : (List.replicate n '0' ++ s).length ∈ gtinLengths := by
    rw [List.length_append, List.length_replicate]
    exact hpadded
  have hdigits : isDigits (List.replicate n '0' ++ s) = isDigits s := by
    rw [isDigits, List.all_append, List.all_replicate, isDigits]
    simp [range]
  have hsum : gtinSum (List.replicate n '0' ++ s) = gtinSum s := by
    rw [gtinSum, List.reverse_append, List.reverse_replicate, checksumSum_append,
      checksumSum_zeros, Nat.add_zero, gtinSum]
  rw [Bool.eq_iff_iff, isValidGtin_iff, isValidGtin_iff, hdigits, hsum]
  exact and_congr_left fun _ => iff_of_true hlength' hlength

/-- What the checksum detects, completes and is blind to. -/
theorem gtin_checksum :
    (∀ (value : List Char) (i : Fin value.length) (c : Char), isValidGtin value = true →
      c ≠ value.get i → isValidGtin (value.set i c) = false) ∧
    (∀ s : List Char, s.length ∈ [7, 11, 12, 13] → isDigits s = true →
      ∃! c, isValidGtin (s ++ [c]) = true) ∧
    ∀ (value : List Char) (n : Nat), value.length ∈ gtinLengths →
      n + value.length ∈ gtinLengths →
      isValidGtin (List.replicate n '0' ++ value) = isValidGtin value := by
  refine ⟨?_, ?_, fun value n => isValidGtin_padded⟩
  · intro value i c hvalid hne
    have hsplit : value = value.take i ++ value.get i :: value.drop (i + 1) := by
      rw [List.get_eq_getElem, List.getElem_cons_drop, List.take_append_drop]
    have hset : value.set i c = value.take i ++ c :: value.drop (i + 1) := by
      rw [List.set_eq_take_append_cons_drop, if_pos i.isLt]
    rw [hsplit] at hvalid
    rw [hset]
    exact isValidGtin_changed hvalid hne
  · intro s hlength hdigits
    refine existsUnique_checkDigit ?_ hdigits
    revert hlength
    simp only [gtinLengths, List.mem_cons, List.not_mem_nil, or_false]
    omega

theorem gtin_checksum_sample :
    isValidGtin "7290500066318".toList = false ∧
      (∃! c, isValidGtin ("729000006631".toList ++ [c]) = true) ∧
      isValidGtin "07290000066318".toList = true := by
  have hvalid : isValidGtin "7290000066318".toList = true := by decide
  refine ⟨?_, ?_, ?_⟩
  · exact gtin_checksum.1 "7290000066318".toList ⟨4, by decide⟩ '5' hvalid (by decide)
  · exact gtin_checksum.2.1 _ (by decide) (by decide)
  · exact (gtin_checksum.2.2 "7290000066318".toList 1 (by decide) (by decide)).trans hvalid

end Makolet.Domain
