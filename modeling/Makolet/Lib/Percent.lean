import Makolet.Lib.Bytes

/-!
# Percent encoding

Texts as the octets of their UTF-8, each octet outside a safe set written as `%` and two hexadecimal
digits, and the reading of such texts: escapes that do not decode become the replacement character,
and what is no escape stays. `unquote_percentQuote` is the round trip, and `unquote_eq_self_iff`
says which texts reading leaves alone.
-/

set_option autoImplicit false

namespace Makolet.Lib

/-! ## UTF-8 with replacement -/

def replacement : Char := Char.ofNat 0xFFFD

/-- The decoder within a character: the bits read so far, and the ranges of the octets it still
needs. Between characters it needs none. -/
structure Utf8State where
  value : Nat
  owed : List (Nat × Nat)
  deriving DecidableEq, Repr

namespace Utf8State

def start : Utf8State := ⟨0, []⟩

/-- What an incomplete character becomes. -/
def flush (s : Utf8State) : List Char := if s.owed = [] then [] else [replacement]

/-- The first octet of a character. -/
def first (b : Nat) : List Char × Utf8State :=
  if b < 0x80 then ([Char.ofNat b], start)
  else if 0xC2 ≤ b ∧ b ≤ 0xDF then ([], ⟨b - 0xC0, [(0x80, 0xBF)]⟩)
  else if 0xE0 ≤ b ∧ b ≤ 0xEF then
    ([], ⟨b - 0xE0, [(if b = 0xE0 then 0xA0 else 0x80, if b = 0xED then 0x9F else 0xBF),
      (0x80, 0xBF)]⟩)
  else if 0xF0 ≤ b ∧ b ≤ 0xF4 then
    ([], ⟨b - 0xF0, [(if b = 0xF0 then 0x90 else 0x80, if b = 0xF4 then 0x8F else 0xBF),
      (0x80, 0xBF), (0x80, 0xBF)]⟩)
  else ([replacement], start)

/-- The characters that one octet completes. -/
def step (s : Utf8State) (b : Nat) : List Char × Utf8State :=
  match s.owed with
  | [] => first b
  | (low, high) :: owed =>
      if low ≤ b ∧ b ≤ high then
        let value := 64 * s.value + (b - 0x80)
        if owed = [] then ([Char.ofNat value], start) else ([], ⟨value, owed⟩)
      else
        -- the octets so far are one replacement, and this one begins anew
        (replacement :: (first b).1, (first b).2)

def feed : Utf8State → List Nat → List Char × Utf8State
  | s, [] => ([], s)
  | s, b :: bs => ((s.step b).1 ++ (feed (s.step b).2 bs).1, (feed (s.step b).2 bs).2)

/-- How many characters are under way. -/
def pending (s : Utf8State) : Nat := s.flush.length

@[simp] theorem pending_start : start.pending = 0 := rfl

theorem pending_of_owed {value : Nat} {r : Nat × Nat} {owed : List (Nat × Nat)} :
    (⟨value, r :: owed⟩ : Utf8State).pending = 1 := rfl

theorem length_first_le (b : Nat) : (first b).1.length + (first b).2.pending ≤ 1 := by
  unfold first
  split_ifs <;> simp [pending_of_owed]

/-- An octet makes at most one character more. -/
theorem length_step_le (s : Utf8State) (b : Nat) :
    (s.step b).1.length + (s.step b).2.pending ≤ s.pending + 1 := by
  obtain ⟨value, owed⟩ := s
  have hfirst := length_first_le b
  cases owed with
  | nil =>
    have hpending : (⟨value, []⟩ : Utf8State).pending = 0 := rfl
    show (first b).1.length + (first b).2.pending ≤ _
    omega
  | cons r owed =>
    rw [pending_of_owed]
    unfold step
    dsimp only
    split_ifs with hrange hlast
    · simp
    · cases owed with
      | nil => exact absurd rfl hlast
      | cons r' owed =>
        rw [pending_of_owed]
        simp
    · show (replacement :: (first b).1).length + (first b).2.pending ≤ 1 + 1
      rw [List.length_cons]
      omega

theorem step_start (b : Nat) : start.step b = first b := rfl

theorem step_last {value low high b : Nat} (hlow : low ≤ b) (hhigh : b ≤ high) :
    (⟨value, [(low, high)]⟩ : Utf8State).step b =
      ([Char.ofNat (64 * value + (b - 0x80))], start) := by
  rw [step]
  dsimp only
  rw [if_pos ⟨hlow, hhigh⟩, if_pos rfl]

theorem step_more {value low high b : Nat} {r : Nat × Nat} {owed : List (Nat × Nat)}
    (hlow : low ≤ b) (hhigh : b ≤ high) :
    (⟨value, (low, high) :: r :: owed⟩ : Utf8State).step b =
      ([], ⟨64 * value + (b - 0x80), r :: owed⟩) := by
  rw [step]
  dsimp only
  rw [if_pos ⟨hlow, hhigh⟩, if_neg (List.cons_ne_nil _ _)]

theorem feed_one {n : Nat} (h : n < 0x80) : start.feed [n] = ([Char.ofNat n], start) := by
  simp [feed, step_start, first, h]

theorem feed_two {n : Nat} (hlow : 0x80 ≤ n) (hhigh : n < 0x800) :
    start.feed [n / 64 % 32 + 0xC0, n % 64 + 0x80] = ([Char.ofNat n], start) := by
  have hfirst : first (n / 64 % 32 + 0xC0) = ([], ⟨n / 64, [(0x80, 0xBF)]⟩) := by
    have hbits : n / 64 % 32 + 0xC0 - 0xC0 = n / 64 := by omega
    rw [first, if_neg (by omega), if_pos (by omega), hbits]
  have hvalue : 64 * (n / 64) + (n % 64 + 0x80 - 0x80) = n := by omega
  simp only [feed, step_start, hfirst]
  rw [step_last (by omega) (by omega), hvalue]
  rfl

theorem feed_three {n : Nat} (hlow : 0x800 ≤ n) (hhigh : n < 0x10000)
    (hvalid : n < 0xD800 ∨ 0xDFFF < n) :
    start.feed [n / 4096 % 16 + 0xE0, n / 64 % 64 + 0x80, n % 64 + 0x80] =
      ([Char.ofNat n], start) := by
  obtain ⟨low, high, hfirst, hfrom, hto⟩ : ∃ low high,
      first (n / 4096 % 16 + 0xE0) = ([], ⟨n / 4096, [(low, high), (0x80, 0xBF)]⟩) ∧
        low ≤ n / 64 % 64 + 0x80 ∧ n / 64 % 64 + 0x80 ≤ high := by
    have hbits : n / 4096 % 16 + 0xE0 - 0xE0 = n / 4096 := by omega
    refine ⟨if n / 4096 % 16 + 0xE0 = 0xE0 then 0xA0 else 0x80,
      if n / 4096 % 16 + 0xE0 = 0xED then 0x9F else 0xBF, ?_, ?_, ?_⟩
    · rw [first, if_neg (by omega), if_neg (by omega), if_pos (by omega), hbits]
    · split_ifs <;> omega
    · split_ifs <;> omega
  have hsecond : 64 * (n / 4096) + (n / 64 % 64 + 0x80 - 0x80) = n / 64 := by omega
  have hvalue : 64 * (n / 64) + (n % 64 + 0x80 - 0x80) = n := by omega
  simp only [feed, step_start, hfirst]
  rw [step_more hfrom hto, hsecond]
  dsimp only
  rw [step_last (by omega) (by omega), hvalue]
  rfl

theorem feed_four {n : Nat} (hlow : 0x10000 ≤ n) (hhigh : n < 0x110000) :
    start.feed [n / 262144 % 8 + 0xF0, n / 4096 % 64 + 0x80, n / 64 % 64 + 0x80, n % 64 + 0x80] =
      ([Char.ofNat n], start) := by
  obtain ⟨low, high, hfirst, hfrom, hto⟩ : ∃ low high,
      first (n / 262144 % 8 + 0xF0) =
          ([], ⟨n / 262144, [(low, high), (0x80, 0xBF), (0x80, 0xBF)]⟩) ∧
        low ≤ n / 4096 % 64 + 0x80 ∧ n / 4096 % 64 + 0x80 ≤ high := by
    have hbits : n / 262144 % 8 + 0xF0 - 0xF0 = n / 262144 := by omega
    refine ⟨if n / 262144 % 8 + 0xF0 = 0xF0 then 0x90 else 0x80,
      if n / 262144 % 8 + 0xF0 = 0xF4 then 0x8F else 0xBF, ?_, ?_, ?_⟩
    · rw [first, if_neg (by omega), if_neg (by omega), if_neg (by omega), if_pos (by omega), hbits]
    · split_ifs <;> omega
    · split_ifs <;> omega
  have hsecond : 64 * (n / 262144) + (n / 4096 % 64 + 0x80 - 0x80) = n / 4096 := by omega
  have hthird : 64 * (n / 4096) + (n / 64 % 64 + 0x80 - 0x80) = n / 64 := by omega
  have hvalue : 64 * (n / 64) + (n % 64 + 0x80 - 0x80) = n := by omega
  simp only [feed, step_start, hfirst]
  rw [step_more hfrom hto, hsecond]
  dsimp only
  rw [step_more (by omega) (by omega), hthird]
  dsimp only
  rw [step_last (by omega) (by omega), hvalue]
  rfl

/-- The octets of a character are read as that character. -/
theorem feed_utf8EncodeChar (c : Char) :
    start.feed ((String.utf8EncodeChar c).map UInt8.toNat) = ([c], start) := by
  have hvalid : c.val.toNat < 0xD800 ∨ 0xDFFF < c.val.toNat ∧ c.val.toNat < 0x110000 := c.valid
  have hchar : Char.ofNat c.val.toNat = c := Char.ofNat_toNat c
  rw [String.utf8EncodeChar]
  generalize hn : c.val.toNat = n at hvalid hchar
  rw [← hchar]
  split_ifs with hone htwo hthree
  · have hbyte : (UInt8.ofNat n).toNat = n := toNat_ofNat_of_lt (by omega)
    rw [List.map_cons, List.map_nil, hbyte, feed_one (by omega)]
  · simp only [List.map_cons, List.map_nil]
    rw [toNat_ofNat_of_lt (by omega), toNat_ofNat_of_lt (by omega), feed_two (by omega) (by omega)]
  · simp only [List.map_cons, List.map_nil]
    rw [toNat_ofNat_of_lt (by omega), toNat_ofNat_of_lt (by omega), toNat_ofNat_of_lt (by omega),
      feed_three (by omega) (by omega) (by omega)]
  · simp only [List.map_cons, List.map_nil]
    rw [toNat_ofNat_of_lt (by omega), toNat_ofNat_of_lt (by omega), toNat_ofNat_of_lt (by omega),
      toNat_ofNat_of_lt (by omega), feed_four (by omega) (by omega)]

end Utf8State

/-! ## Escapes -/

/-- The value of a hexadecimal digit. -/
def hexValue (c : Char) : Option Nat :=
  if '0' ≤ c ∧ c ≤ '9' then some (c.toNat - 48)
  else if 'A' ≤ c ∧ c ≤ 'F' then some (c.toNat - 55)
  else if 'a' ≤ c ∧ c ≤ 'f' then some (c.toNat - 87)
  else none

/-- The octet of the escape that a text starts with. -/
def escapeAt : List Char → Option Nat
  | c :: a :: b :: _ =>
      if c = '%' then
        match hexValue a, hexValue b with
        | some x, some y => some (16 * x + y)
        | _, _ => none
      else none
  | _ => none

def hasEscape : List Char → Bool
  | [] => false
  | c :: cs => (escapeAt (c :: cs)).isSome || hasEscape cs

/-- The reading of a text within which `skip` characters belong to the last escape. A character
outside ASCII ends the octets before it. -/
def unquoteFrom : Nat → Utf8State → List Char → List Char
  | _, s, [] => s.flush
  | skip + 1, s, _ :: cs => unquoteFrom skip s cs
  | 0, s, c :: cs =>
      match escapeAt (c :: cs) with
      | some b => (s.step b).1 ++ unquoteFrom 2 (s.step b).2 cs
      | none =>
          if c.toNat < 0x80 then (s.step c.toNat).1 ++ unquoteFrom 0 (s.step c.toNat).2 cs
          else s.flush ++ c :: unquoteFrom 0 .start cs

/-- `urllib.parse.unquote`. -/
def unquote (s : List Char) : List Char := if '%' ∈ s then unquoteFrom 0 .start s else s

def upperHexDigit (n : Nat) : Char := "0123456789ABCDEF".toList.getD n '0'

/-- The characters that `quote` never escapes. -/
def alwaysSafe (c : Char) : Bool :=
  decide (c.toNat < 0x80) && (c.isAlphanum || c ∈ ['_', '.', '-', '~'])

def escapeByte (b : UInt8) : List Char :=
  ['%', upperHexDigit (b.toNat / 16), upperHexDigit (b.toNat % 16)]

def quoteChar (safe : List Char) (c : Char) : List Char :=
  if alwaysSafe c ∨ c ∈ safe then [c] else (String.utf8EncodeChar c).flatMap escapeByte

/-- `urllib.parse.quote`, over safe characters in ASCII. -/
def percentQuote (safe s : List Char) : List Char := s.flatMap (quoteChar safe)

theorem escapeAt_length {c : Char} {cs : List Char} {b : Nat} (h : escapeAt (c :: cs) = some b) :
    2 ≤ cs.length := by
  cases cs with
  | nil => simp [escapeAt] at h
  | cons a cs =>
    cases cs with
    | nil => simp [escapeAt] at h
    | cons b cs => simp

theorem escapeAt_eq_none_of_ne {c : Char} (h : c ≠ '%') (cs : List Char) :
    escapeAt (c :: cs) = none := by
  cases cs with
  | nil => rfl
  | cons a cs =>
    cases cs with
    | nil => rfl
    | cons b cs => rw [escapeAt, if_neg h]

/-- Reading makes no text longer. -/
theorem length_unquoteFrom_le (skip : Nat) (s : Utf8State) (cs : List Char)
    (hskip : skip ≤ cs.length) :
    (unquoteFrom skip s cs).length + skip ≤ s.pending + cs.length := by
  induction cs generalizing skip s with
  | nil =>
    have hzero : skip = 0 := by simpa using hskip
    subst hzero
    simp [unquoteFrom, Utf8State.pending]
  | cons c cs ih =>
    rw [List.length_cons] at hskip ⊢
    cases skip with
    | succ skip =>
      have := ih skip s (by omega)
      rw [unquoteFrom]
      omega
    | zero =>
      rw [unquoteFrom]
      cases hescape : escapeAt (c :: cs) with
      | some b =>
        have hlength := escapeAt_length hescape
        have := ih 2 (s.step b).2 hlength
        have := s.length_step_le b
        simp only [List.length_append]
        omega
      | none =>
        dsimp only
        split_ifs with hascii
        · have := ih 0 (s.step c.toNat).2 (Nat.zero_le _)
          have := s.length_step_le c.toNat
          simp only [List.length_append]
          omega
        · have := ih 0 .start (Nat.zero_le _)
          rw [Utf8State.pending_start] at this
          simp only [List.length_append, List.length_cons, Utf8State.pending]
          omega

/-- An escape that is read makes the text shorter. -/
theorem length_unquoteFrom_lt (s : Utf8State) (cs : List Char) (h : hasEscape cs = true) :
    (unquoteFrom 0 s cs).length < s.pending + cs.length := by
  induction cs generalizing s with
  | nil => simp [hasEscape] at h
  | cons c cs ih =>
    rw [unquoteFrom, List.length_cons]
    cases hescape : escapeAt (c :: cs) with
    | some b =>
      have := length_unquoteFrom_le 2 (s.step b).2 cs (escapeAt_length hescape)
      have := s.length_step_le b
      simp only [List.length_append]
      omega
    | none =>
      have hrest : hasEscape cs = true := by simpa [hasEscape, hescape] using h
      dsimp only
      split_ifs with hascii
      · have := ih (s.step c.toNat).2 hrest
        have := s.length_step_le c.toNat
        simp only [List.length_append]
        omega
      · have := ih .start hrest
        rw [Utf8State.pending_start] at this
        simp only [List.length_append, List.length_cons, Utf8State.pending]
        omega

theorem step_ascii {c : Char} (h : c.toNat < 0x80) :
    Utf8State.start.step c.toNat = ([c], .start) := by
  rw [Utf8State.step_start, Utf8State.first, if_pos h, Char.ofNat_toNat]

theorem unquoteFrom_of_hasEscape_eq_false (cs : List Char) (h : hasEscape cs = false) :
    unquoteFrom 0 .start cs = cs := by
  induction cs with
  | nil => rfl
  | cons c cs ih =>
    rw [hasEscape, Bool.or_eq_false_iff, Option.isSome_eq_false_iff, Option.isNone_iff_eq_none] at h
    rw [unquoteFrom, h.1]
    dsimp only
    split_ifs with hascii
    · rw [step_ascii hascii, ih h.2]
      rfl
    · rw [ih h.2]
      rfl

theorem hasEscape_eq_false_of_not_mem {cs : List Char} (h : '%' ∉ cs) : hasEscape cs = false := by
  induction cs with
  | nil => rfl
  | cons c cs ih =>
    rw [List.mem_cons, not_or] at h
    rw [hasEscape, escapeAt_eq_none_of_ne (Ne.symm h.1), ih h.2]
    rfl

theorem unquote_eq_unquoteFrom (s : List Char) : unquote s = unquoteFrom 0 .start s := by
  rw [unquote]
  split_ifs with h
  · rfl
  · exact (unquoteFrom_of_hasEscape_eq_false s (hasEscape_eq_false_of_not_mem h)).symm

/-- Reading leaves exactly the texts without an escape alone. -/
theorem unquote_eq_self_iff (s : List Char) : unquote s = s ↔ hasEscape s = false := by
  rw [unquote_eq_unquoteFrom]
  refine ⟨fun h => ?_, unquoteFrom_of_hasEscape_eq_false s⟩
  by_contra hescape
  have hlt := length_unquoteFrom_lt .start s (by simpa using hescape)
  rw [h, Utf8State.pending_start] at hlt
  omega

/-! ## The round trip -/

theorem hexValue_upperHexDigit : ∀ n < 16, hexValue (upperHexDigit n) = some n := by decide

theorem unquoteFrom_escapeByte (s : Utf8State) (b : UInt8) (cs : List Char) :
    unquoteFrom 0 s (escapeByte b ++ cs) =
      (s.step b.toNat).1 ++ unquoteFrom 0 (s.step b.toNat).2 cs := by
  have hb : b.toNat < 256 := b.toNat_lt
  have hescape : escapeAt (escapeByte b ++ cs) = some b.toNat := by
    have hhigh := hexValue_upperHexDigit (b.toNat / 16) (by omega)
    have hlow := hexValue_upperHexDigit (b.toNat % 16) (by omega)
    simp only [escapeByte, List.cons_append, List.nil_append, escapeAt, hhigh, hlow, if_pos]
    congr 1
    omega
  simp only [escapeByte, List.cons_append, List.nil_append] at hescape ⊢
  rw [unquoteFrom, hescape]
  rfl

theorem unquoteFrom_escapeBytes (s : Utf8State) (bytes : Bytes) (cs : List Char) :
    unquoteFrom 0 s (bytes.flatMap escapeByte ++ cs) =
      (s.feed (bytes.map UInt8.toNat)).1 ++
        unquoteFrom 0 (s.feed (bytes.map UInt8.toNat)).2 cs := by
  induction bytes generalizing s with
  | nil => rfl
  | cons b bytes ih =>
    rw [List.flatMap_cons, List.append_assoc, unquoteFrom_escapeByte, ih]
    simp only [List.map_cons, Utf8State.feed, List.append_assoc]

theorem unquoteFrom_quoteChar {safe : List Char} (hsafe : ∀ c ∈ safe, c.toNat < 0x80 ∧ c ≠ '%')
    (c : Char) (cs : List Char) :
    unquoteFrom 0 .start (quoteChar safe c ++ cs) = c :: unquoteFrom 0 .start cs := by
  rw [quoteChar]
  split_ifs with h
  · have hplain : c.toNat < 0x80 ∧ c ≠ '%' := by
      rcases h with h | h
      · refine ⟨?_, ?_⟩
        · simp only [alwaysSafe, Bool.and_eq_true, decide_eq_true_eq] at h
          exact h.1
        · rintro rfl
          exact absurd h (by decide)
      · exact hsafe c h
    rw [List.singleton_append, unquoteFrom, escapeAt_eq_none_of_ne hplain.2]
    dsimp only
    rw [if_pos hplain.1, step_ascii hplain.1]
    rfl
  · rw [unquoteFrom_escapeBytes, Utf8State.feed_utf8EncodeChar]
    rfl

/-- What is quoted is read back. -/
theorem unquote_percentQuote {safe : List Char} (hsafe : ∀ c ∈ safe, c.toNat < 0x80 ∧ c ≠ '%')
    (s : List Char) : unquote (percentQuote safe s) = s := by
  rw [unquote_eq_unquoteFrom]
  induction s with
  | nil => rfl
  | cons c s ih =>
    rw [percentQuote, List.flatMap_cons, unquoteFrom_quoteChar hsafe]
    exact congrArg (c :: ·) ih

theorem percentQuote_append (safe s t : List Char) :
    percentQuote safe (s ++ t) = percentQuote safe s ++ percentQuote safe t := List.flatMap_append

theorem percentQuote_cons_of_mem {safe : List Char} {c : Char} (h : c ∈ safe) (s : List Char) :
    percentQuote safe (c :: s) = c :: percentQuote safe s := by
  rw [percentQuote, List.flatMap_cons, quoteChar, if_pos (Or.inr h)]
  rfl

/-- The characters of a quoted text: those of the text that need no escape, and those of escapes. -/
theorem mem_percentQuote {safe s : List Char} {c : Char} (h : c ∈ percentQuote safe s) :
    c ∈ s ∧ (alwaysSafe c = true ∨ c ∈ safe) ∨ c = '%' ∨ ∃ n < 16, c = upperHexDigit n := by
  obtain ⟨d, hd, hmem⟩ := List.mem_flatMap.1 h
  rw [quoteChar] at hmem
  split_ifs at hmem with hsafe
  · rw [List.mem_singleton] at hmem
    subst hmem
    exact Or.inl ⟨hd, hsafe⟩
  · obtain ⟨b, -, hbyte⟩ := List.mem_flatMap.1 hmem
    have hb : b.toNat < 256 := b.toNat_lt
    simp only [escapeByte, List.mem_cons, List.not_mem_nil, or_false] at hbyte
    rcases hbyte with rfl | rfl | rfl
    · exact Or.inr (Or.inl rfl)
    · exact Or.inr (Or.inr ⟨_, by omega, rfl⟩)
    · exact Or.inr (Or.inr ⟨_, by omega, rfl⟩)

end Makolet.Lib
