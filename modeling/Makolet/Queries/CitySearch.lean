import Makolet.Lib.Spacing
import Makolet.Domain.Quantities

/-!
# City search

A city is searched by a normalized text, which is computed twice: `normalize_search_text` of
`domain/normalization.py` normalizes the spelling that is looked up, and the expression of the column
`city_search` of `persistence/schema.py` the spelling that is stored. Both squeeze the text, but they
read its characters differently: Python folds the case and drops marks, PostgreSQL keeps every
character that is neither punctuation nor a space.
-/

set_option autoImplicit false

namespace Makolet.Queries

open Makolet.Domain (Unicode Failure)
open Makolet.Lib.Spacing

/-! ## The two texts -/

/-- The first letter of a general category. -/
inductive MajorCategory
  | letter
  | mark
  | number
  | punctuation
  | symbol
  | separator
  | other
  deriving DecidableEq, Repr

/-- The tables of Python, and `lower` and the POSIX classes of PostgreSQL, character by
character. -/
structure SearchTables extends Unicode where
  casefold : Char → List Char
  category : Char → MajorCategory
  lower : Char → Char
  isPunct : Char → Bool
  isPosixSpace : Char → Bool
  space : isSpace ' ' = true
  kept_not_space : ∀ c, category c = .letter ∨ category c = .number → isSpace c = false
  posixSpace : isPosixSpace ' ' = true
  lower_space : ∀ c, lower c = ' ' ↔ c = ' '
  /-- What is a letter in lower case has a letter in its folding. -/
  lower_kept : ∀ c, category (lower c) = .letter ∨ category (lower c) = .number →
    ∃ d ∈ casefold c, category d = .letter ∨ category d = .number
  /-- A folding with a letter has no punctuation. -/
  casefold_kept : ∀ c, ∀ d ∈ casefold c, category d = .letter ∨ category d = .number →
    ∀ e ∈ casefold c, category e ≠ .punctuation ∧ category e ≠ .symbol ∧
      category e ≠ .separator ∧ isSpace e = false

namespace SearchTables

variable (t : SearchTables)

def isKept (c : Char) : Bool := t.category c = .letter || t.category c = .number

def isBlank (c : Char) : Bool :=
  t.category c = .punctuation || t.category c = .symbol || t.category c = .separator || t.isSpace c

/-- One turn of the loop of `normalize_search_text`. -/
def readCharacter (c : Char) : List Char :=
  if t.isKept c then [c] else if t.isBlank c then [' '] else []

/-- `normalize_search_text`. -/
def normalizeSearchText (value : List Char) : List Char :=
  let normalized := (t.nfkc value).flatMap t.casefold
  t.toUnicode.strip (t.toUnicode.collapse false (normalized.flatMap t.readCharacter))

/-- `[[:punct:][:space:]]`. -/
def isSeparator (c : Char) : Bool := t.isPunct c || t.isPosixSpace c

/-- The column `city_search`. -/
def citySearch (city : List Char) : List Char :=
  strip (fun c => c = ' ') ((collapse ' ' t.isSeparator false (t.nfkc city)).map t.lower)

def minimumSearchQueryLength : Nat := 3

def maximumQueryLength : Nat := 256

/-- `_required_search_query`. -/
def requiredSearchQuery (query : List Char) : Except Failure (List Char) :=
  let normalized := t.normalizeSearchText query
  if normalized = [] then
    .error ⟨.domainValidation, "query must contain searchable letters or digits", 0⟩
  else if normalized.length < minimumSearchQueryLength then
    .error ⟨.queryLimit, "query must contain at least 3 searchable characters", 0⟩
  else if maximumQueryLength < normalized.length then
    .error ⟨.queryLimit, "query exceeds 256 characters", 0⟩
  else .ok normalized

/-- The predicate of `find_stores` for a city, on a store in the stored city. -/
def findsCity (city stored : List Char) : Except Failure Bool :=
  (t.requiredSearchQuery city).map fun normalized => decide (t.citySearch stored = normalized)

/-! ## Both are squeezed -/

/-- What Python reads a character of the folded text as. -/
def readFolded (d : Char) : List (Option Char) :=
  if t.isKept d then [some d] else if t.isBlank d then [none] else []

/-- What Python reads a character as. -/
def pieces (c : Char) : List (Option Char) := (t.casefold c).flatMap t.readFolded

/-- What PostgreSQL reads a character as. -/
def readStored (c : Char) : Option Char := if t.isSeparator c then none else some (t.lower c)

variable {t}

theorem isKept_iff {c : Char} :
    t.isKept c = true ↔ t.category c = .letter ∨ t.category c = .number := by
  simp [isKept]

theorem isSpace_of_isKept {c : Char} (h : t.isKept c = true) : t.isSpace c = false :=
  t.kept_not_space c (isKept_iff.1 h)

theorem isBlank_of_isKept {c d : Char} (hd : d ∈ t.casefold c) (hkept : t.isKept d = true)
    {e : Char} (he : e ∈ t.casefold c) : t.isBlank e = false := by
  obtain ⟨hpunctuation, hsymbol, hseparator, hspace⟩ :=
    t.casefold_kept c d hd (isKept_iff.1 hkept) e he
  simp [isBlank, hpunctuation, hsymbol, hseparator, hspace]

theorem isSeparator_space : t.isSeparator ' ' = true := by
  rw [isSeparator, t.posixSpace, Bool.or_true]

theorem collapse_eq (run : Bool) (s : List Char) :
    t.toUnicode.collapse run s = collapse ' ' t.isSpace run s := by
  induction s generalizing run with
  | nil => rfl
  | cons c s ih =>
    rw [Unicode.collapse, collapse, ih, ih]

theorem normalizeSearchText_eq (value : List Char) :
    t.normalizeSearchText value = squeezed ' ' ((t.nfkc value).flatMap t.pieces) := by
  have hreads : Reads t.isSpace ' ' id fun c => if t.isSpace c then none else some c :=
    ⟨fun c hc => if_pos hc, fun c hc => if_neg (by simp [hc])⟩
  have hread : ∀ d : Char, (t.readCharacter d).map (fun c => if t.isSpace c then none else some c) =
      t.readFolded d := by
    intro d
    rw [readCharacter, readFolded]
    cases hkept : t.isKept d with
    | true => simp [isSpace_of_isKept hkept]
    | false => cases hblank : t.isBlank d <;> simp [t.space]
  rw [normalizeSearchText, collapse_eq]
  show strip t.isSpace _ = _
  rw [← List.map_id (collapse _ _ _ _), strip_collapse hreads t.space rfl _ fun c _ hc => hc,
    List.map_flatMap, List.flatMap_assoc]
  refine congrArg _ (List.flatMap_congr fun c _ => ?_)
  exact List.flatMap_congr fun d _ => hread d

theorem citySearch_eq (city : List Char) :
    t.citySearch city = squeezed ' ' ((t.nfkc city).map t.readStored) := by
  have hreads : Reads t.isSeparator ' ' t.lower t.readStored :=
    ⟨fun c hc => if_pos hc, fun c hc => if_neg (by simp [hc])⟩
  have hlower : t.lower ' ' = ' ' := (t.lower_space ' ').2 rfl
  rw [citySearch]
  refine strip_collapse hreads (by simp [hlower]) hlower _ fun c _ hc => ?_
  refine decide_eq_false fun hblank => ?_
  rw [(t.lower_space c).1 hblank, isSeparator_space] at hc
  cases hc

/-! ## Where they agree -/

variable (t)

/-- A spelling that both read alike: what PostgreSQL keeps of it is folded to the same letter, what
it separates at has no letter, and a run that separates two letters has a blank. -/
structure SpelledAlike (city : List Char) : Prop where
  letters : ∀ c ∈ t.nfkc city, t.isSeparator c = false →
    (t.casefold c).filter t.isKept = [t.lower c]
  separators : ∀ c ∈ t.nfkc city, t.isSeparator c = true → (t.casefold c).filter t.isKept = []
  runs : ∀ before x run y after, t.nfkc city = before ++ x :: (run ++ y :: after) →
    t.isSeparator x = false → t.isSeparator y = false → (∀ c ∈ run, t.isSeparator c = true) →
      run ≠ [] → ∃ c ∈ run, ∃ d ∈ t.casefold c, t.isBlank d = true

/-- The length of the search text of a spelling that both read alike: the characters that are no
separators, and a blank between two words of them. -/
def searchLength (city : List Char) : Nat :=
  (t.nfkc city).countP (fun c => !t.isSeparator c) +
    (wordStarts t.isSeparator true (t.nfkc city) - 1)

variable {t}

/-- The letters of the pieces of a character. -/
theorem filterMap_pieces (c : Char) :
    (t.pieces c).filterMap id = (t.casefold c).filter t.isKept := by
  rw [pieces]
  induction t.casefold c with
  | nil => rfl
  | cons d ds ih =>
    rw [List.flatMap_cons, List.filterMap_append, ih, readFolded]
    cases hkept : t.isKept d with
    | true => simp [hkept]
    | false => cases hblank : t.isBlank d <;> simp [hkept]

/-- A folding with a letter has letters only. -/
theorem pieces_of_kept {c : Char} (h : (t.casefold c).filter t.isKept ≠ []) :
    t.pieces c = ((t.casefold c).filter t.isKept).map some := by
  obtain ⟨d, hd⟩ := List.exists_mem_of_ne_nil _ h
  obtain ⟨hd, hkept⟩ := List.mem_filter.1 hd
  have hblank : ∀ e ∈ t.casefold c, t.isBlank e = false := fun e he =>
    isBlank_of_isKept hd hkept he
  rw [pieces]
  clear hd h
  generalize t.casefold c = folded at hblank
  induction folded with
  | nil => rfl
  | cons e es ih =>
    rw [List.flatMap_cons, ih fun e' he' => hblank e' (List.mem_cons_of_mem e he'), readFolded,
      hblank e List.mem_cons_self]
    cases hkept' : t.isKept e <;> simp [hkept']

/-- Without a letter the pieces are gaps, one for every blank. -/
theorem pieces_of_not_kept {c : Char} (h : (t.casefold c).filter t.isKept = []) :
    (∀ x ∈ t.pieces c, x = none) ∧
      (t.pieces c ≠ [] ↔ ∃ d ∈ t.casefold c, t.isBlank d = true) := by
  have hkept : ∀ d ∈ t.casefold c, t.isKept d = false := by
    intro d hd
    exact Bool.eq_false_iff.2 (List.filter_eq_nil_iff.1 h d hd)
  constructor
  · intro x hx
    obtain ⟨d, hd, hx⟩ := List.mem_flatMap.1 hx
    rw [readFolded, hkept d hd] at hx
    cases hblank : t.isBlank d with
    | true => simpa [hblank] using hx
    | false => simp [hblank] at hx
  · constructor
    · intro hne
      obtain ⟨x, hx⟩ := List.exists_mem_of_ne_nil _ hne
      obtain ⟨d, hd, hx⟩ := List.mem_flatMap.1 hx
      refine ⟨d, hd, ?_⟩
      by_contra hblank
      rw [readFolded, hkept d hd] at hx
      simp [hblank] at hx
    · rintro ⟨d, hd, hblank⟩ hnil
      have hmem : (none : Option Char) ∈ t.pieces c := by
        refine List.mem_flatMap.2 ⟨d, hd, ?_⟩
        simp [readFolded, hkept d hd, hblank]
      rw [hnil] at hmem
      cases hmem

/-- The letters are the same in every character. -/
def SameLetters (t : SearchTables) (city : List Char) : Prop :=
  ∀ c ∈ t.nfkc city,
    (t.casefold c).filter t.isKept = if t.isSeparator c then [] else [t.lower c]

theorem sameLetters_of_eq {city : List Char}
    (h : letterGaps ((t.nfkc city).flatMap t.pieces) =
      letterGaps ((t.nfkc city).map t.readStored)) : SameLetters t city := by
  have hletters : (t.nfkc city).flatMap (fun c => (t.casefold c).filter t.isKept) =
      (t.nfkc city).flatMap fun c => if t.isSeparator c then [] else [t.lower c] := by
    have hmap := congrArg (List.map Prod.fst) h
    rw [map_fst_letterGaps, map_fst_letterGaps, List.filterMap_flatMap, List.filterMap_map] at hmap
    rw [List.flatMap_congr fun c _ => (filterMap_pieces c).symm, hmap]
    induction t.nfkc city with
    | nil => rfl
    | cons c s ih =>
      rw [List.flatMap_cons, ← ih]
      cases hseparator : t.isSeparator c <;> simp [readStored, hseparator]
  refine (flatMap_eq_iff fun heq c hc => ?_).1 hletters
  cases hseparator : t.isSeparator c with
  | true => exact Nat.zero_le _
  | false =>
    -- What PostgreSQL keeps is a letter that Python has kept somewhere.
    have hmem : t.lower c ∈ (t.nfkc city).flatMap fun c => (t.casefold c).filter t.isKept := by
      rw [heq]
      exact List.mem_flatMap.2 ⟨c, hc, by simp [hseparator]⟩
    obtain ⟨c', -, hc'⟩ := List.mem_flatMap.1 hmem
    obtain ⟨d, hd, hkept⟩ := t.lower_kept c (isKept_iff.1 (List.mem_filter.1 hc').2)
    exact List.length_pos_of_mem (List.mem_filter.2 ⟨hd, isKept_iff.2 hkept⟩)

theorem SameLetters.pieces {city : List Char} (h : SameLetters t city) :
    Pieces t.isSeparator t.pieces (t.nfkc city) ∧
      ∀ c ∈ t.nfkc city, t.isSeparator c = false → t.pieces c = [some (t.lower c)] := by
  have hletter : ∀ c ∈ t.nfkc city, t.isSeparator c = false →
      t.pieces c = [some (t.lower c)] := by
    intro c hc hseparator
    have hfilter := h c hc
    rw [hseparator, if_neg Bool.false_ne_true] at hfilter
    rw [pieces_of_kept (by rw [hfilter]; exact List.cons_ne_nil _ _), hfilter, List.map_singleton]
  refine ⟨⟨fun c hc hseparator => ?_, fun c hc hseparator => ⟨_, hletter c hc hseparator⟩⟩, hletter⟩
  have hfilter := h c hc
  rw [hseparator, if_pos rfl] at hfilter
  exact (pieces_of_not_kept hfilter).1

theorem spelledAlike_iff {city : List Char} :
    SpelledAlike t city ↔
      SameLetters t city ∧ RunsKept t.isSeparator t.pieces (t.nfkc city) := by
  have hsame : SameLetters t city ↔
      (∀ c ∈ t.nfkc city, t.isSeparator c = false →
        (t.casefold c).filter t.isKept = [t.lower c]) ∧
      ∀ c ∈ t.nfkc city, t.isSeparator c = true → (t.casefold c).filter t.isKept = [] := by
    constructor
    · intro h
      refine ⟨fun c hc hseparator => ?_, fun c hc hseparator => ?_⟩
      · simpa [hseparator] using h c hc
      · simpa [hseparator] using h c hc
    · rintro ⟨hletters, hseparators⟩ c hc
      cases hseparator : t.isSeparator c with
      | true => exact hseparators c hc hseparator
      | false => exact hletters c hc hseparator
  have hpiece : SameLetters t city → ∀ c ∈ t.nfkc city, t.isSeparator c = true →
      (t.pieces c ≠ [] ↔ ∃ d ∈ t.casefold c, t.isBlank d = true) := by
    intro h c hc hseparator
    have hfilter := h c hc
    rw [hseparator, if_pos rfl] at hfilter
    exact (pieces_of_not_kept hfilter).2
  have hmem : ∀ {before run after : List Char} {x y c : Char},
      t.nfkc city = before ++ x :: (run ++ y :: after) → c ∈ run → c ∈ t.nfkc city := by
    intro before run after x y c heq hc
    simp [heq, hc]
  constructor
  · intro h
    have hletters := hsame.2 ⟨h.letters, h.separators⟩
    refine ⟨hletters, fun before x run y after heq hx hy hrun hne => ?_⟩
    obtain ⟨c, hc, hblank⟩ := h.runs before x run y after heq hx hy hrun hne
    exact ⟨c, hc, (hpiece hletters c (hmem heq hc) (hrun c hc)).2 hblank⟩
  · rintro ⟨hletters, hruns⟩
    refine ⟨(hsame.1 hletters).1, (hsame.1 hletters).2, ?_⟩
    intro before x run y after heq hx hy hrun hne
    obtain ⟨c, hc, hkept⟩ := hruns before x run y after heq hx hy hrun hne
    exact ⟨c, hc, (hpiece hletters c (hmem heq hc) (hrun c hc)).1 hkept⟩

/-- **The stored text is the normalized one where both read the spelling alike.** -/
theorem citySearch_eq_normalizeSearchText_iff (city : List Char) :
    t.citySearch city = t.normalizeSearchText city ↔ SpelledAlike t city := by
  have hpython : some ' ' ∉ (t.nfkc city).flatMap t.pieces := by
    intro hmem
    obtain ⟨c, -, hc⟩ := List.mem_flatMap.1 hmem
    obtain ⟨d, -, hd⟩ := List.mem_flatMap.1 hc
    rw [readFolded] at hd
    split at hd
    · next hkept =>
      obtain rfl : ' ' = d := by simpa using hd
      have hspace := isSpace_of_isKept hkept
      rw [t.space] at hspace
      cases hspace
    · split at hd <;> simp at hd
  have hsql : some ' ' ∉ (t.nfkc city).map t.readStored := by
    intro hmem
    obtain ⟨c, -, hc⟩ := List.mem_map.1 hmem
    rw [readStored] at hc
    split at hc
    · cases hc
    · next hseparator =>
      have hblank := (t.lower_space c).1 (Option.some.inj hc)
      rw [hblank] at hseparator
      exact hseparator isSeparator_space
  rw [citySearch_eq, normalizeSearchText_eq, eq_comm, squeezed_eq_iff hpython hsql,
    spelledAlike_iff]
  constructor
  · intro h
    have hsame := sameLetters_of_eq h
    obtain ⟨hpieces, hletter⟩ := hsame.pieces
    exact ⟨hsame, (letterGaps_flatMap_eq_iff hpieces hletter).1 h⟩
  · rintro ⟨hsame, hruns⟩
    obtain ⟨hpieces, hletter⟩ := hsame.pieces
    exact (letterGaps_flatMap_eq_iff hpieces hletter).2 hruns

/-- The query that is looked up is the normalized text, when it is neither short nor long. -/
theorem findsCity_eq_true_iff (city stored : List Char) :
    t.findsCity city stored = .ok true ↔
      t.citySearch stored = t.normalizeSearchText city ∧
        3 ≤ (t.normalizeSearchText city).length ∧ (t.normalizeSearchText city).length ≤ 256 := by
  have hmin : minimumSearchQueryLength = 3 := rfl
  have hmax : maximumQueryLength = 256 := rfl
  rw [findsCity, requiredSearchQuery]
  by_cases hnil : t.normalizeSearchText city = []
  · simp [hnil, Except.map]
  · by_cases hshort : (t.normalizeSearchText city).length < minimumSearchQueryLength
    · simp only [if_neg hnil, if_pos hshort, Except.map, reduceCtorEq, false_iff]
      omega
    · by_cases hlong : maximumQueryLength < (t.normalizeSearchText city).length
      · simp only [if_neg hnil, if_neg hshort, if_pos hlong, Except.map, reduceCtorEq, false_iff]
        omega
      · simp only [if_neg hnil, if_neg hshort, if_neg hlong, Except.map, Except.ok.injEq,
          decide_eq_true_eq]
        exact (and_iff_left ⟨by omega, by omega⟩).symm

/-- **A store is found under its stored spelling, and the column is the normalized text, exactly when
both read the spelling alike and the query is neither short nor long.** -/
theorem stored_city_found_iff (t : SearchTables) (city : List Char) :
    (t.citySearch city = t.normalizeSearchText city ∧ t.findsCity city city = .ok true) ↔
      SpelledAlike t city ∧ 3 ≤ searchLength t city ∧ searchLength t city ≤ 256 := by
  rw [findsCity_eq_true_iff, ← citySearch_eq_normalizeSearchText_iff]
  have hlength : t.citySearch city = t.normalizeSearchText city →
      (t.normalizeSearchText city).length = searchLength t city := by
    intro heq
    rw [← heq, citySearch_eq, searchLength]
    exact length_squeezed ' ' t.isSeparator t.lower (t.nfkc city)
  constructor
  · rintro ⟨heq, -, hmin, hmax⟩
    rw [hlength heq] at hmin hmax
    exact ⟨heq, hmin, hmax⟩
  · rintro ⟨heq, hmin, hmax⟩
    rw [← hlength heq] at hmin hmax
    exact ⟨heq, heq, hmin, hmax⟩

end SearchTables

/-! ## A sharp s -/

/-- Tables of ASCII, the Hebrew letters and the sharp s. -/
def plainCategory (c : Char) : MajorCategory :=
  if 65 ≤ c.toNat ∧ c.toNat ≤ 90 ∨ 97 ≤ c.toNat ∧ c.toNat ≤ 122 ∨ c.toNat = 223 ∨
      1488 ≤ c.toNat ∧ c.toNat ≤ 1514 then .letter
  else if 48 ≤ c.toNat ∧ c.toNat ≤ 57 then .number
  else if c.toNat = 32 then .separator
  else if 33 ≤ c.toNat ∧ c.toNat ≤ 126 then .punctuation
  else .other

def plainLower (c : Char) : Char :=
  if 65 ≤ c.toNat ∧ c.toNat ≤ 90 then Char.ofNat (c.toNat + 32) else c

def plainFold (c : Char) : List Char := if c = 'ß' then ['s', 's'] else [plainLower c]

theorem plainCategory_kept {c : Char} (h : plainCategory c = .letter ∨ plainCategory c = .number) :
    plainCategory c ≠ .punctuation ∧ plainCategory c ≠ .symbol ∧ plainCategory c ≠ .separator ∧
      Domain.plainTables.isSpace c = false := by
  have hrange : 48 ≤ c.toNat := by
    by_contra hlow
    rw [plainCategory, if_neg (by omega), if_neg (by omega)] at h
    split_ifs at h <;> rcases h with h | h <;> cases h
  refine ⟨?_, ?_, ?_, decide_eq_false ?_⟩
  · rintro heq
    rw [heq] at h
    rcases h with h | h <;> cases h
  · rintro heq
    rw [heq] at h
    rcases h with h | h <;> cases h
  · rintro heq
    rw [heq] at h
    rcases h with h | h <;> cases h
  · rintro (rfl | ⟨-, hcontrol⟩)
    · exact absurd hrange (by decide)
    · omega

theorem plainLower_space (c : Char) : plainLower c = ' ' ↔ c = ' ' := by
  have hupper : ∀ n < 91, 65 ≤ n → Char.ofNat (n + 32) ≠ ' ' := by decide
  rw [plainLower]
  split
  · next hrange =>
    refine iff_of_false (hupper c.toNat (by omega) hrange.1) ?_
    rintro rfl
    exact absurd hrange.1 (by decide)
  · exact Iff.rfl

def plainSearchTables : SearchTables where
  toUnicode := Domain.plainTables.toUnicode
  casefold := plainFold
  category := plainCategory
  lower := plainLower
  isPunct := fun c => plainCategory c = .punctuation
  isPosixSpace := Domain.plainTables.isSpace
  space := rfl
  kept_not_space := fun c h => (plainCategory_kept h).2.2.2
  posixSpace := rfl
  lower_space := plainLower_space
  lower_kept := by
    intro c h
    by_cases hc : c = 'ß'
    · exact ⟨'s', by simp [plainFold, hc], by decide⟩
    · exact ⟨plainLower c, by simp [plainFold, hc], h⟩
  casefold_kept := by
    intro c d hd hkept e he
    have hde : e = d := by
      by_cases hc : c = 'ß'
      · simp [plainFold, hc] at hd he
        rw [hd, he]
      · simp [plainFold, hc] at hd he
        rw [hd, he]
    rw [hde]
    exact plainCategory_kept hkept

/-- The stored text keeps the sharp s that the query folds. -/
theorem strasse_not_found :
    plainSearchTables.toUnicode.cleanSourceText 10000 (some "Straße".toList) =
        .ok (some "Straße".toList) ∧
      ¬ (plainSearchTables.citySearch "Straße".toList =
            plainSearchTables.normalizeSearchText "Straße".toList ∧
          plainSearchTables.findsCity "Straße".toList "Straße".toList = .ok true) := by
  have hclean : plainSearchTables.toUnicode.cleanSourceText 10000 (some "Straße".toList) =
      .ok (some "Straße".toList) := by decide
  have hstored : plainSearchTables.citySearch "Straße".toList = "straße".toList := by decide
  have hquery : plainSearchTables.normalizeSearchText "Straße".toList = "strasse".toList := by
    decide
  refine ⟨hclean, fun ⟨heq, _⟩ => ?_⟩
  rw [hstored, hquery] at heq
  exact absurd heq (by decide)

end Makolet.Queries
