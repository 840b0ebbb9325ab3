import Mathlib.Data.List.Forall2

/-!
# Backtracking matches

Matching a sequence of pieces against the beginning of a text, the way a backtracking matcher does:
all matches are listed, the preferred one first. A piece is a choice between sequences of character
classes, or a run of one class that takes as many characters as it can.

The first match of a sequence is found from that of its first piece when the rest matches behind it
(`head?_cons`); a text as long as the sequence leaves each piece one character
(`head?_of_length_eq`); and a piece that a text cannot contain excludes every match
(`sequenceMatches_eq_nil_of_rejects`).
-/

set_option autoImplicit false

namespace Makolet.Lib

universe u

variable {α : Type u}

/-- Match a sequence of classes, one character each: the text and what is behind it. -/
def matchClasses : List (α → Bool) → List α → Option (List α × List α)
  | [], s => some ([], s)
  | _ :: _, [] => none
  | p :: classes, c :: s =>
      if p c then (matchClasses classes s).map fun m => (c :: m.1, m.2) else none

/-- A piece of a pattern. -/
inductive Piece (α : Type u)
  | choice (alternatives : List (List (α → Bool)))
  | run (p : α → Bool)

namespace Piece

/-- The matches of a piece, the preferred one first. -/
def found : Piece α → List α → List (List α × List α)
  | choice alternatives, s => alternatives.filterMap (matchClasses · s)
  | run p, s =>
      (List.range (s.takeWhile p).length).reverse.map fun k => (s.take (k + 1), s.drop (k + 1))

/-- A piece takes at least one character. -/
def Takes : Piece α → Prop
  | choice alternatives => ∀ classes ∈ alternatives, classes ≠ []
  | run _ => True

/-- The characters that a piece takes alone. -/
def single : Piece α → α → Bool
  | choice alternatives, c => alternatives.any fun classes =>
      match classes with
      | [p] => p c
      | _ => false
  | run p, c => p c

/-- A piece cannot match inside a text of the given characters. -/
def Rejects (good : α → Prop) : Piece α → Prop
  | choice alternatives => ∀ classes ∈ alternatives, ∃ p ∈ classes, ∀ c, good c → p c = false
  | run p => ∀ c, good c → p c = false

end Piece

/-- The matches of a sequence of pieces. -/
def sequenceMatches : List (Piece α) → List α → List (List (List α) × List α)
  | [], s => [([], s)]
  | piece :: pieces, s =>
      (piece.found s).flatMap fun m =>
        (sequenceMatches pieces m.2).map fun rest => (m.1 :: rest.1, rest.2)

/-! ## Classes -/

theorem matchClasses_eq_some {classes : List (α → Bool)} {s t r : List α}
    (h : matchClasses classes s = some (t, r)) :
    s = t ++ r ∧ List.Forall₂ (fun p c => p c = true) classes t := by
  induction classes generalizing s t with
  | nil =>
    cases h
    exact ⟨rfl, .nil⟩
  | cons p classes ih =>
    cases s with
    | nil => cases h
    | cons c s =>
      rw [matchClasses] at h
      split at h
      · rename_i hp
        obtain ⟨m, hm, heq⟩ := Option.map_eq_some_iff.mp h
        cases heq
        obtain ⟨rfl, hclasses⟩ := ih hm
        exact ⟨rfl, .cons hp hclasses⟩
      · cases h

/-- Every class has taken one of the characters. -/
theorem exists_taken {classes : List (α → Bool)} {t : List α}
    (h : List.Forall₂ (fun p c => p c = true) classes t) {p : α → Bool} (hp : p ∈ classes) :
    ∃ c ∈ t, p c = true := by
  induction h with
  | nil => cases hp
  | @cons q c classes t hq hrest ih =>
    rcases List.mem_cons.mp hp with rfl | hlater
    · exact ⟨c, List.mem_cons_self, hq⟩
    · obtain ⟨c', hc', htake⟩ := ih hlater
      exact ⟨c', List.mem_cons_of_mem _ hc', htake⟩

/-! ## Pieces -/

namespace Piece

/-- A match splits the text. -/
theorem append_of_mem_found {piece : Piece α} {s : List α} {m : List α × List α}
    (h : m ∈ piece.found s) : s = m.1 ++ m.2 := by
  cases piece with
  | choice alternatives =>
    obtain ⟨classes, -, hclasses⟩ := List.mem_filterMap.mp h
    exact (matchClasses_eq_some hclasses).1
  | run p =>
    obtain ⟨k, -, rfl⟩ := List.mem_map.mp h
    exact (List.take_append_drop _ _).symm

/-- A run takes characters of its class. -/
theorem of_mem_found_run {p : α → Bool} {s : List α} {m : List α × List α}
    (h : m ∈ (run p).found s) : ∀ c ∈ m.1, p c = true := by
  obtain ⟨k, hk, rfl⟩ := List.mem_map.mp h
  rw [List.mem_reverse, List.mem_range] at hk
  intro c hc
  rw [← List.takeWhile_append_dropWhile (p := p) (l := s),
    List.take_append_of_le_length (by omega)] at hc
  exact List.all_eq_true.mp List.all_takeWhile c (List.mem_of_mem_take hc)

theorem length_pos_of_mem_found {piece : Piece α} (hpiece : piece.Takes) {s : List α}
    {m : List α × List α} (h : m ∈ piece.found s) : 0 < m.1.length := by
  cases piece with
  | choice alternatives =>
    obtain ⟨classes, hmem, hclasses⟩ := List.mem_filterMap.mp h
    rw [← (matchClasses_eq_some hclasses).2.length_eq]
    exact List.length_pos_of_ne_nil (hpiece classes hmem)
  | run p =>
    obtain ⟨k, hk, rfl⟩ := List.mem_map.mp h
    rw [List.mem_reverse, List.mem_range] at hk
    have hprefix : s.takeWhile p <+: s := List.takeWhile_prefix p
    have hle := hprefix.length_le
    rw [List.length_take]
    omega

/-- The match of a single character. -/
theorem singleton_mem_found {piece : Piece α} {c : α} {s : List α} :
    ([c], s) ∈ piece.found (c :: s) ↔ piece.single c = true := by
  cases piece with
  | choice alternatives =>
    rw [found, List.mem_filterMap, single, List.any_eq_true]
    refine exists_congr fun classes => and_congr_right fun _ => ?_
    rcases classes with _ | ⟨p, _ | ⟨q, classes⟩⟩
    · simp [matchClasses]
    · simp [matchClasses]
    · have hne : matchClasses (p :: q :: classes) (c :: s) ≠ some ([c], s) := by
        intro h
        have hlength := (matchClasses_eq_some h).2.length_eq
        simp at hlength
      simp [hne]
  | run p =>
    rw [found, List.mem_map, single]
    constructor
    · rintro ⟨k, hk, heq⟩
      rw [List.mem_reverse, List.mem_range] at hk
      by_contra hp
      rw [List.takeWhile_cons_of_neg hp] at hk
      exact absurd hk (Nat.not_lt_zero k)
    · intro hp
      refine ⟨0, ?_, rfl⟩
      rw [List.mem_reverse, List.mem_range, List.takeWhile_cons_of_pos hp]
      exact Nat.succ_pos _

theorem found_eq_nil_of_rejects {good : α → Prop} {piece : Piece α} (h : piece.Rejects good)
    {s : List α} (hs : ∀ c ∈ s, good c) : piece.found s = [] := by
  cases piece with
  | choice alternatives =>
    rw [found, List.filterMap_eq_nil_iff]
    intro classes hmem
    obtain ⟨p, hp, hreject⟩ := h classes hmem
    rw [Option.eq_none_iff_forall_ne_some]
    rintro ⟨t, r⟩ hmatch
    obtain ⟨rfl, hclasses⟩ := matchClasses_eq_some hmatch
    -- The character that the rejecting class takes is one of the text.
    obtain ⟨c, hc, htake⟩ := exists_taken hclasses hp
    rw [hreject c (hs c (List.mem_append_left _ hc))] at htake
    cases htake
  | run p =>
    cases s with
    | nil => rfl
    | cons c s =>
      rw [found, List.takeWhile_cons_of_neg (by rw [h c (hs c List.mem_cons_self)]; simp)]
      rfl

end Piece

/-! ## Sequences -/

/-- With fewer characters than pieces there is no match. -/
theorem sequenceMatches_eq_nil_of_length_lt {pieces : List (Piece α)}
    (hpieces : ∀ piece ∈ pieces, piece.Takes) {s : List α} (h : s.length < pieces.length) :
    sequenceMatches pieces s = [] := by
  induction pieces generalizing s with
  | nil => exact absurd h (Nat.not_lt_zero _)
  | cons piece pieces ih =>
    rw [sequenceMatches, List.flatMap_eq_nil_iff]
    intro m hm
    have htakes := Piece.length_pos_of_mem_found (hpieces piece List.mem_cons_self) hm
    have hlength := congrArg List.length (Piece.append_of_mem_found hm)
    rw [List.length_append] at hlength
    rw [ih (fun piece hmem => hpieces piece (List.mem_cons_of_mem _ hmem)), List.map_nil]
    rw [List.length_cons] at h
    omega

/-- A piece that cannot match excludes every match of its sequence. -/
theorem sequenceMatches_eq_nil_of_rejects {good : α → Prop} {pieces : List (Piece α)}
    {piece : Piece α} (hmem : piece ∈ pieces) (hpiece : piece.Rejects good) {s : List α}
    (hs : ∀ c ∈ s, good c) : sequenceMatches pieces s = [] := by
  induction pieces generalizing s with
  | nil => cases hmem
  | cons first pieces ih =>
    rw [sequenceMatches]
    rcases List.mem_cons.mp hmem with rfl | hlater
    · rw [Piece.found_eq_nil_of_rejects hpiece hs]
      rfl
    · rw [List.flatMap_eq_nil_iff]
      intro m hm
      rw [ih hlater, List.map_nil]
      intro c hc
      apply hs
      rw [Piece.append_of_mem_found hm]
      exact List.mem_append_right _ hc

/-- The preferred match of the first piece is kept when the rest matches behind it. -/
theorem head?_cons {piece : Piece α} {pieces : List (Piece α)} {s t r r' : List α}
    {texts : List (List α)} (h : (piece.found s).head? = some (t, r))
    (hrest : (sequenceMatches pieces r).head? = some (texts, r')) :
    (sequenceMatches (piece :: pieces) s).head? = some (t :: texts, r') := by
  obtain ⟨later, hlater⟩ := List.head?_eq_some_iff.mp h
  obtain ⟨later', hlater'⟩ := List.head?_eq_some_iff.mp hrest
  rw [sequenceMatches, hlater, List.flatMap_cons, hlater']
  rfl

theorem head?_flatMap_of_unique {β γ : Type u} [DecidableEq β] {l : List β} {f : β → List γ}
    {b : β} (h : ∀ x ∈ l, x ≠ b → f x = []) :
    (l.flatMap f).head? = if b ∈ l then (f b).head? else none := by
  induction l with
  | nil => rfl
  | cons x l ih =>
    have ih := ih fun y hy => h y (List.mem_cons_of_mem _ hy)
    rw [List.flatMap_cons, List.head?_append, ih]
    by_cases hx : x = b
    · subst hx
      rw [if_pos List.mem_cons_self]
      cases (f x).head? <;> simp
    · rw [h x List.mem_cons_self hx, List.head?_nil, Option.none_or]
      simp [Ne.symm hx]

/-- In a text as long as the sequence every piece takes one character. -/
theorem head?_of_length_eq {pieces : List (Piece α)} (hpieces : ∀ piece ∈ pieces, piece.Takes)
    [DecidableEq α] {s : List α} (h : s.length = pieces.length) :
    (sequenceMatches pieces s).head? =
      if ∀ m ∈ pieces.zip s, m.1.single m.2 = true then some (s.map ([·]), []) else none := by
  induction pieces generalizing s with
  | nil =>
    obtain rfl := List.length_eq_zero_iff.mp h
    rfl
  | cons piece pieces ih =>
    obtain ⟨c, s, rfl⟩ := List.exists_cons_of_length_eq_add_one h
    have hrest := fun piece hmem => hpieces piece (List.mem_cons_of_mem _ hmem)
    rw [sequenceMatches, head?_flatMap_of_unique (b := ([c], s))]
    · rw [List.head?_map, ih hrest (Nat.succ.inj h)]
      simp only [Piece.singleton_mem_found, List.zip_cons_cons, List.forall_mem_cons]
      split <;> split <;> simp_all
    · intro m hm hne
      -- Any other match takes more than one character.
      have htakes := Piece.length_pos_of_mem_found (hpieces piece List.mem_cons_self) hm
      have happend := Piece.append_of_mem_found hm
      rw [sequenceMatches_eq_nil_of_length_lt hrest, List.map_nil]
      obtain ⟨t, r⟩ := m
      rcases t with _ | ⟨c', _ | ⟨c'', t⟩⟩
      · exact absurd htakes (Nat.lt_irrefl 0)
      · cases happend
        exact absurd rfl hne
      · have hlength := congrArg List.length happend
        simp only [List.length_cons, List.length_append] at hlength h
        show r.length < pieces.length
        omega

end Makolet.Lib
