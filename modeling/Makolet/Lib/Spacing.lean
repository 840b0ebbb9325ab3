import Mathlib.Data.List.Basic

/-!
# Texts up to blanks

A text is read as letters and gaps. Runs of gaps are collapsed to one blank and the blanks at both
ends are stripped; `squeezed` is what is left, and two readings have the same squeezed text exactly
when they have the same letters with the gaps at the same places. The last section is about two
readings of one text, one of which takes every character for a letter or for a gap.
-/

set_option autoImplicit false

namespace Makolet.Lib.Spacing

universe u

variable {α : Type u}

/-! ## Squeezed texts -/

/-- A gap stands before the next letter. -/
def gapAhead : List (Option α) → Bool
  | [] => false
  | none :: s => s.any Option.isSome
  | some _ :: _ => false

/-- The letters, each with the gap behind it. -/
def letterGaps : List (Option α) → List (α × Bool)
  | [] => []
  | none :: s => letterGaps s
  | some a :: s => (a, gapAhead s) :: letterGaps s

/-- The text of letters with gaps. -/
def spelled (blank : α) (xs : List (α × Bool)) : List α :=
  xs.flatMap fun x => if x.2 then [x.1, blank] else [x.1]

def squeezed (blank : α) (s : List (Option α)) : List α := spelled blank (letterGaps s)

@[simp] theorem letterGaps_nil : letterGaps ([] : List (Option α)) = [] := rfl

@[simp] theorem letterGaps_none (s : List (Option α)) : letterGaps (none :: s) = letterGaps s := rfl

@[simp] theorem letterGaps_some (a : α) (s : List (Option α)) :
    letterGaps (some a :: s) = (a, gapAhead s) :: letterGaps s := rfl

@[simp] theorem gapAhead_none (s : List (Option α)) :
    gapAhead (none :: s) = s.any Option.isSome := rfl

@[simp] theorem gapAhead_some (a : α) (s : List (Option α)) : gapAhead (some a :: s) = false := rfl

@[simp] theorem squeezed_none (blank : α) (s : List (Option α)) :
    squeezed blank (none :: s) = squeezed blank s := rfl

@[simp] theorem squeezed_some (blank a : α) (s : List (Option α)) :
    squeezed blank (some a :: s) =
      a :: ((if gapAhead s then [blank] else []) ++ squeezed blank s) := by
  simp only [squeezed, letterGaps_some, spelled, List.flatMap_cons]
  cases gapAhead s <;> simp

theorem map_fst_letterGaps (s : List (Option α)) : (letterGaps s).map Prod.fst = s.filterMap id := by
  induction s with
  | nil => rfl
  | cons x s ih =>
    cases x with
    | none => simpa using ih
    | some a => simp [ih]

/-- Gaps in front do not matter. -/
theorem letterGaps_append_gaps {gaps : List (Option α)} (h : ∀ x ∈ gaps, x = none)
    (s : List (Option α)) : letterGaps (gaps ++ s) = letterGaps s := by
  induction gaps with
  | nil => rfl
  | cons x gaps ih =>
    rw [h x List.mem_cons_self, List.cons_append, letterGaps_none]
    exact ih fun y hy => h y (List.mem_cons_of_mem x hy)

theorem squeezed_eq_nil_iff {blank : α} {s : List (Option α)} :
    squeezed blank s = [] ↔ s.any Option.isSome = false := by
  induction s with
  | nil => simp [squeezed, spelled]
  | cons x s ih =>
    cases x with
    | none => simpa using ih
    | some a => simp

/-- The letters and the gaps are read back. -/
theorem spelled_injective {blank : α} {xs ys : List (α × Bool)} (hxs : ∀ x ∈ xs, x.1 ≠ blank)
    (hys : ∀ y ∈ ys, y.1 ≠ blank) (h : spelled blank xs = spelled blank ys) : xs = ys := by
  induction xs generalizing ys with
  | nil =>
    cases ys with
    | nil => rfl
    | cons y ys =>
      obtain ⟨b, gap⟩ := y
      cases gap <;> simp [spelled] at h
  | cons x xs ih =>
    obtain ⟨a, gap⟩ := x
    cases ys with
    | nil => cases gap <;> simp [spelled] at h
    | cons y ys =>
      obtain ⟨b, gap'⟩ := y
      have hxs' : ∀ x ∈ xs, x.1 ≠ blank := fun x hx => hxs x (List.mem_cons_of_mem _ hx)
      have hys' : ∀ y ∈ ys, y.1 ≠ blank := fun y hy => hys y (List.mem_cons_of_mem _ hy)
      -- A letter never begins with the blank of a gap.
      have hstart : ∀ (zs : List (α × Bool)) (rest : List α), (∀ z ∈ zs, z.1 ≠ blank) →
          spelled blank zs ≠ blank :: rest := by
        intro zs rest hzs hspelled
        cases zs with
        | nil => simp [spelled] at hspelled
        | cons z zs =>
          obtain ⟨c, gap''⟩ := z
          have hc : c = blank := by
            cases gap'' <;> simp [spelled] at hspelled <;> exact hspelled.1
          exact hzs _ List.mem_cons_self hc
      have hcons : ∀ (c : α) (g : Bool) (zs : List (α × Bool)), spelled blank ((c, g) :: zs) =
          c :: ((if g then [blank] else []) ++ spelled blank zs) := by
        intro c g zs
        cases g <;> simp [spelled]
      rw [hcons, hcons] at h
      obtain ⟨rfl, htail⟩ := List.cons.inj h
      cases gap with
      | false =>
        cases gap' with
        | false => rw [ih hxs' hys' htail]
        | true => exact absurd htail (hstart xs _ hxs')
      | true =>
        cases gap' with
        | false => exact absurd htail.symm (hstart ys _ hys')
        | true => rw [ih hxs' hys' (List.cons.inj htail).2]

theorem squeezed_eq_iff {blank : α} {s t : List (Option α)} (hs : some blank ∉ s)
    (ht : some blank ∉ t) :
    squeezed blank s = squeezed blank t ↔ letterGaps s = letterGaps t := by
  have hletters : ∀ r : List (Option α), some blank ∉ r → ∀ x ∈ letterGaps r, x.1 ≠ blank := by
    rintro r hr x hx rfl
    have hmem := List.mem_map_of_mem (f := Prod.fst) hx
    rw [map_fst_letterGaps, List.mem_filterMap] at hmem
    obtain ⟨y, hy, rfl⟩ := hmem
    exact hr hy
  constructor
  · exact spelled_injective (hletters s hs) (hletters t ht)
  · intro h
    rw [squeezed, h, squeezed]

/-! ## Collapsing and stripping -/

/-- Runs of characters are collapsed to a blank. -/
def collapse (blank : α) (p : α → Bool) : Bool → List α → List α
  | _, [] => []
  | run, c :: s =>
      if p c then if run then collapse blank p true s else blank :: collapse blank p true s
      else c :: collapse blank p false s

/-- Characters are stripped at both ends. -/
def strip (p : α → Bool) (s : List α) : List α :=
  ((s.dropWhile p).reverse.dropWhile p).reverse

/-- Characters are stripped at the end. -/
def stripEnd (p : α → Bool) (s : List α) : List α := (s.reverse.dropWhile p).reverse

theorem stripEnd_cons (p : α → Bool) (c : α) (s : List α) :
    stripEnd p (c :: s) =
      if stripEnd p s = [] then if p c then [] else [c] else c :: stripEnd p s := by
  rw [stripEnd, List.reverse_cons, List.dropWhile_append, stripEnd]
  cases hrest : s.reverse.dropWhile p with
  | nil => cases hc : p c <;> simp [hc]
  | cons d rest => simp

theorem stripEnd_letter {p : α → Bool} {c : α} (hc : p c = false) (s : List α) :
    stripEnd p (c :: s) = c :: stripEnd p s := by
  rw [stripEnd_cons, hc]
  split
  · next hnil => simp [hnil]
  · rfl

/-- A text whose characters are read as letters and gaps. -/
structure Reads (p : α → Bool) (blank : α) (f : α → α) (read : α → Option α) : Prop where
  gap : ∀ c, p c = true → read c = none
  letter : ∀ c, p c = false → read c = some (f c)

variable {blank : α} {p q : α → Bool} {f : α → α} {read : α → Option α}

/-- What is left of the collapsed characters once the end is stripped. -/
theorem stripEnd_collapse (h : Reads p blank f read) (hblank : q (f blank) = true)
    (hf : f blank = blank) (s : List α) (hletters : ∀ c ∈ s, p c = false → q (f c) = false) :
    stripEnd q ((collapse blank p true s).map f) = squeezed blank (s.map read) ∧
      stripEnd q ((collapse blank p false s).map f) =
        (if gapAhead (s.map read) then [blank] else []) ++ squeezed blank (s.map read) := by
  induction s with
  | nil => exact ⟨rfl, rfl⟩
  | cons c s ih =>
    obtain ⟨hrun, hstart⟩ := ih fun d hd => hletters d (List.mem_cons_of_mem c hd)
    cases hc : p c with
    | true =>
      have hread := h.gap c hc
      refine ⟨?_, ?_⟩
      · simp only [collapse, hc, if_true, List.map_cons, hread, squeezed_none]
        exact hrun
      · simp only [collapse, hc, if_true, List.map_cons, hread, squeezed_none, gapAhead_none]
        rw [if_neg Bool.false_ne_true, List.map_cons, stripEnd_cons, hrun]
        cases hany : (s.map read).any Option.isSome with
        | false => simp [squeezed_eq_nil_iff.2 hany, hblank]
        | true =>
          have hne : squeezed blank (s.map read) ≠ [] := by
            rw [Ne, squeezed_eq_nil_iff, hany]
            decide
          simp [hne, hf]
    | false =>
      have hread := h.letter c hc
      have hletter := hletters c List.mem_cons_self hc
      have hcons : stripEnd q ((c :: collapse blank p false s).map f) =
          f c :: ((if gapAhead (s.map read) then [blank] else []) ++
            squeezed blank (s.map read)) := by
        rw [List.map_cons, stripEnd_letter hletter, hstart]
      refine ⟨?_, ?_⟩
      · simp only [collapse, hc, List.map_cons, hread, squeezed_some]
        exact hcons
      · simp only [collapse, hc, List.map_cons, hread, squeezed_some, gapAhead_some]
        exact hcons

/-- **Collapsed and stripped, a text is squeezed.** -/
theorem strip_collapse (h : Reads p blank f read) (hblank : q (f blank) = true)
    (hf : f blank = blank) (s : List α) (hletters : ∀ c ∈ s, p c = false → q (f c) = false) :
    strip q ((collapse blank p false s).map f) = squeezed blank (s.map read) := by
  -- The blank of a first run is dropped, and what follows begins with a letter.
  have hfront : ∀ (run : Bool) (s : List α), (∀ c ∈ s, p c = false → q (f c) = false) →
      ((collapse blank p run s).map f).dropWhile q = (collapse blank p true s).map f := by
    intro run s
    induction s generalizing run with
    | nil => exact fun _ => by cases run <;> rfl
    | cons c s ih =>
      intro hletters
      have ih' := fun run => ih run fun d hd => hletters d (List.mem_cons_of_mem c hd)
      cases hc : p c with
      | true =>
        cases run with
        | true =>
          simp only [collapse, hc, if_true]
          exact ih' true
        | false =>
          simp only [collapse, hc, if_true]
          rw [if_neg Bool.false_ne_true, List.map_cons, List.dropWhile_cons_of_pos hblank]
          exact ih' true
      | false =>
        have hletter := hletters c List.mem_cons_self hc
        simp [collapse, hc, hletter]
  rw [strip, hfront false s hletters]
  exact (stripEnd_collapse h hblank hf s hletters).1

/-! ## Two readings of one text -/

/-- Where the parts of one text are never shorter than those of another, equal texts have equal
parts. -/
theorem flatMap_eq_iff {β : Type u} {s : List β} {f g : β → List α}
    (hle : s.flatMap f = s.flatMap g → ∀ c ∈ s, (g c).length ≤ (f c).length) :
    s.flatMap f = s.flatMap g ↔ ∀ c ∈ s, f c = g c := by
  constructor
  · intro h
    have hparts := hle h
    clear hle
    induction s with
    | nil => exact fun c hc => by cases hc
    | cons c s ih =>
      have hrest : ∀ d ∈ s, (g d).length ≤ (f d).length := fun d hd =>
        hparts d (List.mem_cons_of_mem c hd)
      have hlengths : ∀ t : List β, (∀ d ∈ t, (g d).length ≤ (f d).length) →
          (t.flatMap g).length ≤ (t.flatMap f).length := by
        intro t ht
        induction t with
        | nil => exact Nat.le_refl 0
        | cons d t iht =>
          have hd := ht d List.mem_cons_self
          have htail := iht fun e he => ht e (List.mem_cons_of_mem d he)
          simp only [List.flatMap_cons, List.length_append]
          omega
      rw [List.flatMap_cons, List.flatMap_cons] at h
      have hsum := congrArg List.length h
      have hfirst := hparts c List.mem_cons_self
      have htotal := hlengths s hrest
      rw [List.length_append, List.length_append] at hsum
      obtain ⟨hc, htail⟩ := List.append_inj h (by omega)
      intro d hd
      rcases List.mem_cons.1 hd with rfl | hd
      · exact hc
      · exact ih htail hrest d hd
  · intro h
    exact List.flatMap_congr h

variable {β : Type u} {gap : β → Bool} {pieces : β → List (Option α)} {s : List β}

/-- A character is read as gaps, or as one letter. -/
structure Pieces (gap : β → Bool) (pieces : β → List (Option α)) (s : List β) : Prop where
  gaps : ∀ c ∈ s, gap c = true → ∀ x ∈ pieces c, x = none
  letter : ∀ c ∈ s, gap c = false → ∃ a, pieces c = [some a]

theorem Pieces.tail {c : β} (h : Pieces gap pieces (c :: s)) : Pieces gap pieces s where
  gaps := fun d hd => h.gaps d (List.mem_cons_of_mem c hd)
  letter := fun d hd => h.letter d (List.mem_cons_of_mem c hd)

theorem Pieces.any_isSome (h : Pieces gap pieces s) :
    (s.flatMap pieces).any Option.isSome = true ↔
      ∃ run y after, s = run ++ y :: after ∧ gap y = false ∧ ∀ c ∈ run, gap c = true := by
  induction s with
  | nil => simp
  | cons c s ih =>
    cases hc : gap c with
    | true =>
      have hgaps : (pieces c).any Option.isSome = false := by
        rw [List.any_eq_false]
        intro x hx
        rw [h.gaps c List.mem_cons_self hc x hx]
        exact Bool.false_ne_true
      rw [List.flatMap_cons, List.any_append, hgaps, Bool.false_or, ih h.tail]
      constructor
      · rintro ⟨run, y, after, rfl, hy, hrun⟩
        refine ⟨c :: run, y, after, rfl, hy, fun d hd => ?_⟩
        rcases List.mem_cons.1 hd with rfl | hd
        · exact hc
        · exact hrun d hd
      · rintro ⟨run, y, after, heq, hy, hrun⟩
        cases run with
        | nil =>
          obtain ⟨rfl, -⟩ := List.cons.inj heq
          rw [hc] at hy
          cases hy
        | cons d run =>
          obtain ⟨rfl, rfl⟩ := List.cons.inj heq
          exact ⟨run, y, after, rfl, hy, fun e he => hrun e (List.mem_cons_of_mem _ he)⟩
    | false =>
      obtain ⟨a, ha⟩ := h.letter c List.mem_cons_self hc
      simp only [List.flatMap_cons, ha, List.singleton_append, List.any_cons, Option.isSome_some,
        Bool.true_or, true_iff]
      exact ⟨[], c, s, rfl, hc, fun d hd => by cases hd⟩

/-- A run of gaps before a letter begins with the gap in front. -/
theorem run_of_gap {c y : β} {s run after : List β} (hc : gap c = true)
    (heq : c :: s = run ++ y :: after) (hy : gap y = false) (hrun : ∀ e ∈ run, gap e = true) :
    ∃ rest, run = c :: rest ∧ s = rest ++ y :: after ∧ ∀ e ∈ rest, gap e = true := by
  cases run with
  | nil =>
    obtain ⟨rfl, -⟩ := List.cons.inj heq
    rw [hc] at hy
    cases hy
  | cons e rest =>
    obtain ⟨rfl, rfl⟩ := List.cons.inj heq
    exact ⟨rest, rfl, rfl, (List.forall_mem_cons.1 hrun).2⟩

/-- A gap is ahead where a run of gaps is read as one and a letter follows. -/
theorem Pieces.gapAhead_iff (h : Pieces gap pieces s) :
    gapAhead (s.flatMap pieces) = true ↔
      ∃ run y after, s = run ++ y :: after ∧ gap y = false ∧ (∀ c ∈ run, gap c = true) ∧
        ∃ c ∈ run, pieces c ≠ [] := by
  induction s with
  | nil => simp [gapAhead]
  | cons c s ih =>
    cases hc : gap c with
    | false =>
      obtain ⟨a, ha⟩ := h.letter c List.mem_cons_self hc
      simp only [List.flatMap_cons, ha, List.singleton_append, gapAhead_some, Bool.false_eq_true,
        false_iff]
      rintro ⟨run, y, after, heq, -, hrun, d, hd, -⟩
      cases run with
      | nil => cases hd
      | cons e run =>
        obtain ⟨rfl, -⟩ := List.cons.inj heq
        have he := hrun c List.mem_cons_self
        rw [hc] at he
        cases he
    | true =>
      have hgaps := h.gaps c List.mem_cons_self hc
      cases hpieces : pieces c with
      | nil =>
        -- The character is dropped, and the run begins behind it.
        rw [List.flatMap_cons, hpieces, List.nil_append, ih h.tail]
        constructor
        · rintro ⟨run, y, after, rfl, hy, hrun, d, hd, hne⟩
          have hrun' : ∀ e ∈ c :: run, gap e = true := List.forall_mem_cons.2 ⟨hc, hrun⟩
          exact ⟨c :: run, y, after, rfl, hy, hrun', d, List.mem_cons_of_mem c hd, hne⟩
        · rintro ⟨run, y, after, heq, hy, hrun, d, hd, hne⟩
          obtain ⟨rest, rfl, rfl, hrest⟩ := run_of_gap hc heq hy hrun
          rcases List.mem_cons.1 hd with rfl | hd
          · exact absurd hpieces hne
          · exact ⟨rest, y, after, rfl, hy, hrest, d, hd, hne⟩
      | cons x xs =>
        have hx : x = none := hgaps x (by rw [hpieces]; exact List.mem_cons_self)
        have hxs : xs.any Option.isSome = false := by
          rw [List.any_eq_false]
          intro z hz
          rw [hgaps z (by rw [hpieces]; exact List.mem_cons_of_mem x hz)]
          exact Bool.false_ne_true
        rw [List.flatMap_cons, hpieces, hx, List.cons_append, gapAhead_none, List.any_append, hxs,
          Bool.false_or, h.tail.any_isSome]
        constructor
        · rintro ⟨run, y, after, rfl, hy, hrun⟩
          have hrun' : ∀ e ∈ c :: run, gap e = true := List.forall_mem_cons.2 ⟨hc, hrun⟩
          have hne : pieces c ≠ [] := by
            rw [hpieces]
            exact List.cons_ne_nil x xs
          exact ⟨c :: run, y, after, rfl, hy, hrun', c, List.mem_cons_self, hne⟩
        · rintro ⟨run, y, after, heq, hy, hrun, -⟩
          obtain ⟨rest, -, rfl, hrest⟩ := run_of_gap hc heq hy hrun
          exact ⟨rest, y, after, rfl, hy, hrest⟩

/-- The run of gaps up to the next letter is one only. -/
theorem run_unique {run run' after after' : List β} {y y' : β}
    (heq : run ++ y :: after = run' ++ y' :: after') (hy : gap y = false) (hy' : gap y' = false)
    (hrun : ∀ c ∈ run, gap c = true) (hrun' : ∀ c ∈ run', gap c = true) : run = run' := by
  induction run generalizing run' with
  | nil =>
    cases run' with
    | nil => rfl
    | cons e run' =>
      obtain ⟨rfl, -⟩ := List.cons.inj heq
      have he := hrun' y List.mem_cons_self
      rw [hy] at he
      cases he
  | cons e run ih =>
    obtain ⟨he, hrun⟩ := List.forall_mem_cons.1 hrun
    obtain ⟨rest, rfl, htail, hrest⟩ := run_of_gap he heq hy' hrun'
    rw [ih htail hrun hrest]

/-- The runs of a text of which a piece is left. -/
def RunsKept (gap : β → Bool) (pieces : β → List (Option α)) (s : List β) : Prop :=
  ∀ before x run y after, s = before ++ x :: (run ++ y :: after) → gap x = false →
    gap y = false → (∀ c ∈ run, gap c = true) → run ≠ [] → ∃ c ∈ run, pieces c ≠ []

/-- **Two readings with the same letters have the same gaps where every run of gaps between two
letters is read as one.** -/
theorem letterGaps_flatMap_eq_iff {letter : β → α} (h : Pieces gap pieces s)
    (hletter : ∀ c ∈ s, gap c = false → pieces c = [some (letter c)]) :
    letterGaps (s.flatMap pieces) =
        letterGaps (s.map fun c => if gap c then none else some (letter c)) ↔
      RunsKept gap pieces s := by
  induction s with
  | nil =>
    refine iff_of_true rfl ?_
    intro before x run y after heq
    cases before <;> cases heq
  | cons c s ih =>
    have ih' := ih h.tail fun d hd => hletter d (List.mem_cons_of_mem c hd)
    -- A run that begins behind the first character is a run of the rest.
    have hrest : RunsKept gap pieces (c :: s) → RunsKept gap pieces s := by
      intro hruns before x run y after heq
      exact hruns (c :: before) x run y after (by rw [heq]; rfl)
    cases hc : gap c with
    | true =>
      rw [List.flatMap_cons, letterGaps_append_gaps (h.gaps c List.mem_cons_self hc), List.map_cons,
        if_pos hc, letterGaps_none, ih']
      refine ⟨fun hruns => ?_, hrest⟩
      intro before x run y after heq hx hy
      cases before with
      | nil =>
        obtain ⟨rfl, -⟩ := List.cons.inj heq
        rw [hc] at hx
        cases hx
      | cons d before =>
        exact hruns before x run y after (List.cons.inj heq).2 hx hy
    | false =>
      have hmap : s.map (fun c => if gap c then none else some (letter c)) =
          s.flatMap fun c => [if gap c then none else some (letter c)] := by
        exact List.map_eq_flatMap
      have hread : Pieces gap (fun c => [if gap c then none else some (letter c)]) s := by
        refine ⟨fun d _ hd x hx => ?_, fun d _ hd => ⟨letter d, by simp [hd]⟩⟩
        simpa [hd] using hx
      have hahead := h.tail.gapAhead_iff
      have hahead' := hread.gapAhead_iff
      rw [← hmap] at hahead'
      rw [List.flatMap_cons, hletter c List.mem_cons_self hc, List.map_cons, if_neg (by simp [hc]),
        List.singleton_append, letterGaps_some, letterGaps_some, List.cons.injEq, ih',
        Prod.mk.injEq, eq_self_iff_true, true_and, Bool.eq_iff_iff, hahead, hahead']
      constructor
      · rintro ⟨hgaps, hruns⟩ before x run y after heq hx hy hrun hne
        cases before with
        | nil =>
          obtain ⟨rfl, rfl⟩ := List.cons.inj heq
          obtain ⟨d, hd⟩ := List.exists_mem_of_ne_nil run hne
          obtain ⟨run', y', after', heq', hy', hrun', hkept⟩ := hgaps.2
            ⟨run, y, after, rfl, hy, hrun, d, hd, List.cons_ne_nil _ _⟩
          have hsame := run_unique heq' hy hy' hrun hrun'
          rw [hsame]
          exact hkept
        | cons d before =>
          exact hruns before x run y after (List.cons.inj heq).2 hx hy hrun hne
      · intro hruns
        refine ⟨⟨?_, ?_⟩, hrest hruns⟩
        · rintro ⟨run, y, after, heq, hy, hrun, d, hd, -⟩
          exact ⟨run, y, after, heq, hy, hrun, d, hd, List.cons_ne_nil _ _⟩
        · rintro ⟨run, y, after, heq, hy, hrun, d, hd, -⟩
          refine ⟨run, y, after, heq, hy, hrun, ?_⟩
          exact hruns [] c run y after (by rw [heq]; rfl) hc hy hrun (List.ne_nil_of_mem hd)

/-! ## Lengths -/

/-- The letters that no letter stands before; `behind` says that a gap or the start does. -/
def wordStarts (gap : β → Bool) : Bool → List β → Nat
  | _, [] => 0
  | behind, c :: s =>
      if gap c then wordStarts gap true s
      else (if behind then 1 else 0) + wordStarts gap false s

theorem length_spelled (blank : α) (xs : List (α × Bool)) :
    (spelled blank xs).length = xs.length + xs.countP Prod.snd := by
  induction xs with
  | nil => rfl
  | cons x xs ih =>
    obtain ⟨a, g⟩ := x
    rw [spelled, List.flatMap_cons, List.length_append, ← spelled, ih, List.countP_cons,
      List.length_cons]
    cases g <;> simp <;> omega

/-- The words are one more than the gaps between letters. -/
theorem countP_letterGaps (gap : β → Bool) (letter : β → α) (s : List β) :
    ((letterGaps (s.map fun c => if gap c then none else some (letter c))).countP Prod.snd +
        (if (s.map fun c => if gap c then none else some (letter c)).any Option.isSome then 1
          else 0) = wordStarts gap true s) ∧
      ((letterGaps (s.map fun c => if gap c then none else some (letter c))).countP Prod.snd +
        (if gapAhead (s.map fun c => if gap c then none else some (letter c)) then 1 else 0) =
          wordStarts gap false s) := by
  induction s with
  | nil => exact ⟨rfl, rfl⟩
  | cons c s ih =>
    obtain ⟨hstart, hahead⟩ := ih
    cases hc : gap c with
    | true =>
      simp only [List.map_cons, hc, if_true, letterGaps_none, List.any_cons, Option.isSome_none,
        Bool.false_or, wordStarts, gapAhead_none]
      exact ⟨hstart, hstart⟩
    | false =>
      simp only [List.map_cons, hc, Bool.false_eq_true, if_false, letterGaps_some,
        List.countP_cons, List.any_cons, Option.isSome_some, Bool.true_or, if_true, wordStarts,
        gapAhead_some]
      omega

theorem length_squeezed (blank : α) (gap : β → Bool) (letter : β → α) (s : List β) :
    (squeezed blank (s.map fun c => if gap c then none else some (letter c))).length =
      s.countP (fun c => !gap c) + (wordStarts gap true s - 1) := by
  have hletters : (letterGaps (s.map fun c => if gap c then none else some (letter c))).length =
      s.countP fun c => !gap c := by
    have hlength := congrArg List.length
      (map_fst_letterGaps (s.map fun c => if gap c then none else some (letter c)))
    rw [List.length_map, List.filterMap_map] at hlength
    rw [hlength]
    clear hlength
    induction s with
    | nil => rfl
    | cons c s ih => cases hc : gap c <;> simp_all
  obtain ⟨hstart, -⟩ := countP_letterGaps gap letter s
  rw [squeezed, length_spelled, hletters, ← hstart]
  split
  · omega
  · next hnone =>
    have hnil : squeezed blank (s.map fun c => if gap c then none else some (letter c)) = [] :=
      squeezed_eq_nil_iff.2 (Bool.eq_false_iff.2 hnone)
    have hlength := congrArg List.length hnil
    rw [squeezed, length_spelled, List.length_nil] at hlength
    omega

end Makolet.Lib.Spacing
