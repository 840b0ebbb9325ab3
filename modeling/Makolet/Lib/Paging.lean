import Mathlib.Data.List.Infix

/-!
# Traversals of paged listings

A listing is fetched page by page. A page carries its items and the cursor of the next page, or no
cursor when it is the last one; the first page is fetched without a cursor. The `n`-th fetch of a
traversal may depend on `n`, so that its limit and its clock may vary.

`Traverses` is a traversal that ends, and it is unique (`Traverses.unique`). `Reached` are the
fetches that following the cursors comes to. `Sectioned` is the step of a listing in sections, each
paged by an offset; `Sectioned.traverses` gives its traversal, and says exactly when one of its
pages is empty and not the last.
-/

set_option autoImplicit false

namespace Makolet.Lib

universe u

variable {α κ π ε : Type u}

/-- Following the returned cursors from `cursor` on, the `n`-th fetch being the first, returns
`pages` and ends. -/
inductive Traverses (next : π → Option κ) (fetch : Nat → Option κ → Except ε π) :
    Nat → Option κ → List π → Prop
  | last {n : Nat} {cursor : Option κ} {page : π} :
      fetch n cursor = .ok page → next page = none → Traverses next fetch n cursor [page]
  | more {n : Nat} {cursor : Option κ} {page : π} {c : κ} {pages : List π} :
      fetch n cursor = .ok page → next page = some c →
      Traverses next fetch (n + 1) (some c) pages → Traverses next fetch n cursor (page :: pages)

section Traverses

variable {next : π → Option κ} {fetch : Nat → Option κ → Except ε π} {n : Nat}
  {cursor : Option κ} {pages pages' : List π}

theorem Traverses.unique (h : Traverses next fetch n cursor pages)
    (h' : Traverses next fetch n cursor pages') : pages = pages' := by
  induction h generalizing pages' with
  | last hfetch hnext =>
    cases h' with
    | last hfetch' _ =>
      rw [hfetch] at hfetch'
      cases hfetch'
      rfl
    | more hfetch' hnext' _ =>
      rw [hfetch] at hfetch'
      cases hfetch'
      rw [hnext] at hnext'
      cases hnext'
  | more hfetch hnext _ ih =>
    cases h' with
    | last hfetch' hnext' =>
      rw [hfetch] at hfetch'
      cases hfetch'
      rw [hnext] at hnext'
      cases hnext'
    | more hfetch' hnext' hrest =>
      rw [hfetch] at hfetch'
      cases hfetch'
      rw [hnext] at hnext'
      cases hnext'
      rw [ih hrest]

/-- A traversal ends with a fetched page that has no cursor. -/
theorem Traverses.final (h : Traverses next fetch n cursor pages) :
    ∃ m c init page, pages = init ++ [page] ∧ fetch m c = .ok page ∧ next page = none := by
  induction h with
  | last hfetch hnext => exact ⟨_, _, [], _, rfl, hfetch, hnext⟩
  | more _ _ _ ih =>
    obtain ⟨m, c, init, page, rfl, hfetch, hnext⟩ := ih
    exact ⟨m, c, _ :: init, page, rfl, hfetch, hnext⟩

/-- No traversal starts where every fetch fails or leads to another such place. -/
theorem not_traverses {P : Nat → Option κ → Prop}
    (hstep : ∀ n cursor page, P n cursor → fetch n cursor = .ok page →
      ∃ c, next page = some c ∧ P (n + 1) (some c))
    (h : P n cursor) : ¬ Traverses next fetch n cursor pages := by
  intro ht
  induction ht with
  | last hfetch hnext =>
    obtain ⟨c, hc, -⟩ := hstep _ _ _ h hfetch
    rw [hnext] at hc
    cases hc
  | more hfetch hnext _ ih =>
    obtain ⟨c, hc, hP⟩ := hstep _ _ _ h hfetch
    rw [hnext] at hc
    cases hc
    exact ih hP

end Traverses

/-! ## Reached pages -/

/-- The fetches that following the returned cursors from the first page on comes to. -/
inductive Reached (next : π → Option κ) (fetch : Nat → Option κ → Except ε π) :
    Nat → Option κ → Prop
  | start : Reached next fetch 0 none
  | next {n : Nat} {cursor : Option κ} {page : π} {c : κ} :
      Reached next fetch n cursor → fetch n cursor = .ok page → next page = some c →
      Reached next fetch (n + 1) (some c)

/-! ## Listings in sections -/

/-- A page of a listing in sections. At `At n cursor rest later` the section goes on with `rest` and
the sections `later` follow. The page has the next `limit` items of its section, in any order; its
cursor stays in the section while items are left there, and else goes to the next section, if there
is one. -/
def Sectioned (next : π → Option κ) (fetch : Nat → Option κ → Except ε π) (items : π → List α)
    (limit : Nat → Nat) (At : Nat → Option κ → List α → List (List α) → Prop) : Prop :=
  ∀ n cursor rest later, At n cursor rest later →
    ∃ page, fetch n cursor = .ok page ∧ (items page).Perm (rest.take (limit n)) ∧
      ((limit n < rest.length ∧ ∃ c, next page = some c ∧
          At (n + 1) (some c) (rest.drop (limit n)) later) ∨
        (rest.length ≤ limit n ∧ later = [] ∧ next page = none) ∨
        (rest.length ≤ limit n ∧ ∃ c s ss, later = s :: ss ∧ next page = some c ∧
          At (n + 1) (some c) s ss))

section Sectioned

variable {next : π → Option κ} {fetch : Nat → Option κ → Except ε π} {items : π → List α}
  {limit : Nat → Nat} {At : Nat → Option κ → List α → List (List α) → Prop}

theorem take_ne_nil {k : Nat} {rest : List α} (hk : 0 < k) (hlt : k < rest.length) :
    rest.take k ≠ [] := by
  intro hnil
  rw [List.take_eq_nil_iff] at hnil
  rcases hnil with rfl | rfl
  · exact absurd hk (Nat.lt_irrefl 0)
  · simp at hlt

/-- The traversal of a listing in sections returns every item once, and an empty page that is not
the last one exactly where a section before the last is empty. -/
theorem Sectioned.traverses (h : Sectioned next fetch items limit At) (hlimit : ∀ n, 0 < limit n)
    (n : Nat) {cursor : Option κ} {rest : List α} {later : List (List α)}
    (hat : At n cursor rest later) :
    ∃ pages, Traverses next fetch n cursor pages ∧
      (pages.flatMap items).Perm (rest ++ later.flatten) ∧
      ((∀ page ∈ pages, items page = [] → next page = none) ↔
        ∀ s ∈ (rest :: later).dropLast, s ≠ []) := by
  induction later generalizing n cursor rest with
  | nil =>
    -- Inside the last section the pages shrink what is left of it.
    induction hm : rest.length using Nat.strong_induction_on generalizing n cursor rest with
    | _ m ih =>
      obtain ⟨page, hfetch, hitems, hcase⟩ := h n cursor rest [] hat
      rcases hcase with ⟨hlt, c, hnext, hat'⟩ | ⟨hle, -, hnext⟩ | ⟨_, _, _, _, hnil, -⟩
      · have hpos := hlimit n
        obtain ⟨pages, hpages, hflat, hempty⟩ :=
          ih _ (by rw [← hm, List.length_drop]; omega) (n + 1) hat' rfl
        refine ⟨page :: pages, .more hfetch hnext hpages, ?_, ?_⟩
        · rw [List.flatMap_cons]
          refine (hitems.append hflat).trans ?_
          simp
        · have hpage : items page ≠ [] := fun hnil =>
            take_ne_nil hpos hlt (List.nil_perm.mp (hnil ▸ hitems))
          simp only [List.dropLast_singleton, List.not_mem_nil, false_implies, implies_true,
            iff_true] at hempty ⊢
          intro q hq hqnil
          rcases List.mem_cons.mp hq with rfl | hq
          · exact absurd hqnil hpage
          · exact hempty q hq hqnil
      · refine ⟨[page], .last hfetch hnext, ?_, ?_⟩
        · rw [List.take_of_length_le hle] at hitems
          simpa using hitems
        · simp [hnext]
      · cases hnil
  | cons s ss ihlater =>
    induction hm : rest.length using Nat.strong_induction_on generalizing n cursor rest with
    | _ m ih =>
      obtain ⟨page, hfetch, hitems, hcase⟩ := h n cursor rest (s :: ss) hat
      rcases hcase with ⟨hlt, c, hnext, hat'⟩ | ⟨_, hnil, -⟩ | ⟨hle, c, s', ss', heq, hnext, hat'⟩
      · have hpos := hlimit n
        obtain ⟨pages, hpages, hflat, hempty⟩ :=
          ih _ (by rw [← hm, List.length_drop]; omega) (n + 1) hat' rfl
        have hpage : items page ≠ [] := fun hnil =>
          take_ne_nil hpos hlt (List.nil_perm.mp (hnil ▸ hitems))
        have hdrop : rest.drop (limit n) ≠ [] := by
          simp only [ne_eq, List.drop_eq_nil_iff]
          omega
        have hrest : rest ≠ [] := by
          rintro rfl
          simp at hlt
        refine ⟨page :: pages, .more hfetch hnext hpages, ?_, ?_⟩
        · rw [List.flatMap_cons]
          refine (hitems.append hflat).trans ?_
          rw [← List.append_assoc, List.take_append_drop]
        · simp only [List.forall_mem_cons, hpage, false_implies, true_and,
            List.dropLast_cons_of_ne_nil (List.cons_ne_nil s ss), hempty, hdrop, hrest, ne_eq,
            not_false_eq_true]
      · cases hnil
      · cases heq
        obtain ⟨pages, hpages, hflat, hempty⟩ := ihlater (n + 1) hat'
        refine ⟨page :: pages, .more hfetch hnext hpages, ?_, ?_⟩
        · rw [List.flatMap_cons, List.flatten_cons]
          rw [List.take_of_length_le hle] at hitems
          exact hitems.append hflat
        · rw [List.take_of_length_le hle] at hitems
          have hnil : items page = [] ↔ rest = [] :=
            ⟨fun h => List.nil_perm.mp (h ▸ hitems), fun h => List.perm_nil.mp (h ▸ hitems)⟩
          simp only [List.forall_mem_cons, hempty, hnil, hnext,
            List.dropLast_cons_of_ne_nil (List.cons_ne_nil s ss), reduceCtorEq, imp_false, ne_eq]

end Sectioned

end Makolet.Lib
