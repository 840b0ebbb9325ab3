import Makolet.Lib.Keyset
import Makolet.Lib.Paging

/-!
# Traversals by ranges of a key

The `n`-th fetch of a traversal reads the rows of its own moment. A page is a range of them: the
rows above the place of its cursor and up to a bound, in order; the last page has no bound. What
the cursor of the next page is read as has to part the rows as the bound did.

`count_of_ranged` is the result for rows that change between the fetches: a row that is there all
the time, at one place, is returned once. A keyset page is such a range (`take_eq_rangeOf`).
-/

set_option autoImplicit false

namespace Makolet.Lib

universe u v

variable {α ι π ε : Type u} {κ : Type v} [LinearOrder κ] {place : α → κ}

/-- The rows above a cursor and up to a bound, in order. -/
def rangeOf (place : α → κ) (rows : List α) (above : κ → Bool) (upper : Option κ) : List α :=
  orderedBy place (rows.filter fun r => above (place r) && upper.all fun b => decide (place r ≤ b))

theorem mem_rangeOf {rows : List α} {above : κ → Bool} {upper : Option κ} {r : α} :
    r ∈ rangeOf place rows above upper ↔
      r ∈ rows ∧ above (place r) = true ∧ ∀ b ∈ upper, place r ≤ b := by
  rw [rangeOf, mem_orderedBy, List.mem_filter, Bool.and_eq_true]
  cases upper with
  | none => simp
  | some b => simp

theorem nodup_of_sorted {xs : List α} (hxs : xs.Pairwise fun a b => place a < place b) :
    xs.Nodup := by
  refine hxs.imp fun {a b} hab heq => ?_
  rw [heq] at hab
  exact lt_irrefl _ hab

/-- Two listings in strict order with the same rows are the same. -/
theorem eq_of_sorted {xs ys : List α} (hxs : xs.Pairwise fun a b => place a < place b)
    (hys : ys.Pairwise fun a b => place a < place b) (hmem : ∀ r, r ∈ xs ↔ r ∈ ys) : xs = ys :=
  ((List.perm_ext_iff_of_nodup (nodup_of_sorted hxs) (nodup_of_sorted hys)).mpr hmem).eq_of_pairwise
    (fun _ _ _ _ hab hba => absurd hba hab.not_gt) hxs hys

section Rows

variable {rows : List α} (hplaces : (rows.map place).Nodup)

include hplaces

theorem sorted_filter (keep : α → Bool) :
    (orderedBy place (rows.filter keep)).Pairwise fun a b => place a < place b :=
  sorted_orderedBy ((List.filter_sublist.map place).nodup hplaces)

/-- A keyset page: the first rows above the cursor. Its bound is the place of its last row, if
rows are left over. -/
theorem take_eq_rangeOf (above : κ → Bool) {limit : Nat} (hlimit : 0 < limit) :
    ∃ upper : Option κ,
      (rangeOf place rows above none).take limit = rangeOf place rows above upper ∧
      (upper = none ↔ (rangeOf place rows above none).length ≤ limit) ∧
      upper = (if limit < (rangeOf place rows above none).length then
        ((rangeOf place rows above none).take limit).getLast?.map place else none) ∧
      ∀ b ∈ upper, above b = true := by
  set xs := rangeOf place rows above none with hxs
  have hsorted : xs.Pairwise fun a b => place a < place b := sorted_filter hplaces _
  by_cases hmore : limit < xs.length
  · have hne : xs.take limit ≠ [] := take_ne_nil hlimit hmore
    obtain ⟨last, hlast⟩ := Option.isSome_iff_exists.mp (List.getLast?_isSome.mpr hne)
    have hlastMem : last ∈ xs := List.mem_of_mem_take (List.mem_of_getLast? hlast)
    refine ⟨some (place last), ?_, ?_, ?_, ?_⟩
    · refine @eq_of_sorted _ _ _ place _ _ (hsorted.sublist (List.take_sublist _ _))
        (sorted_filter hplaces _) fun r => ?_
      rw [mem_rangeOf]
      simp only [Option.mem_some_iff, forall_eq']
      constructor
      · intro hr
        have hrx := mem_rangeOf.mp (List.mem_of_mem_take hr)
        exact ⟨hrx.1, hrx.2.1, key_le_last hsorted hr hlast⟩
      · rintro ⟨hr, ha, hle⟩
        have hrx : r ∈ xs := mem_rangeOf.mpr ⟨hr, ha, fun b hb => by cases hb⟩
        rcases mem_take_or hsorted hrx (n := limit) with hmem | ⟨-, hbehind⟩
        · exact hmem
        · exact absurd (hbehind last (List.mem_of_getLast? hlast)) (not_lt.mpr hle)
    · exact ⟨fun h => (by cases h), fun hle => absurd hmore (Nat.not_lt.mpr hle)⟩
    · rw [if_pos hmore, hlast]
      rfl
    · intro b hb
      cases hb
      exact (mem_rangeOf.mp hlastMem).2.1
  · refine ⟨none, List.take_of_length_le (Nat.le_of_not_lt hmore), ?_, ?_, fun b hb => by cases hb⟩
    · exact iff_of_true rfl (Nat.le_of_not_lt hmore)
    · rw [if_neg hmore]

end Rows

/-! ## Rows that change -/

section Changing

variable [DecidableEq ι] {next : π → Option ι} {fetch : Nat → Option ι → Except ε π}
  {items : π → List α} {id : α → ι} {rows : Nat → List α} {above : Nat → Option ι → κ → Bool}

/-- Every page is a range, and its cursor is read as its bound as far as `k` is concerned. -/
def Ranged (next : π → Option ι) (fetch : Nat → Option ι → Except ε π) (items : π → List α)
    (place : α → κ) (rows : Nat → List α) (above : Nat → Option ι → κ → Bool) (fetches : Nat)
    (k : κ) : Prop :=
  ∀ n cursor page, n < fetches → fetch n cursor = .ok page →
    ∃ upper : Option κ, items page = rangeOf place (rows n) (above n cursor) upper ∧
      (next page = none → upper = none) ∧
      ∀ c, next page = some c → ∃ b, upper = some b ∧ (b < k → above n cursor k = true) ∧
        (n + 1 < fetches → (above (n + 1) (some c) k = true ↔ b < k))

/-- A row that is there at every fetch is returned once if the cursor is below it, and else not. -/
theorem count_of_ranged {n fetches : Nat} {cursor : Option ι} {pages : List π} {i : ι} {k : κ}
    (h : Traverses next fetch n cursor pages) (hfetches : n + pages.length = fetches)
    (hranged : Ranged next fetch items place rows above fetches k)
    (hids : ∀ m < fetches, ((rows m).map id).Nodup)
    (hkept : ∀ m < fetches, ∃ r ∈ rows m, id r = i ∧ place r = k) :
    (pages.flatMap fun page => (items page).map id).count i =
      if above n cursor k = true then 1 else 0 := by
  -- A range has a row at most once.
  have hcount : ∀ m < fetches, ∀ {above : κ → Bool} {upper : Option κ},
      ((rangeOf place (rows m) above upper).map id).count i =
        if above k = true ∧ ∀ b ∈ upper, k ≤ b then 1 else 0 := by
    intro m hm above upper
    obtain ⟨r, hr, rfl, rfl⟩ := hkept m hm
    have hnodup : ((rangeOf place (rows m) above upper).map id).Nodup := by
      rw [rangeOf, orderedBy, ((List.perm_insertionSort _ _).map id).nodup_iff]
      exact (List.filter_sublist.map id).nodup (hids m hm)
    have hmem : id r ∈ (rangeOf place (rows m) above upper).map id ↔
        above (place r) = true ∧ ∀ b ∈ upper, place r ≤ b := by
      constructor
      · intro hin
        obtain ⟨r', hr', heq⟩ := List.mem_map.mp hin
        obtain rfl := List.inj_on_of_nodup_map (hids m hm) (mem_rangeOf.mp hr').1 hr heq
        exact (mem_rangeOf.mp hr').2
      · exact fun hcond => List.mem_map_of_mem (mem_rangeOf.mpr ⟨hr, hcond⟩)
    split
    · rename_i hcond
      exact List.count_eq_one_of_mem hnodup (hmem.mpr hcond)
    · rename_i hcond
      exact List.count_eq_zero_of_not_mem (mt hmem.mp hcond)
  induction h with
  | @last n cursor page hfetch hnext =>
    rw [List.length_singleton] at hfetches
    obtain ⟨upper, hitems, hlast, -⟩ := hranged n cursor page (by omega) hfetch
    rw [List.flatMap_cons, List.flatMap_nil, List.append_nil, hitems, hcount n (by omega),
      hlast hnext]
    simp
  | @more n cursor page c pages hfetch hnext hrest ih =>
    rw [List.length_cons] at hfetches
    have hpos : 0 < pages.length := by
      cases hrest <;> exact Nat.succ_pos _
    obtain ⟨upper, hitems, -, hmore⟩ := hranged n cursor page (by omega) hfetch
    obtain ⟨b, rfl, hbehind, hparts⟩ := hmore c hnext
    rw [List.flatMap_cons, List.count_append, hitems, hcount n (by omega), ih (by omega)]
    have hparts := hparts (by omega)
    simp only [Option.mem_some_iff, forall_eq', hparts]
    by_cases hlt : b < k
    · rw [if_neg fun hc => absurd hc.2 (not_le.mpr hlt), if_pos hlt, if_pos (hbehind hlt)]
    · rw [if_neg hlt]
      simp only [not_lt.mp hlt, and_true, Nat.add_zero]

end Changing

end Makolet.Lib
