import Mathlib.Data.List.Sort
import Mathlib.Order.Basic

/-!
# Pages of an ordered listing

A page of a listing that is ordered by a key is a prefix of what lies behind some place of the
order. An element of the listing is on the page, or behind all of it; where no element is left over,
it is on the page.
-/

set_option autoImplicit false

namespace Makolet.Lib

universe u v

variable {α : Type u} {κ : Type v} [LinearOrder κ] {key : α → κ}

/-- The elements in the order of their keys. -/
def orderedBy (key : α → κ) (xs : List α) : List α :=
  xs.insertionSort fun a b => key a ≤ key b

theorem mem_orderedBy {xs : List α} {x : α} : x ∈ orderedBy key xs ↔ x ∈ xs :=
  List.mem_insertionSort _

theorem nodup_orderedBy {xs : List α} (h : (xs.map key).Nodup) :
    ((orderedBy key xs).map key).Nodup :=
  (((List.perm_insertionSort _ xs).map key).nodup_iff).mpr h

theorem pairwise_orderedBy (xs : List α) :
    (orderedBy key xs).Pairwise fun a b => key a ≤ key b := by
  have htotal : Std.Total fun a b : α => key a ≤ key b := ⟨fun a b => le_total (key a) (key b)⟩
  have htrans : IsTrans α fun a b => key a ≤ key b := ⟨fun _ _ _ => le_trans⟩
  exact List.pairwise_insertionSort _ xs

theorem sorted_orderedBy {xs : List α} (h : (xs.map key).Nodup) :
    (orderedBy key xs).Pairwise fun a b => key a < key b := by
  have hne := List.pairwise_map.mp (nodup_orderedBy h)
  exact (pairwise_orderedBy xs).imp₂ (fun _ _ hle hne => lt_of_le_of_ne hle hne) hne

section Prefix

variable {xs : List α} (hsorted : xs.Pairwise fun a b => key a < key b) {n : Nat} {x : α}

include hsorted

/-- An element is in a prefix, or behind all of it. -/
theorem mem_take_or (hx : x ∈ xs) :
    x ∈ xs.take n ∨ n < xs.length ∧ ∀ y ∈ xs.take n, key y < key x := by
  rw [← List.take_append_drop n xs] at hx hsorted
  rcases List.mem_append.mp hx with htake | hdrop
  · exact .inl htake
  · refine .inr ⟨?_, fun y hy => (List.pairwise_append.mp hsorted).2.2 y hy x hdrop⟩
    have hpos := List.length_pos_of_mem hdrop
    rw [List.length_drop] at hpos
    omega

/-- Nothing in a prefix lies behind its last element. -/
theorem key_le_last (hx : x ∈ xs.take n) {last : α} (hlast : (xs.take n).getLast? = some last) :
    key x ≤ key last := by
  obtain ⟨init, hinit⟩ := List.getLast?_eq_some_iff.mp hlast
  have hprefix := hsorted.sublist (List.take_sublist n xs)
  rw [hinit] at hx hprefix
  rcases List.mem_append.mp hx with hx | hx
  · exact ((List.pairwise_append.mp hprefix).2.2 x hx last List.mem_cons_self).le
  · rw [List.mem_singleton.mp hx]

end Prefix

end Makolet.Lib
