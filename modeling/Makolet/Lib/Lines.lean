import Mathlib.Data.List.Basic

/-!
# Pieces that end with a mark

`cut mark s` are the pieces of a sequence that end with a mark, and what is behind the last one.
What was cut need not be looked at again: `cut_append` says that the pieces of a longer sequence are
those of the beginning, followed by those of what was left of it and what was added.
-/

set_option autoImplicit false

namespace Makolet.Lib

universe u

variable {α : Type u} [DecidableEq α]

/-- An element in front: it belongs to the first piece, or to what is left where there is none. -/
def cutCons (mark a : α) : List (List α) × List α → List (List α) × List α
  | (pieces, left) =>
    if a = mark then ([a] :: pieces, left)
    else
      match pieces with
      | [] => ([], a :: left)
      | piece :: pieces => ((a :: piece) :: pieces, left)

def cut (mark : α) : List α → List (List α) × List α
  | [] => ([], [])
  | a :: s => cutCons mark a (cut mark s)

section Cut

variable {mark : α}

theorem cutCons_mark (r : List (List α) × List α) :
    cutCons mark mark r = ([mark] :: r.1, r.2) :=
  if_pos rfl

theorem cutCons_nil {a : α} (h : a ≠ mark) (left : List α) :
    cutCons mark a ([], left) = ([], a :: left) :=
  if_neg h

theorem cutCons_cons {a : α} (h : a ≠ mark) (piece : List α) (pieces : List (List α))
    (left : List α) :
    cutCons mark a (piece :: pieces, left) = ((a :: piece) :: pieces, left) :=
  if_neg h

theorem cut_of_not_mem {s : List α} (h : mark ∉ s) : cut mark s = ([], s) := by
  induction s with
  | nil => rfl
  | cons a s ih =>
    rw [List.mem_cons, not_or] at h
    rw [cut, ih h.2, cutCons_nil (Ne.symm h.1)]

theorem cut_append (s t : List α) :
    cut mark (s ++ t) =
      ((cut mark s).1 ++ (cut mark ((cut mark s).2 ++ t)).1,
        (cut mark ((cut mark s).2 ++ t)).2) := by
  induction s with
  | nil => rfl
  | cons a s ih =>
    rw [List.cons_append, cut, ih, cut]
    obtain ⟨pieces, left⟩ := cut mark s
    by_cases ha : a = mark
    · subst ha
      rw [cutCons_mark, cutCons_mark]
      rfl
    · cases pieces with
      | nil =>
        rw [cutCons_nil ha, List.cons_append, cut]
        rfl
      | cons piece pieces =>
        rw [List.cons_append, cutCons_cons ha, cutCons_cons ha]
        rfl

/-- The first piece. -/
theorem cut_mark {s : List α} (h : mark ∉ s) (t : List α) :
    cut mark (s ++ mark :: t) = ((s ++ [mark]) :: (cut mark t).1, (cut mark t).2) := by
  induction s with
  | nil => rw [List.nil_append, cut, cutCons_mark, List.nil_append]
  | cons a s ih =>
    rw [List.mem_cons, not_or] at h
    rw [List.cons_append, cut, ih h.2, cutCons_cons (Ne.symm h.1)]
    rfl

/-- There is no mark in what is left. -/
theorem mark_not_mem_left (s : List α) : mark ∉ (cut mark s).2 := by
  induction s with
  | nil => exact List.not_mem_nil
  | cons a s ih =>
    rw [cut]
    obtain ⟨⟨pieces, left⟩, hr⟩ : ∃ r, cut mark s = r := ⟨_, rfl⟩
    rw [hr] at ih ⊢
    by_cases ha : a = mark
    · rw [ha, cutCons_mark]
      exact ih
    · cases pieces with
      | nil =>
        rw [cutCons_nil ha, List.mem_cons, not_or]
        exact ⟨Ne.symm ha, ih⟩
      | cons piece pieces =>
        rw [cutCons_cons ha]
        exact ih

/-- What was left is the beginning of the next piece, or of what is left then. -/
theorem length_left_le {s t : List α} (h : mark ∉ s) {n : Nat}
    (hpieces : ∀ piece ∈ (cut mark (s ++ t)).1, piece.length ≤ n)
    (hleft : (cut mark (s ++ t)).2.length ≤ n) : s.length ≤ n := by
  by_cases ht : mark ∈ t
  · obtain ⟨p, q, rfl, hp⟩ := List.eq_append_cons_of_mem ht
    have hnone : mark ∉ s ++ p := fun hmem => (List.mem_append.1 hmem).elim h hp
    rw [← List.append_assoc, cut_mark hnone] at hpieces
    have hfirst := hpieces _ List.mem_cons_self
    rw [List.length_append, List.length_append] at hfirst
    omega
  · have hnone : mark ∉ s ++ t := fun hmem => (List.mem_append.1 hmem).elim h ht
    rw [cut_of_not_mem hnone, List.length_append] at hleft
    omega

end Cut

end Makolet.Lib
