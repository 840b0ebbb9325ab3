import Mathlib.Data.List.Basic

/-!
# Substitution in texts

`substitute` replaces the matches of a pattern from left to right, as `re.sub` does. A pattern is a
function that gives the replacement and the length of the match at the beginning of a text; it sees
the character before, for the boundaries of words. `replaceAll` is the case where it does not look.
-/

set_option autoImplicit false

namespace Makolet.Lib

variable {α : Type}

/-- The match at the beginning of a text, behind a character. -/
abbrev Pattern (α : Type) := Option α → List α → Option (List α × Nat)

/-- The matches are not empty: a first character is always consumed. The number counts what is left
of the last match. -/
def substitute (pattern : Pattern α) : Option α → Nat → List α → List α
  | _, _, [] => []
  | _, skip + 1, c :: text => substitute pattern (some c) skip text
  | before, 0, c :: text =>
    match pattern before (c :: text) with
    | some (replacement, length) =>
      replacement ++ substitute pattern (some c) (length - 1) text
    | none => c :: substitute pattern (some c) 0 text

/-- What holds of the characters of a text and of all replacements holds of the result. -/
theorem substitute_forall {P : α → Prop} {pattern : Pattern α} {text : List α}
    (htext : ∀ c ∈ text, P c)
    (hpattern : ∀ before s r n, pattern before s = some (r, n) → (∀ c ∈ s, P c) → ∀ c ∈ r, P c)
    (before : Option α) (skip : Nat) : ∀ c ∈ substitute pattern before skip text, P c := by
  induction text generalizing before skip with
  | nil => exact fun c h => absurd h List.not_mem_nil
  | cons d text ih =>
    have hrest := (List.forall_mem_cons.1 htext).2
    cases skip with
    | succ skip => exact ih hrest _ _
    | zero =>
      rw [substitute]
      split
      · rename_i r n hmatch
        intro c hc
        rcases List.mem_append.1 hc with hc | hc
        · exact hpattern _ _ _ _ hmatch htext c hc
        · exact ih hrest _ _ c hc
      · exact List.forall_mem_cons.2 ⟨htext d List.mem_cons_self, ih hrest _ _⟩

/-- `substitute` for a pattern that does not look back. -/
def replaceAll (find : List α → Option (List α × Nat)) (text : List α) : List α :=
  substitute (fun _ => find) none 0 text

section replaceAll

variable {find : List α → Option (List α × Nat)}

theorem substitute_eq_replaceAll (before : Option α) (skip : Nat) (text : List α) :
    substitute (fun _ => find) before skip text = replaceAll find (text.drop skip) := by
  induction text generalizing before skip with
  | nil =>
    rw [List.drop_nil]
    rfl
  | cons c text ih =>
    cases skip with
    | succ skip => exact ih _ _
    | zero =>
      rw [List.drop_zero, replaceAll, substitute, substitute]

@[simp] theorem replaceAll_nil : replaceAll find [] = [] := rfl

theorem replaceAll_of_none {c : α} {text : List α} (h : find (c :: text) = none) :
    replaceAll find (c :: text) = c :: replaceAll find text := by
  rw [replaceAll, substitute, h]
  simp only
  rw [substitute_eq_replaceAll, List.drop_zero]

theorem replaceAll_of_some {text r : List α} {n : Nat} (h : find text = some (r, n)) (hn : n ≠ 0)
    (hne : text ≠ []) : replaceAll find text = r ++ replaceAll find (text.drop n) := by
  cases text with
  | nil => exact absurd rfl hne
  | cons c text =>
    obtain ⟨n, rfl⟩ := Nat.exists_eq_succ_of_ne_zero hn
    rw [replaceAll, substitute, h]
    simp only
    rw [substitute_eq_replaceAll, Nat.succ_sub_one, List.drop_succ_cons]

/-- No match begins in a part of a text. -/
theorem replaceAll_append {part text : List α}
    (h : ∀ a b, part = a ++ b → b ≠ [] → find (b ++ text) = none) :
    replaceAll find (part ++ text) = part ++ replaceAll find text := by
  induction part with
  | nil => rfl
  | cons c part ih =>
    have hfirst : find (c :: (part ++ text)) = none := h [] (c :: part) rfl (List.cons_ne_nil _ _)
    rw [List.cons_append, replaceAll_of_none hfirst, ih]
    · rfl
    · rintro a b rfl hb
      exact h (c :: a) b rfl hb

theorem replaceAll_forall {P : α → Prop} {text : List α} (htext : ∀ c ∈ text, P c)
    (hfind : ∀ s r n, find s = some (r, n) → (∀ c ∈ s, P c) → ∀ c ∈ r, P c) :
    ∀ c ∈ replaceAll find text, P c :=
  substitute_forall htext (fun _ => hfind) none 0

end replaceAll

end Makolet.Lib
