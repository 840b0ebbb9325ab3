import Mathlib.Data.List.Basic
import Mathlib.Data.Nat.Digits.Defs

/-!
# Unambiguous texts

A writer is unambiguous when the text it writes determines the value, whatever text follows. Such
writers compose: after a literal, one after the other, and in separated lists. The last section is
about the texts of JSON: quoted strings, with the escapes of `json.dumps` without ASCII escapes, and
natural numbers that a fixed character follows.
-/

set_option autoImplicit false

namespace Makolet.Lib

universe u v

variable {α : Type u} {β : Type v}

/-- The value and what follows are determined by the whole text. -/
def Unambiguous (f : α → List Char) : Prop :=
  ∀ a b r r', f a ++ r = f b ++ r' → a = b ∧ r = r'

namespace Unambiguous

theorem injective {f : α → List Char} (h : Unambiguous f) : Function.Injective f := fun a b hab =>
  (h a b [] [] (by rw [hab])).1

/-- A literal in front. -/
theorem literal {f : α → List Char} (h : Unambiguous f) (text : List Char) :
    Unambiguous fun a => text ++ f a := by
  intro a b r r' heq
  simp only [List.append_assoc] at heq
  exact h a b r r' (List.append_cancel_left heq)

/-- A literal behind. -/
theorem before {f : α → List Char} (h : Unambiguous f) (text : List Char) :
    Unambiguous fun a => f a ++ text := by
  intro a b r r' heq
  simp only [List.append_assoc] at heq
  obtain ⟨hab, hr⟩ := h a b _ _ heq
  exact ⟨hab, List.append_cancel_left hr⟩

/-- Two writers one after the other. -/
theorem pair {f : α → List Char} {g : β → List Char} (hf : Unambiguous f) (hg : Unambiguous g) :
    Unambiguous fun p : α × β => f p.1 ++ g p.2 := by
  rintro ⟨a, b⟩ ⟨a', b'⟩ r r' heq
  simp only [List.append_assoc] at heq
  obtain ⟨rfl, hrest⟩ := hf a a' _ _ heq
  obtain ⟨rfl, hr⟩ := hg b b' _ _ hrest
  exact ⟨rfl, hr⟩

/-- A value written through an injection. -/
theorem comap {f : β → List Char} (h : Unambiguous f) {e : α → β} (he : Function.Injective e) :
    Unambiguous fun a => f (e a) := by
  intro a b r r' heq
  obtain ⟨hab, hr⟩ := h _ _ r r' heq
  exact ⟨he hab, hr⟩

end Unambiguous

/-- A list of elements each of which follows a character, closed by another character. -/
def writeEach (f : α → List Char) (mark close : Char) : List α → List Char
  | [] => [close]
  | a :: rest => mark :: (f a ++ writeEach f mark close rest)

theorem Unambiguous.writeEach {f : α → List Char} (h : Unambiguous f) {mark close : Char}
    (hne : mark ≠ close) : Unambiguous (writeEach f mark close) := by
  intro xs
  induction xs with
  | nil =>
    intro ys r r' heq
    cases ys with
    | nil => exact ⟨rfl, List.tail_eq_of_cons_eq heq⟩
    | cons y ys => exact absurd (List.head_eq_of_cons_eq heq).symm hne
  | cons x xs ih =>
    intro ys r r' heq
    cases ys with
    | nil => exact absurd (List.head_eq_of_cons_eq heq) hne
    | cons y ys =>
      have htail : (f x ++ Lib.writeEach f mark close xs) ++ r =
          (f y ++ Lib.writeEach f mark close ys) ++ r' := List.tail_eq_of_cons_eq heq
      rw [List.append_assoc, List.append_assoc] at htail
      obtain ⟨rfl, hrest⟩ := h x y _ _ htail
      obtain ⟨rfl, hr⟩ := ih ys r r' hrest
      exact ⟨rfl, hr⟩

/-- A list in brackets, with commas between the elements. -/
def writeList (f : α → List Char) : List α → List Char
  | [] => ['[', ']']
  | a :: rest => '[' :: (f a ++ Lib.writeEach f ',' ']' rest)

/-- A list is unambiguous when every element begins with the same character, which is not the
closing bracket. -/
theorem Unambiguous.writeList {f : α → List Char} (h : Unambiguous f) {first : Char}
    (hfirst : ∀ a, ∃ rest, f a = first :: rest) (hne : first ≠ ']') :
    Unambiguous (writeList f) := by
  have hclosed (a : α) (as : List α) (r r' : List Char) :
      [']'] ++ r ≠ (f a ++ Lib.writeEach f ',' ']' as) ++ r' := by
    obtain ⟨rest, hrest⟩ := hfirst a
    rw [hrest]
    exact fun heq => hne (List.head_eq_of_cons_eq heq).symm
  intro xs ys r r' heq
  cases xs with
  | nil =>
    cases ys with
    | nil => exact ⟨rfl, List.append_cancel_left heq⟩
    | cons y ys => exact absurd (List.tail_eq_of_cons_eq heq) (hclosed y ys r r')
  | cons x xs =>
    cases ys with
    | nil => exact absurd (List.tail_eq_of_cons_eq heq).symm (hclosed x xs r' r)
    | cons y ys =>
      have htail : (f x ++ Lib.writeEach f ',' ']' xs) ++ r =
          (f y ++ Lib.writeEach f ',' ']' ys) ++ r' := List.tail_eq_of_cons_eq heq
      rw [List.append_assoc, List.append_assoc] at htail
      obtain ⟨rfl, hrest⟩ := h x y _ _ htail
      obtain ⟨rfl, hr⟩ := h.writeEach (by decide) xs ys r r' hrest
      exact ⟨rfl, hr⟩

/-! ## JSON texts -/

def hexDigit (n : Nat) : Char := "0123456789abcdef".toList.getD n '0'

/-- The escape of one character in a JSON string. -/
def escapeChar (c : Char) : List Char :=
  if c = '"' then ['\\', '"']
  else if c = '\\' then ['\\', '\\']
  else if c = '\n' then ['\\', 'n']
  else if c = '\r' then ['\\', 'r']
  else if c = '\t' then ['\\', 't']
  else if c = '\x08' then ['\\', 'b']
  else if c = '\x0c' then ['\\', 'f']
  else if c.toNat < 32 then "\\u00".toList ++ [hexDigit (c.toNat / 16), hexDigit (c.toNat % 16)]
  else [c]

/-- A quoted string. -/
def quote (s : List Char) : List Char := '"' :: (s.flatMap escapeChar ++ ['"'])

def natText (n : Nat) : List Char := Nat.toDigits 10 n

/-- Read one character back from its escape. -/
def unescape : List Char → Option (Char × List Char)
  | '\\' :: 'u' :: '0' :: '0' :: h :: l :: rest =>
    some (Char.ofNat (16 * "0123456789abcdef".toList.idxOf h + "0123456789abcdef".toList.idxOf l), rest)
  | '\\' :: 'n' :: rest => some ('\n', rest)
  | '\\' :: 'r' :: rest => some ('\r', rest)
  | '\\' :: 't' :: rest => some ('\t', rest)
  | '\\' :: 'b' :: rest => some ('\x08', rest)
  | '\\' :: 'f' :: rest => some ('\x0c', rest)
  | '\\' :: c :: rest => some (c, rest)
  | '"' :: _ => none
  | c :: rest => some (c, rest)
  | [] => none

theorem hexDigit_read : ∀ n < 32, 16 * "0123456789abcdef".toList.idxOf (hexDigit (n / 16)) +
    "0123456789abcdef".toList.idxOf (hexDigit (n % 16)) = n := by
  decide

theorem unescape_escapeChar (c : Char) (r : List Char) :
    unescape (escapeChar c ++ r) = some (c, r) := by
  unfold escapeChar
  split_ifs with h1 h2 h3 h4 h5 h6 h7 h8
  · subst h1; rfl
  · subst h2; rfl
  · subst h3; rfl
  · subst h4; rfl
  · subst h5; rfl
  · subst h6; rfl
  · subst h7; rfl
  · show some (Char.ofNat _, r) = some (c, r)
    rw [hexDigit_read _ h8, Char.ofNat_toNat]
  · show unescape (c :: r) = _
    unfold unescape
    split
    all_goals rename_i heq
    case h_8 => exact absurd (List.head_eq_of_cons_eq heq) h1
    case h_9 => rw [List.head_eq_of_cons_eq heq, List.tail_eq_of_cons_eq heq]
    case h_10 => cases heq
    all_goals exact absurd (List.head_eq_of_cons_eq heq) h2

theorem unescape_quote (r : List Char) : unescape ('"' :: r) = none := rfl

theorem quote_unambiguous : Unambiguous quote := by
  -- The strings are compared character by character; the closing quote is no escape.
  have hbody : ∀ s t : List Char, ∀ r r' : List Char,
      s.flatMap escapeChar ++ '"' :: r = t.flatMap escapeChar ++ '"' :: r' → s = t ∧ r = r' := by
    intro s
    induction s with
    | nil =>
      intro t r r' heq
      cases t with
      | nil => exact ⟨rfl, List.tail_eq_of_cons_eq heq⟩
      | cons d t =>
        have hread := congrArg unescape heq
        simp only [List.flatMap_nil, List.nil_append, List.flatMap_cons, List.append_assoc,
          unescape_escapeChar, unescape_quote] at hread
        cases hread
    | cons c s ih =>
      intro t r r' heq
      have hread := congrArg unescape heq
      cases t with
      | nil =>
        simp only [List.flatMap_nil, List.nil_append, List.flatMap_cons, List.append_assoc,
          unescape_escapeChar, unescape_quote] at hread
        cases hread
      | cons d t =>
        simp only [List.flatMap_cons, List.append_assoc, unescape_escapeChar, Option.some.injEq,
          Prod.mk.injEq] at hread
        obtain ⟨rfl, hr⟩ := ih t r r' hread.2
        exact ⟨by rw [hread.1], hr⟩
  intro s t r r' heq
  have htail := List.tail_eq_of_cons_eq heq
  refine hbody s t r r' ?_
  simpa [List.append_assoc] using htail

def boolText (b : Bool) : List Char := if b then "true".toList else "false".toList

theorem boolText_unambiguous : Unambiguous boolText := by
  intro a b r r' heq
  cases a <;> cases b
  · exact ⟨rfl, List.append_cancel_left heq⟩
  · exact absurd (List.head_eq_of_cons_eq heq) (by decide)
  · exact absurd (List.head_eq_of_cons_eq heq) (by decide)
  · exact ⟨rfl, List.append_cancel_left heq⟩

end Makolet.Lib
