import Mathlib.Data.List.TakeWhile
import Makolet.Observability.Redaction

/-!
# Which texts a log does not tell apart

`Alike` texts are equal except inside the values of secret query parameters. `hide` replaces these
values; `redactQuerySecrets_eq_hide` says that the loop over the matches does the same.
-/

set_option autoImplicit false

namespace Makolet.Observability

open Makolet.Lib

/-! ## Query parameters -/

/-- A key behind its separator. -/
structure IsQueryKey (separator : Nat) (key : Text) : Prop where
  separator_eq : separator = 63 ∨ separator = 38
  key_ne : key ≠ []
  key_le : key.length ≤ maximumString
  characters : ∀ p ∈ key, isKeyCharacter p = true

/-- A parameter without its value. -/
def IsHead (separator : Nat) (key head : Text) : Prop :=
  head = separator :: (key ++ [61]) ∧ IsQueryKey separator key

/-- What may stand inside of a value. -/
def IsValue (value : Text) : Prop := ∀ p ∈ value, isValueEnd p = false

/-- What may stand behind a value. -/
def IsBounded (text : Text) : Prop := ∀ p ∈ text.head?, isValueEnd p = true

theorem takeWhile_of_bounded {f : Nat → Bool} {a b : Text} (ha : ∀ p ∈ a, f p = true)
    (hb : ∀ p ∈ b.head?, f p = false) :
    (a ++ b).takeWhile f = a ∧ (a ++ b).dropWhile f = b := by
  rw [List.takeWhile_append_of_pos ha, List.dropWhile_append_of_pos ha]
  cases b with
  | nil => simp
  | cons p b =>
    have hp : ¬f p = true := by
      rw [hb p rfl]
      exact Bool.false_ne_true
    rw [List.takeWhile_cons_of_neg hp, List.dropWhile_cons_of_neg hp, List.append_nil]
    exact ⟨rfl, rfl⟩

theorem value_takeWhile {v s : Text} (hv : IsValue v) (hs : IsBounded s) :
    (v ++ s).takeWhile (!isValueEnd ·) = v ∧ (v ++ s).dropWhile (!isValueEnd ·) = s := by
  apply takeWhile_of_bounded
  · intro p hp
    rw [hv p hp]
    rfl
  · intro p hp
    rw [hs p hp]
    rfl

/-- A text is cut at the end of a value in one way. -/
theorem value_unique {v w s t : Text} (hv : IsValue v) (hw : IsValue w) (hs : IsBounded s)
    (ht : IsBounded t) (h : v ++ s = w ++ t) : v = w ∧ s = t := by
  obtain ⟨htake, hdrop⟩ := value_takeWhile hv hs
  obtain ⟨htake', hdrop'⟩ := value_takeWhile hw ht
  rw [h] at htake hdrop
  exact ⟨htake.symm.trans htake', hdrop.symm.trans hdrop'⟩

theorem isValueEnd_of_isKeyCharacter {p : Nat} (h : isKeyCharacter p = true) :
    isValueEnd p = false := by
  simp only [isKeyCharacter, Bool.and_eq_true, decide_eq_true_eq, ne_eq, Bool.not_eq_true'] at h
  simp only [isValueEnd, Bool.or_eq_false_iff, decide_eq_false_iff_not]
  tauto

theorem not_separator_of_isKeyCharacter {p : Nat} (h : isKeyCharacter p = true) :
    p ≠ 63 ∧ p ≠ 38 := by
  simp only [isKeyCharacter, Bool.and_eq_true, decide_eq_true_eq, ne_eq, Bool.not_eq_true'] at h
  tauto

theorem queryKeyAt_eq_some {text key : Text} :
    queryKeyAt text = some key ↔
      ∃ separator rest, text = separator :: (key ++ 61 :: rest) ∧ IsQueryKey separator key := by
  constructor
  · intro h
    cases text with
    | nil => cases h
    | cons separator text =>
      rw [queryKeyAt] at h
      split at h
      · rename_i hmatch
        obtain rfl := Option.some.inj h
        obtain ⟨hseparator, hne, hle, hequal⟩ := hmatch
        obtain ⟨rest, hrest⟩ : ∃ rest, text.dropWhile isKeyCharacter = 61 :: rest := by
          cases hdrop : text.dropWhile isKeyCharacter with
          | nil => rw [hdrop] at hequal; cases hequal
          | cons p rest =>
            rw [hdrop] at hequal
            cases hequal
            exact ⟨rest, rfl⟩
        refine ⟨separator, rest, ?_, hseparator, hne, hle, fun p hp => List.mem_takeWhile_imp hp⟩
        rw [← hrest, List.takeWhile_append_dropWhile]
      · cases h
  · rintro ⟨separator, rest, rfl, hkey⟩
    obtain ⟨htake, hdrop⟩ := takeWhile_of_bounded (b := 61 :: rest) hkey.characters
      (fun p hp => by cases hp; rfl)
    rw [queryKeyAt]
    simp only [htake, hdrop]
    rw [if_pos ⟨hkey.separator_eq, hkey.key_ne, hkey.key_le, rfl⟩]

section secrets

variable (u : Unicode)

/-- A secret parameter without its value. -/
def IsSecretHead (head : Text) : Prop :=
  ∃ separator key, IsHead separator key head ∧ isSecretQueryKey u key = true

/-- The secret parameter at the beginning of a text: the text before its value, the value, and what
follows. -/
def secretAt (text : Text) : Option (Text × Text × Text) :=
  (queryKeyAt text).bind fun key =>
    if isSecretQueryKey u key then
      let rest := text.drop (key.length + 2)
      some (text.take (key.length + 2), rest.takeWhile (!isValueEnd ·),
        rest.dropWhile (!isValueEnd ·))
    else none

/-- Equal except inside the values of secret query parameters. -/
inductive Alike : Text → Text → Prop
  | nil : Alike [] []
  | same (p : Nat) {s t : Text} (h : Alike s t) : Alike (p :: s) (p :: t)
  | parameter {head v w s t : Text} (hhead : IsSecretHead u head) (hv : IsValue v)
      (hw : IsValue w) (hs : IsBounded s) (ht : IsBounded t) (h : Alike s t) :
      Alike (head ++ (v ++ s)) (head ++ (w ++ t))

end secrets

variable {u : Unicode}

theorem take_head {separator : Nat} {key head : Text} (h : IsHead separator key head)
    (rest : Text) :
    (head ++ rest).take (key.length + 2) = head ∧ (head ++ rest).drop (key.length + 2) = rest := by
  have hlength : key.length + 2 = head.length := by
    rw [h.1]
    simp only [List.length_cons, List.length_append, List.length_nil]
  rw [hlength]
  exact ⟨List.take_left, List.drop_left⟩

theorem secretAt_eq_some {text head v s : Text} :
    secretAt u text = some (head, v, s) ↔
      text = head ++ (v ++ s) ∧ IsSecretHead u head ∧ IsValue v ∧ IsBounded s := by
  constructor
  · intro h
    obtain ⟨key, hkey, h⟩ := Option.bind_eq_some_iff.1 h
    split at h
    · rename_i hsecret
      obtain ⟨separator, rest, rfl, hquery⟩ := queryKeyAt_eq_some.1 hkey
      have hhead : IsHead separator key (separator :: (key ++ [61])) := ⟨rfl, hquery⟩
      have htext : separator :: (key ++ 61 :: rest) = separator :: (key ++ [61]) ++ rest := by
        rw [List.cons_append, List.append_assoc, List.singleton_append]
      obtain ⟨htake, hdrop⟩ := take_head hhead rest
      rw [← htext] at htake hdrop
      simp only [htake, hdrop] at h
      cases h
      refine ⟨?_, ⟨separator, key, hhead, hsecret⟩, ?_, ?_⟩
      · rw [List.takeWhile_append_dropWhile, htext]
      · intro p hp
        have hvalue := List.mem_takeWhile_imp hp
        simpa using hvalue
      · intro p hp
        have hend := List.head?_dropWhile_not (!isValueEnd ·) rest
        rw [Option.mem_def.1 hp] at hend
        simpa using hend
    · cases h
  · rintro ⟨rfl, ⟨separator, key, hhead, hsecret⟩, hv, hs⟩
    have hkey : queryKeyAt (head ++ (v ++ s)) = some key := by
      refine queryKeyAt_eq_some.2 ⟨separator, v ++ s, ?_, hhead.2⟩
      rw [hhead.1, List.cons_append, List.append_assoc, List.singleton_append]
    obtain ⟨htake, hdrop⟩ := take_head hhead (v ++ s)
    obtain ⟨hvalue, hrest⟩ := value_takeWhile hv hs
    rw [secretAt, hkey]
    simp only [Option.bind_some, htake, hdrop, hvalue, hrest, if_pos hsecret]

theorem IsHead.not_separator {separator : Nat} {key head : Text} (h : IsHead separator key head) :
    ∀ p ∈ key ++ [61], p ≠ 63 ∧ p ≠ 38 := by
  intro p hp
  rcases List.mem_append.1 hp with hp | hp
  · exact not_separator_of_isKeyCharacter (h.2.characters p hp)
  · rw [List.mem_singleton.1 hp]
    decide

/-- A parameter that begins inside of a value is inside of it. -/
theorem IsHead.isValue {separator : Nat} {key head : Text} (h : IsHead separator key head)
    (hseparator : isValueEnd separator = false) : IsValue head := by
  rw [h.1]
  intro p hp
  rcases List.mem_cons.1 hp with rfl | hp
  · exact hseparator
  · rcases List.mem_append.1 hp with hp | hp
    · exact isValueEnd_of_isKeyCharacter (h.2.characters p hp)
    · rw [List.mem_singleton.1 hp]
      decide

/-- No parameter begins behind the separator of another one. -/
theorem IsHead.queryKeyAt_eq_none {separator : Nat} {key head : Text}
    (h : IsHead separator key head) {a b : Text} (hsplit : key ++ [61] = a ++ b) (hb : b ≠ []) (rest : Text) :
    queryKeyAt (b ++ rest) = none := by
  cases b with
  | nil => exact absurd rfl hb
  | cons p b =>
    have hp := h.not_separator p (by rw [hsplit]; exact List.mem_append_right _ List.mem_cons_self)
    rw [Option.eq_none_iff_forall_ne_some]
    intro key' hkey'
    obtain ⟨separator', rest', htext, hquery⟩ := queryKeyAt_eq_some.1 hkey'
    obtain ⟨rfl, _⟩ := List.cons.inj htext
    rcases hquery.separator_eq with heq | heq
    · exact hp.1 heq
    · exact hp.2 heq

/-! ## Alike texts -/

theorem Alike.symm {s t : Text} (h : Alike u s t) : Alike u t s := by
  induction h with
  | nil => exact .nil
  | same p _ ih => exact .same p ih
  | parameter hhead hv hw hs ht _ ih => exact .parameter hhead hw hv ht hs ih

theorem Alike.append_left {s t : Text} (part : Text) (h : Alike u s t) :
    Alike u (part ++ s) (part ++ t) := by
  induction part with
  | nil => exact h
  | cons p part ih => exact .same p ih

/-- Inside of a part without separators the texts are the same. -/
theorem Alike.of_part {part s t : Text} (hpart : ∀ p ∈ part, p ≠ 63 ∧ p ≠ 38)
    (h : Alike u (part ++ s) t) : ∃ t', t = part ++ t' ∧ Alike u s t' := by
  induction part generalizing t with
  | nil => exact ⟨t, rfl, h⟩
  | cons p part ih =>
    obtain ⟨hp, hrest⟩ := List.forall_mem_cons.1 hpart
    generalize htext : (p :: part) ++ s = text at h
    cases h with
    | nil => cases htext
    | same q h =>
      obtain ⟨rfl, rfl⟩ := List.cons.inj htext
      obtain ⟨t', rfl, h'⟩ := ih hrest h
      exact ⟨t', rfl, h'⟩
    | parameter hhead =>
      obtain ⟨separator, key, hhead, _⟩ := hhead
      rw [hhead.1] at htext
      obtain ⟨rfl, _⟩ := List.cons.inj htext
      rcases hhead.2.separator_eq with heq | heq
      · exact absurd heq hp.1
      · exact absurd heq hp.2

theorem Alike.head?_eq {s t : Text} (h : Alike u s t) : s.head? = t.head? := by
  cases h with
  | nil => rfl
  | same => rfl
  | parameter hhead =>
    obtain ⟨separator, key, hhead, _⟩ := hhead
    rw [hhead.1]
    rfl

theorem Alike.isBounded {s t : Text} (h : Alike u s t) (hs : IsBounded s) : IsBounded t := by
  intro p hp
  rw [← h.head?_eq] at hp
  exact hs p hp

/-- A value that stands in one of the texts stands in the other one. -/
theorem Alike.of_value {v s t : Text} (hv : IsValue v) (hs : IsBounded s)
    (h : Alike u (v ++ s) t) :
    ∃ w t', t = w ++ t' ∧ IsValue w ∧ IsBounded t' ∧ Alike u s t' := by
  generalize htext : v ++ s = text at h
  induction h generalizing v with
  | nil =>
    obtain ⟨rfl, rfl⟩ := List.append_eq_nil_iff.1 htext
    exact ⟨[], [], rfl, hv, hs, .nil⟩
  | @same p s' t' h ih =>
    cases v with
    | nil =>
      have hall : Alike u s (p :: t') := by
        rw [List.nil_append] at htext
        rw [htext]
        exact .same p h
      exact ⟨[], p :: t', rfl, hv, hall.isBounded hs, hall⟩
    | cons q v =>
      obtain ⟨rfl, htail⟩ := List.cons.inj htext
      obtain ⟨hq, hrest⟩ := List.forall_mem_cons.1 hv
      obtain ⟨w, t'', rfl, hw, ht, h'⟩ := ih hrest htail
      exact ⟨q :: w, t'', rfl, List.forall_mem_cons.2 ⟨hq, hw⟩, ht, h'⟩
  | @parameter head v' w' s' t' hhead hv' hw' hs' ht' h ih =>
    cases v with
    | nil =>
      have hall : Alike u s (head ++ (w' ++ t')) := by
        rw [List.nil_append] at htext
        rw [htext]
        exact .parameter hhead hv' hw' hs' ht' h
      exact ⟨[], _, rfl, hv, hall.isBounded hs, hall⟩
    | cons q v =>
      -- No character of a key ends a value, so the parameter ends with the value.
      have hin : IsValue head := by
        obtain ⟨separator, key, hkey, _⟩ := hhead
        have htext' := htext
        rw [hkey.1] at htext'
        obtain ⟨rfl, _⟩ := List.cons.inj htext'
        exact hkey.isValue (hv q List.mem_cons_self)
      have happend {a : Text} (ha : IsValue a) : IsValue (head ++ a) := by
        intro p hp
        rcases List.mem_append.1 hp with hp | hp
        · exact hin p hp
        · exact ha p hp
      rw [← List.append_assoc] at htext
      obtain ⟨_, rfl⟩ := value_unique hv (happend hv') hs hs' htext
      exact ⟨head ++ w', t', by rw [List.append_assoc], happend hw', ht', h⟩

/-- A secret parameter that begins one of the texts begins the other one. -/
theorem Alike.of_secret {head v s text t : Text} (hsecret : secretAt u text = some (head, v, s))
    (h : Alike u text t) :
    ∃ w t', t = head ++ (w ++ t') ∧ IsValue w ∧ IsBounded t' ∧ Alike u s t' := by
  obtain ⟨htext, hhead, hv, hs⟩ := secretAt_eq_some.1 hsecret
  cases h with
  | nil =>
    obtain ⟨separator, key, hhead, _⟩ := hhead
    rw [hhead.1] at htext
    cases htext
  | same p h =>
    obtain ⟨separator, key, hkey, _⟩ := hhead
    have htail := htext
    rw [hkey.1, List.cons_append] at htail
    obtain ⟨rfl, rfl⟩ := List.cons.inj htail
    obtain ⟨t', rfl, h'⟩ := h.of_part hkey.not_separator
    obtain ⟨w, t'', rfl, hw, ht, h''⟩ := h'.of_value hv hs
    exact ⟨w, t'', by rw [hkey.1, List.cons_append], hw, ht, h''⟩
  | @parameter head' v' w' s' t' hhead' hv' hw' hs' ht' h =>
    have hsecret' := secretAt_eq_some.2 ⟨rfl, hhead', hv', hs'⟩
    rw [hsecret] at hsecret'
    cases hsecret'
    exact ⟨w', t', rfl, hw', ht', h⟩

theorem Alike.secretAt_eq_none {s t : Text} (h : Alike u s t) (hs : secretAt u s = none) :
    secretAt u t = none := by
  rw [Option.eq_none_iff_forall_ne_some]
  rintro ⟨head, v, rest⟩ hsecret
  obtain ⟨_, hhead, _⟩ := secretAt_eq_some.1 hsecret
  obtain ⟨w, s', rfl, hw, hs', _⟩ := h.symm.of_secret hsecret
  rw [secretAt_eq_some.2 ⟨rfl, hhead, hw, hs'⟩] at hs
  cases hs

/-- Where no secret parameter begins the characters are the same. -/
theorem Alike.of_cons {p : Nat} {s t : Text} (hs : secretAt u (p :: s) = none)
    (h : Alike u (p :: s) t) : ∃ t', t = p :: t' ∧ Alike u s t' := by
  generalize htext : p :: s = text at h hs
  cases h with
  | nil => cases htext
  | same q h =>
    obtain ⟨rfl, rfl⟩ := List.cons.inj htext
    exact ⟨_, rfl, h⟩
  | parameter hhead hv hw hs' ht h =>
    rw [secretAt_eq_some.2 ⟨rfl, hhead, hv, hs'⟩] at hs
    cases hs

/-! ## Hidden values -/

/-- The secret parameter at the beginning of a text, with its value hidden. -/
def hideAt (u : Unicode) (text : Text) : Option (Text × Nat) :=
  (secretAt u text).map fun (head, v, _) => (head ++ redactedMark, head.length + v.length)

def hide (u : Unicode) (text : Text) : Text := replaceAll (hideAt u) text

theorem hide_of_none {p : Nat} {text : Text} (h : secretAt u (p :: text) = none) :
    hide u (p :: text) = p :: hide u text :=
  replaceAll_of_none (by rw [hideAt, h]; rfl)

theorem hide_of_secret {text head v s : Text} (h : secretAt u text = some (head, v, s)) :
    hide u text = head ++ (redactedMark ++ hide u s) := by
  obtain ⟨htext, ⟨separator, key, hhead, _⟩, _⟩ := secretAt_eq_some.1 h
  have hfind : hideAt u text = some (head ++ redactedMark, head.length + v.length) := by
    rw [hideAt, h]
    rfl
  have hlength : head.length + v.length ≠ 0 := by
    rw [hhead.1, List.length_cons]
    omega
  have hne : text ≠ [] := by
    rw [htext, hhead.1]
    exact List.cons_ne_nil _ _
  rw [hide, replaceAll_of_some hfind hlength hne, htext, ← List.append_assoc, ← List.length_append,
    List.drop_left, List.append_assoc]
  rfl

theorem Alike.hide_eq {s t : Text} (h : Alike u s t) : hide u s = hide u t := by
  generalize hlength : s.length = n
  induction n using Nat.strong_induction_on generalizing s t with
  | _ n ih =>
    cases hsecret : secretAt u s with
    | some found =>
      obtain ⟨head, v, rest⟩ := found
      obtain ⟨htext, hhead, _⟩ := secretAt_eq_some.1 hsecret
      obtain ⟨w, t', rfl, hw, ht, h'⟩ := h.of_secret hsecret
      have hless : rest.length < n := by
        obtain ⟨separator, key, hkey, _⟩ := hhead
        rw [← hlength, htext, hkey.1]
        simp only [List.length_append, List.length_cons]
        omega
      rw [hide_of_secret hsecret, hide_of_secret (secretAt_eq_some.2 ⟨rfl, hhead, hw, ht⟩),
        ih _ hless h' rfl]
    | none =>
      cases s with
      | nil =>
        cases t with
        | nil => rfl
        | cons q t => cases h.head?_eq
      | cons p s =>
        obtain ⟨t', rfl, h'⟩ := h.of_cons hsecret
        have hless : s.length < n := by
          rw [← hlength, List.length_cons]
          omega
        rw [hide_of_none hsecret, hide_of_none (h.secretAt_eq_none hsecret), ih _ hless h' rfl]

/-! ## The loop over the matches -/

theorem findQueryParameters_skip (position : Nat) (part text : Text) :
    findQueryParameters position part.length (part ++ text) =
      findQueryParameters (position + part.length) 0 text := by
  induction part generalizing position with
  | nil => rfl
  | cons p part ih =>
    rw [List.length_cons, List.cons_append, findQueryParameters, ih, Nat.add_assoc,
      Nat.add_comm 1]

theorem findQueryParameters_head {separator : Nat} {key head : Text}
    (h : IsHead separator key head) (position : Nat) (rest : Text) :
    findQueryParameters position 0 (head ++ rest) =
      ⟨position, position + head.length, key⟩ ::
        findQueryParameters (position + head.length) 0 rest := by
  have hkey : queryKeyAt (head ++ rest) = some key := by
    refine queryKeyAt_eq_some.2 ⟨separator, rest, ?_, h.2⟩
    rw [h.1, List.cons_append, List.append_assoc, List.singleton_append]
  have hskip := findQueryParameters_skip (position + 1) (key ++ [61]) rest
  rw [h.1] at hkey ⊢
  rw [List.cons_append] at hkey ⊢
  rw [List.length_append, List.length_singleton] at hskip
  rw [findQueryParameters, hkey]
  simp only [List.length_cons, List.length_append, List.length_nil]
  rw [hskip]
  congr 2
  omega

theorem findQueryParameters_of_none {p : Nat} {text : Text} (h : queryKeyAt (p :: text) = none)
    (position : Nat) :
    findQueryParameters position 0 (p :: text) = findQueryParameters (position + 1) 0 text := by
  rw [findQueryParameters, h]

theorem secretAt_of_queryKeyAt {text : Text} (h : queryKeyAt text = none) :
    secretAt u text = none := by
  rw [secretAt, h]
  rfl

/-- A parameter that is not secret stays. -/
theorem hide_of_public {separator : Nat} {key head : Text} (h : IsHead separator key head)
    (hpublic : isSecretQueryKey u key = false) (rest : Text) :
    hide u (head ++ rest) = head ++ hide u rest := by
  apply replaceAll_append
  intro a b hsplit hb
  have hnone : secretAt u (b ++ rest) = none := by
    cases a with
    | nil =>
      rw [List.nil_append] at hsplit
      rw [← hsplit]
      have hkey : queryKeyAt (head ++ rest) = some key := by
        refine queryKeyAt_eq_some.2 ⟨separator, rest, ?_, h.2⟩
        rw [h.1, List.cons_append, List.append_assoc, List.singleton_append]
      rw [secretAt, hkey]
      simp only [Option.bind_some, hpublic, Bool.false_eq_true, if_false]
    | cons q a =>
      rw [h.1, List.cons_append] at hsplit
      exact secretAt_of_queryKeyAt (h.queryKeyAt_eq_none (List.cons.inj hsplit).2 hb rest)
  rw [hideAt, hnone]
  rfl

/-- What the loop gives for the rest of a text, at a character that is kept and inside of a value
that is not. -/
structure RedactsRest (u : Unicode) (text : Text) : Prop where
  kept : ∀ front preserved, preserved ≤ front.length →
    redactMatches u (front ++ text) preserved (findQueryParameters front.length 0 text) =
      front.drop preserved ++ hide u text
  hidden : ∀ front v s, text = v ++ s → IsValue v → IsBounded s →
    redactMatches u (front ++ text) (front.length + v.length)
      (findQueryParameters front.length 0 text) = hide u s

theorem redactMatches_skip {value : Text} {preserved : Nat} {m : QueryMatch}
    {rest : List QueryMatch} (h : m.start < preserved ∨ isSecretQueryKey u m.key = false) :
    redactMatches u value preserved (m :: rest) = redactMatches u value preserved rest := by
  rw [redactMatches, if_pos h]

/-- The character at the front of the rest was passed. -/
theorem RedactsRest.kept_passed {text : Text} (h : RedactsRest u text) (front part : Text)
    {preserved : Nat} (hle : preserved ≤ front.length) :
    redactMatches u (front ++ (part ++ text)) preserved
      (findQueryParameters (front.length + part.length) 0 text) =
      front.drop preserved ++ (part ++ hide u text) := by
  have hrest := h.kept (front ++ part) preserved (by rw [List.length_append]; omega)
  rw [List.length_append, List.append_assoc, List.drop_append_of_le_length hle,
    List.append_assoc] at hrest
  exact hrest

theorem RedactsRest.hidden_passed {v s : Text} (h : RedactsRest u (v ++ s)) (front part : Text)
    (hv : IsValue v) (hs : IsBounded s) :
    redactMatches u (front ++ (part ++ (v ++ s))) (front.length + (part ++ v).length)
      (findQueryParameters (front.length + part.length) 0 (v ++ s)) = hide u s := by
  have hrest := h.hidden (front ++ part) v s rfl hv hs
  rw [List.length_append, List.append_assoc, Nat.add_assoc, ← List.length_append] at hrest
  rw [List.length_append] at hrest ⊢
  exact hrest

/-- A text is a value and what follows it. -/
theorem exists_value (text : Text) : ∃ v s, text = v ++ s ∧ IsValue v ∧ IsBounded s := by
  refine ⟨text.takeWhile (!isValueEnd ·), text.dropWhile (!isValueEnd ·),
    List.takeWhile_append_dropWhile.symm, ?_, ?_⟩
  · intro p hp
    have hvalue := List.mem_takeWhile_imp hp
    simpa using hvalue
  · intro p hp
    have hend := List.head?_dropWhile_not (!isValueEnd ·) text
    rw [Option.mem_def.1 hp] at hend
    simpa using hend

theorem exists_head {text key : Text} (h : queryKeyAt text = some key) :
    ∃ separator head rest, text = head ++ rest ∧ IsHead separator key head := by
  obtain ⟨separator, rest, rfl, hquery⟩ := queryKeyAt_eq_some.1 h
  exact ⟨separator, separator :: (key ++ [61]), rest, by simp, rfl, hquery⟩

theorem redactsRest_kept {text : Text} (ih : ∀ s : Text, s.length < text.length → RedactsRest u s)
    (front : Text) {preserved : Nat} (hle : preserved ≤ front.length) :
    redactMatches u (front ++ text) preserved (findQueryParameters front.length 0 text) =
      front.drop preserved ++ hide u text := by
  cases hkey : queryKeyAt text with
  | none =>
    cases text with
    | nil =>
      rw [findQueryParameters, redactMatches, List.append_nil]
      exact (List.append_nil _).symm
    | cons p text =>
      have hrest := ih text (by rw [List.length_cons]; omega)
      rw [findQueryParameters_of_none hkey, hide_of_none (secretAt_of_queryKeyAt hkey)]
      exact hrest.kept_passed front [p] hle
  | some key =>
    obtain ⟨separator, head, rest, rfl, hhead⟩ := exists_head hkey
    have hless : rest.length < (head ++ rest).length := by
      rw [hhead.1]
      simp only [List.length_append, List.length_cons]
      omega
    rw [findQueryParameters_head hhead]
    -- The match starts where the preserved text goes on, so only its key decides.
    by_cases hpublic : isSecretQueryKey u key = false
    · rw [redactMatches_skip (.inr hpublic), hide_of_public hhead hpublic]
      exact (ih rest hless).kept_passed front head hle
    · obtain ⟨v, s, rfl, hv, hs⟩ := exists_value rest
      have hsecret : isSecretQueryKey u key = true := by simpa using hpublic
      have hat := secretAt_eq_some.2 ⟨rfl, ⟨separator, key, hhead, hsecret⟩, hv, hs⟩
      have hhidden := (ih (v ++ s) hless).hidden (front ++ head) v s rfl hv hs
      have htaken : (front ++ (head ++ (v ++ s))).take (front.length + head.length) =
          front ++ head := by
        rw [← List.append_assoc, ← List.length_append, List.take_left]
      have hdropped : (front ++ (head ++ (v ++ s))).drop (front.length + head.length) = v ++ s := by
        rw [← List.append_assoc, ← List.length_append, List.drop_left]
      rw [List.append_assoc, List.length_append] at hhidden
      have hmatch : ¬(front.length < preserved ∨ isSecretQueryKey u key = false) := by
        rintro (h | h)
        · exact absurd h (Nat.not_lt.2 hle)
        · exact hpublic h
      rw [redactMatches, if_neg hmatch]
      simp only [htaken, hdropped, (value_takeWhile hv hs).1]
      rw [hhidden, hide_of_secret hat, List.drop_append_of_le_length hle, List.append_assoc]

theorem redactsRest_hidden {v s : Text}
    (ih : ∀ t : Text, t.length < (v ++ s).length → RedactsRest u t) (front : Text)
    (hv : IsValue v) (hs : IsBounded s) :
    redactMatches u (front ++ (v ++ s)) (front.length + v.length)
      (findQueryParameters front.length 0 (v ++ s)) = hide u s := by
  cases v with
  | nil =>
    have hkept := redactsRest_kept ih front (Nat.le_refl front.length)
    rw [List.drop_length] at hkept
    exact hkept
  | cons p v =>
    cases hkey : queryKeyAt ((p :: v) ++ s) with
    | none =>
      have hrest := ih (v ++ s) (by rw [List.cons_append, List.length_cons]; omega)
      rw [List.cons_append] at hkey ⊢
      rw [findQueryParameters_of_none hkey]
      exact hrest.hidden_passed front [p] (List.forall_mem_cons.1 hv).2 hs
    | some key =>
      obtain ⟨separator, head, rest, htext, hhead⟩ := exists_head hkey
      obtain ⟨v', s', rfl, hv', hs'⟩ := exists_value rest
      have hseparator : separator = p := by
        have htext' := htext
        rw [hhead.1] at htext'
        exact (List.cons.inj htext').1.symm
      have hin : IsValue head := hhead.isValue (by
        rw [hseparator]
        exact hv p List.mem_cons_self)
      have hall : IsValue (head ++ v') := by
        intro q hq
        rcases List.mem_append.1 hq with hq | hq
        · exact hin q hq
        · exact hv' q hq
      rw [← List.append_assoc] at htext
      -- The match is inside of the hidden value and leaves the rest of it hidden.
      obtain ⟨heq, rfl⟩ := value_unique hv hall hs hs' htext
      have hpositive : 0 < head.length := by
        rw [hhead.1]
        exact Nat.succ_pos _
      have hless : (v' ++ s).length < ((p :: v) ++ s).length := by
        rw [heq]
        simp only [List.length_append]
        omega
      have hpassed := (ih (v' ++ s) hless).hidden_passed front head hv' hs
      rw [heq, List.append_assoc, findQueryParameters_head hhead, redactMatches_skip]
      · exact hpassed
      · left
        rw [List.length_append]
        exact Nat.lt_add_of_pos_right (by omega)

theorem redactsRest (u : Unicode) (text : Text) : RedactsRest u text := by
  generalize hlength : text.length = n
  induction n using Nat.strong_induction_on generalizing text with
  | _ n ih =>
    subst hlength
    have hshorter (s : Text) (h : s.length < text.length) : RedactsRest u s := ih _ h s rfl
    refine ⟨fun front preserved => redactsRest_kept hshorter front, ?_⟩
    rintro front v s rfl hv hs
    exact redactsRest_hidden hshorter front hv hs

theorem redactQuerySecrets_eq_hide (u : Unicode) (value : Text) :
    redactQuerySecrets u value = hide u value :=
  (redactsRest u value).kept [] 0 (Nat.le_refl 0)

end Makolet.Observability
