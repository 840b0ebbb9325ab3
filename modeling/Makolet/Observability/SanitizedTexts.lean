import Makolet.Observability.HiddenValues

/-!
# What a log discloses

User names are replaced before query parameters are looked for, and the text is cut in between. So a
user name that runs into a secret parameter takes its key away. `Undisturbed` texts have no such
user name: `sanitizeText_hides` says that the values of their secret parameters are not disclosed,
and `sanitizeText_discloses` that those of others can be. No text that is logged has a control
character, whatever it was.
-/

set_option autoImplicit false

namespace Makolet.Observability

open Makolet.Lib

variable {u : Unicode}

/-! ## User names -/

structure IsUserinfo (scheme user : Text) : Prop where
  scheme_mem : schemes.any (matchesWord · scheme) = true
  user_ne : user ≠ []
  characters : ∀ p ∈ user, isUserCharacter p = true

/-- The text of a user name in a URL. -/
def userinfoText (scheme user : Text) : Text := scheme ++ (ascii "://" ++ (user ++ [64]))

/-- The characters of schemes. -/
def IsSchemeCharacter (p : Nat) : Prop :=
  65 ≤ p ∧ p ≤ 122 ∨ p = 0x17F ∨ p = 0x212A ∨ p = 0x130 ∨ p = 0x131

theorem isSchemeCharacter_of_matchesLetter {letter : Char} {p : Nat}
    (hletter : letter.isLower = true) (h : matchesLetter letter p = true) :
    IsSchemeCharacter p := by
  have hrange : 97 ≤ letter.toNat ∧ letter.toNat ≤ 122 := by
    have hbounds : (decide (97 ≤ letter.toNat) && decide (letter.toNat ≤ 122)) = true := hletter
    rwa [Bool.and_eq_true, decide_eq_true_eq, decide_eq_true_eq] at hbounds
  simp only [matchesLetter, Bool.or_eq_true, Bool.and_eq_true, decide_eq_true_eq] at h
  simp only [IsSchemeCharacter]
  omega

theorem isSchemeCharacter_of_matchesWord {word : List Char} {text : Text}
    (hword : word.all Char.isLower = true) (h : matchesWord word text = true) :
    ∀ p ∈ text, IsSchemeCharacter p := by
  induction word generalizing text with
  | nil =>
    rw [matchesWord, List.isEmpty_iff] at h
    rw [h]
    exact fun p hp => absurd hp List.not_mem_nil
  | cons letter word ih =>
    cases text with
    | nil => cases h
    | cons p text =>
      rw [matchesWord, Bool.and_eq_true] at h
      rw [List.all_cons, Bool.and_eq_true] at hword
      exact List.forall_mem_cons.2
        ⟨isSchemeCharacter_of_matchesLetter hword.1 h.1, ih hword.2 h.2⟩

theorem IsUserinfo.scheme_characters {scheme user : Text} (h : IsUserinfo scheme user) :
    ∀ p ∈ scheme, IsSchemeCharacter p := by
  obtain ⟨word, hword, hmatch⟩ := List.any_eq_true.1 h.scheme_mem
  have hall : schemes.all (·.all Char.isLower) = true := by decide
  exact isSchemeCharacter_of_matchesWord (List.all_eq_true.1 hall word hword) hmatch

theorem IsUserinfo.scheme_ne {scheme user : Text} (h : IsUserinfo scheme user) : scheme ≠ [] := by
  rintro rfl
  have hscheme := h.scheme_mem
  revert hscheme
  decide

theorem userinfoAt_eq_some {text scheme user rest : Text} :
    userinfoAt text = some (scheme, user, rest) ↔
      text = userinfoText scheme user ++ rest ∧ IsUserinfo scheme user := by
  constructor
  · intro h
    rw [userinfoAt] at h
    split at h
    · rename_i hscheme
      obtain ⟨hmem, htake⟩ := hscheme
      split at h
      · rename_i after hafter
        simp only at h
        split at h
        · cases h
        · rename_i hne
          cases h
          refine ⟨?_, hmem, hne, fun p hp => List.mem_takeWhile_imp hp⟩
          have hrest : text.dropWhile (· ≠ 58) = ascii "://" ++
              (((text.dropWhile (· ≠ 58)).drop 3).takeWhile isUserCharacter ++ 64 :: rest) := by
            rw [← hafter, List.takeWhile_append_dropWhile, ← htake, List.take_append_drop]
          conv_lhs => rw [← List.takeWhile_append_dropWhile (p := (· ≠ 58)) (l := text), hrest]
          simp only [userinfoText, List.append_assoc, List.singleton_append]
      · cases h
    · cases h
  · rintro ⟨rfl, h⟩
    have hcolon : ∀ p ∈ scheme, (decide (p ≠ 58)) = true := by
      intro p hp
      have hp' := h.scheme_characters p hp
      simp only [IsSchemeCharacter] at hp'
      simp only [ne_eq, decide_eq_true_eq]
      omega
    have htext : userinfoText scheme user ++ rest =
        scheme ++ 58 :: (47 :: 47 :: (user ++ 64 :: rest)) := by
      simp only [userinfoText, List.append_assoc, List.singleton_append]
      rfl
    obtain ⟨htake, hdrop⟩ := takeWhile_of_bounded (b := 58 :: 47 :: 47 :: (user ++ 64 :: rest))
      hcolon (fun p hp => by cases hp; rfl)
    obtain ⟨htake', hdrop'⟩ := takeWhile_of_bounded (b := 64 :: rest) h.characters
      (fun p hp => by cases hp; rfl)
    rw [htext, userinfoAt]
    simp only [htake, hdrop, List.drop_succ_cons, List.drop_zero, htake', hdrop']
    rw [if_pos ⟨h.scheme_mem, rfl⟩, if_neg h.user_ne]

/-- A user name is one in front of any text. -/
theorem IsUserinfo.userinfoAt {scheme user : Text} (h : IsUserinfo scheme user) (rest : Text) :
    userinfoAt (userinfoText scheme user ++ rest) = some (scheme, user, rest) :=
  userinfoAt_eq_some.2 ⟨rfl, h⟩

/-- What a user name is replaced by. -/
def hiddenUserinfo (scheme : Text) : Text := scheme ++ ascii "://[REDACTED]@"

theorem hideUserinfo_of_none {p : Nat} {text : Text} (h : userinfoAt (p :: text) = none) :
    hideUserinfo (p :: text) = p :: hideUserinfo text :=
  replaceAll_of_none (by rw [userinfoPattern, h]; rfl)

theorem length_userinfoText (scheme user : Text) :
    (userinfoText scheme user).length = scheme.length + 3 + user.length + 1 := by
  have hmark : (ascii "://").length = 3 := rfl
  simp only [userinfoText, List.length_append, List.length_singleton, hmark]
  omega

theorem hideUserinfo_of_some {scheme user : Text} (h : IsUserinfo scheme user) (rest : Text) :
    hideUserinfo (userinfoText scheme user ++ rest) =
      hiddenUserinfo scheme ++ hideUserinfo rest := by
  have hfind : userinfoPattern (userinfoText scheme user ++ rest) =
      some (hiddenUserinfo scheme, (userinfoText scheme user).length) := by
    rw [userinfoPattern, h.userinfoAt, length_userinfoText]
    rfl
  have hlength : (userinfoText scheme user).length ≠ 0 := by
    rw [length_userinfoText]
    exact Nat.succ_ne_zero _
  have hne : userinfoText scheme user ++ rest ≠ [] := by
    intro hnil
    have hzero := congrArg List.length hnil
    rw [List.length_append, List.length_nil] at hzero
    omega
  rw [hideUserinfo, replaceAll_of_some hfind hlength hne, List.drop_left]
  rfl

/-- Nothing that ends a value begins a user name. -/
theorem userinfoAt_of_isValueEnd {p : Nat} (h : isValueEnd p = true) (text : Text) :
    userinfoAt (p :: text) = none := by
  rw [Option.eq_none_iff_forall_ne_some]
  rintro ⟨scheme, user, rest⟩ hsome
  obtain ⟨htext, huser⟩ := userinfoAt_eq_some.1 hsome
  cases scheme with
  | nil => exact huser.scheme_ne rfl
  | cons q scheme =>
    have hq := huser.scheme_characters q List.mem_cons_self
    have hpq : p = q := (List.cons.inj htext).1
    rw [hpq] at h
    simp only [isValueEnd, isSpace, Bool.or_eq_true, decide_eq_true_eq, List.mem_cons,
      List.not_mem_nil, or_false] at h
    simp only [IsSchemeCharacter] at hq
    omega

theorem IsBounded.hideUserinfo {text : Text} (h : IsBounded text) :
    IsBounded (hideUserinfo text) := by
  cases text with
  | nil => exact h
  | cons p text =>
    rw [hideUserinfo_of_none (userinfoAt_of_isValueEnd (h p rfl) text)]
    exact h

/-- User names in a value stay in it. -/
theorem hideUserinfo_value {v s : Text} (hv : IsValue v)
    (hinside : ∀ a b, v = a ++ b → b ≠ [] → ∀ scheme user rest,
      userinfoAt (b ++ s) = some (scheme, user, rest) → s.length ≤ rest.length) :
    ∃ w, hideUserinfo (v ++ s) = w ++ hideUserinfo s ∧ IsValue w := by
  generalize hlength : v.length = n
  induction n using Nat.strong_induction_on generalizing v with
  | _ n ih =>
    cases v with
    | nil => exact ⟨[], rfl, hv⟩
    | cons p v =>
      obtain ⟨hp, hrest⟩ := List.forall_mem_cons.1 hv
      cases hfound : userinfoAt ((p :: v) ++ s) with
      | none =>
        obtain ⟨w, hw, hvalue⟩ := ih v.length (by rw [← hlength]; exact Nat.lt_succ_self _) hrest
          (fun a b hab => hinside (p :: a) b (by rw [hab]; rfl)) rfl
        refine ⟨p :: w, ?_, List.forall_mem_cons.2 ⟨hp, hvalue⟩⟩
        rw [List.cons_append] at hfound ⊢
        rw [hideUserinfo_of_none hfound, hw]
        rfl
      | some found =>
        obtain ⟨scheme, user, rest⟩ := found
        obtain ⟨htext, huser⟩ := userinfoAt_eq_some.1 hfound
        have hle := hinside [] (p :: v) rfl (List.cons_ne_nil _ _) scheme user rest hfound
        -- The user name ends before the value does, so some of the value is left.
        obtain ⟨v', rfl, hsplit⟩ : ∃ v', rest = v' ++ s ∧
            p :: v = userinfoText scheme user ++ v' := by
          rcases List.append_eq_append_iff.1 htext with ⟨a, ha, hb⟩ | ⟨a, ha, hb⟩
          · have hzero : a = [] := by
              rw [hb, List.length_append] at hle
              exact List.length_eq_zero_iff.1 (by omega)
            rw [hzero, List.append_nil] at ha
            rw [hzero, List.nil_append] at hb
            exact ⟨[], hb.symm, by rw [List.append_nil, ha]⟩
          · exact ⟨a, hb, ha⟩
        have hall : IsValue (userinfoText scheme user ++ v') := by
          rw [← hsplit]
          exact hv
        have hless : v'.length < n := by
          have hlengths := congrArg List.length hsplit
          rw [List.length_append, length_userinfoText] at hlengths
          omega
        obtain ⟨w, hw, hvalue⟩ := ih v'.length hless
          (fun q hq => hall q (List.mem_append_right _ hq))
          (fun a b hab => hinside (userinfoText scheme user ++ a) b (by
            rw [hsplit, hab, List.append_assoc])) rfl
        refine ⟨hiddenUserinfo scheme ++ w, ?_, ?_⟩
        · rw [hsplit, List.append_assoc, hideUserinfo_of_some huser, hw, List.append_assoc]
        · intro q hq
          rcases List.mem_append.1 hq with hq | hq
          · rcases List.mem_append.1 hq with hq | hq
            · exact hall q (List.mem_append_left _ (List.mem_append_left _ hq))
            · have hliteral : (ascii "://[REDACTED]@").all (!isValueEnd ·) = true := by decide
              simpa using List.all_eq_true.1 hliteral q hq
          · exact hvalue q hq

/-! ## Texts that the replacement of user names does not disturb -/

section undisturbed

variable (u : Unicode)

/-- From left to right: characters, user names outside of secret parameters, and secret parameters
with no user name but inside of their values. -/
inductive Kept : Text → Prop
  | nil : Kept []
  | character {p : Nat} {s : Text} (hsecret : secretAt u (p :: s) = none)
      (huserinfo : userinfoAt (p :: s) = none) (h : Kept s) : Kept (p :: s)
  | userinfo {scheme user s : Text} (huser : IsUserinfo scheme user)
      (hapart : ∀ a b, userinfoText scheme user = a ++ b → b ≠ [] → secretAt u (b ++ s) = none)
      (h : Kept s) : Kept (userinfoText scheme user ++ s)
  | parameter {head v s : Text} (hsecret : secretAt u (head ++ (v ++ s)) = some (head, v, s))
      (hhead : ∀ a b, head = a ++ b → b ≠ [] → userinfoAt (b ++ (v ++ s)) = none)
      (hinside : ∀ a b, v = a ++ b → b ≠ [] → ∀ scheme user rest,
        userinfoAt (b ++ s) = some (scheme, user, rest) → s.length ≤ rest.length)
      (h : Kept s) : Kept (head ++ (v ++ s))

/-- The length of a text with the ten characters of `[REDACTED]` for each user name. -/
def lengthWithMarks : Nat → Text → Nat
  | _, [] => 0
  | skip + 1, _ :: text => lengthWithMarks skip text
  | 0, p :: text =>
    match userinfoAt (p :: text) with
    | some (scheme, user, _) =>
      scheme.length + 3 + 10 + 1 + lengthWithMarks (scheme.length + 3 + user.length) text
    | none => 1 + lengthWithMarks 0 text

/-- User names do not meet a secret parameter outside of its value, and they leave the text short
enough. -/
structure Undisturbed (text : Text) : Prop where
  kept : Kept u text
  fits : lengthWithMarks 0 text ≤ maximumString

end undisturbed

theorem lengthWithMarks_eq (before : Option Nat) (skip : Nat) (text : Text) :
    lengthWithMarks skip text =
      (substitute (fun _ => userinfoPattern) before skip text).length := by
  induction text generalizing before skip with
  | nil => cases skip <;> rfl
  | cons p text ih =>
    cases skip with
    | succ skip => exact ih _ _
    | zero =>
      rw [lengthWithMarks, substitute, userinfoPattern]
      cases userinfoAt (p :: text) with
      | none =>
        simp only [Option.map_none, List.length_cons]
        rw [ih (some p), Nat.add_comm]
      | some found =>
        obtain ⟨scheme, user, rest⟩ := found
        have hmark : (ascii "://[REDACTED]@").length = 14 := rfl
        simp only [Option.map_some, List.length_append, hmark]
        rw [ih (some p)]
        rfl

theorem Undisturbed.length_le {text : Text} (h : Undisturbed u text) :
    (hideUserinfo text).length ≤ maximumString := by
  have hlength := lengthWithMarks_eq none 0 text
  rw [hideUserinfo, replaceAll, ← hlength]
  exact h.fits

theorem secretAt_userinfoText {scheme user s : Text} (huser : IsUserinfo scheme user) :
    secretAt u (userinfoText scheme user ++ s) = none := by
  rw [Option.eq_none_iff_forall_ne_some]
  rintro ⟨head, v, rest⟩ hsecret
  obtain ⟨htext, ⟨separator, key, hhead, _⟩, _⟩ := secretAt_eq_some.1 hsecret
  cases scheme with
  | nil => exact huser.scheme_ne rfl
  | cons q scheme =>
    have hq := huser.scheme_characters q List.mem_cons_self
    rw [hhead.1] at htext
    have hequal : q = separator := (List.cons.inj htext).1
    have hseparator := hhead.2.separator_eq
    simp only [IsSchemeCharacter] at hq
    omega

theorem Kept.of_none {p : Nat} {s : Text} (h : Kept u (p :: s))
    (hsecret : secretAt u (p :: s) = none) (huserinfo : userinfoAt (p :: s) = none) :
    Kept u s := by
  generalize htext : p :: s = text at h hsecret huserinfo
  cases h with
  | nil => cases htext
  | character _ _ h =>
    obtain ⟨_, rfl⟩ := List.cons.inj htext
    exact h
  | userinfo huser =>
    rw [huser.userinfoAt] at huserinfo
    cases huserinfo
  | parameter hsecret' =>
    rw [hsecret'] at hsecret
    cases hsecret

theorem Kept.of_userinfo {scheme user s text : Text} (h : Kept u text)
    (hfound : userinfoAt text = some (scheme, user, s)) :
    Kept u s ∧ ∀ a b, userinfoText scheme user = a ++ b → b ≠ [] → secretAt u (b ++ s) = none := by
  cases h with
  | nil =>
    obtain ⟨htext, _⟩ := userinfoAt_eq_some.1 hfound
    have hlength := congrArg List.length htext
    rw [List.length_append, length_userinfoText, List.length_nil] at hlength
    omega
  | character _ huserinfo =>
    rw [hfound] at huserinfo
    cases huserinfo
  | userinfo huser hapart h =>
    rw [huser.userinfoAt] at hfound
    cases hfound
    exact ⟨h, hapart⟩
  | @parameter head v s' hsecret hhead =>
    have hnone := hhead [] head rfl (by
      obtain ⟨_, ⟨separator, key, hkey, _⟩, _⟩ := secretAt_eq_some.1 hsecret
      rw [hkey.1]
      exact List.cons_ne_nil _ _)
    rw [hfound] at hnone
    cases hnone

theorem Kept.of_secret {head v s text : Text} (h : Kept u text)
    (hfound : secretAt u text = some (head, v, s)) :
    Kept u s ∧ (∀ a b, head = a ++ b → b ≠ [] → userinfoAt (b ++ (v ++ s)) = none) ∧
      ∀ a b, v = a ++ b → b ≠ [] → ∀ scheme user rest,
        userinfoAt (b ++ s) = some (scheme, user, rest) → s.length ≤ rest.length := by
  cases h with
  | nil =>
    obtain ⟨htext, ⟨separator, key, hkey, _⟩, _⟩ := secretAt_eq_some.1 hfound
    rw [hkey.1] at htext
    cases htext
  | character hsecret =>
    rw [hfound] at hsecret
    cases hsecret
  | userinfo huser =>
    rw [secretAt_userinfoText huser] at hfound
    cases hfound
  | parameter hsecret hhead hinside h =>
    rw [hfound] at hsecret
    cases hsecret
    exact ⟨h, hhead, hinside⟩

/-- A user name outside of secret parameters is in both texts. -/
theorem Alike.of_userinfo {m s t : Text}
    (hapart : ∀ a b, m = a ++ b → b ≠ [] → secretAt u (b ++ s) = none)
    (h : Alike u (m ++ s) t) : ∃ t', t = m ++ t' ∧ Alike u s t' := by
  induction m generalizing t with
  | nil => exact ⟨t, rfl, h⟩
  | cons p m ih =>
    have hnone : secretAt u (p :: (m ++ s)) = none := hapart [] (p :: m) rfl (List.cons_ne_nil _ _)
    obtain ⟨t', rfl, h'⟩ := Alike.of_cons hnone h
    obtain ⟨t'', rfl, h''⟩ := ih (fun a b hab => hapart (p :: a) b (by rw [hab]; rfl)) h'
    exact ⟨t'', rfl, h''⟩

/-- User names are replaced in a secret parameter in its value only. -/
theorem hideUserinfo_parameter {head v s : Text} (hv : IsValue v)
    (hhead : ∀ a b, head = a ++ b → b ≠ [] → userinfoAt (b ++ (v ++ s)) = none)
    (hinside : ∀ a b, v = a ++ b → b ≠ [] → ∀ scheme user rest,
      userinfoAt (b ++ s) = some (scheme, user, rest) → s.length ≤ rest.length) :
    ∃ w, hideUserinfo (head ++ (v ++ s)) = head ++ (w ++ hideUserinfo s) ∧ IsValue w := by
  obtain ⟨w, hw, hvalue⟩ := hideUserinfo_value hv hinside
  refine ⟨w, ?_, hvalue⟩
  rw [← hw]
  apply replaceAll_append
  intro a b hab hb
  rw [userinfoPattern, hhead a b hab hb]
  rfl

/-- User names are replaced alike. -/
theorem Alike.hideUserinfo {s t : Text} (h : Alike u s t) (hs : Kept u s) (ht : Kept u t) :
    Alike u (hideUserinfo s) (hideUserinfo t) := by
  induction hs generalizing t with
  | nil =>
    cases t with
    | nil => exact .nil
    | cons q t => cases h.head?_eq
  | @character p s hsecret huserinfo hs ih =>
    obtain ⟨t', rfl, h'⟩ := h.of_cons hsecret
    have hsecret' := h.secretAt_eq_none hsecret
    -- A user name in the other text would be outside of its secret parameters, and so in both.
    have huserinfo' : userinfoAt (p :: t') = none := by
      rw [Option.eq_none_iff_forall_ne_some]
      rintro ⟨scheme, user, rest⟩ hfound
      obtain ⟨htext, huser⟩ := userinfoAt_eq_some.1 hfound
      have hback := h.symm
      rw [htext] at hback
      obtain ⟨s', hs', _⟩ := hback.of_userinfo (ht.of_userinfo hfound).2
      rw [hs', huser.userinfoAt] at huserinfo
      cases huserinfo
    rw [hideUserinfo_of_none huserinfo, hideUserinfo_of_none huserinfo']
    exact .same p (ih h' (ht.of_none hsecret' huserinfo'))
  | @userinfo scheme user s huser hapart hs ih =>
    obtain ⟨t', rfl, h'⟩ := h.of_userinfo hapart
    rw [hideUserinfo_of_some huser, hideUserinfo_of_some huser]
    exact (ih h' (ht.of_userinfo (huser.userinfoAt t')).1).append_left _
  | @parameter head v s hsecret hhead hinside hs ih =>
    obtain ⟨_, hkey, hv, hbounded⟩ := secretAt_eq_some.1 hsecret
    obtain ⟨w, t', rfl, hw, hbounded', h'⟩ := h.of_secret hsecret
    have hsecret' := secretAt_eq_some.2 ⟨rfl, hkey, hw, hbounded'⟩
    obtain ⟨ht', hhead', hinside'⟩ := ht.of_secret hsecret'
    -- The values may have changed, but they are values of the same parameter still.
    obtain ⟨v₁, hv₁, hvalue₁⟩ := hideUserinfo_parameter hv hhead hinside
    obtain ⟨w₁, hw₁, hvalue₂⟩ := hideUserinfo_parameter hw hhead' hinside'
    rw [hv₁, hw₁]
    exact .parameter hkey hvalue₁ hvalue₂ hbounded.hideUserinfo hbounded'.hideUserinfo (ih h' ht')

theorem sanitizeText_eq {key value value' : Text} {depth : Nat}
    (halike : Alike u (cleanString u value) (cleanString u value'))
    (hvalue : Undisturbed u (cleanString u value))
    (hvalue' : Undisturbed u (cleanString u value')) :
    sanitizeText u key value depth = sanitizeText u key value' depth := by
  rw [sanitizeText, sanitizeText]
  simp only [redactQuerySecrets_eq_hide]
  rw [List.take_of_length_le hvalue.length_le, List.take_of_length_le hvalue'.length_le,
    (halike.hideUserinfo hvalue.kept hvalue'.kept).hide_eq]

/-! ## Control characters -/

/-- No control, surrogate or format character and no separator of lines. -/
def Safe (u : Unicode) (text : Text) : Prop := ∀ p ∈ text, (u.category p).isUnsafe = false

/-- What the Unicode database says of the printable ASCII characters. -/
def Unicode.AsciiPrintable (u : Unicode) : Prop :=
  ∀ p, 32 ≤ p → p ≤ 126 → (u.category p).isUnsafe = false

theorem Safe.append {s t : Text} (hs : Safe u s) (ht : Safe u t) : Safe u (s ++ t) := by
  intro p hp
  rcases List.mem_append.1 hp with hp | hp
  · exact hs p hp
  · exact ht p hp

section printable

variable (h : u.AsciiPrintable)

include h

theorem safe_ascii {s : String} (hs : (ascii s).all (fun p => 32 ≤ p && p ≤ 126) = true) :
    Safe u (ascii s) := by
  intro p hp
  have hrange := List.all_eq_true.1 hs p hp
  simp only [Bool.and_eq_true, decide_eq_true_eq] at hrange
  exact h p hrange.1 hrange.2

theorem safe_hexText (width n : Nat) : Safe u (hexText width n) := by
  induction width generalizing n with
  | zero => exact fun p hp => absurd hp List.not_mem_nil
  | succ width ih =>
    refine (ih (n / 16)).append fun p hp => ?_
    rw [List.mem_singleton.1 hp, hexDigit]
    have hless := Nat.mod_lt n (show 0 < 16 by decide)
    split
    · exact h _ (by omega) (by omega)
    · exact h _ (by omega) (by omega)

theorem safe_cleanString (value : Text) : Safe u (cleanString u value) := by
  intro p hp
  obtain ⟨q, _, hq⟩ := List.mem_flatMap.1 hp
  have hescape : Safe u (cleanCharacter u q) := by
    rw [cleanCharacter]
    split
    · exact safe_ascii h (by decide)
    · split
      · exact safe_ascii h (by decide)
      · split
        · exact safe_ascii h (by decide)
        · split
          · exact safe_ascii h (by decide)
          · split
            · split
              · exact (safe_ascii h (by decide)).append (safe_hexText h _ _)
              · exact (safe_ascii h (by decide)).append (safe_hexText h _ _)
            · rename_i hsafe
              intro c hc
              rw [List.mem_singleton.1 hc]
              simpa using hsafe
  exact hescape p hq

theorem safe_hideUserinfo {text : Text} (htext : Safe u text) : Safe u (hideUserinfo text) := by
  apply replaceAll_forall htext
  intro s r n hfind hs
  obtain ⟨⟨scheme, user, rest⟩, hfound, heq⟩ := Option.map_eq_some_iff.1 hfind
  cases heq
  obtain ⟨rfl, _⟩ := userinfoAt_eq_some.1 hfound
  have hscheme : Safe u scheme := fun p hp =>
    hs p (List.mem_append_left _ (List.mem_append_left _ hp))
  exact hscheme.append (safe_ascii h (by decide))

theorem safe_hide {text : Text} (htext : Safe u text) : Safe u (hide u text) := by
  apply replaceAll_forall htext
  intro s r n hfind hs
  obtain ⟨⟨head, v, rest⟩, hfound, heq⟩ := Option.map_eq_some_iff.1 hfind
  cases heq
  obtain ⟨rfl, _⟩ := secretAt_eq_some.1 hfound
  have hhead : Safe u head := fun p hp => hs p (List.mem_append_left _ hp)
  exact hhead.append (safe_ascii h (by decide))

theorem safe_assigned {text : Text} (htext : Safe u text) :
    Safe u (substitute (assignedPattern u) none 0 text) := by
  apply substitute_forall htext
  intro before s r n hmatch hs
  rw [assignedPattern] at hmatch
  split at hmatch
  · obtain ⟨word, _, hword⟩ := List.exists_of_findSome?_eq_some hmatch
    split at hword
    · obtain ⟨length, _, heq⟩ := Option.map_eq_some_iff.1 hword
      cases heq
      have htaken : Safe u (s.take word.length) := fun p hp => hs p (List.mem_of_mem_take hp)
      exact htaken.append (safe_ascii h (by decide))
    · cases hword
  · cases hmatch

theorem safe_sanitizeText (key value : Text) (depth : Nat) :
    Safe u (sanitizeText u key value depth) := by
  rw [sanitizeText]
  split
  · exact safe_ascii h (by decide)
  · split
    · exact safe_ascii h (by decide)
    · have hcleaned := safe_hideUserinfo h (safe_cleanString h value)
      have hcut : Safe u ((hideUserinfo (cleanString u value)).take maximumString) :=
        fun p hp => hcleaned p (List.mem_of_mem_take hp)
      have hredacted := safe_assigned h (safe_hide h hcut)
      rw [← redactQuerySecrets_eq_hide] at hredacted
      exact fun p hp => hredacted p (List.mem_of_mem_take hp)

end printable

theorem sanitizeText_hides {u : Unicode} (h : u.AsciiPrintable) :
    (∀ key value depth, Safe u (sanitizeText u key value depth)) ∧
      ∀ key value value' depth, isSecretKey u key = false →
        (cleanString u value).length ≤ maximumString →
        (cleanString u value').length ≤ maximumString →
        Alike u (cleanString u value) (cleanString u value') →
        cleanString u value = cleanString u value' ∨
          Undisturbed u (cleanString u value) ∧ Undisturbed u (cleanString u value') →
        sanitizeText u key value depth = sanitizeText u key value' depth := by
  refine ⟨safe_sanitizeText h, ?_⟩
  rintro key value value' depth - - - halike (heq | ⟨hvalue, hvalue'⟩)
  · simp only [sanitizeText, heq]
  · exact sanitizeText_eq halike hvalue hvalue'

/-! ## Two texts of each kind -/

/-- A database of which the printable characters are those of ASCII. -/
def asciiUnicode : Unicode where
  category p := if 32 ≤ p ∧ p ≤ 126 then .other else .cc
  casefold p := [if 65 ≤ p ∧ p ≤ 90 then p + 32 else p]
  isAlnum p := decide (48 ≤ p ∧ p ≤ 57 ∨ 65 ≤ p ∧ p ≤ 90 ∨ 97 ≤ p ∧ p ≤ 122)

theorem asciiUnicode_printable : asciiUnicode.AsciiPrintable := by
  intro p hle hle'
  simp only [asciiUnicode, if_pos (And.intro hle hle')]
  rfl

theorem token_isSecretHead : IsSecretHead asciiUnicode (ascii "?token=") := by
  have hbytes : percentBytes (ascii "token") = some (utf8 "token".toList) := by decide
  have hsecret : isSecretQueryKey asciiUnicode (ascii "token") = true := by
    rw [isSecretQueryKey, strictPercentDecode, hbytes]
    simp only [Option.bind_eq_bind, Option.bind_some, ofUtf8_utf8]
    decide
  refine ⟨63, ascii "token", ⟨rfl, .inl rfl, by decide, by decide, ?_⟩, hsecret⟩
  exact List.all_eq_true.1 (by decide)

theorem isValue_of_all {v : Text} (h : v.all (!isValueEnd ·) = true) : IsValue v := by
  intro p hp
  simpa using List.all_eq_true.1 h p hp

/-- Two values of the same parameter, with nothing behind them. -/
theorem alike_token (front : Text) {v w : Text} (hv : v.all (!isValueEnd ·) = true)
    (hw : w.all (!isValueEnd ·) = true) :
    Alike asciiUnicode (front ++ (ascii "?token=" ++ (v ++ [])))
      (front ++ (ascii "?token=" ++ (w ++ []))) := by
  have hnil : IsBounded [] := fun p hp => by cases hp
  apply Alike.append_left
  exact .parameter token_isSecretHead (isValue_of_all hv) (isValue_of_all hw) hnil hnil .nil

/-- A password with an at sign in a query, behind a host. -/
theorem sanitizeText_discloses :
    isSecretKey asciiUnicode (ascii "item") = false ∧
      (cleanString asciiUnicode (ascii "http://h?token=x@1")).length ≤ maximumString ∧
      (cleanString asciiUnicode (ascii "http://h?token=x@2")).length ≤ maximumString ∧
      Alike asciiUnicode (cleanString asciiUnicode (ascii "http://h?token=x@1"))
        (cleanString asciiUnicode (ascii "http://h?token=x@2")) ∧
      sanitizeText asciiUnicode (ascii "item") (ascii "http://h?token=x@1") 0 ≠
        sanitizeText asciiUnicode (ascii "item") (ascii "http://h?token=x@2") 0 := by
  have halike := alike_token (ascii "http://h") (v := ascii "x@1") (w := ascii "x@2")
    (by decide) (by decide)
  refine ⟨by decide, by decide, by decide, halike, by decide⟩

theorem userinfoAt_of_not_mem {text : Text} (h : 58 ∉ text) : userinfoAt text = none := by
  rw [Option.eq_none_iff_forall_ne_some]
  rintro ⟨scheme, user, rest⟩ hfound
  obtain ⟨rfl, _⟩ := userinfoAt_eq_some.1 hfound
  have hcolon : 58 ∈ ascii "://" := by decide
  exact h (List.mem_append_left _ (List.mem_append_right _ (List.mem_append_left _ hcolon)))

/-- A text without user names is not disturbed. -/
theorem undisturbed_token {v : Text} (hv : v.all (!isValueEnd ·) = true) (hcolon : 58 ∉ v) :
    Kept asciiUnicode (ascii "?token=" ++ (v ++ [])) := by
  have hnil : IsBounded [] := fun p hp => by cases hp
  have hhead : 58 ∉ ascii "?token=" := by decide
  apply Kept.parameter
  · exact secretAt_eq_some.2 ⟨rfl, token_isSecretHead, isValue_of_all hv, hnil⟩
  · intro a b hab _
    apply userinfoAt_of_not_mem
    rw [List.append_nil, List.mem_append, not_or]
    exact ⟨fun hb => hhead (by rw [hab]; exact List.mem_append_right _ hb), hcolon⟩
  · rintro a b rfl _ scheme user rest hfound
    have hnone : userinfoAt (b ++ []) = none := by
      apply userinfoAt_of_not_mem
      rw [List.append_nil]
      exact fun hb => hcolon (List.mem_append_right _ hb)
    rw [hnone] at hfound
    cases hfound
  · exact .nil

theorem sanitizeText_hides_sample :
    Safe asciiUnicode (sanitizeText asciiUnicode (ascii "item") (ascii "?token=1") 0) ∧
      sanitizeText asciiUnicode (ascii "item") (ascii "?token=1") 0 =
        sanitizeText asciiUnicode (ascii "item") (ascii "?token=2") 0 := by
  obtain ⟨hsafe, hequal⟩ := sanitizeText_hides asciiUnicode_printable
  have halike := alike_token [] (v := ascii "1") (w := ascii "2") (by decide) (by decide)
  have hone : Undisturbed asciiUnicode (cleanString asciiUnicode (ascii "?token=1")) :=
    ⟨undisturbed_token (v := ascii "1") (by decide) (by decide), by decide⟩
  have htwo : Undisturbed asciiUnicode (cleanString asciiUnicode (ascii "?token=2")) :=
    ⟨undisturbed_token (v := ascii "2") (by decide) (by decide), by decide⟩
  exact ⟨hsafe _ _ _, hequal _ _ _ 0 (by decide) (by decide) (by decide) halike
    (.inr ⟨hone, htwo⟩)⟩

end Makolet.Observability
