import Makolet.Sources.JsonShape

/-!
# The scanner on values

What the scanner does on the values of the decoder: `valueEnd_tree` gives the end of a value that is
within all limits, and a failure at any other. `valueEnd_of_limit` is about the values that are too
much for the decoder itself.
-/

set_option autoImplicit false

namespace Makolet.Sources

open Makolet.Domain Makolet.Lib

/-! ## Values -/

/-- What is limited of a value. -/
structure JsonSize where
  height : Nat
  structuralTokens : Nat
  longestString : Nat
  longestScalar : Nat
  deriving DecidableEq, Repr

def JsonSize.join (a b : JsonSize) : JsonSize where
  height := max a.height b.height
  structuralTokens := a.structuralTokens + b.structuralTokens
  longestString := max a.longestString b.longestString
  longestScalar := max a.longestScalar b.longestScalar

/-- A key and its colon. -/
def labelSize : Option Label → JsonSize
  | none => ⟨0, 0, 0, 0⟩
  | some label => ⟨0, 1, label.body.length, 0⟩

mutual

/-- The height of the brackets of a value, its brackets, commas and colons, and the lengths of its
longest string and of its longest scalar. An escape counts as the character behind the backslash. -/
def treeSize : JsonTree → JsonSize
  | .scalar literal => ⟨0, 0, 0, literal.val.length⟩
  | .string body => ⟨0, 0, body.length, 0⟩
  | .container _ _ items =>
    { itemsSize items with
      height := (itemsSize items).height + 1
      structuralTokens := (itemsSize items).structuralTokens + 2 }

def itemsSize : JsonItems → JsonSize
  | .nil => ⟨0, 0, 0, 0⟩
  | .last label value _ => (labelSize label).join (treeSize value)
  | .more label value _ _ items =>
    ((labelSize label).join (treeSize value)).join
      { itemsSize items with structuralTokens := (itemsSize items).structuralTokens + 1 }

end

/-- The limits that do not add up, inside of some brackets. -/
def JsonSize.Fits (a : JsonSize) (depth : Nat) : Prop :=
  (a.height ≠ 0 → depth + a.height ≤ maximumJsonDepth) ∧
    a.longestString ≤ maximumJsonStringCharacters ∧ a.longestScalar ≤ maximumJsonScalarCharacters

/-- All limits. -/
structure WithinJsonLimits (v : JsonTree) : Prop where
  height_le : (treeSize v).height ≤ maximumJsonDepth
  structuralTokens_le : (treeSize v).structuralTokens ≤ maximumJsonStructuralTokens
  longestString_le : (treeSize v).longestString ≤ maximumJsonStringCharacters
  longestScalar_le : (treeSize v).longestScalar ≤ maximumJsonScalarCharacters
  textBytes_le : textBytes v.text ≤ maximumListingBytes

theorem scans_blank (d k : Nat) (space : Blank) :
    ∃ k', Scans (.outside d k) space.val True 0 (.outside d k') ∧ (k = 0 → k' = 0) := by
  obtain ⟨space, hspace⟩ := space
  induction space generalizing k with
  | nil => exact ⟨k, Scans.nil _, id⟩
  | cons c space ih =>
    obtain ⟨hc, hrest⟩ := List.forall_mem_cons.1 hspace
    obtain ⟨k', hscans, hzero⟩ := ih 0 hrest
    exact ⟨k', ((scans_blankChar d k hc).append hscans).congr (iff_of_eq (and_true _)) rfl,
      fun _ => hzero rfl⟩

theorem scans_scalar (d k : Nat) {literal : List Char} (h : IsScalarText literal)
    (hne : literal ≠ []) :
    Scans (.outside d k) literal (k + literal.length ≤ maximumJsonScalarCharacters) 0
      (.outside d (k + literal.length)) := by
  induction literal generalizing k with
  | nil => exact absurd rfl hne
  | cons c literal ih =>
    obtain ⟨hc, hrest⟩ := List.forall_mem_cons.1 h
    have hfirst := scans_scalarChar d k hc
    cases literal with
    | nil => exact hfirst
    | cons c' literal =>
      have hall := hfirst.append (ih (k + 1) hrest (List.cons_ne_nil _ _))
      rw [show k + 1 + (c' :: literal).length = k + (c :: c' :: literal).length by
        simp only [List.length_cons]; omega] at hall
      refine hall.congr ⟨And.right, fun hle => ⟨?_, hle⟩⟩ rfl
      simp only [List.length_cons] at hle
      omega

theorem scans_item (d m : Nat) (item : StringItem) :
    Scans (.inside d m) item.text (m + 1 ≤ maximumJsonStringCharacters) 0
      (.inside d (m + 1)) := by
  cases item with
  | plain c hc => exact scans_plain d m hc
  | escape c =>
    exact ((scans_backslash d m).append (scans_escaped d m c)).congr (iff_of_eq (true_and _)) rfl

theorem scans_body (d m : Nat) (body : List StringItem) :
    Scans (.inside d m) (body.flatMap StringItem.text)
      (body ≠ [] → m + body.length ≤ maximumJsonStringCharacters) 0
      (.inside d (m + body.length)) := by
  induction body generalizing m with
  | nil => exact (Scans.nil _).congr (iff_of_true trivial fun h => absurd rfl h) rfl
  | cons item body ih =>
    have hlength : m + 1 + body.length = m + (item :: body).length := by
      rw [List.length_cons, Nat.add_assoc, Nat.add_comm 1]
    have hall := (scans_item d m item).append (ih (m + 1))
    rw [hlength] at hall
    refine hall.congr ⟨fun h _ => ?_, fun h => ?_⟩ rfl
    · cases body with
      | nil => exact h.1
      | cons item' body => exact h.2 (List.cons_ne_nil _ _)
    · have hle := h (List.cons_ne_nil _ _)
      exact ⟨by omega, fun _ => hle⟩

theorem scans_string (d k : Nat) (body : List StringItem) :
    Scans (.outside d k) (stringText body) (body.length ≤ maximumJsonStringCharacters) 0
      (.outside d 0) := by
  have hall := ((scans_openingQuote d k).append (scans_body d 0 body)).append
    (scans_closingQuote d (0 + body.length))
  rw [List.singleton_append, List.cons_append] at hall
  refine hall.congr ⟨fun h => ?_, fun h => ⟨⟨trivial, fun _ => by omega⟩, trivial⟩⟩ rfl
  cases body with
  | nil => exact Nat.zero_le _
  | cons item body =>
    have hle := h.1.2 (List.cons_ne_nil _ _)
    omega

theorem scans_label (d : Nat) (label : Option Label) :
    Scans (.outside d 0) (labelText label)
      ((labelSize label).longestString ≤ maximumJsonStringCharacters)
      (labelSize label).structuralTokens (.outside d 0) := by
  cases label with
  | none => exact (Scans.nil _).congr (iff_of_true trivial (Nat.zero_le _)) rfl
  | some label =>
    obtain ⟨body, before, after⟩ := label
    obtain ⟨k, hbefore, _⟩ := scans_blank d 0 before
    obtain ⟨k', hafter, hzero⟩ := scans_blank d 0 after
    obtain rfl := hzero rfl
    have hall := (scans_string d 0 body).append
      (hbefore.append ((scans_mark d k (.inr rfl)).append hafter))
    rw [List.singleton_append] at hall
    refine hall.congr ?_ rfl
    simp only [and_true]
    rfl

theorem labelSize_eq (label : Option Label) :
    (labelSize label).height = 0 ∧ (labelSize label).longestScalar = 0 := by
  cases label <;> exact ⟨rfl, rfl⟩

/-- A container without its closing bracket. -/
theorem scans_inner {d k : Nat} (isObject : Bool) (space : Blank) {items : JsonItems}
    (hitems : Scans (.outside (d + 1) 0) items.text ((itemsSize items).Fits (d + 1))
      (itemsSize items).structuralTokens (.outside (d + 1) k)) :
    Scans (.outside d 0) (opening isObject :: (space.val ++ items.text))
      (d + 1 ≤ maximumJsonDepth ∧ (itemsSize items).Fits (d + 1))
      ((itemsSize items).structuralTokens + 1) (.outside (d + 1) k) := by
  obtain ⟨k', hspace, hzero⟩ := scans_blank (d + 1) 0 space
  obtain rfl := hzero rfl
  refine ((scans_opening d 0 isObject).append (hspace.append hitems)).congr ?_ ?_
  · simp only [true_and]
  · omega

mutual

theorem scans_tree {d : Nat} (hd : 1 ≤ d) : (v : JsonTree) → ∃ k,
    Scans (.outside d 0) v.text ((treeSize v).Fits d) (treeSize v).structuralTokens (.outside d k)
  | .scalar literal => by
    refine ⟨_, (scans_scalar d 0 literal.2.2 literal.2.1).congr ?_ rfl⟩
    simp only [treeSize, JsonSize.Fits]
    omega
  | .string body => by
    refine ⟨0, (scans_string d 0 body).congr ?_ rfl⟩
    simp only [treeSize, JsonSize.Fits]
    omega
  | .container isObject space items => by
    obtain ⟨k, hitems⟩ := scans_items (Nat.succ_pos d) items
    have hall := (scans_inner isObject space hitems).append (scans_closing hd k isObject)
    rw [List.cons_append, List.append_assoc] at hall
    refine ⟨0, hall.congr ?_ ?_⟩
    · simp only [treeSize, JsonSize.Fits, and_true]
      omega
    · simp only [treeSize]

theorem scans_items {d : Nat} (hd : 1 ≤ d) : (items : JsonItems) → ∃ k,
    Scans (.outside d 0) items.text ((itemsSize items).Fits d) (itemsSize items).structuralTokens
      (.outside d k)
  | .nil => by
    refine ⟨0, (Scans.nil _).congr ?_ rfl⟩
    exact iff_of_true trivial ⟨fun h => absurd rfl h, Nat.zero_le _, Nat.zero_le _⟩
  | .last label value after => by
    obtain ⟨k, hvalue⟩ := scans_tree hd value
    obtain ⟨k', hafter, _⟩ := scans_blank d k after
    have hlabel := labelSize_eq label
    refine ⟨k', ((scans_label d label).append (hvalue.append hafter)).congr ?_ rfl⟩
    simp only [itemsSize, JsonSize.Fits, JsonSize.join, and_true]
    omega
  | .more label value after before items => by
    obtain ⟨k, hvalue⟩ := scans_tree hd value
    obtain ⟨k', hafter, _⟩ := scans_blank d k after
    -- Behind a comma nothing of a scalar is counted any more.
    obtain ⟨k'', hbefore, hzero⟩ := scans_blank d 0 before
    obtain rfl := hzero rfl
    obtain ⟨m, hitems⟩ := scans_items hd items
    have hlabel := labelSize_eq label
    have hall := (scans_label d label).append (hvalue.append (hafter.append
      ((scans_mark d k' (.inl rfl)).append (hbefore.append hitems))))
    refine ⟨m, hall.congr ?_ ?_⟩
    · simp only [itemsSize, JsonSize.Fits, JsonSize.join, true_and]
      omega
    · simp only [itemsSize, JsonSize.join]
      omega

end

/-! ## The end of a value -/

theorem stringEnd_plain (m b : Nat) {c : Char} (hc : c ≠ '"' ∧ c ≠ '\\') (rest : List Char) :
    boundedJsonStringEnd false m b (c :: rest) = (do
      let b ← boundedJsonByteCount b c
      let m ← boundedJsonStringCharacterCount m
      boundedJsonStringEnd false m b rest) := by
  rw [boundedJsonStringEnd]
  simp only [Bool.false_eq_true, if_false, if_neg hc.1, if_neg hc.2]

theorem stringEnd_escape (m b : Nat) (c : Char) (rest : List Char) :
    boundedJsonStringEnd false m b ('\\' :: c :: rest) = (do
      let b ← boundedJsonByteCount b '\\'
      let b ← boundedJsonByteCount b c
      let m ← boundedJsonStringCharacterCount m
      boundedJsonStringEnd false m b rest) := by
  simp only [boundedJsonStringEnd, Bool.false_eq_true, if_false, if_true]

theorem stringEnd_item (m b : Nat) (item : StringItem) (rest : List Char) :
    Decides (m + 1 ≤ maximumJsonStringCharacters ∧
        b + textBytes item.text ≤ maximumListingBytes)
      (boundedJsonStringEnd false m b (item.text ++ rest))
      (boundedJsonStringEnd false (m + 1) (b + textBytes item.text) rest) := by
  cases item with
  | plain c hc =>
    simp only [StringItem.text, List.singleton_append]
    rw [stringEnd_plain m b hc]
    apply Decides.congr
    · apply Decides.trans
      · apply decides_byteCount
      · apply decides_stringCharacterCount
    · exact and_comm
  | escape c =>
    simp only [StringItem.text, List.cons_append, List.nil_append]
    rw [stringEnd_escape m b c, textBytes_cons, textBytes_cons, textBytes_nil, Nat.add_zero,
      ← Nat.add_assoc]
    apply Decides.congr
    · apply Decides.trans
      · apply decides_byteCount
      · apply Decides.trans
        · apply decides_byteCount
        · apply decides_stringCharacterCount
    · omega

theorem stringEnd_body (m b : Nat) (body : List StringItem) (rest : List Char) :
    Decides ((body ≠ [] → m + body.length ≤ maximumJsonStringCharacters) ∧
        b + textBytes (body.flatMap StringItem.text ++ ['"']) ≤ maximumListingBytes)
      (boundedJsonStringEnd false m b (body.flatMap StringItem.text ++ '"' :: rest))
      (.ok rest) := by
  induction body generalizing m b with
  | nil =>
    have hstep := decides_byteCount b '"' fun _ => Except.ok rest
    exact hstep.congr ⟨fun h => ⟨fun h' => absurd rfl h', h⟩, And.right⟩
  | cons item body ih =>
    have hsteps := (stringEnd_item m b item (body.flatMap StringItem.text ++ '"' :: rest)).trans
      (ih (m + 1) (b + textBytes item.text))
    rw [← List.append_assoc] at hsteps
    refine hsteps.congr ?_
    simp only [List.flatMap_cons, List.append_assoc, textBytes_append, List.length_cons]
    have hnil : body = [] ∨ body ≠ [] := em _
    have hlength : body = [] → body.length = 0 := fun h => by rw [h]; rfl
    have hcons : item :: body ≠ [] := List.cons_ne_nil _ _
    simp only [ne_eq, hcons, not_false_eq_true, true_imp_iff]
    rcases hnil with h | h
    · simp only [h, not_true_eq_false, false_imp_iff, true_and, List.length_nil,
        List.flatMap_nil, textBytes_nil]
      omega
    · simp only [h, not_false_eq_true, true_imp_iff]
      omega

theorem isDelimiter_of_isScalarChar {c : Char} (h : isScalarChar c = true) :
    ¬isDelimiter c = true := by
  intro hd
  simp only [isDelimiter, isBlank, Bool.or_eq_true, decide_eq_true_eq, List.contains_iff_mem] at hd
  rcases hd with (((rfl | rfl) | rfl) | rfl) | hd
  · revert h; decide
  · revert h; decide
  · revert h; decide
  · revert h; decide
  · have hall : (";<>(),]\x7d".toList.all fun d => !isScalarChar d) = true := by decide
    have hnot := List.all_eq_true.1 hall c hd
    rw [h] at hnot
    cases hnot

theorem scalarEnd_char (k b : Nat) {c : Char} (hc : isScalarChar c = true) (rest : List Char) :
    Decides (b + characterBytes c ≤ maximumListingBytes ∧ k + 1 ≤ maximumJsonScalarCharacters)
      (boundedJsonScalarEnd k b (c :: rest))
      (boundedJsonScalarEnd (k + 1) (b + characterBytes c) rest) := by
  rw [boundedJsonScalarEnd, if_neg (isDelimiter_of_isScalarChar hc)]
  apply Decides.trans
  · apply decides_byteCount
  · apply decides_require

theorem scalarEnd_literal {literal : List Char} (h : IsScalarText literal) (k b : Nat)
    (hk : k ≤ maximumJsonScalarCharacters) (hb : b ≤ maximumListingBytes) (rest : List Char) :
    Decides (k + literal.length ≤ maximumJsonScalarCharacters ∧
        b + textBytes literal ≤ maximumListingBytes)
      (boundedJsonScalarEnd k b (literal ++ rest))
      (boundedJsonScalarEnd (k + literal.length) (b + textBytes literal) rest) := by
  induction literal generalizing k b with
  | nil => exact Decides.of_true ⟨hk, hb⟩ _
  | cons c literal ih =>
    obtain ⟨hc, hrest⟩ := List.forall_mem_cons.1 h
    have hfirst := scalarEnd_char k b hc (literal ++ rest)
    rw [List.cons_append, textBytes_cons, List.length_cons, Nat.add_comm literal.length 1,
      ← Nat.add_assoc, ← Nat.add_assoc]
    by_cases hfits : b + characterBytes c ≤ maximumListingBytes ∧
        k + 1 ≤ maximumJsonScalarCharacters
    · apply Decides.congr
      · exact hfirst.trans (ih hrest (k + 1) _ hfits.2 hfits.1)
      · exact and_iff_right hfits
    · exact ⟨fun h => absurd ⟨by omega, by omega⟩ hfits, fun _ => hfirst.stop hfits⟩

/-- What stands behind a value that is read for itself. -/
def Delimited (rest : List Char) : Prop := ∀ c ∈ rest.head?, isDelimiter c = true

theorem scalarEnd_delimited {k : Nat} (hk : k ≠ 0) (b : Nat) {rest : List Char}
    (h : Delimited rest) : boundedJsonScalarEnd k b rest = .ok rest := by
  cases rest with
  | nil => rfl
  | cons c rest => rw [boundedJsonScalarEnd, if_pos (h c rfl), if_neg hk]

theorem valueEnd_scalar (literal : Scalar) (rest : List Char) :
    boundedJsonValueEnd (literal.val ++ rest) = boundedJsonScalarEnd 0 0 (literal.val ++ rest) := by
  obtain ⟨literal, hne, hscalar⟩ := literal
  cases literal with
  | nil => exact absurd rfl hne
  | cons c literal =>
    have hordinary := isOrdinary_of_isScalarChar (hscalar c List.mem_cons_self)
    simp only [List.cons_append]
    rw [boundedJsonValueEnd, if_neg hordinary.opens, if_neg hordinary.quote]

theorem valueEnd_opening (isObject : Bool) (inner : List Char) :
    boundedJsonValueEnd (opening isObject :: inner) =
      boundedJsonContainerEnd ((JsonShape.outside 0 0).charge 0 0) (opening isObject :: inner) := by
  have hopens : opening isObject = '[' ∨ opening isObject = '\x7b' := by
    cases isObject <;> decide
  rw [boundedJsonValueEnd, if_pos hopens]
  rfl

theorem withinJsonLimits_iff (v : JsonTree) :
    WithinJsonLimits v ↔ (treeSize v).height ≤ maximumJsonDepth ∧
      (treeSize v).structuralTokens ≤ maximumJsonStructuralTokens ∧
      (treeSize v).longestString ≤ maximumJsonStringCharacters ∧
      (treeSize v).longestScalar ≤ maximumJsonScalarCharacters ∧
      textBytes v.text ≤ maximumListingBytes := by
  constructor
  · rintro ⟨hheight, htokens, hstring, hscalar, hbytes⟩
    exact ⟨hheight, htokens, hstring, hscalar, hbytes⟩
  · rintro ⟨hheight, htokens, hstring, hscalar, hbytes⟩
    exact ⟨hheight, htokens, hstring, hscalar, hbytes⟩

/-- The scanner ends where the value does, if the value is within its limits. -/
theorem valueEnd_tree (v : JsonTree) {rest : List Char} (hrest : Delimited rest) :
    Decides (WithinJsonLimits v) (boundedJsonValueEnd (v.text ++ rest)) (.ok rest) := by
  rw [withinJsonLimits_iff]
  cases v with
  | scalar literal =>
    have hlength : 0 + literal.val.length ≠ 0 := by
      rw [Nat.zero_add, ne_eq, List.length_eq_zero_iff]
      exact literal.2.1
    have hend := scalarEnd_literal literal.2.2 0 0 (Nat.zero_le _) (Nat.zero_le _) rest
    rw [scalarEnd_delimited hlength _ hrest] at hend
    simp only [JsonTree.text]
    rw [valueEnd_scalar]
    refine hend.congr ?_
    simp only [treeSize]
    omega
  | string body =>
    have hvalue : boundedJsonValueEnd ((JsonTree.string body).text ++ rest) =
        boundedJsonByteCount 0 '"' >>= fun b =>
          boundedJsonStringEnd false 0 b (body.flatMap StringItem.text ++ '"' :: rest) := by
      simp only [JsonTree.text, stringText, List.cons_append, List.append_assoc, List.nil_append]
      rfl
    rw [hvalue]
    apply Decides.congr
    · apply Decides.trans
      · apply decides_byteCount
      · apply stringEnd_body
    · simp only [JsonTree.text, stringText, treeSize, textBytes_cons]
      cases body with
      | nil =>
        simp only [ne_eq, not_true_eq_false, false_imp_iff, true_and, List.length_nil]
        omega
      | cons item body =>
        simp only [ne_eq, reduceCtorEq, not_false_eq_true, true_imp_iff]
        omega
  | container isObject space items =>
    obtain ⟨k, hitems⟩ := scans_items (Nat.succ_pos 0) items
    have hinner := scans_inner isObject space hitems 0 0 (Nat.zero_le _) (Nat.zero_le _)
      (closing isObject :: rest)
    have hvalue : boundedJsonValueEnd ((JsonTree.container isObject space items).text ++ rest) =
        boundedJsonContainerEnd ((JsonShape.outside 0 0).charge 0 0)
          (opening isObject :: (space.val ++ items.text) ++ closing isObject :: rest) := by
      simp only [JsonTree.text, List.cons_append, List.append_assoc, List.nil_append]
      exact valueEnd_opening isObject _
    rw [hvalue]
    apply Decides.congr
    · exact hinner.trans (containerEnd_closing _ _ _ _ _)
    · simp only [JsonSize.Fits, treeSize, JsonTree.text, textBytes_cons, textBytes_append,
        textBytes_nil]
      omega

/-! ## Limits of the decoder -/

/-- The scanner fails where the decoder does not go on for its own limits. -/
structure FailsAtLimits (r : JsonRuntime) (fuel : Nat) (e : JsonError) : Prop where
  once : ∀ {level text}, 1 ≤ level → scanOnce r fuel level text = .error e →
    Fails (.outside level 0) text
  container : ∀ {level isObject text}, scanContainer r fuel level isObject text = .error e →
    Fails (.outside level 0) (opening isObject :: text)
  items : ∀ {level isObject text}, 1 ≤ level → scanItems r fuel level isObject text = .error e →
    Fails (.outside level 0) text

theorem failsAtLimits {r : JsonRuntime} (hdepth : maximumJsonDepth ≤ r.maximumDepth)
    (hdigits : maximumJsonScalarCharacters ≤ r.maximumDigits) {e : JsonError}
    (he : e = .recursion ∨ e = .digits) (fuel : Nat) : FailsAtLimits r fuel e := by
  have hmalformed : e ≠ .malformed := by rcases he with rfl | rfl <;> decide
  have hexhausted : e ≠ .exhausted := by rcases he with rfl | rfl <;> decide
  induction fuel with
  | zero =>
    constructor
    · intro level text _ h
      rw [scanOnce.eq_def] at h
      exact absurd (Except.error.inj h).symm hexhausted
    · intro level isObject text h
      rw [scanContainer] at h
      exact absurd (Except.error.inj h).symm hexhausted
    · intro level isObject text _ h
      rw [scanItems] at h
      exact absurd (Except.error.inj h).symm hexhausted
  | succ fuel ih =>
    constructor
    · intro level text hlevel h
      rcases scanOnce_error h with h | ⟨_, literal, rest, rfl, hlong⟩ | ⟨isObject, inner, rfl, hin⟩
      · exact absurd h hmalformed
      · exact (scans_scalar level 0 literal.2.2 literal.2.1).fails_of_not (by omega) rest
      · exact ih.container hin
    · intro level isObject text h
      have hopen := scans_opening level 0 isObject
      -- The level of the decoder is the depth of the scanner.
      rcases scanContainer_error h with ⟨_, hlevel⟩ | ⟨space, inner, rfl, hin⟩
      · exact hopen.fails_of_not (by omega) text
      · obtain ⟨k, hspace, hzero⟩ := scans_blank (level + 1) 0 space
        obtain rfl := hzero rfl
        exact hopen.fails (hspace.fails (ih.items (Nat.succ_pos level) hin))
    · intro level isObject text hlevel h
      rcases scanItems_error h with h |
        ⟨label, inner, rfl, hin | ⟨value, after, before, more, rfl, hin⟩⟩
      · exact absurd h hmalformed
      -- What was read before the failure is either too much already or was passed.
      · exact (scans_label level label).fails (ih.once hlevel hin)
      · obtain ⟨k, hvalue⟩ := scans_tree hlevel value
        obtain ⟨k', hafter, _⟩ := scans_blank level k after
        obtain ⟨k'', hbefore, hzero⟩ := scans_blank level 0 before
        obtain rfl := hzero rfl
        have hmore := ih.items hlevel hin
        exact (scans_label level label).fails (hvalue.fails (hafter.fails
          ((scans_mark level k' (.inl rfl)).fails (hbefore.fails hmore))))

/-- Where the decoder stops for its limits at a value, the scanner has stopped before. -/
theorem valueEnd_of_limit {r : JsonRuntime} (hdepth : maximumJsonDepth ≤ r.maximumDepth)
    (hdigits : maximumJsonScalarCharacters ≤ r.maximumDigits) {e : JsonError}
    (he : e = .recursion ∨ e = .digits) {value : List Char} (h : rawDecode r value = .error e) :
    ∃ e', boundedJsonValueEnd value = .error e' := by
  rcases scanOnce_error h with hmal | ⟨_, literal, rest, rfl, hlong⟩ | ⟨isObject, inner, rfl, hin⟩
  · rcases he with rfl | rfl <;> cases hmal
  · rw [valueEnd_scalar]
    apply (scalarEnd_literal literal.2.2 0 0 (Nat.zero_le _) (Nat.zero_le _) rest).stop
    omega
  · rw [valueEnd_opening]
    exact (failsAtLimits hdepth hdigits he _).container hin 0 0 (Nat.zero_le _) (Nat.zero_le _)

end Makolet.Sources
