import Makolet.Parsing.TokenRuns

/-!
# Feeds of the token guard

`feed_eq_ok`: a feed follows the lexer, and is accepted exactly when every run and token is within
the limits. From it, what the feeds of a document do: the guard forgets the content of a comment, a
CDATA section or a processing instruction at the end of a feed, so that it misses a terminator that
falls across the boundary.
-/

set_option autoImplicit false

namespace Makolet.Parsing

open Makolet.Domain Makolet.Lib

/-! ## Searching -/

section Find

variable {d text before behind : List Char}

theorem find_eq_none (hd : d ≠ []) (h : find d text = none) {p : List Char} (hp : p <+: text) :
    ¬ d <:+ p := by
  induction text generalizing p with
  | nil =>
    rw [List.prefix_nil] at hp
    rw [hp, List.suffix_nil]
    exact hd
  | cons c rest ih =>
    rw [find] at h
    split_ifs at h with hfirst
    rw [Option.map_eq_none_iff] at h
    cases p with
    | nil =>
      rw [List.suffix_nil]
      exact hd
    | cons c' p =>
      obtain ⟨rfl, hrest⟩ := List.cons_prefix_cons.mp hp
      rw [List.suffix_cons_iff]
      rintro (rfl | hsuffix)
      · exact hfirst (List.cons_prefix_cons.mpr ⟨rfl, hrest⟩)
      · exact ih h hrest hsuffix

/-- The first occurrence is also the first to end. -/
theorem find_eq_some (hd : d ≠ []) (h : find d text = some (before, behind)) :
    text = before ++ d ++ behind ∧
      ∀ p, p <+: before ++ d → p ≠ before ++ d → ¬ d <:+ p := by
  induction text generalizing before with
  | nil => cases h
  | cons c rest ih =>
    rw [find] at h
    split_ifs at h with hfirst
    · cases h
      obtain ⟨behind, hbehind⟩ := hfirst
      refine ⟨by rw [← hbehind, List.drop_left, List.nil_append], ?_⟩
      intro p hp hne hsuffix
      exact hne (hp.eq_of_length_le hsuffix.length_le)
    · rw [Option.map_eq_some_iff] at h
      obtain ⟨⟨before', behind'⟩, hfound, heq⟩ := h
      cases heq
      obtain ⟨hrest, hearliest⟩ := ih hfound
      refine ⟨by rw [hrest]; rfl, ?_⟩
      intro p hp hne
      cases p with
      | nil =>
        rw [List.suffix_nil]
        exact hd
      | cons c' p =>
        obtain ⟨rfl, hinner⟩ := List.cons_prefix_cons.mp hp
        rw [List.suffix_cons_iff]
        rintro (rfl | hsuffix)
        · refine hfirst (List.cons_prefix_cons.mpr ⟨rfl, hinner.trans ?_⟩)
          rw [hrest]
          exact List.prefix_append _ _
        · exact hearliest p hinner (fun h => hne (by rw [h]; rfl)) hsuffix

theorem find_singleton_none {c : Char} (h : find [c] text = none) : c ∉ text := by
  intro hmem
  obtain ⟨front, back, rfl⟩ := List.append_of_mem hmem
  exact find_eq_none (List.cons_ne_nil _ _) h (p := front ++ [c]) ⟨back, by simp⟩
    (List.suffix_append _ _)

theorem find_singleton_some {c : Char} (h : find [c] text = some (before, behind)) :
    text = before ++ c :: behind ∧ c ∉ before := by
  obtain ⟨htext, hearliest⟩ := find_eq_some (List.cons_ne_nil _ _) h
  refine ⟨by rw [htext, List.append_assoc]; rfl, ?_⟩
  intro hmem
  obtain ⟨front, back, rfl⟩ := List.append_of_mem hmem
  refine hearliest (front ++ [c]) ⟨back ++ [c], by simp⟩ ?_ (List.suffix_append _ _)
  intro heq
  have hlength := congrArg List.length heq
  simp at hlength

end Find

/-! ## Passes -/

namespace Lexer

variable {limits : XmlParserLimits} {s : Lexer} {runs tokens : List Nat} {closed : Nat}

theorem read_text {text : List Char} (run : Nat) (h : '<' ∉ text) :
    (⟨.text run, runs, tokens, closed⟩ : Lexer).read text =
      ⟨.text (run + text.length), runs, tokens, closed⟩ := by
  induction text generalizing run with
  | nil => rfl
  | cons c text ih =>
    obtain ⟨hc, htext⟩ := List.ne_and_not_mem_of_not_mem_cons h
    rw [read_cons, step]
    simp only [if_neg hc.symm]
    rw [ih (run + 1) htext, List.length_cons]
    simp only [Nat.add_assoc, Nat.add_comm 1]

theorem read_quoted {text opening : List Char} {mark : Char} (token run : Nat) (h : mark ∉ text) :
    (⟨.quoted opening token mark run, runs, tokens, closed⟩ : Lexer).read text =
      ⟨.quoted opening (token + text.length) mark (run + text.length), runs, tokens, closed⟩ := by
  induction text generalizing token run with
  | nil => rfl
  | cons c text ih =>
    obtain ⟨hc, htext⟩ := List.ne_and_not_mem_of_not_mem_cons h
    rw [read_cons, step]
    simp only [if_neg hc.symm]
    rw [ih (token + 1) (run + 1) htext, List.length_cons]
    simp only [Nat.add_assoc, Nat.add_comm 1]

theorem read_element {text opening : List Char} (token : Nat)
    (h : ∀ c ∈ text, c ∉ '>' :: quotes) :
    (⟨.element opening token, runs, tokens, closed⟩ : Lexer).read text =
      ⟨.element opening (token + text.length), runs, tokens, closed⟩ := by
  induction text generalizing token with
  | nil => rfl
  | cons c text ih =>
    obtain ⟨hc, htext⟩ := List.forall_mem_cons.mp h
    obtain ⟨hgt, hquote⟩ := List.ne_and_not_mem_of_not_mem_cons hc
    rw [read_cons, step]
    simp only [stepElement, if_neg hgt, if_neg hquote]
    rw [ih (token + 1) htext, List.length_cons]
    simp only [Nat.add_assoc, Nat.add_comm 1]

theorem read_delimited {text : List Char} {kind : Delimited} (token run : Nat)
    (content : List Char)
    (h : ∀ p, p <+: text → p ≠ [] → ¬ kind.terminator <:+ content ++ p) :
    (⟨.delimited kind token run content, runs, tokens, closed⟩ : Lexer).read text =
      ⟨.delimited kind (token + text.length) (run + text.length) (content ++ text), runs, tokens,
        closed⟩ := by
  induction text generalizing token run content with
  | nil => simp
  | cons c text ih =>
    have hc : ¬ kind.terminator <:+ content ++ [c] :=
      h [c] (by simp) (List.cons_ne_nil _ _)
    rw [read_cons, step]
    simp only [if_neg hc]
    rw [ih (token + 1) (run + 1) (content ++ [c])]
    · rw [List.length_cons, List.append_assoc, List.singleton_append]
      simp only [Nat.add_assoc, Nat.add_comm 1]
    · intro p hp hne
      rw [List.append_assoc, List.singleton_append]
      exact h (c :: p) (List.cons_prefix_cons.mpr ⟨rfl, hp⟩) (List.cons_ne_nil _ _)

/-- A content up to its terminator. -/
theorem read_terminated {before : List Char} {kind : Delimited} (token run : Nat)
    (h : ∀ p, p <+: before ++ kind.terminator → p ≠ before ++ kind.terminator →
      ¬ kind.terminator <:+ p) :
    (⟨.delimited kind token run [], runs, tokens, closed⟩ : Lexer).read
        (before ++ kind.terminator) =
      close ⟨.text 0, runs, tokens, closed⟩ (token + (before ++ kind.terminator).length)
        (kind.finished (run + ((before ++ kind.terminator).length - 1))) := by
  have hne : before ++ kind.terminator ≠ [] := by
    simp [kind.terminator_ne_nil]
  set whole := before ++ kind.terminator with hwhole
  have hsplit : whole.dropLast ++ [whole.getLast hne] = whole := List.dropLast_append_getLast hne
  have hlength : whole.length = whole.dropLast.length + 1 := by
    rw [List.length_dropLast]
    have := List.length_pos_of_ne_nil hne
    omega
  rw [← hsplit, read_append, read_delimited token run [], read_cons, read_nil, step]
  · have hend : kind.terminator <:+ ([] ++ whole.dropLast) ++ [whole.getLast hne] := by
      rw [List.nil_append, hsplit]
      exact List.suffix_append _ _
    simp only [if_pos hend, hsplit]
    rw [hlength, Nat.add_sub_cancel, Nat.add_assoc]
    rfl
  · intro p hp hpne
    rw [List.nil_append]
    refine h p (hp.trans (List.dropLast_prefix _)) ?_
    rintro rfl
    have hle := hp.length_le
    omega

/-- A pass has two characters to spend for each that is left, and one more in the mode `opened`,
which it leaves without reading. -/
def budget (l : Lexeme) (text : List Char) : Nat :=
  2 * text.length + if l = .opened then 1 else 0

/-- What a pass does: it reads on to `t`, where `rest` is left, and is accepted exactly when `t` is
within the limits. -/
structure Passes (limits : XmlParserLimits) (s : Lexer) (c : Char) (text : List Char) (t : Lexer)
    (rest : List Char) : Prop where
  read : t.read rest = s.read (c :: text)
  content : t.lexeme.content = [] ∨ rest = []
  smaller : budget t.lexeme rest < budget s.lexeme (c :: text)
  accepts : ∀ r, s.lexeme.guard.scan limits c text = .ok r ↔
    Within limits t ∧ r = (t.lexeme.guard, rest)

theorem budget_lt {l l' : Lexeme} {before text rest : List Char} (h : text = before ++ rest)
    (hne : before ≠ []) : budget l' rest < budget l text := by
  have hpos := List.length_pos_of_ne_nil hne
  unfold budget
  rw [h, List.length_append]
  split_ifs <;> omega

/-- The rest of a pass that stays within the text. -/
theorem Passes.of_split {c : Char} {text rest : List Char} {t : Lexer} (before : List Char)
    (htext : c :: text = before ++ rest) (hne : before ≠ []) (ht : s.read before = t)
    (hcontent : t.lexeme.content = [] ∨ rest = [])
    (haccepts : ∀ r, s.lexeme.guard.scan limits c text = .ok r ↔
      Within limits t ∧ r = (t.lexeme.guard, rest)) : Passes limits s c text t rest := by
  refine ⟨?_, hcontent, budget_lt htext hne, haccepts⟩
  rw [htext, read_append, ht]

theorem passes_text {run : Nat} {c : Char} {text : List Char}
    (hs : Within limits ⟨.text run, runs, tokens, closed⟩) :
    ∃ t rest, Passes limits ⟨.text run, runs, tokens, closed⟩ c text t rest := by
  cases hfind : find ['<'] (c :: text) with
  | none =>
    refine ⟨_, _, .of_split _ (List.append_nil _).symm (List.cons_ne_nil _ _)
      (read_text run (find_singleton_none hfind)) (.inr rfl) fun r => ?_⟩
    simp only [XmlTokenGuard.scan, Lexeme.guard, XmlTokenGuard.scanText, hfind,
      XmlTokenGuard.addText_bind_eq_ok, pure_eq_ok]
    constructor
    · rintro ⟨hle, rfl⟩
      exact ⟨⟨Nat.zero_le _, hle, hs.tokens, hs.runs⟩, rfl⟩
    · rintro ⟨hw, rfl⟩
      exact ⟨hw.run, rfl⟩
  | some found =>
    obtain ⟨before, behind⟩ := found
    obtain ⟨htext, hbefore⟩ := find_singleton_some hfind
    have hread : (⟨.text run, runs, tokens, closed⟩ : Lexer).read (before ++ ['<']) =
        ⟨.opened, runs ++ [run + before.length], tokens, closed⟩ := by
      rw [read_append, read_text run hbefore]
      rfl
    refine ⟨⟨.opened, runs ++ [run + before.length], tokens, closed⟩, behind, ?_, .inl rfl, ?_, ?_⟩
    · rw [← hread, ← read_append, htext, List.append_assoc]
      rfl
    · have hlength := congrArg List.length htext
      simp only [List.length_append, List.length_cons] at hlength
      simp only [budget, if_true, List.length_cons, reduceCtorEq, if_false]
      omega
    · intro r
      simp only [XmlTokenGuard.scan, Lexeme.guard, XmlTokenGuard.scanText, hfind,
        XmlTokenGuard.addText_bind_eq_ok, pure_eq_ok]
      constructor
      · rintro ⟨hle, rfl⟩
        refine ⟨⟨limits.token_pos, Nat.zero_le _, hs.tokens, ?_⟩, rfl⟩
        exact List.forall_mem_append.mpr ⟨hs.runs, List.forall_mem_singleton.mpr hle⟩
      · rintro ⟨hw, rfl⟩
        exact ⟨hw.runs _ (by simp), rfl⟩

theorem passes_opened {c : Char} {text : List Char}
    (hs : Within limits ⟨.opened, runs, tokens, closed⟩) :
    ∃ t rest, Passes limits ⟨.opened, runs, tokens, closed⟩ c text t rest := by
  by_cases hpi : c = '?'
  · refine ⟨⟨.delimited .processingInstruction 2 0 [], runs, tokens, closed⟩, text,
      .of_split [c] rfl (List.cons_ne_nil _ _) ?_ (.inl rfl) fun r => ?_⟩
    · simp [step, hpi]
    · simp only [XmlTokenGuard.scan, Lexeme.guard, XmlTokenGuard.scanOpen, if_pos hpi,
        XmlTokenGuard.addToken_bind_eq_ok, pure_eq_ok]
      constructor
      · rintro ⟨hle, rfl⟩
        exact ⟨⟨hle, Nat.zero_le _, hs.tokens, hs.runs⟩, rfl⟩
      · rintro ⟨hw, rfl⟩
        exact ⟨hw.token, rfl⟩
  · by_cases hdeclaration : c = '!'
    · refine ⟨⟨.declaration ['<', '!'] 2, runs, tokens, closed⟩, text,
        .of_split [c] rfl (List.cons_ne_nil _ _) ?_ (.inl rfl) fun r => ?_⟩
      · simp [step, hdeclaration]
      · simp only [XmlTokenGuard.scan, Lexeme.guard, XmlTokenGuard.scanOpen, if_neg hpi,
          if_pos hdeclaration, XmlTokenGuard.addToken_bind_eq_ok, pure_eq_ok]
        constructor
        · rintro ⟨hle, rfl⟩
          exact ⟨⟨hle, Nat.zero_le _, hs.tokens, hs.runs⟩, rfl⟩
        · rintro ⟨hw, rfl⟩
          exact ⟨hw.token, rfl⟩
    · -- The character is read by the next pass.
      refine ⟨⟨.element ['<'] 1, runs, tokens, closed⟩, c :: text, ?_, .inl rfl, ?_, ?_⟩
      · simp only [read_cons, step, if_neg hpi, if_neg hdeclaration]
        rfl
      · simp [budget]
      · intro r
        simp only [XmlTokenGuard.scan, Lexeme.guard, XmlTokenGuard.scanOpen, if_neg hpi,
          if_neg hdeclaration, pure_eq_ok]
        constructor
        · rintro rfl
          exact ⟨⟨hs.token, Nat.zero_le _, hs.tokens, hs.runs⟩, rfl⟩
        · rintro ⟨-, rfl⟩
          rfl

theorem passes_quoted {opening : List Char} {token run : Nat} {mark c : Char} {text : List Char}
    (hs : Within limits ⟨.quoted opening token mark run, runs, tokens, closed⟩) :
    ∃ t rest, Passes limits ⟨.quoted opening token mark run, runs, tokens, closed⟩ c text t rest := by
  cases hfind : find [mark] (c :: text) with
  | none =>
    refine ⟨_, _, .of_split _ (List.append_nil _).symm (List.cons_ne_nil _ _)
      (read_quoted token run (find_singleton_none hfind)) (.inr rfl) fun r => ?_⟩
    simp only [XmlTokenGuard.scan, Lexeme.guard, XmlTokenGuard.scanElement, hfind,
      XmlTokenGuard.addToken_bind_eq_ok, XmlTokenGuard.addQuoted_bind_eq_ok, pure_eq_ok]
    constructor
    · rintro ⟨htoken, hrun, rfl⟩
      exact ⟨⟨htoken, hrun, hs.tokens, hs.runs⟩, rfl⟩
    · rintro ⟨hw, rfl⟩
      exact ⟨hw.token, hw.run, rfl⟩
  | some found =>
    obtain ⟨before, behind⟩ := found
    obtain ⟨htext, hbefore⟩ := find_singleton_some hfind
    refine ⟨⟨.element opening (token + before.length + 1), runs ++ [run + before.length], tokens,
      closed⟩, behind, .of_split (before ++ [mark]) (by simp [htext]) (by simp) ?_
      (.inl rfl) fun r => ?_⟩
    · rw [read_append, read_quoted token run hbefore]
      simp [step]
    · simp only [XmlTokenGuard.scan, Lexeme.guard, XmlTokenGuard.scanElement, hfind,
        XmlTokenGuard.addToken_bind_eq_ok, XmlTokenGuard.addQuoted_bind_eq_ok, pure_eq_ok]
      constructor
      · rintro ⟨-, hrun, htoken, rfl⟩
        refine ⟨⟨htoken, Nat.zero_le _, hs.tokens, ?_⟩, rfl⟩
        exact List.forall_mem_append.mpr ⟨hs.runs, List.forall_mem_singleton.mpr hrun⟩
      · rintro ⟨hw, rfl⟩
        exact ⟨(Nat.le_succ _).trans hw.token, hw.runs _ (by simp), hw.token, rfl⟩

theorem passes_element {opening : List Char} {token : Nat} {c : Char} {text : List Char}
    (hs : Within limits ⟨.element opening token, runs, tokens, closed⟩) :
    ∃ t rest, Passes limits ⟨.element opening token, runs, tokens, closed⟩ c text t rest := by
  set plain : List Char := (c :: text).takeWhile fun c => c ∉ '>' :: quotes with hplain
  have hread : (⟨.element opening token, runs, tokens, closed⟩ : Lexer).read plain =
      ⟨.element opening (token + plain.length), runs, tokens, closed⟩ := by
    refine read_element token fun c hc => ?_
    simpa using List.all_eq_true.mp List.all_takeWhile c hc
  have htext : c :: text = plain ++ (c :: text).dropWhile fun c => c ∉ '>' :: quotes :=
    (List.takeWhile_append_dropWhile).symm
  cases hdrop : (c :: text).dropWhile fun c => c ∉ '>' :: quotes with
  | nil =>
    rw [hdrop, List.append_nil] at htext
    refine ⟨_, [], .of_split plain (by rw [← htext, List.append_nil]) (by rw [← htext]; simp) hread
      (.inr rfl) fun r => ?_⟩
    simp only [XmlTokenGuard.scan, Lexeme.guard, XmlTokenGuard.scanElement, hdrop,
      XmlTokenGuard.addToken_bind_eq_ok, pure_eq_ok, ← htext]
    constructor
    · rintro ⟨htoken, rfl⟩
      exact ⟨⟨htoken, Nat.zero_le _, hs.tokens, hs.runs⟩, rfl⟩
    · rintro ⟨hw, rfl⟩
      exact ⟨hw.token, rfl⟩
  | cons special behind =>
    rw [hdrop] at htext
    have hspecial : special ∈ '>' :: quotes := by
      have h := List.head?_dropWhile_not (fun c => decide (c ∉ '>' :: quotes)) (c :: text)
      rw [hdrop] at h
      exact not_not.mp (by simpa using h)
    by_cases hgt : special = '>'
    · refine ⟨⟨.text 0, runs, tokens ++ [token + plain.length + 1], closed⟩, behind,
        .of_split (plain ++ [special]) (by simp [htext]) (by simp) ?_ (.inl rfl)
        fun r => ?_⟩
      · rw [read_append, hread]
        simp [step, stepElement, hgt]
      · simp only [XmlTokenGuard.scan, Lexeme.guard, XmlTokenGuard.scanElement, hdrop,
          XmlTokenGuard.addToken_bind_eq_ok, if_pos hgt, pure_eq_ok, ← hplain]
        constructor
        · rintro ⟨htoken, rfl⟩
          refine ⟨⟨Nat.zero_le _, Nat.zero_le _, ?_, hs.runs⟩, rfl⟩
          exact List.forall_mem_append.mpr ⟨hs.tokens, List.forall_mem_singleton.mpr htoken⟩
        · rintro ⟨hw, rfl⟩
          exact ⟨hw.tokens _ (by simp [Nat.add_assoc]), rfl⟩
    · have hquote : special ∈ quotes := (List.mem_cons.mp hspecial).resolve_left hgt
      refine ⟨⟨.quoted opening (token + plain.length + 1) special 0, runs, tokens, closed⟩, behind,
        .of_split (plain ++ [special]) (by simp [htext]) (by simp) ?_ (.inl rfl)
        fun r => ?_⟩
      · rw [read_append, hread]
        simp [step, stepElement, hgt, hquote]
      · simp only [XmlTokenGuard.scan, Lexeme.guard, XmlTokenGuard.scanElement, hdrop,
          XmlTokenGuard.addToken_bind_eq_ok, if_neg hgt, pure_eq_ok, ← hplain]
        constructor
        · rintro ⟨htoken, rfl⟩
          exact ⟨⟨htoken, Nat.zero_le _, hs.tokens, hs.runs⟩, rfl⟩
        · rintro ⟨hw, rfl⟩
          exact ⟨hw.token, rfl⟩

theorem passes_declaration {opening : List Char} {token : Nat} {c : Char} {text : List Char}
    (hs : Within limits ⟨.declaration opening token, runs, tokens, closed⟩) :
    ∃ t rest, Passes limits ⟨.declaration opening token, runs, tokens, closed⟩ c text t rest := by
  refine ⟨_, text, .of_split [c] rfl (List.cons_ne_nil _ _) rfl (.inl ?_) fun r => ?_⟩
  · exact content_step (s := ⟨.declaration opening token, runs, tokens, closed⟩) rfl
  · simp only [XmlTokenGuard.scan, Lexeme.guard, XmlTokenGuard.scanDeclaration,
      XmlTokenGuard.addToken_bind_eq_ok, read_cons, read_nil, step, stepDeclaration]
    split_ifs with hcomment hcdata hopen <;> rw [pure_eq_ok]
    · constructor
      · rintro ⟨hle, rfl⟩
        exact ⟨⟨hle, Nat.zero_le _, hs.tokens, hs.runs⟩, by rw [hcomment]; rfl⟩
      · rintro ⟨hw, rfl⟩
        exact ⟨hw.token, by rw [hcomment]; rfl⟩
    · constructor
      · rintro ⟨hle, rfl⟩
        exact ⟨⟨hle, Nat.zero_le _, hs.tokens, hs.runs⟩, by rw [hcdata]; rfl⟩
      · rintro ⟨hw, rfl⟩
        exact ⟨hw.token, by rw [hcdata]; rfl⟩
    · constructor
      · rintro ⟨hle, rfl⟩
        exact ⟨⟨hle, Nat.zero_le _, hs.tokens, hs.runs⟩, rfl⟩
      · rintro ⟨hw, rfl⟩
        exact ⟨hw.token, rfl⟩
    · constructor
      · rintro ⟨hle, rfl⟩
        exact ⟨⟨hle, Nat.zero_le _, hs.tokens, hs.runs⟩, rfl⟩
      · rintro ⟨hw, rfl⟩
        exact ⟨hw.token, rfl⟩

/-- A pass that does not find the terminator. -/
theorem scan_of_unfinished {kind : Delimited} {token run : Nat} {c : Char} {text : List Char}
    {r : XmlTokenGuard × List Char} (h : find kind.terminator (c :: text) = none) :
    (Lexeme.delimited kind token run []).guard.scan limits c text = .ok r ↔
      token + (c :: text).length ≤ limits.maximumTokenCharacters ∧
        kind.counted (run + (c :: text).length) ≤ limits.maximumFieldCharacters ∧
        r = ((Lexeme.delimited kind (token + (c :: text).length) (run + (c :: text).length)
          (c :: text)).guard, []) := by
  cases kind with
  | cdata =>
    have hfind : find cdataEnd (c :: text) = none := h
    simp only [XmlTokenGuard.scan, Lexeme.guard, Delimited.mode, XmlTokenGuard.scanCdata, hfind,
      XmlTokenGuard.addText_bind_eq_ok, XmlTokenGuard.addToken_bind_eq_ok, pure_eq_ok,
      Delimited.counted]
    constructor
    · rintro ⟨hrun, htoken, rfl⟩
      exact ⟨htoken, hrun, rfl⟩
    · rintro ⟨htoken, hrun, rfl⟩
      exact ⟨hrun, htoken, rfl⟩
  | comment =>
    have hfind : find commentEnd (c :: text) = none := h
    simp only [XmlTokenGuard.scan, Lexeme.guard, Delimited.mode, XmlTokenGuard.scanDelimited, hfind,
      XmlTokenGuard.addToken_bind_eq_ok, pure_eq_ok, Delimited.counted, Nat.zero_le, true_and,
      eq_comm (a := r)]
  | processingInstruction =>
    have hfind : find processingInstructionEnd (c :: text) = none := h
    simp only [XmlTokenGuard.scan, Lexeme.guard, Delimited.mode, XmlTokenGuard.scanDelimited, hfind,
      XmlTokenGuard.addToken_bind_eq_ok, pure_eq_ok, Delimited.counted, Nat.zero_le, true_and,
      eq_comm (a := r)]

/-- A pass that finds the terminator. -/
theorem scan_of_finished {kind : Delimited} {token run : Nat} {c : Char}
    {text before behind : List Char} {r : XmlTokenGuard × List Char}
    (h : find kind.terminator (c :: text) = some (before, behind)) :
    (Lexeme.delimited kind token run []).guard.scan limits c text = .ok r ↔
      token + (before ++ kind.terminator).length ≤ limits.maximumTokenCharacters ∧
        (∀ n ∈ kind.finished (run + ((before ++ kind.terminator).length - 1)),
          n ≤ limits.maximumFieldCharacters) ∧ r = ((Lexeme.text 0).guard, behind) := by
  rw [List.length_append]
  cases kind with
  | cdata =>
    have hfind : find cdataEnd (c :: text) = some (before, behind) := h
    have hlength : Delimited.cdata.terminator.length = 3 := rfl
    have hcontent : run + (before.length + 3 - 1) - 2 = run + before.length := by omega
    simp only [XmlTokenGuard.scan, Lexeme.guard, Delimited.mode, XmlTokenGuard.scanCdata, hfind,
      XmlTokenGuard.addText_bind_eq_ok, XmlTokenGuard.addToken_bind_eq_ok, pure_eq_ok, hlength,
      Delimited.counted, Delimited.finished, List.forall_mem_singleton, hcontent]
    constructor
    · rintro ⟨hrun, -, htoken, rfl⟩
      exact ⟨by omega, hrun, rfl⟩
    · rintro ⟨htoken, hrun, rfl⟩
      exact ⟨hrun, by omega, by omega, rfl⟩
  | comment =>
    have hfind : find commentEnd (c :: text) = some (before, behind) := h
    simp only [XmlTokenGuard.scan, Lexeme.guard, Delimited.mode, XmlTokenGuard.scanDelimited, hfind,
      XmlTokenGuard.addToken_bind_eq_ok, pure_eq_ok, Delimited.finished, List.not_mem_nil,
      false_implies, implies_true, true_and, eq_comm (a := r)]
    rfl
  | processingInstruction =>
    have hfind : find processingInstructionEnd (c :: text) = some (before, behind) := h
    simp only [XmlTokenGuard.scan, Lexeme.guard, Delimited.mode, XmlTokenGuard.scanDelimited, hfind,
      XmlTokenGuard.addToken_bind_eq_ok, pure_eq_ok, Delimited.finished, List.not_mem_nil,
      false_implies, implies_true, true_and, eq_comm (a := r)]
    rfl

/-- A construct whose content a feed begins to read: to its terminator or to the end of the feed. -/
theorem passes_delimited {kind : Delimited} {token run : Nat} {c : Char} {text : List Char}
    (hs : Within limits ⟨.delimited kind token run [], runs, tokens, closed⟩) :
    ∃ t rest, Passes limits ⟨.delimited kind token run [], runs, tokens, closed⟩ c text t rest := by
  cases hfind : find kind.terminator (c :: text) with
  | none =>
    have hread : (⟨.delimited kind token run [], runs, tokens, closed⟩ : Lexer).read (c :: text) =
        ⟨.delimited kind (token + (c :: text).length) (run + (c :: text).length) (c :: text), runs,
          tokens, closed⟩ :=
      read_delimited token run [] fun p hp _ => by
        rw [List.nil_append]
        exact find_eq_none kind.terminator_ne_nil hfind hp
    refine ⟨_, _, .of_split _ (List.append_nil _).symm (List.cons_ne_nil _ _) hread (.inr rfl)
      fun r => (scan_of_unfinished hfind).trans ?_⟩
    constructor
    · rintro ⟨htoken, hrun, rfl⟩
      exact ⟨⟨htoken, hrun, hs.tokens, hs.runs⟩, rfl⟩
    · rintro ⟨hw, rfl⟩
      exact ⟨hw.token, hw.run, rfl⟩
  | some found =>
    obtain ⟨before, behind⟩ := found
    obtain ⟨htext, hearliest⟩ := find_eq_some kind.terminator_ne_nil hfind
    have hread : (⟨.delimited kind token run [], runs, tokens, closed⟩ : Lexer).read
        (before ++ kind.terminator) = close ⟨.text 0, runs, tokens, closed⟩
          (token + (before ++ kind.terminator).length)
          (kind.finished (run + ((before ++ kind.terminator).length - 1))) :=
      read_terminated token run hearliest
    have hne : before ++ kind.terminator ≠ [] := by simp [kind.terminator_ne_nil]
    refine ⟨_, behind, .of_split _ htext hne hread (.inl rfl)
      fun r => (scan_of_finished hfind).trans ?_⟩
    constructor
    · rintro ⟨htoken, hrun, rfl⟩
      refine ⟨⟨Nat.zero_le _, Nat.zero_le _, ?_, ?_⟩, rfl⟩
      · exact List.forall_mem_append.mpr ⟨hs.tokens, List.forall_mem_singleton.mpr htoken⟩
      · exact List.forall_mem_append.mpr ⟨hs.runs, hrun⟩
    · rintro ⟨hw, rfl⟩
      refine ⟨hw.tokens _ (by simp [close]), fun n hn => hw.runs n ?_, rfl⟩
      exact List.mem_append_right _ hn

theorem passes {c : Char} {text : List Char} (hs : Within limits s)
    (hcontent : s.lexeme.content = []) : ∃ t rest, Passes limits s c text t rest := by
  obtain ⟨lexeme, runs, tokens, closed⟩ := s
  cases lexeme with
  | text run => exact passes_text hs
  | opened => exact passes_opened hs
  | element opening token => exact passes_element hs
  | quoted opening token mark run => exact passes_quoted hs
  | declaration opening token => exact passes_declaration hs
  | delimited kind token run content =>
    cases hcontent
    exact passes_delimited hs

/-! ## Feeds -/

theorem feedFrom_eq_ok {fuel : Nat} {text : List Char} {g : XmlTokenGuard} (hs : Within limits s)
    (hcontent : s.lexeme.content = []) (hfuel : budget s.lexeme text ≤ fuel) :
    XmlTokenGuard.feedFrom limits fuel s.lexeme.guard text = .ok g ↔
      Within limits (s.read text) ∧ g = (s.read text).lexeme.guard := by
  induction fuel generalizing s text with
  | zero =>
    cases text with
    | nil =>
      simp only [XmlTokenGuard.feedFrom, Except.ok.injEq, read_nil, eq_comm (a := g)]
      exact ⟨fun h => ⟨hs, h⟩, fun h => h.2⟩
    | cons c text => simp [budget] at hfuel
  | succ fuel ih =>
    cases text with
    | nil =>
      simp only [XmlTokenGuard.feedFrom, Except.ok.injEq, read_nil, eq_comm (a := g)]
      exact ⟨fun h => ⟨hs, h⟩, fun h => h.2⟩
    | cons c text =>
      obtain ⟨t, rest, hpass⟩ : ∃ t rest, Passes limits s c text t rest := passes hs hcontent
      have hbudget : budget t.lexeme rest ≤ fuel := by
        have := hpass.smaller
        omega
      -- Reading on from `t` keeps what `t` already exceeds.
      have hback : Within limits (t.read rest) → Within limits t := by
        intro h
        rcases hpass.content with hnil | rfl
        · exact (settled_of_read h.settled).within hnil
        · exact h
      rw [XmlTokenGuard.feedFrom, bind_eq_ok, ← hpass.read]
      constructor
      · rintro ⟨r, hr, hfeed⟩
        obtain ⟨hw, rfl⟩ := (hpass.accepts r).mp hr
        rcases hpass.content with hnil | rfl
        · exact (ih hw hnil hbudget).mp hfeed
        · cases fuel <;> cases hfeed <;> exact ⟨hw, rfl⟩
      · rintro ⟨hw, rfl⟩
        refine ⟨_, (hpass.accepts _).mpr ⟨hback hw, rfl⟩, ?_⟩
        rcases hpass.content with hnil | rfl
        · exact (ih (hback hw) hnil hbudget).mpr ⟨hw, rfl⟩
        · cases fuel <;> rfl

/-- A feed follows the lexer, and is accepted exactly when every run and token is within the
limits. -/
theorem feed_eq_ok {text : List Char} {g : XmlTokenGuard} (hs : Within limits s)
    (hcontent : s.lexeme.content = []) :
    s.lexeme.guard.feed limits text = .ok g ↔
      Within limits (s.read text) ∧ g = (s.read text).lexeme.guard := by
  refine feedFrom_eq_ok hs hcontent ?_
  unfold budget
  split_ifs <;> omega

end Lexer

end Makolet.Parsing
