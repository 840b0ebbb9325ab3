import Mathlib.Algebra.Order.Group.Nat
import Makolet.Parsing.TokenGuard

/-!
# Runs and tokens of an XML text

`Lexer` reads a text one character at a time, without limits, and keeps the finished runs and tokens
beside the unfinished one. A run is a maximal piece of character data, a CDATA section or a quoted
attribute value; a token is a markup construct from its `<` on. In a construct that a terminator
ends, the lexer remembers the content read so far; `Lexer.rest` forgets it, which is what the guard
does at the end of a feed.

`feed_eq` says that the guard, fed a text at once, follows the lexer and accepts exactly when every
run and token is within the limits. `run_rest` says when the content that a feed forgets makes no
difference.
-/

set_option autoImplicit false

namespace Makolet.Parsing

open Makolet.Domain Makolet.Lib

/-! ## The lexer -/

/-- The constructs that a terminator ends. -/
inductive Delimited
  | comment
  | cdata
  | processingInstruction
  deriving DecidableEq, Repr

namespace Delimited

def terminator : Delimited → List Char
  | comment => commentEnd
  | cdata => cdataEnd
  | processingInstruction => processingInstructionEnd

def mode : Delimited → TokenMode
  | comment => .comment
  | cdata => .cdata
  | processingInstruction => .processingInstruction

def opening : Delimited → List Char
  | comment => commentStart
  | cdata => cdataStart
  | processingInstruction => ['<']

/-- The characters of a content that count as a run. -/
def counted : Delimited → Nat → Nat
  | cdata, n => n
  | _, _ => 0

/-- The finished run of a content that was `n` characters long before its last one: two of them and
the last one are the terminator. -/
def finished : Delimited → Nat → List Nat
  | cdata, n => [n - 2]
  | _, _ => []

theorem two_le_terminator (kind : Delimited) : 2 ≤ kind.terminator.length := by
  cases kind <;> decide

theorem terminator_ne_nil (kind : Delimited) : kind.terminator ≠ [] := by
  cases kind <;> decide

end Delimited

/-- The unfinished construct at a position, with the characters counted so far. -/
inductive Lexeme
  | text (run : Nat)
  | opened
  | element (opening : List Char) (token : Nat)
  | quoted (opening : List Char) (token : Nat) (mark : Char) (run : Nat)
  | declaration (opening : List Char) (token : Nat)
  | delimited (kind : Delimited) (token run : Nat) (content : List Char)
  deriving DecidableEq, Repr

namespace Lexeme

/-- The guard inside the construct. -/
def guard : Lexeme → XmlTokenGuard
  | text run => ⟨.text, 0, run, none, 0, []⟩
  | opened => ⟨.opened, 1, 0, none, 0, ['<']⟩
  | element opening token => ⟨.element, token, 0, none, 0, opening⟩
  | quoted opening token mark run => ⟨.element, token, 0, some mark, run, opening⟩
  | declaration opening token => ⟨.declaration, token, 0, none, 0, opening⟩
  | delimited kind token run _ => ⟨kind.mode, token, kind.counted run, none, 0, kind.opening⟩

/-- The characters of the unfinished token. -/
def token : Lexeme → Nat
  | text _ => 0
  | opened => 1
  | element _ token => token
  | quoted _ token _ _ => token
  | declaration _ token => token
  | delimited _ token _ _ => token

/-- The characters of the unfinished run. -/
def run : Lexeme → Nat
  | text run => run
  | quoted _ _ _ run => run
  | delimited kind _ run _ => kind.counted run
  | _ => 0

/-- The content of a construct that a terminator ends. -/
def content : Lexeme → List Char
  | delimited _ _ _ content => content
  | _ => []

/-- The terminator of the construct. -/
def terminator? : Lexeme → Option (List Char)
  | delimited kind _ _ _ => some kind.terminator
  | _ => none

/-- The construct without the memory of its content. -/
def forget : Lexeme → Lexeme
  | delimited kind token run _ => delimited kind token run []
  | l => l

/-- The characters of the run that no terminator can take back. -/
def settled (l : Lexeme) : Nat := l.run - min 2 l.content.length

@[simp] theorem guard_forget (l : Lexeme) : l.forget.guard = l.guard := by
  cases l <;> rfl

@[simp] theorem token_forget (l : Lexeme) : l.forget.token = l.token := by
  cases l <;> rfl

@[simp] theorem run_forget (l : Lexeme) : l.forget.run = l.run := by
  cases l <;> rfl

@[simp] theorem content_forget (l : Lexeme) : l.forget.content = [] := by
  cases l <;> rfl

end Lexeme

/-- The lexer: the unfinished construct, the finished runs and tokens, and how many comments, CDATA
sections and processing instructions were closed. -/
structure Lexer where
  lexeme : Lexeme
  runs : List Nat
  tokens : List Nat
  closed : Nat

namespace Lexer

def init : Lexer := ⟨.text 0, [], [], 0⟩

def stepElement (s : Lexer) (opening : List Char) (token : Nat) (c : Char) : Lexer :=
  if c = '>' then
    { s with
      lexeme := .text 0
      tokens := s.tokens ++ [token + 1] }
  else if c ∈ quotes then { s with lexeme := .quoted opening (token + 1) c 0 }
  else { s with lexeme := .element opening (token + 1) }

def stepDeclaration (s : Lexer) (opening : List Char) (token : Nat) : Lexer :=
  { s with
    lexeme :=
      if opening = commentStart then .delimited .comment token 0 []
      else if opening = cdataStart then .delimited .cdata token 0 []
      else if opening <+: commentStart ∨ opening <+: cdataStart then .declaration opening token
      else .element opening token }

/-- The end of a construct by its terminator. -/
def close (s : Lexer) (token : Nat) (runs : List Nat) : Lexer :=
  ⟨.text 0, s.runs ++ runs, s.tokens ++ [token], s.closed + 1⟩

/-- One character. -/
def step (s : Lexer) (c : Char) : Lexer :=
  match s.lexeme with
  | .text run =>
      if c = '<' then
        { s with
          lexeme := .opened
          runs := s.runs ++ [run] }
      else { s with lexeme := .text (run + 1) }
  | .opened =>
      if c = '?' then { s with lexeme := .delimited .processingInstruction 2 0 [] }
      else if c = '!' then { s with lexeme := .declaration ['<', '!'] 2 }
      else s.stepElement ['<'] 1 c
  | .element opening token => s.stepElement opening token c
  | .quoted opening token mark run =>
      if c = mark then
        { s with
          lexeme := .element opening (token + 1)
          runs := s.runs ++ [run] }
      else { s with lexeme := .quoted opening (token + 1) mark (run + 1) }
  | .declaration opening token => s.stepDeclaration (opening ++ [c]) (token + 1)
  | .delimited kind token run content =>
      if kind.terminator <:+ content ++ [c] then s.close (token + 1) (kind.finished run)
      else { s with lexeme := .delimited kind (token + 1) (run + 1) (content ++ [c]) }

/-- A text. -/
def read (s : Lexer) (text : List Char) : Lexer := text.foldl step s

/-- What the guard remembers after a feed. -/
def rest (s : Lexer) : Lexer := { s with lexeme := s.lexeme.forget }

/-- Every run and token is within the limits, the unfinished ones included. -/
structure Within (limits : XmlParserLimits) (s : Lexer) : Prop where
  token : s.lexeme.token ≤ limits.maximumTokenCharacters
  run : s.lexeme.run ≤ limits.maximumFieldCharacters
  tokens : ∀ n ∈ s.tokens, n ≤ limits.maximumTokenCharacters
  runs : ∀ n ∈ s.runs, n ≤ limits.maximumFieldCharacters

/-- `Within`, of a CDATA section without what its terminator may take back. -/
structure Settled (limits : XmlParserLimits) (s : Lexer) : Prop where
  token : s.lexeme.token ≤ limits.maximumTokenCharacters
  run : s.lexeme.settled ≤ limits.maximumFieldCharacters
  tokens : ∀ n ∈ s.tokens, n ≤ limits.maximumTokenCharacters
  runs : ∀ n ∈ s.runs, n ≤ limits.maximumFieldCharacters

variable {limits : XmlParserLimits} {s : Lexer}

@[simp] theorem read_nil (s : Lexer) : s.read [] = s := rfl

@[simp] theorem read_cons (s : Lexer) (c : Char) (text : List Char) :
    s.read (c :: text) = (s.step c).read text := rfl

theorem read_append (s : Lexer) (a b : List Char) : s.read (a ++ b) = (s.read a).read b :=
  List.foldl_append

theorem Within.settled (h : Within limits s) : Settled limits s :=
  ⟨h.token, le_trans (Nat.sub_le _ _) h.run, h.tokens, h.runs⟩

theorem Settled.within (h : Settled limits s) (hcontent : s.lexeme.content = []) :
    Within limits s := by
  refine ⟨h.token, ?_, h.tokens, h.runs⟩
  have hrun := h.run
  rwa [Lexeme.settled, hcontent, List.length_nil, Nat.min_zero, Nat.sub_zero] at hrun

theorem within_rest : Within limits s.rest ↔ Within limits s := by
  constructor
  · intro h
    exact ⟨by simpa [rest] using h.token, by simpa [rest] using h.run, h.tokens, h.runs⟩
  · intro h
    exact ⟨by simpa [rest] using h.token, by simpa [rest] using h.run, h.tokens, h.runs⟩

/-- What one character adds: finished runs and tokens stay, an unfinished one grows or is finished. -/
structure Grows (s t : Lexer) : Prop where
  token : s.lexeme.token ≤ t.lexeme.token ∨ ∃ n ∈ t.tokens, s.lexeme.token ≤ n
  run : s.lexeme.settled ≤ t.lexeme.settled ∨ ∃ n ∈ t.runs, s.lexeme.settled ≤ n
  tokens : s.tokens ⊆ t.tokens
  runs : s.runs ⊆ t.runs

theorem Grows.settled {t : Lexer} (h : Grows s t) (ht : Settled limits t) : Settled limits s where
  token := by
    rcases h.token with hle | ⟨n, hn, hle⟩
    · exact hle.trans ht.token
    · exact hle.trans (ht.tokens n hn)
  run := by
    rcases h.run with hle | ⟨n, hn, hle⟩
    · exact hle.trans ht.run
    · exact hle.trans (ht.runs n hn)
  tokens := fun n hn => ht.tokens n (h.tokens hn)
  runs := fun n hn => ht.runs n (h.runs hn)

section Step

variable {runs tokens : List Nat} {closed : Nat} {c : Char}

/-- A character that keeps the finished runs and tokens and does not shrink the unfinished ones. -/
theorem Grows.of_le {l l' : Lexeme} (htoken : l.token ≤ l'.token) (hrun : l.settled ≤ l'.settled) :
    Grows ⟨l, runs, tokens, closed⟩ ⟨l', runs, tokens, closed⟩ :=
  ⟨.inl htoken, .inl hrun, List.Subset.refl _, List.Subset.refl _⟩

theorem grows_stepElement {l : Lexeme} {opening : List Char} {token : Nat}
    (htoken : l.token = token) (hrun : l.settled = 0) :
    Grows ⟨l, runs, tokens, closed⟩ (stepElement ⟨l, runs, tokens, closed⟩ opening token c) := by
  unfold stepElement
  split_ifs
  · exact ⟨.inr ⟨token + 1, by simp, by simp [htoken]⟩, .inl (by simp [hrun]), by simp, by simp⟩
  · exact .of_le (htoken.trans_le (Nat.le_succ token)) (by simp [hrun])
  · exact .of_le (htoken.trans_le (Nat.le_succ token)) (by simp [hrun])

/-- The end of a construct finishes its token and its run. -/
theorem grows_close {l : Lexeme} {token : Nat} {closing : List Nat} (htoken : l.token ≤ token)
    (hrun : l.settled = 0 ∨ ∃ n ∈ closing, l.settled ≤ n) :
    Grows ⟨l, runs, tokens, closed⟩ (close ⟨l, runs, tokens, closed⟩ token closing) := by
  refine ⟨.inr ⟨token, by simp [close], htoken⟩, ?_, by simp [close], by simp [close]⟩
  rcases hrun with hzero | ⟨n, hn, hle⟩
  · exact .inl (by simp [hzero])
  · exact .inr ⟨n, by simp [close, hn], hle⟩

theorem step_grows (s : Lexer) (c : Char) : Grows s (s.step c) := by
  obtain ⟨lexeme, runs, tokens, closed⟩ := s
  cases lexeme with
  | text run =>
    simp only [step]
    split_ifs
    · exact ⟨.inl (Nat.zero_le _),
        .inr ⟨run, by simp, by simp [Lexeme.settled, Lexeme.run, Lexeme.content]⟩, by simp, by simp⟩
    · exact .of_le (Nat.zero_le _) (by simp [Lexeme.settled, Lexeme.run, Lexeme.content])
  | opened =>
    simp only [step]
    split_ifs
    · exact .of_le (by simp [Lexeme.token]) (Nat.zero_le _)
    · exact .of_le (by simp [Lexeme.token]) (Nat.zero_le _)
    · exact grows_stepElement rfl rfl
  | element opening token => exact grows_stepElement rfl rfl
  | quoted opening token mark run =>
    simp only [step]
    split_ifs
    · exact ⟨.inl (by simp [Lexeme.token]),
        .inr ⟨run, by simp, by simp [Lexeme.settled, Lexeme.run, Lexeme.content]⟩, by simp, by simp⟩
    · exact .of_le (by simp [Lexeme.token]) (by simp [Lexeme.settled, Lexeme.run, Lexeme.content])
  | declaration opening token =>
    simp only [step, stepDeclaration]
    exact .of_le (by split_ifs <;> simp [Lexeme.token]) (Nat.zero_le _)
  | delimited kind token run content =>
    simp only [step]
    split_ifs with hend
    · refine grows_close (Nat.le_succ _) ?_
      cases kind with
      | cdata =>
        -- Two characters of the terminator are part of the content read so far.
        have hlength : 3 ≤ (content ++ [c]).length := hend.length_le
        rw [List.length_append, List.length_singleton] at hlength
        refine .inr ⟨run - 2, List.mem_singleton_self _, ?_⟩
        simp only [Lexeme.settled, Lexeme.run, Lexeme.content, Delimited.counted]
        omega
      | _ => exact .inl (Nat.zero_sub _)
    · refine .of_le (Nat.le_succ _) ?_
      cases kind with
      | cdata =>
        simp only [Lexeme.settled, Lexeme.run, Lexeme.content, Delimited.counted, List.length_append,
          List.length_singleton]
        omega
      | _ => simp [Lexeme.settled, Lexeme.run, Delimited.counted]

end Step

/-- A run or token that is too long stays so. -/
theorem settled_of_read {text : List Char} (h : Settled limits (s.read text)) :
    Settled limits s := by
  induction text generalizing s with
  | nil => exact h
  | cons c text ih => exact (step_grows s c).settled (ih h)

/-! ### What a feed forgets -/

/-- `t` is `s`, but may remember less of the content. -/
def Trails (s t : Lexer) : Prop :=
  t.rest = s.rest ∧ t.lexeme.content <:+ s.lexeme.content

theorem Trails.refl (s : Lexer) : Trails s s := ⟨rfl, List.suffix_rfl⟩

theorem trails_rest (s : Lexer) : Trails s s.rest := by
  refine ⟨?_, ?_⟩
  · cases hs : s.lexeme <;> simp [rest, hs, Lexeme.forget]
  · simp [rest]

theorem Trails.rest_eq {t : Lexer} (h : Trails s t) : t.rest = s.rest := h.1

/-- A lexer that remembers less differs in the content of a delimited construct only. -/
theorem Trails.cases {t : Lexer} (h : Trails s t) :
    t = s ∨ ∃ kind token run content content', s.lexeme = .delimited kind token run content ∧
      t = { s with lexeme := .delimited kind token run content' } ∧ content' <:+ content := by
  obtain ⟨lexeme, runs, tokens, closed⟩ := s
  obtain ⟨lexeme', runs', tokens', closed'⟩ := t
  obtain ⟨hrest, hcontent⟩ := h
  simp only [rest, Lexer.mk.injEq] at hrest
  obtain ⟨hlexeme, rfl, rfl, rfl⟩ := hrest
  cases lexeme <;> cases lexeme' <;> simp_all [Lexeme.forget, Lexeme.content]

/-- Remembering less makes no difference to a character that does not end the construct, and none to
one that ends it within what is remembered. -/
theorem Trails.step {t : Lexer} {c : Char} (h : Trails s t)
    (hend : ∀ d, s.lexeme.terminator? = some d → d <:+ s.lexeme.content ++ [c] →
      d <:+ t.lexeme.content ++ [c]) : Trails (s.step c) (t.step c) := by
  rcases h.cases with rfl | ⟨kind, token, run, content, content', hs, rfl, hsuffix⟩
  · exact .refl _
  · obtain ⟨lexeme, runs, tokens, closed⟩ := s
    cases hs
    have hgrow : content' ++ [c] <:+ content ++ [c] := by
      obtain ⟨front, rfl⟩ := hsuffix
      exact ⟨front, by rw [List.append_assoc]⟩
    simp only [Lexer.step]
    by_cases hd : kind.terminator <:+ content ++ [c]
    · have hd' : kind.terminator <:+ content' ++ [c] := hend _ rfl hd
      rw [if_pos hd, if_pos hd']
      exact .refl _
    · rw [if_neg hd, if_neg fun h => hd (h.trans hgrow)]
      exact ⟨rfl, hgrow⟩

theorem step_closed (s : Lexer) (c : Char) :
    (s.step c).closed = s.closed ∨ ∃ d, s.lexeme.terminator? = some d ∧
      d <:+ s.lexeme.content ++ [c] ∧ (s.step c).closed = s.closed + 1 ∧
      (s.step c).lexeme = .text 0 := by
  obtain ⟨lexeme, runs, tokens, closed⟩ := s
  cases lexeme with
  | delimited kind token run content =>
    simp only [step]
    split_ifs with hd
    · exact .inr ⟨_, rfl, hd, rfl, rfl⟩
    · exact .inl rfl
  | text run => exact .inl (by simp only [step]; split_ifs <;> rfl)
  | opened => exact .inl (by simp only [step, stepElement]; split_ifs <;> rfl)
  | element opening token => exact .inl (by simp only [step, stepElement]; split_ifs <;> rfl)
  | quoted opening token mark run => exact .inl (by simp only [step]; split_ifs <;> rfl)
  | declaration opening token => exact .inl rfl

theorem step_closed_of_end {d : List Char} {c : Char} (hd : s.lexeme.terminator? = some d)
    (hend : d <:+ s.lexeme.content ++ [c]) : (s.step c).closed = s.closed + 1 := by
  obtain ⟨lexeme, runs, tokens, closed⟩ := s
  cases lexeme with
  | delimited kind token run content =>
    cases hd
    have hend' : kind.terminator <:+ content ++ [c] := hend
    simp only [step]
    rw [if_pos hend']
    rfl
  | _ => cases hd

theorem closed_le_step (s : Lexer) (c : Char) : s.closed ≤ (s.step c).closed := by
  rcases step_closed s c with h | ⟨_, -, -, h, -⟩ <;> omega

theorem closed_le_read (s : Lexer) (text : List Char) : s.closed ≤ (s.read text).closed := by
  induction text generalizing s with
  | nil => exact Nat.le_refl _
  | cons c text ih => exact (closed_le_step s c).trans (ih (s.step c))

/-- Remembering less makes no difference to a text that closes nothing. -/
theorem Trails.read_of_closed {t : Lexer} {text : List Char} (h : Trails s t)
    (hclosed : (s.read text).closed = s.closed) : Trails (s.read text) (t.read text) := by
  induction text generalizing s t with
  | nil => exact h
  | cons c text ih =>
    rw [read_cons] at hclosed
    have hstep : (s.step c).closed = s.closed := by
      have h₁ := closed_le_step s c
      have h₂ := closed_le_read (s.step c) text
      omega
    refine ih (h.step fun d hd hend => ?_) (hclosed.trans hstep.symm)
    rw [step_closed_of_end hd hend] at hstep
    omega

/-- The text behind a feed boundary completes a terminator that began before it. -/
def Cut (s : Lexer) (later : List Char) : Prop :=
  ∃ d before behind, s.lexeme.terminator? = some d ∧ d = before ++ behind ∧ before ≠ [] ∧
    behind ≠ [] ∧ before <:+ s.lexeme.content ∧ behind <+: later

theorem cut_iff {later : List Char} : Cut s later ↔
    ∃ d ∈ s.lexeme.terminator?, ∃ n < d.length, 0 < n ∧ d.take n <:+ s.lexeme.content ∧
      d.drop n <+: later := by
  constructor
  · rintro ⟨_, before, behind, hd, rfl, hbefore, hbehind, hcontent, hlater⟩
    have hpos := List.length_pos_iff.mpr hbehind
    exact ⟨_, hd, before.length, by rw [List.length_append]; omega,
      List.length_pos_iff.mpr hbefore, by rwa [List.take_left], by rwa [List.drop_left]⟩
  · rintro ⟨d, hd, n, hlt, hpos, hcontent, hlater⟩
    refine ⟨d, d.take n, d.drop n, hd, (List.take_append_drop n d).symm, ?_, ?_, hcontent, hlater⟩
    · exact List.length_pos_iff.mp (by rw [List.length_take]; omega)
    · exact List.length_pos_iff.mp (by rw [List.length_drop]; omega)

instance (later : List Char) : Decidable (Cut s later) :=
  decidable_of_iff _ cut_iff.symm

/-- No terminator that begins before what `t` remembers is completed by the text. -/
def Whole (s t : Lexer) (later : List Char) : Prop :=
  ∀ d before behind, s.lexeme.terminator? = some d → d = before ++ behind → behind ≠ [] →
    before <:+ s.lexeme.content → t.lexeme.content.length < before.length → ¬ behind <+: later

theorem whole_rest {later : List Char} (h : ¬ Cut s later) : Whole s s.rest later := by
  intro d before behind hd heq hbehind hbefore hlength hlater
  refine h ⟨d, before, behind, hd, heq, ?_, hbehind, hbefore, hlater⟩
  rintro rfl
  simp at hlength

theorem whole_of_content {t : Lexer} {later : List Char} (h : s.lexeme.content = []) :
    Whole s t later := by
  intro d before behind _ _ _ hbefore hlength
  rw [h, List.suffix_nil] at hbefore
  rw [hbefore] at hlength
  simp at hlength

theorem suffix_concat_of_length {d a b : List Char} {c : Char}
    (hd : d <:+ a ++ [c]) (hb : b <:+ a) (hlength : d.length ≤ b.length + 1) : d <:+ b ++ [c] := by
  have hbc : b ++ [c] <:+ a ++ [c] := by
    obtain ⟨front, rfl⟩ := hb
    exact ⟨front, by rw [List.append_assoc]⟩
  exact List.suffix_of_suffix_length_le hd hbc (by simpa using hlength)

theorem content_step {c : Char} (h : s.lexeme.terminator? = none) :
    (s.step c).lexeme.content = [] := by
  obtain ⟨lexeme, runs, tokens, closed⟩ := s
  cases lexeme with
  | delimited kind token run content => cases h
  | declaration opening token =>
    simp only [step, stepDeclaration]
    split_ifs <;> rfl
  | _ =>
    simp only [step, stepElement]
    split_ifs <;> rfl

/-- A terminator that lies within what `t` remembers still does after the next character. -/
theorem Whole.step {t : Lexer} {c : Char} {later : List Char} (h : Whole s t (c :: later))
    (htrails : Trails s t) : Whole (s.step c) (t.step c) later := by
  rcases htrails.cases with rfl | ⟨kind, token, run, content, content', hs, rfl, hsuffix⟩
  · intro d before behind _ _ _ hbefore hlength
    exact absurd hbefore.length_le (Nat.not_le.mpr hlength)
  · obtain ⟨lexeme, runs, tokens, closed⟩ := s
    cases hs
    simp only [Lexer.step]
    by_cases hd : kind.terminator <:+ content ++ [c]
    · rw [if_pos hd]
      exact whole_of_content rfl
    · have hd' : ¬ kind.terminator <:+ content' ++ [c] := by
        obtain ⟨front, rfl⟩ := hsuffix
        exact fun h => hd (h.trans ⟨front, by rw [List.append_assoc]⟩)
      rw [if_neg hd, if_neg hd']
      intro d before behind hterminator heq hbehind hbefore hlength hlater
      -- A terminator begun before what is remembered began so one character earlier.
      simp only [Lexeme.content] at hbefore hlength
      rw [List.suffix_concat_iff] at hbefore
      rcases hbefore with rfl | ⟨before', rfl, hbefore'⟩
      · simp at hlength
      · have hsplit : d = before' ++ c :: behind := by rw [heq, List.append_assoc]; rfl
        have hlt : content'.length < before'.length := by simpa using hlength
        exact h d before' (c :: behind) hterminator hsplit (List.cons_ne_nil _ _) hbefore' hlt
          (List.cons_prefix_cons.mpr ⟨rfl, hlater⟩)

theorem Whole.end_of_end {t : Lexer} {c : Char} {later : List Char} (h : Whole s t (c :: later))
    (htrails : Trails s t) : ∀ d, s.lexeme.terminator? = some d → d <:+ s.lexeme.content ++ [c] →
      d <:+ t.lexeme.content ++ [c] := by
  intro d hd hend
  refine suffix_concat_of_length hend htrails.2 (Nat.le_of_not_lt fun hlt => ?_)
  rw [List.suffix_concat_iff] at hend
  rcases hend with rfl | ⟨before, rfl, hbefore⟩
  · simp at hlt
  · refine h _ before [c] hd rfl (List.cons_ne_nil _ _) hbefore ?_ (by simp)
    simpa using hlt

/-- Remembering less makes no difference to a text that completes no terminator begun before what
is remembered. -/
theorem Trails.read_of_whole {t : Lexer} {text later : List Char} (h : Trails s t)
    (hwhole : Whole s t (text ++ later)) : Trails (s.read text) (t.read text) := by
  induction text generalizing s t with
  | nil => exact h
  | cons c text ih => exact ih (h.step (hwhole.end_of_end h)) (hwhole.step h)

end Lexer

end Makolet.Parsing
