import Makolet.Parsing.TokenFeeds

/-!
# Ways to split a text into feeds

A document is decoded in windows of a fixed size, so that the guard meets its text in any alignment.
At the end of a feed the guard forgets the content of a comment, a CDATA section or a processing
instruction. `readFeeds` reads so; it agrees with reading the text at once where no terminator is cut
by a boundary (`trails_readFeeds`), and where nothing is closed at all.
-/

set_option autoImplicit false

namespace Makolet.Parsing

open Makolet.Domain Makolet.Lib

namespace Lexer

variable {limits : XmlParserLimits} {s t : Lexer} {feeds : List (List Char)}

/-- The feeds of a document, with what is forgotten between them. -/
def readFeeds (s : Lexer) (feeds : List (List Char)) : Lexer :=
  feeds.foldl (fun s feed => (s.read feed).rest) s

@[simp] theorem readFeeds_cons (s : Lexer) (feed : List Char) (feeds : List (List Char)) :
    s.readFeeds (feed :: feeds) = (s.read feed).rest.readFeeds feeds := rfl

/-- No feed boundary falls inside a terminator. -/
def Uncut : Lexer → List (List Char) → Prop
  | _, [] => True
  | s, feed :: feeds => ¬ Cut (s.read feed) feeds.flatten ∧ Uncut (s.read feed) feeds

theorem settled_of_rest (h : Settled limits s.rest) : Settled limits s :=
  (within_rest.mp (h.within (Lexeme.content_forget _))).settled

theorem settled_of_readFeeds (h : Settled limits (s.readFeeds feeds)) : Settled limits s := by
  induction feeds generalizing s with
  | nil => exact h
  | cons feed feeds ih => exact settled_of_read (settled_of_rest (ih h))

/-- The feeds of a document are accepted exactly when every run and token read is within the
limits. -/
theorem feedAll_eq_ok {g : XmlTokenGuard} (hs : Within limits s) (hcontent : s.lexeme.content = []) :
    s.lexeme.guard.feedAll limits feeds = .ok g ↔
      Within limits (s.readFeeds feeds) ∧ g = (s.readFeeds feeds).lexeme.guard := by
  induction feeds generalizing s with
  | nil =>
    simp only [XmlTokenGuard.feedAll, List.foldlM_nil, pure_eq_ok, eq_comm (a := g)]
    exact ⟨fun h => ⟨hs, h⟩, fun h => h.2⟩
  | cons feed feeds ih =>
    have hguard : (s.read feed).rest.lexeme.guard = (s.read feed).lexeme.guard :=
      Lexeme.guard_forget _
    have hih := fun h : Within limits (s.read feed) =>
      ih (within_rest.mpr h) (Lexeme.content_forget _)
    rw [XmlTokenGuard.feedAll, List.foldlM_cons, bind_eq_ok, readFeeds_cons]
    constructor
    · rintro ⟨g', hfeed, hrest⟩
      obtain ⟨hw, rfl⟩ := (feed_eq_ok hs hcontent).mp hfeed
      rw [← hguard] at hrest
      exact (hih hw).mp hrest
    · rintro ⟨hw, rfl⟩
      have hw' : Within limits (s.read feed) :=
        within_rest.mp ((settled_of_readFeeds hw.settled).within (Lexeme.content_forget _))
      refine ⟨_, (feed_eq_ok hs hcontent).mpr ⟨hw', rfl⟩, ?_⟩
      rw [← hguard]
      exact (hih hw').mpr ⟨hw, rfl⟩

theorem Trails.within_iff (h : Trails s t) : Within limits t ↔ Within limits s := by
  rw [← within_rest, h.rest_eq, within_rest]

theorem Trails.guard_eq (h : Trails s t) : t.lexeme.guard = s.lexeme.guard := by
  have hrest := congrArg (fun s => s.lexeme.guard) h.rest_eq
  simpa [rest] using hrest

theorem Trails.rest_right (h : Trails s t) : Trails s t.rest := by
  have h' := trails_rest t
  exact ⟨h'.rest_eq.trans h.rest_eq, h'.2.trans h.2⟩

/-- Feeds that cut no terminator are read like the text at once. -/
theorem trails_readFeeds (h : Trails s t) (hwhole : Whole s t feeds.flatten)
    (huncut : Uncut s feeds) : Trails (s.read feeds.flatten) (t.readFeeds feeds) := by
  induction feeds generalizing s t with
  | nil => exact h
  | cons feed feeds ih =>
    rw [List.flatten_cons, read_append, readFeeds_cons]
    have hfeed : Trails (s.read feed) (t.read feed) := h.read_of_whole hwhole
    refine ih hfeed.rest_right ?_ huncut.2
    intro d before behind hd heq hbehind hbefore hlength
    refine whole_rest huncut.1 d before behind hd heq hbehind hbefore ?_
    rwa [rest, Lexeme.content_forget] at hlength ⊢

/-- Feeds of a text that closes nothing are read like the text at once. -/
theorem trails_readFeeds_of_closed (h : Trails s t)
    (hclosed : (s.read feeds.flatten).closed = s.closed) :
    Trails (s.read feeds.flatten) (t.readFeeds feeds) := by
  induction feeds generalizing s t with
  | nil => exact h
  | cons feed feeds ih =>
    rw [List.flatten_cons, read_append] at hclosed ⊢
    have h₁ := closed_le_read s feed
    have h₂ := closed_le_read (s.read feed) feeds.flatten
    exact ih (h.read_of_closed (by omega)).rest_right (by omega)

/-! ## The first terminator -/

/-- A text that closes something begins with a text that closes nothing, and the character that ends
the first terminator. -/
theorem exists_first_close {text : List Char} (h : (s.read text).closed ≠ s.closed) :
    ∃ q c post kind token run content, text = q ++ c :: post ∧
      (s.read q).closed = s.closed ∧
      (s.read q).lexeme = .delimited kind token run content ∧
      kind.terminator <:+ content ++ [c] := by
  induction text generalizing s with
  | nil => exact absurd rfl h
  | cons c text ih =>
    by_cases hstep : (s.step c).closed = s.closed
    · rw [read_cons, ← hstep] at h
      obtain ⟨q, c', post, kind, token, run, content, rfl, hq, hlexeme, hend⟩ := ih h
      exact ⟨c :: q, c', post, kind, token, run, content, rfl, hq.trans hstep, hlexeme, hend⟩
    · rcases step_closed s c with hsame | ⟨d, hd, hend, -, -⟩
      · exact absurd hsame hstep
      · obtain ⟨lexeme, runs, tokens, closed⟩ := s
        cases lexeme with
        | delimited kind token run content =>
          cases hd
          exact ⟨[], c, text, kind, token, run, content, rfl, rfl, rfl, hend⟩
        | _ => cases hd

theorem step_of_end {kind : Delimited} {token run : Nat} {content : List Char} {c : Char}
    (hs : s.lexeme = .delimited kind token run content) (hend : kind.terminator <:+ content ++ [c]) :
    s.step c = s.close (token + 1) (kind.finished run) := by
  rw [step, hs]
  exact if_pos hend

theorem step_of_not_end {kind : Delimited} {token run : Nat} {content : List Char} {c : Char}
    (hs : s.lexeme = .delimited kind token run content)
    (hend : ¬ kind.terminator <:+ content ++ [c]) :
    s.step c = { s with lexeme := .delimited kind (token + 1) (run + 1) (content ++ [c]) } := by
  rw [step, hs]
  exact if_neg hend

/-- Where the feeds of a document are accepted, what is read up to a character behind a text that
closes nothing is not too long, even if the guard misses a terminator there. -/
theorem settled_step_of_readFeeds {q post : List Char} {c : Char} (h : Trails s t)
    (htext : feeds.flatten = q ++ c :: post) (hclosed : (s.read q).closed = s.closed)
    (hsettled : Settled limits (t.readFeeds feeds)) :
    ∃ t', Trails (s.read q) t' ∧ Settled limits (t'.step c) := by
  induction feeds generalizing s t q with
  | nil => simp at htext
  | cons feed feeds ih =>
    rw [readFeeds_cons] at hsettled
    rw [List.flatten_cons, List.append_eq_append_iff] at htext
    rcases htext with ⟨q', rfl, hlater⟩ | ⟨r, rfl, hlater⟩
    · -- The character is in a later feed.
      rw [read_append] at hclosed ⊢
      have h₁ := closed_le_read s feed
      have h₂ := closed_le_read (s.read feed) q'
      exact ih (h.read_of_closed (by omega)).rest_right hlater (by omega) hsettled
    · cases r with
      | nil =>
        -- The feed ends right before the character.
        rw [List.append_nil] at hsettled
        exact ih (q := []) (h.read_of_closed hclosed).rest_right hlater.symm rfl hsettled
      | cons c' r =>
        obtain ⟨rfl, -⟩ := List.cons_eq_cons.mp hlater
        refine ⟨t.read q, h.read_of_closed hclosed, ?_⟩
        have hfeed := settled_of_rest (settled_of_readFeeds hsettled)
        rw [read_append, read_cons] at hfeed
        exact settled_of_read hfeed

/-- So the first construct that a document closes is within the limits, if its feeds are
accepted. -/
theorem within_first_close {q post content : List Char} {c : Char} {kind : Delimited}
    {token run : Nat} (htext : feeds.flatten = q ++ c :: post)
    (hclosed : (s.read q).closed = s.closed)
    (hlexeme : (s.read q).lexeme = .delimited kind token run content)
    (hend : kind.terminator <:+ content ++ [c]) (hsettled : Settled limits (s.readFeeds feeds)) :
    Within limits ((s.read q).step c) := by
  obtain ⟨t, htrails, ht⟩ := settled_step_of_readFeeds (.refl s) htext hclosed hsettled
  rw [step_of_end hlexeme hend]
  generalize s.read q = u at *
  obtain ⟨content', htlexeme, htruns, httokens⟩ : ∃ content', t.lexeme =
      .delimited kind token run content' ∧ t.runs = u.runs ∧ t.tokens = u.tokens := by
    rcases htrails.cases with rfl | ⟨kind', token', run', content', content'', hu, rfl, -⟩
    · exact ⟨content, hlexeme, rfl, rfl⟩
    · rw [hlexeme] at hu
      cases hu
      exact ⟨content'', rfl, rfl, rfl⟩
  refine ⟨Nat.zero_le _, Nat.zero_le _, ?_, ?_⟩
  · rw [close, ← httokens]
    by_cases hend' : kind.terminator <:+ content' ++ [c]
    · rw [step_of_end htlexeme hend'] at ht
      exact ht.tokens
    · rw [step_of_not_end htlexeme hend'] at ht
      exact List.forall_mem_append.mpr ⟨ht.tokens, List.forall_mem_singleton.mpr ht.token⟩
  · rw [close, ← htruns]
    by_cases hend' : kind.terminator <:+ content' ++ [c]
    · rw [step_of_end htlexeme hend'] at ht
      exact ht.runs
    · rw [step_of_not_end htlexeme hend'] at ht
      refine List.forall_mem_append.mpr ⟨ht.runs, ?_⟩
      have hrun := ht.run
      cases kind with
      | cdata =>
        simp only [Lexeme.settled, Lexeme.run, Lexeme.content, Delimited.counted] at hrun
        simp only [Delimited.finished, List.forall_mem_singleton]
        omega
      | comment => simp [Delimited.finished]
      | processingInstruction => simp [Delimited.finished]

end Lexer

/-! ## Outcomes -/

/-- What the guard makes of the feeds of a document: its mode at the end, unless it rejects them. -/
def outcome (limits : XmlParserLimits) (feeds : List (List Char)) : Option TokenMode :=
  (XmlTokenGuard.init.feedAll limits feeds).toOption.map XmlTokenGuard.mode

section Outcome

variable {limits : XmlParserLimits} {feeds : List (List Char)} {text : List Char}

theorem within_init : Lexer.Within limits .init :=
  ⟨Nat.zero_le _, Nat.zero_le _, by simp [Lexer.init], by simp [Lexer.init]⟩

theorem outcome_eq_some {mode : TokenMode} : outcome limits feeds = some mode ↔
    Lexer.Within limits (Lexer.init.readFeeds feeds) ∧
      (Lexer.init.readFeeds feeds).lexeme.guard.mode = mode := by
  have hfeeds : ∀ g, XmlTokenGuard.init.feedAll limits feeds = .ok g ↔ _ :=
    fun g => Lexer.feedAll_eq_ok (s := .init) within_init rfl
  simp only [outcome, Option.map_eq_some_iff, toOption_eq_some, hfeeds]
  constructor
  · rintro ⟨g, ⟨hw, rfl⟩, rfl⟩
    exact ⟨hw, rfl⟩
  · rintro ⟨hw, rfl⟩
    exact ⟨_, ⟨hw, rfl⟩, rfl⟩

theorem outcome_ne_none : outcome limits feeds ≠ none ↔
    Lexer.Within limits (Lexer.init.readFeeds feeds) := by
  rw [Option.ne_none_iff_exists']
  constructor
  · rintro ⟨mode, h⟩
    exact (outcome_eq_some.mp h).1
  · intro h
    exact ⟨_, outcome_eq_some.mpr ⟨h, rfl⟩⟩

theorem accepts_at_once : outcome limits [text] ≠ none ↔
    Lexer.Within limits (Lexer.init.read text) :=
  outcome_ne_none.trans Lexer.within_rest

/-- Feeds that are read like the text at once have its outcome. -/
theorem outcome_eq_at_once
    (h : Lexer.Trails (Lexer.init.read text) (Lexer.init.readFeeds feeds)) :
    outcome limits feeds = outcome limits [text] := by
  have hrest : Lexer.Trails (Lexer.init.read text) (Lexer.init.readFeeds [text]) :=
    Lexer.trails_rest _
  ext mode
  rw [outcome_eq_some, outcome_eq_some, h.within_iff, hrest.within_iff, h.guard_eq, hrest.guard_eq]

/-- A text is guarded exactly: however it is split into feeds, the guard accepts or rejects it and
ends in the mode as when it is fed at once, and where it accepts, every run and token of the text is
within the limits. -/
def Exact (limits : XmlParserLimits) (text : List Char) : Prop :=
  ∀ feeds : List (List Char), feeds.flatten = text →
    outcome limits feeds = outcome limits [text] ∧
      (outcome limits feeds ≠ none → Lexer.Within limits (Lexer.init.read text))

theorem exact_of_outcome (h : ∀ feeds : List (List Char), feeds.flatten = text →
    outcome limits feeds = outcome limits [text]) : Exact limits text := by
  intro feeds hfeeds
  refine ⟨h feeds hfeeds, fun haccepts => accepts_at_once.mp ?_⟩
  rwa [← h feeds hfeeds]

/-- The runs and tokens of the text stay within the limits past the end of no comment, CDATA section
or processing instruction. -/
def ClosesNothing (limits : XmlParserLimits) (text : List Char) : Prop :=
  ∀ p, p <+: text → Lexer.Within limits (Lexer.init.read p) → (Lexer.init.read p).closed = 0

/-- A text that is accepted up to its first terminator is not guarded exactly up to there: split
before the last character of the terminator, the guard stays in the construct. -/
theorem not_exact_of_close {q content : List Char} {c : Char} {kind : Delimited} {token run : Nat}
    (hlexeme : (Lexer.init.read q).lexeme = .delimited kind token run content)
    (hend : kind.terminator <:+ content ++ [c])
    (haccepts : outcome limits [q ++ [c]] ≠ none) : ¬ Exact limits (q ++ [c]) := by
  intro hexact
  obtain ⟨heq, -⟩ := hexact [q, [c]] (by simp)
  have hwhole : outcome limits [q ++ [c]] = some .text := by
    rw [outcome_eq_some]
    refine ⟨outcome_ne_none.mp haccepts, ?_⟩
    simp only [Lexer.readFeeds_cons, Lexer.read_append, Lexer.read_cons, Lexer.read_nil,
      Lexer.step_of_end hlexeme hend]
    rfl
  rw [hwhole, outcome_eq_some] at heq
  have hrest : (Lexer.init.read q).rest.lexeme = .delimited kind token run [] := by
    rw [Lexer.rest, hlexeme]
    rfl
  have hmissed : ¬ kind.terminator <:+ [] ++ [c] := by
    intro h
    have hle := h.length_le
    have htwo := kind.two_le_terminator
    simp at hle
    omega
  have hmode := heq.2
  simp only [Lexer.readFeeds_cons, Lexer.read_cons, Lexer.read_nil,
    Lexer.step_of_not_end hrest hmissed] at hmode
  cases kind <;> cases hmode

/-- Every prefix of a text is guarded exactly if and only if none within the limits closes a comment,
a CDATA section or a processing instruction; and feeds that cut no terminator always are. -/
theorem token_guard_exact (limits : XmlParserLimits) (text : List Char) :
    ((∀ p, p <+: text → Exact limits p) ↔ ClosesNothing limits text) ∧
      ∀ feeds : List (List Char), feeds.flatten = text → Lexer.init.Uncut feeds →
        outcome limits feeds = outcome limits [text] ∧
          (outcome limits feeds ≠ none → Lexer.Within limits (Lexer.init.read text)) := by
  refine ⟨⟨?_, ?_⟩, ?_⟩
  · intro hexact p hp hwithin
    by_contra hclosed
    obtain ⟨q, c, post, kind, token, run, content, rfl, -, hlexeme, hend⟩ :=
      Lexer.exists_first_close (s := .init) hclosed
    have hfirst : q ++ [c] <+: q ++ c :: post := by simp
    refine not_exact_of_close hlexeme hend ?_ (hexact _ (hfirst.trans hp))
    -- The text is accepted up to its first terminator.
    rw [accepts_at_once]
    have hsettled := hwithin.settled
    rw [Lexer.read_append, Lexer.read_cons] at hsettled
    rw [Lexer.read_append, Lexer.read_cons, Lexer.read_nil]
    refine (Lexer.settled_of_read hsettled).within ?_
    rw [Lexer.step_of_end hlexeme hend]
    rfl
  · intro hnothing p hp
    refine exact_of_outcome fun feeds hfeeds => ?_
    subst hfeeds
    by_cases hclosed : (Lexer.init.read feeds.flatten).closed = Lexer.init.closed
    · exact outcome_eq_at_once (Lexer.trails_readFeeds_of_closed (.refl _) hclosed)
    · -- A text with a terminator is rejected at once, so its feeds are rejected too.
      have hrejected : outcome limits [feeds.flatten] = none :=
        not_not.mp fun h => hclosed (hnothing _ hp (accepts_at_once.mp h))
      rw [hrejected]
      by_contra haccepts
      obtain ⟨q, c, post, kind, token, run, content, htext, hq, hlexeme, hend⟩ :=
        Lexer.exists_first_close hclosed
      have hwithin : Lexer.Within limits (Lexer.init.read (q ++ [c])) := by
        rw [Lexer.read_append]
        exact Lexer.within_first_close htext hq hlexeme hend
          (outcome_ne_none.mp haccepts).settled
      have hzero := hnothing (q ++ [c])
        (List.IsPrefix.trans ⟨post, by rw [htext]; simp⟩ hp) hwithin
      rw [Lexer.read_append, Lexer.read_cons, Lexer.read_nil,
        Lexer.step_of_end hlexeme hend] at hzero
      cases hzero
  · intro feeds hfeeds huncut
    subst hfeeds
    have heq : outcome limits feeds = outcome limits [feeds.flatten] :=
      outcome_eq_at_once (Lexer.trails_readFeeds (.refl _)
        (Lexer.whole_of_content rfl) huncut)
    refine ⟨heq, fun haccepts => accepts_at_once.mp ?_⟩
    rwa [← heq]

def guardLimits : XmlParserLimits :=
  ⟨64, 100, 100, 100, 100, 100, Nat.succ_pos _, Nat.succ_pos _, Nat.succ_pos _, Nat.succ_pos _,
    Nat.succ_pos _, Nat.succ_pos _⟩

/-- Boundaries inside the opening and the content of a comment. -/
theorem token_guard_exact_uncut :
    outcome guardLimits [['<', '!', '-'], ['-', 'a'], ['b', '-', '-', '>', 'c']] = some .text ∧
      Lexer.Within guardLimits
        (Lexer.init.read ['<', '!', '-', '-', 'a', 'b', '-', '-', '>', 'c']) := by
  have hmode : outcome guardLimits [['<', '!', '-', '-', 'a', 'b', '-', '-', '>', 'c']] =
      some .text := by
    decide
  obtain ⟨heq, hwithin⟩ := (token_guard_exact guardLimits
    ['<', '!', '-', '-', 'a', 'b', '-', '-', '>', 'c']).2
    [['<', '!', '-'], ['-', 'a'], ['b', '-', '-', '>', 'c']] rfl
    ⟨by decide, by decide, by decide, trivial⟩
  rw [hmode] at heq
  exact ⟨heq, hwithin (by rw [heq]; exact Option.some_ne_none _)⟩

/-- A comment whose terminator a boundary cuts: the guard stays in the comment. -/
theorem cut_comment_is_not_exact : ¬ ∀ (limits : XmlParserLimits) (text : List Char),
    Exact limits text := by
  intro h
  have hcut := (h guardLimits ['<', '!', '-', '-', 'a', '-', '-', '>']
    [['<', '!', '-', '-', 'a', '-', '-'], ['>']] rfl).1
  revert hcut
  decide

end Outcome

end Makolet.Parsing
