import Makolet.Parsing.Documents

/-!
# Scoping

The parser follows the scopes of a document. `Standing` relates the state of the parser between two
children of an open element with the scopes open there: the context has the header values in scope,
and the previous values of each depth are those that its closing restores. Draining a whole element
keeps it, and the events drained are those of the record elements inside.

Inside a record nothing is looked at: the elements are collected until the record ends.
-/

set_option autoImplicit false

namespace Makolet.Parsing.ParserSettings

open Makolet.Domain Makolet.Lib Makolet.Normalized

variable {p : ParserSettings}

/-! ## Runs of events -/

theorem drain_cons {s s' : ParseState} {bytes : FeedBytes} {event : Markup}
    {events : List (FeedBytes × Markup)} {out : List ParsedEvent}
    (h : p.drain s ((bytes, event) :: events) = .ok (s', out)) :
    ∃ s₁ first later, p.drainEvent bytes s event = .ok (s₁, first) ∧
      p.drain s₁ events = .ok (s', later) ∧ out = first ++ later := by
  obtain ⟨⟨s₁, first⟩, hfirst, h⟩ := bind_eq_ok.mp h
  obtain ⟨⟨s₂, later⟩, hlater, h⟩ := bind_eq_ok.mp h
  cases pure_eq_ok.mp h
  exact ⟨s₁, first, later, hfirst, hlater, rfl⟩

theorem drain_append {s s' : ParseState} {events events' : List (FeedBytes × Markup)}
    {out : List ParsedEvent} (h : p.drain s (events ++ events') = .ok (s', out)) :
    ∃ s₁ first later, p.drain s events = .ok (s₁, first) ∧
      p.drain s₁ events' = .ok (s', later) ∧ out = first ++ later := by
  induction events generalizing s out with
  | nil => exact ⟨s, [], out, rfl, h, rfl⟩
  | cons event events ih =>
    obtain ⟨s₁, first, rest, hevent, hrest, rfl⟩ := drain_cons h
    obtain ⟨s₂, middle, later, hmiddle, hlater, rfl⟩ := ih hrest
    refine ⟨s₂, first ++ middle, later, ?_, hlater, (List.append_assoc _ _ _).symm⟩
    exact bind_eq_ok.mpr ⟨(s₁, first), hevent, bind_eq_ok.mpr ⟨(s₂, middle), hmiddle, rfl⟩⟩

/-- The parts of the run over an element. -/
theorem drain_markup {s s' : ParseState} {tag : String} {attributes : List (String × String)}
    {text : Option String} {children : List Element} {events : List (FeedBytes × Markup)}
    {out : List ParsedEvent}
    (hevents : events.map Prod.snd = (Element.mk tag attributes text children).markup)
    (h : p.drain s events = .ok (s', out)) :
    ∃ bytes bytes' s₁ s₂ inner collected last,
      p.start bytes tag attributes text s = .ok s₁ ∧
      inner.map Prod.snd = markupAll children ∧ p.drain s₁ inner = .ok (s₂, collected) ∧
      p.stop bytes' s₂ = .ok (s', last) ∧ out = collected ++ last := by
  obtain ⟨⟨bytes, event⟩, rest, rfl, hevent, hrest⟩ := List.map_eq_cons_iff.mp hevents
  obtain ⟨inner, tail, rfl, hinner, htail⟩ := List.map_eq_append_iff.mp hrest
  obtain ⟨⟨bytes', event'⟩, last, rfl, hevent', hlast⟩ := List.map_eq_cons_iff.mp htail
  obtain rfl := List.map_eq_nil_iff.mp hlast
  simp only at hevent hevent'
  subst hevent hevent'
  obtain ⟨s₁, first, later, hstart, hrest, rfl⟩ := drain_cons h
  obtain ⟨s₁, hs₁, hpure⟩ := bind_eq_ok.mp hstart
  cases pure_eq_ok.mp hpure
  obtain ⟨s₂, collected, last, hcollected, hlast, rfl⟩ := drain_append hrest
  obtain ⟨s₃, stopped, nothing, hstop, hnothing, rfl⟩ := drain_cons hlast
  cases hnothing
  exact ⟨bytes, bytes', s₁, s₂, inner, collected, stopped, hs₁, hinner, hcollected, hstop,
    by simp⟩

/-! ## Start events -/

/-- What a start event does to the state. -/
structure Started (p : ParserSettings) (tag : String) (attributes : List (String × String))
    (text : Option String) (s s' : ParseState) : Prop where
  depth : s'.depth = s.depth + 1
  stack : s'.stack = ⟨tag, attributes, text, []⟩ :: s.stack
  records : s'.records = s.records
  previous : s'.previousByDepth = s.previousByDepth
  context : s'.context = s.context
  /-- A record container stands where it may, and inside no other. -/
  container : p.decoders.tagName tag ∈ recordContainers →
    p.decoders.tagName tag = p.container ∧ s.containerDepth = none ∧
      s'.containerDepth = some (s.depth + 1) ∧
      isExpectedContainerPath p.container p.documentType (p.path s'.stack) = true ∧
      (p.path s'.stack = nestedStoreContainerPath →
        s.previousByDepth s.depth "subchainid" ≠ none)
  noContainer : p.decoders.tagName tag ∉ recordContainers → s'.containerDepth = s.containerDepth
  /-- A record stands directly inside the open container, and inside no other record. -/
  record : p.decoders.tagName tag = p.record →
    s.activeRecordDepth = none ∧ s'.containerDepth = some s.depth ∧
      s'.activeRecordDepth = some (s.depth + 1)
  noRecord : p.decoders.tagName tag ≠ p.record → s'.activeRecordDepth = s.activeRecordDepth

theorem start_eq_ok {bytes : FeedBytes} {tag : String} {attributes : List (String × String)}
    {text : Option String} {s s' : ParseState}
    (h : p.start bytes tag attributes text s = .ok s') :
    ∃ s₁ s₂, p.push tag attributes text s = .ok s₁ ∧
      (if p.decoders.tagName tag ∈ recordContainers then
        p.startContainer (p.decoders.tagName tag) s₁ else .ok s₁) = .ok s₂ ∧
      (if p.decoders.tagName tag = p.record then startRecord bytes s₂ else .ok s₂) = .ok s' := by
  obtain ⟨s₁, hpush, h⟩ := bind_eq_ok.mp h
  dsimp only at h
  split at h
  · rename_i htag
    obtain ⟨s₂, hcontainer, h⟩ := bind_eq_ok.mp h
    exact ⟨s₁, s₂, hpush, (if_pos htag).trans hcontainer, h⟩
  · rename_i htag
    exact ⟨s₁, s₁, hpush, if_neg htag, h⟩

theorem started_of_start (hp : p.Regular) {bytes : FeedBytes} {tag : String}
    {attributes : List (String × String)} {text : Option String} {s s' : ParseState}
    (h : p.start bytes tag attributes text s = .ok s') : p.Started tag attributes text s s' := by
  obtain ⟨hrecord, -, -⟩ := hp.tags
  obtain ⟨s₁, s₂, hpush, hcontainers, hrecords⟩ := start_eq_ok h
  obtain ⟨-, hpush⟩ := require_bind_eq_ok.mp hpush
  obtain ⟨-, hpush⟩ := require_bind_eq_ok.mp hpush
  obtain ⟨-, hpush⟩ := require_bind_eq_ok.mp hpush
  cases pure_eq_ok.mp hpush
  -- No tag is both that of a container and that of the records.
  by_cases hcontainer : p.decoders.tagName tag ∈ recordContainers
  · have hne : p.decoders.tagName tag ≠ p.record := fun heq => hrecord (heq ▸ hcontainer)
    rw [if_neg hne] at hrecords
    cases hrecords
    rw [if_pos hcontainer] at hcontainers
    obtain ⟨htag, hcontainers⟩ := require_bind_eq_ok.mp hcontainers
    obtain ⟨hpath, hcontainers⟩ := require_bind_eq_ok.mp hcontainers
    obtain ⟨hnested, hcontainers⟩ := require_bind_eq_ok.mp hcontainers
    obtain ⟨hnone, hcontainers⟩ := require_bind_eq_ok.mp hcontainers
    cases pure_eq_ok.mp hcontainers
    exact ⟨rfl, rfl, rfl, rfl, rfl, fun _ => ⟨htag, hnone, rfl, hpath, fun heq hmissing =>
      hnested ⟨heq, hmissing⟩⟩, fun hno => absurd hcontainer hno, fun heq => absurd heq hne,
      fun _ => rfl⟩
  · rw [if_neg hcontainer] at hcontainers
    cases hcontainers
    by_cases heq : p.decoders.tagName tag = p.record
    · rw [if_pos heq] at hrecords
      obtain ⟨hnone, hrecords⟩ := require_bind_eq_ok.mp hrecords
      obtain ⟨⟨depth, hdepth, hsucc⟩, hrecords⟩ := require_bind_eq_ok.mp hrecords
      cases pure_eq_ok.mp hrecords
      obtain rfl := Nat.succ.inj hsucc
      exact ⟨rfl, rfl, rfl, rfl, rfl, fun hmem => absurd hmem hcontainer, fun _ => rfl,
        fun _ => ⟨hnone, hdepth, rfl⟩, fun hne => absurd heq hne⟩
    · rw [if_neg heq] at hrecords
      cases hrecords
      exact ⟨rfl, rfl, rfl, rfl, rfl, fun hmem => absurd hmem hcontainer, fun _ => rfl,
        fun h => absurd h heq, fun _ => rfl⟩

/-! ## Stop events -/

theorem stop_eq_ok {bytes : FeedBytes} {s s' : ParseState} {frame : Frame} {rest : List Frame}
    {out : List ParsedEvent} (hstack : s.stack = frame :: rest)
    (h : p.stop bytes s = .ok (s', out)) :
    ∃ s₁, (if s.activeRecordDepth = some s.depth ∧ p.decoders.tagName frame.tag = p.record then
        p.stopRecord bytes frame.element s
      else if s.activeRecordDepth = none then (p.stopElement frame.element s).map fun s => (s, [])
      else .ok (s, [])) = .ok (s₁, out) ∧
      s' = p.pop (p.decoders.tagName frame.tag) frame.element rest s₁ := by
  rw [stop, hstack] at h
  dsimp only at h
  split at h
  · rename_i hactive
    obtain ⟨⟨s₁, events⟩, hrecord, h⟩ := bind_eq_ok.mp h
    cases pure_eq_ok.mp h
    exact ⟨s₁, (if_pos hactive).trans hrecord, rfl⟩
  · rename_i hactive
    split at h
    · rename_i hnone
      obtain ⟨s₁, helement, h⟩ := bind_eq_ok.mp h
      cases pure_eq_ok.mp h
      exact ⟨s₁, by rw [if_neg hactive, if_pos hnone, helement]; rfl, rfl⟩
    · rename_i hsome
      cases pure_eq_ok.mp h
      exact ⟨s, by rw [if_neg hactive, if_neg hsome], rfl⟩

theorem stopRecord_eq_ok {bytes : FeedBytes} {element : Element} {s s' : ParseState}
    {out : List ParsedEvent} (h : p.stopRecord bytes element s = .ok (s', out)) :
    p.recordEvents element s.context (s.records + 1) = .ok out ∧
      s' = { s with
        records := s.records + 1
        activeRecordDepth := none } := by
  obtain ⟨-, h⟩ := require_bind_eq_ok.mp h
  obtain ⟨-, h⟩ := require_bind_eq_ok.mp h
  obtain ⟨events, hevents, h⟩ := bind_eq_ok.mp h
  cases pure_eq_ok.mp h
  exact ⟨hevents, rfl⟩

/-- Outside the records, an element that has closed declares its header value. -/
theorem stopElement_eq_ok {element : Element} {s s' : ParseState} {path : List String}
    (hpath : p.path s.stack = path ++ [p.decoders.tagName element.tag])
    (hchildren : element.children = []) (h : p.stopElement element s = .ok s') :
    ∃ findings, s' = match p.declares path element with
      | none => { s with findings := findings }
      | some (tag, text) => declare (s.depth - 1) tag text { s with findings := findings } := by
  obtain ⟨⟨findings, text⟩, hinspect, h⟩ := bind_eq_ok.mp h
  obtain ⟨cleaned, hcleaned, hinspect⟩ := bind_eq_ok.mp hinspect
  obtain ⟨findings', -, hinspect⟩ := bind_eq_ok.mp hinspect
  rw [hpath] at hinspect
  refine ⟨findings, ?_⟩
  rw [declares, hcleaned]
  by_cases hcontext : isContextPath p.documentType (path ++ [p.decoders.tagName element.tag]) = true
  · rw [if_pos ⟨hcontext, hchildren⟩] at hinspect
    cases pure_eq_ok.mp hinspect
    rw [if_pos hcontext]
    cases text <;> exact (pure_eq_ok.mp h).symm
  · rw [if_neg fun hboth => hcontext hboth.1] at hinspect
    cases pure_eq_ok.mp hinspect
    rw [if_neg hcontext]
    exact (pure_eq_ok.mp h).symm

/-! ## Inside a record -/

/-- The parser is inside a record: nothing above its depth has been declared. -/
structure Collecting (s : ParseState) : Prop where
  active : ∃ depth, s.activeRecordDepth = some depth ∧ depth ≤ s.depth
  container : ∃ depth, s.containerDepth = some depth ∧ depth ≤ s.depth
  previous : ∀ k, s.depth < k → ∀ name, s.previousByDepth k name = none

/-- Two states differ only in what they have collected and counted. -/
structure SameScope (s s' : ParseState) : Prop where
  depth : s'.depth = s.depth
  records : s'.records = s.records
  active : s'.activeRecordDepth = s.activeRecordDepth
  container : s'.containerDepth = s.containerDepth
  previous : s'.previousByDepth = s.previousByDepth
  context : s'.context = s.context

theorem SameScope.trans {s s₁ s₂ : ParseState} (h : SameScope s s₁) (h' : SameScope s₁ s₂) :
    SameScope s s₂ :=
  ⟨h'.depth.trans h.depth, h'.records.trans h.records, h'.active.trans h.active,
    h'.container.trans h.container, h'.previous.trans h.previous, h'.context.trans h.context⟩

theorem Collecting.of_sameScope {s s' : ParseState} (h : Collecting s) (hs : SameScope s s') :
    Collecting s' := by
  obtain ⟨hactive, hcontainer, hprevious⟩ := h
  constructor
  · rwa [hs.active, hs.depth]
  · rwa [hs.container, hs.depth]
  · rwa [hs.previous, hs.depth]

/-- Inside a record a start event only opens its element. -/
theorem Collecting.start (hp : p.Regular) {bytes : FeedBytes} {tag : String}
    {attributes : List (String × String)} {text : Option String} {s s' : ParseState}
    (hs : Collecting s) (h : p.start bytes tag attributes text s = .ok s') :
    p.decoders.tagName tag ∉ recordContainers ∧ p.decoders.tagName tag ≠ p.record ∧
      Collecting s' := by
  obtain ⟨⟨active, hactive, hle⟩, ⟨depth, hdepth, hle'⟩, hprevious⟩ := hs
  have hstarted := started_of_start hp h
  have hcontainer : p.decoders.tagName tag ∉ recordContainers := by
    intro hmem
    rw [(hstarted.container hmem).2.1] at hdepth
    cases hdepth
  have hrecord : p.decoders.tagName tag ≠ p.record := by
    intro heq
    rw [(hstarted.record heq).1] at hactive
    cases hactive
  refine ⟨hcontainer, hrecord, ⟨active, ?_, ?_⟩, ⟨depth, ?_, ?_⟩, ?_⟩
  · rw [hstarted.noRecord hrecord, hactive]
  · rw [hstarted.depth]
    exact Nat.le_succ_of_le hle
  · rw [hstarted.noContainer hcontainer, hdepth]
  · rw [hstarted.depth]
    exact Nat.le_succ_of_le hle'
  · rw [hstarted.depth, hstarted.previous]
    exact fun k hk => hprevious k (Nat.lt_of_succ_lt hk)

/-- Inside a record the end of an element only adds it to its parent. -/
theorem Collecting.stop {bytes : FeedBytes} {s s₁ s' : ParseState} {frame parent : Frame}
    {rest : List Frame} {out : List ParsedEvent} (hs : Collecting s)
    (hdepth : s₁.depth = s.depth + 1) (hs₁ : SameScope s { s₁ with depth := s.depth })
    (hstack : s₁.stack = frame :: parent :: rest) (h : p.stop bytes s₁ = .ok (s', out)) :
    SameScope s s' ∧ out = [] ∧
      s'.stack = { parent with children := parent.children ++ [frame.element] } :: rest := by
  obtain ⟨⟨active, hactive, hle⟩, ⟨depth, hcontainer, hle'⟩, hprevious⟩ := hs
  have hactive₁ : s₁.activeRecordDepth = some active := hs₁.active.trans hactive
  have hcontainer₁ : s₁.containerDepth = some depth := hs₁.container.trans hcontainer
  have hprevious₁ : s₁.previousByDepth = s.previousByDepth := hs₁.previous
  obtain ⟨s₂, hbranch, rfl⟩ := stop_eq_ok hstack h
  rw [if_neg, if_neg] at hbranch
  · cases hbranch
    refine ⟨⟨?_, hs₁.records, hs₁.active, ?_, ?_, ?_⟩, rfl, ?_⟩
    · show s₁.depth - 1 = s.depth
      omega
    · show (if _ then none else s₁.containerDepth) = s.containerDepth
      rw [if_neg, hcontainer₁, hcontainer]
      rintro ⟨-, heq⟩
      rw [hcontainer₁, Option.some.injEq] at heq
      omega
    · funext k name
      show (if k = s₁.depth then none else s₁.previousByDepth k name) = _
      split
      · rename_i hk
        rw [hprevious k (by omega)]
      · rw [hprevious₁]
    · funext name
      show (s₁.previousByDepth s₁.depth name).getD (s₁.context name) = _
      rw [hprevious₁, hprevious _ (by omega)]
      exact congrFun hs₁.context name
    · show (if s₁.activeRecordDepth = none then _ else _) = _
      rw [if_neg (by rw [hactive₁]; exact Option.some_ne_none _)]
  · rw [hactive₁]
    exact Option.some_ne_none _
  · rintro ⟨heq, -⟩
    rw [hactive₁, Option.some.injEq] at heq
    omega

/-- Only a container can be a nested container. -/
theorem subchainNamed_of_not_mem {path : List String} {tag : String} (scopes : List Scope)
    (h : tag ∉ recordContainers) : p.SubchainNamed (path ++ [tag]) scopes := by
  intro heq
  have hlast : path ++ [tag] = ["root", "chain", "subchains", "subchain"] ++ ["stores"] := heq
  obtain ⟨-, htag⟩ := List.append_inj' hlast rfl
  obtain rfl := List.singleton_inj.mp htag
  exact absurd (by decide) h

mutual

/-- Draining an element inside a record collects it and emits nothing. -/
theorem collect_element (hp : p.Regular) (element : Element) {s s' : ParseState}
    {events : List (FeedBytes × Markup)} {out : List ParsedEvent} {parent : Frame}
    {rest : List Frame} (hs : Collecting s) (hstack : s.stack = parent :: rest)
    (hevents : events.map Prod.snd = element.markup) (h : p.drain s events = .ok (s', out)) :
    SameScope s s' ∧ out = [] ∧
      s'.stack = { parent with children := parent.children ++ [element] } :: rest ∧
      ∀ scopes, p.SubchainsNamed scopes element := by
  match element with
  | .mk tag attributes text children =>
    obtain ⟨bytes, bytes', s₁, s₂, inner, collected, last, hstart, hinner, hcollected, hstop,
      rfl⟩ := drain_markup hevents h
    have hstarted := started_of_start hp hstart
    obtain ⟨hcontainer, hrecord, hs₁⟩ := hs.start hp hstart
    obtain ⟨hsame, rfl, hstack₂, hnamed⟩ :=
      collect_siblings hp children hs₁ hstarted.stack hinner hcollected
    have hsame₂ : SameScope s { s₂ with depth := s.depth } := by
      refine ⟨rfl, hsame.records.trans hstarted.records, ?_, ?_,
        hsame.previous.trans hstarted.previous, hsame.context.trans hstarted.context⟩
      · exact hsame.active.trans (hstarted.noRecord hrecord)
      · exact hsame.container.trans (hstarted.noContainer hcontainer)
    rw [hstack] at hstack₂
    obtain ⟨hs', rfl, hstack'⟩ :=
      hs.stop (hsame.depth.trans hstarted.depth) hsame₂ hstack₂ hstop
    exact ⟨hs', rfl, hstack', fun scopes =>
      ⟨subchainNamed_of_not_mem scopes hcontainer, hnamed scopes _ _⟩⟩

/-- Draining siblings inside a record collects them and emits nothing. -/
theorem collect_siblings (hp : p.Regular) (elements : List Element) {s s' : ParseState}
    {events : List (FeedBytes × Markup)} {out : List ParsedEvent} {parent : Frame}
    {rest : List Frame} (hs : Collecting s) (hstack : s.stack = parent :: rest)
    (hevents : events.map Prod.snd = markupAll elements)
    (h : p.drain s events = .ok (s', out)) :
    SameScope s s' ∧ out = [] ∧
      s'.stack = { parent with children := parent.children ++ elements } :: rest ∧
      ∀ scopes path closed, p.SubchainsNamedAmong scopes path closed elements := by
  match elements with
  | [] =>
    obtain rfl := List.map_eq_nil_iff.mp hevents
    cases h
    exact ⟨⟨rfl, rfl, rfl, rfl, rfl, rfl⟩, rfl, by rw [hstack, List.append_nil],
      fun _ _ _ => trivial⟩
  | element :: elements =>
    obtain ⟨first, later, rfl, hfirst, hlater⟩ := List.map_eq_append_iff.mp hevents
    obtain ⟨s₁, out₁, out₂, h₁, h₂, rfl⟩ := drain_append h
    obtain ⟨hsame₁, rfl, hstack₁, hnamed₁⟩ := collect_element hp element hs hstack hfirst h₁
    obtain ⟨hsame₂, rfl, hstack₂, hnamed₂⟩ :=
      collect_siblings hp elements (hs.of_sameScope hsame₁) hstack₁ hlater h₂
    refine ⟨hsame₁.trans hsame₂, rfl, ?_, fun scopes path closed =>
      ⟨hnamed₁ _, hnamed₂ scopes path _⟩⟩
    rw [hstack₂, List.append_assoc, List.singleton_append]

end

/-! ## Outside the records -/

/-- The state of the parser between two children of an open element. -/
structure Standing (p : ParserSettings) (s : ParseState) (scopes : List Scope) : Prop where
  depth : s.depth = scopes.length
  active : s.activeRecordDepth = none
  path : p.path s.stack = currentPath scopes
  context : scopes ≠ [] → s.context = p.inherited scopes
  previous : s.previousByDepth = p.saved scopes
  container : ∀ depth, s.containerDepth = some depth → depth ≤ s.depth
  expected : s.containerDepth = some s.depth →
    isExpectedContainerPath p.container p.documentType (currentPath scopes) = true

/-- What draining elements outside the records does: the state stands in the scopes after them, and
the events are those of the record elements inside. -/
structure Walked (p : ParserSettings) (s s' : ParseState) (scopes : List Scope)
    (records : List (Element × List Scope)) (out : List ParsedEvent) : Prop where
  standing : p.Standing s' scopes
  stack : s'.stack = s.stack
  container : s'.containerDepth = s.containerDepth
  count : s'.records = s.records + records.length
  emits : p.Emits s.records records out

theorem Walked.trans {s s₁ s₂ : ParseState} {scopes scopes' : List Scope}
    {records records' : List (Element × List Scope)} {out out' : List ParsedEvent}
    (h : p.Walked s s₁ scopes records out) (h' : p.Walked s₁ s₂ scopes' records' out') :
    p.Walked s s₂ scopes' (records ++ records') (out ++ out') := by
  refine ⟨h'.standing, h'.stack.trans h.stack, h'.container.trans h.container, ?_, ?_⟩
  · rw [h'.count, h.count, List.length_append, Nat.add_assoc]
  · refine h.emits.append ?_
    rw [← h.count]
    exact h'.emits

theorem currentPath_closeChild (element : Element) (scopes : List Scope) :
    currentPath (closeChild element scopes) = currentPath scopes := by
  cases scopes <;> rfl

theorem length_closeChild (element : Element) (scopes : List Scope) :
    (closeChild element scopes).length = scopes.length := by
  cases scopes <;> rfl

/-- An element that declares nothing leaves the header values in scope as they are. -/
theorem closeChild_of_declares_eq_none {element : Element} {scopes : List Scope}
    (h : p.declares (currentPath scopes) element = none) :
    p.inherited (closeChild element scopes) = p.inherited scopes ∧
      p.saved (closeChild element scopes) = p.saved scopes := by
  cases scopes with
  | nil => exact ⟨rfl, rfl⟩
  | cons scope outer =>
    have hdeclared : p.declared ⟨scope.path, scope.closed ++ [element]⟩ = p.declared scope := by
      rw [declared_append, show p.declares scope.path element = none from h]
      rfl
    refine ⟨?_, ?_⟩
    · rw [inherited_closeChild, show p.declares scope.path element = none from h]
      rfl
    · funext k name
      rw [closeChild, saved, saved, hdeclared]

theorem path_cons (frame : Frame) (rest : List Frame) :
    p.path (frame :: rest) = p.path rest ++ [p.decoders.tagName frame.tag] := by
  simp [path]

/-- Leaving a scope keeps what the scopes around it restore. -/
theorem saved_leave (scope : Scope) (outer : List Scope) :
    (fun k name => if k = outer.length + 1 then none else p.saved (scope :: outer) k name) =
      p.saved outer := by
  funext k name
  split
  · rename_i hk
    rw [saved_above (by omega)]
  · rename_i hk
    rw [saved, if_neg hk]

/-- Leaving a scope below the root restores the header values around it. -/
theorem inherited_leave {outer : List Scope} (houter : outer ≠ []) (scope : Scope)
    (name : String) :
    (p.saved (scope :: outer) (outer.length + 1) name).getD (p.inherited (scope :: outer) name) =
      p.inherited outer name := by
  rw [saved_here]
  by_cases hscope : p.declared scope name = none
  · rw [if_neg fun h => h.2 hscope]
    show (p.declared scope name).orElse _ = _
    rw [hscope]
    rfl
  · rw [if_pos ⟨houter, hscope⟩, Option.getD_some]

/-- A start event outside the records opens a scope. -/
theorem Standing.opened {tag : String} {attributes : List (String × String)}
    {text : Option String} {s s' : ParseState} {scopes : List Scope} (hs : p.Standing s scopes)
    (hcontext : s.context = p.inherited scopes) (h : p.Started tag attributes text s s')
    (hrecord : p.decoders.tagName tag ≠ p.record) :
    p.Standing s' (⟨currentPath scopes ++ [p.decoders.tagName tag], []⟩ :: scopes) := by
  have hpath : p.path s'.stack = currentPath scopes ++ [p.decoders.tagName tag] := by
    rw [h.stack, path_cons, hs.path]
  refine ⟨?_, ?_, hpath, fun _ => ?_, ?_, ?_, ?_⟩
  · rw [h.depth, hs.depth, List.length_cons]
  · rw [h.noRecord hrecord, hs.active]
  · rw [h.context, hcontext, inherited_open]
  · rw [h.previous, hs.previous, saved_open]
  · intro depth hdepth
    by_cases hmem : p.decoders.tagName tag ∈ recordContainers
    · rw [(h.container hmem).2.2.1, Option.some.injEq] at hdepth
      rw [h.depth, hdepth]
    · rw [h.noContainer hmem] at hdepth
      rw [h.depth]
      exact Nat.le_succ_of_le (hs.container depth hdepth)
  · intro hdepth
    by_cases hmem : p.decoders.tagName tag ∈ recordContainers
    · rw [currentPath, ← hpath]
      exact (h.container hmem).2.2.2.1
    · -- The open container is further out.
      rw [h.noContainer hmem, h.depth] at hdepth
      exact absurd (hs.container _ hdepth) (Nat.not_succ_le_self _)

/-- The SubChain of a container that was opened has declared its SubChainID. -/
theorem Standing.subchainNamed {tag : String} {attributes : List (String × String)}
    {text : Option String} {s s' : ParseState} {scopes : List Scope} (hs : p.Standing s scopes)
    (h : p.Started tag attributes text s s') :
    p.SubchainNamed (currentPath scopes ++ [p.decoders.tagName tag]) scopes := by
  by_cases hmem : p.decoders.tagName tag ∈ recordContainers
  · intro hnested
    have hsaved := (h.container hmem).2.2.2.2 (by rw [h.stack, path_cons, hs.path, hnested])
    rw [hs.previous, hs.depth] at hsaved
    cases scopes with
    | nil => exact absurd rfl hsaved
    | cons scope outer =>
      refine ⟨scope, outer, rfl, fun hnone => hsaved ?_⟩
      rw [List.length_cons, saved_here, if_neg fun hboth => hboth.2 hnone]
  · exact subchainNamed_of_not_mem scopes hmem

/-- What the end of an element outside the records leaves of the saved values and of the context:
its own scope is gone, and what it declares stands in the scope of its parent. -/
theorem Standing.restored (element : Element) {s s' : ParseState} {scopes : List Scope}
    {closed : List Element} {findings : SchemaFindings}
    (hs : p.Standing s (⟨currentPath scopes ++ [p.decoders.tagName element.tag], closed⟩ :: scopes))
    (h : s' = match p.declares (currentPath scopes) element with
      | none => { s with findings := findings }
      | some (tag, text) => declare (s.depth - 1) tag text { s with findings := findings }) :
    (fun k name => if k = s.depth then none else s'.previousByDepth k name) =
        p.saved (closeChild element scopes) ∧
      (scopes ≠ [] → (fun name => (s'.previousByDepth s.depth name).getD (s'.context name)) =
        p.inherited (closeChild element scopes)) := by
  have hdepth : s.depth = scopes.length + 1 := hs.depth
  have hcontext := hs.context (List.cons_ne_nil _ _)
  cases hdeclares : p.declares (currentPath scopes) element with
  | none =>
    rw [hdeclares] at h
    subst h
    obtain ⟨hinherited, hsaved⟩ := closeChild_of_declares_eq_none hdeclares
    rw [hinherited, hsaved]
    simp only [hdepth, hs.previous, hcontext]
    exact ⟨saved_leave _ _, fun houter => funext fun name => inherited_leave houter _ name⟩
  | some declaration =>
    obtain ⟨tag, text⟩ := declaration
    rw [hdeclares] at h
    subst h
    -- A header element has no header values of its own.
    have hpath : isContextPath p.documentType
        (currentPath scopes ++ [p.decoders.tagName element.tag]) = true := by
      by_contra hno
      rw [declares, if_neg hno] at hdeclares
      cases hdeclares
    have hnothing := declared_eq_noFields (p := p) (not_isContextPath_append hpath) closed
    cases scopes with
    | nil =>
      rw [currentPath, List.nil_append, isContextPath] at hpath
      · cases hpath
      all_goals simp
    | cons scope outer =>
      have hinherited : s.context = p.inherited (scope :: outer) := by
        rw [hcontext]
        funext name
        show (p.declared _ name).orElse _ = _
        rw [hnothing]
        rfl
      have hnone : ∀ name, p.saved (closeChild element (scope :: outer)) s.depth name = none := by
        intro name
        rw [saved_above]
        rw [length_closeChild, hdepth]
        exact Nat.lt_succ_self _
      have hprevious : s.previousByDepth = p.saved (scope :: outer) := by
        rw [hs.previous]
        funext k name
        rw [saved, hnothing]
        split
        · rename_i hk
          rw [if_neg fun hboth => hboth.2 rfl, saved_above (by omega)]
        · rfl
      have hdeclared : (declare (s.depth - 1) tag text
            { s with findings := findings }).previousByDepth =
          p.saved (closeChild element (scope :: outer)) := by
        rw [saved_closeChild hdeclares]
        simp only [declare, hprevious, hinherited, hdepth, List.length_cons, Nat.add_sub_cancel]
      rw [hdeclared]
      refine ⟨?_, fun _ => ?_⟩
      · funext k name
        split
        · rename_i hk
          rw [hk, hnone]
        · rfl
      · funext name
        rw [hnone, Option.getD_none, inherited_closeChild,
          show p.declares scope.path element = some (tag, text) from hdeclares]
        show (if name = tag then some text else s.context name) = _
        rw [hinherited]
        rfl

/-- The end of an element outside the records closes its scope. -/
theorem Standing.stop {bytes : FeedBytes} {tag : String} {attributes : List (String × String)}
    {text : Option String} {children : List Element} {s s₁ s₂ s' : ParseState}
    {scopes : List Scope} {out : List ParsedEvent} (hs : p.Standing s scopes)
    (hstarted : p.Started tag attributes text s s₁)
    (hs₂ : p.Standing s₂ (⟨currentPath scopes ++ [p.decoders.tagName tag], children⟩ :: scopes))
    (hstack : s₂.stack = s₁.stack) (hcontainer : s₂.containerDepth = s₁.containerDepth)
    (h : p.stop bytes s₂ = .ok (s', out)) :
    p.Standing s' (closeChild ⟨tag, attributes, text, children⟩ scopes) ∧
      s'.stack = s.stack ∧ s'.containerDepth = s.containerDepth ∧ s'.records = s₂.records ∧
      out = [] := by
  obtain ⟨s₃, hbranch, rfl⟩ := stop_eq_ok (hstack.trans hstarted.stack) h
  -- No record is open, so the end is that of an element.
  rw [if_neg (by rw [hs₂.active]; rintro ⟨h, -⟩; cases h), if_pos hs₂.active] at hbranch
  obtain ⟨s₄, helement, hpair⟩ := map_eq_ok.mp hbranch
  cases hpair
  have hpath : p.path s₂.stack = currentPath scopes ++
      [p.decoders.tagName (Frame.element ⟨tag, attributes, text, []⟩).tag] := hs₂.path
  obtain ⟨findings, hs₃⟩ := stopElement_eq_ok hpath rfl helement
  obtain ⟨hprevious, hcontext⟩ :=
    Standing.restored ⟨tag, attributes, text, children⟩ hs₂ hs₃
  have hdepth : s₂.depth = s.depth + 1 := by
    rw [hs₂.depth, hs.depth, List.length_cons]
  have hfields : s₃.depth = s₂.depth ∧ s₃.records = s₂.records ∧ s₃.activeRecordDepth = none ∧
      s₃.containerDepth = s₂.containerDepth := by
    rw [hs₃]
    split <;> exact ⟨rfl, rfl, hs₂.active, rfl⟩
  obtain ⟨hdepth₃, hrecords₃, hactive₃, hcontainer₃⟩ := hfields
  have hcontainer' : (p.pop (p.decoders.tagName tag) (Frame.element ⟨tag, attributes, text, []⟩)
      s.stack s₃).containerDepth = s.containerDepth := by
    show (if _ then none else s₃.containerDepth) = _
    rw [hcontainer₃, hcontainer, hdepth₃, hdepth]
    -- Only the element that opened the container closes it.
    by_cases hmem : p.decoders.tagName tag ∈ recordContainers
    · obtain ⟨htag, hnone, hsome, -⟩ := hstarted.container hmem
      rw [if_pos ⟨htag, hsome⟩, hnone]
    · rw [hstarted.noContainer hmem, if_neg]
      rintro ⟨-, heq⟩
      exact absurd (hs.container _ heq) (Nat.not_succ_le_self _)
  have hstack' : (p.pop (p.decoders.tagName tag) (Frame.element ⟨tag, attributes, text, []⟩)
      s.stack s₃).stack = s.stack := by
    show (if s₃.activeRecordDepth = none then _ else _) = _
    rw [if_pos hactive₃]
  have hdepth' : s₃.depth - 1 = s.depth := by
    rw [hdepth₃, hdepth, Nat.add_sub_cancel]
  refine ⟨⟨?_, hactive₃, ?_, fun hne => ?_, ?_, ?_, ?_⟩, hstack', hcontainer', hrecords₃, rfl⟩
  · rw [length_closeChild, ← hs.depth]
    exact hdepth'
  · rw [hstack', currentPath_closeChild, hs.path]
  · rw [← hcontext (by rintro rfl; exact hne rfl)]
    show (fun name => (s₃.previousByDepth s₃.depth name).getD (s₃.context name)) = _
    rw [hdepth₃]
  · rw [← hprevious]
    show (fun k name => if k = s₃.depth then none else s₃.previousByDepth k name) = _
    rw [hdepth₃]
  · rw [hcontainer']
    exact fun depth hd => (hs.container depth hd).trans (Nat.le_of_eq hdepth'.symm)
  · rw [hcontainer', currentPath_closeChild]
    exact fun hd => hs.expected (hd.trans (congrArg some hdepth'))

/-- A record element is collected and emitted. -/
theorem Standing.record (hp : p.Regular) {bytes : FeedBytes} {tag : String}
    {attributes : List (String × String)} {text : Option String} {children : List Element}
    {s s₁ s₂ s' : ParseState} {scopes : List Scope} {inner : List (FeedBytes × Markup)}
    {collected out : List ParsedEvent} (hs : p.Standing s scopes)
    (hcontext : s.context = p.inherited scopes)
    (hstarted : p.Started tag attributes text s s₁)
    (hrecord : p.decoders.tagName tag = p.record)
    (hinner : inner.map Prod.snd = markupAll children)
    (hcollected : p.drain s₁ inner = .ok (s₂, collected))
    (h : p.stop bytes s₂ = .ok (s', out)) :
    p.Walked s s' (closeChild ⟨tag, attributes, text, children⟩ scopes)
        (p.recordsOf scopes ⟨tag, attributes, text, children⟩) (collected ++ out) ∧
      p.SubchainsNamed scopes ⟨tag, attributes, text, children⟩ := by
  obtain ⟨hcontainer, hcontextTag, hmemContainer⟩ := hp.tags
  obtain ⟨-, hopen, hactive⟩ := hstarted.record hrecord
  have hmem : p.decoders.tagName tag ∉ recordContainers := hrecord ▸ hcontainer
  rw [hstarted.noContainer hmem] at hopen
  -- Behind its start the record is collected: nothing inside changes the context.
  have hs₁ : Collecting s₁ := by
    refine ⟨⟨_, hactive, hstarted.depth.ge⟩, ⟨_, (hstarted.noContainer hmem).trans hopen, ?_⟩,
      fun k hk name => ?_⟩
    · rw [hstarted.depth]
      exact Nat.le_succ _
    · rw [hstarted.previous, hs.previous, saved_above]
      rw [hstarted.depth, hs.depth] at hk
      exact Nat.lt_of_succ_lt hk
  obtain ⟨hsame, rfl, hstack₂, hnamed⟩ :=
    collect_siblings hp children hs₁ hstarted.stack hinner hcollected
  have hdepth₂ : s₂.depth = s.depth + 1 := hsame.depth.trans hstarted.depth
  obtain ⟨s₃, hbranch, rfl⟩ := stop_eq_ok hstack₂ h
  rw [if_pos ⟨hsame.active.trans (hactive.trans (congrArg some hdepth₂.symm)), hrecord⟩] at hbranch
  obtain ⟨hevents, rfl⟩ := stopRecord_eq_ok hbranch
  have hdeclares : p.declares (currentPath scopes) ⟨tag, attributes, text, children⟩ = none := by
    refine declares_eq_none_of (Bool.eq_false_iff.mpr fun hpath => ?_)
    exact hcontextTag (hrecord ▸ mem_tags_of_isContextPath hpath)
  obtain ⟨hinherited, hsaved⟩ := closeChild_of_declares_eq_none hdeclares
  have hprevious : s₂.previousByDepth = p.saved scopes :=
    hsame.previous.trans (hstarted.previous.trans hs.previous)
  -- The record itself has saved no value, so its end restores none.
  have hnothing : ∀ name, p.saved scopes s₂.depth name = none := by
    intro name
    rw [saved_above]
    rw [hdepth₂, hs.depth]
    exact Nat.lt_succ_self _
  have hrecords : p.recordsOf scopes ⟨tag, attributes, text, children⟩ =
      [(⟨tag, attributes, text, children⟩, scopes)] := by
    rw [recordsOf, if_pos ⟨hrecord, hs.expected hopen⟩]
  have hcontainer' : s₂.containerDepth = s.containerDepth :=
    hsame.container.trans (hstarted.noContainer hmem)
  have hpop : (if p.decoders.tagName tag = p.container ∧ s₂.containerDepth = some s₂.depth then none
      else s₂.containerDepth) = s.containerDepth := by
    rw [if_neg, hcontainer']
    rintro ⟨htag, -⟩
    exact hmem (htag ▸ hmemContainer)
  have hdepth' : s₂.depth - 1 = s.depth := by
    rw [hdepth₂, Nat.add_sub_cancel]
  refine ⟨⟨⟨?_, rfl, ?_, fun hne => ?_, ?_, ?_, ?_⟩, rfl, hpop, ?_, ?_⟩,
    subchainNamed_of_not_mem scopes hmem, hnamed _ _ _⟩
  · rw [length_closeChild, ← hs.depth]
    exact hdepth'
  · rw [currentPath_closeChild]
    exact hs.path
  · funext name
    show (s₂.previousByDepth s₂.depth name).getD (s₂.context name) = _
    rw [hprevious, hnothing, hsame.context, hstarted.context, hcontext, hinherited]
    rfl
  · rw [hsaved]
    funext k name
    show (if k = s₂.depth then none else s₂.previousByDepth k name) = _
    rw [hprevious]
    split
    · rename_i hk
      rw [hk, hnothing]
    · rfl
  · intro depth hd
    exact (hs.container depth (hpop.symm.trans hd)).trans (Nat.le_of_eq hdepth'.symm)
  · intro hd
    rw [currentPath_closeChild]
    exact hs.expected (hpop.symm.trans (hd.trans (congrArg some hdepth')))
  · rw [hrecords, List.length_singleton, ← hstarted.records, ← hsame.records]
    rfl
  · rw [hrecords]
    refine ⟨out, [], ?_, by simp, rfl⟩
    rw [hsame.context, hsame.records, hstarted.context, hstarted.records, hcontext] at hevents
    exact hevents

/-! ## Whole elements -/

mutual

/-- Draining an element outside the records walks over its record elements. -/
theorem walk_element (hp : p.Regular) (element : Element) {s s' : ParseState}
    {scopes : List Scope} {events : List (FeedBytes × Markup)} {out : List ParsedEvent}
    (hs : p.Standing s scopes) (hcontext : s.context = p.inherited scopes)
    (hevents : events.map Prod.snd = element.markup) (h : p.drain s events = .ok (s', out)) :
    p.Walked s s' (closeChild element scopes) (p.recordsOf scopes element) out ∧
      p.SubchainsNamed scopes element := by
  match element with
  | .mk tag attributes text children =>
    obtain ⟨bytes, bytes', s₁, s₂, inner, collected, last, hstart, hinner, hcollected, hstop,
      rfl⟩ := drain_markup hevents h
    have hstarted := started_of_start hp hstart
    by_cases hrecord : p.decoders.tagName tag = p.record
    · exact hs.record hp hcontext hstarted hrecord hinner hcollected hstop
    · have hs₁ := hs.opened hcontext hstarted hrecord
      obtain ⟨hwalked, hnamed⟩ := walk_siblings hp children hs₁ hinner hcollected
      obtain ⟨hs', hstack, hcontainer, hcount, rfl⟩ :=
        hs.stop hstarted hwalked.standing hwalked.stack hwalked.container hstop
      rw [recordsOf, if_neg fun hboth => hrecord hboth.1, List.append_nil]
      refine ⟨⟨hs', hstack, hcontainer, ?_, ?_⟩, hs.subchainNamed hstarted, hnamed⟩
      · rw [hcount, hwalked.count, hstarted.records]
      · rw [← hstarted.records]
        exact hwalked.emits

/-- Draining siblings outside the records walks over their record elements. -/
theorem walk_siblings (hp : p.Regular) (elements : List Element) {s s' : ParseState}
    {scopes : List Scope} {path : List String} {closed : List Element}
    {events : List (FeedBytes × Markup)} {out : List ParsedEvent}
    (hs : p.Standing s (⟨path, closed⟩ :: scopes))
    (hevents : events.map Prod.snd = markupAll elements)
    (h : p.drain s events = .ok (s', out)) :
    p.Walked s s' (⟨path, closed ++ elements⟩ :: scopes) (p.recordsAmong scopes path closed elements)
        out ∧ p.SubchainsNamedAmong scopes path closed elements := by
  match elements with
  | [] =>
    obtain rfl := List.map_eq_nil_iff.mp hevents
    cases h
    rw [List.append_nil]
    exact ⟨⟨hs, rfl, rfl, rfl, rfl⟩, trivial⟩
  | element :: elements =>
    obtain ⟨first, later, rfl, hfirst, hlater⟩ := List.map_eq_append_iff.mp hevents
    obtain ⟨s₁, out₁, out₂, h₁, h₂, rfl⟩ := drain_append h
    obtain ⟨hwalked₁, hnamed₁⟩ :=
      walk_element hp element hs (hs.context (List.cons_ne_nil _ _)) hfirst h₁
    obtain ⟨hwalked₂, hnamed₂⟩ := walk_siblings hp elements hwalked₁.standing hlater h₂
    rw [List.append_assoc, List.singleton_append] at hwalked₂
    exact ⟨hwalked₁.trans hwalked₂, hnamed₁, hnamed₂⟩

end

/-- The state before the first event stands in no scope. -/
theorem standing_init (findings : SchemaFindings) : p.Standing (init findings) [] := by
  refine ⟨rfl, rfl, rfl, fun hne => absurd rfl hne, rfl, ?_, ?_⟩
  · intro depth h
    cases h
  · intro h
    cases h

end Makolet.Parsing.ParserSettings
