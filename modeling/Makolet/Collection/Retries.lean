import Makolet.Collection.Bootstrap
import Makolet.Collection.Stops

/-!
# Which terminal files an attempt takes up again

`begin_attempt` sets the retry flag by the status and the boundary of the generation's latest
attempt. The flag lets one terminal file through, the one listed at the boundary. That attempt need
not have stopped at this file: it may have failed in the listing, at the end of a page, or after it
passed the file before, and a quarantined file fails again.

`World.RetriesExactly` says which terminal files the attempts of a run passed to the ingestion.
-/

set_option autoImplicit false

namespace Makolet.Collection

open Makolet.Domain Makolet.Lib Makolet.Lib.Table Makolet.Ingestion Makolet.Normalized

/-! ## The claim of a call -/

/-- The latest earlier attempt stopped at the boundary, and its last call was for the file. -/
def Start.StoppedAt (st : Start) (cursor : Cursor) (index : Nat) (f : FileId) : Prop :=
  (st.prior.any fun a => decide (a.cursor = cursor ∧ a.pageOffset = index ∧
    st.lastCall = some ⟨a.id, cursor, index, f⟩)) = true

/-- A file that was terminal before the attempt is taken up again only where the latest earlier
attempt stopped at it, and not if it is quarantined or failed for good. -/
def Start.MayTake (st : Start) (archiveOnly : Bool) (cursor : Cursor) (index : Nat) (f : FileId) :
    Prop :=
  isTerminal st.files f archiveOnly = true →
    st.StoppedAt cursor index f ∧
      statusOf st.files f ∉ [some IngestionStatus.quarantined, some .failedTerminal]

instance (st : Start) (archiveOnly : Bool) (cursor : Cursor) (index : Nat) (f : FileId) :
    Decidable (st.MayTake archiveOnly cursor index f) :=
  inferInstanceAs (Decidable (_ → (_ = _) ∧ _))

/-- The calls of all attempts so far. -/
def World.RetriesExactly (w : World) : Prop :=
  ∀ call ∈ w.shared.history.calls, ∀ scope ∈ w.shared.traversals.scopeOf call.attempt,
    ∀ st ∈ w.shared.history.starts call.attempt,
      st.MayTake scope.archiveOnly call.cursor call.index call.file

instance (w : World) : Decidable w.RetriesExactly :=
  inferInstanceAs (Decidable
    (∀ call ∈ w.shared.history.calls, ∀ scope ∈ w.shared.traversals.scopeOf call.attempt,
      ∀ st ∈ w.shared.history.starts call.attempt,
        st.MayTake scope.archiveOnly call.cursor call.index call.file))

/-! ## When the flag is stale -/

/-- The predecessor of an attempt did not stop at the file, or stopped at its recorded failure. -/
def Start.Stale (st : Start) (f : FileId) : Prop :=
  match st.progress with
  | none => False
  -- It had not called the ingestion where it began: it failed in the listing.
  | some .begun => True
  -- It had advanced past a file, by success, by a skip or in the handler.
  | some .passed => True
  -- It had come to another page.
  | some .turned => True
  -- The publisher lists another file there, or no advance followed the recorded failure.
  | some (.called g) => f ≠ g ∨
      statusOf st.files g ∈ [some IngestionStatus.quarantined, some .failedTerminal]

instance (st : Start) (f : FileId) : Decidable (st.Stale f) := by
  unfold Start.Stale
  split <;> infer_instance

/-- The flag of a collector is stale for a listed file. It survives a turn of the page. -/
def Collector.Stale (s : Shared) (c : Collector) (st : Start) (f : FileId) : Prop :=
  s.history.progress c.attemptId = some .turned ∨ st.Stale f

instance (s : Shared) (c : Collector) (st : Start) (f : FileId) : Decidable (c.Stale s st f) :=
  inferInstanceAs (Decidable (_ ∨ _))

/-- No page that is listed under a stale flag has a file at the offset that was terminal before the
attempt. -/
def ListsFresh (w : World) : CollectionEvent → Prop
  | .reply p (.ok (.page page)) => ∀ c ∈ w.collectors p, c.pc = .discover →
      c.retryBoundary = true → ∀ remote ∈ page.files[c.pageOffset]?,
        ∀ st ∈ w.shared.history.starts c.attemptId,
          isTerminal st.files remote.fileId c.scope.archiveOnly = true →
            ¬ c.Stale w.shared st remote.fileId
  | _ => True

instance (w : World) : (e : CollectionEvent) → Decidable (ListsFresh w e)
  | .reply p (.ok (.page page)) =>
    inferInstanceAs (Decidable (∀ c ∈ w.collectors p, c.pc = .discover →
      c.retryBoundary = true → ∀ remote ∈ page.files[c.pageOffset]?,
        ∀ st ∈ w.shared.history.starts c.attemptId,
          isTerminal st.files remote.fileId c.scope.archiveOnly = true →
            ¬ c.Stale w.shared st remote.fileId))
  | .reply _ (.ok .done) => instDecidableTrue
  | .reply _ (.ok (.readings _)) => instDecidableTrue
  | .reply _ (.raise _) => instDecidableTrue
  | .reply _ (.lost _ _) => instDecidableTrue
  | .collect _ _ => instDecidableTrue
  | .ingest _ _ => instDecidableTrue
  | .die _ => instDecidableTrue
  | .recover _ => instDecidableTrue
  | .loseLease => instDecidableTrue

/-- Behind a call of the file, a predecessor that stood at the boundary stopped at the file. -/
theorem Start.Sound.mayTake {st : Start} (h : st.Sound) {a : Attempt} {cursor : Cursor}
    {index : Nat} {f : FileId} {archiveOnly : Bool} (hprior : st.prior = some a)
    (hcursor : a.cursor = cursor) (hindex : a.pageOffset = index)
    (hfresh : isTerminal st.files f archiveOnly = true → ¬ st.Stale f) :
    st.MayTake archiveOnly cursor index f := by
  intro hterminal
  have hfresh := hfresh hterminal
  -- Only a call of this file that it does not fail again leaves the flag fresh.
  unfold Start.Stale at hfresh
  split at hfresh
  · rename_i hnone
    exact absurd hnone (h.known (by rw [hprior]; exact Option.some_ne_none a))
  · exact absurd trivial hfresh
  · exact absurd trivial hfresh
  · exact absurd trivial hfresh
  · rename_i g hcalled
    obtain ⟨hfile, hstatus⟩ := not_or.mp hfresh
    cases not_not.mp hfile
    obtain ⟨b, hb, hlast⟩ := h.called f hcalled
    cases hprior.symm.trans hb
    refine ⟨?_, hstatus⟩
    rw [Start.StoppedAt, hprior, Option.any_some, decide_eq_true_iff]
    exact ⟨hcursor, hindex, by rw [hlast, hcursor, hindex]⟩

/-- A flagged listing that is fresh offers a file that may be taken. -/
theorem Collector.Flagged.mayTake {s : Shared} {c : Collector} (h : c.Flagged s) (hs : s.Stopped)
    (hdiscover : c.pc = .discover) (hretry : c.retryBoundary = true) {st : Start}
    (hst : s.history.starts c.attemptId = some st) {f : FileId}
    (hfresh : isTerminal st.files f c.scope.archiveOnly = true → ¬ c.Stale s st f) :
    st.MayTake c.scope.archiveOnly c.cursor c.pageOffset f := by
  rcases h hdiscover with hturned | hboundary
  · exact fun hterminal => absurd (.inl hturned) (hfresh hterminal)
  · obtain ⟨st', hst', a, hprior, hcursor, hindex⟩ := hboundary hretry
    cases hst'.symm.trans hst
    exact (hs.starts _ st hst).mayTake hprior hcursor hindex
      fun hterminal hstale => hfresh hterminal (.inr hstale)

/-! ## What a collector carries to its call -/

/-- What the awaited operation says of the file it is about. -/
def Collector.Takes (st : Start) (c : Collector) : CollectorPc → Prop
  | .head page index => c.retryBoundary = true → ∀ remote, page.files[index]? = some remote →
      st.MayTake c.scope.archiveOnly c.cursor index remote.fileId
  | .checkTerminal slot => c.retryBoundary = true →
      st.MayTake c.scope.archiveOnly c.cursor slot.index slot.file
  | .chargeBudget slot _ | .register slot _ _ | .reserve slot _ _ | .call slot _ _ =>
    st.MayTake c.scope.archiveOnly c.cursor slot.index slot.file
  | _ => True

/-- An active collector has a recorded start, and its next call may be made. -/
def Collector.Retrying (s : Shared) (c : Collector) : Prop :=
  c.pc.active = true → ∃ st, s.history.starts c.attemptId = some st ∧ c.Takes st c.pc

/-- The history of a world fits its files. -/
structure Shared.Recorded (s : Shared) : Prop where
  scopes : ∀ call ∈ s.history.calls, ∃ scope, s.traversals.scopeOf call.attempt = some scope
  /-- What was terminal when an attempt began is terminal. -/
  terminal : ∀ a st, s.history.starts a = some st → ∀ f archiveOnly,
    isTerminal st.files f archiveOnly = true → isTerminal s.files f archiveOnly = true

section Step

variable {config : Config} {s s' : Shared} {c c' : Collector} {pc : CollectorPc}

/-- A collector records the start of its own new attempt only. -/
theorem Collector.Acts.starts (h : c.Acts config s pc s' c') (hpc : pc ≠ .begin) :
    s'.history.starts = s.history.starts := by
  cases h.writes with
  | begin => exact absurd rfl hpc
  | _ => rfl

/-- A collector records its own calls. -/
theorem Collector.Acts.calls (h : c.Acts config s pc s' c') :
    s'.history.calls = s.history.calls ∨ ∃ slot reserved retrying,
      pc = .call slot reserved retrying ∧ s'.traversals = s.traversals ∧
        s'.history.calls = ⟨c.attemptId, c.cursor, slot.index, slot.file⟩ :: s.history.calls := by
  cases h.writes with
  | call hlife => exact .inr ⟨_, _, _, rfl, rfl, rfl⟩
  | _ => exact .inl rfl

theorem Collector.act_discover {input : CollectorInput} (hpc : c.pc = .discover)
    (hact : c.act config s input = some (.ok (s', c'))) :
    ∃ page, input = .page page ∧ s' = s ∧ c' = c.goto (.head page c.pageOffset) := by
  unfold Collector.act at hact
  rw [hpc] at hact
  cases input with
  | page page =>
    obtain ⟨c₁, hopen, heq⟩ := map_eq_ok.mp (Option.some.inj hact)
    cases heq
    obtain ⟨-, hopen⟩ := require_bind_eq_ok.mp hopen
    obtain ⟨-, hopen⟩ := require_bind_eq_ok.mp hopen
    cases hopen
    exact ⟨page, rfl, rfl, rfl⟩
  | done => cases hact
  | readings r => cases hact

/-- An operation but the listing keeps what the collector carries. -/
theorem Collector.Acts.takes (h : c.Acts config s pc s' c') (hpc : c.pc = pc)
    (hbegin : pc ≠ .begin) (hdiscover : pc ≠ .discover) (hrec : s.Recorded) {st : Start}
    (hst : s.history.starts c.attemptId = some st) (htakes : c.Takes st pc) :
    c'.Takes st c'.pc := by
  cases h with
  | begin => exact absurd rfl hbegin
  | discover => exact absurd rfl hdiscover
  | head hselect =>
    rcases Collector.select_cases hselect with
      ⟨-, rfl⟩ | rfl | ⟨slot, rfl, rfl, -, ⟨-, rfl⟩ | ⟨-, rfl⟩⟩
    · exact trivial
    · exact trivial
    · exact trivial
    · exact fun hretry => htakes hretry slot.remote slot.listed
  | advance hslot hadvance hnext =>
    -- The advance takes the flag away.
    cases hnext with
    | bounded => exact trivial
    | error => exact trivial
    | unknown => intro hretry; cases hretry
    | skip => intro hretry; cases hretry
    | done => intro hretry; cases hretry
  | @checkTerminal slot =>
    rcases c.decide_cases config slot (isTerminal s.files slot.file c.scope.archiveOnly) with
      ⟨-, h⟩ | h | ⟨hflag, h⟩
    · rw [h]
      exact trivial
    · rw [h]
      exact trivial
    · rw [h]
      intro hterminal
      exact htakes (hflag (hrec.terminal _ st hst _ _ hterminal)) hterminal
  | @chargeBudget slot alreadyTerminal r _ budget hok =>
    rcases c.budgeted_cases config slot alreadyTerminal budget with h | ⟨-, -, h⟩ | ⟨-, -, h⟩
    · rw [h]
      exact trivial
    · rw [h]
      exact htakes
    · rw [h]
      exact htakes
  | register hok => exact htakes
  | reserve hok => exact htakes
  | call hcall => exact trivial
  | processed hingest hreturned => exact trivial
  | @raised slot ingest e hingest hreturned =>
    rcases c.raise_cases slot e false with h | h | ⟨-, h⟩ | ⟨-, h⟩
    all_goals rw [h]; exact trivial
  | @settle pc slot transferred r _ budget hsettles hok =>
    cases pc with
    | settle slot' result =>
      simp only [Collector.settledBy]
      split <;> exact trivial
    | errorSettle slot' transferred' pending => cases pending <;> exact trivial
    | budgetSettle slot' transferred' => exact trivial
    | _ => cases hsettles
  | bootstrap => exact trivial
  | noteTerminal hterminal => exact trivial
  | observe hstatus hobserve => exact trivial
  | errorCheck =>
    dsimp only [Collector.goto]
    split <;> exact trivial
  | lastPage hadvance => exact trivial
  | nextPage hadvance hnext => rcases hnext with rfl | rfl <;> exact trivial
  | finish hok => exact trivial

theorem Collector.handle_takes {e : Failure} {st : Start} (h : c.handle e = some c') :
    c'.Takes st c'.pc := by
  rcases Collector.handle_cases h with rfl | ⟨status, -, rfl⟩ | ⟨slot, pending, -, rfl⟩
  · exact trivial
  · exact trivial
  · rcases c.raise_cases slot e pending with h | h | ⟨-, h⟩ | ⟨-, h⟩
    all_goals rw [h]; exact trivial

end Step

/-! ## Runs -/

theorem Traversals.Ordered.lt_of_scopeOf {t : Traversals} (h : t.Ordered) {a : AttemptId}
    {scope : CollectionScope} (ha : t.scopeOf a = some scope) : a < t.attempts.length := by
  obtain ⟨boundary, hboundary⟩ := Traversals.boundaryOf_of_scopeOf ha
  exact h.lt_of_boundaryOf hboundary

structure World.Retrying (w : World) : Prop where
  recorded : w.shared.Recorded
  exact : w.RetriesExactly
  collectors : ∀ p c, w.collectors p = some c → c.Retrying w.shared

section Runs

variable {config : Config} {policy : IngestionPolicy} {w w' : World} {s : Shared} {c c' : Collector}
  {p : ProcessId} {pc : CollectorPc}

/-- The starts of the attempts that there are do not change. -/
theorem Collector.Acts.starts_of_scope (h : c.Acts config w.shared pc s c') (hown : w.Attached)
    {a : AttemptId} {scope : CollectionScope}
    (ha : w.shared.traversals.scopeOf a = some scope) :
    s.history.starts a = w.shared.history.starts a := by
  by_cases hbegin : pc = .begin
  · rw [hbegin] at h
    obtain ⟨rfl, -⟩ := h.begin_eq
    have hlt := hown.ordered.lt_of_scopeOf ha
    exact Function.update_of_ne (Nat.ne_of_lt hlt) _ _
  · rw [h.starts hbegin]

theorem Collector.Acts.recorded (h : c.Acts config w.shared pc s c') (hpc : c.pc = pc)
    (hc : w.collectors p = some c) (hown : w.Attached) (hret : w.Retrying) : s.Recorded where
  scopes := by
    intro call hcall
    rcases h.calls with hsame | ⟨slot, reserved, retrying, hslot, htraversals, hcons⟩
    · rw [hsame] at hcall
      obtain ⟨scope, hscope⟩ := hret.recorded.scopes call hcall
      exact ⟨scope, hown.ordered.scopeOf_change h.traversals hscope⟩
    · rw [hcons] at hcall
      rw [htraversals]
      rcases List.mem_cons.mp hcall with rfl | hold
      · exact ⟨c.scope, hown.scope p c hc (by rw [hpc, hslot]; rfl)⟩
      · exact hret.recorded.scopes call hold
  terminal := by
    intro a st hst f archiveOnly hterminal
    refine RowChange.isTerminal (h.row f) ?_
    by_cases hbegin : pc = .begin
    · subst hbegin
      obtain ⟨rfl, -⟩ := h.begin_eq
      by_cases hnew : a = (w.shared.begin c.scope).2.attemptId
      · subst hnew
        have hself := Function.update_self (f := w.shared.history.starts)
          (w.shared.begin c.scope).2.attemptId
        have hst' := (hself _).symm.trans hst
        cases hst'
        exact hterminal
      · have hold := (Function.update_of_ne hnew _ w.shared.history.starts).symm.trans hst
        exact hret.recorded.terminal a st hold f archiveOnly hterminal
    · rw [h.starts hbegin] at hst
      exact hret.recorded.terminal a st hst f archiveOnly hterminal

theorem Collector.Acts.retriesExactly (h : c.Acts config w.shared pc s c') (hpc : c.pc = pc)
    (hc : w.collectors p = some c) (hown : w.Attached) (hret : w.Retrying)
    {lease : Option ProcessId} {collectors : ProcessId → Option Collector} :
    World.RetriesExactly ⟨s, lease, collectors⟩ := by
  intro call hcall scope hscope st hst
  have hscope : s.traversals.scopeOf call.attempt = some scope := hscope
  have hst : s.history.starts call.attempt = some st := hst
  have hold : call ∈ w.shared.history.calls →
      st.MayTake scope.archiveOnly call.cursor call.index call.file := by
    intro hmem
    obtain ⟨before, hbefore⟩ := hret.recorded.scopes call hmem
    have hkept := hown.ordered.scopeOf_change h.traversals hbefore
    cases hkept.symm.trans hscope
    rw [h.starts_of_scope hown hbefore] at hst
    exact hret.exact call hmem scope hbefore st hst
  rcases h.calls with hsame | ⟨slot, reserved, retrying, hslot, htraversals, hcons⟩
  · exact hold (hsame ▸ hcall)
  · have hcall : call ∈ s.history.calls := hcall
    rw [hcons] at hcall
    rcases List.mem_cons.mp hcall with rfl | hmem
    · have hactive : c.pc.active = true := by
        rw [hpc, hslot]
        rfl
      have hown' := hown.scope p c hc hactive
      rw [htraversals] at hscope
      cases hown'.symm.trans hscope
      obtain ⟨st', hst', htakes⟩ := hret.collectors p c hc hactive
      rw [h.starts (by rw [hslot]; exact CollectorPc.noConfusion)] at hst
      cases hst'.symm.trans hst
      rw [hpc, hslot] at htakes
      exact htakes
    · exact hold hmem

/-- The acting collector, whatever became of its operation. -/
theorem Collector.Retrying.step {r : Reply CollectorInput Fault} (hc : w.collectors p = some c)
    (hown : w.Attached) (hstop : w.Stopped) (hret : w.Retrying) (hok : ListsFresh w (.reply p r))
    (hstep : (collectorProgram config).step w.shared c r = some (s, c')) : c'.Retrying s := by
  have hself := hret.collectors p c hc
  rcases Program.step_cases hstep with ⟨i, rfl, hact⟩ | ⟨e, he, rfl, -⟩ | ⟨i, f, next, -, hact, he⟩
  · have hacts := Collector.acts_of_act hact
    rcases hacts.active_or_begin with hactive | hbegin
    · intro _
      have hne : c.pc ≠ .begin := by
        intro hbegin
        rw [hbegin] at hactive
        cases hactive
      obtain ⟨st, hst, htakes⟩ := hself hactive
      refine ⟨st, ?_, ?_⟩
      · rw [(hacts.same hne).attempt, hacts.starts hne]
        exact hst
      -- A listing is fresh by the condition; every other operation keeps what is known.
      · by_cases hdiscover : c.pc = .discover
        · obtain ⟨page, rfl, rfl, rfl⟩ := Collector.act_discover hdiscover hact
          intro hretry remote hremote
          exact (hstop.flagged p c hc).mayTake hstop.shared hdiscover hretry hst
            fun hterminal => hok c hc hdiscover hretry remote hremote st hst hterminal
        · exact hacts.takes rfl hne hdiscover hret.recorded hst htakes
    · intro _
      rw [hbegin] at hacts
      obtain ⟨rfl, rfl⟩ := hacts.begin_eq
      exact ⟨_, Function.update_self _ _ _, trivial⟩
  · intro hactive
    obtain ⟨st, hst, -⟩ := hself (Collector.handle_active he hactive)
    exact ⟨st, by rw [(Collector.handle_same he).attempt]; exact hst, Collector.handle_takes he⟩
  · intro hactive
    have hactive := Collector.handle_active he hactive
    obtain ⟨st, hst, -⟩ := hself hactive
    refine ⟨st, ?_, Collector.handle_takes he⟩
    rw [(Collector.handle_same he).attempt,
      (Collector.acts_of_act hact).starts_of_scope hown (hown.scope p c hc hactive)]
    exact hst

theorem World.Retrying.reply {r : Reply CollectorInput Fault} {lease : Option ProcessId}
    (h : w.Retrying) (hown : w.Attached) (hstop : w.Stopped) (hc : w.collectors p = some c)
    (hok : ListsFresh w (.reply p r))
    (hstep : (collectorProgram config).step w.shared c r = some (s, c')) :
    World.Retrying ⟨s, lease, Function.update w.collectors p (some c')⟩ := by
  have hself := Collector.Retrying.step hc hown hstop h hok hstep
  rcases Program.step_durable hstep with rfl | ⟨i, next, hact⟩
  · refine ⟨h.recorded, h.exact, ?_⟩
    intro q d hd
    rcases update_some_eq_some hd with ⟨rfl, rfl⟩ | ⟨-, hd⟩
    · exact hself
    · exact h.collectors q d hd
  · have hacts := Collector.acts_of_act hact
    refine ⟨hacts.recorded rfl hc hown h, hacts.retriesExactly rfl hc hown h, ?_⟩
    intro q d hd
    rcases update_some_eq_some hd with ⟨rfl, rfl⟩ | ⟨-, hd⟩
    · exact hself
    · intro hactive
      obtain ⟨st, hst, htakes⟩ := h.collectors q d hd hactive
      exact ⟨st, (hacts.starts_of_scope hown (hown.scope q d hd hactive)).trans hst, htakes⟩

/-- An event of the ingest calls leaves the history and keeps what is terminal. -/
theorem World.Retrying.life (h : w.Retrying) {life : Lifecycle}
    (hrow : ∀ f, RowChange (w.shared.files f) (life.store.files f)) :
    World.Retrying { w with shared := { w.shared with life := life } } where
  recorded :=
    { scopes := h.recorded.scopes
      terminal := by
        intro a st hst f archiveOnly hterminal
        exact RowChange.isTerminal (hrow f) (h.recorded.terminal a st hst f archiveOnly hterminal) }
  exact := h.exact
  collectors := h.collectors

theorem World.Retrying.next {e : CollectionEvent} (h : w.Retrying) (hown : w.Attached)
    (hstop : w.Stopped) (hok : ListsFresh w e) (hnext : w.next config policy e = some w') :
    w'.Retrying := by
  cases World.moves_of_next hnext with
  | collect hfree hidle =>
    refine ⟨h.recorded, h.exact, ?_⟩
    intro q d hd
    rcases update_some_eq_some hd with ⟨rfl, rfl⟩ | ⟨-, hd⟩
    · intro hactive
      cases hactive
    · exact h.collectors q d hd
  | reply hc hstep => exact h.reply hown hstop hc hok hstep
  | ingest hlife => exact h.life (Lifecycle.next_row hlife)
  | die hlife =>
    have hkept := h.life (Lifecycle.next_row hlife)
    exact ⟨hkept.recorded, hkept.exact,
      fun q d hd => hkept.collectors q d (collectors_of_update_none hd)⟩
  | recover hlife => exact h.life (Lifecycle.next_row hlife)
  | loseLease => exact ⟨h.recorded, h.exact, h.collectors⟩

/-- In a run without a terminal file under a stale flag, no attempt passes to the ingestion a file
that was terminal before it, but the one its predecessor stopped at, and none that is quarantined or
failed for good. -/
theorem retries_exactly (h : Reach (collectionSystem config policy) ListsFresh w) :
    w.RetriesExactly := by
  have hret : w.Retrying := by
    refine h.invariant_of (P := World.Retrying) ?_ ?_
    · rintro w ⟨clock, rfl⟩
      refine ⟨⟨?_, ?_⟩, ?_, ?_⟩
      · intro call hcall
        cases hcall
      · intro a st hst
        cases hst
      · intro call hcall
        cases hcall
      · intro p c hc
        cases hc
    · intro w e w' hreach hw hok hnext
      exact hw.next (world_attached hreach) (world_stopped hreach) hok hnext
  exact hret.exact

end Runs

/-! ## Sample runs -/

/-- The run of a process that died between the completed ingest and the settlement: the next attempt
takes the completed file up again. -/
theorem retries_exactly_sample :
    World.RetriesExactly ((collectionSystem sampleConfig ⟨4⟩).afterChecked ListsFresh (.start 0)
        interruptedCollection) ∧
      ((collectionSystem sampleConfig ⟨4⟩).afterChecked ListsFresh (.start 0)
        interruptedCollection).shared.history.calls.map Call.attempt = [1, 0] := by
  refine ⟨retries_exactly (reach_afterChecked _ ⟨0, rfl⟩ ?_), ?_⟩
  · decide +kernel
  · decide +kernel

/-- The sample file is collected to the end of its generation. The first attempt of the next one
fails in the listing, and the second one is called for the completed file. -/
def listingFailureEvents : List CollectionEvent :=
  collectionEvents ++ [.reply 0 (.ok .done), .reply 0 (.ok .done), .reply 0 (.ok .done),
    .collect 1 sampleScope, .reply 1 (.ok .done),
    .reply 1 (.raise ⟨.sourceAccess, "Source listing could not be read"⟩), .reply 1 (.ok .done),
    .collect 2 sampleScope] ++ (callReplies sampleRemote 2).map (.reply 2)

/-- The attempt that failed in the listing made no call. -/
theorem listing_failure_retries_completed_file :
    ∃ w, Reach (collectionSystem sampleConfig ⟨4⟩) Any w ∧ ¬ w.RetriesExactly ∧
      w.shared.history.calls.map Call.attempt = [2, 0] := by
  refine ⟨_, reach_after listingFailureEvents ⟨0, rfl⟩ ?_, ?_, ?_⟩
  · decide +kernel
  · decide +kernel
  · decide +kernel

end Makolet.Collection
