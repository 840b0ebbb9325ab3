import Makolet.Ingestion.Calls
import Makolet.Collection.Checkpoint

/-!
# Collectors and their ingest calls

A process runs at most one ingest call, the one that its collector waits for. While the collector
does anything else the call of its process has returned.
-/

set_option autoImplicit false

namespace Makolet.Collection

open Makolet.Domain Makolet.Lib Makolet.Lib.Table Makolet.Ingestion Makolet.Normalized

/-- An ingest that has returned takes no step. -/
theorem ingest_step_returned {policy : IngestionPolicy} {s s' : Store} {c c' : Ingest}
    {r : Reply IngestInput Fault} (h : (ingestProgram policy).step s c r = some (s', c'))
    {o : Outcome} (hpc : c.pc = .returned o) : False := by
  rcases Program.step_cases h with ⟨i, -, hact⟩ | ⟨e, he, -⟩ | ⟨i, f, next, -, -, he⟩
  · have hacts := Ingest.acts_of_act hact
    rw [hpc] at hacts
    cases hacts with
    | move hguard => cases hguard
  · simp only [ingestProgram, Ingest.handle, hpc] at he
    cases he
  · simp only [ingestProgram, Ingest.handle, hpc] at he
    cases he

/-- The ingest call of the collector's process fits what the collector awaits. -/
def Collector.Calling (life : Lifecycle) (c : Collector) : Prop :=
  match c.pc with
  | .process slot => ∃ ingest, life.ingests c.owner = some ingest ∧
      ingest.archiveOnly = c.scope.archiveOnly ∧ ingest.remote = slot.remote
  | _ => ∀ ingest, life.ingests c.owner = some ingest → ∃ outcome, ingest.pc = .returned outcome

structure World.Calling (w : World) : Prop where
  mode : ∀ p ingest, w.shared.life.ingests p = some ingest →
    ingest.pc.inMode ingest.archiveOnly = true
  hosted : ∀ p ingest, w.shared.life.ingests p = some ingest → ∃ c, w.collectors p = some c
  calling : ∀ p c, w.collectors p = some c → c.Calling w.shared.life

section Calling

variable {config : Config} {policy : IngestionPolicy} {s s' : Shared} {c c' : Collector}
  {pc : CollectorPc} {life life' : Lifecycle}

/-- Outside of `process` a collector has no call under way. -/
theorem Collector.Calling.quiet (h : c.Calling life) (hpc : ∀ slot, c.pc ≠ .process slot)
    {ingest : Ingest} (hi : life.ingests c.owner = some ingest) :
    ∃ outcome, ingest.pc = .returned outcome := by
  unfold Collector.Calling at h
  split at h
  · rename_i slot hslot
    exact absurd hslot (hpc slot)
  · exact h ingest hi

theorem Collector.Calling.of_quiet (hpc : ∀ slot, c.pc ≠ .process slot)
    (h : ∀ ingest, life.ingests c.owner = some ingest → ∃ outcome, ingest.pc = .returned outcome) :
    c.Calling life := by
  unfold Collector.Calling
  split
  · rename_i slot hslot
    exact absurd hslot (hpc slot)
  · exact h

/-- The calls of other processes do not matter. -/
theorem Collector.Calling.frame (h : c.Calling life)
    (heq : life'.ingests c.owner = life.ingests c.owner) : c.Calling life' := by
  unfold Collector.Calling at h ⊢
  rw [heq]
  exact h

theorem Collector.Calling.in_call {slot : Slot} (h : c.Calling life) (hpc : c.pc = .process slot) :
    ∃ ingest, life.ingests c.owner = some ingest ∧
      ingest.archiveOnly = c.scope.archiveOnly ∧ ingest.remote = slot.remote := by
  unfold Collector.Calling at h
  rw [hpc] at h
  exact h

/-- A step of an ingest keeps the call it belongs to. -/
theorem Collector.Calling.ingest (h : c.Calling life) {p : ProcessId} {r : Reply IngestInput Fault}
    (hnext : life.next policy (.reply p r) = some life') : c.Calling life' := by
  obtain ⟨d, store, d', hd, hstep, rfl⟩ := Lifecycle.reply_eq_some hnext
  by_cases hp : c.owner = p
  · subst hp
    have hsame := Ingest.step_same hstep
    unfold Collector.Calling at h ⊢
    split at h
    · obtain ⟨ingest, hi, honly, hremote⟩ := h
      cases hd.symm.trans hi
      exact ⟨d', Function.update_self _ _ _, hsame.archiveOnly.trans honly,
        hsame.remote.trans hremote⟩
    · obtain ⟨outcome, hpc⟩ := h d hd
      exact (ingest_step_returned hstep hpc).elim
  · exact h.frame (Function.update_of_ne hp _ _)

theorem Collector.raise_not_process (c : Collector) (slot : Slot) (e : Failure) (pending : Bool)
    (slot' : Slot) : (c.raise slot e pending).pc ≠ .process slot' := by
  rcases c.raise_cases slot e pending with h | h | ⟨-, h⟩ | ⟨-, h⟩
  all_goals rw [h]; exact CollectorPc.noConfusion

theorem Collector.handle_not_process {e : Failure} (h : c.handle e = some c') :
    (∀ slot, c.pc ≠ .process slot) ∧ ∀ slot, c'.pc ≠ .process slot := by
  refine ⟨?_, ?_⟩
  · intro slot hpc
    rw [Collector.handle, hpc] at h
    cases h
  · intro slot
    rcases Collector.handle_cases h with rfl | ⟨status, -, rfl⟩ | ⟨slot', pending, -, rfl⟩
    · exact CollectorPc.noConfusion
    · exact CollectorPc.noConfusion
    · exact c.raise_not_process slot' e pending slot

/-- An operation other than the start of a call leaves the ingests alone and does not lead into a
call. -/
theorem Collector.Acts.ingests (h : c.Acts config s pc s' c') :
    (∃ slot reserved retrying, pc = .call slot reserved retrying ∧ c' = c.goto (.process slot) ∧
        ∃ life, s.life.start c.owner slot.remote c.scope.archiveOnly
            (config.ingestionByteLimit reserved retrying) = some life ∧ s'.life = life) ∨
      (s'.life.ingests = s.life.ingests ∧ ∀ slot, c'.pc ≠ .process slot) := by
  have hcharge : ∀ {call : ChargeCall} {r : Readings} {budget : ChargeBudget},
      s.charge config c call r = some (.ok (s', budget)) → s'.life.ingests = s.life.ingests := by
    intro call r budget hok
    obtain ⟨-, -, l, -, rfl⟩ := Shared.charge_eq_ok hok
    rfl
  cases h with
  | head hselect =>
    refine .inr ⟨rfl, fun slot => ?_⟩
    rcases Collector.select_cases hselect with
      ⟨-, rfl⟩ | rfl | ⟨slot', -, -, -, ⟨-, rfl⟩ | ⟨-, rfl⟩⟩
    all_goals exact CollectorPc.noConfusion
  | advance hslot hadvance hnext =>
    obtain ⟨traversals, -, rfl⟩ := Shared.advanceFile_eq_ok hadvance
    refine .inr ⟨rfl, fun slot => ?_⟩
    cases hnext <;> exact CollectorPc.noConfusion
  | @checkTerminal slot =>
    refine .inr ⟨rfl, fun slot' => ?_⟩
    rcases c.decide_cases config slot (isTerminal s.files slot.file c.scope.archiveOnly) with
      ⟨-, h⟩ | h | ⟨-, h⟩
    all_goals rw [h]; exact CollectorPc.noConfusion
  | chargeBudget hok =>
    refine .inr ⟨hcharge hok, fun slot' => ?_⟩
    rcases c.budgeted_cases config _ _ _ with h | ⟨-, -, h⟩ | ⟨-, -, h⟩
    all_goals rw [h]; exact CollectorPc.noConfusion
  | register hreg =>
    obtain ⟨files, -, rfl⟩ := map_eq_ok.mp hreg
    exact .inr ⟨rfl, fun slot => CollectorPc.noConfusion⟩
  | reserve hok => exact .inr ⟨hcharge hok, fun slot => CollectorPc.noConfusion⟩
  | call hcall =>
    obtain ⟨life, hlife, rfl⟩ := Shared.startCall_eq_some hcall
    exact .inl ⟨_, _, _, rfl, rfl, life, hlife, rfl⟩
  | raised hingest hreturned => exact .inr ⟨rfl, c.raise_not_process _ _ _⟩
  | @settle pc slot transferred _ _ budget hpc hok =>
    refine .inr ⟨hcharge hok, fun slot' => ?_⟩
    cases pc with
    | settle slot result =>
      simp only [Collector.settledBy]
      split <;> exact CollectorPc.noConfusion
    | errorSettle slot transferred pending =>
      cases pending <;> exact CollectorPc.noConfusion
    | budgetSettle slot transferred => exact CollectorPc.noConfusion
    | _ => cases hpc
  | bootstrap =>
    refine .inr ⟨?_, fun slot => CollectorPc.noConfusion⟩
    split <;> rfl
  | @errorCheck slot =>
    refine .inr ⟨rfl, fun slot' => ?_⟩
    dsimp only [Collector.goto]
    split <;> exact CollectorPc.noConfusion
  | lastPage hadvance =>
    obtain ⟨traversals, -, rfl⟩ := Shared.advanceTo_eq_ok hadvance
    exact .inr ⟨rfl, fun slot => CollectorPc.noConfusion⟩
  | nextPage hadvance hpc =>
    obtain ⟨traversals, -, rfl⟩ := Shared.advanceTo_eq_ok hadvance
    refine .inr ⟨rfl, fun slot => ?_⟩
    rcases hpc with rfl | rfl <;> exact CollectorPc.noConfusion
  | _ => exact .inr ⟨rfl, fun slot => CollectorPc.noConfusion⟩

/-- A collector leaves its call when the ingest has returned. -/
theorem Collector.Acts.returned {slot : Slot} (h : c.Acts config s (.process slot) s' c')
    {ingest : Ingest} (hi : s.life.ingests c.owner = some ingest) :
    ∃ outcome, ingest.pc = .returned outcome := by
  cases h with
  | advance hslot => cases hslot
  | processed hingest hreturned =>
    cases hi.symm.trans hingest
    exact ⟨_, hreturned⟩
  | raised hingest hreturned =>
    cases hi.symm.trans hingest
    exact ⟨_, hreturned⟩
  | settle hpc => cases hpc
  | observe _ hpc => rcases hpc with hpc | hpc <;> cases hpc

theorem World.Calling.reply {w : World} {p : ProcessId} {r : Reply CollectorInput Fault}
    {lease : Option ProcessId} (h : w.Calling)
    (hown : ∀ q d, w.collectors q = some d → d.owner = q) (hc : w.collectors p = some c)
    (hstep : (collectorProgram config).step w.shared c r = some (s', c')) :
    World.Calling ⟨s', lease, Function.update w.collectors p (some c')⟩ := by
  have hcalling := h.calling p c hc
  have howner := hown p c hc
  -- Either the step starts the call of the process, or it leaves the calls alone.
  have hcases : (∃ slot limit, c'.pc = .process slot ∧ c'.owner = p ∧
        c'.scope.archiveOnly = c.scope.archiveOnly ∧ s'.life.ingests = Function.update
          w.shared.life.ingests p (some (Ingest.start p slot.remote c.scope.archiveOnly limit))) ∨
      (s'.life.ingests = w.shared.life.ingests ∧ c'.Calling s'.life) := by
    rcases Program.step_cases hstep with ⟨i, -, hact⟩ | ⟨e, he, rfl, -⟩ | ⟨i, f, next, -, hact, he⟩
    · have hacts := Collector.acts_of_act hact
      rcases hacts.ingests with ⟨slot, reserved, retrying, -, rfl, life, hlife, hs⟩ | ⟨heq, hnot⟩
      · obtain ⟨-, rfl⟩ := Lifecycle.start_eq_some hlife
        rw [howner] at hs
        exact .inl ⟨slot, _, rfl, howner, rfl, by rw [hs]⟩
      · refine .inr ⟨heq, .of_quiet hnot fun ingest hi => ?_⟩
        by_cases hbegin : c.pc = .begin
        · have hquiet : ∀ slot, c.pc ≠ .process slot := by
            rw [hbegin]
            exact fun slot => CollectorPc.noConfusion
          rw [hbegin] at hacts
          obtain ⟨rfl, rfl⟩ := hacts.begin_eq
          exact hcalling.quiet hquiet hi
        · rw [heq, (hacts.same hbegin).owner] at hi
          by_cases hproc : ∃ slot, c.pc = .process slot
          · obtain ⟨slot, hproc⟩ := hproc
            rw [hproc] at hacts
            exact hacts.returned hi
          · exact hcalling.quiet (fun slot hslot => hproc ⟨slot, hslot⟩) hi
    · obtain ⟨hold, hnew⟩ := Collector.handle_not_process he
      refine .inr ⟨rfl, .of_quiet hnew fun ingest hi => ?_⟩
      rw [(Collector.handle_same he).owner] at hi
      exact hcalling.quiet hold hi
    · -- A lost answer: the start of a call has no answer to lose.
      obtain ⟨hold, hnew⟩ := Collector.handle_not_process he
      rcases (Collector.acts_of_act hact).ingests with ⟨slot, reserved, retrying, hpc, -⟩ | ⟨heq, -⟩
      · simp only [collectorProgram, Collector.handle, hpc] at he
        cases he
      · refine .inr ⟨heq, .of_quiet hnew fun ingest hi => ?_⟩
        rw [heq, (Collector.handle_same he).owner] at hi
        exact hcalling.quiet hold hi
  rcases hcases with ⟨slot, limit, hpc, howner', honly, heq⟩ | ⟨heq, hself⟩
  · refine ⟨?_, ?_, ?_⟩
    · intro q ingest hi
      rw [heq] at hi
      rcases update_some_eq_some hi with ⟨-, rfl⟩ | ⟨-, hi⟩
      · rfl
      · exact h.mode q ingest hi
    · intro q ingest hi
      rw [heq] at hi
      rcases update_some_eq_some hi with ⟨rfl, -⟩ | ⟨hq, hi⟩
      · exact ⟨c', Function.update_self _ _ _⟩
      · obtain ⟨d, hd⟩ := h.hosted q ingest hi
        exact ⟨d, (Function.update_of_ne hq _ _).trans hd⟩
    · intro q d hd
      rcases update_some_eq_some hd with ⟨rfl, rfl⟩ | ⟨hq, hd⟩
      · unfold Collector.Calling
        rw [hpc]
        refine ⟨Ingest.start d.owner slot.remote c.scope.archiveOnly limit, ?_, honly.symm, rfl⟩
        rw [heq, howner', Function.update_self]
      · have hne : d.owner ≠ p := by
          rw [hown q d hd]
          exact hq
        refine (h.calling q d hd).frame ?_
        rw [heq, Function.update_of_ne hne]
  · refine ⟨?_, ?_, ?_⟩
    · intro q ingest hi
      rw [heq] at hi
      exact h.mode q ingest hi
    · intro q ingest hi
      rw [heq] at hi
      obtain ⟨d, hd⟩ := h.hosted q ingest hi
      by_cases hq : q = p
      · subst hq
        exact ⟨c', Function.update_self _ _ _⟩
      · exact ⟨d, (Function.update_of_ne hq _ _).trans hd⟩
    · intro q d hd
      rcases update_some_eq_some hd with ⟨rfl, rfl⟩ | ⟨hq, hd⟩
      · exact hself
      · exact (h.calling q d hd).frame (by rw [heq])

theorem World.Calling.next {w w' : World} {e : CollectionEvent} (h : w.Calling) (hown : w.Attached)
    (hnext : w.next config policy e = some w') : w'.Calling := by
  cases World.moves_of_next hnext with
  | @collect p scope hfree hidle =>
    refine ⟨h.mode, ?_, ?_⟩
    · intro q ingest hi
      by_cases hq : q = p
      · exact ⟨_, by rw [hq]; exact Function.update_self _ _ _⟩
      · obtain ⟨d, hd⟩ := h.hosted q ingest hi
        exact ⟨d, (Function.update_of_ne hq _ _).trans hd⟩
    · intro q d hd
      rcases update_some_eq_some hd with ⟨rfl, rfl⟩ | ⟨-, hd⟩
      · -- The last collector of the process has returned, and its call with it.
        refine .of_quiet (fun slot => CollectorPc.noConfusion) fun ingest hi => ?_
        obtain ⟨old, hold⟩ := h.hosted q ingest hi
        refine (h.calling q old hold).quiet ?_ ?_
        · rw [hidle old hold]
          exact fun slot => CollectorPc.noConfusion
        · rw [hown.owner q old hold]
          exact hi
      · exact h.calling q d hd
  | reply hc hstep => exact h.reply hown.owner hc hstep
  | @ingest p r life hlife =>
    refine ⟨?_, ?_, fun q d hd => (h.calling q d hd).ingest hlife⟩
    · intro q ingest hi
      obtain ⟨d, store, d', hd, hstep, rfl⟩ := Lifecycle.reply_eq_some hlife
      rcases update_some_eq_some hi with ⟨rfl, rfl⟩ | ⟨-, hi⟩
      · exact Ingest.step_inMode hstep (h.mode q d hd)
      · exact h.mode q ingest hi
    · intro q ingest hi
      obtain ⟨d, store, d', hd, hstep, rfl⟩ := Lifecycle.reply_eq_some hlife
      rcases update_some_eq_some hi with ⟨rfl, rfl⟩ | ⟨-, hi⟩
      · exact h.hosted q d hd
      · exact h.hosted q ingest hi
  | @die p life hlife =>
    cases hlife
    have hold : ∀ q ingest, (w.shared.life.die p).ingests q = some ingest →
        q ≠ p ∧ w.shared.life.ingests q = some ingest := by
      intro q ingest hi
      rw [Lifecycle.die_ingests] at hi
      split at hi
      · cases hi
      · exact ⟨by assumption, hi⟩
    refine ⟨fun q ingest hi => h.mode q ingest (hold q ingest hi).2, ?_, ?_⟩
    · intro q ingest hi
      obtain ⟨hq, hi⟩ := hold q ingest hi
      obtain ⟨d, hd⟩ := h.hosted q ingest hi
      exact ⟨d, (Function.update_of_ne hq _ _).trans hd⟩
    · intro q d hd
      obtain ⟨hq, hd⟩ := update_none_eq_some hd
      refine (h.calling q d hd).frame ?_
      rw [Lifecycle.die_ingests, if_neg (by rw [hown.owner q d hd]; exact hq)]
  | recover hlife =>
    obtain ⟨-, row, -, -, rfl⟩ := Lifecycle.recover_eq_some hlife
    exact ⟨h.mode, h.hosted, fun q d hd => (h.calling q d hd).frame rfl⟩
  | loseLease => exact ⟨h.mode, h.hosted, h.calling⟩

theorem world_calling {ok : World → CollectionEvent → Prop} {w : World}
    (h : Reach (collectionSystem config policy) ok w) : w.Calling := by
  refine h.invariant_of (P := World.Calling) ?_ ?_
  · rintro w ⟨clock, rfl⟩
    exact ⟨fun _ _ h => (by cases h), fun _ _ h => (by cases h), fun _ _ h => (by cases h)⟩
  · exact fun w e w' hr hw _ hnext => hw.next (world_attached hr) hnext

end Calling

end Makolet.Collection
