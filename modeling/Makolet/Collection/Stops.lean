import Makolet.Collection.Calls

/-!
# Where an attempt has stopped

A collector and the row of its attempt stand at the same boundary of the listing until the collector
moves both. So the last thing that an attempt did says where it stands: while that is a call of the
ingestion, the call was made at the boundary of the row. An attempt that begins with the retry flag
finds its predecessor at its own boundary.
-/

set_option autoImplicit false

namespace Makolet.Collection

open Makolet.Domain Makolet.Lib Makolet.Lib.Table Makolet.Ingestion Makolet.Normalized

/-! ## Boundaries of attempts -/

/-- The boundary in the row of an attempt. -/
def Traversals.boundaryOf (t : Traversals) (a : AttemptId) : Option (Cursor × Nat) :=
  (lookup Attempt.id t.attempts a).map fun row => (row.cursor, row.pageOffset)

namespace Traversals

variable {t t' : Traversals} {a b : AttemptId}

theorem boundaryOf_map {u : Attempt → Attempt} {checkpoints : CollectionScope → Option Checkpoint}
    (hid : ∀ r, (u r).id = r.id)
    (hboundary : ∀ r, ((u r).cursor, (u r).pageOffset) = (r.cursor, r.pageOffset)) :
    (⟨checkpoints, t.attempts.map u⟩ : Traversals).boundaryOf a = t.boundaryOf a := by
  rw [boundaryOf, lookup_map_of_key hid, boundaryOf]
  cases lookup Attempt.id t.attempts a with
  | none => rfl
  | some r => exact congrArg some (hboundary r)

theorem Ordered.lt_of_boundaryOf (h : t.Ordered) {boundary : Cursor × Nat}
    (ha : t.boundaryOf a = some boundary) : a < t.attempts.length := by
  obtain ⟨row, hrow, -⟩ := Option.map_eq_some_iff.mp ha
  have hbound := h.bound row (mem_of_lookup hrow)
  rwa [key_of_lookup hrow] at hbound

theorem boundaryOf_of_scopeOf {scope : CollectionScope} (h : t.scopeOf a = some scope) :
    ∃ boundary, t.boundaryOf a = some boundary := by
  obtain ⟨row, hrow, -⟩ := Option.map_eq_some_iff.mp h
  exact ⟨_, by rw [boundaryOf, hrow, Option.map_some]⟩

theorem boundaryOf_takenOver (scope : CollectionScope) :
    (⟨t.checkpoints, t.takenOver scope⟩ : Traversals).boundaryOf a = t.boundaryOf a := by
  refine boundaryOf_map ?_ ?_
  · intro r
    split <;> rfl
  · intro r
    split <;> rfl

/-- A new attempt leaves the boundaries of the others. -/
theorem boundaryOf_beginAttempt {scope : CollectionScope}
    (ha : a ≠ (t.beginAttempt scope).2.attemptId) :
    (t.beginAttempt scope).1.boundaryOf a = t.boundaryOf a := by
  show (lookup Attempt.id (_ :: _) a).map _ = _
  have hne : t.attempts.length ≠ a := Ne.symm ha
  rw [lookup_cons, if_neg hne]
  exact boundaryOf_takenOver scope

theorem Ordered.boundaryOf_beginAttempt (h : t.Ordered) (scope : CollectionScope)
    {boundary : Cursor × Nat} (ha : t.boundaryOf a = some boundary) :
    (t.beginAttempt scope).1.boundaryOf a = some boundary := by
  rw [Traversals.boundaryOf_beginAttempt (Nat.ne_of_lt (h.lt_of_boundaryOf ha))]
  exact ha

theorem boundaryOf_beginAttempt_new (scope : CollectionScope) :
    (t.beginAttempt scope).1.boundaryOf (t.beginAttempt scope).2.attemptId =
      some ((t.beginAttempt scope).2.cursor, (t.beginAttempt scope).2.pageOffset) := by
  show (lookup Attempt.id (_ :: _) t.attempts.length).map _ = _
  rw [lookup_cons, if_pos rfl]
  rfl

/-- The retry flag is given for a latest attempt at the boundary of the checkpoint. -/
theorem prior_of_retryBoundary {scope : CollectionScope} (h : t.retryBoundary scope = true) :
    ∃ row, t.prior scope (t.current scope).generation = some row ∧
      row.cursor = (t.current scope).cursor ∧ row.pageOffset = (t.current scope).pageOffset := by
  rw [retryBoundary, Bool.and_eq_true, Option.any_eq_true] at h
  obtain ⟨-, row, hrow, hboundary⟩ := h
  exact ⟨row, hrow, (of_decide_eq_true hboundary).2⟩

/-- An advance moves its own attempt. -/
theorem boundaryOf_advanceAttempt {expectedCursor cursor : Cursor}
    {expectedOffset pageOffset recognizedDelta unknownDelta : Nat} {result : CollectionAttempt}
    (h : t.advanceAttempt a expectedCursor expectedOffset cursor pageOffset recognizedDelta
      unknownDelta = .ok (t', result)) :
    t'.boundaryOf b = if b = a then some (cursor, pageOffset) else t.boundaryOf b := by
  obtain ⟨row, ck, hrow, -, -, -, -, -, -, -, -, hattempts, -⟩ := advanceAttempt_eq_ok h
  rw [boundaryOf, hattempts, lookup_updateAt]
  · by_cases hb : b = a
    · rw [if_pos hb, if_pos hb, hrow]
      rfl
    · rw [if_neg hb, if_neg hb]
      rfl
  · exact fun _ _ => rfl

theorem boundaryOf_finishAttempt {status : FinishStatus} {complete : Bool}
    (h : t.finishAttempt a status complete = .ok t') : t'.boundaryOf b = t.boundaryOf b := by
  obtain ⟨row, ck, -, -, -, -, hattempts⟩ := finishAttempt_eq_ok h
  obtain ⟨checkpoints, attempts⟩ := t'
  cases hattempts
  refine boundaryOf_map ?_ ?_
  · intro r
    split <;> rfl
  · intro r
    split <;> rfl

end Traversals

/-! ## What a collector has done last -/

/-- The index of the boundary that a collector stands at on its way to a call. -/
def Collector.boundary (c : Collector) : Option Nat :=
  match c.pc with
  | .discover => some c.pageOffset
  | .head _ index => some index
  | .checkTerminal slot | .chargeBudget slot _ | .register slot _ _ | .reserve slot _ _
  | .call slot _ _ => some slot.index
  | _ => none

/-- An operation that records what the attempt has done: a call, or an advance to `boundary`. -/
inductive Collector.Records (s : Shared) (c : Collector) (s' : Shared) (c' : Collector) : Prop
  | called {slot : Slot} {reserved : Nat} {retrying : Bool}
      (hpc : c.pc = .call slot reserved retrying) (hboundary : c'.boundary = none)
      (htraversals : s'.traversals = s.traversals)
      (hcalls : s'.history.calls =
        ⟨c.attemptId, c.cursor, slot.index, slot.file⟩ :: s.history.calls)
      (hstarts : s'.history.starts = s.history.starts)
      (hhistory : s'.history.progress =
        Function.update s.history.progress c.attemptId (some (.called slot.file)))
  | advanced {cursor : Cursor} {index : Nat} {progress : Progress}
      (hprogress : progress = .passed ∨ progress = .turned)
      (hlisted : c'.pc = .discover → progress = .turned)
      (hboundary : c'.boundary = none ∨ c'.boundary = some index ∧ c'.cursor = cursor)
      (hrows : ∀ a, s'.traversals.boundaryOf a =
        if a = c.attemptId then some (cursor, index) else s.traversals.boundaryOf a)
      (hcalls : s'.history.calls = s.history.calls)
      (hstarts : s'.history.starts = s.history.starts)
      (hhistory : s'.history.progress =
        Function.update s.history.progress c.attemptId (some progress))
  | kept (hlisted : c'.pc ≠ .discover)
      (hboundary : c'.boundary = none ∨ c'.boundary = c.boundary ∧ c'.cursor = c.cursor)
      (hrows : ∀ a, s'.traversals.boundaryOf a = s.traversals.boundaryOf a)
      (hcalls : s'.history.calls = s.history.calls)
      (hstarts : s'.history.starts = s.history.starts)
      (hhistory : s'.history.progress = s.history.progress)

section Step

variable {config : Config} {s s' : Shared} {c c' : Collector} {pc : CollectorPc}

theorem Collector.raise_boundary (c : Collector) (slot : Slot) (e : Failure) (pending : Bool) :
    (c.raise slot e pending).boundary = none := by
  rcases c.raise_cases slot e pending with h | h | ⟨-, h⟩ | ⟨-, h⟩
  all_goals rw [h]; rfl

theorem Collector.handle_boundary {e : Failure} (h : c.handle e = some c') :
    c'.boundary = none := by
  rcases Collector.handle_cases h with rfl | ⟨status, -, rfl⟩ | ⟨slot, pending, -, rfl⟩
  · rfl
  · rfl
  · exact c.raise_boundary slot e pending

theorem Collector.raise_ne_discover (c : Collector) (slot : Slot) (e : Failure) (pending : Bool) :
    (c.raise slot e pending).pc ≠ .discover := by
  rcases c.raise_cases slot e pending with h | h | ⟨-, h⟩ | ⟨-, h⟩
  all_goals rw [h]; exact CollectorPc.noConfusion

/-- Every operation behind the begin of the attempt. -/
theorem Collector.Acts.records (h : c.Acts config s c.pc s' c') (hbegin : c.pc ≠ .begin) :
    Collector.Records s c s' c' := by
  obtain ⟨pc, hpc⟩ : ∃ pc, c.pc = pc := ⟨_, rfl⟩
  rw [hpc] at h hbegin
  have hsame {next : Collector} (heq : c' = next) (hs : s' = s) (hlisted : next.pc ≠ .discover)
      (hnext : next.boundary = none ∨ next.boundary = c.boundary ∧ next.cursor = c.cursor) :
      Collector.Records s c s' c' := by
    subst heq hs
    exact .kept hlisted hnext (fun _ => rfl) rfl rfl rfl
  have hcharge {call : ChargeCall} {r : Readings} {budget : ChargeBudget}
      (hok : s.charge config c call r = some (.ok (s', budget))) (hlisted : c'.pc ≠ .discover)
      (hnext : c'.boundary = none ∨ c'.boundary = c.boundary ∧ c'.cursor = c.cursor) :
      Collector.Records s c s' c' := by
    obtain ⟨-, -, l, -, rfl⟩ := Shared.charge_eq_ok hok
    exact .kept hlisted hnext (fun _ => rfl) rfl rfl rfl
  -- The collector stays where it stands.
  have hstays {next : CollectorPc} {index : Nat} (hold : c.boundary = some index)
      (hnew : (c.goto next).boundary = some index) :
      (c.goto next).boundary = none ∨
        (c.goto next).boundary = c.boundary ∧ (c.goto next).cursor = c.cursor :=
    .inr ⟨hnew.trans hold.symm, rfl⟩
  have hstands {index : Nat} (hindex : (c.goto pc).boundary = some index) :
      c.boundary = some index := by
    rwa [Collector.boundary, hpc]
  cases h with
  | begin => exact absurd rfl hbegin
  | discover hoffset =>
    exact hsame rfl rfl CollectorPc.noConfusion (hstays (hstands rfl) rfl)
  | head hselect =>
    rcases Collector.select_cases hselect with
      ⟨-, heq⟩ | heq | ⟨slot, -, rfl, -, ⟨-, heq⟩ | ⟨-, heq⟩⟩
    · exact hsame heq rfl CollectorPc.noConfusion (.inl rfl)
    · exact hsame heq rfl CollectorPc.noConfusion (.inl rfl)
    · exact hsame heq rfl CollectorPc.noConfusion (.inl rfl)
    · exact hsame heq rfl CollectorPc.noConfusion (hstays (hstands rfl) rfl)
  | advance hslot hadvance hnext =>
    obtain ⟨traversals, hok, rfl⟩ := Shared.advanceFile_eq_ok hadvance
    refine .advanced (.inl rfl) ?_ ?_ (fun a => Traversals.boundaryOf_advanceAttempt hok) rfl rfl
      rfl
    · intro hlisted
      cases hnext <;> cases hlisted
    · cases hnext with
      | bounded => exact .inl rfl
      | error => exact .inl rfl
      | unknown => cases hslot; exact .inr ⟨rfl, rfl⟩
      | skip => cases hslot; exact .inr ⟨rfl, rfl⟩
      | done => cases hslot; exact .inr ⟨rfl, rfl⟩
  | @checkTerminal slot =>
    rcases c.decide_cases config slot (isTerminal s.files slot.file c.scope.archiveOnly) with
      ⟨-, heq⟩ | heq | ⟨-, heq⟩
    · exact hsame heq rfl CollectorPc.noConfusion (.inl rfl)
    · exact hsame heq rfl CollectorPc.noConfusion (.inl rfl)
    · exact hsame heq rfl CollectorPc.noConfusion (hstays (hstands rfl) rfl)
  | @chargeBudget slot alreadyTerminal _ _ budget hok =>
    rcases c.budgeted_cases config slot alreadyTerminal budget with heq | ⟨-, -, heq⟩ | ⟨-, -, heq⟩
    all_goals rw [heq] at hcharge ⊢
    · exact hcharge hok CollectorPc.noConfusion (.inl rfl)
    · exact hcharge hok CollectorPc.noConfusion (hstays (hstands rfl) rfl)
    · exact hcharge hok CollectorPc.noConfusion (hstays (hstands rfl) rfl)
  | register hreg =>
    exact .kept CollectorPc.noConfusion (hstays (hstands rfl) rfl) (fun _ => rfl) rfl rfl rfl
  | reserve hok => exact hcharge hok CollectorPc.noConfusion (hstays (hstands rfl) rfl)
  | call hcall =>
    obtain ⟨life, -, rfl⟩ := Shared.startCall_eq_some hcall
    exact .called hpc rfl rfl rfl rfl rfl
  | processed hingest hreturned => exact hsame rfl rfl CollectorPc.noConfusion (.inl rfl)
  | raised hingest hreturned =>
    exact hsame rfl rfl (c.raise_ne_discover _ _ _) (.inl (c.raise_boundary _ _ _))
  | @settle pc slot transferred _ _ budget hsettles hok =>
    cases pc with
    | settle slot result =>
      refine hcharge hok ?_ (.inl ?_)
      · rw [Collector.settledBy]
        split <;> exact CollectorPc.noConfusion
      · rw [Collector.settledBy]
        split <;> rfl
    | errorSettle slot transferred pending =>
      cases pending
      · exact hcharge hok CollectorPc.noConfusion (.inl rfl)
      · exact hcharge hok CollectorPc.noConfusion (.inl rfl)
    | budgetSettle slot transferred => exact hcharge hok CollectorPc.noConfusion (.inl rfl)
    | _ => cases hsettles
  | bootstrap =>
    refine .kept CollectorPc.noConfusion (.inl rfl) (fun _ => ?_) ?_ ?_ ?_
    all_goals split <;> rfl
  | noteTerminal hterminal => exact hsame rfl rfl CollectorPc.noConfusion (.inl rfl)
  | observe hstatus hobserve => exact hsame rfl rfl CollectorPc.noConfusion (.inl rfl)
  | errorCheck =>
    refine hsame rfl rfl ?_ (.inl ?_)
    · dsimp only [Collector.goto]
      split <;> exact CollectorPc.noConfusion
    · dsimp only [Collector.goto]
      split <;> rfl
  | lastPage hadvance =>
    obtain ⟨traversals, hok, rfl⟩ := Shared.advanceTo_eq_ok hadvance
    exact .advanced (.inr rfl) (fun _ => rfl) (.inl rfl)
      (fun a => Traversals.boundaryOf_advanceAttempt hok) rfl rfl rfl
  | nextPage hadvance hnext =>
    obtain ⟨traversals, hok, rfl⟩ := Shared.advanceTo_eq_ok hadvance
    refine .advanced (.inr rfl) (fun _ => rfl) ?_
      (fun a => Traversals.boundaryOf_advanceAttempt hok) rfl rfl rfl
    rcases hnext with rfl | rfl
    · exact .inr ⟨rfl, rfl⟩
    · exact .inl rfl
  | finish hok =>
    exact .kept CollectorPc.noConfusion (.inl rfl)
      (fun _ => Traversals.boundaryOf_finishAttempt hok) rfl rfl rfl

end Step

/-! ## The invariant -/

/-- A predecessor has done something, and a call that it had made last was made where it stood. -/
structure Start.Sound (st : Start) : Prop where
  known : st.prior ≠ none → st.progress ≠ none
  called : ∀ f, st.progress = some (.called f) →
    ∃ a, st.prior = some a ∧ st.lastCall = some ⟨a.id, a.cursor, a.pageOffset, f⟩

/-- The last call of an attempt, while it is what the attempt has done last, was made where the
attempt stands. -/
structure Shared.Stopped (s : Shared) : Prop where
  known : ∀ a, s.traversals.boundaryOf a ≠ none → s.history.progress a ≠ none
  called : ∀ a f, s.history.progress a = some (.called f) →
    ∃ boundary, s.traversals.boundaryOf a = some boundary ∧
      (s.history.calls.find? fun call => decide (call.attempt = a)) =
        some ⟨a, boundary.1, boundary.2, f⟩
  starts : ∀ a st, s.history.starts a = some st → st.Sound

/-- A collector lists behind a turn of the page, or at its begin: there it has the retry flag where
its predecessor stands. -/
def Collector.Flagged (s : Shared) (c : Collector) : Prop :=
  c.pc = .discover → s.history.progress c.attemptId = some .turned ∨
    (c.retryBoundary = true → ∃ st, s.history.starts c.attemptId = some st ∧
      ∃ a, st.prior = some a ∧ a.cursor = c.cursor ∧ a.pageOffset = c.pageOffset)

structure World.Stopped (w : World) : Prop where
  shared : w.shared.Stopped
  standing : ∀ p c index, w.collectors p = some c → c.boundary = some index →
    w.shared.traversals.boundaryOf c.attemptId = some (c.cursor, index)
  distinct : ∀ p q c d, w.collectors p = some c → w.collectors q = some d → c.pc.active = true →
    d.pc.active = true → c.attemptId = d.attemptId → p = q
  flagged : ∀ p c, w.collectors p = some c → c.Flagged w.shared

section Runs

variable {config : Config} {policy : IngestionPolicy} {w w' : World} {s s' : Shared}
  {c c' : Collector} {p : ProcessId}

theorem Collector.active_of_boundary {index : Nat} (h : c.boundary = some index) :
    c.pc.active = true := by
  unfold Collector.boundary at h
  split at h
  all_goals first | (rename_i hpc; rw [hpc]; rfl) | cases h

theorem update_ne_none {m : AttemptId → Option Progress} {a b : AttemptId} {progress : Progress}
    (h : m b ≠ none) : Function.update m a (some progress) b ≠ none := by
  by_cases hb : b = a
  · rw [hb, Function.update_self]
    exact Option.some_ne_none _
  · rwa [Function.update_of_ne hb]

/-- A record of an attempt keeps what is known of all attempts. -/
theorem Shared.Stopped.records (h : s.Stopped) (hrecords : Collector.Records s c s' c')
    (hstanding : ∀ index, c.boundary = some index →
      s.traversals.boundaryOf c.attemptId = some (c.cursor, index)) : s'.Stopped := by
  cases hrecords with
  | @called slot reserved retrying hpc hboundary htraversals hcalls hstarts hhistory =>
    refine ⟨fun a ha => ?_, fun a f hf => ?_, fun a st hst => h.starts a st (hstarts ▸ hst)⟩
    · rw [hhistory]
      exact update_ne_none (h.known a (htraversals ▸ ha))
    rw [hhistory] at hf
    rw [htraversals, hcalls]
    by_cases ha : a = c.attemptId
    · subst ha
      rw [Function.update_self] at hf
      cases hf
      refine ⟨_, hstanding slot.index (by rw [Collector.boundary, hpc]), ?_⟩
      rw [List.find?_cons_of_pos (by simp)]
    · rw [Function.update_of_ne ha] at hf
      obtain ⟨boundary, hrow, hcall⟩ := h.called a f hf
      refine ⟨boundary, hrow, ?_⟩
      rw [List.find?_cons_of_neg (by simpa using Ne.symm ha)]
      exact hcall
  | advanced hprogress hlisted hboundary hrows hcalls hstarts hhistory =>
    refine ⟨fun a ha => ?_, fun a f hf => ?_, fun a st hst => h.starts a st (hstarts ▸ hst)⟩
    · rw [hhistory]
      by_cases hself : a = c.attemptId
      · rw [hself, Function.update_self]
        exact Option.some_ne_none _
      · rw [hrows, if_neg hself] at ha
        exact update_ne_none (h.known a ha)
    rw [hhistory] at hf
    by_cases ha : a = c.attemptId
    · subst ha
      rw [Function.update_self] at hf
      rcases hprogress with rfl | rfl <;> cases hf
    · rw [Function.update_of_ne ha] at hf
      rw [hrows, if_neg ha, hcalls]
      exact h.called a f hf
  | kept hlisted hboundary hrows hcalls hstarts hhistory =>
    refine ⟨fun a ha => ?_, fun a f hf => ?_, fun a st hst => h.starts a st (hstarts ▸ hst)⟩
    · rw [hhistory]
      exact h.known a (hrows a ▸ ha)
    rw [hrows, hcalls]
    exact h.called a f (hhistory ▸ hf)

/-- The begin of an attempt: what its predecessor has done last is as it was. -/
theorem Shared.Stopped.begin (h : s.Stopped) (hord : s.traversals.Ordered)
    (scope : CollectionScope) : (s.begin scope).1.Stopped := by
  refine ⟨fun a hrow => ?_, fun a f hf => ?_, fun a st hst => ?_⟩
  · by_cases ha : a = (s.traversals.beginAttempt scope).2.attemptId
    · rw [ha]
      exact fun hnone => by cases (Function.update_self _ _ _).symm.trans hnone
    · rw [show (s.begin scope).1.history.progress a = s.history.progress a from
        Function.update_of_ne ha _ _]
      exact h.known a ((Traversals.boundaryOf_beginAttempt ha) ▸ hrow)
  · by_cases ha : a = (s.traversals.beginAttempt scope).2.attemptId
    · have hnew := hf
      rw [ha] at hnew
      cases (Function.update_self _ _ _).symm.trans hnew
    · have hold : s.history.progress a = some (.called f) :=
        (Function.update_of_ne ha _ _).symm.trans hf
      obtain ⟨boundary, hrow, hcall⟩ := h.called a f hold
      exact ⟨boundary, hord.boundaryOf_beginAttempt scope hrow, hcall⟩
  · by_cases ha : a = (s.traversals.beginAttempt scope).2.attemptId
    · have hnew := hst
      rw [ha] at hnew
      cases (Function.update_self _ _ _).symm.trans hnew
      -- The predecessor is a row of its own number.
      refine ⟨fun hprior => ?_, fun f hf => ?_⟩
      · obtain ⟨row, hrow⟩ := Option.ne_none_iff_exists'.mp hprior
        have hlookup := lookup_of_mem hord.unique (List.mem_of_find?_eq_some hrow)
        dsimp only at hrow ⊢
        rw [hrow, Option.bind_some]
        refine h.known row.id ?_
        rw [Traversals.boundaryOf, hlookup]
        exact Option.some_ne_none _
      obtain ⟨row, hprior, hf⟩ := Option.bind_eq_some_iff.mp hf
      obtain ⟨boundary, hrow, hcall⟩ := h.called row.id f hf
      have hlookup := lookup_of_mem hord.unique (List.mem_of_find?_eq_some hprior)
      rw [Traversals.boundaryOf, hlookup, Option.map_some] at hrow
      cases hrow
      refine ⟨row, hprior, ?_⟩
      dsimp only
      rw [hprior]
      exact hcall
    · exact h.starts a st ((Function.update_of_ne ha _ _).symm.trans hst)

/-- What a record says of another attempt. -/
theorem Collector.Records.other (h : Collector.Records s c s' c') {a : AttemptId}
    (ha : a ≠ c.attemptId) :
    s'.traversals.boundaryOf a = s.traversals.boundaryOf a ∧
      s'.history.progress a = s.history.progress a ∧ s'.history.starts a = s.history.starts a := by
  cases h with
  | called hpc hboundary htraversals hcalls hstarts hhistory =>
    rw [htraversals, hhistory, hstarts, Function.update_of_ne ha]
    exact ⟨rfl, rfl, rfl⟩
  | advanced hprogress hlisted hboundary hrows hcalls hstarts hhistory =>
    rw [hrows, if_neg ha, hhistory, hstarts, Function.update_of_ne ha]
    exact ⟨rfl, rfl, rfl⟩
  | kept hlisted hboundary hrows hcalls hstarts hhistory =>
    rw [hrows, hhistory, hstarts]
    exact ⟨rfl, rfl, rfl⟩

/-- A record leaves the collector at the boundary of its attempt. -/
theorem Collector.Records.standing (h : Collector.Records s c s' c')
    (hattempt : c'.attemptId = c.attemptId)
    (hstanding : ∀ index, c.boundary = some index →
      s.traversals.boundaryOf c.attemptId = some (c.cursor, index)) {index : Nat}
    (hindex : c'.boundary = some index) :
    s'.traversals.boundaryOf c'.attemptId = some (c'.cursor, index) := by
  rw [hattempt]
  cases h with
  | called hpc hboundary htraversals hcalls hstarts hhistory =>
    rw [hboundary] at hindex
    cases hindex
  | advanced hprogress hlisted hboundary hrows hcalls hstarts hhistory =>
    rw [hrows, if_pos rfl]
    rcases hboundary with hnone | ⟨hsome, hcursor⟩
    · rw [hnone] at hindex
      cases hindex
    · rw [hsome, Option.some.injEq] at hindex
      rw [hcursor, hindex]
  | kept hlisted hboundary hrows hcalls hstarts hhistory =>
    rw [hrows]
    rcases hboundary with hnone | ⟨hsame, hcursor⟩
    · rw [hnone] at hindex
      cases hindex
    · rw [hcursor]
      exact hstanding index (hsame ▸ hindex)

/-- A collector comes to a listing by the begin of its attempt, or by a turn of the page. -/
theorem Collector.Records.flagged (h : Collector.Records s c s' c')
    (hattempt : c'.attemptId = c.attemptId) : c'.Flagged s' := by
  intro hdiscover
  cases h with
  | called hpc hboundary htraversals hcalls hstarts hhistory =>
    rw [Collector.boundary, hdiscover] at hboundary
    cases hboundary
  | advanced hmoved hlisted hboundary hrows hcalls hstarts hhistory =>
    rw [hattempt, hhistory, Function.update_self, hlisted hdiscover]
    exact .inl rfl
  | kept hlisted hboundary hrows hcalls hstarts hhistory => exact absurd hdiscover hlisted

/-- A collector that did not act, behind an operation of another one. -/
theorem World.Stopped.frame (h : w.Stopped) {q : ProcessId} {d : Collector}
    (hd : w.collectors q = some d)
    (hother : d.pc.active = true →
      s'.traversals.boundaryOf d.attemptId = w.shared.traversals.boundaryOf d.attemptId ∧
        s'.history.progress d.attemptId = w.shared.history.progress d.attemptId ∧
        s'.history.starts d.attemptId = w.shared.history.starts d.attemptId) :
    (∀ index, d.boundary = some index →
      s'.traversals.boundaryOf d.attemptId = some (d.cursor, index)) ∧ d.Flagged s' := by
  refine ⟨fun index hindex => ?_, fun hdiscover => ?_⟩
  · rw [(hother (Collector.active_of_boundary hindex)).1]
    exact h.standing q d index hd hindex
  · obtain ⟨-, hsame, hstarts⟩ := hother (by rw [hdiscover]; rfl)
    rw [hsame, hstarts]
    exact h.flagged q d hd hdiscover

/-- A committed operation of the collector of `p`, which goes on as `c'`. -/
theorem World.Stopped.act (h : w.Stopped) (hown : w.Attached) {next : Collector}
    (hc : w.collectors p = some c) (hacts : c.Acts config w.shared c.pc s' next)
    (hsame : c'.pc.active = true → c'.attemptId = next.attemptId)
    (hstanding : ∀ index, c'.boundary = some index →
      s'.traversals.boundaryOf c'.attemptId = some (c'.cursor, index))
    (hflagged : c'.Flagged s') {lease : Option ProcessId} :
    World.Stopped ⟨s', lease, Function.update w.collectors p (some c')⟩ := by
  -- No other collector works on the attempt that the operation is about.
  have hother : ∀ q d, q ≠ p → w.collectors q = some d → d.pc.active = true →
      d.attemptId ≠ next.attemptId ∧
        s'.traversals.boundaryOf d.attemptId = w.shared.traversals.boundaryOf d.attemptId ∧
        s'.history.progress d.attemptId = w.shared.history.progress d.attemptId ∧
        s'.history.starts d.attemptId = w.shared.history.starts d.attemptId := by
    intro q d hq hd hactive
    by_cases hbegin : c.pc = .begin
    · rw [hbegin] at hacts
      obtain ⟨rfl, rfl⟩ := hacts.begin_eq
      obtain ⟨boundary, hrow⟩ := Traversals.boundaryOf_of_scopeOf (hown.scope q d hd hactive)
      have hne : d.attemptId ≠ (w.shared.traversals.beginAttempt c.scope).2.attemptId :=
        Nat.ne_of_lt (hown.ordered.lt_of_boundaryOf hrow)
      exact ⟨hne, (hown.ordered.boundaryOf_beginAttempt c.scope hrow).trans hrow.symm,
        Function.update_of_ne hne _ _, Function.update_of_ne hne _ _⟩
    · have hactive' : c.pc.active = true := hacts.active_or_begin.resolve_right hbegin
      have hne : d.attemptId ≠ c.attemptId :=
        fun heq => hq (h.distinct q p d c hd hc hactive hactive' heq)
      rw [(hacts.same hbegin).attempt]
      exact ⟨hne, (hacts.records hbegin).other hne⟩
  refine ⟨?_, ?_, ?_, ?_⟩
  · by_cases hbegin : c.pc = .begin
    · rw [hbegin] at hacts
      obtain ⟨rfl, -⟩ := hacts.begin_eq
      exact h.shared.begin hown.ordered c.scope
    · exact h.shared.records (hacts.records hbegin) fun index => h.standing p c index hc
  · intro q d index hd hindex
    rcases update_some_eq_some hd with ⟨rfl, rfl⟩ | ⟨hq, hd⟩
    · exact hstanding index hindex
    · exact (h.frame hd fun hactive => (hother q d hq hd hactive).2).1 index hindex
  · intro q r d e hd he hdactive heactive hattempt
    rcases update_some_eq_some hd with ⟨rfl, rfl⟩ | ⟨hq, hdold⟩
    · rcases update_some_eq_some he with ⟨rfl, -⟩ | ⟨hr, heold⟩
      · rfl
      · exact absurd ((hsame hdactive).symm.trans hattempt).symm (hother r e hr heold heactive).1
    · rcases update_some_eq_some he with ⟨rfl, rfl⟩ | ⟨hr, heold⟩
      · exact absurd (hattempt.trans (hsame heactive)) (hother q d hq hdold hdactive).1
      · exact h.distinct q r d e hdold heold hdactive heactive hattempt
  · intro q d hd
    rcases update_some_eq_some hd with ⟨rfl, rfl⟩ | ⟨hq, hd⟩
    · exact hflagged
    · exact (h.frame hd fun hactive => (hother q d hq hd hactive).2).2

theorem Collector.handle_flagged {e : Failure} (h : c.handle e = some c') : c'.Flagged s := by
  intro hdiscover
  have hboundary := Collector.handle_boundary h
  rw [Collector.boundary, hdiscover] at hboundary
  cases hboundary

theorem World.Stopped.reply {r : Reply CollectorInput Fault} {lease : Option ProcessId}
    (h : w.Stopped) (hown : w.Attached) (hc : w.collectors p = some c)
    (hstep : (collectorProgram config).step w.shared c r = some (s', c')) :
    World.Stopped ⟨s', lease, Function.update w.collectors p (some c')⟩ := by
  -- A handler stands at no boundary.
  have hhandled {s : Shared} {e : Failure} (he : c.handle e = some c') (index : Nat)
      (hindex : c'.boundary = some index) :
      s.traversals.boundaryOf c'.attemptId = some (c'.cursor, index) := by
    rw [Collector.handle_boundary he] at hindex
    cases hindex
  rcases Program.step_cases hstep with ⟨i, -, hact⟩ | ⟨e, he, rfl, -⟩ | ⟨i, f, next, -, hact, he⟩
  · have hacts := Collector.acts_of_act hact
    by_cases hbegin : c.pc = .begin
    · have hbegun := hbegin ▸ hacts
      obtain ⟨rfl, rfl⟩ := hbegun.begin_eq
      refine h.act hown hc hacts (fun _ => rfl) (fun index hindex => ?_)
        fun _ => .inr fun hretry => ?_
      · cases hindex
        exact Traversals.boundaryOf_beginAttempt_new c.scope
      · refine ⟨_, Function.update_self _ _ _, ?_⟩
        exact Traversals.prior_of_retryBoundary hretry
    · have hattempt := (hacts.same hbegin).attempt
      have hrecords := hacts.records hbegin
      exact h.act hown hc hacts (fun _ => rfl)
        (fun index => hrecords.standing hattempt fun index => h.standing p c index hc)
        (hrecords.flagged hattempt)
  · refine ⟨h.shared, ?_, ?_, ?_⟩
    · intro q d index hd hindex
      rcases update_some_eq_some hd with ⟨rfl, rfl⟩ | ⟨-, hd⟩
      · exact hhandled he index hindex
      · exact h.standing q d index hd hindex
    · have hback : ∀ q d, Function.update w.collectors p (some c') q = some d →
          d.pc.active = true → ∃ e, w.collectors q = some e ∧ e.pc.active = true ∧
            e.attemptId = d.attemptId := by
        intro q d hd hactive
        rcases update_some_eq_some hd with ⟨rfl, rfl⟩ | ⟨-, hd⟩
        · exact ⟨c, hc, Collector.handle_active he hactive, (Collector.handle_same he).attempt.symm⟩
        · exact ⟨d, hd, hactive, rfl⟩
      intro q r d e hd he hdactive heactive hattempt
      obtain ⟨d', hd', hdactive', hdattempt⟩ := hback q d hd hdactive
      obtain ⟨e', he', heactive', heattempt⟩ := hback r e he heactive
      exact h.distinct q r d' e' hd' he' hdactive' heactive'
        (hdattempt.trans (hattempt.trans heattempt.symm))
    · intro q d hd
      rcases update_some_eq_some hd with ⟨rfl, rfl⟩ | ⟨-, hd⟩
      · exact Collector.handle_flagged he
      · exact h.flagged q d hd
  · have hacts := Collector.acts_of_act hact
    refine h.act hown hc hacts (fun hactive => ?_) (hhandled he) (Collector.handle_flagged he)
    have hactive := Collector.handle_active he hactive
    have hbegin : c.pc ≠ .begin := by
      intro hbegin
      rw [hbegin] at hactive
      cases hactive
    exact (Collector.handle_same he).attempt.trans (hacts.same hbegin).attempt.symm

theorem World.Stopped.next {e : CollectionEvent} (h : w.Stopped) (hown : w.Attached)
    (hnext : w.next config policy e = some w') : w'.Stopped := by
  cases World.moves_of_next hnext with
  | @collect p scope hfree hidle =>
    refine ⟨h.shared, ?_, ?_, ?_⟩
    · intro q d index hd hindex
      rcases update_some_eq_some hd with ⟨rfl, rfl⟩ | ⟨-, hd⟩
      · cases hindex
      · exact h.standing q d index hd hindex
    · intro q r d e hd he hdactive heactive hattempt
      rcases update_some_eq_some hd with ⟨rfl, rfl⟩ | ⟨-, hd⟩
      · cases hdactive
      · rcases update_some_eq_some he with ⟨rfl, rfl⟩ | ⟨-, he⟩
        · cases heactive
        · exact h.distinct q r d e hd he hdactive heactive hattempt
    · intro q d hd
      rcases update_some_eq_some hd with ⟨rfl, rfl⟩ | ⟨-, hd⟩
      · exact fun hdiscover => by cases hdiscover
      · exact h.flagged q d hd
  | reply hc hstep => exact h.reply hown hc hstep
  | ingest =>
    exact ⟨⟨h.shared.known, h.shared.called, h.shared.starts⟩, h.standing, h.distinct, h.flagged⟩
  | die =>
    refine ⟨⟨h.shared.known, h.shared.called, h.shared.starts⟩, ?_, ?_, ?_⟩
    · exact fun q d index hd => h.standing q d index (collectors_of_update_none hd)
    · exact fun q r d e hd he => h.distinct q r d e (collectors_of_update_none hd)
        (collectors_of_update_none he)
    · exact fun q d hd => h.flagged q d (collectors_of_update_none hd)
  | recover =>
    exact ⟨⟨h.shared.known, h.shared.called, h.shared.starts⟩, h.standing, h.distinct, h.flagged⟩
  | loseLease => exact ⟨h.shared, h.standing, h.distinct, h.flagged⟩

theorem world_stopped {ok : World → CollectionEvent → Prop}
    (h : Reach (collectionSystem config policy) ok w) : w.Stopped := by
  refine h.invariant_of (P := World.Stopped) ?_ ?_
  · rintro w ⟨clock, rfl⟩
    refine ⟨⟨?_, ?_, ?_⟩, ?_, ?_, ?_⟩
    · exact fun a ha => absurd rfl ha
    · exact fun a f hf => by cases hf
    · exact fun a st hst => by cases hst
    · exact fun p c index hc => by cases hc
    · exact fun p q c d hc => by cases hc
    · exact fun p c hc => by cases hc
  · exact fun w e w' hr hw _ hnext => hw.next (world_attached hr) hnext

end Runs

end Makolet.Collection
