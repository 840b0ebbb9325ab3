import Makolet.Collection.Charging

/-!
# Checkpoints and attempts

The part of `PostgresCollectionRepository` that owns `collection_checkpoints` and
`collection_attempts`, for one source. `begin_attempt` takes the checkpoint of its scope over from
whichever attempt still counts as running; every later write of an attempt is conditional on that
attempt still running, and an advance also on the exact boundary it starts from.

`Traversals.Ordered` is what the takeover guarantees: of the attempts of one scope only the newest
can be running.
-/

set_option autoImplicit false

namespace Makolet.Collection

open Makolet.Domain Makolet.Lib Makolet.Lib.Table Makolet.Ingestion Makolet.Normalized

/-! ## Rows -/

/-- `CollectionScope` of one source, with the checks of `__post_init__`. The operation is `ordinary`
exactly without a range. -/
structure CollectionScope where
  portalIds : List PortalId
  rangeSince : Option Time
  rangeUntil : Option Time
  archiveOnly : Bool
  endpoints : rangeSince.isSome = rangeUntil.isSome
  ordered : ∀ lower ∈ rangeSince, ∀ upper ∈ rangeUntil, lower ≤ upper
  ordinary : rangeSince = none → archiveOnly = false
  deriving DecidableEq

abbrev Cursor := Option String

/-- `collection_checkpoints`, without its key. -/
structure Checkpoint where
  generation : Nat
  cursor : Cursor
  pageOffset : Nat
  recognizedCount : Nat
  unknownCount : Nat
  traversalComplete : Bool
  deriving DecidableEq, Repr

def Checkpoint.initial : Checkpoint := ⟨1, none, 0, 0, 0, false⟩

/-- The next generation of a completed traversal. -/
def Checkpoint.rolled (ck : Checkpoint) : Checkpoint := ⟨ck.generation + 1, none, 0, 0, 0, false⟩

inductive AttemptStatus
  | running
  | completed
  | bounded
  | failed
  deriving DecidableEq, Repr

/-- The statuses that `finish_attempt` accepts. -/
inductive FinishStatus
  | completed
  | bounded
  | failed
  deriving DecidableEq, Repr

def FinishStatus.status : FinishStatus → AttemptStatus
  | .completed => .completed
  | .bounded => .bounded
  | .failed => .failed

/-- `collection_attempts`, with the scope of the checkpoint it belongs to. -/
structure Attempt where
  id : AttemptId
  scope : CollectionScope
  generation : Nat
  status : AttemptStatus
  cursor : Cursor
  pageOffset : Nat
  deriving DecidableEq

/-- The attempts stand newest first. -/
structure Traversals where
  checkpoints : CollectionScope → Option Checkpoint
  attempts : List Attempt

def Traversals.empty : Traversals := ⟨fun _ => none, []⟩

/-- `CollectionAttempt`, what the repository returns to the collector. -/
structure CollectionAttempt where
  attemptId : AttemptId
  generation : Nat
  cursor : Cursor
  pageOffset : Nat
  recognizedCount : Nat
  unknownCount : Nat
  retryBoundary : Bool
  deriving DecidableEq, Repr

/-! ## Operations -/

namespace Traversals

/-- The checkpoint that a new attempt of the scope works on. -/
def current (t : Traversals) (scope : CollectionScope) : Checkpoint :=
  let ck := (t.checkpoints scope).getD .initial
  if ck.traversalComplete then ck.rolled else ck

/-- The latest attempt of a generation. -/
def prior (t : Traversals) (scope : CollectionScope) (generation : Nat) : Option Attempt :=
  t.attempts.find? fun a => decide (a.scope = scope ∧ a.generation = generation)

/-- The flag `retry_boundary` of a new attempt. A rolled generation has no attempt yet. -/
def retryBoundary (t : Traversals) (scope : CollectionScope) : Bool :=
  let ck := t.current scope
  !((t.checkpoints scope).getD .initial).traversalComplete &&
    (t.prior scope ck.generation).any fun a =>
      decide ((a.status = .running ∨ a.status = .failed) ∧ a.cursor = ck.cursor ∧
        a.pageOffset = ck.pageOffset)

/-- The stale attempts of a scope, closed by a takeover. -/
def takenOver (t : Traversals) (scope : CollectionScope) : List Attempt :=
  t.attempts.map fun a =>
    if a.scope = scope ∧ a.status = .running then { a with status := .failed } else a

/-- `begin_attempt`. -/
def beginAttempt (scope : CollectionScope) (t : Traversals) : Traversals × CollectionAttempt :=
  let ck := t.current scope
  let id := t.attempts.length
  (⟨Function.update t.checkpoints scope (some ck),
      ⟨id, scope, ck.generation, .running, ck.cursor, ck.pageOffset⟩ :: t.takenOver scope⟩,
    ⟨id, ck.generation, ck.cursor, ck.pageOffset, ck.recognizedCount, ck.unknownCount,
      t.retryBoundary scope⟩)

def attemptNotFound : Failure := ⟨.persistenceNotFound, "Collection attempt was not found", 0⟩

def notRunning : Failure :=
  ⟨.persistenceConflict, "Collection attempt is no longer running", 0⟩

def checkpointChanged : Failure :=
  ⟨.persistenceConflict, "Collection checkpoint changed before the expected boundary committed", 0⟩

/-- `_locked_attempt` of a running attempt. -/
def lockedRunning (a : AttemptId) (t : Traversals) : Except Failure (Attempt × Checkpoint) :=
  match lookup Attempt.id t.attempts a with
  | none => .error attemptNotFound
  | some row =>
    match t.checkpoints row.scope with
    | none => .error attemptNotFound
    | some ck => require (row.status = .running) notRunning >>= fun _ => .ok (row, ck)

/-- `advance_attempt`. -/
def advanceAttempt (a : AttemptId) (expectedCursor : Cursor) (expectedOffset : Nat)
    (cursor : Cursor) (pageOffset recognizedDelta unknownDelta : Nat) (t : Traversals) :
    Except Failure (Traversals × CollectionAttempt) :=
  t.lockedRunning a >>= fun (row, ck) =>
    require (row.cursor = expectedCursor ∧ row.pageOffset = expectedOffset ∧
        ck.cursor = expectedCursor ∧ ck.pageOffset = expectedOffset ∧
        row.generation = ck.generation) checkpointChanged >>= fun _ =>
      let ck' : Checkpoint := { ck with
        cursor := cursor
        pageOffset := pageOffset
        recognizedCount := ck.recognizedCount + recognizedDelta
        unknownCount := ck.unknownCount + unknownDelta }
      .ok (⟨Function.update t.checkpoints row.scope (some ck'),
          updateAt Attempt.id a (fun r => { r with cursor := cursor, pageOffset := pageOffset })
            t.attempts⟩,
        ⟨a, ck.generation, cursor, pageOffset, ck'.recognizedCount, ck'.unknownCount, false⟩)

/-- `finish_attempt`. -/
def finishAttempt (a : AttemptId) (status : FinishStatus) (traversalComplete : Bool)
    (t : Traversals) : Except Failure Traversals :=
  (t.lockedRunning a).map fun (row, ck) =>
    ⟨Function.update t.checkpoints row.scope
        (some { ck with traversalComplete := traversalComplete }),
      updateAt Attempt.id a (fun r => { r with status := status.status }) t.attempts⟩

/-- `observe_attempt`: it counts a discovered file, which nothing reads back. -/
def observeAttempt (a : AttemptId) (t : Traversals) : Except Failure Unit :=
  match lookup Attempt.id t.attempts a with
  | none => .error notRunning
  | some row => require (row.status = .running) notRunning

end Traversals

/-- `is_terminal`. -/
def isTerminal (files : Files) (f : FileId) (archiveOnly : Bool) : Bool :=
  match files f with
  | none => false
  | some row => row.status.isFinal || (archiveOnly && row.archive.isSome)

/-- A terminal file stays terminal. -/
theorem RowChange.isTerminal {files files' : Files} {f : FileId} {archiveOnly : Bool}
    (h : RowChange (files f) (files' f)) (ht : isTerminal files f archiveOnly = true) :
    isTerminal files' f archiveOnly = true := by
  unfold Collection.isTerminal at ht ⊢
  cases hrow : files f with
  | none =>
    rw [hrow] at ht
    cases ht
  | some row =>
    rw [hrow] at ht h
    rcases Bool.or_eq_true _ _ ▸ ht with hfinal | harchive
    · have hkept := h.final rfl hfinal
      obtain ⟨row', hrow', hstatus⟩ := Option.map_eq_some_iff.mp hkept
      simp only [hrow']
      rw [hstatus, hfinal]
      rfl
    · obtain ⟨honly, hsome⟩ := Bool.and_eq_true _ _ ▸ harchive
      have hkept := h.archive hsome
      obtain ⟨object, hobject⟩ := Option.isSome_iff_exists.mp hkept
      obtain ⟨row', hrow', harchive'⟩ := Option.bind_eq_some_iff.mp hobject
      simp only [hrow']
      rw [harchive', honly]
      simp

/-! ## Inversions -/

namespace Traversals

variable {t t' : Traversals} {a : AttemptId}

theorem lockedRunning_eq_ok {row : Attempt} {ck : Checkpoint}
    (h : t.lockedRunning a = .ok (row, ck)) :
    lookup Attempt.id t.attempts a = some row ∧ t.checkpoints row.scope = some ck ∧
      row.status = .running := by
  unfold lockedRunning at h
  split at h
  · cases h
  · rename_i row' hrow
    split at h
    · cases h
    · rename_i ck' hck
      obtain ⟨hrunning, heq⟩ := require_bind_eq_ok.mp h
      cases heq
      exact ⟨hrow, hck, hrunning⟩

/-- An accepted advance: a running attempt at the boundary of its checkpoint moved both. -/
theorem advanceAttempt_eq_ok {expectedCursor cursor : Cursor}
    {expectedOffset pageOffset recognizedDelta unknownDelta : Nat} {result : CollectionAttempt}
    (h : t.advanceAttempt a expectedCursor expectedOffset cursor pageOffset recognizedDelta
      unknownDelta = .ok (t', result)) :
    ∃ row ck, lookup Attempt.id t.attempts a = some row ∧ row.status = .running ∧
      row.cursor = expectedCursor ∧ row.pageOffset = expectedOffset ∧
      t.checkpoints row.scope = some ck ∧ ck.cursor = expectedCursor ∧
      ck.pageOffset = expectedOffset ∧ row.generation = ck.generation ∧
      t'.checkpoints = Function.update t.checkpoints row.scope (some { ck with
        cursor := cursor
        pageOffset := pageOffset
        recognizedCount := ck.recognizedCount + recognizedDelta
        unknownCount := ck.unknownCount + unknownDelta }) ∧
      t'.attempts = updateAt Attempt.id a
        (fun r => { r with cursor := cursor, pageOffset := pageOffset }) t.attempts ∧
      result.attemptId = a := by
  obtain ⟨⟨row, ck⟩, hlocked, h⟩ := bind_eq_ok.mp h
  obtain ⟨⟨hrc, hro, hcc, hco, hgen⟩, h⟩ := require_bind_eq_ok.mp h
  cases h
  obtain ⟨hrow, hck, hrunning⟩ := lockedRunning_eq_ok hlocked
  exact ⟨row, ck, hrow, hrunning, hrc, hro, hck, hcc, hco, hgen, rfl, rfl, rfl⟩

theorem finishAttempt_eq_ok {status : FinishStatus} {complete : Bool}
    (h : t.finishAttempt a status complete = .ok t') :
    ∃ row ck, lookup Attempt.id t.attempts a = some row ∧ row.status = .running ∧
      t.checkpoints row.scope = some ck ∧
      t'.checkpoints = Function.update t.checkpoints row.scope
        (some { ck with traversalComplete := complete }) ∧
      t'.attempts =
        updateAt Attempt.id a (fun r => { r with status := status.status }) t.attempts := by
  obtain ⟨⟨row, ck⟩, hlocked, rfl⟩ := map_eq_ok.mp h
  obtain ⟨hrow, hck, hrunning⟩ := lockedRunning_eq_ok hlocked
  exact ⟨row, ck, hrow, hrunning, hck, rfl, rfl⟩

/-- The writes on checkpoints and attempts. -/
inductive Change (t : Traversals) : Traversals → Prop
  | keep : Change t t
  | begin (scope : CollectionScope) : Change t (t.beginAttempt scope).1
  | advance {t' : Traversals} {a : AttemptId} {expectedCursor cursor : Cursor}
      {expectedOffset pageOffset recognizedDelta unknownDelta : Nat} {result : CollectionAttempt}
      (h : t.advanceAttempt a expectedCursor expectedOffset cursor pageOffset recognizedDelta
        unknownDelta = .ok (t', result)) : Change t t'
  | finish {t' : Traversals} {a : AttemptId} {status : FinishStatus} {complete : Bool}
      (h : t.finishAttempt a status complete = .ok t') : Change t t'

/-! ## The order of attempts -/

/-- Attempts are numbered as they begin, and of one scope only the newest can be running. -/
structure Ordered (t : Traversals) : Prop where
  ids : t.attempts.Pairwise fun newer older => older.id < newer.id
  bound : ∀ a ∈ t.attempts, a.id < t.attempts.length
  superseded : t.attempts.Pairwise fun newer older =>
    newer.scope = older.scope → older.status ≠ .running

theorem Ordered.empty : Traversals.empty.Ordered :=
  ⟨List.Pairwise.nil, fun _ h => absurd h List.not_mem_nil, List.Pairwise.nil⟩

theorem Ordered.unique (h : t.Ordered) : UniqueOn Attempt.id t.attempts := by
  rw [UniqueOn, List.nodup_iff_pairwise_ne, List.pairwise_map]
  exact h.ids.imp fun hlt => Nat.ne_of_gt hlt

/-- Rewriting rows in place, with a status that may only stop running, keeps the order. -/
theorem Ordered.map (h : t.Ordered) {u : Attempt → Attempt} {checkpoints : CollectionScope → _}
    (hid : ∀ r, (u r).id = r.id) (hscope : ∀ r, (u r).scope = r.scope)
    (hstatus : ∀ r, (u r).status = .running → r.status = .running) :
    (⟨checkpoints, t.attempts.map u⟩ : Traversals).Ordered := by
  refine ⟨?_, ?_, ?_⟩
  · rw [List.pairwise_map]
    refine h.ids.imp fun hlt => ?_
    rw [hid, hid]
    exact hlt
  · intro a ha
    obtain ⟨r, hr, rfl⟩ := List.mem_map.mp ha
    rw [hid, List.length_map]
    exact h.bound r hr
  · rw [List.pairwise_map]
    refine h.superseded.imp fun hnot hsame hrunning => ?_
    rw [hscope, hscope] at hsame
    exact hnot hsame (hstatus _ hrunning)

theorem Ordered.beginAttempt (h : t.Ordered) (scope : CollectionScope) :
    (t.beginAttempt scope).1.Ordered := by
  have hold : (⟨t.checkpoints, t.takenOver scope⟩ : Traversals).Ordered := by
    refine h.map ?_ ?_ ?_
    · intro r
      split <;> rfl
    · intro r
      split <;> rfl
    · intro r hr
      split at hr
      · cases hr
      · exact hr
  have hlength : (t.takenOver scope).length = t.attempts.length := List.length_map _
  refine ⟨List.pairwise_cons.mpr ⟨?_, hold.ids⟩, ?_, List.pairwise_cons.mpr ⟨?_, hold.superseded⟩⟩
  · intro r hr
    rw [← hlength]
    exact hold.bound r hr
  · intro r hr
    show r.id < (t.takenOver scope).length + 1
    rcases List.mem_cons.mp hr with rfl | hr
    · rw [hlength]
      exact Nat.lt_succ_self _
    · exact Nat.lt_succ_of_lt (hold.bound r hr)
  · -- The takeover has closed every running attempt of the scope.
    intro r hr hsame hrunning
    obtain ⟨r, -, rfl⟩ := List.mem_map.mp hr
    by_cases hstale : r.scope = scope ∧ r.status = .running
    · rw [if_pos hstale] at hrunning
      cases hrunning
    · rw [if_neg hstale] at hrunning hsame
      exact hstale ⟨hsame.symm, hrunning⟩

theorem Ordered.change (h : t.Ordered) (hc : t.Change t') : t'.Ordered := by
  cases hc with
  | keep => exact h
  | begin scope => exact h.beginAttempt scope
  | advance hok =>
    obtain ⟨row, ck, -, -, -, -, -, -, -, -, -, hattempts, -⟩ := advanceAttempt_eq_ok hok
    obtain ⟨checkpoints, attempts⟩ := t'
    cases hattempts
    refine h.map ?_ ?_ ?_
    · intro r
      split <;> rfl
    · intro r
      split <;> rfl
    · intro r hr
      split at hr <;> exact hr
  | @finish t' a status complete hok =>
    obtain ⟨row, ck, -, -, -, -, hattempts⟩ := finishAttempt_eq_ok hok
    obtain ⟨checkpoints, attempts⟩ := t'
    cases hattempts
    refine h.map ?_ ?_ ?_
    · intro r
      split <;> rfl
    · intro r
      split <;> rfl
    · intro r hr
      split at hr
      · cases status <;> cases hr
      · exact hr

/-- An attempt with a newer one of its scope cannot advance the checkpoint. -/
theorem Ordered.advance_superseded (h : t.Ordered) {older newer : Attempt}
    (hold : older ∈ t.attempts) (hnew : newer ∈ t.attempts) (hlt : older.id < newer.id)
    (hsame : newer.scope = older.scope) (expectedCursor cursor : Cursor)
    (expectedOffset pageOffset recognizedDelta unknownDelta : Nat) :
    ∃ e, t.advanceAttempt older.id expectedCursor expectedOffset cursor pageOffset recognizedDelta
      unknownDelta = .error e := by
  cases hok : t.advanceAttempt older.id expectedCursor expectedOffset cursor pageOffset
      recognizedDelta unknownDelta with
  | error e => exact ⟨e, rfl⟩
  | ok result =>
    exfalso
    obtain ⟨row, ck, hrow, hrunning, -⟩ := advanceAttempt_eq_ok hok
    cases hrow.symm.trans (lookup_of_mem h.unique hold)
    -- Of the two the newer one stands first.
    obtain ⟨before, after, hsplit⟩ := List.append_of_mem hnew
    have hids := h.ids
    have hsuper := h.superseded
    rw [hsplit] at hids hsuper hold
    rw [List.pairwise_append, List.pairwise_cons] at hids hsuper
    rcases List.mem_append.mp hold with hbefore | hafter
    · exact Nat.lt_asymm hlt (hids.2.2 older hbefore newer List.mem_cons_self)
    · rcases List.mem_cons.mp hafter with rfl | hafter
      · exact Nat.lt_irrefl _ hlt
      · exact hsuper.2.1.1 older hafter hsame hrunning

/-! ## The scope of an attempt -/

def scopeOf (t : Traversals) (a : AttemptId) : Option CollectionScope :=
  (lookup Attempt.id t.attempts a).map Attempt.scope

theorem scopeOf_map {u : Attempt → Attempt} {checkpoints : CollectionScope → Option Checkpoint}
    (hid : ∀ r, (u r).id = r.id) (hscope : ∀ r, (u r).scope = r.scope) :
    (⟨checkpoints, t.attempts.map u⟩ : Traversals).scopeOf a = t.scopeOf a := by
  rw [scopeOf, lookup_map_of_key hid, scopeOf]
  cases lookup Attempt.id t.attempts a with
  | none => rfl
  | some r => exact congrArg some (hscope r)

theorem scopeOf_beginAttempt_new (scope : CollectionScope) :
    (t.beginAttempt scope).1.scopeOf (t.beginAttempt scope).2.attemptId = some scope := by
  show (lookup Attempt.id (_ :: _) t.attempts.length).map Attempt.scope = some scope
  rw [lookup_cons, if_pos rfl]
  rfl

/-- An attempt keeps its scope. -/
theorem Ordered.scopeOf_change (h : t.Ordered) (hc : t.Change t') {scope : CollectionScope}
    (ha : t.scopeOf a = some scope) : t'.scopeOf a = some scope := by
  cases hc with
  | keep => exact ha
  | begin scope' =>
    obtain ⟨row, hrow, -⟩ := Option.map_eq_some_iff.mp ha
    have hbound := h.bound row (mem_of_lookup hrow)
    rw [key_of_lookup hrow] at hbound
    have hold : (⟨t.checkpoints, t.takenOver scope'⟩ : Traversals).scopeOf a = t.scopeOf a := by
      refine scopeOf_map ?_ ?_
      · intro r
        split <;> rfl
      · intro r
        split <;> rfl
    show (lookup Attempt.id (_ :: _) a).map Attempt.scope = some scope
    rw [lookup_cons, if_neg (Nat.ne_of_gt hbound)]
    exact hold.trans ha
  | advance hok =>
    obtain ⟨row, ck, -, -, -, -, -, -, -, -, -, hattempts, -⟩ := advanceAttempt_eq_ok hok
    obtain ⟨checkpoints, attempts⟩ := t'
    cases hattempts
    refine (scopeOf_map ?_ ?_).trans ha
    · intro r
      split <;> rfl
    · intro r
      split <;> rfl
  | finish hok =>
    obtain ⟨row, ck, -, -, -, -, hattempts⟩ := finishAttempt_eq_ok hok
    obtain ⟨checkpoints, attempts⟩ := t'
    cases hattempts
    refine (scopeOf_map ?_ ?_).trans ha
    · intro r
      split <;> rfl
    · intro r
      split <;> rfl

/-! ## The boundary of a scope -/

section Boundary

variable {scope : CollectionScope} {ck ck' : Checkpoint}

/-- An advance moves the checkpoint of its own scope from the expected boundary and no other. -/
theorem advanceAttempt_checkpoint {expectedCursor cursor : Cursor}
    {expectedOffset pageOffset recognizedDelta unknownDelta : Nat} {result : CollectionAttempt}
    {own : CollectionScope}
    (hok : t.advanceAttempt a expectedCursor expectedOffset cursor pageOffset recognizedDelta
      unknownDelta = .ok (t', result)) (hown : t.scopeOf a = some own)
    (hck : t.checkpoints scope = some ck) (hck' : t'.checkpoints scope = some ck') :
    ck' = ck ∨ (own = scope ∧ expectedCursor = ck.cursor ∧ expectedOffset = ck.pageOffset ∧
      ck'.cursor = cursor ∧ ck'.pageOffset = pageOffset) := by
  obtain ⟨row, old, hrow, -, -, -, hold, hcursor, hoffset, -, hnew, -, -⟩ :=
    advanceAttempt_eq_ok hok
  rw [scopeOf, hrow, Option.map_some, Option.some.injEq] at hown
  rw [hnew] at hck'
  by_cases heq : scope = row.scope
  · subst heq
    cases hck.symm.trans hold
    rw [Function.update_self, Option.some.injEq] at hck'
    subst hck'
    exact .inr ⟨hown.symm, hcursor.symm, hoffset.symm, rfl, rfl⟩
  · rw [Function.update_of_ne heq] at hck'
    exact .inl (Option.some.inj (hck'.symm.trans hck))

/-- A new attempt leaves the boundary, or starts the next generation. -/
theorem beginAttempt_checkpoint {own : CollectionScope} (hck : t.checkpoints scope = some ck)
    (hck' : (t.beginAttempt own).1.checkpoints scope = some ck') :
    ck' = ck ∨ ck'.generation = ck.generation + 1 := by
  by_cases heq : scope = own
  · subst heq
    rw [show (t.beginAttempt scope).1.checkpoints =
      Function.update t.checkpoints scope (some (t.current scope)) from rfl,
      Function.update_self, Option.some.injEq] at hck'
    subst hck'
    simp only [current, hck, Option.getD_some]
    split
    · exact .inr rfl
    · exact .inl rfl
  · rw [show (t.beginAttempt own).1.checkpoints =
      Function.update t.checkpoints own (some (t.current own)) from rfl,
      Function.update_of_ne heq] at hck'
    exact .inl (Option.some.inj (hck'.symm.trans hck))

theorem finishAttempt_checkpoint {status : FinishStatus} {complete : Bool}
    (hok : t.finishAttempt a status complete = .ok t') (hck : t.checkpoints scope = some ck)
    (hck' : t'.checkpoints scope = some ck') :
    ck'.cursor = ck.cursor ∧ ck'.pageOffset = ck.pageOffset := by
  obtain ⟨row, old, -, -, hold, hnew, -⟩ := finishAttempt_eq_ok hok
  rw [hnew] at hck'
  by_cases heq : scope = row.scope
  · subst heq
    cases hck.symm.trans hold
    rw [Function.update_self, Option.some.injEq] at hck'
    subst hck'
    exact ⟨rfl, rfl⟩
  · rw [Function.update_of_ne heq, hck, Option.some.injEq] at hck'
    subst hck'
    exact ⟨rfl, rfl⟩

end Boundary

end Traversals

end Makolet.Collection
