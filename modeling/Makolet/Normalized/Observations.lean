import Makolet.Lib.Outcome
import Makolet.Lib.Timeline
import Makolet.Normalized.Schema

/-!
# Current and history tables

Prices and availability are kept twice: a current table with one row a key, and a history table
with one row a version. `_apply_prices`, `_apply_incoming_availability` and
`_reconcile_absent_prices` change both with the same statements, which are modelled here once,
over the compared columns `ν` and the columns `π` that are only carried along:

* `closeOpen`: `UPDATE ... SET valid_to` of the open rows of some keys;
* `insertOpen`: `INSERT INTO ... history` with `valid_to` null;
* `upsertCurrent`: `INSERT INTO current ... ON CONFLICT (retailer_item_id, store_id) DO UPDATE`;
* `applyIncoming`: the three in sequence for the rows of one file.

The history rows of one key, in the order they were inserted, are a timeline, and `Tracks` says
that the current table holds the current value of every timeline. `applyIncoming_tracks` and
`reconcileAbsent_tracks` show that the statements act on each timeline as one observation.
-/

set_option autoImplicit false

namespace Makolet.Normalized

open Makolet.Domain Makolet.Lib

/-- A row of the mapped incoming table: the key it addresses and what it says about it. -/
structure Incoming (ν π : Type) where
  key : Key
  value : ν
  details : π
  deriving DecidableEq, Repr

/-- The error of a statement that violates a constraint of the schema. -/
def constraintViolation (name : String) : Failure :=
  ⟨.database, name, 0⟩

variable {ν π : Type}

/-- Check constraint `validity_order`. -/
def History.ValidityOrder (h : History ν π) : Prop :=
  ∀ e ∈ h.validTo, h.validFrom < e

instance (h : History ν π) : Decidable h.ValidityOrder :=
  inferInstanceAs (Decidable (∀ e ∈ h.validTo, h.validFrom < e))

/-- Check constraint `observation_time_order`. -/
def Current.TimeOrder (c : Current ν π) : Prop :=
  c.firstObservedAt ≤ c.lastObservedAt

instance (c : Current ν π) : Decidable c.TimeOrder :=
  inferInstanceAs (Decidable (c.firstObservedAt ≤ c.lastObservedAt))

/-- Close the open history rows of the given keys. -/
def closeOpen (t : Time) (keys : List Key) (history : List (History ν π)) :
    Except Failure (List (History ν π)) := do
  let closed := history.map fun h =>
    if h.validTo.isNone ∧ h.key ∈ keys then { h with validTo := some t } else h
  require (∀ h ∈ closed, h.ValidityOrder) (constraintViolation "validity_order")
  pure closed

/-- Insert one open history row for each given row. -/
def insertOpen (fileId : FileId) (t : Time) (rows : List (Incoming ν π))
    (history : List (History ν π)) : Except Failure (List (History ν π)) := do
  let extended := history ++ rows.map fun r => ⟨r.key, r.value, r.details, fileId, t, none⟩
  require (Table.UniqueOn History.key (extended.filter fun h => h.validTo.isNone))
    (constraintViolation "uq_history_open")
  pure extended

section Compare

variable [DecidableEq ν]

/-- The incoming rows whose key has a current row with other values. -/
def changedRows (current : List (Current ν π)) (incoming : List (Incoming ν π)) :
    List (Incoming ν π) :=
  incoming.filter fun r =>
    (Table.lookup Current.key current r.key).any fun c => decide (c.value ≠ r.value)

/-- The incoming rows whose key has no current row or one with other values. -/
def freshOrChangedRows (current : List (Current ν π)) (incoming : List (Incoming ν π)) :
    List (Incoming ν π) :=
  incoming.filter fun r =>
    (Table.lookup Current.key current r.key).all fun c => decide (c.value ≠ r.value)

end Compare

/-- Write the incoming rows into the current table. -/
def upsertCurrent (fileId : FileId) (t : Time) (incoming : List (Incoming ν π))
    (current : List (Current ν π)) : Except Failure (List (Current ν π)) := do
  let written := Table.upsert Current.key Incoming.key
    (fun r => ⟨r.key, r.value, r.details, fileId, t, t⟩)
    (fun c r => { c with
      value := r.value
      details := r.details
      sourceFileId := fileId
      lastObservedAt := t })
    current incoming
  require (∀ c ∈ written, c.TimeOrder) (constraintViolation "observation_time_order")
  pure written

/-- The close, insert and upsert statements for the rows of one file. -/
def applyIncoming [DecidableEq ν] (fileId : FileId) (t : Time) (incoming : List (Incoming ν π))
    (obs : Observations ν π) : Except Failure (Observations ν π) := do
  let closed ← closeOpen t ((changedRows obs.current incoming).map Incoming.key) obs.history
  let history ← insertOpen fileId t (freshOrChangedRows obs.current incoming) closed
  let current ← upsertCurrent fileId t incoming obs.current
  pure ⟨current, history⟩

/-- Give each of the given keys the same value: close, insert and update by key. -/
def reconcileAbsent (fileId : FileId) (t : Time) (missing : List Key) (value : ν) (details : π)
    (obs : Observations ν π) : Except Failure (Observations ν π) := do
  let closed ← closeOpen t missing obs.history
  let history ← insertOpen fileId t (missing.map fun k => ⟨k, value, details⟩) closed
  let current := obs.current.map fun c =>
    if c.key ∈ missing then
      { c with value := value, sourceFileId := fileId, lastObservedAt := t }
    else c
  require (∀ c ∈ current, c.TimeOrder) (constraintViolation "observation_time_order")
  pure ⟨current, history⟩

/-! ## Timelines of keys -/

/-- A history row as a version. -/
def History.version (h : History ν π) : Version ν Time :=
  ⟨h.value, h.validFrom, h.validTo⟩

/-- The timeline of a key: its history rows in insertion order. -/
def timeline (history : List (History ν π)) (k : Key) : List (Version ν Time) :=
  (history.filter fun h => decide (h.key = k)).map History.version

/-- The current value of a key. -/
def currentValue (current : List (Current ν π)) (k : Key) : Option ν :=
  (Table.lookup Current.key current k).map Current.value

theorem timeline_append (history more : List (History ν π)) (k : Key) :
    timeline (history ++ more) k = timeline history k ++ timeline more k := by
  rw [timeline, List.filter_append, List.map_append]
  rfl

theorem closeOpen_eq_ok {t : Time} {keys : List Key} {history closed : List (History ν π)}
    (h : closeOpen t keys history = .ok closed) :
    closed = history.map (fun h =>
      if h.validTo.isNone ∧ h.key ∈ keys then { h with validTo := some t } else h) ∧
      ∀ h ∈ closed, h.ValidityOrder := by
  obtain ⟨hc, hp⟩ := require_bind_eq_ok.mp h
  rw [pure_eq_ok] at hp
  exact ⟨hp.symm, hp ▸ hc⟩

theorem insertOpen_eq_ok {fileId : FileId} {t : Time} {rows : List (Incoming ν π)}
    {history extended : List (History ν π)} (h : insertOpen fileId t rows history = .ok extended) :
    extended = history ++ rows.map fun r => ⟨r.key, r.value, r.details, fileId, t, none⟩ := by
  obtain ⟨-, hp⟩ := require_bind_eq_ok.mp h
  rw [pure_eq_ok] at hp
  exact hp.symm

/-- Closing acts on the timelines of the given keys only. -/
theorem timeline_closeOpen {t : Time} {keys : List Key} {history closed : List (History ν π)}
    (h : closeOpen t keys history = .ok closed) (k : Key) :
    timeline closed k =
      if k ∈ keys then Timeline.close t (timeline history k) else timeline history k := by
  rw [(closeOpen_eq_ok h).1]
  clear h
  induction history with
  | nil => split <;> rfl
  | cons a rest ih =>
    have hcons : ∀ (b : History ν π) (l : List (History ν π)), timeline (b :: l) k =
        if b.key = k then b.version :: timeline l k else timeline l k := by
      intro b l
      by_cases hb : b.key = k <;> simp [timeline, hb]
    rw [List.map_cons, hcons, hcons, ih]
    by_cases hk : a.key = k
    · subst hk
      by_cases hin : a.key ∈ keys <;> cases hto : a.validTo <;>
        simp [hin, hto, Timeline.close, History.version]
    · have hkey : (if a.validTo.isNone ∧ a.key ∈ keys then
          { a with validTo := some t } else a).key ≠ k := by
        split <;> exact hk
      rw [if_neg hkey, if_neg hk]

/-- Inserting appends the given rows of the key as open versions. -/
theorem timeline_insertOpen {fileId : FileId} {t : Time} {rows : List (Incoming ν π)}
    {history extended : List (History ν π)} (h : insertOpen fileId t rows history = .ok extended)
    (k : Key) :
    timeline extended k = timeline history k ++
      (rows.filter fun r => decide (r.key = k)).map fun r => ⟨r.value, t, none⟩ := by
  rw [insertOpen_eq_ok h, timeline_append]
  congr 1
  rw [timeline, List.filter_map, List.map_map]
  rfl

section Compare

variable [DecidableEq ν]

/-- Which rows of a key are inserted: its incoming row, unless it repeats the current values. -/
theorem freshOrChangedRows_filter {current : List (Current ν π)} {incoming : List (Incoming ν π)}
    (hu : Table.UniqueOn Incoming.key incoming) (k : Key) :
    (freshOrChangedRows current incoming).filter (fun r => decide (r.key = k)) =
      ((Table.lookup Incoming.key incoming k).filter fun r =>
        decide (currentValue current k ≠ some r.value)).toList := by
  have hcomm : (freshOrChangedRows current incoming).filter (fun r => decide (r.key = k)) =
      ((incoming.filter fun r => decide (r.key = k)).filter fun r =>
        (Table.lookup Current.key current r.key).all fun c => decide (c.value ≠ r.value)) := by
    rw [freshOrChangedRows, List.filter_filter, List.filter_filter]
    exact List.filter_congr fun r _ => Bool.and_comm _ _
  rw [hcomm, Table.filter_key_eq_lookup hu]
  cases hin : Table.lookup Incoming.key incoming k with
  | none => rfl
  | some r =>
    have hk : r.key = k := Table.key_of_lookup hin
    rw [Option.toList_some, List.filter_cons, hk, currentValue]
    cases Table.lookup Current.key current k with
    | none => simp [Option.filter]
    | some c => by_cases hv : c.value = r.value <;> simp [Option.filter, hv]

theorem mem_changedRows_keys {current : List (Current ν π)} {incoming : List (Incoming ν π)}
    (hu : Table.UniqueOn Incoming.key incoming) (k : Key) :
    k ∈ (changedRows current incoming).map Incoming.key ↔
      ∃ r, Table.lookup Incoming.key incoming k = some r ∧
        ∃ x, currentValue current k = some x ∧ x ≠ r.value := by
  constructor
  · intro h
    obtain ⟨r, hr, rfl⟩ := List.mem_map.mp h
    obtain ⟨hin, hany⟩ := List.mem_filter.mp hr
    cases hc : Table.lookup Current.key current r.key with
    | none => rw [hc] at hany; cases hany
    | some c =>
      rw [hc] at hany
      refine ⟨r, Table.lookup_of_mem hu hin, c.value, ?_, of_decide_eq_true hany⟩
      rw [currentValue, hc]
      rfl
  · rintro ⟨r, hr, x, hx, hne⟩
    obtain ⟨c, hc, rfl⟩ := Option.map_eq_some_iff.mp hx
    have hk : r.key = k := Table.key_of_lookup hr
    refine List.mem_map.mpr ⟨r, List.mem_filter.mpr ⟨Table.mem_of_lookup hr, ?_⟩, hk⟩
    rw [hk, hc]
    exact decide_eq_true hne

end Compare

/-! ## The invariant -/

/-- The current table holds the current value of every timeline. -/
structure Tracks (obs : Observations ν π) : Prop where
  unique : Table.UniqueOn Current.key obs.current
  wellFormed : ∀ k, Timeline.WellFormed (timeline obs.history k)
  agrees : ∀ k, currentValue obs.current k = Timeline.current (timeline obs.history k)

/-- Every version starts before `t`. -/
def StartsBefore (t : Time) (obs : Observations ν π) : Prop :=
  ∀ h ∈ obs.history, h.validFrom < t

theorem Tracks.empty : Tracks (⟨[], []⟩ : Observations ν π) where
  unique := List.nodup_nil
  wellFormed _ := Timeline.WellFormed.nil
  agrees _ := rfl

theorem StartsBefore.start_lt {t : Time} {obs : Observations ν π} (h : StartsBefore t obs) (k : Key) :
    ∀ v ∈ timeline obs.history k, v.start < t := by
  intro v hv
  obtain ⟨a, ha, rfl⟩ := List.mem_map.mp hv
  exact h a (List.mem_filter.mp ha).1

/-- The invariant holds again when every timeline either made one observation or stayed, and the
current table followed it. -/
theorem Tracks.of_observe [DecidableEq ν] {obs obs' : Observations ν π} {t : Time}
    (h : Tracks obs) (hunique : Table.UniqueOn Current.key obs'.current) (observed : Key → Option ν)
    (hbefore : ∀ k x, observed k = some x → ∀ v ∈ timeline obs.history k, v.start < t)
    (htimeline : ∀ k, timeline obs'.history k = match observed k with
      | some x => Timeline.observe t x (timeline obs.history k)
      | none => timeline obs.history k)
    (hcurrent : ∀ k, currentValue obs'.current k = match observed k with
      | some x => some x
      | none => currentValue obs.current k) : Tracks obs' where
  unique := hunique
  wellFormed k := by
    rw [htimeline k]
    cases hk : observed k with
    | none => exact h.wellFormed k
    | some x => exact (h.wellFormed k).observe (hbefore k x hk)
  agrees k := by
    rw [htimeline k, hcurrent k]
    cases observed k with
    | none => exact h.agrees k
    | some x => exact (Timeline.current_observe _).symm

section Statements

variable {fileId : FileId} {t : Time}

theorem upsertCurrent_eq_ok {incoming : List (Incoming ν π)} {current written : List (Current ν π)}
    (h : upsertCurrent fileId t incoming current = .ok written) (k : Key) :
    currentValue written k = match Table.lookup Incoming.key incoming k with
      | some r => some r.value
      | none => currentValue current k := by
  obtain ⟨-, hp⟩ := require_bind_eq_ok.mp h
  rw [pure_eq_ok] at hp
  subst hp
  have hlookup := @Table.lookup_upsert _ _ _ _ Current.key Incoming.key
    (fun r => (⟨r.key, r.value, r.details, fileId, t, t⟩ : Current ν π))
    (fun c r => { c with
      value := r.value
      details := r.details
      sourceFileId := fileId
      lastObservedAt := t })
    current incoming (fun _ => rfl) (fun _ _ => rfl) k
  rw [currentValue, hlookup]
  cases Table.lookup Incoming.key incoming k <;> cases hold : Table.lookup Current.key current k <;>
    simp [currentValue, hold]

theorem upsertCurrent_unique {incoming : List (Incoming ν π)} {current written : List (Current ν π)}
    (h : upsertCurrent fileId t incoming current = .ok written)
    (hcurrent : Table.UniqueOn Current.key current)
    (hincoming : Table.UniqueOn Incoming.key incoming) : Table.UniqueOn Current.key written := by
  obtain ⟨-, hp⟩ := require_bind_eq_ok.mp h
  rw [pure_eq_ok] at hp
  rw [← hp]
  exact Table.upsert_unique (fun _ => rfl) (fun _ _ => rfl) hcurrent hincoming

theorem reconcileAbsent_eq_ok {missing : List Key} {value : ν} {details : π}
    {obs obs' : Observations ν π}
    (h : reconcileAbsent fileId t missing value details obs = .ok obs') :
    (∃ closed, closeOpen t missing obs.history = .ok closed ∧
      insertOpen fileId t (missing.map fun k => ⟨k, value, details⟩) closed = .ok obs'.history) ∧
      obs'.current = obs.current.map fun c =>
        if c.key ∈ missing then
          { c with value := value, sourceFileId := fileId, lastObservedAt := t }
        else c := by
  obtain ⟨closed, hclosed, h⟩ := bind_eq_ok.mp h
  obtain ⟨history, hhistory, h⟩ := bind_eq_ok.mp h
  obtain ⟨-, h⟩ := require_bind_eq_ok.mp h
  rw [pure_eq_ok] at h
  subst h
  exact ⟨⟨closed, hclosed, hhistory⟩, rfl⟩

/-- No statement opens a version at another time than its own. -/
theorem validFrom_of_closed_insert {keys : List Key} {rows : List (Incoming ν π)}
    {history closed extended : List (History ν π)} (hclosed : closeOpen t keys history = .ok closed)
    (hinsert : insertOpen fileId t rows closed = .ok extended) {b : Time}
    (hbound : ∀ h ∈ history, h.validFrom < b) (ht : t < b) : ∀ h ∈ extended, h.validFrom < b := by
  intro h hh
  rw [insertOpen_eq_ok hinsert] at hh
  rcases List.mem_append.mp hh with hold | hnew
  · rw [(closeOpen_eq_ok hclosed).1] at hold
    obtain ⟨a, ha, rfl⟩ := List.mem_map.mp hold
    have hfrom : (if a.validTo.isNone ∧ a.key ∈ keys then
        { a with validTo := some t } else a).validFrom = a.validFrom := by
      split <;> rfl
    rw [hfrom]
    exact hbound a ha
  · obtain ⟨r, -, rfl⟩ := List.mem_map.mp hnew
    exact ht

theorem reconcileAbsent_current {missing : List Key} {value : ν} {details : π}
    {obs obs' : Observations ν π}
    (h : reconcileAbsent fileId t missing value details obs = .ok obs')
    (hpresent : ∀ k ∈ missing, (currentValue obs.current k).isSome) (k : Key) :
    currentValue obs'.current k =
      if k ∈ missing then some value else currentValue obs.current k := by
  obtain ⟨-, hcurrent⟩ := reconcileAbsent_eq_ok h
  have hkey : ∀ c : Current ν π, (if c.key ∈ missing then
      { c with value := value, sourceFileId := fileId, lastObservedAt := t } else c).key = c.key := by
    intro c
    split <;> rfl
  rw [currentValue, hcurrent, Table.lookup_map_of_key hkey]
  cases hc : Table.lookup Current.key obs.current k with
  | none =>
    have hnot : k ∉ missing := by
      intro hk
      have hsome := hpresent k hk
      rw [currentValue, hc] at hsome
      cases hsome
    rw [if_neg hnot, currentValue, hc]
    rfl
  | some c =>
    have hck : c.key = k := Table.key_of_lookup hc
    by_cases hk : k ∈ missing <;> simp [hck, hk, currentValue, hc]

theorem reconcileAbsent_startsBefore {missing : List Key} {value : ν} {details : π}
    {obs obs' : Observations ν π}
    (h : reconcileAbsent fileId t missing value details obs = .ok obs') {b : Time}
    (hbefore : StartsBefore b obs) (ht : t < b) : StartsBefore b obs' := by
  obtain ⟨⟨closed, hclosed, hhistory⟩, -⟩ := reconcileAbsent_eq_ok h
  exact validFrom_of_closed_insert hclosed hhistory hbefore ht

variable [DecidableEq ν]

theorem applyIncoming_eq_ok {incoming : List (Incoming ν π)} {obs obs' : Observations ν π}
    (h : applyIncoming fileId t incoming obs = .ok obs') :
    ∃ closed, closeOpen t ((changedRows obs.current incoming).map Incoming.key) obs.history =
        .ok closed ∧
      insertOpen fileId t (freshOrChangedRows obs.current incoming) closed = .ok obs'.history ∧
      upsertCurrent fileId t incoming obs.current = .ok obs'.current := by
  obtain ⟨closed, hclosed, h⟩ := bind_eq_ok.mp h
  obtain ⟨history, hhistory, h⟩ := bind_eq_ok.mp h
  obtain ⟨current, hcurrent, h⟩ := bind_eq_ok.mp h
  rw [pure_eq_ok] at h
  subst h
  exact ⟨closed, hclosed, hhistory, hcurrent⟩

/-- The close and insert statements make one observation on the timeline of an incoming key and
leave every other timeline as it is. -/
theorem timeline_applyIncoming {incoming : List (Incoming ν π)} {obs obs' : Observations ν π}
    (h : applyIncoming fileId t incoming obs = .ok obs') (htracks : Tracks obs)
    (hu : Table.UniqueOn Incoming.key incoming) (k : Key) :
    timeline obs'.history k = match Table.lookup Incoming.key incoming k with
      | some r => Timeline.observe t r.value (timeline obs.history k)
      | none => timeline obs.history k := by
  obtain ⟨closed, hclosed, hhistory, -⟩ := applyIncoming_eq_ok h
  rw [timeline_insertOpen hhistory, timeline_closeOpen hclosed, freshOrChangedRows_filter hu]
  have hchanged : k ∈ (changedRows obs.current incoming).map Incoming.key ↔ _ :=
    mem_changedRows_keys hu k
  cases hin : Table.lookup Incoming.key incoming k with
  | none =>
    have hnot : k ∉ (changedRows obs.current incoming).map Incoming.key := by
      rw [hchanged, hin]
      rintro ⟨r, hr, -⟩
      cases hr
    rw [if_neg hnot]
    exact List.append_nil _
  | some r =>
    show _ = Timeline.observe t r.value (timeline obs.history k)
    have hagrees := htracks.agrees k
    rw [hin] at hchanged
    by_cases hsame : currentValue obs.current k = some r.value
    · have hnot : k ∉ (changedRows obs.current incoming).map Incoming.key := by
        rw [hchanged]
        rintro ⟨s, hs, x, hx, hne⟩
        cases hs
        rw [hsame] at hx
        cases hx
        exact hne rfl
      rw [if_neg hnot, Timeline.observe_same (hagrees ▸ hsame)]
      simp [Option.filter, hsame]
    · have hobserve : Timeline.observe t r.value (timeline obs.history k) =
          Timeline.close t (timeline obs.history k) ++ [⟨r.value, t, none⟩] :=
        if_neg (hagrees ▸ hsame)
      rw [hobserve]
      cases hc : currentValue obs.current k with
      | none =>
        -- A key without a current row has an empty timeline, so there is nothing to close.
        rw [hc] at hagrees
        rw [(htracks.wellFormed k).eq_nil hagrees.symm]
        simp [Option.filter, Timeline.close]
      | some x =>
        have hmem : k ∈ (changedRows obs.current incoming).map Incoming.key :=
          hchanged.mpr ⟨r, rfl, x, hc, fun hx => hsame (hx ▸ hc)⟩
        rw [if_pos hmem]
        have hne : x ≠ r.value := fun hx => hsame (hx ▸ hc)
        simp [Option.filter, hne]

theorem applyIncoming_tracks {incoming : List (Incoming ν π)} {obs obs' : Observations ν π}
    (h : applyIncoming fileId t incoming obs = .ok obs') (htracks : Tracks obs)
    (hbefore : StartsBefore t obs) (hu : Table.UniqueOn Incoming.key incoming) : Tracks obs' := by
  obtain ⟨-, -, -, hcurrent⟩ := applyIncoming_eq_ok h
  refine htracks.of_observe (upsertCurrent_unique hcurrent htracks.unique hu)
    (fun k => (Table.lookup Incoming.key incoming k).map Incoming.value)
    (fun k x _ => hbefore.start_lt k) (fun k => ?_) (fun k => ?_)
  · rw [timeline_applyIncoming h htracks hu k]
    cases Table.lookup Incoming.key incoming k <;> rfl
  · rw [upsertCurrent_eq_ok hcurrent k]
    cases Table.lookup Incoming.key incoming k <;> rfl

/-- Reconciliation makes one observation on the timeline of each missing key. It closes the open
version without comparing, so the missing keys must hold another value. -/
theorem timeline_reconcileAbsent {missing : List Key} {value : ν} {details : π}
    {obs obs' : Observations ν π}
    (h : reconcileAbsent fileId t missing value details obs = .ok obs') (htracks : Tracks obs)
    (hnodup : missing.Nodup)
    (hother : ∀ k ∈ missing, currentValue obs.current k ≠ some value) (k : Key) :
    timeline obs'.history k =
      if k ∈ missing then Timeline.observe t value (timeline obs.history k)
      else timeline obs.history k := by
  obtain ⟨⟨closed, hclosed, hhistory⟩, -⟩ := reconcileAbsent_eq_ok h
  rw [timeline_insertOpen hhistory, timeline_closeOpen hclosed]
  have hunique : Table.UniqueOn Incoming.key
      (missing.map fun k => (⟨k, value, details⟩ : Incoming ν π)) := by
    rw [Table.UniqueOn, List.map_map]
    exact (List.map_id missing).symm ▸ hnodup
  have hrows : Table.lookup Incoming.key
      (missing.map fun k => (⟨k, value, details⟩ : Incoming ν π)) k =
      if k ∈ missing then some ⟨k, value, details⟩ else none := by
    split
    · rename_i hk
      exact Table.lookup_of_mem hunique (List.mem_map.mpr ⟨k, hk, rfl⟩)
    · rename_i hk
      rw [Table.lookup_eq_none]
      intro r hr hrk
      obtain ⟨j, hj, rfl⟩ := List.mem_map.mp hr
      exact hk (hrk ▸ hj)
  rw [Table.filter_key_eq_lookup hunique, hrows]
  by_cases hk : k ∈ missing
  · rw [if_pos hk, if_pos hk, if_pos hk]
    exact (if_neg (htracks.agrees k ▸ hother k hk)).symm
  · rw [if_neg hk, if_neg hk, if_neg hk]
    exact List.append_nil _

theorem reconcileAbsent_tracks {missing : List Key} {value : ν} {details : π}
    {obs obs' : Observations ν π}
    (h : reconcileAbsent fileId t missing value details obs = .ok obs') (htracks : Tracks obs)
    (hnodup : missing.Nodup)
    (hother : ∀ k ∈ missing, ∃ x, currentValue obs.current k = some x ∧ x ≠ value)
    (hbefore : ∀ k ∈ missing, ∀ v ∈ timeline obs.history k, v.start < t) : Tracks obs' := by
  have hne : ∀ k ∈ missing, currentValue obs.current k ≠ some value := by
    intro k hk heq
    obtain ⟨x, hx, hxv⟩ := hother k hk
    rw [hx, Option.some.injEq] at heq
    exact hxv heq
  have hsome : ∀ k ∈ missing, (currentValue obs.current k).isSome := by
    intro k hk
    obtain ⟨x, hx, -⟩ := hother k hk
    rw [hx]
    rfl
  refine htracks.of_observe (t := t) ?_ (fun k => if k ∈ missing then some value else none)
    (fun k x hx => ?_) (fun k => ?_) (fun k => ?_)
  · rw [Table.UniqueOn, (reconcileAbsent_eq_ok h).2, List.map_map]
    refine (List.map_congr_left fun c _ => ?_).symm ▸ htracks.unique
    show (if c.key ∈ missing then _ else c).key = c.key
    split <;> rfl
  · by_cases hk : k ∈ missing
    · exact hbefore k hk
    · rw [if_neg hk] at hx
      cases hx
  · rw [timeline_reconcileAbsent h htracks hnodup hne k]
    by_cases hk : k ∈ missing <;> simp [hk]
  · rw [reconcileAbsent_current h hsome k]
    by_cases hk : k ∈ missing <;> simp [hk]

theorem applyIncoming_startsBefore {incoming : List (Incoming ν π)} {obs obs' : Observations ν π}
    (h : applyIncoming fileId t incoming obs = .ok obs') {b : Time} (hbefore : StartsBefore b obs)
    (ht : t < b) : StartsBefore b obs' := by
  obtain ⟨closed, hclosed, hhistory, -⟩ := applyIncoming_eq_ok h
  exact validFrom_of_closed_insert hclosed hhistory hbefore ht

end Statements

end Makolet.Normalized
