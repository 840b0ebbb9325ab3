import Makolet.Normalized.Prices

/-!
# Price and availability history agrees with the current state

Over a run of accepted price applies with strictly increasing `applied_at`, every key of the
current tables has one open history row with the current values, the rows of a key tile the time
since its first observation, and no apply adds a row to a key whose values it leaves alone. The
step lemma is `applyPrices_tracks`; the run lemma is `applyPriceRun_tracks`.
-/

set_option autoImplicit false

namespace Makolet.Normalized

open Makolet.Domain Makolet.Lib

variable {ν π : Type}

/-! ## What a reader of the tables relies on -/

/-- The history rows of a key, in insertion order. -/
def rowsOf (history : List (History ν π)) (k : Key) : List (History ν π) :=
  history.filter fun h => decide (h.key = k)

/-- The instant lies in `[valid_from, valid_to)`. -/
def History.Contains (h : History ν π) (t : Time) : Prop :=
  h.validFrom ≤ t ∧ ∀ e ∈ h.validTo, t < e

/-- The history rows of a key and its current row agree. -/
structure HistoryAgrees (obs : Observations ν π) (k : Key) : Prop where
  /-- A key of the current table has exactly one open row, with the current values. -/
  one_open : ∀ c ∈ obs.current, c.key = k →
    ∃ h, (rowsOf obs.history k).filter (fun h => h.validTo.isNone) = [h] ∧ h.value = c.value
  /-- The rows are in the order of their starts. -/
  ordered : (rowsOf obs.history k).Pairwise fun a b => a.validFrom < b.validFrom
  disjoint : (rowsOf obs.history k).Pairwise fun a b => ∀ t, ¬ (a.Contains t ∧ b.Contains t)
  /-- Each row but the last ends where the next one starts, and the next one has other values. -/
  contiguous : (rowsOf obs.history k).IsChain fun a b =>
    a.validTo = some b.validFrom ∧ a.value ≠ b.value
  /-- A closed row is never the last. -/
  last_open : ∀ h ∈ (rowsOf obs.history k).getLast?, h.validTo = none
  /-- A key that the current table does not have has no history. -/
  absent : (∀ c ∈ obs.current, c.key ≠ k) → rowsOf obs.history k = []

theorem timeline_eq_map_rowsOf (history : List (History ν π)) (k : Key) :
    timeline history k = (rowsOf history k).map History.version := rfl

theorem Tracks.historyAgrees {obs : Observations ν π} (h : Tracks obs) (k : Key) :
    HistoryAgrees obs k := by
  have hwf := h.wellFormed k
  have hpair := Timeline.pairwise_before_of_chain hwf.chain
  rw [timeline_eq_map_rowsOf, List.pairwise_map] at hpair
  refine ⟨?_, ?_, ?_, ?_, ?_, ?_⟩
  · intro c hc hck
    have hcurrent : currentValue obs.current k = some c.value := by
      rw [currentValue, ← hck, Table.lookup_of_mem h.unique hc]
      rfl
    obtain ⟨v, hv, hval⟩ := hwf.filter_open ((h.agrees k).symm.trans hcurrent)
    rw [timeline_eq_map_rowsOf, List.filter_map] at hv
    obtain ⟨a, ha, rfl⟩ := List.map_eq_singleton_iff.mp hv
    exact ⟨a, ha, hval⟩
  · exact hpair.imp fun hab => hab.2
  · exact hpair.imp fun hab t ht => hab.1.disjoint t ht
  · have hchain := hwf.chain
    rw [timeline_eq_map_rowsOf, List.isChain_map] at hchain
    exact hchain.imp fun _ _ hab => ⟨hab.1, hab.2.2⟩
  · intro a ha
    refine hwf.last_open a.version ?_
    rw [timeline_eq_map_rowsOf, List.getLast?_map, Option.mem_def.mp ha]
    rfl
  · intro hnone
    have hcurrent : currentValue obs.current k = none := by
      rw [currentValue, Option.map_eq_none_iff, Table.lookup_eq_none]
      exact hnone
    have hnil := hwf.eq_nil ((h.agrees k).symm.trans hcurrent)
    rw [timeline_eq_map_rowsOf, List.map_eq_nil_iff] at hnil
    exact hnil

/-! ## One apply -/

/-- What an accepted apply does to the two observation tables. -/
structure PriceEffect (a : DocumentApply) (t t' : Tables) (mapped : List MappedPrice)
    (mid : Tables) : Prop where
  unique : Table.UniqueOn MappedPrice.key mapped
  prices : applyIncoming a.parameters.sourceFileId a.parameters.appliedAt
    (mapped.map MappedPrice.price) t.prices = .ok t'.prices
  availability : applyIncoming a.parameters.sourceFileId a.parameters.appliedAt
    (mapped.map MappedPrice.availability) t.availability = .ok mid.availability
  delta : a.isFull = false → t'.availability = mid.availability
  full : a.isFull = true →
    reconcileAbsent a.parameters.sourceFileId a.parameters.appliedAt
      (missingPriceKeys a.parameters a.staging mid (mapped.map MappedPrice.key)) unavailable ()
      mid.availability = .ok t'.availability

theorem applyPrices_effect {a : DocumentApply} {t t' : Tables} {summary : ApplySummary}
    (h : applyPrices a t = .ok (t', summary)) : ∃ mapped mid, PriceEffect a t t' mapped mid := by
  obtain ⟨t₁, t₂, t₃, maps, mapped, prices, availability, final, hstores, hitems, -, hmapped,
    hgtins, hprices, havailability, rfl, hdelta, hfull⟩ := applyPrices_eq_ok h
  have hp : t₃.prices = t.prices := by
    rw [matchExactGtins_frame hgtins, upsertRetailerItems_frame hitems,
      upsertPriceStores_frame hstores]
  have ha : t₃.availability = t.availability := by
    rw [matchExactGtins_frame hgtins, upsertRetailerItems_frame hitems,
      upsertPriceStores_frame hstores]
  rw [hp] at hprices
  rw [ha] at havailability
  exact ⟨mapped, { t₃ with prices := prices, availability := availability },
    materializeMappedPriceIncoming_unique hmapped, hprices, havailability, hdelta, hfull⟩

theorem uniqueOn_map_price {mapped : List MappedPrice}
    (h : Table.UniqueOn MappedPrice.key mapped) :
    Table.UniqueOn Incoming.key (mapped.map MappedPrice.price) := by
  rw [Table.UniqueOn, List.map_map]
  exact h

theorem uniqueOn_map_availability {mapped : List MappedPrice}
    (h : Table.UniqueOn MappedPrice.key mapped) :
    Table.UniqueOn Incoming.key (mapped.map MappedPrice.availability) := by
  rw [Table.UniqueOn, List.map_map]
  exact h

theorem missingPriceKeys_nodup (p : ApplyParameters) (s : Staging) (t : Tables)
    (incoming : List Key) : (missingPriceKeys p s t incoming).Nodup :=
  List.Nodup.filter _ (List.nodup_dedup _)

/-- A missing key is available so far and not among the incoming ones. -/
theorem of_mem_missingPriceKeys {p : ApplyParameters} {s : Staging} {t : Tables}
    {incoming : List Key} {k : Key} (hu : Table.UniqueOn Current.key t.availability.current)
    (hk : k ∈ missingPriceKeys p s t incoming) :
    k ∉ incoming ∧ ∃ x, currentValue t.availability.current k = some x ∧ x ≠ unavailable := by
  obtain ⟨hmem, hnot⟩ := List.mem_filter.mp hk
  obtain ⟨c, hc, rfl⟩ := List.mem_map.mp (List.mem_dedup.mp hmem)
  obtain ⟨hcur, hcond⟩ := List.mem_filter.mp hc
  refine ⟨of_decide_eq_true hnot, c.value, ?_, ?_⟩
  · rw [currentValue, Table.lookup_of_mem hu hcur]
    rfl
  · intro hval
    rw [Bool.and_eq_true, hval] at hcond
    exact Bool.false_ne_true hcond.1

/-- A key that is not mapped has no incoming availability. -/
theorem lookup_availability_of_not_mem {mapped : List MappedPrice} {k : Key}
    (hk : k ∉ mapped.map MappedPrice.key) :
    Table.lookup Incoming.key (mapped.map MappedPrice.availability) k = none := by
  rw [Table.lookup_eq_none]
  intro r hr hrk
  obtain ⟨m, hm, rfl⟩ := List.mem_map.mp hr
  exact hk (List.mem_map.mpr ⟨m, hm, hrk⟩)

section Step

variable {a : DocumentApply} {t t' : Tables} {summary : ApplySummary}

/-- The missing keys of a full snapshot keep their timeline through the incoming rows. -/
theorem PriceEffect.timeline_missing {mapped : List MappedPrice} {mid : Tables}
    (heffect : PriceEffect a t t' mapped mid) (htracks : Tracks t.availability) {k : Key}
    (hk : k ∉ mapped.map MappedPrice.key) :
    timeline mid.availability.history k = timeline t.availability.history k := by
  rw [timeline_applyIncoming heffect.availability htracks
    (uniqueOn_map_availability heffect.unique) k, lookup_availability_of_not_mem hk]

/-- One accepted apply later than every version keeps both tables in agreement. -/
theorem applyPrices_tracks (h : applyPrices a t = .ok (t', summary))
    (hprices : Tracks t.prices) (havailability : Tracks t.availability)
    (hbefore : StartsBefore a.parameters.appliedAt t.prices)
    (hbefore' : StartsBefore a.parameters.appliedAt t.availability) :
    Tracks t'.prices ∧ Tracks t'.availability := by
  obtain ⟨mapped, mid, heffect⟩ := applyPrices_effect h
  have hmid := applyIncoming_tracks heffect.availability havailability hbefore'
    (uniqueOn_map_availability heffect.unique)
  refine ⟨applyIncoming_tracks heffect.prices hprices hbefore
    (uniqueOn_map_price heffect.unique), ?_⟩
  cases hfull : a.isFull with
  | false => exact (heffect.delta hfull).symm ▸ hmid
  | true =>
    refine reconcileAbsent_tracks (heffect.full hfull) hmid (missingPriceKeys_nodup _ _ _ _)
      (fun k hk => (of_mem_missingPriceKeys hmid.unique hk).2) (fun k hk v hv => ?_)
    rw [heffect.timeline_missing havailability (of_mem_missingPriceKeys hmid.unique hk).1] at hv
    exact hbefore'.start_lt k v hv

theorem applyPrices_startsBefore (h : applyPrices a t = .ok (t', summary)) {b : Time}
    (hbefore : StartsBefore b t.prices ∧ StartsBefore b t.availability)
    (ht : a.parameters.appliedAt < b) :
    StartsBefore b t'.prices ∧ StartsBefore b t'.availability := by
  obtain ⟨mapped, mid, heffect⟩ := applyPrices_effect h
  have hmid := applyIncoming_startsBefore heffect.availability hbefore.2 ht
  refine ⟨applyIncoming_startsBefore heffect.prices hbefore.1 ht, ?_⟩
  cases hfull : a.isFull with
  | false =>
    rw [heffect.delta hfull]
    exact hmid
  | true => exact reconcileAbsent_startsBefore (heffect.full hfull) hmid ht

/-- An incoming row that repeats the current values leaves the timeline of its key alone. -/
theorem timeline_applyIncoming_same {ν π : Type} [DecidableEq ν] {fileId : FileId} {at' : Time}
    {incoming : List (Incoming ν π)} {obs obs' : Observations ν π}
    (h : applyIncoming fileId at' incoming obs = .ok obs') (htracks : Tracks obs)
    (hu : Table.UniqueOn Incoming.key incoming) {k : Key}
    (hsame : currentValue obs'.current k = currentValue obs.current k) :
    timeline obs'.history k = timeline obs.history k := by
  obtain ⟨-, -, -, hcurrent⟩ := applyIncoming_eq_ok h
  rw [timeline_applyIncoming h htracks hu k]
  rw [upsertCurrent_eq_ok hcurrent k] at hsame
  cases hin : Table.lookup Incoming.key incoming k with
  | none => rfl
  | some r =>
    rw [hin] at hsame
    exact Timeline.observe_same ((htracks.agrees k).symm.trans hsame.symm)

/-- An apply adds no version to a key whose values are the same before and after it. -/
theorem applyPrices_timeline_same (h : applyPrices a t = .ok (t', summary))
    (hprices : Tracks t.prices) (havailability : Tracks t.availability)
    (hbefore : StartsBefore a.parameters.appliedAt t.availability) (k : Key) :
    (currentValue t'.prices.current k = currentValue t.prices.current k →
        timeline t'.prices.history k = timeline t.prices.history k) ∧
      (currentValue t'.availability.current k = currentValue t.availability.current k →
        timeline t'.availability.history k = timeline t.availability.history k) := by
  obtain ⟨mapped, mid, heffect⟩ := applyPrices_effect h
  have hunique := uniqueOn_map_availability heffect.unique
  have hmid := applyIncoming_tracks heffect.availability havailability hbefore hunique
  refine ⟨timeline_applyIncoming_same heffect.prices hprices (uniqueOn_map_price heffect.unique),
    fun hsame => ?_⟩
  cases hfull : a.isFull with
  | false =>
    rw [heffect.delta hfull] at hsame ⊢
    exact timeline_applyIncoming_same heffect.availability havailability hunique hsame
  | true =>
    have hmissing := fun j (hj : j ∈ missingPriceKeys a.parameters a.staging mid
      (mapped.map MappedPrice.key)) => of_mem_missingPriceKeys hmid.unique hj
    have hother : ∀ j ∈ missingPriceKeys a.parameters a.staging mid (mapped.map MappedPrice.key),
        currentValue mid.availability.current j ≠ some unavailable := by
      intro j hj heq
      obtain ⟨x, hx, hne⟩ := (hmissing j hj).2
      exact hne (Option.some.inj (hx.symm.trans heq))
    have hpresent : ∀ j ∈ missingPriceKeys a.parameters a.staging mid (mapped.map MappedPrice.key),
        (currentValue mid.availability.current j).isSome := by
      intro j hj
      obtain ⟨x, hx, -⟩ := (hmissing j hj).2
      rw [hx]
      rfl
    rw [reconcileAbsent_current (heffect.full hfull) hpresent k] at hsame
    rw [timeline_reconcileAbsent (heffect.full hfull) hmid (missingPriceKeys_nodup _ _ _ _) hother]
    by_cases hk : k ∈ missingPriceKeys a.parameters a.staging mid (mapped.map MappedPrice.key)
    · -- A missing key was available, so reconciliation did change its value.
      obtain ⟨-, -, -, hcurrent⟩ := applyIncoming_eq_ok heffect.availability
      have hkept := upsertCurrent_eq_ok hcurrent k
      rw [lookup_availability_of_not_mem (hmissing k hk).1] at hkept
      rw [if_pos hk] at hsame
      exact absurd (hkept.trans hsame.symm) (hother k hk)
    · rw [if_neg hk] at hsame ⊢
      exact timeline_applyIncoming_same heffect.availability havailability hunique hsame

end Step

/-! ## Runs -/

/-- A run of price applies, each of which must be accepted. -/
def applyPriceRun (t : Tables) (applies : List DocumentApply) : Except Failure Tables :=
  runList (fun t a => (applyPrices a t).map Prod.fst) t applies

/-- The applied instants of a run increase strictly. -/
def Increasing (applies : List DocumentApply) : Prop :=
  (applies.map fun a => a.parameters.appliedAt).Pairwise (· < ·)

instance (applies : List DocumentApply) : Decidable (Increasing applies) :=
  inferInstanceAs (Decidable ((applies.map fun a => a.parameters.appliedAt).Pairwise (· < ·)))

/-- The run lemma, from any tables in agreement whose versions start before the run. -/
theorem applyPriceRun_tracks {applies : List DocumentApply} {t t' : Tables}
    (hrun : applyPriceRun t applies = .ok t') (hinc : Increasing applies)
    (htracks : Tracks t.prices ∧ Tracks t.availability)
    (hbefore : ∀ a ∈ applies, StartsBefore a.parameters.appliedAt t.prices ∧
      StartsBefore a.parameters.appliedAt t.availability) :
    (Tracks t'.prices ∧ Tracks t'.availability) ∧
      ∀ b : Time, (∀ a ∈ applies, a.parameters.appliedAt < b) →
        StartsBefore b t.prices ∧ StartsBefore b t.availability →
        StartsBefore b t'.prices ∧ StartsBefore b t'.availability := by
  induction applies generalizing t with
  | nil =>
    cases hrun
    exact ⟨htracks, fun _ _ hb => hb⟩
  | cons a rest ih =>
    obtain ⟨m, hm, hrest⟩ := bind_eq_ok.mp hrun
    obtain ⟨summary, hstep⟩ := exists_of_map_fst hm
    obtain ⟨hfirst, hinc'⟩ := List.pairwise_cons.mp hinc
    obtain ⟨hbp, hba⟩ := hbefore a List.mem_cons_self
    have hlater : ∀ b ∈ rest, a.parameters.appliedAt < b.parameters.appliedAt :=
      fun b hb => hfirst _ (List.mem_map.mpr ⟨b, hb, rfl⟩)
    obtain ⟨htr, hst⟩ := ih hrest hinc'
      (applyPrices_tracks hstep htracks.1 htracks.2 hbp hba)
      (fun b hb => applyPrices_startsBefore hstep (hbefore b (List.mem_cons_of_mem _ hb))
        (hlater b hb))
    refine ⟨htr, fun b hb hbound => hst b (fun c hc => hb c (List.mem_cons_of_mem _ hc)) ?_⟩
    exact applyPrices_startsBefore hstep hbound (hb a List.mem_cons_self)

theorem startsBefore_empty (b : Time) :
    StartsBefore b Tables.empty.prices ∧ StartsBefore b Tables.empty.availability :=
  ⟨fun _ h => (by cases h), fun _ h => (by cases h)⟩

/-- In every state that accepted price applies at increasing instants reach, the history of each
key agrees with its current row in both tables, and a further apply adds no row to a key whose
values it leaves as they are. -/
theorem price_history_agrees (applies : List DocumentApply) (t : Tables)
    (hrun : applyPriceRun Tables.empty applies = .ok t) (hinc : Increasing applies) :
    (∀ k, HistoryAgrees t.prices k ∧ HistoryAgrees t.availability k) ∧
      ∀ (a : DocumentApply) (t' : Tables) (summary : ApplySummary), Increasing (applies ++ [a]) →
        applyPrices a t = .ok (t', summary) → ∀ k,
          (currentValue t'.prices.current k = currentValue t.prices.current k →
            (rowsOf t'.prices.history k).length = (rowsOf t.prices.history k).length) ∧
          (currentValue t'.availability.current k = currentValue t.availability.current k →
            (rowsOf t'.availability.history k).length =
              (rowsOf t.availability.history k).length) := by
  obtain ⟨htracks, hstarts⟩ := applyPriceRun_tracks hrun hinc ⟨Tracks.empty, Tracks.empty⟩
    (fun a _ => startsBefore_empty a.parameters.appliedAt)
  refine ⟨fun k => ⟨htracks.1.historyAgrees k, htracks.2.historyAgrees k⟩, ?_⟩
  intro a t' summary hinc' hstep k
  have hlast : ∀ b ∈ applies, b.parameters.appliedAt < a.parameters.appliedAt := by
    intro b hb
    rw [Increasing, List.map_append, List.pairwise_append] at hinc'
    exact hinc'.2.2 _ (List.mem_map.mpr ⟨b, hb, rfl⟩) _ (List.mem_singleton_self _)
  have hbefore := hstarts _ hlast (startsBefore_empty _)
  obtain ⟨hp, hav⟩ := applyPrices_timeline_same hstep htracks.1 htracks.2 hbefore.2 k
  refine ⟨fun hsame => ?_, fun hsame => ?_⟩
  · have heq := congrArg List.length (hp hsame)
    rwa [timeline_eq_map_rowsOf, timeline_eq_map_rowsOf, List.length_map, List.length_map] at heq
  · have heq := congrArg List.length (hav hsame)
    rwa [timeline_eq_map_rowsOf, timeline_eq_map_rowsOf, List.length_map, List.length_map] at heq

/-- A full price file of retailer 1 with the given records. -/
def samplePriceApply (fileId : FileId) (appliedAt : Time) (records : List StagedPrice) :
    DocumentApply where
  parameters := ⟨fileId, 1, 1, appliedAt⟩
  isFull := true
  policy := lenientPolicy
  staging := { Staging.empty with
    documents := [⟨some "1", some "17", none⟩]
    prices := records }

/-- A new item, a changed price, and a snapshot that no longer lists the item. -/
def sampleApplies : List DocumentApply :=
  [samplePriceApply 1 10 [sampleRecord "17" "4001" 500],
   samplePriceApply 2 20 [sampleRecord "17" "4001" 550],
   samplePriceApply 3 30 []]

theorem price_history_agrees_sample : ∃ t, applyPriceRun Tables.empty sampleApplies = .ok t ∧
    t.availability.history.length = 2 ∧
      ∀ k, HistoryAgrees t.prices k ∧ HistoryAgrees t.availability k :=
  ⟨_, rfl, rfl, (price_history_agrees sampleApplies _ rfl (by decide)).1⟩

end Makolet.Normalized
