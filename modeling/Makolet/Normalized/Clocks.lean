import Makolet.Normalized.Corroboration
import Makolet.Normalized.Absence

/-!
# Apply instants and temporal constraints

The ordering check of an apply compares the timestamps that publishers declare. The instant that it
writes into the rows is another one: the wall clock for an ordinary ingest, the stored instant for a
file that was applied before, and the publisher's timestamp for the first replay of an archived
file. The rows that an apply touches may therefore begin after it, and the schema refuses them.

`TimesFit` says that the instant of an apply that passes the ordering check is not before the rows
it touches.
`applies_within_constraints` shows that a run of such applies never meets a temporal constraint, and
`timesFit_of_later` that an instant after everything stored is such an instant.
-/

set_option autoImplicit false

namespace Makolet.Normalized

open Makolet.Domain Makolet.Lib

/-! ## Temporal constraints -/

/-- The check constraints that compare two instants of one row. -/
def temporalConstraints : List String :=
  ["seen_time_order", "observation_time_order", "validity_order", "superseded_after_assertion"]

/-- The failure of a temporal constraint. -/
def IsTemporal (e : Failure) : Prop :=
  ∃ name ∈ temporalConstraints, e = constraintViolation name

instance (e : Failure) : Decidable (IsTemporal e) :=
  inferInstanceAs (Decidable (∃ name ∈ temporalConstraints, e = constraintViolation name))

theorem not_isTemporal_of_kind {e : Failure} (h : e.kind ≠ .database) : ¬IsTemporal e := by
  rintro ⟨name, -, rfl⟩
  exact h rfl

theorem not_isTemporal_of_name {name : String} (h : name ∉ temporalConstraints) :
    ¬IsTemporal (constraintViolation name) := by
  rintro ⟨other, hother, heq⟩
  have hname : name = other := congrArg Failure.message heq
  exact h (hname ▸ hother)

/-- The program violates no temporal constraint. -/
abbrev Timely {α : Type} (x : Except Failure α) : Prop :=
  RaisesOnly (fun e => ¬IsTemporal e) x

/-- Every row meets its temporal constraint. -/
structure Dated (t : Tables) : Prop where
  stores : ∀ r ∈ t.stores, r.TimeOrder
  items : ∀ r ∈ t.items, r.TimeOrder
  prices : ∀ c ∈ t.prices.current, c.TimeOrder
  priceHistory : ∀ h ∈ t.prices.history, h.ValidityOrder
  availability : ∀ c ∈ t.availability.current, c.TimeOrder
  availabilityHistory : ∀ h ∈ t.availability.history, h.ValidityOrder
  promotions : ∀ v ∈ t.promotions, v.ValidityOrder
  assertions : ∀ a ∈ t.assertions, a.TimeOrder

/-! ## The condition -/

/-- The instant that an apply writes. -/
def ApplyRequest.appliedAt (r : ApplyRequest) (t : Tables) : Time :=
  (claimContent r t).2

/-- The stores that the records of a file name. -/
def storeKeysOf (s : Staging) : DocumentFamily → List (String × String)
  | .stores => s.stores.map StagedStore.key
  | .prices => s.prices.map StagedPrice.storeKey
  | .promotions => s.promotions.flatMap fun b => b.stores.map fun code => (b.subchainId, code)

/-- The items that the records of a file name. -/
def itemCodesOf (s : Staging) : DocumentFamily → List String
  | .stores => []
  | .prices => s.prices.map StagedPrice.sourceItemCode
  | .promotions => s.promotions.flatMap fun b => b.items.map StagedPromotionItem.sourceItemCode

section Fit

variable (p : ApplyParameters) (s : Staging) (t : Tables)

def NamesStore (family : DocumentFamily) (store : StoreRow) : Prop :=
  ∃ k ∈ storeKeysOf s family, store.key = (p.retailerId, p.portalId, k.1, k.2)

def NamesItem (family : DocumentFamily) (item : RetailerItem) : Prop :=
  ∃ code ∈ itemCodesOf s family, item.key = (p.retailerId, p.portalId, code)

/-- No store or item that the file names was first seen after it. -/
structure SeenFit (family : DocumentFamily) : Prop where
  stores : ∀ store ∈ t.stores, NamesStore p s family store → store.firstSeenAt ≤ p.appliedAt
  items : ∀ item ∈ t.items, NamesItem p s family item → item.firstSeenAt ≤ p.appliedAt

/-- The incoming row of a stored item and store. -/
def Observes (k : Key) (row : StagedPrice) : Prop :=
  row ∈ priceIncoming s ∧ ∃ item ∈ t.items, ∃ store ∈ t.stores,
    item.id = k.itemId ∧ store.id = k.storeId ∧
      item.key = (p.retailerId, p.portalId, row.sourceItemCode) ∧
      store.key = (p.retailerId, p.portalId, row.subchainId, row.sourceStoreId)

/-- A value may be observed at the instant: the current row of the key is not younger, and neither
is the open version, unless the value stays. -/
def ObservationFit {ν π : Type} (time : Time) (obs : Observations ν π) (k : Key) (value : ν) :
    Prop :=
  ∀ c ∈ obs.current, c.key = k → c.firstObservedAt ≤ time ∧
    (c.value ≠ value → ∀ h ∈ obs.history, h.key = k → h.validTo = none → h.validFrom < time)

/-- The store is one whose absent items a full price file closes. -/
def Reconciles (store : StoreRow) : Prop :=
  NamesStore p s .prices store ∨
    ∃ d ∈ s.documents, ∃ code, d.storeId = some code ∧
      store.key = (p.retailerId, p.portalId, d.subchainId.getD "", code)

/-- The observations of a price file, its absent items and the assertions it supersedes are not
younger than the file. -/
structure PricesFit (isFull : Bool) : Prop where
  price : ∀ k row, Observes p s t k row → ObservationFit p.appliedAt t.prices k row.value
  availability : ∀ k row, Observes p s t k row →
    ObservationFit p.appliedAt t.availability k ⟨row.isAvailable, row.itemStatus⟩
  absent : isFull = true → ∀ c ∈ t.availability.current, c.value.isAvailable = true →
    (∃ store ∈ t.stores, store.id = c.key.storeId ∧ Reconciles p s store) →
    (∀ row, ¬Observes p s t c.key row) →
    ObservationFit p.appliedAt t.availability c.key unavailable
  assertions : ∀ a ∈ t.assertions, a.kind = .gtin → a.isLive = true →
    a.sourceFileId ≠ p.sourceFileId →
    (∃ item ∈ t.items, item.id = a.itemId ∧ NamesItem p s .prices item) →
    a.assertedAt ≤ p.appliedAt

/-- The versions that a promotion file closes are older than the file. -/
structure PromotionsFit (isFull : Bool) : Prop where
  changed : ∀ v ∈ t.promotions, v.isOpen = true →
    (∃ b ∈ promotionIncoming s, b.key p = v.key ∧ v.fingerprint ≠ b.fingerprint) →
    v.validFrom < p.appliedAt
  absent : isFull = true → ∀ v ∈ t.promotions, v.isAbsent p s = true → v.validFrom < p.appliedAt

end Fit

/-- The instant of a family's apply fits the rows that it touches. -/
structure FamilyFit (family : DocumentFamily) (a : DocumentApply) (t : Tables) : Prop where
  seen : SeenFit a.parameters a.staging t family
  prices : family = .prices → PricesFit a.parameters a.staging t a.isFull
  promotions : family = .promotions → PromotionsFit a.parameters a.staging t a.isFull

/-- The instant of an apply that passes the ordering check is not before the rows that it touches. -/
def TimesFit (r : ApplyRequest) (t : Tables) : Prop :=
  ∀ family, family? r.documentType = some family → orderingQuarantine r family t = none →
    FamilyFit family (r.documentApply (r.appliedAt t)) t

/-! ## Statements -/

section Statements

variable {p : ApplyParameters} {s : Staging} {t t' : Tables} {ν π : Type}

/-- An upsert that moves the last instant of a row to the instant of the apply. -/
theorem order_upsert {α β κ : Type} [DecidableEq κ] {key : α → κ} {keyIn : β → κ} {insert : β → α}
    {update : α → β → α} {rows : List α} {incoming : List β} {first last : α → Time} {time : Time}
    (hrows : ∀ r ∈ rows, first r ≤ last r)
    (hinsert : ∀ b, first (insert b) = time ∧ last (insert b) = time)
    (hupdate : ∀ a b, first (update a b) = first a ∧ last (update a b) = time)
    (hfit : ∀ a ∈ rows, ∀ b ∈ incoming, keyIn b = key a → first a ≤ time) :
    ∀ r ∈ Table.upsert key keyIn insert update rows incoming, first r ≤ last r := by
  intro r hr
  rcases Table.mem_upsert hr with ⟨hold, -⟩ | ⟨a, ha, b, hb, hkey, rfl⟩ | ⟨b, -, rfl⟩
  · exact hrows r hold
  · rw [(hupdate a b).1, (hupdate a b).2]
    exact hfit a ha b hb hkey
  · rw [(hinsert b).1, (hinsert b).2]

theorem not_temporal_index {name : String} (h : name ∉ temporalConstraints) {c : Prop} :
    c ∨ ¬IsTemporal (constraintViolation name) :=
  .inr (not_isTemporal_of_name h)

theorem upsertPriceStores_timely (hdated : ∀ r ∈ t.stores, r.TimeOrder)
    (hfit : ∀ store ∈ t.stores, NamesStore p s .prices store → store.firstSeenAt ≤ p.appliedAt) :
    Timely (upsertPriceStores p s t) := by
  refine .guard (.inl ?_) fun _ => .pure _
  refine order_upsert hdated (fun _ => ⟨rfl, rfl⟩) (fun _ _ => ⟨rfl, rfl⟩) ?_
  intro store hstore b hb hkey
  have hrow := mem_of_mem_priceIncoming
    (Table.mem_of_mem_distinctOn (List.fst_mem_of_mem_zipIdx hb))
  exact hfit store hstore ⟨b.1.storeKey, List.mem_map_of_mem hrow, hkey.symm⟩

theorem upsertRetailerItems_timely (hdated : ∀ r ∈ t.items, r.TimeOrder)
    (hfit : ∀ item ∈ t.items, NamesItem p s .prices item → item.firstSeenAt ≤ p.appliedAt) :
    Timely (upsertRetailerItems p s t) := by
  refine .guard (.inl ?_) fun _ => .pure _
  refine order_upsert hdated (fun _ => ⟨rfl, rfl⟩) (fun _ _ => ⟨rfl, rfl⟩) ?_
  intro item hitem b hb hkey
  have hordered := Table.mem_of_mem_distinctOn (List.fst_mem_of_mem_zipIdx hb)
  rw [List.mem_insertionSort] at hordered
  exact hfit item hitem
    ⟨b.1.sourceItemCode, List.mem_map_of_mem (mem_of_mem_priceIncoming hordered), hkey.symm⟩

theorem upsertStores_timely (hdated : ∀ r ∈ t.stores, r.TimeOrder)
    (hfit : ∀ store ∈ t.stores, NamesStore p s .stores store → store.firstSeenAt ≤ p.appliedAt) :
    Timely (upsertStores p s t) := by
  refine .guard (.inl ?_) fun _ => .pure _
  refine order_upsert hdated (fun _ => ⟨rfl, rfl⟩) (fun _ _ => ⟨rfl, rfl⟩) ?_
  intro store hstore b hb hkey
  have hrow := mem_of_mem_storeIncoming (List.fst_mem_of_mem_zipIdx hb)
  exact hfit store hstore ⟨b.1.key, List.mem_map_of_mem hrow, hkey.symm⟩

theorem ensurePromotionItems_timely (hdated : ∀ r ∈ t.items, r.TimeOrder)
    (hfit : ∀ item ∈ t.items, NamesItem p s .promotions item → item.firstSeenAt ≤ p.appliedAt) :
    Timely (ensurePromotionItems p s t) := by
  refine .guard (.inl ?_) fun _ => .pure _
  refine order_upsert hdated (fun _ => ⟨rfl, rfl⟩) (fun _ _ => ⟨rfl, rfl⟩) ?_
  intro item hitem b hb hkey
  have hcode := List.mem_dedup.mp (List.fst_mem_of_mem_zipIdx hb)
  exact hfit item hitem ⟨b.1, hcode, hkey.symm⟩

theorem ensurePromotionStores_timely (hdated : ∀ r ∈ t.stores, r.TimeOrder)
    (hfit : ∀ store ∈ t.stores, NamesStore p s .promotions store → store.firstSeenAt ≤ p.appliedAt) :
    Timely (ensurePromotionStores p s t) := by
  refine .guard (not_temporal_index (by decide)) fun _ => .guard (.inl ?_) fun _ => .pure _
  refine order_upsert hdated (fun _ => ⟨rfl, rfl⟩) (fun _ _ => ⟨rfl, rfl⟩) ?_
  intro store hstore b hb hkey
  have hrow := List.mem_dedup.mp (List.fst_mem_of_mem_zipIdx hb)
  obtain ⟨r, hr, hrow⟩ := List.mem_flatMap.mp hrow
  obtain ⟨code, hcode, heq⟩ := List.mem_map.mp hrow
  refine hfit store hstore ⟨(r.subchainId, code), ?_, ?_⟩
  · exact List.mem_flatMap.mpr ⟨r, hr, List.mem_map_of_mem hcode⟩
  · rw [← hkey, ← heq]

/-- Closing rows that begin before the instant. -/
theorem closeOpen_timely {time : Time} {keys : List Key} {history : List (History ν π)}
    (hdated : ∀ h ∈ history, h.ValidityOrder)
    (hfit : ∀ h ∈ history, h.validTo = none → h.key ∈ keys → h.validFrom < time) :
    Timely (closeOpen time keys history) := by
  refine .guard (.inl ?_) fun _ => .pure _
  intro h hh
  obtain ⟨old, hold, rfl⟩ := List.mem_map.mp hh
  split
  · rename_i hclosed
    rintro e ⟨⟩
    exact hfit old hold (Option.isNone_iff_eq_none.mp hclosed.1) hclosed.2
  · exact hdated old hold

theorem insertOpen_timely {fileId : FileId} {time : Time} {rows : List (Incoming ν π)}
    {history : List (History ν π)} : Timely (insertOpen fileId time rows history) :=
  .guard (not_temporal_index (by decide)) fun _ => .pure _

/-- The rows of one file, each of which fits. -/
theorem applyIncoming_timely [DecidableEq ν] {fileId : FileId} {time : Time}
    {incoming : List (Incoming ν π)} {obs : Observations ν π}
    (hhistory : ∀ h ∈ obs.history, h.ValidityOrder) (hcurrent : ∀ c ∈ obs.current, c.TimeOrder)
    (hfit : ∀ r ∈ incoming, ObservationFit time obs r.key r.value) :
    Timely (applyIncoming fileId time incoming obs) := by
  refine .bind (closeOpen_timely hhistory ?_) fun _ _ => .bind insertOpen_timely fun _ _ =>
    .bind (.guard (.inl ?_) fun _ => .pure _) fun _ _ => .pure _
  · intro h hh hopen hkey
    obtain ⟨r, hr, hkey⟩ := List.mem_map.mp hkey
    obtain ⟨hin, hchanged⟩ := List.mem_filter.mp hr
    obtain ⟨c, hc, hne⟩ := (Option.any_eq_true _ _).mp hchanged
    have hck : c.key = r.key := Table.key_of_lookup hc
    exact (hfit r hin c (Table.mem_of_lookup hc) hck).2 (of_decide_eq_true hne) h hh hkey.symm hopen
  · refine order_upsert hcurrent (fun _ => ⟨rfl, rfl⟩) (fun _ _ => ⟨rfl, rfl⟩) ?_
    intro c hc r hr hkey
    exact (hfit r hr c hc hkey.symm).1

theorem reconcileAbsent_timely {fileId : FileId} {time : Time} {missing : List Key} {value : ν}
    {details : π} {obs : Observations ν π} (hhistory : ∀ h ∈ obs.history, h.ValidityOrder)
    (hcurrent : ∀ c ∈ obs.current, c.TimeOrder)
    (hopen : ∀ h ∈ obs.history, h.validTo = none → h.key ∈ missing → h.validFrom < time)
    (hfirst : ∀ c ∈ obs.current, c.key ∈ missing → c.firstObservedAt ≤ time) :
    Timely (reconcileAbsent fileId time missing value details obs) := by
  refine .bind (closeOpen_timely hhistory hopen) fun _ _ => .bind insertOpen_timely fun _ _ =>
    .guard (.inl ?_) fun _ => .pure _
  intro c hc
  obtain ⟨old, hold, rfl⟩ := List.mem_map.mp hc
  split
  · rename_i hmissing
    exact hfirst old hold hmissing
  · exact hcurrent old hold

theorem matchExactGtins_timely {items : List RetailerItem}
    (hdated : ∀ a ∈ t.assertions, a.TimeOrder)
    (hfit : ∀ a ∈ t.assertions, a.isLiveGtinOf items = true → a.sourceFileId ≠ p.sourceFileId →
      a.assertedAt ≤ p.appliedAt) : Timely (matchExactGtins p items t) := by
  refine .bind (.bind (.guard (.inl ?_) fun _ => .pure _) fun _ _ =>
    .bind (.guard (not_temporal_index (by decide)) fun _ => .pure _) fun _ _ => .pure _)
    fun _ _ => .pure _
  intro a ha
  obtain ⟨old, hold, rfl⟩ := List.mem_map.mp ha
  split
  · rename_i hsuperseded
    rintro e ⟨⟩
    exact hfit old hold hsuperseded.1 hsuperseded.2
  · exact hdated old hold

theorem applyIncoming_dated [DecidableEq ν] {fileId : FileId} {time : Time}
    {incoming : List (Incoming ν π)} {obs obs' : Observations ν π}
    (h : applyIncoming fileId time incoming obs = .ok obs') :
    (∀ v ∈ obs'.history, v.ValidityOrder) ∧ ∀ c ∈ obs'.current, c.TimeOrder := by
  obtain ⟨closed, hclosed, hinsert, hcurrent⟩ := applyIncoming_eq_ok h
  constructor
  · intro v hv
    rw [insertOpen_eq_ok hinsert, List.mem_append] at hv
    rcases hv with hold | hnew
    · exact (closeOpen_eq_ok hclosed).2 v hold
    · obtain ⟨r, -, rfl⟩ := List.mem_map.mp hnew
      rintro e ⟨⟩
  · obtain ⟨horder, hcurrent⟩ := require_bind_eq_ok.mp hcurrent
    rw [pure_eq_ok] at hcurrent
    rw [← hcurrent]
    exact horder

theorem reconcileAbsent_dated {fileId : FileId} {time : Time} {missing : List Key} {value : ν}
    {details : π} {obs obs' : Observations ν π}
    (h : reconcileAbsent fileId time missing value details obs = .ok obs') :
    (∀ v ∈ obs'.history, v.ValidityOrder) ∧ ∀ c ∈ obs'.current, c.TimeOrder := by
  obtain ⟨closed, hclosed, h⟩ := bind_eq_ok.mp h
  obtain ⟨history, hhistory, h⟩ := bind_eq_ok.mp h
  obtain ⟨horder, h⟩ := require_bind_eq_ok.mp h
  rw [pure_eq_ok] at h
  subst h
  refine ⟨?_, horder⟩
  intro v hv
  rw [insertOpen_eq_ok hhistory, List.mem_append] at hv
  rcases hv with hold | hnew
  · exact (closeOpen_eq_ok hclosed).2 v hold
  · obtain ⟨r, -, rfl⟩ := List.mem_map.mp hnew
    rintro e ⟨⟩

end Statements

/-! ## Price files -/

/-- The ids in the current tables are drawn from the counter. -/
structure Placed (t : Tables) : Prop where
  prices : ∀ c ∈ t.prices.current, c.key.itemId < t.nextId ∧ c.key.storeId < t.nextId
  availability : ∀ c ∈ t.availability.current, c.key.itemId < t.nextId ∧ c.key.storeId < t.nextId

section Prices

variable {p : ApplyParameters} {s : Staging} {t t₁ t₂ : Tables}

/-- A mapped row observes its key in the tables it was mapped in. -/
theorem observes_of_mem_mapped {maps : List RetailerItem × List StoreRow}
    {mapped : List MappedPrice} (hmaps : materializePriceMaps p s t = .ok maps)
    (hmapped : materializeMappedPriceIncoming s maps.1 maps.2 = .ok mapped) {m : MappedPrice}
    (hm : m ∈ mapped) : Observes p s t m.key m.row := by
  rw [(materializePriceMaps_eq_ok hmaps).1] at hmapped
  obtain ⟨-, hmapped⟩ := require_bind_eq_ok.mp hmapped
  rw [pure_eq_ok] at hmapped
  subst hmapped
  obtain ⟨row, hrow, hm⟩ := List.mem_flatMap.mp hm
  obtain ⟨item, hitem, hm⟩ := List.mem_flatMap.mp hm
  obtain ⟨store, hstore, rfl⟩ := List.mem_map.mp hm
  obtain ⟨hitem, hcode⟩ := List.mem_filter.mp hitem
  obtain ⟨hstore, hkey⟩ := List.mem_filter.mp hstore
  obtain ⟨hitem, hnamed⟩ := List.mem_filter.mp hitem
  obtain ⟨hstore, hnamed'⟩ := List.mem_filter.mp hstore
  rw [Bool.and_eq_true, decide_eq_true_eq] at hnamed hnamed'
  rw [decide_eq_true_eq] at hcode hkey
  refine ⟨hrow, item, hitem, store, hstore, rfl, rfl, ?_, ?_⟩
  · rw [RetailerItem.key, hnamed.1.1, hnamed.1.2, hcode]
  · rw [StagedPrice.storeKey, Prod.mk.injEq] at hkey
    rw [StoreRow.key, hnamed'.1.1, hnamed'.1.2, hkey.1, hkey.2]

/-- What the two upserts of a price file did to the ids and keys of stores and items. -/
structure Upserted (t t₂ : Tables) : Prop where
  oldStore : ∀ store ∈ t₂.stores, store.id < t.nextId →
    ∃ old ∈ t.stores, old.id = store.id ∧ old.key = store.key
  oldItem : ∀ item ∈ t₂.items, item.id < t.nextId →
    ∃ old ∈ t.items, old.id = item.id ∧ old.key = item.key
  newStore : ∀ old ∈ t.stores, ∃ store ∈ t₂.stores, store.id = old.id ∧ store.key = old.key
  newItem : ∀ old ∈ t.items, ∃ item ∈ t₂.items, item.id = old.id ∧ item.key = old.key

theorem upserted_of_ok (hstores : upsertPriceStores p s t = .ok t₁)
    (hitems : upsertRetailerItems p s t₁ = .ok t₂) : Upserted t t₂ := by
  obtain ⟨-, hstores⟩ := require_bind_eq_ok.mp hstores
  obtain ⟨-, hitems⟩ := require_bind_eq_ok.mp hitems
  rw [pure_eq_ok] at hstores hitems
  subst hstores
  subst hitems
  constructor
  · intro store hstore hlt
    exact Table.old_of_upsert StoreRow.id hstore hlt (fun _ => rfl) fun _ _ => ⟨rfl, rfl⟩
  · intro item hitem hlt
    exact Table.old_of_upsert RetailerItem.id hitem (Nat.lt_add_right _ hlt) (fun _ => rfl)
      fun _ _ => ⟨rfl, rfl⟩
  · intro old hold
    refine Table.mem_upsert_old StoreRow.id ?_ hold
    exact fun _ _ => ⟨rfl, rfl⟩
  · intro old hold
    refine Table.mem_upsert_old RetailerItem.id ?_ hold
    exact fun _ _ => ⟨rfl, rfl⟩

/-- A key of the old tables is observed after the upserts exactly when it was before them. -/
theorem Upserted.observes (h : Upserted t t₂) {k : Key} {row : StagedPrice}
    (hitem : k.itemId < t.nextId) (hstore : k.storeId < t.nextId) :
    Observes p s t₂ k row ↔ Observes p s t k row := by
  constructor
  · rintro ⟨hrow, item, hi, store, hs, hiid, hsid, hikey, hskey⟩
    obtain ⟨item', hi', hid, hkey⟩ := h.oldItem item hi (hiid ▸ hitem)
    obtain ⟨store', hs', hid', hkey'⟩ := h.oldStore store hs (hsid ▸ hstore)
    exact ⟨hrow, item', hi', store', hs', hid.trans hiid, hid'.trans hsid, hkey.trans hikey,
      hkey'.trans hskey⟩
  · rintro ⟨hrow, item, hi, store, hs, hiid, hsid, hikey, hskey⟩
    obtain ⟨item', hi', hid, hkey⟩ := h.newItem item hi
    obtain ⟨store', hs', hid', hkey'⟩ := h.newStore store hs
    exact ⟨hrow, item', hi', store', hs', hid.trans hiid, hid'.trans hsid, hkey.trans hikey,
      hkey'.trans hskey⟩

/-- The incoming rows of a price file fit the tables before it. -/
theorem mapped_fit {ν π : Type} {obs : Observations ν π} {mapped : List MappedPrice}
    {observe : MappedPrice → Incoming ν π} (hkey : ∀ m, (observe m).key = m.key)
    (hupserted : Upserted t t₂)
    (hplaced : ∀ c ∈ obs.current, c.key.itemId < t.nextId ∧ c.key.storeId < t.nextId)
    (hobserves : ∀ m ∈ mapped, Observes p s t₂ m.key m.row)
    (hfit : ∀ m ∈ mapped, Observes p s t m.key m.row →
      ObservationFit p.appliedAt obs m.key (observe m).value) :
    ∀ r ∈ mapped.map observe, ObservationFit p.appliedAt obs r.key r.value := by
  intro r hr
  obtain ⟨m, hm, rfl⟩ := List.mem_map.mp hr
  intro c hc hck
  rw [hkey] at hck
  obtain ⟨hitem, hstore⟩ := hplaced c hc
  rw [hck] at hitem hstore
  rw [hkey]
  exact hfit m hm ((hupserted.observes hitem hstore).mp (hobserves m hm)) c hc hck

/-- A store that is reconciled after the upserts was there before them. -/
theorem Upserted.reconciles (h : Upserted t t₂) {mapped : List MappedPrice}
    (hobserves : ∀ m ∈ mapped, Observes p s t₂ m.key m.row) {u : Tables}
    (hu : u.stores = t₂.stores) {id : StoreId}
    (hid : id ∈ reconciledStores p s u (mapped.map MappedPrice.key)) (hlt : id < t.nextId) :
    ∃ store ∈ t.stores, store.id = id ∧ Reconciles p s store := by
  rcases mem_reconciledStores.mp hid with ⟨k, hk, rfl⟩ | ⟨store, hs, rfl, hret, hpor, d, hd, hcode, hsub⟩
  · obtain ⟨m, hm, rfl⟩ := List.mem_map.mp hk
    obtain ⟨hrow, -, -, store, hs, -, hsid, -, hskey⟩ := hobserves m hm
    rw [← hsid] at hlt
    obtain ⟨old, hold, hoid, hokey⟩ := h.oldStore store hs hlt
    refine ⟨old, hold, hoid.trans hsid, .inl ⟨m.row.storeKey, ?_, hokey.trans hskey⟩⟩
    exact List.mem_map_of_mem (mem_of_mem_priceIncoming hrow)
  · rw [hu] at hs
    obtain ⟨old, hold, hoid, hokey⟩ := h.oldStore store hs hlt
    refine ⟨old, hold, hoid, .inr ⟨d, hd, store.sourceStoreCode, hcode, ?_⟩⟩
    rw [hokey, StoreRow.key, hret, hpor, hsub]

end Prices

section Absent

variable {p : ApplyParameters} {s : Staging} {t t₂ u : Tables} {mapped : List MappedPrice}
  {obs : Observations AvailabilityValue Unit}

/-- A current or open row of a missing key was there before the incoming rows were written. -/
theorem missing_old (hincoming : applyIncoming p.sourceFileId p.appliedAt
      (mapped.map MappedPrice.availability) t.availability = .ok obs) {k : Key}
    (hk : k ∉ mapped.map MappedPrice.key) :
    (∀ c ∈ obs.current, c.key = k → c ∈ t.availability.current) ∧
      ∀ v ∈ obs.history, v.validTo = none → v.key = k → v ∈ t.availability.history := by
  have hnot : ∀ r ∈ mapped.map MappedPrice.availability, r.key ≠ k := by
    intro r hr hrk
    obtain ⟨m, hm, rfl⟩ := List.mem_map.mp hr
    exact hk (List.mem_map.mpr ⟨m, hm, hrk⟩)
  constructor
  · intro c hc hck
    by_contra hnew
    obtain ⟨r, hr, hrk⟩ := current_new hincoming hc hnew
    exact hnot r hr (hrk.trans hck)
  · intro v hv hopen hvk
    by_contra hnew
    obtain ⟨r, hr, hrk⟩ := history_new hincoming hv hopen hnew
    exact hnot r hr (hrk.trans hvk)

/-- Each missing key of a full price file fits the tables before it. -/
theorem missing_fit (hfit : PricesFit p s t true) (hplaced : Placed t) (hupserted : Upserted t t₂)
    {maps : List RetailerItem × List StoreRow} (hmaps : materializePriceMaps p s t₂ = .ok maps)
    (hmapped : materializeMappedPriceIncoming s maps.1 maps.2 = .ok mapped)
    (hincoming : applyIncoming p.sourceFileId p.appliedAt
      (mapped.map MappedPrice.availability) t.availability = .ok obs)
    (hu : u.stores = t₂.stores) (huobs : u.availability = obs) {k : Key}
    (hk : k ∈ missingPriceKeys p s u (mapped.map MappedPrice.key)) :
    ∃ c ∈ t.availability.current, c.key = k ∧ c.value.isAvailable = true ∧
      ObservationFit p.appliedAt t.availability k unavailable := by
  obtain ⟨hk, hnot⟩ := List.mem_filter.mp hk
  have hnot := of_decide_eq_true hnot
  obtain ⟨c, hc, rfl⟩ := List.mem_map.mp (List.mem_dedup.mp hk)
  obtain ⟨hc, havailable⟩ := List.mem_filter.mp hc
  rw [Bool.and_eq_true, decide_eq_true_eq] at havailable
  rw [huobs] at hc
  have hold := (missing_old hincoming hnot).1 c hc rfl
  obtain ⟨hitem, hstore⟩ := hplaced.availability c hold
  refine ⟨c, hold, rfl, havailable.1, hfit.absent rfl c hold havailable.1 ?_ ?_⟩
  · exact hupserted.reconciles (fun m hm => observes_of_mem_mapped hmaps hmapped hm) hu
      havailable.2 hstore
  · intro row hobserves
    obtain ⟨hrow, item, hi, store, hs, hkeys⟩ := (hupserted.observes hitem hstore).mpr hobserves
    exact hnot ((mem_mapped_iff hmaps hmapped c.key).mpr
      ⟨row, mem_of_mem_priceIncoming hrow, item, hi, store, hs, hkeys⟩)

end Absent

/-! ## Applies -/

section Applies

variable {a : DocumentApply} {t : Tables}

theorem validateDrop_timely {policy : SnapshotPolicy} {incoming prior : Nat} {scope : String} :
    Timely (validateDrop policy incoming prior scope) :=
  .require (.inr (not_isTemporal_of_kind nofun))

theorem validateFullPriceSnapshot_timely {p : ApplyParameters} {policy : SnapshotPolicy}
    {s : Staging} : Timely (validateFullPriceSnapshot p policy s t) := by
  refine .guard (.inr (not_isTemporal_of_kind nofun)) fun _ => .forM fun scope _ => ?_
  exact .guard (.inr (not_isTemporal_of_kind nofun)) fun _ => validateDrop_timely

theorem validateFullPromotionSnapshot_timely {p : ApplyParameters} {policy : SnapshotPolicy}
    {s : Staging} : Timely (validateFullPromotionSnapshot p policy s t) :=
  .guard (.inr (not_isTemporal_of_kind nofun)) fun _ => .forM fun _ _ => validateDrop_timely

theorem validateFullSnapshot_timely {policy : SnapshotPolicy} {incoming prior : Nat}
    {scope : String} : Timely (validateFullSnapshot policy incoming prior scope) :=
  .guard (.inr (not_isTemporal_of_kind nofun)) fun _ => validateDrop_timely

theorem materialize_timely {p : ApplyParameters} {s : Staging} :
    Timely (materializePriceMaps p s t) :=
  .guard (not_temporal_index (by decide)) fun _ => .guard (not_temporal_index (by decide)) fun _ =>
    .guard (not_temporal_index (by decide)) fun _ => .pure _

/-- What the condition needs from the tables. -/
structure Sorted (t : Tables) : Prop where
  dated : Dated t
  placed : Placed t
  keyed : Keyed t
  catalog : CatalogInvariant t

theorem applyPrices_timely (ht : Sorted t) (hfit : FamilyFit .prices a t) :
    Timely (applyPrices a t) := by
  have hprices := hfit.prices rfl
  refine .bind ?_ fun _ _ => .bind (upsertPriceStores_timely ht.dated.stores hfit.seen.stores)
    fun t₁ h₁ => .bind ?_ fun t₂ h₂ => .bind materialize_timely fun maps hmaps =>
    .bind (.guard (not_temporal_index (by decide)) fun _ => .pure _) fun mapped hmapped =>
    .bind ?_ fun t₃ h₃ => .bind ?_ fun prices _ => .bind (.bind ?_ fun _ _ => .pure _)
    fun availability havailability => .bind ?_ fun _ _ => .pure _
  · split
    · exact validateFullPriceSnapshot_timely
    · exact .pure _
  · have hitems : t₁.items = t.items := by rw [upsertPriceStores_frame h₁]
    refine upsertRetailerItems_timely ?_ ?_
    · rw [hitems]
      exact ht.dated.items
    · rw [hitems]
      exact hfit.seen.items
  -- From here on the tables of the observations are those before the apply.
  all_goals
    have hupserted := upserted_of_ok h₁ h₂
    have hobserves := fun m hm => observes_of_mem_mapped (m := m) hmaps hmapped hm
  · have hassertions : t₂.assertions = t.assertions := by
      rw [upsertRetailerItems_frame h₂, upsertPriceStores_frame h₁]
    refine matchExactGtins_timely ?_ ?_
    · rw [hassertions]
      exact ht.dated.assertions
    · rw [hassertions]
      intro b hb hlive hother
      simp only [Assertion.isLiveGtinOf, Bool.and_eq_true, decide_eq_true_eq] at hlive
      obtain ⟨item, hitem, hid⟩ := List.any_eq_true.mp hlive.2
      have hid := of_decide_eq_true hid
      rw [(materializePriceMaps_eq_ok hmaps).1] at hitem
      obtain ⟨hitem, hnamed⟩ := List.mem_filter.mp hitem
      rw [Bool.and_eq_true, decide_eq_true_eq, List.any_eq_true] at hnamed
      obtain ⟨⟨hret, hpor⟩, row, hrow, hcode⟩ := hnamed
      have hlt : item.id < t.nextId := hid ▸ ht.catalog.asserted_lt b hb
      obtain ⟨old, hold, hoid, hokey⟩ := hupserted.oldItem item hitem hlt
      refine hprices.assertions b hb hlive.1.1 hlive.1.2 hother ⟨old, hold, hoid.trans hid, ?_⟩
      refine ⟨row.sourceItemCode, List.mem_map_of_mem hrow, ?_⟩
      rw [hokey, RetailerItem.key, hret, hpor, of_decide_eq_true hcode]
  all_goals
    have hobs : t₃.prices = t.prices ∧ t₃.availability = t.availability := by
      rw [matchExactGtins_frame h₃, upsertRetailerItems_frame h₂, upsertPriceStores_frame h₁]
      exact ⟨rfl, rfl⟩
  · rw [hobs.1]
    refine applyIncoming_timely ht.dated.priceHistory ht.dated.prices ?_
    exact mapped_fit (fun _ => rfl) hupserted ht.placed.prices hobserves
      fun m _ hm => hprices.price m.key m.row hm
  · show Timely (applyIncoming _ _ _ t₃.availability)
    rw [hobs.2]
    refine applyIncoming_timely ht.dated.availabilityHistory ht.dated.availability ?_
    exact mapped_fit (fun _ => rfl) hupserted ht.placed.availability hobserves
      fun m _ hm => hprices.availability m.key m.row hm
  · split
    · rename_i hfull
      obtain ⟨obs, hincoming, heq⟩ := bind_eq_ok.mp havailability
      rw [pure_eq_ok] at heq
      subst heq
      rw [show ({ t₃ with prices := prices } : Tables).availability = t.availability from hobs.2]
        at hincoming
      have hstores : t₃.stores = t₂.stores := by rw [matchExactGtins_frame h₃]
      rw [hfull] at hprices
      have hmissing := fun {k} hk => missing_fit (k := k)
        (u := { t₃ with prices := prices, availability := obs }) hprices ht.placed hupserted hmaps
        hmapped hincoming hstores rfl hk
      obtain ⟨hhistory, hcurrent⟩ := applyIncoming_dated hincoming
      have hnot : ∀ {k}, k ∈ missingPriceKeys a.parameters a.staging
          { t₃ with prices := prices, availability := obs } (mapped.map MappedPrice.key) →
          k ∉ mapped.map MappedPrice.key :=
        fun hk => of_decide_eq_true (List.mem_filter.mp hk).2
      refine .bind (reconcileAbsent_timely hhistory hcurrent ?_ ?_) fun _ _ => .pure _
      · intro v hv hopen hk
        obtain ⟨c, hc, hck, havailable, hok⟩ := hmissing hk
        refine (hok c hc hck).2 ?_ v ((missing_old hincoming (hnot hk)).2 v hv hopen rfl) rfl hopen
        intro hvalue
        rw [hvalue] at havailable
        cases havailable
      · intro c hc hk
        obtain ⟨-, -, -, -, hok⟩ := hmissing hk
        exact (hok c ((missing_old hincoming (hnot hk)).1 c hc rfl) rfl).1
    · exact .pure _

theorem applyStores_timely (ht : Sorted t) (hfit : FamilyFit .stores a t) :
    Timely (applyStores a t) :=
  .bind validateFullSnapshot_timely fun _ _ =>
    .bind (upsertStores_timely ht.dated.stores hfit.seen.stores) fun _ _ => .pure _

/-- An absent version was there before the incoming versions were written. -/
theorem absent_old {p : ApplyParameters} {s : Staging} {u : Tables} {promotions : List Promotion}
    (hclosed : closeOrRefreshPromotions p (promotionIncoming s) t.promotions = .ok promotions)
    (hinserted : ∀ v ∈ u.promotions, v ∈ promotions ∨ ∃ b ∈ promotionIncoming s, v.key = b.key p)
    {v : Promotion} (hv : v ∈ u.promotions) (habsent : v.isAbsent p s = true) :
    v ∈ t.promotions := by
  simp only [Promotion.isAbsent, Bool.and_eq_true, List.all_eq_true, decide_eq_true_eq] at habsent
  rcases hinserted v hv with hold | ⟨b, hb, hkey⟩
  · obtain ⟨-, hclosed⟩ := require_bind_eq_ok.mp hclosed
    rw [pure_eq_ok] at hclosed
    rw [← hclosed] at hold
    obtain ⟨old, hmem, rfl⟩ := List.mem_map.mp hold
    -- A changed version has the key of an incoming row, which an absent one has not.
    split at habsent
    · rename_i hopen
      split at habsent
      · simp only [hopen]
        exact hmem
      · rename_i b hb
        have hkey : b.key p = old.key := Table.key_of_lookup hb
        split at habsent <;>
          exact absurd hkey (habsent.2 b (Table.mem_of_lookup hb))
    · rename_i hclosed
      rw [if_neg hclosed]
      exact hmem
  · exact absurd hkey.symm (habsent.2 b hb)

/-- New versions are open. -/
theorem insertPromotions_dated {p : ApplyParameters} {incoming : List StagedPromotion}
    {u u' : Tables} (h : insertPromotions p incoming u = .ok u')
    (hdated : ∀ v ∈ u.promotions, v.ValidityOrder) : ∀ v ∈ u'.promotions, v.ValidityOrder := by
  obtain ⟨-, h⟩ := require_bind_eq_ok.mp h
  rw [pure_eq_ok] at h
  subst h
  intro v hv
  rcases List.mem_append.mp hv with hold | hnew
  · exact hdated v hold
  · obtain ⟨b, -, rfl⟩ := List.mem_map.mp hnew
    rintro e ⟨⟩

theorem applyPromotions_timely (ht : Sorted t) (hfit : FamilyFit .promotions a t) :
    Timely (applyPromotions a t) := by
  have hpromotions := hfit.promotions rfl
  refine .bind ?_ fun _ _ => .bind (ensurePromotionItems_timely ht.dated.items hfit.seen.items)
    fun t₁ h₁ => .bind ?_ fun t₂ h₂ => .bind (.guard (.inl ?_) fun _ => .pure _)
    fun promotions hclosed => .bind (.guard (not_temporal_index (by decide)) fun _ => .pure _)
    fun t₃ h₃ => .bind ?_ fun _ _ => .pure _
  · split
    · exact validateFullPromotionSnapshot_timely
    · exact .pure _
  · have hstores : t₁.stores = t.stores := by rw [ensurePromotionItems_frame h₁]
    refine ensurePromotionStores_timely ?_ ?_
    · rw [hstores]
      exact ht.dated.stores
    · rw [hstores]
      exact hfit.seen.stores
  all_goals
    have hold : t₂.promotions = t.promotions := by
      rw [ensurePromotionStores_frame h₂, ensurePromotionItems_frame h₁]
  · intro v hv
    obtain ⟨old, hmem, rfl⟩ := List.mem_map.mp hv
    rw [hold] at hmem
    split
    · rename_i hopen
      split
      · exact ht.dated.promotions old hmem
      · rename_i b hb
        split
        · exact ht.dated.promotions old hmem
        · rename_i hchanged
          rintro e ⟨⟩
          exact hpromotions.changed old hmem hopen
            ⟨b, Table.mem_of_lookup hb, Table.key_of_lookup hb, hchanged⟩
    · exact ht.dated.promotions old hmem
  · rw [hold] at hclosed
    have hdated : ∀ v ∈ promotions, v.ValidityOrder := by
      obtain ⟨horder, hclosed⟩ := require_bind_eq_ok.mp hclosed
      rw [pure_eq_ok] at hclosed
      rw [← hclosed]
      exact horder
    have hinserted := (insertPromotions_eq_ok h₃).1
    split
    · rename_i hfull
      refine .guard (.inl ?_) fun _ => .pure _
      intro v hv
      obtain ⟨old, hmem, rfl⟩ := List.mem_map.mp hv
      split
      · rename_i habsent
        rintro e ⟨⟩
        exact hpromotions.absent hfull old (absent_old hclosed hinserted hmem habsent) habsent
      · exact insertPromotions_dated h₃ hdated old hmem
    · exact .pure _

theorem applyFamily_timely {family : DocumentFamily} (ht : Sorted t) (hfit : FamilyFit family a t) :
    Timely (applyFamily family a t) := by
  cases family with
  | stores => exact applyStores_timely ht hfit
  | prices => exact applyPrices_timely ht hfit
  | promotions => exact applyPromotions_timely ht hfit

theorem recordGeneratedIssue_timely {limits : IssueLimits} {severity : IssueSeverity}
    {code message : String} {usage : IssueUsage} :
    Timely (recordGeneratedIssue limits severity code message usage) :=
  .guard (.inr (not_isTemporal_of_kind nofun)) fun _ => .pure _

theorem validateSourceOrdering_timely {r : ApplyRequest} {family : DocumentFamily} :
    Timely (validateSourceOrdering r family t) := by
  refine .bind ?_ fun _ _ => .bind ?_ fun _ _ => .bind ?_ fun _ _ => .pure _
  · split
    · exact recordGeneratedIssue_timely
    · exact .pure _
  · split
    · exact recordGeneratedIssue_timely
    · exact .pure _
  · split
    · exact recordGeneratedIssue_timely
    · exact .pure _

theorem lockSourceForApply_timely {r : ApplyRequest} : Timely (lockSourceForApply r) :=
  .guard (.inr (not_isTemporal_of_kind nofun)) fun _ =>
    .guard (.inr (not_isTemporal_of_kind nofun)) fun _ =>
      .require (.inr (not_isTemporal_of_kind nofun))

theorem Sorted.frame {t' : Tables} (h : Sorted t) (hframe : t' = { t with
      appliedContents := t'.appliedContents, watermarks := t'.watermarks }) : Sorted t' := by
  rw [hframe]
  exact ⟨⟨h.dated.stores, h.dated.items, h.dated.prices, h.dated.priceHistory, h.dated.availability,
      h.dated.availabilityHistory, h.dated.promotions, h.dated.assertions⟩,
    ⟨h.placed.prices, h.placed.availability⟩,
    h.keyed.frame rfl h.keyed.availability le_rfl,
    h.catalog.frame h.catalog.items_lt rfl rfl rfl le_rfl⟩

theorem Sorted.claimed (h : Sorted t) (r : ApplyRequest) : Sorted (claimContent r t).1 := by
  refine h.frame ?_
  rw [claimContent_frame]

/-- An apply whose instant fits violates no temporal constraint. -/
theorem apply_timely {r : ApplyRequest} (ht : Sorted t) (hfit : TimesFit r t) :
    Timely (apply r t) := by
  refine .bind lockSourceForApply_timely fun _ _ =>
    .guard (.inr (not_isTemporal_of_kind nofun)) fun _ => ?_
  split
  · exact .error (not_isTemporal_of_kind nofun)
  · rename_i family hfamily
    refine .bind validateSourceOrdering_timely fun checked hchecked => ?_
    split
    · exact .error (not_isTemporal_of_kind nofun)
    · rename_i hpassed
      refine .bind (applyFamily_timely (ht.claimed r) ?_) fun _ _ => .pure _
      rw [claimContent_frame]
      obtain ⟨hseen, hprices, hpromotions⟩ := hfit family hfamily
        ((validateSourceOrdering_quarantine hchecked).symm.trans hpassed)
      refine ⟨⟨hseen.stores, hseen.items⟩, fun h => ?_, fun h => ?_⟩
      · obtain ⟨hprice, havailability, habsent, hassertions⟩ := hprices h
        exact ⟨hprice, havailability, habsent, hassertions⟩
      · obtain ⟨hchanged, habsent⟩ := hpromotions h
        exact ⟨hchanged, habsent⟩

end Applies

/-! ## Accepted applies keep the tables sorted -/

section Kept

variable {a : DocumentApply} {t t' : Tables} {summary : ApplySummary}

theorem matchExactGtins_dated {p : ApplyParameters} {items : List RetailerItem}
    (h : matchExactGtins p items t = .ok t') : ∀ b ∈ t'.assertions, b.TimeOrder := by
  obtain ⟨t₁, h₁, rfl⟩ := matchExactGtins_eq_ok h
  obtain ⟨superseded, hsup, hins, -⟩ := assertGtins_eq_ok h₁
  obtain ⟨horder, hsup⟩ := require_bind_eq_ok.mp hsup
  rw [pure_eq_ok] at hsup
  intro b hb
  change b ∈ t₁.assertions at hb
  rw [insertAssertions_eq_ok hins] at hb
  rcases Table.mem_insertNew hb with hold | ⟨hnew, -⟩
  · exact horder b (hsup ▸ hold)
  · obtain ⟨item, -, hitem⟩ := List.mem_filterMap.mp hnew
    obtain ⟨g, -, rfl⟩ := Option.map_eq_some_iff.mp hitem
    rintro e ⟨⟩

/-- The rows of one file keep the ids below the counter. -/
theorem placed_applyIncoming {ν π : Type} [DecidableEq ν] {fileId : FileId} {time : Time}
    {incoming : List (Incoming ν π)} {obs obs' : Observations ν π} {n : Nat}
    (h : applyIncoming fileId time incoming obs = .ok obs')
    (hobs : ∀ c ∈ obs.current, c.key.itemId < n ∧ c.key.storeId < n)
    (hincoming : ∀ r ∈ incoming, r.key.itemId < n ∧ r.key.storeId < n) :
    ∀ c ∈ obs'.current, c.key.itemId < n ∧ c.key.storeId < n := by
  intro c hc
  by_cases hold : c ∈ obs.current
  · exact hobs c hold
  · obtain ⟨r, hr, hkey⟩ := current_new h hc hold
    rw [← hkey]
    exact hincoming r hr

theorem placed_reconcileAbsent {ν π : Type} {fileId : FileId} {time : Time} {missing : List Key}
    {value : ν} {details : π} {obs obs' : Observations ν π} {n : Nat}
    (h : reconcileAbsent fileId time missing value details obs = .ok obs')
    (hobs : ∀ c ∈ obs.current, c.key.itemId < n ∧ c.key.storeId < n) :
    ∀ c ∈ obs'.current, c.key.itemId < n ∧ c.key.storeId < n := by
  intro c hc
  rw [(reconcileAbsent_eq_ok h).2] at hc
  obtain ⟨old, hold, rfl⟩ := List.mem_map.mp hc
  have hlt := hobs old hold
  split
  · exact hlt
  · exact hlt

theorem Placed.mono {n : Nat} (h : Placed t) (hle : t.nextId ≤ n) :
    (∀ c ∈ t.prices.current, c.key.itemId < n ∧ c.key.storeId < n) ∧
      ∀ c ∈ t.availability.current, c.key.itemId < n ∧ c.key.storeId < n :=
  ⟨fun c hc => ⟨(h.prices c hc).1.trans_le hle, (h.prices c hc).2.trans_le hle⟩,
    fun c hc => ⟨(h.availability c hc).1.trans_le hle, (h.availability c hc).2.trans_le hle⟩⟩

theorem upsertPriceStores_dated {p : ApplyParameters} {s : Staging}
    (h : upsertPriceStores p s t = .ok t') : ∀ r ∈ t'.stores, r.TimeOrder := by
  obtain ⟨horder, h⟩ := require_bind_eq_ok.mp h
  rw [pure_eq_ok] at h
  rw [← h]
  exact horder

theorem upsertRetailerItems_dated {p : ApplyParameters} {s : Staging}
    (h : upsertRetailerItems p s t = .ok t') : ∀ r ∈ t'.items, r.TimeOrder := by
  obtain ⟨horder, h⟩ := require_bind_eq_ok.mp h
  rw [pure_eq_ok] at h
  rw [← h]
  exact horder

theorem Sorted.applyPrices (ht : Sorted t) (h : applyPrices a t = .ok (t', summary)) :
    Sorted t' := by
  refine ⟨?_, ?_, ht.keyed.applyPrices h, ht.catalog.applyPrices h⟩
  all_goals
    obtain ⟨t₁, t₂, t₃, maps, mapped, prices, availability, final, hstores, hitems, hmaps, hmapped,
      hgtins, hprices, havailability, rfl, hdelta, hfull⟩ := applyPrices_eq_ok h
    have hobs : t₃.prices = t.prices ∧ t₃.availability = t.availability := by
      rw [matchExactGtins_frame hgtins, upsertRetailerItems_frame hitems,
        upsertPriceStores_frame hstores]
      exact ⟨rfl, rfl⟩
  -- The times of all rows are in order.
  · have hfinal : (∀ v ∈ final.history, v.ValidityOrder) ∧ ∀ c ∈ final.current, c.TimeOrder := by
      cases hf : a.isFull with
      | false =>
        rw [hdelta hf]
        exact applyIncoming_dated havailability
      | true => exact reconcileAbsent_dated (hfull hf)
    have hrows : t₃.stores = t₁.stores ∧ t₃.items = t₂.items ∧ t₃.promotions = t.promotions := by
      rw [matchExactGtins_frame hgtins, upsertRetailerItems_frame hitems,
        upsertPriceStores_frame hstores]
      exact ⟨rfl, rfl, rfl⟩
    refine ⟨?_, ?_, (applyIncoming_dated hprices).2, (applyIncoming_dated hprices).1, hfinal.2,
      hfinal.1, ?_, ?_⟩
    · show ∀ r ∈ t₃.stores, r.TimeOrder
      rw [hrows.1]
      exact upsertPriceStores_dated hstores
    · show ∀ r ∈ t₃.items, r.TimeOrder
      rw [hrows.2.1]
      exact upsertRetailerItems_dated hitems
    · show ∀ v ∈ t₃.promotions, v.ValidityOrder
      rw [hrows.2.2]
      exact ht.dated.promotions
    · show ∀ b ∈ t₃.assertions, b.TimeOrder
      exact matchExactGtins_dated hgtins
  -- The ids of current rows are below the next one.
  · have hkeyed : Keyed t₂ := by
      refine ht.keyed.keeps ((keepsIdentities_upsertPriceStores hstores).trans
        (keepsIdentities_upsertRetailerItems hitems)) ?_
      rw [upsertRetailerItems_frame hitems, upsertPriceStores_frame hstores]
      exact ht.keyed.availability
    have hcatalog := (ht.catalog.priceStores hstores).retailerItems hitems
    have hmatched := matchExactGtins_nextId hgtins
    have hnext : t.nextId ≤ t₃.nextId := by
      have h₁ := upsertPriceStores_nextId hstores
      have h₂ : t₁.nextId ≤ t₂.nextId := by
        rw [(upsertRetailerItems_items hitems).1]
        exact Nat.le_add_right _ _
      exact (h₁.trans h₂).trans hmatched
    obtain ⟨hpricesLt, havailabilityLt⟩ := ht.placed.mono hnext
    have hmappedLt : ∀ m ∈ mapped, m.key.itemId < t₃.nextId ∧ m.key.storeId < t₃.nextId := by
      intro m hm
      obtain ⟨-, item, hi, store, hs, hiid, hsid, -, -⟩ :=
        observes_of_mem_mapped hmaps hmapped hm
      rw [← hiid, ← hsid]
      exact ⟨(hcatalog.items_lt item hi).trans_le hmatched,
        (hkeyed.storeIds_lt store hs).trans_le hmatched⟩
    rw [hobs.1] at hprices
    rw [hobs.2] at havailability
    have hmid : ∀ c ∈ availability.current, c.key.itemId < t₃.nextId ∧ c.key.storeId < t₃.nextId := by
      refine placed_applyIncoming havailability havailabilityLt fun r hr => ?_
      obtain ⟨m, hm, rfl⟩ := List.mem_map.mp hr
      exact hmappedLt m hm
    constructor
    · refine placed_applyIncoming hprices hpricesLt fun r hr => ?_
      obtain ⟨m, hm, rfl⟩ := List.mem_map.mp hr
      exact hmappedLt m hm
    · cases hf : a.isFull with
      | false =>
        rw [hdelta hf]
        exact hmid
      | true => exact placed_reconcileAbsent (hfull hf) hmid

theorem Sorted.applyStores (ht : Sorted t) (h : applyStores a t = .ok (t', summary)) :
    Sorted t' := by
  refine ⟨?_, ?_, ht.keyed.applyStores h, ht.catalog.applyStores h⟩
  all_goals
    have hframe := applyStores_frame h
    obtain ⟨t₁, h₁, rfl⟩ := applyStores_eq_ok h
  · obtain ⟨horder, h₁⟩ := require_bind_eq_ok.mp h₁
    rw [pure_eq_ok] at h₁
    subst h₁
    refine ⟨?_, ht.dated.items, ht.dated.prices, ht.dated.priceHistory, ht.dated.availability,
      ht.dated.availabilityHistory, ht.dated.promotions, ht.dated.assertions⟩
    intro r hr
    obtain ⟨old, hold, rfl⟩ := List.mem_map.mp hr
    have hold := horder old hold
    split
    · exact hold
    · exact hold
  · obtain ⟨-, h₁⟩ := require_bind_eq_ok.mp h₁
    rw [pure_eq_ok] at h₁
    subst h₁
    obtain ⟨hprices, havailability⟩ := ht.placed.mono (Nat.le_add_right t.nextId _)
    exact ⟨hprices, havailability⟩

theorem Sorted.applyPromotions (ht : Sorted t) (h : applyPromotions a t = .ok (t', summary)) :
    Sorted t' := by
  have hframe := applyPromotions_frame h
  obtain ⟨t₁, t₂, t₃, promotions, h₁, h₂, hclosed, h₃, hend⟩ := applyPromotions_eq_ok h
  have hclosedDated : ∀ v ∈ promotions, v.ValidityOrder := by
    obtain ⟨horder, hclosed⟩ := require_bind_eq_ok.mp hclosed
    rw [pure_eq_ok] at hclosed
    rw [← hclosed]
    exact horder
  have hinserted := insertPromotions_dated h₃ hclosedDated
  -- The rows and the counter of the state before the absence update.
  have hrows : t'.stores = t₂.stores ∧ t'.items = t₁.items ∧ t₃.nextId ≤ t'.nextId ∧
      ∀ v ∈ t'.promotions, v.ValidityOrder := by
    have hmid : t₃.stores = t₂.stores ∧ t₃.items = t₁.items := by
      rw [(insertPromotions_eq_ok h₃).2, ensurePromotionStores_frame h₂]
      exact ⟨rfl, rfl⟩
    rcases hend with ⟨-, rfl⟩ | ⟨-, n, hn⟩
    · exact ⟨hmid.1, hmid.2, le_rfl, hinserted⟩
    · obtain ⟨horder, hn⟩ := require_bind_eq_ok.mp hn
      rw [pure_eq_ok] at hn
      cases hn
      exact ⟨hmid.1, hmid.2, le_rfl, horder⟩
  refine ⟨?_, ?_, ht.keyed.applyPromotions h, ht.catalog.applyPromotions h⟩
  · obtain ⟨hstores, hitems, -, hpromotions⟩ := hrows
    rw [hframe]
    refine ⟨?_, ?_, ht.dated.prices, ht.dated.priceHistory, ht.dated.availability,
      ht.dated.availabilityHistory, hpromotions, ht.dated.assertions⟩
    · show ∀ r ∈ t'.stores, r.TimeOrder
      rw [hstores]
      obtain ⟨-, h₂⟩ := require_bind_eq_ok.mp h₂
      obtain ⟨horder, h₂⟩ := require_bind_eq_ok.mp h₂
      rw [pure_eq_ok] at h₂
      rw [← h₂]
      exact horder
    · show ∀ r ∈ t'.items, r.TimeOrder
      rw [hitems]
      obtain ⟨horder, h₁⟩ := require_bind_eq_ok.mp h₁
      rw [pure_eq_ok] at h₁
      rw [← h₁]
      exact horder
  · have hnext : t.nextId ≤ t'.nextId := by
      refine le_trans ?_ hrows.2.2.1
      obtain ⟨-, h₁⟩ := require_bind_eq_ok.mp h₁
      obtain ⟨-, h₂⟩ := require_bind_eq_ok.mp h₂
      obtain ⟨-, h₂⟩ := require_bind_eq_ok.mp h₂
      obtain ⟨-, h₃⟩ := require_bind_eq_ok.mp h₃
      rw [pure_eq_ok] at h₁ h₂ h₃
      subst h₁
      subst h₂
      subst h₃
      exact (Nat.le_add_right _ _).trans ((Nat.le_add_right _ _).trans (Nat.le_add_right _ _))
    obtain ⟨hprices, havailability⟩ := ht.placed.mono hnext
    rw [hframe]
    exact ⟨hprices, havailability⟩

theorem Sorted.apply {r : ApplyRequest} (ht : Sorted t)
    (h : Makolet.Normalized.apply r t = .ok (t', summary)) : Sorted t' := by
  obtain ⟨family, -, -, hwrite⟩ := apply_eq_ok h
  obtain ⟨written, hwritten, rfl⟩ := writeDocument_eq_ok hwrite
  have hclaimed := ht.claimed r
  have hdone : Sorted written := by
    cases family with
    | stores => exact hclaimed.applyStores hwritten
    | prices => exact hclaimed.applyPrices hwritten
    | promotions => exact hclaimed.applyPromotions hwritten
  exact hdone.frame rfl

theorem Sorted.empty : Sorted Tables.empty where
  dated := by
    constructor <;>
      · intro _ h
        cases h
  placed := by
    constructor <;>
      · intro _ h
        cases h
  keyed := .empty
  catalog := .empty

end Kept

/-! ## Runs -/

/-- The tables, and the files whose apply met a temporal constraint. -/
structure Applying where
  tables : Tables
  violations : List FileId

/-- The apply fails on a temporal constraint. -/
def violates (r : ApplyRequest) (t : Tables) : Bool :=
  match apply r t with
  | .error e => decide (IsTemporal e)
  | .ok _ => false

/-- Ordinary ingests and replays in any order; an archive-only call writes no normalized table. -/
def applySystem : System Applying ApplyRequest where
  init s := s = ⟨.empty, []⟩
  next s r := some ⟨tablesAfter r s.tables,
    s.violations ++ if violates r s.tables then [r.sourceFileId] else []⟩

theorem tablesAfter_sorted {r : ApplyRequest} {t : Tables} (ht : Sorted t) :
    Sorted (tablesAfter r t) := by
  unfold tablesAfter
  split
  · rename_i applied happly
    exact ht.apply happly
  · exact ht

theorem violates_eq_false {r : ApplyRequest} {t : Tables} (ht : Sorted t) (hfit : TimesFit r t) :
    violates r t = false := by
  unfold violates
  split
  · rename_i e he
    exact decide_eq_false (apply_timely ht hfit e he)
  · rfl

theorem sorted_of_reach {ok : Applying → ApplyRequest → Prop} {s : Applying}
    (h : Reach applySystem ok s) : Sorted s.tables := by
  refine h.invariant (P := fun s => Sorted s.tables) ?_ ?_
  · rintro _ rfl
    exact .empty
  · intro s r s' hs _ hnext
    cases hnext
    exact tablesAfter_sorted hs

/-- In every run whose applies fit the stored instants, no apply violates a temporal constraint, and
every stored row meets its own. -/
theorem applies_within_constraints {s : Applying}
    (h : Reach applySystem (fun s r => TimesFit r s.tables) s) :
    s.violations = [] ∧ Dated s.tables := by
  refine ⟨?_, (sorted_of_reach h).dated⟩
  refine h.invariant_of (P := fun s => s.violations = []) ?_ ?_
  · rintro _ rfl
    rfl
  · intro s r s' hr hs hfit hnext
    cases hnext
    show s.violations ++ _ = []
    rw [hs, violates_eq_false (sorted_of_reach hr) hfit]
    rfl

/-! ## Instants after everything stored -/

/-- Everything stored began before the instant. -/
def BeganBefore (time : Time) (t : Tables) : Prop :=
  (∀ r ∈ t.stores, r.firstSeenAt < time) ∧ (∀ r ∈ t.items, r.firstSeenAt < time) ∧
    (∀ c ∈ t.prices.current, c.firstObservedAt < time) ∧
    (∀ h ∈ t.prices.history, h.validFrom < time) ∧
    (∀ c ∈ t.availability.current, c.firstObservedAt < time) ∧
    (∀ h ∈ t.availability.history, h.validFrom < time) ∧
    (∀ v ∈ t.promotions, v.validFrom < time) ∧ ∀ a ∈ t.assertions, a.assertedAt < time

instance (time : Time) (t : Tables) : Decidable (BeganBefore time t) :=
  inferInstanceAs (Decidable (_ ∧ _))

/-- An apply after everything stored fits, so a run under one increasing clock does. -/
theorem timesFit_of_later {r : ApplyRequest} {t : Tables} (h : BeganBefore (r.appliedAt t) t) :
    TimesFit r t := by
  obtain ⟨hstores, hitems, hprices, hpriceHistory, havailability, havailabilityHistory, hpromotions,
    hassertions⟩ := h
  intro family _ _
  constructor
  · exact ⟨fun store hs _ => le_of_lt (hstores store hs), fun item hi _ => le_of_lt (hitems item hi)⟩
  · intro _
    have hfit : ∀ k value, ObservationFit (r.appliedAt t) t.availability k value :=
      fun k value c hc _ => ⟨le_of_lt (havailability c hc),
        fun _ v hv _ _ => havailabilityHistory v hv⟩
    constructor
    · intro k row _ c hc _
      exact ⟨le_of_lt (hprices c hc), fun _ v hv _ _ => hpriceHistory v hv⟩
    · intro k row _
      exact hfit k _
    · intro _ c _ _ _ _
      exact hfit c.key _
    · intro b hb _ _ _ _
      exact le_of_lt (hassertions b hb)
  · intro _
    exact ⟨fun v hv _ _ => hpromotions v hv, fun _ v hv _ => hpromotions v hv⟩

/-- Two ordinary ingests under one clock. -/
theorem applies_within_constraints_sample :
    (applySystem.after ⟨.empty, []⟩
      [samplePriceRequest 1 100 200 "aa", samplePriceRequest 2 300 400 "bb"]).violations = [] :=
  (applies_within_constraints (.step (samplePriceRequest 2 300 400 "bb")
    (.step (samplePriceRequest 1 100 200 "aa") (.init rfl)
      (timesFit_of_later (by decide +kernel)) rfl)
    (timesFit_of_later (by decide +kernel)) rfl)).1

/-- A file that was published later than file 1 and archived without an apply. -/
def archivedLater : ApplyRequest :=
  { samplePriceRequest 2 200 1100 "bb" with
    source := ⟨1, 1, .priceDelta, .archived, some 200, some 1100, 1100, some "bb"⟩
    staging := { Staging.empty with prices := [sampleRecord "17" "4001" 550] }
    replayActive := true }

/-- File 1 was published at 100 and ingested at 1000; the replay of the archived file passes the
ordering check, applies at 200 and meets rows that were first seen at 1000. -/
theorem replayed_archive_violates :
    orderingQuarantine archivedLater .prices
        (applySystem.after ⟨.empty, []⟩ [samplePriceRequest 1 100 1000 "aa"]).tables = none ∧
      ∃ s, Reach applySystem Any s ∧ s.violations = [2] :=
  ⟨by decide +kernel, _,
    reach_after [samplePriceRequest 1 100 1000 "aa", archivedLater] rfl (by decide +kernel),
    by decide +kernel⟩

end Makolet.Normalized
