import Makolet.Normalized.Gtin

/-!
# Applying a price file

`_apply_prices` and the helpers it calls. The staged rows of the file are reduced to the last row of
each (subchain, store, item) key, mapped to the surrogate keys of their item and store, and written
to the price and availability tables; a full snapshot then marks what it does not mention as
unavailable.

The comparison of two IEEE doubles in `_validate_drop` is a parameter of the policy
(`SnapshotPolicy.exceedsDrop`), as is the formatting of its two percentages.
-/

set_option autoImplicit false

namespace Makolet.Normalized

open Makolet.Domain Makolet.Lib

/-- `ApplySummary`. -/
structure ApplySummary where
  inserted : Nat
  updated : Nat
  unchanged : Nat
  unavailable : Nat
  historyEvents : Nat
  deriving DecidableEq, Repr

/-- The safety policy of a full snapshot. -/
structure SnapshotPolicy where
  minimumFullRecords : Nat
  /-- `(prior - incoming) / prior > maximum_drop_fraction`, for the incoming and prior counts. -/
  exceedsDrop : Nat → Nat → Bool
  /-- `drops ...; maximum is ...`, the two formatted percentages. -/
  dropText : Nat → Nat → String

/-- `_validate_drop`. -/
def validateDrop (policy : SnapshotPolicy) (incomingCount priorCount : Nat) (scope : String) :
    Except Failure PUnit :=
  require (priorCount = 0 ∨ priorCount ≤ incomingCount ∨
      policy.exceedsDrop incomingCount priorCount = false)
    ⟨.snapshotValidation, "Full snapshot for " ++ scope ++ " " ++
      policy.dropText incomingCount priorCount, 0⟩

/-- `_validate_full_snapshot`. -/
def validateFullSnapshot (policy : SnapshotPolicy) (incomingCount priorCount : Nat)
    (scope : String) : Except Failure PUnit := do
  require (policy.minimumFullRecords ≤ incomingCount)
    ⟨.snapshotValidation, "Full snapshot for " ++ scope ++ " has " ++ toString incomingCount ++
      " records; minimum is " ++ toString policy.minimumFullRecords, 0⟩
  validateDrop policy incomingCount priorCount scope

/-! ## The incoming rows -/

def StagedPrice.key (r : StagedPrice) : String × String × String :=
  (r.subchainId, r.sourceStoreId, r.sourceItemCode)

def StagedPrice.storeKey (r : StagedPrice) : String × String :=
  (r.subchainId, r.sourceStoreId)

/-- `_PRICE_INCOMING`: the row with the highest record index of each key. -/
def priceIncoming (s : Staging) : List StagedPrice :=
  Table.distinctOn StagedPrice.key
    (s.prices.insertionSort fun a b => b.recordIndex ≤ a.recordIndex)

/-- `_validate_full_price_snapshot`. -/
def validateFullPriceSnapshot (p : ApplyParameters) (policy : SnapshotPolicy) (s : Staging)
    (t : Tables) : Except Failure PUnit := do
  let incoming := priceIncoming s
  let recordScopes := (incoming.map StagedPrice.storeKey).dedup
  let headerScopes := s.documents.filterMap fun d =>
    d.storeId.map fun store => (d.subchainId.getD "", store)
  let scopes := (recordScopes ++ headerScopes).dedup
  let incomingCount := fun scope => (incoming.filter fun r => decide (r.storeKey = scope)).length
  let priorCount := fun scope : String × String =>
    (t.availability.current.filter fun c => c.value.isAvailable && t.stores.any fun store =>
      decide (store.key = (p.retailerId, p.portalId, scope.1, scope.2) ∧
        store.id = c.key.storeId)).length
  require (policy.minimumFullRecords ≤ incoming.length)
    ⟨.snapshotValidation, "Full price snapshot has " ++ toString incoming.length ++
      " records; minimum is " ++ toString policy.minimumFullRecords, 0⟩
  scopes.forM fun scope => do
    require (¬ (priorCount scope = 0 ∧ incomingCount scope < policy.minimumFullRecords))
      ⟨.snapshotValidation, "First full price snapshot for store " ++ scope.1 ++ "/" ++ scope.2 ++
        " has " ++ toString (incomingCount scope) ++ " records; minimum is " ++
        toString policy.minimumFullRecords, 0⟩
    validateDrop policy (incomingCount scope) (priorCount scope)
      ("store " ++ scope.1 ++ "/" ++ scope.2)

/-! ## Stores and items -/

/-- Check constraint `seen_time_order` of `stores`. -/
def StoreRow.TimeOrder (r : StoreRow) : Prop :=
  r.firstSeenAt ≤ r.lastSeenAt

instance (r : StoreRow) : Decidable r.TimeOrder :=
  inferInstanceAs (Decidable (r.firstSeenAt ≤ r.lastSeenAt))

/-- Check constraint `seen_time_order` of `retailer_items`. -/
def RetailerItem.TimeOrder (r : RetailerItem) : Prop :=
  r.firstSeenAt ≤ r.lastSeenAt

instance (r : RetailerItem) : Decidable r.TimeOrder :=
  inferInstanceAs (Decidable (r.firstSeenAt ≤ r.lastSeenAt))

/-- The description of a store that no roster has described yet. -/
def placeholderStore (code : String) : StoreDescription :=
  ⟨none, none, none, none, "Store " ++ code, none, none, none⟩

/-- `_upsert_price_stores`. -/
def upsertPriceStores (p : ApplyParameters) (s : Staging) (t : Tables) : Except Failure Tables := do
  let source := (Table.distinctOn StagedPrice.storeKey (priceIncoming s)).zipIdx t.nextId
  let stores := Table.upsert StoreRow.key
    (fun b : StagedPrice × Nat =>
      (p.retailerId, p.portalId, b.1.subchainId, b.1.sourceStoreId))
    (fun b => ⟨b.2, p.retailerId, p.portalId, b.1.chainId, b.1.subchainId, b.1.sourceStoreId,
      placeholderStore b.1.sourceStoreId, true, p.appliedAt, p.appliedAt, p.sourceFileId⟩)
    (fun old b => { old with
      chainCode := b.1.chainId
      isActive := true
      lastSeenAt := p.appliedAt
      lastSourceFileId := p.sourceFileId })
    t.stores source
  require (∀ r ∈ stores, r.TimeOrder) (constraintViolation "seen_time_order")
  pure { t with stores := stores, nextId := t.nextId + source.length }

/-- `_upsert_retailer_items`: of several stores that name an item, the first store's row counts. -/
def upsertRetailerItems (p : ApplyParameters) (s : Staging) (t : Tables) :
    Except Failure Tables := do
  let ordered := (priceIncoming s).insertionSort fun a b => a.sourceStoreId ≤ b.sourceStoreId
  let source := (Table.distinctOn StagedPrice.sourceItemCode ordered).zipIdx t.nextId
  let items := Table.upsert RetailerItem.key
    (fun b : StagedPrice × Nat => (p.retailerId, p.portalId, b.1.sourceItemCode))
    (fun b => ⟨b.2, p.retailerId, p.portalId, b.1.sourceItemCode, b.1.gtin, b.1.description,
      p.appliedAt, p.appliedAt, p.sourceFileId⟩)
    (fun old b => { old with
      gtin := b.1.gtin
      description := b.1.description
      lastSeenAt := p.appliedAt
      lastSourceFileId := p.sourceFileId })
    t.items source
  require (∀ r ∈ items, r.TimeOrder) (constraintViolation "seen_time_order")
  pure { t with items := items, nextId := t.nextId + source.length }

/-! ## The mapped incoming table -/

/-- `makolet_exact_gtin_items`: the retailer items that the file names. -/
def namedItems (p : ApplyParameters) (s : Staging) (t : Tables) : List RetailerItem :=
  t.items.filter fun i =>
    decide (i.retailerId = p.retailerId ∧ i.portalId = p.portalId) &&
      s.prices.any fun r => decide (r.sourceItemCode = i.sourceItemCode)

/-- `makolet_price_stores`: the stores that the file names. -/
def namedStores (p : ApplyParameters) (s : Staging) (t : Tables) : List StoreRow :=
  t.stores.filter fun store =>
    decide (store.retailerId = p.retailerId ∧ store.portalId = p.portalId) &&
      s.prices.any fun r => decide (r.storeKey = (store.subchainCode, store.sourceStoreCode))

/-- The unique indexes that `_materialize_price_maps` builds over the two maps. -/
def materializePriceMaps (p : ApplyParameters) (s : Staging) (t : Tables) :
    Except Failure (List RetailerItem × List StoreRow) := do
  let items := namedItems p s t
  let stores := namedStores p s t
  require (Table.UniqueOn RetailerItem.id items)
    (constraintViolation "makolet_exact_gtin_items_item_idx")
  require (Table.UniqueOn RetailerItem.sourceItemCode items)
    (constraintViolation "makolet_exact_gtin_items_source_code_idx")
  require (Table.UniqueOn (fun r : StoreRow => (r.subchainCode, r.sourceStoreCode)) stores)
    (constraintViolation "makolet_price_stores_pkey")
  pure (items, stores)

/-- A row of `makolet_mapped_price_incoming`. -/
structure MappedPrice where
  key : Key
  row : StagedPrice
  deriving DecidableEq, Repr

/-- `COALESCE(item_status <> 0, true)`. -/
def StagedPrice.isAvailable (r : StagedPrice) : Bool :=
  decide (r.itemStatus ≠ some 0)

def MappedPrice.price (m : MappedPrice) : Incoming PriceValue PriceDetails :=
  ⟨m.key, m.row.value, m.row.details⟩

def MappedPrice.availability (m : MappedPrice) : Incoming AvailabilityValue Unit :=
  ⟨m.key, ⟨m.row.isAvailable, m.row.itemStatus⟩, ()⟩

/-- `_materialize_mapped_price_incoming`. -/
def materializeMappedPriceIncoming (s : Staging) (items : List RetailerItem)
    (stores : List StoreRow) : Except Failure (List MappedPrice) := do
  let mapped := (priceIncoming s).flatMap fun r =>
    (items.filter fun i => decide (i.sourceItemCode = r.sourceItemCode)).flatMap fun i =>
      (stores.filter fun store =>
          decide ((store.subchainCode, store.sourceStoreCode) = r.storeKey)).map fun store =>
        ⟨⟨i.id, store.id⟩, r⟩
  require (Table.UniqueOn MappedPrice.key mapped)
    (constraintViolation "makolet_mapped_price_incoming_pkey")
  pure mapped

/-! ## Absence -/

/-- The stores whose absent items a full snapshot closes: those of its records and that of its
header. -/
def reconciledStores (p : ApplyParameters) (s : Staging) (t : Tables) (incoming : List Key) :
    List StoreId :=
  incoming.map Key.storeId ++ s.documents.flatMap fun d => d.storeId.toList.flatMap fun code =>
    (t.stores.filter fun store =>
      decide (store.key = (p.retailerId, p.portalId, d.subchainId.getD "", code))).map StoreRow.id

/-- `_MISSING_PRICE_KEYS_SELECT`. -/
def missingPriceKeys (p : ApplyParameters) (s : Staging) (t : Tables) (incoming : List Key) :
    List Key :=
  (((t.availability.current.filter fun c =>
      c.value.isAvailable && decide (c.key.storeId ∈ reconciledStores p s t incoming)).map
    Current.key).dedup).filter fun k => decide (k ∉ incoming)

/-- What absence says about an item. -/
def unavailable : AvailabilityValue :=
  ⟨false, none⟩

/-- `_reconcile_absent_prices`. -/
def reconcileAbsentPrices (p : ApplyParameters) (s : Staging) (t : Tables) (incoming : List Key) :
    Except Failure (Tables × Nat) := do
  let missing := missingPriceKeys p s t incoming
  let availability ← reconcileAbsent p.sourceFileId p.appliedAt missing unavailable ()
    t.availability
  pure ({ t with availability := availability }, missing.length)

/-- `_apply_incoming_availability`: the history events and the items that became unavailable. -/
def applyIncomingAvailability (p : ApplyParameters) (mapped : List MappedPrice) (t : Tables) :
    Except Failure (Tables × Nat × Nat) := do
  let incoming := mapped.map MappedPrice.availability
  let events := (freshOrChangedRows t.availability.current incoming).length
  let gone := (incoming.filter fun r => !r.value.isAvailable &&
    (Table.lookup Current.key t.availability.current r.key).all fun c =>
      c.value.isAvailable).length
  let availability ← applyIncoming p.sourceFileId p.appliedAt incoming t.availability
  pure ({ t with availability := availability }, events, gone)

/-! ## The apply -/

/-- One document as the apply functions receive it. -/
structure DocumentApply where
  parameters : ApplyParameters
  isFull : Bool
  policy : SnapshotPolicy
  staging : Staging

/-- `_apply_prices`. -/
def applyPrices (a : DocumentApply) (t : Tables) : Except Failure (Tables × ApplySummary) := do
  let p := a.parameters
  let _ ← (if a.isFull then validateFullPriceSnapshot p a.policy a.staging t else pure ⟨⟩)
  let t ← upsertPriceStores p a.staging t
  let t ← upsertRetailerItems p a.staging t
  let maps ← materializePriceMaps p a.staging t
  let mapped ← materializeMappedPriceIncoming a.staging maps.1 maps.2
  let t ← matchExactGtins p maps.1 t
  let incoming := mapped.map MappedPrice.price
  let inserted := (incoming.filter fun r =>
    (Table.lookup Current.key t.prices.current r.key).isNone).length
  let updated := (changedRows t.prices.current incoming).length
  let events := (freshOrChangedRows t.prices.current incoming).length
  let prices ← applyIncoming p.sourceFileId p.appliedAt incoming t.prices
  let availability ← applyIncomingAvailability p mapped { t with prices := prices }
  let absent ←
    (if a.isFull then
      reconcileAbsentPrices p a.staging availability.1 (mapped.map MappedPrice.key)
    else pure (availability.1, 0))
  pure (absent.1, ⟨inserted, updated, incoming.length - inserted - updated,
    availability.2.2 + absent.2, events + availability.2.1 + absent.2⟩)

/-! ## What each statement may write -/

theorem upsertPriceStores_frame {p : ApplyParameters} {s : Staging} {t t' : Tables}
    (h : upsertPriceStores p s t = .ok t') :
    t' = { t with stores := t'.stores, nextId := t'.nextId } := by
  obtain ⟨-, h⟩ := require_bind_eq_ok.mp h
  rw [pure_eq_ok] at h
  subst h
  rfl

theorem upsertRetailerItems_frame {p : ApplyParameters} {s : Staging} {t t' : Tables}
    (h : upsertRetailerItems p s t = .ok t') :
    t' = { t with items := t'.items, nextId := t'.nextId } := by
  obtain ⟨-, h⟩ := require_bind_eq_ok.mp h
  rw [pure_eq_ok] at h
  subst h
  rfl

theorem matchExactGtins_frame {p : ApplyParameters} {items : List RetailerItem} {t t' : Tables}
    (h : matchExactGtins p items t = .ok t') :
    t' = { t with
      assertions := t'.assertions
      matchGroups := t'.matchGroups
      products := t'.products
      identifiers := t'.identifiers
      confirmedMatches := t'.confirmedMatches
      candidates := t'.candidates
      nextId := t'.nextId } := by
  obtain ⟨t₁, h₁, h⟩ := bind_eq_ok.mp h
  obtain ⟨_, -, h₁⟩ := bind_eq_ok.mp h₁
  obtain ⟨_, -, h₁⟩ := bind_eq_ok.mp h₁
  rw [pure_eq_ok] at h h₁
  subst h₁
  subst h
  rfl

theorem materializePriceMaps_eq_ok {p : ApplyParameters} {s : Staging} {t : Tables}
    {maps : List RetailerItem × List StoreRow} (h : materializePriceMaps p s t = .ok maps) :
    maps = (namedItems p s t, namedStores p s t) ∧ Table.UniqueOn RetailerItem.id maps.1 := by
  obtain ⟨hid, h⟩ := require_bind_eq_ok.mp h
  obtain ⟨-, h⟩ := require_bind_eq_ok.mp h
  obtain ⟨-, h⟩ := require_bind_eq_ok.mp h
  rw [pure_eq_ok] at h
  subst h
  exact ⟨rfl, hid⟩

theorem materializeMappedPriceIncoming_unique {s : Staging} {items : List RetailerItem}
    {stores : List StoreRow} {mapped : List MappedPrice}
    (h : materializeMappedPriceIncoming s items stores = .ok mapped) :
    Table.UniqueOn MappedPrice.key mapped := by
  obtain ⟨hu, h⟩ := require_bind_eq_ok.mp h
  rw [pure_eq_ok] at h
  exact h ▸ hu

/-- The store of a mapped row is one that the file names. -/
theorem store_of_mem_mapped {s : Staging} {items : List RetailerItem} {stores : List StoreRow}
    {mapped : List MappedPrice} (h : materializeMappedPriceIncoming s items stores = .ok mapped)
    {m : MappedPrice} (hm : m ∈ mapped) : ∃ store ∈ stores, store.id = m.key.storeId := by
  obtain ⟨-, h⟩ := require_bind_eq_ok.mp h
  rw [pure_eq_ok] at h
  subst h
  obtain ⟨r, -, hm⟩ := List.mem_flatMap.mp hm
  obtain ⟨i, -, hm⟩ := List.mem_flatMap.mp hm
  obtain ⟨store, hstore, rfl⟩ := List.mem_map.mp hm
  exact ⟨store, (List.mem_filter.mp hstore).1, rfl⟩

/-- The statements of an accepted price apply, with the tables between them. -/
theorem applyPrices_eq_ok {a : DocumentApply} {t t' : Tables} {summary : ApplySummary}
    (h : applyPrices a t = .ok (t', summary)) :
    ∃ t₁ t₂ t₃ maps mapped prices availability final,
      upsertPriceStores a.parameters a.staging t = .ok t₁ ∧
      upsertRetailerItems a.parameters a.staging t₁ = .ok t₂ ∧
      materializePriceMaps a.parameters a.staging t₂ = .ok maps ∧
      materializeMappedPriceIncoming a.staging maps.1 maps.2 = .ok mapped ∧
      matchExactGtins a.parameters maps.1 t₂ = .ok t₃ ∧
      applyIncoming a.parameters.sourceFileId a.parameters.appliedAt
        (mapped.map MappedPrice.price) t₃.prices = .ok prices ∧
      applyIncoming a.parameters.sourceFileId a.parameters.appliedAt
        (mapped.map MappedPrice.availability) t₃.availability = .ok availability ∧
      t' = { t₃ with prices := prices, availability := final } ∧
      (a.isFull = false → final = availability) ∧
      (a.isFull = true →
        reconcileAbsent a.parameters.sourceFileId a.parameters.appliedAt
          (missingPriceKeys a.parameters a.staging
            { t₃ with prices := prices, availability := availability }
            (mapped.map MappedPrice.key)) unavailable () availability = .ok final) := by
  obtain ⟨-, -, h⟩ := bind_eq_ok.mp h
  obtain ⟨t₁, hstores, h⟩ := bind_eq_ok.mp h
  obtain ⟨t₂, hitems, h⟩ := bind_eq_ok.mp h
  obtain ⟨maps, hmaps, h⟩ := bind_eq_ok.mp h
  obtain ⟨mapped, hmapped, h⟩ := bind_eq_ok.mp h
  obtain ⟨t₃, hgtins, h⟩ := bind_eq_ok.mp h
  obtain ⟨prices, hprices, h⟩ := bind_eq_ok.mp h
  obtain ⟨_, hrest, h⟩ := bind_eq_ok.mp h
  obtain ⟨absent, habsent, h⟩ := bind_eq_ok.mp h
  obtain ⟨availability, havailability, hrest⟩ := bind_eq_ok.mp hrest
  rw [pure_eq_ok] at h hrest
  subst hrest
  cases h
  cases hfull : a.isFull with
  | false =>
    rw [hfull, if_neg Bool.false_ne_true, pure_eq_ok] at habsent
    refine ⟨t₁, t₂, t₃, maps, mapped, prices, availability, availability, hstores, hitems, hmaps,
      hmapped, hgtins, hprices, havailability, ?_, fun _ => rfl, (fun h => by cases h)⟩
    rw [← habsent]
  | true =>
    rw [hfull, if_pos rfl] at habsent
    obtain ⟨final, hfinal, habsent⟩ := bind_eq_ok.mp habsent
    rw [pure_eq_ok] at habsent
    refine ⟨t₁, t₂, t₃, maps, mapped, prices, availability, final, hstores, hitems, hmaps,
      hmapped, hgtins, hprices, havailability, ?_, (fun h => by cases h), fun _ => hfinal⟩
    rw [← habsent]

theorem applyPrices_frame {a : DocumentApply} {t t' : Tables} {summary : ApplySummary}
    (h : applyPrices a t = .ok (t', summary)) :
    t' = { t with
      stores := t'.stores
      items := t'.items
      prices := t'.prices
      availability := t'.availability
      assertions := t'.assertions
      matchGroups := t'.matchGroups
      products := t'.products
      identifiers := t'.identifiers
      confirmedMatches := t'.confirmedMatches
      candidates := t'.candidates
      nextId := t'.nextId } := by
  obtain ⟨t₁, t₂, t₃, _, _, _, _, _, hstores, hitems, _, _, hgtins, _, _, rfl, _, _⟩ :=
    applyPrices_eq_ok h
  rw [matchExactGtins_frame hgtins, upsertRetailerItems_frame hitems,
    upsertPriceStores_frame hstores]

/-! ## A small document -/

/-- A staged price record of item `code` in store `store`. -/
def sampleRecord (store code : String) (price : Nat) : StagedPrice where
  recordIndex := 1
  chainId := "7290000000001"
  subchainId := "1"
  sourceStoreId := store
  sourceItemCode := code
  gtin := none
  description := ⟨none, "milk", none, none, none, none, none, none, none, none⟩
  value := ⟨price, none, none⟩
  itemStatus := none
  details := ⟨none, none, none⟩

/-- A policy that never finds a drop too large. -/
def lenientPolicy : SnapshotPolicy :=
  ⟨0, fun _ _ => false, fun _ _ => ""⟩

end Makolet.Normalized
