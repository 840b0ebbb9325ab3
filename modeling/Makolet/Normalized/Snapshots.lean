import Makolet.Normalized.Absence
import Makolet.Normalized.Corroboration

/-!
# What a price file leaves behind

A price file is a list of records, of which the last of each key counts, and the header of its
store. The current tables are read as a function of the item and the store: a full file determines
the available items of the stores in its scope and leaves the other stores alone, and a delta
changes the keys that it names.
-/

set_option autoImplicit false

namespace Makolet.Normalized

open Makolet.Domain Makolet.Lib

/-! ## The property -/

/-- The record with the highest index of its key. -/
structure LastRecord (s : Staging) (row : StagedPrice) : Prop where
  staged : row ∈ s.prices
  last : ∀ other ∈ s.prices, other.key = row.key → other.recordIndex ≤ row.recordIndex

/-- The record is about the item and the store of the key. -/
def Names (r : ApplyRequest) (t : Tables) (k : Key) (row : StagedPrice) : Prop :=
  ∃ item ∈ t.items, ∃ store ∈ t.stores, item.id = k.itemId ∧ store.id = k.storeId ∧
    item.key = (r.source.retailerId, r.source.portalId, row.sourceItemCode) ∧
    store.key = (r.source.retailerId, r.source.portalId, row.subchainId, row.sourceStoreId)

/-- The store of some record, or of a header. -/
def InScope (r : ApplyRequest) (t : Tables) (id : StoreId) : Prop :=
  ∃ store ∈ t.stores, store.id = id ∧ store.retailerId = r.source.retailerId ∧
    store.portalId = r.source.portalId ∧
    ((∃ row ∈ r.staging.prices, row.storeKey = (store.subchainCode, store.sourceStoreCode)) ∨
      ∃ d ∈ r.staging.documents, d.storeId = some store.sourceStoreCode ∧
        d.subchainId.getD "" = store.subchainCode)

/-- The current row and the history of the key are what they were. -/
structure Untouched {ν π : Type} (obs obs' : Observations ν π) (k : Key) : Prop where
  current : Table.lookup Current.key obs'.current k = Table.lookup Current.key obs.current k
  history : obs'.history.filter (fun h => decide (h.key = k)) =
    obs.history.filter fun h => decide (h.key = k)

/-- The current row of the key, with its details. -/
def currentRow {ν π : Type} (obs : Observations ν π) (k : Key) : Option (ν × π) :=
  (Table.lookup Current.key obs.current k).map fun c => (c.value, c.details)

/-- Every record names a key, and the key has the values of its last record. -/
structure TakesLastRecords (r : ApplyRequest) (t' : Tables) : Prop where
  named : ∀ row ∈ r.staging.prices, ∃ k, Names r t' k row
  price : ∀ k row, Names r t' k row → LastRecord r.staging row →
    currentRow t'.prices k = some (row.value, row.details)
  availability : ∀ k row, Names r t' k row → LastRecord r.staging row →
    currentRow t'.availability k = some (⟨row.isAvailable, row.itemStatus⟩, ())

/-- A full file: the scope holds what the last records say, and nothing else changes. -/
structure FullSnapshot (r : ApplyRequest) (t t' : Tables) : Prop extends TakesLastRecords r t' where
  available : ∀ k, InScope r t' k.storeId → (isAvailableIn t' k = true ↔
    ∃ row, LastRecord r.staging row ∧ Names r t' k row ∧ row.itemStatus ≠ some 0)
  unlistedPrice : ∀ k, ¬Lists r t' k → Untouched t.prices t'.prices k
  outOfScope : ∀ k, ¬InScope r t' k.storeId → Untouched t.availability t'.availability k
  stores : ∀ store ∈ t.stores, ¬InScope r t' store.id → store ∈ t'.stores

/-- A delta: the keys that no record names are as they were. -/
structure DeltaSnapshot (r : ApplyRequest) (t t' : Tables) : Prop
    extends TakesLastRecords r t' where
  unlistedPrice : ∀ k, ¬Lists r t' k → Untouched t.prices t'.prices k
  unlistedAvailability : ∀ k, ¬Lists r t' k → Untouched t.availability t'.availability k

/-! ## The last record of each key -/

theorem pairwise_recordIndex (s : Staging) :
    (s.prices.insertionSort fun a b => b.recordIndex ≤ a.recordIndex).Pairwise
      fun a b => b.recordIndex ≤ a.recordIndex := by
  have htotal : Std.Total fun a b : StagedPrice => b.recordIndex ≤ a.recordIndex :=
    ⟨fun a b => le_total b.recordIndex a.recordIndex⟩
  have htrans : IsTrans StagedPrice fun a b => b.recordIndex ≤ a.recordIndex :=
    ⟨fun a b c hab hbc => hbc.trans hab⟩
  exact List.pairwise_insertionSort _ _

/-- The incoming rows are the last records. -/
theorem mem_priceIncoming_iff {s : Staging} (hindex : (s.prices.map StagedPrice.recordIndex).Nodup)
    {row : StagedPrice} : row ∈ priceIncoming s ↔ LastRecord s row := by
  have hlast : ∀ {x}, x ∈ priceIncoming s → LastRecord s x := by
    intro x hx
    refine ⟨mem_of_mem_priceIncoming hx, fun other hother hkey => ?_⟩
    rcases Table.rel_of_mem_distinctOn (pairwise_recordIndex s) hx other
      ((List.mem_insertionSort _).mpr hother) hkey with rfl | hle
    · exact le_rfl
    · exact hle
  constructor
  · exact hlast
  · rintro ⟨hrow, hmax⟩
    obtain ⟨x, hx, hkey⟩ := exists_priceIncoming hrow
    have hx' := hlast hx
    have hsame : x.recordIndex = row.recordIndex :=
      le_antisymm (hmax x hx'.staged hkey) (hx'.last row hrow hkey.symm)
    rw [← List.inj_on_of_nodup_map hindex hx'.staged hrow hsame]
    exact hx


/-! ## Statements that leave a key alone -/

section Untouched

variable {ν π : Type} {fileId : FileId} {t : Time} {k : Key}

theorem Untouched.refl (obs : Observations ν π) (k : Key) : Untouched obs obs k :=
  ⟨rfl, rfl⟩

theorem Untouched.trans {a b c : Observations ν π} (h : Untouched a b k) (h' : Untouched b c k) :
    Untouched a c k :=
  ⟨h'.current.trans h.current, h'.history.trans h.history⟩

/-- Closing rows of other keys and inserting rows of other keys. -/
theorem history_of_closed_insert {keys : List Key} {rows : List (Incoming ν π)}
    {history closed extended : List (History ν π)} (hclosed : closeOpen t keys history = .ok closed)
    (hinsert : insertOpen fileId t rows closed = .ok extended) (hkeys : k ∉ keys)
    (hrows : ∀ r ∈ rows, r.key ≠ k) :
    extended.filter (fun h => decide (h.key = k)) = history.filter fun h => decide (h.key = k) := by
  rw [insertOpen_eq_ok hinsert, (closeOpen_eq_ok hclosed).1, List.filter_append]
  have hnew : (rows.map fun r => (⟨r.key, r.value, r.details, fileId, t, none⟩ :
      History ν π)).filter (fun h => decide (h.key = k)) = [] := by
    apply List.filter_eq_nil_iff.mpr
    intro h hh
    obtain ⟨r, hr, rfl⟩ := List.mem_map.mp hh
    simpa using hrows r hr
  rw [hnew, List.append_nil]
  clear hnew hclosed hinsert
  induction history with
  | nil => rfl
  | cons a rest ih =>
    rw [List.map_cons, List.filter_cons, List.filter_cons, ih]
    by_cases hk : a.key = k
    · -- A row of the key itself is not among the closed ones.
      have hkept : ¬(a.validTo.isNone = true ∧ a.key ∈ keys) := fun h => hkeys (hk ▸ h.2)
      rw [if_neg hkept]
    · have hother : (if a.validTo.isNone = true ∧ a.key ∈ keys then
          { a with validTo := some t } else a).key ≠ k := by
        split <;> exact hk
      rw [decide_eq_false hother, decide_eq_false hk]
      rfl

theorem lookup_upsertCurrent {incoming : List (Incoming ν π)} {current written : List (Current ν π)}
    (h : upsertCurrent fileId t incoming current = .ok written) (k : Key) :
    Table.lookup Current.key written k =
      match Table.lookup Incoming.key incoming k, Table.lookup Current.key current k with
      | some r, some c => some { c with
          value := r.value
          details := r.details
          sourceFileId := fileId
          lastObservedAt := t }
      | some r, none => some ⟨r.key, r.value, r.details, fileId, t, t⟩
      | none, old => old := by
  obtain ⟨-, hp⟩ := require_bind_eq_ok.mp h
  rw [pure_eq_ok] at hp
  subst hp
  have hlookup := @Table.lookup_upsert _ _ _ _ Current.key Incoming.key
    (fun r => (⟨r.key, r.value, r.details, fileId, t, t⟩ : Current ν π))
    (fun c r => { c with
      value := r.value
      details := r.details
      sourceFileId := fileId
      lastObservedAt := t })
    current incoming (fun _ => rfl) (fun _ _ => rfl) k
  rw [hlookup]
  cases Table.lookup Incoming.key incoming k <;> cases Table.lookup Current.key current k <;> rfl

variable [DecidableEq ν]

/-- The statements for the rows of one file leave the other keys alone. -/
theorem applyIncoming_untouched {incoming : List (Incoming ν π)} {obs obs' : Observations ν π}
    (h : applyIncoming fileId t incoming obs = .ok obs')
    (hnot : ∀ r ∈ incoming, r.key ≠ k) : Untouched obs obs' k := by
  obtain ⟨closed, hclosed, hinsert, hcurrent⟩ := applyIncoming_eq_ok h
  constructor
  · rw [lookup_upsertCurrent hcurrent, Table.lookup_eq_none.mpr hnot]
  · apply history_of_closed_insert hclosed hinsert
    · intro hk
      obtain ⟨r, hr, hrk⟩ := List.mem_map.mp hk
      exact hnot r (List.mem_filter.mp hr).1 hrk
    · intro r hr
      exact hnot r (List.mem_filter.mp hr).1

/-- The key of an incoming row has the values of the row. -/
theorem applyIncoming_currentRow {incoming : List (Incoming ν π)} {obs obs' : Observations ν π}
    (h : applyIncoming fileId t incoming obs = .ok obs')
    (hunique : Table.UniqueOn Incoming.key incoming) {r : Incoming ν π} (hr : r ∈ incoming) :
    currentRow obs' r.key = some (r.value, r.details) := by
  obtain ⟨-, -, -, hcurrent⟩ := applyIncoming_eq_ok h
  rw [currentRow, lookup_upsertCurrent hcurrent, Table.lookup_of_mem hunique hr]
  cases Table.lookup Current.key obs.current r.key <;> rfl

omit [DecidableEq ν] in
theorem reconcileAbsent_untouched {missing : List Key} {value : ν} {details : π}
    {obs obs' : Observations ν π}
    (h : reconcileAbsent fileId t missing value details obs = .ok obs') (hnot : k ∉ missing) :
    Untouched obs obs' k := by
  obtain ⟨⟨closed, hclosed, hinsert⟩, hcurrent⟩ := reconcileAbsent_eq_ok h
  constructor
  · have hkey : ∀ c : Current ν π, (if c.key ∈ missing then
        { c with value := value, sourceFileId := fileId, lastObservedAt := t } else c).key =
        c.key := by
      intro c
      split <;> rfl
    rw [hcurrent, Table.lookup_map_of_key hkey]
    cases hc : Table.lookup Current.key obs.current k with
    | none => rfl
    | some c =>
      rw [Option.map_some, Table.key_of_lookup hc, if_neg hnot]
  · apply history_of_closed_insert hclosed hinsert hnot
    intro r hr
    obtain ⟨j, hj, rfl⟩ := List.mem_map.mp hr
    exact fun hjk => hnot (hjk ▸ hj)

end Untouched

/-! ## The mapped records -/

section Mapped

variable {p : ApplyParameters} {s : Staging} {u u' : Tables}

theorem materializePriceMaps_codes {maps : List RetailerItem × List StoreRow}
    (h : materializePriceMaps p s u = .ok maps) :
    Table.UniqueOn RetailerItem.sourceItemCode maps.1 := by
  obtain ⟨-, h⟩ := require_bind_eq_ok.mp h
  obtain ⟨hcodes, h⟩ := require_bind_eq_ok.mp h
  obtain ⟨-, h⟩ := require_bind_eq_ok.mp h
  rw [pure_eq_ok] at h
  exact h ▸ hcodes

/-- The store of every record is there after the stores are upserted. -/
theorem exists_store_of_record (h : upsertPriceStores p s u = .ok u') {row : StagedPrice}
    (hrow : row ∈ s.prices) : ∃ store ∈ u'.stores,
      store.key = (p.retailerId, p.portalId, row.subchainId, row.sourceStoreId) := by
  obtain ⟨-, h⟩ := require_bind_eq_ok.mp h
  rw [pure_eq_ok] at h
  subst h
  obtain ⟨x, hx, hxk⟩ := exists_priceIncoming hrow
  obtain ⟨y, hy, hyk⟩ := @Table.exists_mem_distinctOn _ _ _ StagedPrice.storeKey _ _ hx
  simp only [StagedPrice.key, Prod.mk.injEq] at hxk
  rw [StagedPrice.storeKey, StagedPrice.storeKey, Prod.mk.injEq] at hyk
  obtain ⟨b, hmem, rfl⟩ := Table.exists_mem_zipIdx hy u.nextId
  rw [← hxk.1, ← hxk.2.1, ← hyk.1, ← hyk.2]
  refine @Table.exists_mem_upsert _ _ _ _ StoreRow.key _ _ _ _ _ ?_ ?_ _ hmem
  · exact fun _ => rfl
  · exact fun _ _ => rfl

/-- A store stays as it is or gets the values of a record. -/
theorem store_after_upsertPriceStores (h : upsertPriceStores p s u = .ok u') {store : StoreRow}
    (hstore : store ∈ u.stores) : store ∈ u'.stores ∨
      ∃ store' ∈ u'.stores, store'.id = store.id ∧ ∃ row ∈ s.prices,
        store'.key = (p.retailerId, p.portalId, row.subchainId, row.sourceStoreId) := by
  obtain ⟨-, h⟩ := require_bind_eq_ok.mp h
  rw [pure_eq_ok] at h
  subst h
  have hmem := List.mem_append_left ((((Table.distinctOn StagedPrice.storeKey
      (priceIncoming s)).zipIdx u.nextId).filter fun b => (Table.lookup StoreRow.key u.stores
        (p.retailerId, p.portalId, b.1.subchainId, b.1.sourceStoreId)).isNone).map fun b =>
      ⟨b.2, p.retailerId, p.portalId, b.1.chainId, b.1.subchainId, b.1.sourceStoreId,
        placeholderStore b.1.sourceStoreId, true, p.appliedAt, p.appliedAt, p.sourceFileId⟩)
    (List.mem_map_of_mem (f := fun r : StoreRow => (Table.lookup (fun b : StagedPrice × Nat =>
      (p.retailerId, p.portalId, b.1.subchainId, b.1.sourceStoreId))
      ((Table.distinctOn StagedPrice.storeKey (priceIncoming s)).zipIdx u.nextId) r.key).elim r
        fun b => { r with
          chainCode := b.1.chainId
          isActive := true
          lastSeenAt := p.appliedAt
          lastSourceFileId := p.sourceFileId }) hstore)
  cases hb : Table.lookup (fun b : StagedPrice × Nat =>
      (p.retailerId, p.portalId, b.1.subchainId, b.1.sourceStoreId))
      ((Table.distinctOn StagedPrice.storeKey (priceIncoming s)).zipIdx u.nextId) store.key with
  | none =>
    rw [hb] at hmem
    exact .inl hmem
  | some b =>
    rw [hb] at hmem
    have hrow : b.1 ∈ s.prices := mem_of_mem_priceIncoming
      (Table.mem_of_mem_distinctOn (List.fst_mem_of_mem_zipIdx (Table.mem_of_lookup hb)))
    exact .inr ⟨_, hmem, rfl, b.1, hrow, (Table.key_of_lookup hb).symm⟩

/-- The item of every record is there after the items are upserted. -/
theorem exists_item_of_record (h : upsertRetailerItems p s u = .ok u') {row : StagedPrice}
    (hrow : row ∈ s.prices) : ∃ item ∈ u'.items,
      item.key = (p.retailerId, p.portalId, row.sourceItemCode) := by
  rw [(upsertRetailerItems_items h).2]
  obtain ⟨y, hy, hyk⟩ := exists_describingRow hrow
  obtain ⟨b, hmem, rfl⟩ := Table.exists_mem_zipIdx hy u.nextId
  rw [← hyk]
  refine @Table.exists_mem_upsert _ _ _ _ RetailerItem.key _ _ _ _ _ ?_ ?_ _ hmem
  · exact fun _ => rfl
  · exact fun _ _ => rfl

end Mapped

/-! ## One price file -/

section File

variable {r : ApplyRequest} {appliedAt : Time} {t t' : Tables} {summary : ApplySummary}

/-- What the statements of a price file did: the mapped rows, the rows they left in the tables, and
the availability before the absent items are closed. -/
structure Written (r : ApplyRequest) (t t' : Tables) (mapped : List MappedPrice)
    (availability : Observations AvailabilityValue Unit) : Prop where
  unique : Table.UniqueOn MappedPrice.key mapped
  itemUnique : ∀ row ∈ r.staging.prices, ∀ item ∈ t'.items, ∀ other ∈ t'.items,
    item.key = (r.source.retailerId, r.source.portalId, row.sourceItemCode) →
    other.key = item.key → other = item
  mem_iff : ∀ m, m ∈ mapped ↔ m.row ∈ priceIncoming r.staging ∧ Names r t' m.key m.row
  item : ∀ row ∈ r.staging.prices, ∃ item ∈ t'.items,
    item.key = (r.source.retailerId, r.source.portalId, row.sourceItemCode)
  store : ∀ row ∈ r.staging.prices, ∃ store ∈ t'.stores,
    store.key = (r.source.retailerId, r.source.portalId, row.subchainId, row.sourceStoreId)
  oldStore : ∀ store ∈ t.stores, store ∈ t'.stores ∨ ∃ store' ∈ t'.stores, store'.id = store.id ∧
    ∃ row ∈ r.staging.prices, store'.key =
      (r.source.retailerId, r.source.portalId, row.subchainId, row.sourceStoreId)
  prices : ∃ fileId appliedAt,
    applyIncoming fileId appliedAt (mapped.map MappedPrice.price) t.prices = .ok t'.prices
  availability : ∃ fileId appliedAt,
    applyIncoming fileId appliedAt (mapped.map MappedPrice.availability) t.availability =
      .ok availability

/-- The keys that a full file closes, given the availability before it closes them. -/
def closedKeys (r : ApplyRequest) (t' : Tables) (mapped : List MappedPrice)
    (availability : Observations AvailabilityValue Unit) : List Key :=
  missingPriceKeys (r.documentApply 0).parameters r.staging
    { t' with availability := availability } (mapped.map MappedPrice.key)

theorem exists_written (h : applyPrices (r.documentApply appliedAt) t = .ok (t', summary)) :
    ∃ mapped availability, Written r t t' mapped availability ∧
      (r.documentType.isFullSnapshot = false → t'.availability = availability) ∧
      (r.documentType.isFullSnapshot = true →
        reconcileAbsent r.sourceFileId appliedAt (closedKeys r t' mapped availability) unavailable ()
          availability = .ok t'.availability) := by
  obtain ⟨t₁, t₂, t₃, maps, mapped, prices, availability, final, hstores, hitems, hmaps, hmapped,
    hgtins, hprices, havailability, rfl, hdelta, hfull⟩ := applyPrices_eq_ok h
  have hstores₃ : t₃.stores = t₁.stores := by
    rw [matchExactGtins_frame hgtins, upsertRetailerItems_frame hitems]
  have hitems₃ : t₃.items = t₂.items := by rw [matchExactGtins_frame hgtins]
  have hstores₂ : t₂.stores = t₁.stores := by rw [upsertRetailerItems_frame hitems]
  have hobs : t₃.prices = t.prices ∧ t₃.availability = t.availability := by
    rw [matchExactGtins_frame hgtins, upsertRetailerItems_frame hitems,
      upsertPriceStores_frame hstores]
    exact ⟨rfl, rfl⟩
  rw [hobs.1] at hprices
  rw [hobs.2] at havailability
  have hcodes : Table.UniqueOn RetailerItem.sourceItemCode maps.1 := materializePriceMaps_codes hmaps
  refine ⟨mapped, availability, ?_, hdelta, hfull⟩
  constructor
  case unique => exact materializeMappedPriceIncoming_unique hmapped
  case itemUnique =>
    intro row hrow item hitem other hother hkey hsame
    rw [(materializePriceMaps_eq_ok hmaps).1] at hcodes
    have hnamed : ∀ i ∈ t₃.items,
        i.key = (r.source.retailerId, r.source.portalId, row.sourceItemCode) →
        i ∈ namedItems (r.documentApply appliedAt).parameters r.staging t₂ := by
      intro i hi hik
      simp only [RetailerItem.key, Prod.mk.injEq] at hik
      refine mem_namedItems.mpr ⟨hitems₃ ▸ hi, hik.1, hik.2.1, row, hrow, hik.2.2.symm⟩
    refine List.inj_on_of_nodup_map hcodes (hnamed other hother (hsame.trans hkey))
      (hnamed item hitem hkey) ?_
    simp only [RetailerItem.key, Prod.mk.injEq] at hsame
    exact hsame.2.2
  case mem_iff =>
    intro m
    rw [mem_mapped_iff_names hmaps hmapped m, hstores₂, ← hstores₃, ← hitems₃]
    rfl
  case item =>
    intro row hrow
    show ∃ item ∈ t₃.items, _
    rw [hitems₃]
    exact exists_item_of_record hitems hrow
  case store =>
    intro row hrow
    show ∃ store ∈ t₃.stores, _
    rw [hstores₃]
    exact exists_store_of_record hstores hrow
  case oldStore =>
    intro store hstore
    show store ∈ t₃.stores ∨ ∃ store' ∈ t₃.stores, _
    rw [hstores₃]
    exact store_after_upsertPriceStores hstores hstore
  case prices => exact ⟨_, _, hprices⟩
  case availability => exact ⟨_, _, havailability⟩

variable {mapped : List MappedPrice} {availability : Observations AvailabilityValue Unit}

theorem Written.mem_of_names (hw : Written r t t' mapped availability)
    (hindex : (r.staging.prices.map StagedPrice.recordIndex).Nodup) {k : Key} {row : StagedPrice}
    (hlast : LastRecord r.staging row) (hnames : Names r t' k row) : ⟨k, row⟩ ∈ mapped :=
  (hw.mem_iff ⟨k, row⟩).mpr ⟨(mem_priceIncoming_iff hindex).mpr hlast, hnames⟩

/-- A key that no record names is not mapped. -/
theorem Written.not_mem_of_unlisted (hw : Written r t t' mapped availability) {k : Key}
    (hnot : ¬Lists r t' k) : ∀ m ∈ mapped, m.key ≠ k := by
  intro m hm hmk
  obtain ⟨hrow, hnames⟩ := (hw.mem_iff m).mp hm
  exact hnot ⟨m.row, mem_of_mem_priceIncoming hrow, hmk ▸ hnames⟩

theorem Written.exists_names (hw : Written r t t' mapped availability) {row : StagedPrice}
    (hrow : row ∈ r.staging.prices) {store : StoreRow} (hstore : store ∈ t'.stores)
    (hkey : store.key =
      (r.source.retailerId, r.source.portalId, row.subchainId, row.sourceStoreId)) :
    ∃ k, Names r t' k row ∧ k.storeId = store.id := by
  obtain ⟨item, hitem, hitemKey⟩ := hw.item row hrow
  exact ⟨⟨item.id, store.id⟩, ⟨item, hitem, store, hstore, rfl, rfl, hitemKey, hkey⟩, rfl⟩

/-- The reconciled stores are those in scope. -/
theorem Written.mem_reconciled (hw : Written r t t' mapped availability)
    (obs : Observations AvailabilityValue Unit) {id : StoreId} :
    id ∈ reconciledStores (r.documentApply 0).parameters r.staging
        { t' with availability := obs } (mapped.map MappedPrice.key) ↔ InScope r t' id := by
  rw [mem_reconciledStores]
  constructor
  · rintro (⟨j, hj, rfl⟩ | ⟨store, hstore, hid, hret, hpor, hheader⟩)
    · obtain ⟨m, hm, rfl⟩ := List.mem_map.mp hj
      obtain ⟨hrow, item, hitem, store, hstore, -, hid, -, hkey⟩ := (hw.mem_iff m).mp hm
      simp only [StoreRow.key, Prod.mk.injEq] at hkey
      refine ⟨store, hstore, hid, hkey.1, hkey.2.1, .inl ⟨m.row, mem_of_mem_priceIncoming hrow, ?_⟩⟩
      rw [StagedPrice.storeKey, hkey.2.2.1, hkey.2.2.2]
    · exact ⟨store, hstore, hid, hret, hpor, .inr hheader⟩
  · rintro ⟨store, hstore, hid, hret, hpor, ⟨row, hrow, hkey⟩ | hheader⟩
    · left
      -- The incoming record of the same key names an item of the store.
      obtain ⟨x, hx, hxk⟩ := exists_priceIncoming hrow
      simp only [StagedPrice.key, Prod.mk.injEq] at hxk
      rw [StagedPrice.storeKey, Prod.mk.injEq] at hkey
      have hstoreKey : store.key =
          (r.source.retailerId, r.source.portalId, x.subchainId, x.sourceStoreId) := by
        rw [StoreRow.key, hret, hpor, hxk.1, hxk.2.1, hkey.1, hkey.2]
      obtain ⟨k, hnames, hkid⟩ := hw.exists_names (mem_of_mem_priceIncoming hx) hstore hstoreKey
      refine ⟨k, List.mem_map.mpr ⟨⟨k, x⟩, (hw.mem_iff ⟨k, x⟩).mpr ⟨hx, hnames⟩, rfl⟩, ?_⟩
      rw [hkid, hid]
    · exact .inr ⟨store, hstore, hid, hret, hpor, hheader⟩

/-- Nothing out of scope is closed. -/
theorem Written.not_mem_closedKeys (hw : Written r t t' mapped availability) {k : Key}
    (hout : ¬InScope r t' k.storeId) : k ∉ closedKeys r t' mapped availability := by
  intro hk
  obtain ⟨c, hc, hck⟩ := List.mem_map.mp (List.mem_dedup.mp (List.mem_filter.mp hk).1)
  have hcond := (List.mem_filter.mp hc).2
  rw [Bool.and_eq_true, decide_eq_true_eq, hck] at hcond
  exact hout ((hw.mem_reconciled availability).mp hcond.2)

theorem Written.not_mem_closedKeys_of_mem {k : Key} (hk : k ∈ mapped.map MappedPrice.key) :
    k ∉ closedKeys r t' mapped availability :=
  fun hclosed => of_decide_eq_true (List.mem_filter.mp hclosed).2 hk

theorem Written.priceUntouched (hw : Written r t t' mapped availability) {k : Key}
    (hnot : ¬Lists r t' k) : Untouched t.prices t'.prices k := by
  obtain ⟨_, _, hprices⟩ := hw.prices
  refine applyIncoming_untouched hprices fun x hx => ?_
  obtain ⟨m, hm, rfl⟩ := List.mem_map.mp hx
  exact hw.not_mem_of_unlisted hnot m hm

theorem Written.availabilityUntouched (hw : Written r t t' mapped availability) {k : Key}
    (hnot : ∀ m ∈ mapped, m.key ≠ k) : Untouched t.availability availability k := by
  obtain ⟨_, _, havailability⟩ := hw.availability
  refine applyIncoming_untouched havailability fun x hx => ?_
  obtain ⟨m, hm, rfl⟩ := List.mem_map.mp hx
  exact hnot m hm

theorem Written.availabilityRow (hw : Written r t t' mapped availability) {m : MappedPrice}
    (hm : m ∈ mapped) :
    currentRow availability m.key = some (⟨m.row.isAvailable, m.row.itemStatus⟩, ()) := by
  obtain ⟨_, _, havailability⟩ := hw.availability
  exact applyIncoming_currentRow havailability (uniqueOn_map_availability hw.unique)
    (List.mem_map_of_mem hm)

/-- The named keys, given that the availability of the mapped keys stays as the records say. -/
theorem Written.takesLastRecords (hw : Written r t t' mapped availability)
    (hindex : (r.staging.prices.map StagedPrice.recordIndex).Nodup)
    (hkept : ∀ m ∈ mapped, Untouched availability t'.availability m.key) :
    TakesLastRecords r t' where
  named row hrow := by
    obtain ⟨store, hstore, hkey⟩ := hw.store row hrow
    obtain ⟨k, hnames, -⟩ := hw.exists_names hrow hstore hkey
    exact ⟨k, hnames⟩
  price k row hnames hlast := by
    obtain ⟨_, _, hprices⟩ := hw.prices
    exact applyIncoming_currentRow hprices (uniqueOn_map_price hw.unique)
      (List.mem_map_of_mem (hw.mem_of_names hindex hlast hnames))
  availability k row hnames hlast := by
    have hm := hw.mem_of_names hindex hlast hnames
    rw [currentRow, (hkept _ hm).current]
    exact hw.availabilityRow hm

theorem deltaSnapshot_of_applyPrices
    (h : applyPrices (r.documentApply appliedAt) t = .ok (t', summary))
    (hdelta : r.documentType.isFullSnapshot = false)
    (hindex : (r.staging.prices.map StagedPrice.recordIndex).Nodup) : DeltaSnapshot r t t' := by
  obtain ⟨mapped, availability, hw, hsame, -⟩ := exists_written h
  cases hsame hdelta
  exact {
    toTakesLastRecords := hw.takesLastRecords hindex fun m _ => Untouched.refl _ m.key
    unlistedPrice := fun k hnot => hw.priceUntouched hnot
    unlistedAvailability := fun k hnot => hw.availabilityUntouched (hw.not_mem_of_unlisted hnot) }

/-- In scope, an item is available when its last record says so. -/
theorem Written.available_iff (hw : Written r t t' mapped availability)
    (hindex : (r.staging.prices.map StagedPrice.recordIndex).Nodup)
    (hunique : Table.UniqueOn Current.key t.availability.current)
    (hclosed : reconcileAbsent r.sourceFileId appliedAt (closedKeys r t' mapped availability)
      unavailable () availability = .ok t'.availability) {k : Key} (hin : InScope r t' k.storeId) :
    isAvailableIn t' k = true ↔
      ∃ row, LastRecord r.staging row ∧ Names r t' k row ∧ row.itemStatus ≠ some 0 := by
  have hmidUnique : Table.UniqueOn Current.key availability.current := by
    obtain ⟨_, _, havailability⟩ := hw.availability
    obtain ⟨-, -, -, hcurrent⟩ := applyIncoming_eq_ok havailability
    exact upsertCurrent_unique hcurrent hunique (uniqueOn_map_availability hw.unique)
  by_cases hk : k ∈ mapped.map MappedPrice.key
  · obtain ⟨m, hm, rfl⟩ := List.mem_map.mp hk
    obtain ⟨hrow, hnames⟩ := (hw.mem_iff m).mp hm
    have havailable : isAvailableIn t' m.key = m.row.isAvailable := by
      have hcurrent := hw.availabilityRow hm
      rw [currentRow, ← (reconcileAbsent_untouched hclosed
        (Written.not_mem_closedKeys_of_mem hk)).current] at hcurrent
      obtain ⟨c, hc, heq⟩ := Option.map_eq_some_iff.mp hcurrent
      rw [Prod.mk.injEq] at heq
      rw [isAvailableIn, currentValue, hc, Option.map_some, Option.any_some, heq.1]
    rw [havailable]
    constructor
    · intro hrowAvailable
      exact ⟨m.row, (mem_priceIncoming_iff hindex).mp hrow, hnames, of_decide_eq_true hrowAvailable⟩
    · rintro ⟨row, hlast, hnames', hstatus⟩
      -- One key has one mapped row.
      have hsame : m = ⟨m.key, row⟩ := List.inj_on_of_nodup_map hw.unique hm
        (hw.mem_of_names hindex hlast hnames') rfl
      have hrowSame : m.row = row := congrArg MappedPrice.row hsame
      rw [hrowSame]
      exact decide_eq_true hstatus
  · refine iff_of_false ?_ ?_
    · intro hafter
      have hfinal := reconcileAbsent_current hclosed (fun j hj => by
        obtain ⟨-, x, hx, -⟩ := of_mem_missingPriceKeys hmidUnique hj
        rw [hx]
        rfl) k
      rw [isAvailableIn, hfinal] at hafter
      by_cases hmissing : k ∈ closedKeys r t' mapped availability
      · rw [if_pos hmissing] at hafter
        cases hafter
      · rw [if_neg hmissing] at hafter
        exact hmissing ((mem_missingPriceKeys (u := { t' with availability := availability })
          hafter hk).mpr ((hw.mem_reconciled availability).mpr hin))
    · rintro ⟨row, hlast, hnames, -⟩
      exact hk (List.mem_map.mpr ⟨_, hw.mem_of_names hindex hlast hnames, rfl⟩)

theorem fullSnapshot_of_applyPrices
    (h : applyPrices (r.documentApply appliedAt) t = .ok (t', summary))
    (hfull : r.documentType.isFullSnapshot = true)
    (hunique : Table.UniqueOn Current.key t.availability.current)
    (hindex : (r.staging.prices.map StagedPrice.recordIndex).Nodup) : FullSnapshot r t t' := by
  obtain ⟨mapped, availability, hw, -, hreconcile⟩ := exists_written h
  have hclosed := hreconcile hfull
  constructor
  case toTakesLastRecords =>
    refine hw.takesLastRecords hindex fun m hm => ?_
    exact reconcileAbsent_untouched hclosed
      (Written.not_mem_closedKeys_of_mem (List.mem_map_of_mem hm))
  case available => exact fun k hin => hw.available_iff hindex hunique hclosed hin
  case unlistedPrice => exact fun k hnot => hw.priceUntouched hnot
  case outOfScope =>
    intro k hout
    -- A mapped key lies in a store in scope.
    have hnot : ∀ m ∈ mapped, m.key ≠ k := by
      rintro m hm rfl
      refine hout ((hw.mem_reconciled availability).mp ?_)
      rw [mem_reconciledStores]
      exact .inl ⟨m.key, List.mem_map_of_mem hm, rfl⟩
    exact (hw.availabilityUntouched hnot).trans
      (reconcileAbsent_untouched hclosed (hw.not_mem_closedKeys hout))
  case stores =>
    intro store hstore hout
    rcases hw.oldStore store hstore with hkept | ⟨store', hstore', hid, row, hrow, hkey⟩
    · exact hkept
    · simp only [StoreRow.key, Prod.mk.injEq] at hkey
      refine absurd ⟨store', hstore', hid, hkey.1, hkey.2.1, .inl ⟨row, hrow, ?_⟩⟩ hout
      rw [StagedPrice.storeKey, hkey.2.2.1, hkey.2.2.2]

end File

/-- A price file that is accepted in a state reached by accepted applies: a full file makes the
available items of the stores in its scope those whose last record does not say 0, a delta changes
only the keys it names, and each named key takes the values of its last record. The record indexes
of a file are distinct, as the primary key of the staged rows demands. -/
theorem price_snapshot_semantics (before : List ApplyRequest) (t : Tables)
    (hrun : applyRun Tables.empty before = .ok t) (r : ApplyRequest) (t' : Tables)
    (summary : ApplySummary) (happly : apply r t = .ok (t', summary))
    (hindex : (r.staging.prices.map StagedPrice.recordIndex).Nodup) :
    (r.documentType = .priceFull → FullSnapshot r t t') ∧
      (r.documentType = .priceDelta → DeltaSnapshot r t t') := by
  have hunique := (keyed_of_applyRun hrun).availability
  obtain ⟨family, hfamily, -, hwrite⟩ := apply_eq_ok happly
  obtain ⟨written, hwritten, rfl⟩ := writeDocument_eq_ok hwrite
  rw [claimContent_frame] at hwritten
  constructor
  · intro htype
    rw [htype] at hfamily
    cases hfamily
    -- The claim of the content and the watermarks are not part of the snapshot.
    have h := fullSnapshot_of_applyPrices hwritten (by rw [htype]; rfl) hunique hindex
    exact ⟨⟨h.named, h.price, h.availability⟩, h.available, h.unlistedPrice, h.outOfScope, h.stores⟩
  · intro htype
    rw [htype] at hfamily
    cases hfamily
    have h := deltaSnapshot_of_applyPrices hwritten (by rw [htype]; rfl) hindex
    exact ⟨⟨h.named, h.price, h.availability⟩, h.unlistedPrice, h.unlistedAvailability⟩

theorem price_snapshot_otherStore :
    FullSnapshot otherStore (tablesAfter newerStore Tables.empty)
      (tablesAfter otherStore (tablesAfter newerStore Tables.empty)) := by
  obtain ⟨s₁, h₁⟩ := apply_tablesAfter (r := newerStore) (t := Tables.empty) (by decide +kernel)
  obtain ⟨s₂, h₂⟩ := apply_tablesAfter (r := otherStore) (t := tablesAfter newerStore Tables.empty)
    (by decide +kernel)
  exact (price_snapshot_semantics _ _ (applyRun_singleton h₁) _ _ _ h₂ (by decide)).1 rfl

end Makolet.Normalized
