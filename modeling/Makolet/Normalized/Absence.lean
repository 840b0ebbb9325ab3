import Makolet.Normalized.Keys

/-!
# Scopes that a full snapshot closes by absence

A full price or promotion file closes what it does not list: in the scopes of its records and in
the scope of its document header. The scopes whose watermark it compares and advances are those of
its records, and those of its headers only when it has no record. `absence_ordered_iff` says when
the two agree on everything that is closed.
-/

set_option autoImplicit false

namespace Makolet.Normalized

open Makolet.Domain Makolet.Lib

/-! ## The property and its condition -/

/-- The file compares the watermark of the key and advances it. -/
structure Ordered (r : ApplyRequest) (family : DocumentFamily) (t t' : Tables) (k : WatermarkKey) :
    Prop where
  incoming : k ∈ r.watermarkKeys family
  compared : ∀ w, watermarkOf t k = some w → w.effectiveSourceTimestamp ≤ r.effectiveTimestamp
  advanced : SetBy r t' k

/-- A record of the file lists the item in the store. -/
def Lists (r : ApplyRequest) (t : Tables) (k : Key) : Prop :=
  ∃ row ∈ r.staging.prices, ∃ item ∈ t.items, ∃ store ∈ t.stores,
    item.id = k.itemId ∧ store.id = k.storeId ∧
      item.key = (r.source.retailerId, r.source.portalId, row.sourceItemCode) ∧
      store.key = (r.source.retailerId, r.source.portalId, row.subchainId, row.sourceStoreId)

def isAvailableIn (t : Tables) (k : Key) : Bool :=
  (currentValue t.availability.current k).any AvailabilityValue.isAvailable

/-- A record of the file lists the promotion. -/
def ListsPromotion (r : ApplyRequest) (k : PromotionKey) : Prop :=
  ∃ b ∈ r.staging.promotions, (⟨r.source.retailerId, r.source.portalId, b.subchainId,
    b.sourcePromotionId, b.sourceScopeStoreCode⟩ : PromotionKey) = k

/-- Whatever the file closes without listing it lies in a scope that is ordering-checked. -/
structure AbsenceOrdered (r : ApplyRequest) (t t' : Tables) : Prop where
  item : ∀ k, isAvailableIn t k = true → isAvailableIn t' k = false → ¬Lists r t' k →
    ∃ store ∈ t'.stores, store.id = k.storeId ∧ Ordered r .prices t t' store.priceWatermark
  promotion : ∀ k, (openPromotion t k).isSome → openPromotion t' k = none →
    ¬ListsPromotion r k → Ordered r .promotions t t' k.watermark

/-- Something of the scope is available or open. -/
def Closable (r : ApplyRequest) (t : Tables) (scope : Scope) : DocumentFamily → Prop
  | .stores => False
  | .prices => ∃ store ∈ t.stores,
      store.key = (r.source.retailerId, r.source.portalId, scope.subchainCode,
        scope.sourceScopeCode) ∧
      ∃ c ∈ t.availability.current, c.key.storeId = store.id ∧ c.value.isAvailable = true
  | .promotions => ∃ v ∈ t.promotions, v.isOpen = true ∧ v.key.retailerId = r.source.retailerId ∧
      v.key.portalId = r.source.portalId ∧ v.key.scope = (scope.subchainCode, scope.sourceScopeCode)

/-- The header names a scope to reconcile; a price header does so with a store. -/
def StagedDocument.reconciles (d : StagedDocument) (family : DocumentFamily) : Prop :=
  family = .prices → d.storeId.isSome

/-- Each header that closes something has the scope of a record, unless there is no record. -/
def HeadersCovered (r : ApplyRequest) (family : DocumentFamily) (t : Tables) : Prop :=
  stagedScopes r.staging family = [] ∨
    ∀ d ∈ r.staging.documents, d.reconciles family →
      headerScope family d ∈ stagedScopes r.staging family ∨
        ¬Closable r t (headerScope family d) family

/-! ## Incoming scopes -/

section Scopes

variable {r : ApplyRequest} {family : DocumentFamily} {s : Staging} {t t' : Tables}
  {summary : ApplySummary}

theorem mem_incomingScopes_iff {scope : Scope} (h : stagedScopes s family ≠ []) :
    scope ∈ incomingScopes family s ↔ scope ∈ stagedScopes s family := by
  have hne : (stagedScopes s family).dedup ≠ [] := by
    obtain ⟨x, hx⟩ := List.exists_mem_of_ne_nil _ h
    exact List.ne_nil_of_mem (List.mem_dedup.mpr hx)
  unfold incomingScopes
  rw [if_pos hne, List.mem_dedup]

theorem headerScope_mem_incomingScopes {d : StagedDocument} (h : stagedScopes s family = [])
    (hd : d ∈ s.documents) : headerScope family d ∈ incomingScopes family s := by
  have hmem : headerScope family d ∈ (s.documents.map (headerScope family)).dedup :=
    List.mem_dedup.mpr (List.mem_map_of_mem hd)
  unfold incomingScopes
  rw [h, if_neg (by simp), if_pos (List.ne_nil_of_mem hmem)]
  exact hmem

theorem mem_watermarkKeys {scope : Scope} :
    r.watermarkKey family scope ∈ r.watermarkKeys family ↔
      scope ∈ incomingScopes family r.staging := by
  constructor
  · intro h
    obtain ⟨x, hx, hkey⟩ := List.mem_map.mp h
    rw [ApplyRequest.watermarkKey, ApplyRequest.watermarkKey, WatermarkKey.mk.injEq] at hkey
    exact hkey.2.2.2 ▸ hx
  · exact fun h => List.mem_map_of_mem h

/-- An incoming scope is compared and advanced by an accepted apply. -/
theorem ordered_of_mem (h : apply r t = .ok (t', summary))
    (hfamily : family? r.documentType = some family) {k : WatermarkKey}
    (hk : k ∈ r.watermarkKeys family) : Ordered r family t t' k := by
  obtain ⟨f, hf, hstep⟩ := apply_watermark_step h
  cases hfamily.symm.trans hf
  obtain ⟨hset, hcompared⟩ := (hstep k).1 hk
  exact ⟨hk, fun w hw => (hcompared w hw).1, hset⟩

end Scopes

/-! ## Prices -/

section Prices

variable {r : ApplyRequest} {appliedAt : Time} {t t' : Tables} {summary : ApplySummary}

/-- Each mapped row is an incoming record with the item and the store that it names. -/
theorem mem_mapped_iff_names {p : ApplyParameters} {s : Staging} {u : Tables}
    {maps : List RetailerItem × List StoreRow} {mapped : List MappedPrice}
    (hmaps : materializePriceMaps p s u = .ok maps)
    (hmapped : materializeMappedPriceIncoming s maps.1 maps.2 = .ok mapped) (m : MappedPrice) :
    m ∈ mapped ↔ m.row ∈ priceIncoming s ∧ ∃ item ∈ u.items, ∃ store ∈ u.stores,
      item.id = m.key.itemId ∧ store.id = m.key.storeId ∧
        item.key = (p.retailerId, p.portalId, m.row.sourceItemCode) ∧
        store.key = (p.retailerId, p.portalId, m.row.subchainId, m.row.sourceStoreId) := by
  rw [(materializePriceMaps_eq_ok hmaps).1] at hmapped
  obtain ⟨-, hmapped⟩ := require_bind_eq_ok.mp hmapped
  rw [pure_eq_ok] at hmapped
  subst hmapped
  constructor
  · intro hm
    obtain ⟨row, hrow, hm⟩ := List.mem_flatMap.mp hm
    obtain ⟨item, hitem, hm⟩ := List.mem_flatMap.mp hm
    obtain ⟨store, hstore, rfl⟩ := List.mem_map.mp hm
    obtain ⟨hitem, hcode⟩ := List.mem_filter.mp hitem
    obtain ⟨hstore, hkey⟩ := List.mem_filter.mp hstore
    obtain ⟨hitem, hnamed⟩ := List.mem_filter.mp hitem
    obtain ⟨hstore, hnamed'⟩ := List.mem_filter.mp hstore
    rw [Bool.and_eq_true, decide_eq_true_eq] at hnamed hnamed'
    rw [decide_eq_true_eq] at hcode hkey
    refine ⟨hrow, item, hitem, store, hstore, rfl, rfl, ?_, ?_⟩
    · rw [RetailerItem.key, hnamed.1.1, hnamed.1.2, hcode]
    · rw [StagedPrice.storeKey, Prod.mk.injEq] at hkey
      rw [StoreRow.key, hnamed'.1.1, hnamed'.1.2, hkey.1, hkey.2]
  · rintro ⟨hrow, item, hitem, store, hstore, hitemId, hstoreId, hitemKey, hstoreKey⟩
    have hstaged := mem_of_mem_priceIncoming hrow
    simp only [RetailerItem.key, StoreRow.key, Prod.mk.injEq] at hitemKey hstoreKey
    have hitemNamed : item ∈ namedItems p s u := by
      refine List.mem_filter.mpr ⟨hitem, ?_⟩
      rw [Bool.and_eq_true, decide_eq_true_eq, List.any_eq_true]
      exact ⟨⟨hitemKey.1, hitemKey.2.1⟩, m.row, hstaged, decide_eq_true hitemKey.2.2.symm⟩
    have hstoreNamed : store ∈ namedStores p s u := by
      refine List.mem_filter.mpr ⟨hstore, ?_⟩
      rw [Bool.and_eq_true, decide_eq_true_eq, List.any_eq_true]
      refine ⟨⟨hstoreKey.1, hstoreKey.2.1⟩, m.row, hstaged, decide_eq_true ?_⟩
      rw [StagedPrice.storeKey, hstoreKey.2.2.1, hstoreKey.2.2.2]
    refine List.mem_flatMap.mpr ⟨m.row, hrow, List.mem_flatMap.mpr ⟨item,
      List.mem_filter.mpr ⟨hitemNamed, decide_eq_true hitemKey.2.2⟩, List.mem_map.mpr ⟨store,
        List.mem_filter.mpr ⟨hstoreNamed, decide_eq_true ?_⟩, ?_⟩⟩⟩
    · rw [StagedPrice.storeKey, hstoreKey.2.2.1, hstoreKey.2.2.2]
    · rw [hitemId, hstoreId]

/-- The mapped keys are the listed ones. -/
theorem mem_mapped_iff {p : ApplyParameters} {s : Staging} {u : Tables}
    {maps : List RetailerItem × List StoreRow} {mapped : List MappedPrice}
    (hmaps : materializePriceMaps p s u = .ok maps)
    (hmapped : materializeMappedPriceIncoming s maps.1 maps.2 = .ok mapped) (k : Key) :
    k ∈ mapped.map MappedPrice.key ↔
      ∃ row ∈ s.prices, ∃ item ∈ u.items, ∃ store ∈ u.stores,
        item.id = k.itemId ∧ store.id = k.storeId ∧
          item.key = (p.retailerId, p.portalId, row.sourceItemCode) ∧
          store.key = (p.retailerId, p.portalId, row.subchainId, row.sourceStoreId) := by
  constructor
  · intro hk
    obtain ⟨m, hm, rfl⟩ := List.mem_map.mp hk
    obtain ⟨hrow, hnames⟩ := (mem_mapped_iff_names hmaps hmapped m).mp hm
    exact ⟨m.row, mem_of_mem_priceIncoming hrow, hnames⟩
  · rintro ⟨row, hrow, item, hitem, store, hstore, hitemId, hstoreId, hitemKey, hstoreKey⟩
    -- The incoming row of the same key stands for the record.
    obtain ⟨x, hx, hsame⟩ := exists_priceIncoming hrow
    simp only [StagedPrice.key, Prod.mk.injEq] at hsame
    rw [← hsame.2.2] at hitemKey
    rw [← hsame.1, ← hsame.2.1] at hstoreKey
    exact List.mem_map.mpr ⟨⟨k, x⟩, (mem_mapped_iff_names hmaps hmapped ⟨k, x⟩).mpr
      ⟨hx, item, hitem, store, hstore, hitemId, hstoreId, hitemKey, hstoreKey⟩, rfl⟩

/-- The stores after a price apply: those it records, and the others as they were. -/
theorem store_of_upsertPriceStores {p : ApplyParameters} {s : Staging} {u u' : Tables}
    (h : upsertPriceStores p s u = .ok u') :
    (∀ store ∈ u'.stores, store ∈ u.stores ∨
        (⟨store.subchainCode, store.sourceStoreCode⟩ : Scope) ∈ stagedScopes s .prices) ∧
      ∀ store ∈ u.stores,
        (⟨store.subchainCode, store.sourceStoreCode⟩ : Scope) ∉ stagedScopes s .prices →
        store ∈ u'.stores := by
  obtain ⟨-, h⟩ := require_bind_eq_ok.mp h
  rw [pure_eq_ok] at h
  subst h
  have hscope : ∀ b : StagedPrice × Nat, b ∈ (Table.distinctOn StagedPrice.storeKey
      (priceIncoming s)).zipIdx u.nextId →
      (⟨b.1.subchainId, b.1.sourceStoreId⟩ : Scope) ∈ stagedScopes s .prices := by
    intro b hb
    exact List.mem_map.mpr ⟨b.1, mem_of_mem_priceIncoming
      (Table.mem_of_mem_distinctOn (List.fst_mem_of_mem_zipIdx hb)), rfl⟩
  constructor
  · intro store hs
    rcases Table.mem_upsert hs with ⟨hold, -⟩ | ⟨a, ha, b, hb, hkey, rfl⟩ | ⟨b, hb, rfl⟩
    · exact .inl hold
    · simp only [StoreRow.key, Prod.mk.injEq] at hkey
      have := hscope b hb
      rw [hkey.2.2.1, hkey.2.2.2] at this
      exact .inr this
    · exact .inr (hscope b hb)
  · intro store hs hnot
    refine List.mem_append_left _ (List.mem_map.mpr ⟨store, hs, ?_⟩)
    have hnone : Table.lookup (fun b : StagedPrice × Nat =>
        (p.retailerId, p.portalId, b.1.subchainId, b.1.sourceStoreId))
        ((Table.distinctOn StagedPrice.storeKey (priceIncoming s)).zipIdx u.nextId) store.key =
        none := by
      rw [Table.lookup_eq_none]
      intro b hb hkey
      simp only [StoreRow.key, Prod.mk.injEq] at hkey
      have := hscope b hb
      rw [hkey.2.2.1, hkey.2.2.2] at this
      exact hnot this
    rw [hnone]
    rfl

theorem mem_reconciledStores {p : ApplyParameters} {s : Staging} {u : Tables} {incoming : List Key}
    {id : StoreId} : id ∈ reconciledStores p s u incoming ↔
      (∃ j ∈ incoming, j.storeId = id) ∨ ∃ store ∈ u.stores, store.id = id ∧
        store.retailerId = p.retailerId ∧ store.portalId = p.portalId ∧
        ∃ d ∈ s.documents, d.storeId = some store.sourceStoreCode ∧
          d.subchainId.getD "" = store.subchainCode := by
  rw [reconciledStores, List.mem_append, List.mem_map]
  refine or_congr_right ?_
  constructor
  · intro hheader
    obtain ⟨d, hd, hheader⟩ := List.mem_flatMap.mp hheader
    obtain ⟨code, hcode, hheader⟩ := List.mem_flatMap.mp hheader
    obtain ⟨store, hstore, hid⟩ := List.mem_map.mp hheader
    obtain ⟨hstore, hkey⟩ := List.mem_filter.mp hstore
    rw [decide_eq_true_eq] at hkey
    simp only [StoreRow.key, Prod.mk.injEq] at hkey
    refine ⟨store, hstore, hid, hkey.1, hkey.2.1, d, hd, ?_, hkey.2.2.1.symm⟩
    rw [hkey.2.2.2]
    exact Option.mem_toList.mp hcode
  · rintro ⟨store, hstore, hid, hret, hpor, d, hd, hcode, hsub⟩
    refine List.mem_flatMap.mpr ⟨d, hd, List.mem_flatMap.mpr ⟨store.sourceStoreCode,
      Option.mem_toList.mpr hcode, List.mem_map.mpr
        ⟨store, List.mem_filter.mpr ⟨hstore, decide_eq_true ?_⟩, hid⟩⟩⟩
    rw [StoreRow.key, hret, hpor, hsub]

/-- An available item that is not incoming is closed exactly when its store is reconciled. -/
theorem mem_missingPriceKeys {p : ApplyParameters} {s : Staging} {u : Tables}
    {incoming : List Key} {k : Key} (hbefore : isAvailableIn u k = true)
    (hnot : k ∉ incoming) :
    k ∈ missingPriceKeys p s u incoming ↔ k.storeId ∈ reconciledStores p s u incoming := by
  obtain ⟨v, hv, hava⟩ := (Option.any_eq_true _ _).mp hbefore
  obtain ⟨c, hc, rfl⟩ := Option.map_eq_some_iff.mp hv
  have hck : c.key = k := Table.key_of_lookup hc
  constructor
  · intro hk
    obtain ⟨c', hc', hkey⟩ := List.mem_map.mp (List.mem_dedup.mp (List.mem_filter.mp hk).1)
    have hcond := (List.mem_filter.mp hc').2
    rw [Bool.and_eq_true, decide_eq_true_eq, hkey] at hcond
    exact hcond.2
  · intro hin
    refine List.mem_filter.mpr ⟨List.mem_dedup.mpr (List.mem_map.mpr ⟨c,
      List.mem_filter.mpr ⟨Table.mem_of_lookup hc, ?_⟩, hck⟩), decide_eq_true hnot⟩
    rw [Bool.and_eq_true, decide_eq_true_eq, hck]
    exact ⟨hava, hin⟩

/-- What a full price file does to an available item that it does not list. -/
theorem fullPrices_absent (h : applyPrices (r.documentApply appliedAt) t = .ok (t', summary))
    (hfull : r.documentType.isFullSnapshot = true)
    (hunique : Table.UniqueOn Current.key t.availability.current) {k : Key}
    (hbefore : isAvailableIn t k = true) (hnot : ¬Lists r t' k) :
    isAvailableIn t' k = false ↔ (∃ j, Lists r t' j ∧ j.storeId = k.storeId) ∨
      ∃ store ∈ t'.stores, store.id = k.storeId ∧ store.retailerId = r.source.retailerId ∧
        store.portalId = r.source.portalId ∧
        ∃ d ∈ r.staging.documents, d.storeId = some store.sourceStoreCode ∧
          d.subchainId.getD "" = store.subchainCode := by
  obtain ⟨t₁, t₂, t₃, maps, mapped, prices, availability, final, hstores, hitems, hmaps, hmapped,
    hgtins, -, havailability, rfl, -, hreconcile⟩ := applyPrices_eq_ok h
  have hsame : t₃.availability = t.availability ∧ t₃.stores = t₂.stores ∧ t₃.items = t₂.items := by
    rw [matchExactGtins_frame hgtins, upsertRetailerItems_frame hitems,
      upsertPriceStores_frame hstores]
    exact ⟨rfl, rfl, rfl⟩
  have hlists : ∀ j, j ∈ mapped.map MappedPrice.key ↔
      Lists r { t₃ with prices := prices, availability := final } j := by
    intro j
    rw [mem_mapped_iff hmaps hmapped j, ← hsame.2.1, ← hsame.2.2]
    rfl
  have hmappedNot : k ∉ mapped.map MappedPrice.key := fun hk => hnot ((hlists k).mp hk)
  rw [hsame.1] at havailability
  obtain ⟨-, -, -, hcurrent⟩ := applyIncoming_eq_ok havailability
  have hmidUnique := upsertCurrent_unique hcurrent hunique
    (uniqueOn_map_availability (materializeMappedPriceIncoming_unique hmapped))
  have hmid : isAvailableIn { t₃ with prices := prices, availability := availability } k = true := by
    show (currentValue availability.current k).any AvailabilityValue.isAvailable = true
    rw [upsertCurrent_eq_ok hcurrent k, lookup_availability_of_not_mem hmappedNot]
    exact hbefore
  have hfinal := reconcileAbsent_current (hreconcile hfull) (fun j hj => by
    obtain ⟨-, x, hx, -⟩ := of_mem_missingPriceKeys hmidUnique hj
    rw [hx]
    rfl) k
  have hclosed : isAvailableIn { t₃ with prices := prices, availability := final } k = false ↔
      k ∈ missingPriceKeys (r.documentApply appliedAt).parameters
        (r.documentApply appliedAt).staging
        { t₃ with prices := prices, availability := availability }
        (mapped.map MappedPrice.key) := by
    show (currentValue final.current k).any AvailabilityValue.isAvailable = false ↔ _
    rw [hfinal]
    split
    · rename_i hk
      exact iff_of_true rfl hk
    · rename_i hk
      refine iff_of_false (fun hfalse => ?_) hk
      exact Bool.noConfusion (hmid.symm.trans hfalse)
  rw [hclosed, mem_missingPriceKeys hmid hmappedNot, mem_reconciledStores]
  refine or_congr (exists_congr fun j => and_congr_left fun _ => hlists j) Iff.rfl

/-- Both directions for a full price file. -/
theorem prices_absence_iff (h : applyPrices (r.documentApply appliedAt) t = .ok (t', summary))
    (hfull : r.documentType.isFullSnapshot = true) (hkeyed : Keyed t) :
    (∀ k, isAvailableIn t k = true → isAvailableIn t' k = false → ¬Lists r t' k →
        ∃ store ∈ t'.stores, store.id = k.storeId ∧
          store.priceWatermark ∈ r.watermarkKeys .prices) ↔
      HeadersCovered r .prices t := by
  have hkeyed' := hkeyed.applyPrices h
  obtain ⟨t₁, t₂, t₃, _, _, _, _, _, hstores, hitems, -, -, hgtins, -, -, heq, -, -⟩ :=
    applyPrices_eq_ok h
  have hsame : t'.stores = t₁.stores := by
    rw [heq, matchExactGtins_frame hgtins, upsertRetailerItems_frame hitems]
  obtain ⟨hfrom, hto⟩ := store_of_upsertPriceStores hstores
  rw [← hsame] at hfrom hto
  have hwatermark : ∀ store : StoreRow, store.retailerId = r.source.retailerId →
      store.portalId = r.source.portalId →
      (store.priceWatermark ∈ r.watermarkKeys .prices ↔
        (⟨store.subchainCode, store.sourceStoreCode⟩ : Scope) ∈
          incomingScopes .prices r.staging) := by
    intro store hret hpor
    rw [← mem_watermarkKeys, StoreRow.priceWatermark, hret, hpor]
    rfl
  constructor
  · intro hprop
    by_cases hnil : stagedScopes r.staging .prices = []
    · exact .inl hnil
    refine .inr fun d hd hrec => ?_
    by_contra hno
    push Not at hno
    obtain ⟨hscope, store, hstore, hkey, c, hc, hcs, hava⟩ := hno
    obtain ⟨code, hcode⟩ := Option.isSome_iff_exists.mp (hrec rfl)
    simp only [headerScope, hcode, Option.getD_some, StoreRow.key, Prod.mk.injEq] at hscope hkey
    have hstoreScope : (⟨store.subchainCode, store.sourceStoreCode⟩ : Scope) ∉
        stagedScopes r.staging .prices := by
      rw [hkey.2.2.1, hkey.2.2.2]
      exact hscope
    have hstore' := hto store hstore hstoreScope
    -- The store is the only one with its id.
    have hsole : ∀ other ∈ t'.stores, other.id = c.key.storeId → other = store := by
      intro other hother hid
      exact List.inj_on_of_nodup_map hkeyed'.storeIds hother hstore' (hid.trans hcs)
    have hbefore : isAvailableIn t c.key = true := by
      rw [isAvailableIn, currentValue, Table.lookup_of_mem hkeyed.availability hc]
      exact hava
    have hnot : ¬Lists r t' c.key := by
      rintro ⟨row, hrow, -, -, other, hother, -, hid, -, hotherKey⟩
      rw [hsole other hother hid] at hotherKey
      simp only [StoreRow.key, Prod.mk.injEq] at hotherKey
      refine hstoreScope (List.mem_map.mpr ⟨row, hrow, ?_⟩)
      rw [hotherKey.2.2.1, hotherKey.2.2.2]
    have hafter : isAvailableIn t' c.key = false := by
      rw [fullPrices_absent h hfull hkeyed.availability hbefore hnot]
      refine .inr ⟨store, hstore', hcs.symm, hkey.1, hkey.2.1, d, hd, ?_, hkey.2.2.1.symm⟩
      rw [hcode, hkey.2.2.2]
    obtain ⟨other, hother, hid, hmem⟩ := hprop c.key hbefore hafter hnot
    rw [hsole other hother hid, hwatermark store hkey.1 hkey.2.1, mem_incomingScopes_iff hnil] at hmem
    exact hstoreScope hmem
  · intro hcovered k hbefore hafter hnot
    rcases (fullPrices_absent h hfull hkeyed.availability hbefore hnot).mp hafter with
      ⟨j, ⟨row, hrow, -, -, store, hstore, -, hid, -, hkey⟩, hjk⟩ |
      ⟨store, hstore, hid, hret, hpor, d, hd, hcode, hsub⟩
    · simp only [StoreRow.key, Prod.mk.injEq] at hkey
      refine ⟨store, hstore, hid.trans hjk, (hwatermark store hkey.1 hkey.2.1).mpr
        (mem_incomingScopes (List.mem_map.mpr ⟨row, hrow, ?_⟩))⟩
      rw [hkey.2.2.1, hkey.2.2.2]
    · refine ⟨store, hstore, hid, (hwatermark store hret hpor).mpr ?_⟩
      have hheader : headerScope .prices d = ⟨store.subchainCode, store.sourceStoreCode⟩ := by
        simp only [headerScope, hcode, hsub, Option.getD_some]
      rcases hcovered with hnil | hall
      · exact hheader ▸ headerScope_mem_incomingScopes hnil hd
      rcases hfrom store hstore with hold | hscope
      · rcases hall d hd (fun _ => by rw [hcode]; rfl) with hscope | hclosed
        · exact mem_incomingScopes (hheader ▸ hscope)
        · refine absurd ?_ hclosed
          obtain ⟨v, hv, hava⟩ := (Option.any_eq_true _ _).mp hbefore
          obtain ⟨c, hc, rfl⟩ := Option.map_eq_some_iff.mp hv
          have hck : c.key = k := Table.key_of_lookup hc
          refine ⟨store, hold, ?_, c, Table.mem_of_lookup hc, ?_, hava⟩
          · rw [hheader, StoreRow.key, hret, hpor]
          · rw [hck, hid]
      · exact mem_incomingScopes hscope

end Prices

/-! ## Promotions -/

section Promotions

variable {r : ApplyRequest} {appliedAt : Time} {t t' : Tables} {summary : ApplySummary}

theorem openPromotion_isSome {u : Tables} {k : PromotionKey} :
    (openPromotion u k).isSome ↔ ∃ v ∈ u.promotions, v.key = k ∧ v.isOpen = true := by
  simp [openPromotion]

theorem mem_promotionScopes {s : Staging} {scope : String × String} :
    scope ∈ promotionScopes s ↔
      (⟨scope.1, scope.2⟩ : Scope) ∈ stagedScopes s .promotions ∨
        ∃ d ∈ s.documents, headerScope .promotions d = ⟨scope.1, scope.2⟩ := by
  rw [promotionScopes, List.mem_dedup, List.mem_append]
  refine or_congr ?_ ?_
  · constructor
    · intro h
      obtain ⟨b, hb, rfl⟩ := List.mem_map.mp h
      exact List.mem_map.mpr ⟨b, mem_of_mem_promotionIncoming hb, rfl⟩
    · intro h
      obtain ⟨b, hb, hscope⟩ := List.mem_map.mp h
      obtain ⟨b', hb', hsame⟩ := @Table.exists_mem_distinctOn _ _ _
        (fun b : StagedPromotion => (b.subchainId, b.sourcePromotionId, b.sourceScopeStoreCode)) _ _
        ((List.mem_insertionSort fun a b : StagedPromotion =>
          b.recordIndex ≤ a.recordIndex).mpr hb)
      simp only [Prod.mk.injEq] at hsame
      rw [Scope.mk.injEq] at hscope
      refine List.mem_map.mpr ⟨b', hb', ?_⟩
      rw [StagedPromotion.scope, hsame.1, hsame.2.2, hscope.1, hscope.2]
  · constructor
    · intro h
      obtain ⟨d, hd, rfl⟩ := List.mem_map.mp h
      exact ⟨d, hd, rfl⟩
    · rintro ⟨d, hd, hscope⟩
      simp only [headerScope, Scope.mk.injEq] at hscope
      refine List.mem_map.mpr ⟨d, hd, ?_⟩
      rw [hscope.1, hscope.2]

/-- Unlisted promotions pass through the statements for the records as they are. -/
theorem unlisted_promotion {p : ApplyParameters} {s : Staging} {u u' : Tables}
    {promotions : List Promotion} {k : PromotionKey}
    (hclose : closeOrRefreshPromotions p (promotionIncoming s) u.promotions = .ok promotions)
    (hinsert : insertPromotions p (promotionIncoming s) { u with promotions := promotions } =
      .ok u') (hnot : ∀ b ∈ promotionIncoming s, b.key p ≠ k) :
    ∀ v : Promotion, v.key = k → (v ∈ u'.promotions ↔ v ∈ u.promotions) := by
  intro v hv
  obtain ⟨-, hclose⟩ := require_bind_eq_ok.mp hclose
  obtain ⟨-, hinsert⟩ := require_bind_eq_ok.mp hinsert
  rw [pure_eq_ok] at hclose hinsert
  subst hclose
  subst hinsert
  have hnone : ∀ w : Promotion, w.key = k →
      Table.lookup (StagedPromotion.key p) (promotionIncoming s) w.key = none := by
    intro w hw
    rw [Table.lookup_eq_none, hw]
    exact hnot
  constructor
  · intro hmem
    rcases List.mem_append.mp hmem with hold | hnew
    · obtain ⟨w, hw, hwv⟩ := List.mem_map.mp hold
      have hkey : w.key = k := by
        rw [← hv, ← hwv]
        split
        · split
          · rfl
          · split <;> rfl
        · rfl
      rw [hnone w hkey] at hwv
      simp only [ite_self] at hwv
      exact hwv ▸ hw
    · obtain ⟨b, hb, rfl⟩ := List.mem_map.mp hnew
      exact absurd hv (hnot b.1 (List.mem_filter.mp (List.fst_mem_of_mem_zipIdx hb)).1)
  · intro hmem
    refine List.mem_append_left _ (List.mem_map.mpr ⟨v, hmem, ?_⟩)
    rw [hnone v hv]
    simp only [ite_self]

/-- What a full promotion file does to an open promotion that it does not list. -/
theorem fullPromotions_absent
    (h : applyPromotions (r.documentApply appliedAt) t = .ok (t', summary))
    (hfull : r.documentType.isFullSnapshot = true) {k : PromotionKey}
    (hbefore : (openPromotion t k).isSome) (hnot : ¬ListsPromotion r k) :
    openPromotion t' k = none ↔ k.retailerId = r.source.retailerId ∧
      k.portalId = r.source.portalId ∧ k.scope ∈ promotionScopes r.staging := by
  obtain ⟨t₁, t₂, t₃, promotions, h₁, h₂, hclose, hinsert, hend⟩ := applyPromotions_eq_ok h
  have hsame : t₂.promotions = t.promotions := by
    rw [ensurePromotionStores_frame h₂, ensurePromotionItems_frame h₁]
  have hunlisted : ∀ b ∈ promotionIncoming r.staging,
      b.key (r.documentApply appliedAt).parameters ≠ k :=
    fun b hb hbk => hnot ⟨b, mem_of_mem_promotionIncoming hb, hbk⟩
  have hkept := unlisted_promotion hclose hinsert hunlisted
  rw [hsame] at hkept
  obtain ⟨n, hn⟩ : ∃ n, closeAbsentPromotions (r.documentApply appliedAt).parameters r.staging
      (attachPromotionRelations (r.documentApply appliedAt).parameters
        (promotionIncoming r.staging) t₃) = .ok (t', n) := by
    rcases hend with ⟨hdelta, -⟩ | ⟨-, hn⟩
    · exact Bool.noConfusion (hfull.symm.trans hdelta)
    · exact hn
  obtain ⟨-, hn⟩ := require_bind_eq_ok.mp hn
  rw [pure_eq_ok, Prod.mk.injEq] at hn
  obtain ⟨rfl, -⟩ := hn
  -- An open version of the key is absent exactly when its scope is reconciled.
  have habsent : ∀ v : Promotion, v.key = k → v.isOpen = true →
      (v.isAbsent (r.documentApply appliedAt).parameters r.staging = true ↔
        k.retailerId = r.source.retailerId ∧ k.portalId = r.source.portalId ∧
          k.scope ∈ promotionScopes r.staging) := by
    intro v hv hopen
    rw [Promotion.isAbsent, hopen, hv, Bool.true_and, Bool.and_eq_true, Bool.and_eq_true,
      decide_eq_true_eq, decide_eq_true_eq, and_assoc, and_assoc]
    refine and_congr_right fun _ => and_congr_right fun _ => ?_
    refine and_iff_left (List.all_eq_true.mpr fun b hb => decide_eq_true (hunlisted b hb))
  rw [← Option.not_isSome_iff_eq_none, openPromotion_isSome]
  obtain ⟨v, hv, hvk, hopen⟩ := openPromotion_isSome.mp hbefore
  have hv₃ : v ∈ t₃.promotions := (hkept v hvk).mpr hv
  constructor
  · intro hnone
    rw [← habsent v hvk hopen]
    by_contra hpresent
    refine hnone ⟨v, List.mem_map.mpr ⟨v, hv₃, if_neg hpresent⟩, hvk, hopen⟩
  · rintro hscope ⟨w, hw, hwk, hwopen⟩
    obtain ⟨q, hq, hqw⟩ := List.mem_map.mp hw
    by_cases hqa : q.isAbsent (r.documentApply appliedAt).parameters r.staging = true
    · rw [if_pos hqa] at hqw
      rw [← hqw] at hwopen
      cases hwopen
    · rw [if_neg hqa] at hqw
      subst hqw
      exact hqa ((habsent q hwk hwopen).mpr hscope)

/-- Both directions for a full promotion file. -/
theorem promotions_absence_iff
    (h : applyPromotions (r.documentApply appliedAt) t = .ok (t', summary))
    (hfull : r.documentType.isFullSnapshot = true) :
    (∀ k, (openPromotion t k).isSome → openPromotion t' k = none → ¬ListsPromotion r k →
        k.watermark ∈ r.watermarkKeys .promotions) ↔ HeadersCovered r .promotions t := by
  have hwatermark : ∀ k : PromotionKey, k.retailerId = r.source.retailerId →
      k.portalId = r.source.portalId → (k.watermark ∈ r.watermarkKeys .promotions ↔
        (⟨k.subchainCode, k.sourceScopeStoreCode⟩ : Scope) ∈
          incomingScopes .promotions r.staging) := by
    intro k hret hpor
    rw [← mem_watermarkKeys, PromotionKey.watermark, hret, hpor]
    rfl
  constructor
  · intro hprop
    by_cases hnil : stagedScopes r.staging .promotions = []
    · exact .inl hnil
    refine .inr fun d hd _ => ?_
    by_contra hno
    push Not at hno
    obtain ⟨hscope, v, hv, hopen, hret, hpor, hvs⟩ := hno
    rw [PromotionKey.scope, Prod.mk.injEq] at hvs
    have hkeyScope : headerScope .promotions d =
        ⟨v.key.subchainCode, v.key.sourceScopeStoreCode⟩ := by
      rw [hvs.1, hvs.2]
    rw [hkeyScope] at hscope
    have hbefore : (openPromotion t v.key).isSome := openPromotion_isSome.mpr ⟨v, hv, rfl, hopen⟩
    have hnot : ¬ListsPromotion r v.key := by
      rintro ⟨b, hb, hbk⟩
      refine hscope (List.mem_map.mpr ⟨b, hb, ?_⟩)
      rw [← hbk]
    have hafter := (fullPromotions_absent h hfull hbefore hnot).mpr
      ⟨hret, hpor, mem_promotionScopes.mpr (.inr ⟨d, hd, hkeyScope⟩)⟩
    have hmem := hprop v.key hbefore hafter hnot
    rw [hwatermark v.key hret hpor, mem_incomingScopes_iff hnil] at hmem
    exact hscope hmem
  · intro hcovered k hbefore hafter hnot
    obtain ⟨hret, hpor, hscope⟩ := (fullPromotions_absent h hfull hbefore hnot).mp hafter
    rw [hwatermark k hret hpor]
    rcases mem_promotionScopes.mp hscope with hrecord | ⟨d, hd, hheader⟩
    · exact mem_incomingScopes hrecord
    · rcases hcovered with hnil | hall
      · exact hheader ▸ headerScope_mem_incomingScopes hnil hd
      · rcases hall d hd (fun h => by cases h) with hrecord | hclosed
        · exact mem_incomingScopes (hheader ▸ hrecord)
        · refine absurd ?_ hclosed
          obtain ⟨v, hv, hvk, hopen⟩ := openPromotion_isSome.mp hbefore
          refine ⟨v, hv, hopen, hvk ▸ hret, hvk ▸ hpor, ?_⟩
          rw [hvk, hheader]

end Promotions

/-! ## The result -/

section Accepted

variable {r : ApplyRequest} {t t' : Tables} {summary : ApplySummary}

theorem absenceOrdered_prices (happly : apply r t = .ok (t', summary))
    (htype : r.documentType = .priceFull) (hkeyed : Keyed t) :
    AbsenceOrdered r t t' ↔ HeadersCovered r .prices t := by
  have hfamily : family? r.documentType = some .prices := by rw [htype]; rfl
  obtain ⟨family, hf, -, hwrite⟩ := apply_eq_ok happly
  cases hfamily.symm.trans hf
  obtain ⟨written, hwritten, rfl⟩ := writeDocument_eq_ok hwrite
  have hpromotions : (advanceSourceWatermarks r .prices written).promotions = t.promotions := by
    show written.promotions = t.promotions
    rw [applyPrices_frame hwritten, claimContent_frame]
  rw [claimContent_frame] at hwritten
  have hiff := prices_absence_iff hwritten (by rw [htype]; rfl)
    (hkeyed.frame rfl hkeyed.availability (le_refl _))
  refine Iff.trans ⟨fun h k hbefore hafter hnot => ?_, fun h => ⟨?_, ?_⟩⟩ hiff
  · obtain ⟨store, hstore, hid, hordered⟩ := h.item k hbefore hafter hnot
    exact ⟨store, hstore, hid, hordered.incoming⟩
  · intro k hbefore hafter hnot
    obtain ⟨store, hstore, hid, hmem⟩ := h k hbefore hafter hnot
    exact ⟨store, hstore, hid, ordered_of_mem happly hfamily hmem⟩
  · -- A price file leaves the promotions alone.
    intro k hbefore hafter
    rw [openPromotion, hpromotions] at hafter
    rw [openPromotion, hafter] at hbefore
    cases hbefore

theorem absenceOrdered_promotions (happly : apply r t = .ok (t', summary))
    (htype : r.documentType = .promotionFull) :
    AbsenceOrdered r t t' ↔ HeadersCovered r .promotions t := by
  have hfamily : family? r.documentType = some .promotions := by rw [htype]; rfl
  obtain ⟨family, hf, -, hwrite⟩ := apply_eq_ok happly
  cases hfamily.symm.trans hf
  obtain ⟨written, hwritten, rfl⟩ := writeDocument_eq_ok hwrite
  have havailability : (advanceSourceWatermarks r .promotions written).availability =
      t.availability := by
    show written.availability = t.availability
    rw [applyPromotions_frame hwritten, claimContent_frame]
  rw [claimContent_frame] at hwritten
  have hiff := promotions_absence_iff hwritten (by rw [htype]; rfl)
  refine Iff.trans ⟨fun h k hbefore hafter hnot => ?_, fun h => ⟨?_, ?_⟩⟩ hiff
  · exact (h.promotion k hbefore hafter hnot).incoming
  · -- A promotion file leaves the availability alone.
    intro k hbefore hafter
    rw [isAvailableIn, havailability] at hafter
    exact Bool.noConfusion (hbefore.symm.trans hafter)
  · intro k hbefore hafter hnot
    exact ordered_of_mem happly hfamily (h k hbefore hafter hnot)

end Accepted

/-- A full price or promotion file that is accepted in a state reached by accepted applies: each
scope from which it closes something by absence is ordering-checked if and only if each header that
closes something has the scope of a record, or the file has no record. -/
theorem absence_ordered_iff (before : List ApplyRequest) (t : Tables)
    (hrun : applyRun Tables.empty before = .ok t) (r : ApplyRequest) (t' : Tables)
    (summary : ApplySummary) (happly : apply r t = .ok (t', summary)) :
    (r.documentType = .priceFull → (AbsenceOrdered r t t' ↔ HeadersCovered r .prices t)) ∧
      (r.documentType = .promotionFull →
        (AbsenceOrdered r t t' ↔ HeadersCovered r .promotions t)) :=
  ⟨fun htype => absenceOrdered_prices happly htype (keyed_of_applyRun hrun),
    fun htype => absenceOrdered_promotions happly htype⟩

/-- A full price file with the header of store `header` and one record of store `store`. -/
def sampleFullRequest (fileId : FileId) (header store : String) (time clock : Time)
    (sha : String) : ApplyRequest where
  sourceFileId := fileId
  documentType := .priceFull
  source := ⟨1, 1, .priceFull, .applying, some time, some clock, clock, some sha⟩
  staging := { Staging.empty with
    documents := [⟨some "1", some header, none⟩]
    prices := [sampleRecord store "4001" 500] }
  replayActive := false
  rebuildActive := false
  wallClock := clock
  policy := lenientPolicy
  limits := ⟨10, 10000, 10⟩
  usage := ⟨0, 0, 0, 0, 0⟩

/-- A file of the watermark instant 300 for store 18. -/
def newerStore : ApplyRequest := sampleFullRequest 1 "18" "18" 300 400 "aa"

/-- An older file whose header names store 18 and whose record is of store 17. -/
def olderHeader : ApplyRequest := sampleFullRequest 2 "18" "17" 100 500 "bb"

/-- A file of store 17 alone. -/
def otherStore : ApplyRequest := sampleFullRequest 2 "17" "17" 100 500 "bb"

theorem absence_ordered_otherStore :
    let t := tablesAfter newerStore Tables.empty
    AbsenceOrdered otherStore t (tablesAfter otherStore t) := by
  obtain ⟨s₁, h₁⟩ := apply_tablesAfter (r := newerStore) (t := Tables.empty) (by decide +kernel)
  obtain ⟨s₂, h₂⟩ := apply_tablesAfter (r := otherStore) (t := tablesAfter newerStore Tables.empty)
    (by decide +kernel)
  refine ((absence_ordered_iff _ _ (applyRun_singleton h₁) _ _ _ h₂).1 rfl).mpr (.inr ?_)
  intro d hd _
  rw [List.mem_singleton.mp hd]
  exact .inl (by decide)

/-- The older file closes the item of store 18 without comparing its watermark. -/
theorem not_absence_ordered :
    ¬∀ (before : List ApplyRequest) (t : Tables), applyRun Tables.empty before = .ok t →
      ∀ (r : ApplyRequest) (t' : Tables) (summary : ApplySummary), apply r t = .ok (t', summary) →
        r.documentType = .priceFull ∨ r.documentType = .promotionFull → AbsenceOrdered r t t' := by
  intro h
  obtain ⟨s₁, h₁⟩ := apply_tablesAfter (r := newerStore) (t := Tables.empty) (by decide +kernel)
  obtain ⟨s₂, h₂⟩ := apply_tablesAfter (r := olderHeader)
    (t := tablesAfter newerStore Tables.empty) (by decide +kernel)
  have hordered := h _ _ (applyRun_singleton h₁) _ _ _ h₂ (.inl rfl)
  obtain ⟨store, hstore, hid, hchecked⟩ := hordered.item ⟨1, 0⟩ (by decide +kernel)
    (by decide +kernel) (by unfold Lists; decide +kernel)
  have hnot : ∀ store ∈ (tablesAfter olderHeader (tablesAfter newerStore Tables.empty)).stores,
      store.id = 0 → store.priceWatermark ∉ olderHeader.watermarkKeys .prices := by
    decide +kernel
  exact hnot store hstore hid hchecked.incoming

end Makolet.Normalized
