import Makolet.Normalized.Corroboration
import Makolet.Normalized.Keys

/-!
# The rows that an apply proposes

An `INSERT ... ON CONFLICT DO UPDATE` fails as a whole when two of its source rows have one conflict
key. `Issues` says with which keys an apply issues each of its statements, statement after statement
as `_apply_stores`, `_apply_prices` and `_apply_promotions` reach them. `Proposes` connects each list
of keys to the function that models the statement. All statements but one remove duplicates by their
conflict key; the stores of a promotion file are grouped by their chain too.
-/

set_option autoImplicit false

namespace Makolet.Normalized

open Makolet.Domain Makolet.Lib

/-- The conflict key of a proposed row. -/
inductive ConflictKey
  | store (key : RetailerId × PortalId × String × String)
  | item (key : RetailerId × PortalId × String)
  | identifier (key : IdentifierKind × String × Option (RetailerId × PortalId))
  | observation (key : Key)
  | watermark (key : WatermarkKey)
  deriving DecidableEq, Repr

/-! ## The keys of each statement -/

/-- The upsert of `_apply_stores`. -/
def rosterKeys (p : ApplyParameters) (s : Staging) : List ConflictKey :=
  (storeIncoming s).map fun b => .store (p.retailerId, p.portalId, b.subchainId, b.sourceStoreId)

/-- The upsert of `_upsert_price_stores`. -/
def priceStoreKeys (p : ApplyParameters) (s : Staging) : List ConflictKey :=
  (Table.distinctOn StagedPrice.storeKey (priceIncoming s)).map fun b =>
    .store (p.retailerId, p.portalId, b.subchainId, b.sourceStoreId)

/-- The upsert of `_upsert_retailer_items`. -/
def priceItemKeys (p : ApplyParameters) (s : Staging) : List ConflictKey :=
  (describingRows s).map fun b => .item (p.retailerId, p.portalId, b.sourceItemCode)

/-- The rows of the scoped identifiers before they are grouped. -/
def scopedRows (p : ApplyParameters) (items : List RetailerItem) (groups : List MatchGroup) :
    List ProductIdentifier :=
  items.filterMap fun i =>
    i.gtin.bind fun g => (groupOf groups g).map fun group =>
      { productId := group.productId
        kind := .gtin
        value := g
        issuer := some (i.retailerId, i.portalId)
        isValidated := false
        validationMethod := .retailerAssertion
        evidenceFileId := some p.sourceFileId
        evidenceRetailerCount := none
        createdAt := p.appliedAt }

/-- The upsert of the scoped identifiers: grouped by product, GTIN, retailer and portal. -/
def scopedIdentifierKeys (p : ApplyParameters) (items : List RetailerItem)
    (groups : List MatchGroup) : List ConflictKey :=
  (Table.distinctOn (fun i : ProductIdentifier => (i.productId, i.key))
    (scopedRows p items groups)).map fun i => .identifier i.key

/-- The upsert of the corroborated identifiers. -/
def corroboratedKeys (rows : List Corroboration) : List ConflictKey :=
  (rows.filter fun c => decide (2 ≤ c.retailerCount)).map fun c =>
    .identifier (.gtin, c.gtin, none)

/-- The upserts of the current prices and the current availability. -/
def observationKeys (mapped : List MappedPrice) : List ConflictKey :=
  mapped.map fun m => .observation m.key

/-- The item upsert of `_ensure_promotion_items_and_stores`. -/
def promotionItemKeys (p : ApplyParameters) (s : Staging) : List ConflictKey :=
  (s.promotions.flatMap fun r => r.items.map StagedPromotionItem.sourceItemCode).dedup.map
    fun code => .item (p.retailerId, p.portalId, code)

/-- The store upsert of `_ensure_promotion_items_and_stores`: grouped by chain, subchain and
store. -/
def promotionStoreKeys (p : ApplyParameters) (s : Staging) : List ConflictKey :=
  (s.promotions.flatMap fun r => r.stores.map fun store =>
      (r.chainId, r.subchainId, store)).dedup.map fun b =>
    .store (p.retailerId, p.portalId, b.2.1, b.2.2)

/-- The upsert of `_advance_source_watermarks`. -/
def watermarkProposals (r : ApplyRequest) (family : DocumentFamily) : List ConflictKey :=
  (r.watermarkKeys family).map .watermark

/-! ## The statements that an apply reaches -/

/-- The upserts of `_apply_stores`. -/
inductive RosterIssues (a : DocumentApply) (t : Tables) : List ConflictKey → Prop
  | stores (hguard : validateFullSnapshot a.policy (storeIncoming a.staging).length
      ((t.stores.filter fun r => r.ofPortal a.parameters && r.isActive).length)
      "store portal roster" = .ok ()) : RosterIssues a t (rosterKeys a.parameters a.staging)

/-- The checks of `_apply_prices` passed. -/
def PriceGuard (a : DocumentApply) (t : Tables) : Prop :=
  a.isFull = true → validateFullPriceSnapshot a.parameters a.policy a.staging t = .ok ()

/-- The statements of `_apply_prices` up to the mapped rows. -/
structure PricesMapped (a : DocumentApply) (t t₂ : Tables)
    (maps : List RetailerItem × List StoreRow) (mapped : List MappedPrice) : Prop where
  guard : PriceGuard a t
  written : ∃ t₁, upsertPriceStores a.parameters a.staging t = .ok t₁ ∧
    upsertRetailerItems a.parameters a.staging t₁ = .ok t₂
  materialized : materializePriceMaps a.parameters a.staging t₂ = .ok maps
  mapped : materializeMappedPriceIncoming a.staging maps.1 maps.2 = .ok mapped

/-- The upserts of `_apply_prices`. -/
inductive PriceIssues (a : DocumentApply) (t : Tables) : List ConflictKey → Prop
  | stores (hguard : PriceGuard a t) : PriceIssues a t (priceStoreKeys a.parameters a.staging)
  | items {t₁ : Tables} (hguard : PriceGuard a t)
      (hstores : upsertPriceStores a.parameters a.staging t = .ok t₁) :
      PriceIssues a t (priceItemKeys a.parameters a.staging)
  | scopedIdentifiers {t₂ t₃ : Tables} {maps : List RetailerItem × List StoreRow} {mapped : List MappedPrice}
      (hmapped : PricesMapped a t t₂ maps mapped)
      (hassert : assertGtins a.parameters maps.1 t₂ = .ok t₃) :
      PriceIssues a t (scopedIdentifierKeys a.parameters maps.1
        (insertGroups a.parameters maps.1 t₃).matchGroups)
  | corroboratedIdentifiers {t₂ t₃ : Tables} {maps : List RetailerItem × List StoreRow}
      {mapped : List MappedPrice} (hmapped : PricesMapped a t t₂ maps mapped)
      (hassert : assertGtins a.parameters maps.1 t₂ = .ok t₃) :
      PriceIssues a t (corroboratedKeys (gtinCorroboration (affectedGtins maps.1 t₂.assertions)
        (insertGroups a.parameters maps.1 t₃).matchGroups
        (liveGtinRetailers (affectedGtins maps.1 t₂.assertions)
          (insertGroups a.parameters maps.1 t₃).assertions
          (insertGroups a.parameters maps.1 t₃).items)))
  | prices {t₂ t₃ : Tables} {maps : List RetailerItem × List StoreRow} {mapped : List MappedPrice}
      (hmapped : PricesMapped a t t₂ maps mapped)
      (hgtins : matchExactGtins a.parameters maps.1 t₂ = .ok t₃) :
      PriceIssues a t (observationKeys mapped)
  | availability {t₂ t₃ : Tables} {maps : List RetailerItem × List StoreRow}
      {mapped : List MappedPrice} {prices : Observations PriceValue PriceDetails}
      (hmapped : PricesMapped a t t₂ maps mapped)
      (hgtins : matchExactGtins a.parameters maps.1 t₂ = .ok t₃)
      (hprices : applyIncoming a.parameters.sourceFileId a.parameters.appliedAt
        (mapped.map MappedPrice.price) t₃.prices = .ok prices) :
      PriceIssues a t (observationKeys mapped)

/-- The checks of `_apply_promotions` passed. -/
def PromotionGuard (a : DocumentApply) (t : Tables) : Prop :=
  a.isFull = true → validateFullPromotionSnapshot a.parameters a.policy a.staging t = .ok ()

/-- `_apply_promotions` comes to its store statement. -/
def ReachesStores (a : DocumentApply) (t : Tables) : Prop :=
  PromotionGuard a t ∧ ∃ t₁, ensurePromotionItems a.parameters a.staging t = .ok t₁

/-- The upserts of `_apply_promotions`. -/
inductive PromotionIssues (a : DocumentApply) (t : Tables) : List ConflictKey → Prop
  | items (hguard : PromotionGuard a t) :
      PromotionIssues a t (promotionItemKeys a.parameters a.staging)
  | stores (hreach : ReachesStores a t) :
      PromotionIssues a t (promotionStoreKeys a.parameters a.staging)

def FamilyIssues (family : DocumentFamily) (a : DocumentApply) (t : Tables) :
    List ConflictKey → Prop :=
  match family with
  | .stores => RosterIssues a t
  | .prices => PriceIssues a t
  | .promotions => PromotionIssues a t

/-- The file passes the checks of `apply` in front of its statements. -/
structure Admitted (r : ApplyRequest) (family : DocumentFamily) (t : Tables) : Prop where
  locked : lockSourceForApply r = .ok ()
  ordinary : r.rebuildActive = false
  isFamily : family? r.documentType = some family
  ordered : ∃ usage, validateSourceOrdering r family t = .ok (none, usage)

/-- The upserts of `apply`. -/
inductive Issues (r : ApplyRequest) (t : Tables) : List ConflictKey → Prop
  | family {family : DocumentFamily} {keys : List ConflictKey} (hadmitted : Admitted r family t)
      (hkeys : FamilyIssues family (r.documentApply (claimContent r t).2) (claimContent r t).1
        keys) : Issues r t keys
  | watermarks {family : DocumentFamily} {written : Tables × ApplySummary}
      (hadmitted : Admitted r family t)
      (hwritten : applyFamily family (r.documentApply (claimContent r t).2) (claimContent r t).1 =
        .ok written) : Issues r t (watermarkProposals r family)

/-! ## The statements propose these keys -/

/-- The rows become `rows'` by an upsert whose source rows have the keys. -/
def Proposes {α κ : Type} [DecidableEq κ] (key : α → κ) (wrap : κ → ConflictKey)
    (rows rows' : List α) (keys : List ConflictKey) : Prop :=
  ∃ (β : Type) (keyIn : β → κ) (insert : β → α) (update : α → β → α) (source : List β),
    rows' = Table.upsert key keyIn insert update rows source ∧
      source.map (fun b => wrap (keyIn b)) = keys

section Proposes

variable {p : ApplyParameters} {s : Staging} {t t' : Tables}

theorem upsertStores_proposes (h : upsertStores p s t = .ok t') :
    Proposes StoreRow.key .store t.stores t'.stores (rosterKeys p s) := by
  obtain ⟨-, h⟩ := require_bind_eq_ok.mp h
  rw [pure_eq_ok] at h
  subst h
  exact ⟨_, _, _, _, _, rfl, Table.map_zipIdx
    (fun b : StagedStore =>
      ConflictKey.store (p.retailerId, p.portalId, b.subchainId, b.sourceStoreId)) _ _⟩

theorem upsertPriceStores_proposes (h : upsertPriceStores p s t = .ok t') :
    Proposes StoreRow.key .store t.stores t'.stores (priceStoreKeys p s) := by
  obtain ⟨-, h⟩ := require_bind_eq_ok.mp h
  rw [pure_eq_ok] at h
  subst h
  exact ⟨_, _, _, _, _, rfl, Table.map_zipIdx
    (fun b : StagedPrice =>
      ConflictKey.store (p.retailerId, p.portalId, b.subchainId, b.sourceStoreId)) _ _⟩

theorem upsertRetailerItems_proposes (h : upsertRetailerItems p s t = .ok t') :
    Proposes RetailerItem.key .item t.items t'.items (priceItemKeys p s) := by
  rw [(upsertRetailerItems_items h).2]
  exact ⟨_, _, _, _, _, rfl, Table.map_zipIdx
    (fun b : StagedPrice => ConflictKey.item (p.retailerId, p.portalId, b.sourceItemCode)) _ _⟩

theorem ensurePromotionItems_proposes (h : ensurePromotionItems p s t = .ok t') :
    Proposes RetailerItem.key .item t.items t'.items (promotionItemKeys p s) := by
  obtain ⟨-, h⟩ := require_bind_eq_ok.mp h
  rw [pure_eq_ok] at h
  subst h
  exact ⟨_, _, _, _, _, rfl, Table.map_zipIdx
    (fun code : String => ConflictKey.item (p.retailerId, p.portalId, code)) _ _⟩

theorem ensurePromotionStores_proposes (h : ensurePromotionStores p s t = .ok t') :
    Proposes StoreRow.key .store t.stores t'.stores (promotionStoreKeys p s) := by
  obtain ⟨-, h⟩ := require_bind_eq_ok.mp h
  obtain ⟨-, h⟩ := require_bind_eq_ok.mp h
  rw [pure_eq_ok] at h
  subst h
  exact ⟨_, _, _, _, _, rfl, Table.map_zipIdx
    (fun b : String × String × String =>
    ConflictKey.store (p.retailerId, p.portalId, b.2.1, b.2.2)) _ _⟩

theorem upsertCurrent_proposes {ν π : Type} {fileId : FileId} {time : Time}
    {mapped : List MappedPrice} (f : MappedPrice → Incoming ν π) (hf : ∀ m, (f m).key = m.key)
    {current written : List (Current ν π)}
    (h : upsertCurrent fileId time (mapped.map f) current = .ok written) :
    Proposes Current.key .observation current written (observationKeys mapped) := by
  obtain ⟨-, h⟩ := require_bind_eq_ok.mp h
  rw [pure_eq_ok] at h
  subst h
  refine ⟨_, _, _, _, _, rfl, ?_⟩
  rw [List.map_map]
  exact List.map_congr_left fun m _ => congrArg ConflictKey.observation (hf m)

theorem advanceSourceWatermarks_proposes (r : ApplyRequest) (family : DocumentFamily) :
    Proposes Watermark.key .watermark t.watermarks (advanceSourceWatermarks r family t).watermarks
      (watermarkProposals r family) :=
  ⟨_, _, _, _, _, rfl, rfl⟩

theorem upsertCorroborated_proposes (rows : List Corroboration)
    (identifiers : List ProductIdentifier) :
    Proposes ProductIdentifier.key .identifier identifiers (upsertCorroborated p rows identifiers)
      (corroboratedKeys rows) := by
  refine ⟨_, _, _, _, _, rfl, ?_⟩
  rw [List.map_map]
  rfl

/-- The group of a GTIN decides the product, so the grouping distinguishes no more than the conflict
key. -/
theorem scopedRows_grouped (items : List RetailerItem) (groups : List MatchGroup) :
    Table.distinctOn (fun i : ProductIdentifier => (i.productId, i.key))
        (scopedRows p items groups) =
      Table.distinctOn ProductIdentifier.key (scopedRows p items groups) := by
  -- A row's product is that of the group of its value, and the value is part of the key.
  have hproduct : ∀ i ∈ scopedRows p items groups,
      (groupOf groups i.value).map MatchGroup.productId = some i.productId := by
    intro i hi
    obtain ⟨item, -, hitem⟩ := List.mem_filterMap.mp hi
    obtain ⟨g, -, hg⟩ := Option.bind_eq_some_iff.mp hitem
    obtain ⟨group, hgroup, rfl⟩ := Option.map_eq_some_iff.mp hg
    rw [hgroup]
    rfl
  refine Table.distinctOn_congr fun a ha b hb => ?_
  constructor
  · intro h
    exact (Prod.mk.inj h).2
  · intro h
    have hvalue : a.value = b.value := congrArg (fun k => k.2.1) h
    have hsame := hproduct a ha
    rw [hvalue, hproduct b hb, Option.some.injEq] at hsame
    rw [hsame, h]

theorem upsertScopedIdentifiers_proposes (items : List RetailerItem) (groups : List MatchGroup)
    (identifiers : List ProductIdentifier) :
    Proposes ProductIdentifier.key .identifier identifiers
      (upsertScopedIdentifiers p items groups identifiers)
      (scopedIdentifierKeys p items groups) := by
  rw [scopedIdentifierKeys, scopedRows_grouped]
  exact ⟨_, _, _, _, _, rfl, rfl⟩

end Proposes

/-! ## Distinct keys -/

/-- Two promotions of the file that name one store name it under one chain. -/
def OneChain (s : Staging) : Prop :=
  ∀ b ∈ s.promotions, ∀ c ∈ s.promotions, b.subchainId = c.subchainId →
    ∀ store ∈ b.stores, store ∈ c.stores → b.chainId = c.chainId

section Distinct

variable {p : ApplyParameters} {s : Staging} {keys : List ConflictKey}

theorem rosterKeys_nodup (p : ApplyParameters) (s : Staging) : (rosterKeys p s).Nodup := by
  have hunique : Table.UniqueOn StagedStore.key (storeIncoming s) := Table.distinctOn_unique _
  apply hunique.of_determines
  intro a b h
  rw [ConflictKey.store.injEq, Prod.mk.injEq, Prod.mk.injEq, Prod.mk.injEq] at h
  rw [StagedStore.key, h.2.2.1, h.2.2.2]
  rfl

theorem priceStoreKeys_nodup (p : ApplyParameters) (s : Staging) : (priceStoreKeys p s).Nodup := by
  have hunique : Table.UniqueOn StagedPrice.storeKey
      (Table.distinctOn StagedPrice.storeKey (priceIncoming s)) := Table.distinctOn_unique _
  apply hunique.of_determines
  intro a b h
  rw [ConflictKey.store.injEq, Prod.mk.injEq, Prod.mk.injEq, Prod.mk.injEq] at h
  rw [StagedPrice.storeKey, h.2.2.1, h.2.2.2]
  rfl

theorem priceItemKeys_nodup (p : ApplyParameters) (s : Staging) : (priceItemKeys p s).Nodup := by
  have hunique : Table.UniqueOn StagedPrice.sourceItemCode (describingRows s) :=
    Table.distinctOn_unique _
  apply hunique.of_determines
  intro a b h
  rw [ConflictKey.item.injEq, Prod.mk.injEq, Prod.mk.injEq] at h
  exact h.2.2

theorem scopedIdentifierKeys_nodup (p : ApplyParameters) (items : List RetailerItem)
    (groups : List MatchGroup) : (scopedIdentifierKeys p items groups).Nodup := by
  rw [scopedIdentifierKeys, scopedRows_grouped]
  have hunique : Table.UniqueOn ProductIdentifier.key
      (Table.distinctOn ProductIdentifier.key (scopedRows p items groups)) :=
    Table.distinctOn_unique _
  apply hunique.of_determines
  intro a b h
  exact ConflictKey.identifier.inj h

/-- Each affected GTIN has at most one corroboration row. -/
theorem gtinCorroboration_unique (affected : List String) (groups : List MatchGroup)
    (live : List LiveRetailer) (h : affected.Nodup) :
    Table.UniqueOn Corroboration.gtin (gtinCorroboration affected groups live) := by
  have hsub : ((gtinCorroboration affected groups live).map Corroboration.gtin).Sublist
      affected := by
    clear h
    unfold gtinCorroboration
    induction affected with
    | nil => exact List.Sublist.slnil
    | cons g rest ih =>
      cases hg : groupOf groups g with
      | none =>
        rw [List.filterMap_cons_none (by rw [hg]; rfl)]
        exact ih.cons g
      | some group =>
        rw [List.filterMap_cons_some (by rw [hg]; rfl), List.map_cons]
        exact ih.cons_cons g
  exact hsub.nodup h

theorem corroboratedKeys_nodup {rows : List Corroboration}
    (h : Table.UniqueOn Corroboration.gtin rows) : (corroboratedKeys rows).Nodup := by
  have hkept : Table.UniqueOn Corroboration.gtin (rows.filter fun c =>
      decide (2 ≤ c.retailerCount)) := (List.filter_sublist.map _).nodup h
  apply hkept.of_determines
  intro a b heq
  rw [ConflictKey.identifier.injEq, Prod.mk.injEq, Prod.mk.injEq] at heq
  exact heq.2.1

theorem observationKeys_nodup {mapped : List MappedPrice}
    (h : Table.UniqueOn MappedPrice.key mapped) : (observationKeys mapped).Nodup := by
  apply h.of_determines
  intro a b heq
  exact ConflictKey.observation.inj heq

theorem promotionItemKeys_nodup (p : ApplyParameters) (s : Staging) :
    (promotionItemKeys p s).Nodup := by
  apply List.Nodup.map
  · intro a b h
    rw [ConflictKey.item.injEq, Prod.mk.injEq, Prod.mk.injEq] at h
    exact h.2.2
  · exact List.nodup_dedup _

/-- The promotion stores are distinct exactly when no store has two chains. -/
theorem promotionStoreKeys_nodup_iff : (promotionStoreKeys p s).Nodup ↔ OneChain s := by
  have hmem : ∀ b ∈ s.promotions, ∀ store ∈ b.stores, (b.chainId, b.subchainId, store) ∈
      (s.promotions.flatMap fun r => r.stores.map fun store =>
        (r.chainId, r.subchainId, store)).dedup := by
    intro b hb store hstore
    exact List.mem_dedup.mpr (List.mem_flatMap.mpr ⟨b, hb, List.mem_map.mpr ⟨store, hstore, rfl⟩⟩)
  constructor
  · intro h b hb c hc hsub store hstore hstore'
    have hsame := List.inj_on_of_nodup_map h (hmem b hb store hstore) (hmem c hc store hstore')
      (by rw [hsub])
    exact (Prod.mk.inj hsame).1
  · intro h
    apply List.Nodup.map_on
    · intro x hx y hy heq
      obtain ⟨b, hb, hx⟩ := List.mem_flatMap.mp (List.mem_dedup.mp hx)
      obtain ⟨store, hstore, rfl⟩ := List.mem_map.mp hx
      obtain ⟨c, hc, hy⟩ := List.mem_flatMap.mp (List.mem_dedup.mp hy)
      obtain ⟨store', hstore', rfl⟩ := List.mem_map.mp hy
      simp only [ConflictKey.store.injEq, Prod.mk.injEq, true_and] at heq
      rw [← heq.2] at hstore'
      rw [h b hb c hc heq.1 store hstore hstore', heq.1, heq.2]
    · exact List.nodup_dedup _

theorem watermarkProposals_nodup (r : ApplyRequest) (family : DocumentFamily) :
    (watermarkProposals r family).Nodup := by
  have hscopes : (incomingScopes family r.staging).Nodup := by
    rw [incomingScopes]
    dsimp only
    split
    · exact List.nodup_dedup _
    · split
      · exact List.nodup_dedup _
      · exact List.nodup_singleton _
  have hkeys : (r.watermarkKeys family).Nodup := by
    apply List.Nodup.map _ hscopes
    intro a b h
    rw [ApplyRequest.watermarkKey, ApplyRequest.watermarkKey, WatermarkKey.mk.injEq] at h
    exact h.2.2.2
  exact hkeys.map fun a b h => ConflictKey.watermark.inj h

/-- One case for each upsert of `_apply_prices`. -/
theorem PriceIssues.nodup {a : DocumentApply} {t : Tables} (h : PriceIssues a t keys) :
    keys.Nodup := by
  cases h with
  | stores => exact priceStoreKeys_nodup _ _
  | items => exact priceItemKeys_nodup _ _
  | scopedIdentifiers => exact scopedIdentifierKeys_nodup _ _ _
  | corroboratedIdentifiers =>
    exact corroboratedKeys_nodup (gtinCorroboration_unique _ _ _ (List.nodup_dedup _))
  | prices hmapped =>
    exact observationKeys_nodup (materializeMappedPriceIncoming_unique hmapped.mapped)
  | availability hmapped =>
    exact observationKeys_nodup (materializeMappedPriceIncoming_unique hmapped.mapped)

end Distinct

/-- The error of a statement whose source rows share a conflict key. -/
def secondTime : Failure :=
  constraintViolation "ON CONFLICT DO UPDATE command cannot affect row a second time"

/-- A store under two chains is proposed twice. -/
theorem ensurePromotionStores_error {p : ApplyParameters} {s : Staging} (h : ¬OneChain s)
    (t : Tables) : ensurePromotionStores p s t = .error secondTime := by
  have hnot : ¬Table.UniqueOn (fun b : (String × String × String) × Nat => b.1.2)
      ((s.promotions.flatMap fun r => r.stores.map fun store =>
        (r.chainId, r.subchainId, store)).dedup.zipIdx t.nextId) := by
    rw [Table.UniqueOn, Table.map_zipIdx fun b : String × String × String => b.2]
    intro hunique
    apply h
    rw [← promotionStoreKeys_nodup_iff (p := p)]
    apply Table.UniqueOn.of_determines hunique
    intro a b heq
    simp only [ConflictKey.store.injEq, Prod.mk.injEq, true_and] at heq
    exact Prod.ext heq.1 heq.2
  rw [ensurePromotionStores]
  simp only [require, if_neg hnot, error_bind, secondTime]

/-- Every upsert that an apply issues proposes distinct conflict keys, exactly when the file is not
a promotion file that comes to its store statement with one store under two chains; and such a file
fails as a whole. -/
theorem distinct_proposals_iff (r : ApplyRequest) (t : Tables) :
    ((∀ keys, Issues r t keys → keys.Nodup) ↔
      (Admitted r .promotions t →
        ReachesStores (r.documentApply (claimContent r t).2) (claimContent r t).1 →
        OneChain r.staging)) ∧
      (Admitted r .promotions t →
        ReachesStores (r.documentApply (claimContent r t).2) (claimContent r t).1 →
        ¬OneChain r.staging → apply r t = .error secondTime) := by
  constructor
  · constructor
    · intro h hadmitted hreach
      exact promotionStoreKeys_nodup_iff.mp (h _ (.family hadmitted (PromotionIssues.stores hreach)))
    · intro h keys hkeys
      cases hkeys with
      | watermarks => exact watermarkProposals_nodup r _
      | @family family keys hadmitted hkeys =>
        cases family with
        | stores =>
          cases hkeys with
          | stores => exact rosterKeys_nodup _ _
        | prices => exact PriceIssues.nodup hkeys
        | promotions =>
          cases hkeys with
          | items => exact promotionItemKeys_nodup _ _
          | stores hreach => exact promotionStoreKeys_nodup_iff.mpr (h hadmitted hreach)
  · rintro ⟨hlocked, hordinary, hfamily, usage, hordered⟩ ⟨hguard, t₁, hitems⟩ hclash
    have hvalid : (if (r.documentApply (claimContent r t).2).isFull = true then
        validateFullPromotionSnapshot (r.documentApply (claimContent r t).2).parameters
          (r.documentApply (claimContent r t).2).policy (r.documentApply (claimContent r t).2).staging
          (claimContent r t).1
        else pure ⟨⟩) = .ok () := by
      split
      · rename_i hfull
        exact hguard hfull
      · rfl
    simp only [apply, hlocked, hfamily, hordered, ok_bind, require_bind_of hordinary, writeDocument,
      applyFamily, applyPromotions, hvalid, hitems]
    have hstores := ensurePromotionStores_error
      (p := (r.documentApply (claimContent r t).2).parameters)
      (s := (r.documentApply (claimContent r t).2).staging) hclash t₁
    rw [hstores]
    rfl

/-- A promotion record of one chain with the store 17. -/
def samplePromotion (chain id : String) (index : Nat) : StagedPromotion where
  recordIndex := index
  chainId := chain
  subchainId := "1"
  sourcePromotionId := id
  sourceScopeStoreCode := "17"
  fingerprint := id
  terms := ⟨none, .unknown, none, none, none, none, none, none, none, none, none, none, none, none,
    none, none⟩
  items := []
  stores := ["17"]
  clubs := []

/-- Two promotions in one store, of two chains. -/
def twoChains : ApplyRequest where
  sourceFileId := 1
  documentType := .promotionDelta
  source := ⟨1, 1, .promotionDelta, .applying, some 300, some 400, 400, some "aa"⟩
  staging := { Staging.empty with
    promotions :=
      [samplePromotion "7290000000001" "10" 1, samplePromotion "7290000000002" "11" 2] }
  replayActive := false
  rebuildActive := false
  wallClock := 400
  policy := lenientPolicy
  limits := ⟨10, 10000, 10⟩
  usage := ⟨0, 0, 0, 0, 0⟩

/-- The store of two chains is proposed twice, and the file fails. -/
theorem two_chains_proposed_twice :
    (¬∀ (r : ApplyRequest) (t : Tables) (keys : List ConflictKey), Issues r t keys → keys.Nodup) ∧
      apply twoChains Tables.empty = .error secondTime := by
  constructor
  · intro h
    have hadmitted : Admitted twoChains .promotions Tables.empty :=
      ⟨rfl, rfl, rfl, ⟨twoChains.usage, by decide +kernel⟩⟩
    have hkeys := h twoChains Tables.empty _ (.family hadmitted
      (PromotionIssues.stores ⟨(fun hfull => by cases hfull), ⟨_, rfl⟩⟩))
    exact absurd hkeys (by decide +kernel)
  · decide +kernel

end Makolet.Normalized
