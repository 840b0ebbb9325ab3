import Makolet.Normalized.Promotions

/-!
# Identities of stores and items

Stores and retailer items are found under their natural keys, and their ids are drawn from one
counter. Every statement that writes them keeps the id under a key, so a row of another table that
refers to a store or an item keeps its meaning.
-/

set_option autoImplicit false

namespace Makolet.Normalized

open Makolet.Domain Makolet.Lib

universe u v w

/-- Rows with distinct ids below a counter, unique under a natural key. -/
structure Identified {α : Type u} {κ : Type w} (id : α → Nat) (key : α → κ) (rows : List α)
    (next : Nat) : Prop where
  ids : Table.UniqueOn id rows
  ids_lt : ∀ r ∈ rows, id r < next
  keys : Table.UniqueOn key rows

namespace Identified

variable {α : Type u} {β : Type v} {κ : Type w} [DecidableEq κ] {id : α → Nat} {key : α → κ}
  {rows : List α} {next : Nat}

/-- The id under a key. -/
def idAt (id : α → Nat) (key : α → κ) (rows : List α) (k : κ) : Option Nat :=
  (Table.lookup key rows k).map id

omit [DecidableEq κ] in
theorem mono (h : Identified id key rows next) {later : Nat} (hle : next ≤ later) :
    Identified id key rows later :=
  ⟨h.ids, fun r hr => (h.ids_lt r hr).trans_le hle, h.keys⟩

/-- Different keys have different ids. -/
theorem idAt_injective (h : Identified id key rows next) {j k : κ} {i : Nat}
    (hj : idAt id key rows j = some i) (hk : idAt id key rows k = some i) : j = k := by
  obtain ⟨a, ha, hai⟩ := Option.map_eq_some_iff.mp hj
  obtain ⟨b, hb, hbi⟩ := Option.map_eq_some_iff.mp hk
  have hab : a = b := List.inj_on_of_nodup_map h.ids (Table.mem_of_lookup ha)
    (Table.mem_of_lookup hb) (hai.trans hbi.symm)
  rw [← Table.key_of_lookup ha, ← Table.key_of_lookup hb, hab]

/-- The rows under a key are the one that `idAt` reads. -/
theorem mem_filter_iff (h : Identified id key rows next) {k : κ} {i : Nat} :
    (∃ r ∈ rows.filter (fun r => decide (key r = k)), id r = i) ↔ idAt id key rows k = some i := by
  rw [Table.filter_key_eq_lookup h.keys, idAt]
  cases Table.lookup key rows k with
  | none => simp
  | some r => simp

/-- An upsert keeps identified rows identified. -/
theorem upsert (h : Identified id key rows next) {sources : List β} {keyIn : β × Nat → κ}
    {insert : β × Nat → α} {update : α → β × Nat → α}
    (hins : ∀ b, id (insert b) = b.2 ∧ key (insert b) = keyIn b)
    (hupd : ∀ a b, id (update a b) = id a ∧ key (update a b) = key a)
    (hin : Table.UniqueOn keyIn (sources.zipIdx next)) :
    Identified id key (Table.upsert key keyIn insert update rows (sources.zipIdx next))
      (next + sources.length) := by
  obtain ⟨hids, hlt⟩ := @Table.upsert_fresh _ _ _ key rows β id keyIn insert update sources next
    (fun b => (hins b).1) (fun a b => (hupd a b).1) h.ids h.ids_lt
  exact ⟨hids, hlt, Table.upsert_unique (fun b => (hins b).2) (fun a b => (hupd a b).2) h.keys hin⟩

/-- An upsert keeps the id under a key. -/
theorem idAt_upsert {keyIn : β → κ} {insert : β → α} {update : α → β → α} {incoming : List β}
    (hins : ∀ b, key (insert b) = keyIn b)
    (hupd : ∀ a b, id (update a b) = id a ∧ key (update a b) = key a) {k : κ} {i : Nat}
    (h : idAt id key rows k = some i) :
    idAt id key (Table.upsert key keyIn insert update rows incoming) k = some i := by
  obtain ⟨a, ha, rfl⟩ := Option.map_eq_some_iff.mp h
  -- The key has a row, so the upsert updates it at most, and an update keeps the id.
  rw [idAt, Table.lookup_upsert hins (fun a b => (hupd a b).2), ha]
  cases Table.lookup keyIn incoming k with
  | none => rfl
  | some b => exact congrArg some (hupd a b).1

/-- An upsert gives every source key an id. -/
theorem idAt_isSome_upsert (id : α → Nat) (key : α → κ) (keyIn : β → κ) {insert : β → α}
    {update : α → β → α} {incoming : List β} (hins : ∀ b, key (insert b) = keyIn b)
    (hupd : ∀ a b, key (update a b) = key a) {b : β} (hb : b ∈ incoming) :
    (idAt id key (Table.upsert key keyIn insert update rows incoming) (keyIn b)).isSome := by
  rw [idAt, Option.isSome_map, Table.lookup_isSome]
  exact Table.exists_mem_upsert hins hupd hb

end Identified

/-- The id of the item under a natural key. -/
def itemIdOf (t : Tables) : RetailerId × PortalId × String → Option ItemId :=
  Identified.idAt RetailerItem.id RetailerItem.key t.items

/-- The id of the store under a natural key. -/
def storeIdOf (t : Tables) : RetailerId × PortalId × String × String → Option StoreId :=
  Identified.idAt StoreRow.id StoreRow.key t.stores

/-- Items and stores are identified. -/
structure IdentityKeyed (t : Tables) : Prop where
  items : Identified RetailerItem.id RetailerItem.key t.items t.nextId
  stores : Identified StoreRow.id StoreRow.key t.stores t.nextId

theorem IdentityKeyed.empty : IdentityKeyed Tables.empty where
  items := ⟨List.nodup_nil, fun _ h => (by cases h), List.nodup_nil⟩
  stores := ⟨List.nodup_nil, fun _ h => (by cases h), List.nodup_nil⟩

/-- What a statement keeps of the identities: the ids under the keys that had one, the counter and
the keys themselves. -/
structure KeepsIdentities (t t' : Tables) : Prop where
  items : ∀ k i, itemIdOf t k = some i → itemIdOf t' k = some i
  stores : ∀ k i, storeIdOf t k = some i → storeIdOf t' k = some i
  nextId : t.nextId ≤ t'.nextId
  keyedItems : Identified RetailerItem.id RetailerItem.key t.items t.nextId →
    Identified RetailerItem.id RetailerItem.key t'.items t'.nextId
  keyedStores : Identified StoreRow.id StoreRow.key t.stores t.nextId →
    Identified StoreRow.id StoreRow.key t'.stores t'.nextId

theorem KeepsIdentities.keyed {t t' : Tables} (h : KeepsIdentities t t')
    (hkeyed : IdentityKeyed t) : IdentityKeyed t' :=
  ⟨h.keyedItems hkeyed.items, h.keyedStores hkeyed.stores⟩

theorem KeepsIdentities.trans {a b c : Tables} (h : KeepsIdentities a b)
    (h' : KeepsIdentities b c) : KeepsIdentities a c :=
  ⟨fun k i hk => h'.items k i (h.items k i hk), fun k i hk => h'.stores k i (h.stores k i hk),
    h.nextId.trans h'.nextId, fun hk => h'.keyedItems (h.keyedItems hk),
    fun hk => h'.keyedStores (h.keyedStores hk)⟩

/-- A statement that writes neither items nor stores. -/
theorem KeepsIdentities.of_eq {t t' : Tables} (hitems : t'.items = t.items)
    (hstores : t'.stores = t.stores) (hnext : t.nextId ≤ t'.nextId) : KeepsIdentities t t' where
  items k i h := by
    rw [itemIdOf, hitems]
    exact h
  stores k i h := by
    rw [storeIdOf, hstores]
    exact h
  nextId := hnext
  keyedItems h := by
    rw [hitems]
    exact h.mono hnext
  keyedStores h := by
    rw [hstores]
    exact h.mono hnext

section Upserts

variable {β : Type} {t t' : Tables} {sources : List β}

/-- An upsert of items whose new rows take their ids from the counter. -/
theorem KeepsIdentities.upsertItems {keyIn : β × Nat → RetailerId × PortalId × String}
    {insert : β × Nat → RetailerItem} {update : RetailerItem → β × Nat → RetailerItem}
    (ht : t' = { t with
      items := Table.upsert RetailerItem.key keyIn insert update t.items (sources.zipIdx t.nextId)
      nextId := t.nextId + (sources.zipIdx t.nextId).length })
    (hins : ∀ b, (insert b).id = b.2 ∧ (insert b).key = keyIn b)
    (hupd : ∀ a b, (update a b).id = a.id ∧ (update a b).key = a.key)
    (hin : Table.UniqueOn keyIn (sources.zipIdx t.nextId)) : KeepsIdentities t t' := by
  subst ht
  refine ⟨fun k i h => ?_, fun _ _ h => h, Nat.le_add_right _ _, fun h => ?_,
    fun h => h.mono (Nat.le_add_right _ _)⟩
  · exact Identified.idAt_upsert (fun b => (hins b).2) hupd h
  · show Identified _ _ _ (t.nextId + (sources.zipIdx t.nextId).length)
    rw [List.length_zipIdx]
    exact h.upsert hins hupd hin

/-- An upsert of stores whose new rows take their ids from the counter. -/
theorem KeepsIdentities.upsertStoreRows {keyIn : β × Nat → RetailerId × PortalId × String × String}
    {insert : β × Nat → StoreRow} {update : StoreRow → β × Nat → StoreRow}
    (ht : t' = { t with
      stores := Table.upsert StoreRow.key keyIn insert update t.stores (sources.zipIdx t.nextId)
      nextId := t.nextId + (sources.zipIdx t.nextId).length })
    (hins : ∀ b, (insert b).id = b.2 ∧ (insert b).key = keyIn b)
    (hupd : ∀ a b, (update a b).id = a.id ∧ (update a b).key = a.key)
    (hin : Table.UniqueOn keyIn (sources.zipIdx t.nextId)) : KeepsIdentities t t' := by
  subst ht
  refine ⟨fun _ _ h => h, fun k i h => ?_, Nat.le_add_right _ _,
    fun h => h.mono (Nat.le_add_right _ _), fun h => ?_⟩
  · exact Identified.idAt_upsert (fun b => (hins b).2) hupd h
  · show Identified _ _ _ (t.nextId + (sources.zipIdx t.nextId).length)
    rw [List.length_zipIdx]
    exact h.upsert hins hupd hin

end Upserts

section Statements

variable {p : ApplyParameters} {s : Staging} {t t' : Tables}

theorem keepsIdentities_upsertPriceStores (h : upsertPriceStores p s t = .ok t') :
    KeepsIdentities t t' := by
  obtain ⟨-, h⟩ := require_bind_eq_ok.mp h
  rw [pure_eq_ok] at h
  refine KeepsIdentities.upsertStoreRows h.symm (fun _ => ⟨rfl, rfl⟩) (fun _ _ => ⟨rfl, rfl⟩) ?_
  have hunique := @Table.distinctOn_unique _ _ _ StagedPrice.storeKey (priceIncoming s)
  refine (hunique.zipIdx t.nextId).of_determines fun a b hab => ?_
  exact congrArg (fun k : RetailerId × PortalId × String × String => k.2.2) hab

theorem keepsIdentities_upsertRetailerItems (h : upsertRetailerItems p s t = .ok t') :
    KeepsIdentities t t' := by
  obtain ⟨-, h⟩ := require_bind_eq_ok.mp h
  rw [pure_eq_ok] at h
  refine KeepsIdentities.upsertItems h.symm (fun _ => ⟨rfl, rfl⟩) (fun _ _ => ⟨rfl, rfl⟩) ?_
  refine ((Table.distinctOn_unique _).zipIdx t.nextId).of_determines fun a b hab => ?_
  exact congrArg (fun k : RetailerId × PortalId × String => k.2.2) hab

theorem keepsIdentities_upsertStores (h : upsertStores p s t = .ok t') :
    KeepsIdentities t t' := by
  obtain ⟨-, h⟩ := require_bind_eq_ok.mp h
  rw [pure_eq_ok] at h
  refine KeepsIdentities.upsertStoreRows h.symm (fun _ => ⟨rfl, rfl⟩) (fun _ _ => ⟨rfl, rfl⟩) ?_
  have hunique : Table.UniqueOn StagedStore.key (storeIncoming s) := Table.distinctOn_unique _
  refine (hunique.zipIdx t.nextId).of_determines fun a b hab => ?_
  exact congrArg (fun k : RetailerId × PortalId × String × String => k.2.2) hab

/-- Every item that a staged promotion names has an id afterwards. -/
theorem keepsIdentities_ensurePromotionItems (h : ensurePromotionItems p s t = .ok t') :
    KeepsIdentities t t' ∧ ∀ r ∈ s.promotions, ∀ child ∈ r.items,
      (itemIdOf t' (p.retailerId, p.portalId, child.sourceItemCode)).isSome := by
  obtain ⟨-, h⟩ := require_bind_eq_ok.mp h
  rw [pure_eq_ok] at h
  constructor
  · refine KeepsIdentities.upsertItems h.symm (fun _ => ⟨rfl, rfl⟩) (fun _ _ => ⟨rfl, rfl⟩) ?_
    have hunique : Table.UniqueOn id (s.promotions.flatMap fun r =>
        r.items.map StagedPromotionItem.sourceItemCode).dedup := by
      rw [Table.UniqueOn, List.map_id]
      exact List.nodup_dedup _
    refine (hunique.zipIdx t.nextId).of_determines fun a b hab => ?_
    exact congrArg (fun k : RetailerId × PortalId × String => k.2.2) hab
  · intro r hr child hchild
    have hcode : child.sourceItemCode ∈ (s.promotions.flatMap fun r =>
        r.items.map StagedPromotionItem.sourceItemCode).dedup :=
      List.mem_dedup.mpr (List.mem_flatMap.mpr ⟨r, hr, List.mem_map_of_mem hchild⟩)
    obtain ⟨b, hb, hcode⟩ := Table.exists_mem_zipIdx hcode t.nextId
    subst h
    rw [← hcode]
    refine Identified.idAt_isSome_upsert RetailerItem.id RetailerItem.key
      (fun b : String × Nat => (p.retailerId, p.portalId, b.1)) ?_ ?_ hb
    · exact fun _ => rfl
    · exact fun _ _ => rfl

/-- Every store that a staged promotion names has an id afterwards. -/
theorem keepsIdentities_ensurePromotionStores (h : ensurePromotionStores p s t = .ok t') :
    KeepsIdentities t t' ∧ ∀ r ∈ s.promotions, ∀ code ∈ r.stores,
      (storeIdOf t' (p.retailerId, p.portalId, r.subchainId, code)).isSome := by
  obtain ⟨hunique, h⟩ := require_bind_eq_ok.mp h
  obtain ⟨-, h⟩ := require_bind_eq_ok.mp h
  rw [pure_eq_ok] at h
  constructor
  · refine KeepsIdentities.upsertStoreRows h.symm (fun _ => ⟨rfl, rfl⟩) (fun _ _ => ⟨rfl, rfl⟩) ?_
    refine hunique.of_determines fun a b hab => ?_
    exact congrArg (fun k : RetailerId × PortalId × String × String => k.2.2) hab
  · intro r hr code hcode
    have hrow : (r.chainId, r.subchainId, code) ∈ (s.promotions.flatMap fun r =>
        r.stores.map fun store => (r.chainId, r.subchainId, store)).dedup :=
      List.mem_dedup.mpr (List.mem_flatMap.mpr ⟨r, hr, List.mem_map.mpr ⟨code, hcode, rfl⟩⟩)
    obtain ⟨b, hb, hrow⟩ := Table.exists_mem_zipIdx hrow t.nextId
    subst h
    have hkey : (p.retailerId, p.portalId, r.subchainId, code) =
        (p.retailerId, p.portalId, b.1.2.1, b.1.2.2) := by
      rw [hrow]
    rw [hkey]
    refine Identified.idAt_isSome_upsert StoreRow.id StoreRow.key
      (fun b : (String × String × String) × Nat => (p.retailerId, p.portalId, b.1.2.1, b.1.2.2))
      ?_ ?_ hb
    · exact fun _ => rfl
    · exact fun _ _ => rfl

theorem keepsIdentities_deactivateStores : KeepsIdentities t (deactivateStores p s t) := by
  have hmap : ∀ {κ : Type} (f : StoreRow → κ), (∀ r : StoreRow, f { r with
      isActive := false, lastSourceFileId := p.sourceFileId } = f r) →
      ∀ r : StoreRow, f (if r.isDropped p s then
        { r with isActive := false, lastSourceFileId := p.sourceFileId } else r) = f r := by
    intro κ f hf r
    split
    · exact hf r
    · rfl
  have hid := hmap StoreRow.id fun _ => rfl
  have hkey := hmap StoreRow.key fun _ => rfl
  refine ⟨fun _ _ h => h, fun k i h => ?_, le_refl _, fun h => h, fun h => ⟨?_, ?_, ?_⟩⟩
  · obtain ⟨r, hr, rfl⟩ := Option.map_eq_some_iff.mp h
    rw [storeIdOf, Identified.idAt, deactivateStores, Table.lookup_map_of_key hkey, hr]
    exact congrArg some (hid r)
  · rw [Table.UniqueOn, deactivateStores, List.map_map,
      show t.stores.map (StoreRow.id ∘ _) = t.stores.map StoreRow.id from
        List.map_congr_left fun r _ => hid r]
    exact h.ids
  · intro store hs
    obtain ⟨r, hr, rfl⟩ := List.mem_map.mp hs
    rw [hid r]
    exact h.ids_lt r hr
  · rw [Table.UniqueOn, deactivateStores, List.map_map,
      show t.stores.map (StoreRow.key ∘ _) = t.stores.map StoreRow.key from
        List.map_congr_left fun r _ => hkey r]
    exact h.keys

end Statements

/-! ## The families -/

section Applies

variable {a : DocumentApply} {t t' : Tables} {summary : ApplySummary}

theorem matchExactGtins_nextId {p : ApplyParameters} {items : List RetailerItem} {t t' : Tables}
    (h : matchExactGtins p items t = .ok t') : t.nextId ≤ t'.nextId := by
  obtain ⟨t₁, h₁, h⟩ := bind_eq_ok.mp h
  obtain ⟨_, -, h₁⟩ := bind_eq_ok.mp h₁
  obtain ⟨_, -, h₁⟩ := bind_eq_ok.mp h₁
  rw [pure_eq_ok] at h h₁
  subst h₁
  subst h
  exact Nat.le_add_right _ _

theorem keepsIdentities_applyStores (h : applyStores a t = .ok (t', summary)) :
    KeepsIdentities t t' := by
  obtain ⟨t₁, h₁, rfl⟩ := applyStores_eq_ok h
  have haliases : KeepsIdentities t₁ (insertStoreAliases a.parameters a.staging t₁) :=
    .of_eq rfl rfl (le_refl _)
  exact ((keepsIdentities_upsertStores h₁).trans haliases).trans keepsIdentities_deactivateStores

theorem keepsIdentities_applyPrices (h : applyPrices a t = .ok (t', summary)) :
    KeepsIdentities t t' := by
  obtain ⟨t₁, t₂, t₃, _, _, _, _, _, hstores, hitems, _, _, hgtins, _, _, rfl, _, _⟩ :=
    applyPrices_eq_ok h
  have hmatch : KeepsIdentities t₂ t₃ := by
    refine .of_eq ?_ ?_ (matchExactGtins_nextId hgtins) <;> rw [matchExactGtins_frame hgtins]
  have hwritten := ((keepsIdentities_upsertPriceStores hstores).trans
    (keepsIdentities_upsertRetailerItems hitems)).trans hmatch
  exact hwritten.trans (.of_eq rfl rfl (le_refl _))

theorem keepsIdentities_applyPromotions (h : applyPromotions a t = .ok (t', summary)) :
    KeepsIdentities t t' := by
  obtain ⟨t₁, t₂, t₃, promotions, h₁, h₂, -, h₃, hend⟩ := applyPromotions_eq_ok h
  have hensured := (keepsIdentities_ensurePromotionItems h₁).1.trans
    (keepsIdentities_ensurePromotionStores h₂).1
  have hinserted : KeepsIdentities t₂ t₃ := by
    obtain ⟨-, h₃⟩ := require_bind_eq_ok.mp h₃
    rw [pure_eq_ok] at h₃
    subst h₃
    exact .of_eq rfl rfl (Nat.le_add_right _ _)
  have hattach : KeepsIdentities t₃ (attachPromotionRelations a.parameters
      (promotionIncoming a.staging) t₃) := .of_eq rfl rfl (le_refl _)
  have hattached := (hensured.trans hinserted).trans hattach
  rcases hend with ⟨-, rfl⟩ | ⟨-, n, hn⟩
  · exact hattached
  · rw [(closeAbsentPromotions_eq_ok hn).2]
    exact hattached.trans (.of_eq rfl rfl (le_refl _))

end Applies

end Makolet.Normalized
