import Makolet.Normalized.Identities
import Makolet.Normalized.PromotionRecords

/-!
# What the relations of a promotion version say

The child rows of a version refer to items and stores by their ids. `Holds` reads them back under
the natural keys: the version says what a staged promotion says. `holds_attach` is the effect of
`_attach_promotion_relations` on the version that an incoming row addresses, and
`holds_attach_other` on the others.
-/

set_option autoImplicit false

namespace Makolet.Normalized

open Makolet.Domain Makolet.Lib

/-- The natural key of an item that a version names. -/
def PromotionKey.item (k : PromotionKey) (code : String) : RetailerId × PortalId × String :=
  (k.retailerId, k.portalId, code)

/-- The natural key of a store that a version names. -/
def PromotionKey.store (k : PromotionKey) (code : String) :
    RetailerId × PortalId × String × String :=
  (k.retailerId, k.portalId, k.subchainCode, code)

/-- The row is one of the items of the staged promotion. -/
def StatesItem (t : Tables) (k : PromotionKey) (b : StagedPromotion) (row : PromotionItem) : Prop :=
  ∃ child ∈ b.items, itemIdOf t (k.item child.sourceItemCode) = some row.itemId ∧
    row.itemType = child.itemType ∧ row.isGift = child.isGift

/-- The store is one of the stores of the staged promotion. -/
def StatesStore (t : Tables) (k : PromotionKey) (b : StagedPromotion) (id : StoreId) : Prop :=
  ∃ code ∈ b.stores, storeIdOf t (k.store code) = some id

/-- Every item and store of the staged promotion has a row. -/
structure Known (t : Tables) (k : PromotionKey) (b : StagedPromotion) : Prop where
  items : ∀ child ∈ b.items, (itemIdOf t (k.item child.sourceItemCode)).isSome
  stores : ∀ code ∈ b.stores, (storeIdOf t (k.store code)).isSome

/-- The columns and the relations of the version are those of the staged promotion. -/
structure Holds (t : Tables) (v : Promotion) (b : StagedPromotion) : Prop where
  terms : v.terms = b.terms
  known : Known t v.key b
  items : ∀ row : PromotionItem, row.promotionId = v.id →
    (row ∈ t.promotionItems ↔ StatesItem t v.key b row)
  stores : ∀ id, (v.id, id) ∈ t.promotionStores ↔ StatesStore t v.key b id
  clubs : ∀ club, (v.id, club) ∈ t.promotionClubs ↔ club ∈ b.clubs

section Content

variable {t : Tables} {v : Promotion} {a b : StagedPromotion}

theorem StatesItem.congr {k : PromotionKey} {row : PromotionItem}
    (hitems : ∀ child, child ∈ a.items ↔ child ∈ b.items) :
    StatesItem t k a row ↔ StatesItem t k b row :=
  exists_congr fun child => and_congr_left fun _ => hitems child

theorem StatesStore.congr {k : PromotionKey} {id : StoreId}
    (hstores : ∀ code, code ∈ a.stores ↔ code ∈ b.stores) :
    StatesStore t k a id ↔ StatesStore t k b id :=
  exists_congr fun code => and_congr_left fun _ => hstores code

/-- A version says the same as every staged promotion of equal content. -/
theorem Holds.of_sameContent (h : Holds t v a) (hsame : SameContent a b) : Holds t v b where
  terms := h.terms.trans hsame.terms
  known := ⟨fun child hc => h.known.items child ((hsame.items child).mpr hc),
    fun code hc => h.known.stores code ((hsame.stores code).mpr hc)⟩
  items row hrow := (h.items row hrow).trans (StatesItem.congr hsame.items)
  stores id := (h.stores id).trans (StatesStore.congr hsame.stores)
  clubs club := (h.clubs club).trans (hsame.clubs club)

/-- The item of a row is one child: equal ids are equal codes. -/
theorem StatesItem.child_eq (hkeyed : IdentityKeyed t) {k : PromotionKey}
    {child other : StagedPromotionItem} {i : ItemId}
    (h : itemIdOf t (k.item child.sourceItemCode) = some i)
    (h' : itemIdOf t (k.item other.sourceItemCode) = some i) :
    child.sourceItemCode = other.sourceItemCode :=
  congrArg (fun key : RetailerId × PortalId × String => key.2.2) (hkeyed.items.idAt_injective h h')

theorem Holds.items_subset (hkeyed : IdentityKeyed t) (ha : Holds t v a) (hb : Holds t v b)
    {child : StagedPromotionItem} (hc : child ∈ a.items) : child ∈ b.items := by
  obtain ⟨i, hi⟩ := Option.isSome_iff_exists.mp (ha.known.items child hc)
  have hrow : (⟨v.id, i, child.itemType, child.isGift⟩ : PromotionItem) ∈ t.promotionItems :=
    (ha.items _ rfl).mpr ⟨child, hc, hi, rfl, rfl⟩
  obtain ⟨other, hother, hi', htype, hgift⟩ := (hb.items _ rfl).mp hrow
  have heq : child = other := by
    have hcode := StatesItem.child_eq hkeyed hi hi'
    cases child
    cases other
    exact StagedPromotionItem.mk.injEq .. ▸ ⟨hcode, htype, hgift⟩
  rw [heq]
  exact hother

theorem Holds.stores_subset (hkeyed : IdentityKeyed t) (ha : Holds t v a) (hb : Holds t v b)
    {code : String} (hc : code ∈ a.stores) : code ∈ b.stores := by
  obtain ⟨i, hi⟩ := Option.isSome_iff_exists.mp (ha.known.stores code hc)
  obtain ⟨other, hother, hi'⟩ := (hb.stores i).mp ((ha.stores i).mpr ⟨code, hc, hi⟩)
  have heq : code = other :=
    congrArg (fun key : RetailerId × PortalId × String × String => key.2.2.2)
      (hkeyed.stores.idAt_injective hi hi')
  rw [heq]
  exact hother

/-- Two staged promotions that a version says have equal content. -/
theorem Holds.sameContent (hkeyed : IdentityKeyed t) (ha : Holds t v a) (hb : Holds t v b) :
    SameContent a b where
  terms := ha.terms.symm.trans hb.terms
  items _ := ⟨ha.items_subset hkeyed hb, hb.items_subset hkeyed ha⟩
  stores _ := ⟨ha.stores_subset hkeyed hb, hb.stores_subset hkeyed ha⟩
  clubs club := (ha.clubs club).symm.trans (hb.clubs club)

end Content

section Frame

variable {t t' : Tables} {k : PromotionKey} {b : StagedPromotion}

theorem Known.mono (h : Known t k b) (hkeeps : KeepsIdentities t t') : Known t' k b where
  items child hc := by
    obtain ⟨i, hi⟩ := Option.isSome_iff_exists.mp (h.items child hc)
    rw [hkeeps.items _ i hi]
    rfl
  stores code hc := by
    obtain ⟨i, hi⟩ := Option.isSome_iff_exists.mp (h.stores code hc)
    rw [hkeeps.stores _ i hi]
    rfl

theorem StatesItem.mono_iff (h : Known t k b) (hkeeps : KeepsIdentities t t')
    {row : PromotionItem} : StatesItem t' k b row ↔ StatesItem t k b row := by
  constructor
  · -- A child that was known keeps its id, so the new tables give it no other one.
    rintro ⟨child, hc, hi, hrest⟩
    obtain ⟨i, hold⟩ := Option.isSome_iff_exists.mp (h.items child hc)
    rw [hkeeps.items _ i hold] at hi
    cases hi
    exact ⟨child, hc, hold, hrest⟩
  · rintro ⟨child, hc, hi, hrest⟩
    exact ⟨child, hc, hkeeps.items _ _ hi, hrest⟩

theorem StatesStore.mono_iff (h : Known t k b) (hkeeps : KeepsIdentities t t') {id : StoreId} :
    StatesStore t' k b id ↔ StatesStore t k b id := by
  constructor
  · rintro ⟨code, hc, hi⟩
    obtain ⟨i, hold⟩ := Option.isSome_iff_exists.mp (h.stores code hc)
    rw [hkeeps.stores _ i hold] at hi
    cases hi
    exact ⟨code, hc, hold⟩
  · rintro ⟨code, hc, hi⟩
    exact ⟨code, hc, hkeeps.stores _ _ hi⟩

/-- A statement that leaves the relations and the identities alone leaves what a version says. -/
theorem Holds.mono {v : Promotion} (h : Holds t v b) (hkeeps : KeepsIdentities t t')
    (hitems : t'.promotionItems = t.promotionItems)
    (hstores : t'.promotionStores = t.promotionStores)
    (hclubs : t'.promotionClubs = t.promotionClubs) : Holds t' v b where
  terms := h.terms
  known := h.known.mono hkeeps
  items row hrow := by
    rw [hitems]
    exact (h.items row hrow).trans (StatesItem.mono_iff h.known hkeeps).symm
  stores id := by
    rw [hstores]
    exact (h.stores id).trans (StatesStore.mono_iff h.known hkeeps).symm
  clubs := by
    rw [hclubs]
    exact h.clubs

end Frame

/-! ## Attaching the relations -/

section Attach

variable {p : ApplyParameters} {incoming : List StagedPromotion} {t : Tables}

/-- A new item row states an item of the incoming row of an open version. -/
theorem mem_attached_items (hkeyed : IdentityKeyed t) {row : PromotionItem} :
    row ∈ (incoming.flatMap fun b => b.items.flatMap fun child =>
        (t.promotions.filter fun r => decide (r.key = b.key p) && r.isOpen).flatMap fun r =>
          (t.items.filter fun i =>
            decide (i.key = (p.retailerId, p.portalId, child.sourceItemCode))).map fun i =>
          (⟨r.id, i.id, child.itemType, child.isGift⟩ : PromotionItem)) ↔
      ∃ b ∈ incoming, ∃ r ∈ t.promotions, r.key = b.key p ∧ r.isOpen = true ∧
        row.promotionId = r.id ∧ StatesItem t (b.key p) b row := by
  simp only [List.mem_flatMap, List.mem_map, List.mem_filter, Bool.and_eq_true, decide_eq_true_eq]
  constructor
  · rintro ⟨b, hb, child, hchild, r, ⟨hr, hkey, hopen⟩, i, ⟨hi, hikey⟩, rfl⟩
    refine ⟨b, hb, r, hr, hkey, hopen, rfl, child, hchild, ?_, rfl, rfl⟩
    refine hkeyed.items.mem_filter_iff.mp ⟨i, List.mem_filter.mpr ⟨hi, ?_⟩, rfl⟩
    exact decide_eq_true hikey
  · rintro ⟨b, hb, r, hr, hkey, hopen, hid, child, hchild, hitem, htype, hgift⟩
    obtain ⟨i, hi, hiid⟩ := hkeyed.items.mem_filter_iff.mpr hitem
    obtain ⟨hi, hikey⟩ := List.mem_filter.mp hi
    refine ⟨b, hb, child, hchild, r, ⟨hr, hkey, hopen⟩, i, ⟨hi, of_decide_eq_true hikey⟩, ?_⟩
    rw [hiid, ← hid, ← htype, ← hgift]

/-- A new store row states a store of the incoming row of an open version. -/
theorem mem_attached_stores (hkeyed : IdentityKeyed t) {row : PromotionId × StoreId} :
    row ∈ (incoming.flatMap fun b => b.stores.flatMap fun code =>
        (t.promotions.filter fun r => decide (r.key = b.key p) && r.isOpen).flatMap fun r =>
          (t.stores.filter fun store =>
            decide (store.key = (p.retailerId, p.portalId, b.subchainId, code))).map fun store =>
          (r.id, store.id)) ↔
      ∃ b ∈ incoming, ∃ r ∈ t.promotions, r.key = b.key p ∧ r.isOpen = true ∧ row.1 = r.id ∧
        StatesStore t (b.key p) b row.2 := by
  simp only [List.mem_flatMap, List.mem_map, List.mem_filter, Bool.and_eq_true, decide_eq_true_eq]
  constructor
  · rintro ⟨b, hb, code, hcode, r, ⟨hr, hkey, hopen⟩, store, ⟨hs, hskey⟩, rfl⟩
    refine ⟨b, hb, r, hr, hkey, hopen, rfl, code, hcode, ?_⟩
    refine hkeyed.stores.mem_filter_iff.mp ⟨store, List.mem_filter.mpr ⟨hs, ?_⟩, rfl⟩
    exact decide_eq_true hskey
  · rintro ⟨b, hb, r, hr, hkey, hopen, hid, code, hcode, hstore⟩
    obtain ⟨store, hs, hsid⟩ := hkeyed.stores.mem_filter_iff.mpr hstore
    obtain ⟨hs, hskey⟩ := List.mem_filter.mp hs
    refine ⟨b, hb, code, hcode, r, ⟨hr, hkey, hopen⟩, store, ⟨hs, of_decide_eq_true hskey⟩, ?_⟩
    rw [hsid, ← hid]

/-- A new club row states a club of the incoming row of an open version. -/
theorem mem_attached_clubs {row : PromotionId × String} :
    row ∈ (incoming.flatMap fun b => b.clubs.flatMap fun club =>
        (t.promotions.filter fun r => decide (r.key = b.key p) && r.isOpen).map fun r =>
          (r.id, club)) ↔
      ∃ b ∈ incoming, ∃ r ∈ t.promotions, r.key = b.key p ∧ r.isOpen = true ∧ row.1 = r.id ∧
        row.2 ∈ b.clubs := by
  simp only [List.mem_flatMap, List.mem_map, List.mem_filter, Bool.and_eq_true, decide_eq_true_eq]
  constructor
  · rintro ⟨b, hb, club, hclub, r, ⟨hr, hkey, hopen⟩, rfl⟩
    exact ⟨b, hb, r, hr, hkey, hopen, rfl, hclub⟩
  · rintro ⟨b, hb, r, hr, hkey, hopen, hid, hclub⟩
    refine ⟨b, hb, row.2, hclub, r, ⟨hr, hkey, hopen⟩, ?_⟩
    rw [← hid]

/-- A row attached to the version comes from the incoming row of its key. -/
theorem incoming_eq_of_id (hids : Table.UniqueOn Promotion.id t.promotions)
    (hunique : Table.UniqueOn (StagedPromotion.key p) incoming) {v r : Promotion}
    {b c : StagedPromotion} (hv : v ∈ t.promotions) (hr : r ∈ t.promotions) (hb : b ∈ incoming)
    (hc : c ∈ incoming) (hvb : v.key = b.key p) (hrc : r.key = c.key p) (hid : r.id = v.id) :
    c = b := by
  have hrv : r = v := List.inj_on_of_nodup_map hids hr hv hid
  subst hrv
  exact List.inj_on_of_nodup_map hunique hc hb (hrc.symm.trans hvb)

/-- The version that an incoming row addresses says what the row says, when its earlier relations
do. -/
theorem holds_attach (hkeyed : IdentityKeyed t)
    (hids : Table.UniqueOn Promotion.id t.promotions)
    (hunique : Table.UniqueOn (StagedPromotion.key p) incoming) {v : Promotion}
    {b : StagedPromotion} (hb : b ∈ incoming) (hv : v ∈ t.promotions) (hopen : v.isOpen = true)
    (hkey : v.key = b.key p) (hcodes : (b.items.map StagedPromotionItem.sourceItemCode).Nodup)
    (hterms : v.terms = b.terms) (hknown : Known t v.key b)
    (hitems : ∀ row ∈ t.promotionItems, row.promotionId = v.id → StatesItem t v.key b row)
    (hstores : ∀ id, (v.id, id) ∈ t.promotionStores → StatesStore t v.key b id)
    (hclubs : ∀ club, (v.id, club) ∈ t.promotionClubs → club ∈ b.clubs) :
    Holds (attachPromotionRelations p incoming t) v b := by
  -- Old rows state the record by hypothesis, new ones because no other row has the version's key.
  have hitems' : ∀ row ∈ (attachPromotionRelations p incoming t).promotionItems,
      row.promotionId = v.id → StatesItem t v.key b row := by
    intro row hrow hid
    rcases Table.mem_insertNew hrow with hold | ⟨hnew, -⟩
    · exact hitems row hold hid
    · obtain ⟨c, hc, r, hr, hrc, -, hrid, hstates⟩ := (mem_attached_items hkeyed).mp hnew
      have hcb := incoming_eq_of_id hids hunique hv hr hb hc hkey hrc (hrid.symm.trans hid)
      subst hcb
      rw [hkey]
      exact hstates
  refine ⟨hterms, hknown.mono (.of_eq rfl rfl (le_refl _)),
    fun row hid => ⟨fun hrow => hitems' row hrow hid, fun hstates => ?_⟩,
    fun store => ⟨fun hrow => ?_, fun hstates => ?_⟩, fun club => ⟨fun hrow => ?_, fun hclub => ?_⟩⟩
  · -- The table keeps one row for the item, and that row states the same child.
    have hnew := (mem_attached_items hkeyed).mpr
      ⟨b, hb, v, hv, hkey, hopen, hid, show StatesItem t (b.key p) b row from hkey ▸ hstates⟩
    obtain ⟨other, hother, hsame⟩ := @Table.exists_mem_insertNew _ _ _
      (fun r : PromotionItem => (r.promotionId, r.itemId)) t.promotionItems _ _ hnew
    obtain ⟨hoid, hoitem⟩ := Prod.mk.inj hsame
    obtain ⟨child, hchild, hi, htype, hgift⟩ := hstates
    obtain ⟨child', hchild', hi', htype', hgift'⟩ := hitems' other hother (hoid.trans hid)
    rw [hoitem] at hi'
    have hcc : child' = child :=
      List.inj_on_of_nodup_map hcodes hchild' hchild (StatesItem.child_eq hkeyed hi' hi)
    subst hcc
    have hrow : other = row := by
      cases other
      cases row
      exact PromotionItem.mk.injEq .. ▸
        ⟨hoid, hoitem, htype'.trans htype.symm, hgift'.trans hgift.symm⟩
    rw [← hrow]
    exact hother
  · rcases Table.mem_insertNew hrow with hold | ⟨hnew, -⟩
    · exact hstores store hold
    · obtain ⟨c, hc, r, hr, hrc, -, hrid, hstates⟩ := (mem_attached_stores hkeyed).mp hnew
      have hcb := incoming_eq_of_id hids hunique hv hr hb hc hkey hrc hrid.symm
      subst hcb
      rw [hkey]
      exact hstates
  · have hnew := (@mem_attached_stores p incoming t hkeyed (v.id, store)).mpr
      ⟨b, hb, v, hv, hkey, hopen, rfl, show StatesStore t (b.key p) b store from hkey ▸ hstates⟩
    obtain ⟨other, hother, rfl⟩ :=
      @Table.exists_mem_insertNew _ _ _ id t.promotionStores _ _ hnew
    exact hother
  · rcases Table.mem_insertNew hrow with hold | ⟨hnew, -⟩
    · exact hclubs club hold
    · obtain ⟨c, hc, r, hr, hrc, -, hrid, hclub⟩ := mem_attached_clubs.mp hnew
      have hcb := incoming_eq_of_id hids hunique hv hr hb hc hkey hrc hrid.symm
      subst hcb
      exact hclub
  · have hnew := (@mem_attached_clubs p incoming t (v.id, club)).mpr
      ⟨b, hb, v, hv, hkey, hopen, rfl, hclub⟩
    obtain ⟨other, hother, rfl⟩ :=
      @Table.exists_mem_insertNew _ _ _ id t.promotionClubs _ _ hnew
    exact hother

/-- A version that no incoming row addresses says what it said. -/
theorem holds_attach_other (hkeyed : IdentityKeyed t)
    (hids : Table.UniqueOn Promotion.id t.promotions) {v : Promotion} {b : StagedPromotion}
    (hv : v ∈ t.promotions) (hnone : ∀ c ∈ incoming, c.key p ≠ v.key) (h : Holds t v b) :
    Holds (attachPromotionRelations p incoming t) v b := by
  have hother : ∀ {r : Promotion} {c : StagedPromotion}, r ∈ t.promotions → c ∈ incoming →
      r.key = c.key p → r.id ≠ v.id := by
    intro r c hr hc hkey hid
    have hrv : r = v := List.inj_on_of_nodup_map hids hr hv hid
    subst hrv
    exact hnone c hc hkey.symm
  refine ⟨h.terms, h.known.mono (.of_eq rfl rfl (le_refl _)),
    fun row hid => ⟨fun hrow => ?_, fun hstates => ?_⟩,
    fun id => ⟨fun hrow => ?_, fun hstates => ?_⟩, fun club => ⟨fun hrow => ?_, fun hclub => ?_⟩⟩
  · rcases Table.mem_insertNew hrow with hold | ⟨hnew, -⟩
    · exact (h.items row hid).mp hold
    · obtain ⟨c, hc, r, hr, hrc, -, hrid, -⟩ := (mem_attached_items hkeyed).mp hnew
      exact absurd (hrid.symm.trans hid) (hother hr hc hrc)
  · exact Table.subset_insertNew ((h.items row hid).mpr hstates)
  · rcases Table.mem_insertNew hrow with hold | ⟨hnew, -⟩
    · exact (h.stores id).mp hold
    · obtain ⟨c, hc, r, hr, hrc, -, hrid, -⟩ := (mem_attached_stores hkeyed).mp hnew
      exact absurd hrid.symm (hother hr hc hrc)
  · exact Table.subset_insertNew ((h.stores id).mpr hstates)
  · rcases Table.mem_insertNew hrow with hold | ⟨hnew, -⟩
    · exact (h.clubs club).mp hold
    · obtain ⟨c, hc, r, hr, hrc, -, hrid, -⟩ := mem_attached_clubs.mp hnew
      exact absurd hrid.symm (hother hr hc hrc)
  · exact Table.subset_insertNew ((h.clubs club).mpr hclub)

/-- Every attached row belongs to a version of the table. -/
theorem attachPromotionRelations_lt {n : Nat} (hids : ∀ v ∈ t.promotions, v.id < n)
    (hkeyed : IdentityKeyed t) (hitems : ∀ row ∈ t.promotionItems, row.promotionId < n)
    (hstores : ∀ row ∈ t.promotionStores, row.1 < n)
    (hclubs : ∀ row ∈ t.promotionClubs, row.1 < n) :
    (∀ row ∈ (attachPromotionRelations p incoming t).promotionItems, row.promotionId < n) ∧
      (∀ row ∈ (attachPromotionRelations p incoming t).promotionStores, row.1 < n) ∧
      ∀ row ∈ (attachPromotionRelations p incoming t).promotionClubs, row.1 < n := by
  refine ⟨fun row hrow => ?_, fun row hrow => ?_, fun row hrow => ?_⟩
  · rcases Table.mem_insertNew hrow with hold | ⟨hnew, -⟩
    · exact hitems row hold
    · obtain ⟨_, -, r, hr, -, -, hrid, -⟩ := (mem_attached_items hkeyed).mp hnew
      rw [hrid]
      exact hids r hr
  · rcases Table.mem_insertNew hrow with hold | ⟨hnew, -⟩
    · exact hstores row hold
    · obtain ⟨_, -, r, hr, -, -, hrid, -⟩ := (mem_attached_stores hkeyed).mp hnew
      rw [hrid]
      exact hids r hr
  · rcases Table.mem_insertNew hrow with hold | ⟨hnew, -⟩
    · exact hclubs row hold
    · obtain ⟨_, -, r, hr, -, -, hrid, -⟩ := mem_attached_clubs.mp hnew
      rw [hrid]
      exact hids r hr

end Attach

end Makolet.Normalized
