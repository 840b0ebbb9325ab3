import Makolet.Normalized.Prices

/-!
# Applying store rosters and promotion files

`_apply_stores` replaces the roster of a portal; `_apply_promotions` keeps versions of promotions
in one table, where a version is closed when its fingerprint changes or a full snapshot of its
scope no longer lists it.
-/

set_option autoImplicit false

namespace Makolet.Normalized

open Makolet.Domain Makolet.Lib

/-! ## Store rosters -/

def StagedStore.key (r : StagedStore) : String × String :=
  (r.subchainId, r.sourceStoreId)

/-- `_STORE_INCOMING`: the row with the highest record index of each key. -/
def storeIncoming (s : Staging) : List StagedStore :=
  Table.distinctOn StagedStore.key
    (s.stores.insertionSort fun a b => b.recordIndex ≤ a.recordIndex)

def StoreRow.ofPortal (p : ApplyParameters) (r : StoreRow) : Bool :=
  decide (r.retailerId = p.retailerId ∧ r.portalId = p.portalId)

/-- The columns in which a roster row may differ from the stored store. -/
def StoreRow.sameAs (r : StoreRow) (b : StagedStore) : Bool :=
  decide (r.chainCode = b.chainId ∧ r.description = b.description ∧ r.isActive = true)

/-- The insert or update of `_apply_stores`. -/
def upsertStores (p : ApplyParameters) (s : Staging) (t : Tables) : Except Failure Tables := do
  let source := (storeIncoming s).zipIdx t.nextId
  let stores := Table.upsert StoreRow.key
    (fun b : StagedStore × Nat => (p.retailerId, p.portalId, b.1.subchainId, b.1.sourceStoreId))
    (fun b => ⟨b.2, p.retailerId, p.portalId, b.1.chainId, b.1.subchainId, b.1.sourceStoreId,
      b.1.description, true, p.appliedAt, p.appliedAt, p.sourceFileId⟩)
    (fun old b => { old with
      chainCode := b.1.chainId
      description := b.1.description
      isActive := true
      lastSeenAt := p.appliedAt
      lastSourceFileId := p.sourceFileId })
    t.stores source
  require (∀ r ∈ stores, r.TimeOrder) (constraintViolation "seen_time_order")
  pure { t with stores := stores, nextId := t.nextId + source.length }

/-- The alias rows of the stores of a roster. -/
def insertStoreAliases (p : ApplyParameters) (s : Staging) (t : Tables) : Tables :=
  let source := (storeIncoming s).flatMap fun b =>
    (t.stores.filter fun r =>
        decide (r.key = (p.retailerId, p.portalId, b.subchainId, b.sourceStoreId))).map fun r =>
      (⟨r.id, p.retailerId, p.portalId, b.sourceStoreId, p.appliedAt⟩ : StoreAlias)
  { t with storeAliases := Table.insertNew StoreAlias.key t.storeAliases source }

/-- The active stores of the portal that the roster does not list. -/
def StoreRow.isDropped (p : ApplyParameters) (s : Staging) (r : StoreRow) : Bool :=
  r.ofPortal p && r.isActive && (storeIncoming s).all fun b =>
    decide (b.key ≠ (r.subchainCode, r.sourceStoreCode))

def deactivateStores (p : ApplyParameters) (s : Staging) (t : Tables) : Tables :=
  { t with stores := t.stores.map fun r =>
      if r.isDropped p s then { r with isActive := false, lastSourceFileId := p.sourceFileId }
      else r }

/-- `_apply_stores`. -/
def applyStores (a : DocumentApply) (t : Tables) : Except Failure (Tables × ApplySummary) := do
  let p := a.parameters
  let incoming := storeIncoming a.staging
  let _ ← validateFullSnapshot a.policy incoming.length
    ((t.stores.filter fun r => r.ofPortal p && r.isActive).length) "store portal roster"
  let existing := fun b : StagedStore =>
    Table.lookup StoreRow.key t.stores (p.retailerId, p.portalId, b.subchainId, b.sourceStoreId)
  let inserted := (incoming.filter fun b => (existing b).isNone).length
  let unchanged := (incoming.filter fun b => (existing b).any fun r => r.sameAs b).length
  let t ← upsertStores p a.staging t
  let t := insertStoreAliases p a.staging t
  let dropped := (t.stores.filter (StoreRow.isDropped p a.staging)).length
  pure (deactivateStores p a.staging t,
    ⟨inserted, incoming.length - inserted - unchanged, unchanged, dropped, 0⟩)

/-! ## Promotions -/

def StagedPromotion.key (p : ApplyParameters) (r : StagedPromotion) : PromotionKey :=
  ⟨p.retailerId, p.portalId, r.subchainId, r.sourcePromotionId, r.sourceScopeStoreCode⟩

def StagedPromotion.scope (r : StagedPromotion) : String × String :=
  (r.subchainId, r.sourceScopeStoreCode)

def PromotionKey.scope (k : PromotionKey) : String × String :=
  (k.subchainCode, k.sourceScopeStoreCode)

/-- `_PROMOTION_INCOMING`: the row with the highest record index of each key. -/
def promotionIncoming (s : Staging) : List StagedPromotion :=
  Table.distinctOn
    (fun r : StagedPromotion => (r.subchainId, r.sourcePromotionId, r.sourceScopeStoreCode))
    (s.promotions.insertionSort fun a b => b.recordIndex ≤ a.recordIndex)

def Promotion.isOpen (r : Promotion) : Bool :=
  r.validTo.isNone

/-- The open version of a promotion. -/
def openPromotion (t : Tables) (k : PromotionKey) : Option Promotion :=
  t.promotions.find? fun r => decide (r.key = k) && r.isOpen

/-- The scopes of a full promotion file: those of its records and that of its header. -/
def promotionScopes (s : Staging) : List (String × String) :=
  ((promotionIncoming s).map StagedPromotion.scope ++
    s.documents.map fun d => (d.subchainId.getD "", d.storeId.getD "")).dedup

/-- `text or placeholder`. -/
def orText (text placeholder : String) : String :=
  if text = "" then placeholder else text

/-- `_validate_full_promotion_snapshot`. -/
def validateFullPromotionSnapshot (p : ApplyParameters) (policy : SnapshotPolicy) (s : Staging)
    (t : Tables) : Except Failure PUnit := do
  let incoming := promotionIncoming s
  let incomingCount := fun scope => (incoming.filter fun r => decide (r.scope = scope)).length
  let priorCount := fun scope => (t.promotions.filter fun r =>
    r.isOpen && decide (r.key.retailerId = p.retailerId ∧ r.key.portalId = p.portalId ∧
      r.key.scope = scope)).length
  require (policy.minimumFullRecords ≤ incoming.length)
    ⟨.snapshotValidation, "Full promotion snapshot has " ++ toString incoming.length ++
      " records; minimum is " ++ toString policy.minimumFullRecords, 0⟩
  (promotionScopes s).forM fun scope =>
    validateDrop policy (incomingCount scope) (priorCount scope)
      ("promotion scope " ++ orText scope.1 "<default>" ++ "/" ++ orText scope.2 "<all stores>")

/-- The item rows of `_ensure_promotion_items_and_stores`: an item that only a promotion names is
described by its code. -/
def ensurePromotionItems (p : ApplyParameters) (s : Staging) (t : Tables) :
    Except Failure Tables := do
  let codes := (s.promotions.flatMap fun r => r.items.map StagedPromotionItem.sourceItemCode).dedup
  let source := codes.zipIdx t.nextId
  let items := Table.upsert RetailerItem.key
    (fun b : String × Nat => (p.retailerId, p.portalId, b.1))
    (fun b => ⟨b.2, p.retailerId, p.portalId, b.1, none,
      ⟨none, b.1, none, none, none, none, none, none, none, none⟩,
      p.appliedAt, p.appliedAt, p.sourceFileId⟩)
    (fun old _ => { old with lastSeenAt := p.appliedAt, lastSourceFileId := p.sourceFileId })
    t.items source
  require (∀ r ∈ items, r.TimeOrder) (constraintViolation "seen_time_order")
  pure { t with items := items, nextId := t.nextId + source.length }

/-- The store rows of `_ensure_promotion_items_and_stores`. Its source is grouped by chain too, so
one store may be proposed twice, which the statement refuses. -/
def ensurePromotionStores (p : ApplyParameters) (s : Staging) (t : Tables) :
    Except Failure Tables := do
  let rows := (s.promotions.flatMap fun r =>
    r.stores.map fun store => (r.chainId, r.subchainId, store)).dedup
  let source := rows.zipIdx t.nextId
  require (Table.UniqueOn (fun b : (String × String × String) × Nat => b.1.2) source)
    (constraintViolation "ON CONFLICT DO UPDATE command cannot affect row a second time")
  let stores := Table.upsert StoreRow.key
    (fun b : (String × String × String) × Nat => (p.retailerId, p.portalId, b.1.2.1, b.1.2.2))
    (fun b => ⟨b.2, p.retailerId, p.portalId, b.1.1, b.1.2.1, b.1.2.2, placeholderStore b.1.2.2,
      true, p.appliedAt, p.appliedAt, p.sourceFileId⟩)
    (fun old _ => { old with
      isActive := true
      lastSeenAt := p.appliedAt
      lastSourceFileId := p.sourceFileId })
    t.stores source
  require (∀ r ∈ stores, r.TimeOrder) (constraintViolation "seen_time_order")
  pure { t with stores := stores, nextId := t.nextId + source.length }

/-- Check constraint `validity_order` of `promotions`. -/
def Promotion.ValidityOrder (r : Promotion) : Prop :=
  ∀ e ∈ r.validTo, r.validFrom < e

instance (r : Promotion) : Decidable r.ValidityOrder :=
  inferInstanceAs (Decidable (∀ e ∈ r.validTo, r.validFrom < e))

/-- Close the open versions whose incoming row has another fingerprint, and refresh those whose
fingerprint is the same. -/
def closeOrRefreshPromotions (p : ApplyParameters) (incoming : List StagedPromotion)
    (promotions : List Promotion) : Except Failure (List Promotion) := do
  let updated := promotions.map fun r =>
    if r.isOpen then
      match Table.lookup (StagedPromotion.key p) incoming r.key with
      | none => r
      | some b =>
        if r.fingerprint = b.fingerprint then
          { r with lastObservedAt := p.appliedAt, sourceFileId := p.sourceFileId }
        else { r with validTo := some p.appliedAt }
    else r
  require (∀ r ∈ updated, r.ValidityOrder) (constraintViolation "validity_order")
  pure updated

/-- Insert a version for each incoming row without an open version. -/
def insertPromotions (p : ApplyParameters) (incoming : List StagedPromotion) (t : Tables) :
    Except Failure Tables := do
  let source := (incoming.filter fun b => (openPromotion t (b.key p)).isNone).zipIdx t.nextId
  let promotions := t.promotions ++ source.map fun b =>
    ⟨b.2, b.1.key p, b.1.fingerprint, b.1.terms, p.sourceFileId, p.appliedAt, none, p.appliedAt⟩
  require (Table.UniqueOn Promotion.key (promotions.filter Promotion.isOpen))
    (constraintViolation "uq_promotions_open")
  pure { t with promotions := promotions, nextId := t.nextId + source.length }

/-- `_attach_promotion_relations`. -/
def attachPromotionRelations (p : ApplyParameters) (incoming : List StagedPromotion) (t : Tables) :
    Tables :=
  let openOf := fun b : StagedPromotion =>
    t.promotions.filter fun r => decide (r.key = b.key p) && r.isOpen
  { t with
    promotionItems := Table.insertNew (fun r : PromotionItem => (r.promotionId, r.itemId))
      t.promotionItems (incoming.flatMap fun b => b.items.flatMap fun child =>
        (openOf b).flatMap fun r => (t.items.filter fun i =>
            decide (i.key = (p.retailerId, p.portalId, child.sourceItemCode))).map fun i =>
          ⟨r.id, i.id, child.itemType, child.isGift⟩)
    promotionStores := Table.insertNew id t.promotionStores
      (incoming.flatMap fun b => b.stores.flatMap fun code => (openOf b).flatMap fun r =>
        (t.stores.filter fun store =>
            decide (store.key = (p.retailerId, p.portalId, b.subchainId, code))).map fun store =>
          (r.id, store.id))
    promotionClubs := Table.insertNew id t.promotionClubs
      (incoming.flatMap fun b => b.clubs.flatMap fun club => (openOf b).map fun r =>
        (r.id, club)) }

/-- An open version of a reconciled scope that the file does not list. -/
def Promotion.isAbsent (p : ApplyParameters) (s : Staging) (r : Promotion) : Bool :=
  r.isOpen && decide (r.key.retailerId = p.retailerId ∧ r.key.portalId = p.portalId) &&
    decide (r.key.scope ∈ promotionScopes s) &&
    (promotionIncoming s).all fun b => decide (b.key p ≠ r.key)

/-- The absence update of `_apply_promotions`. -/
def closeAbsentPromotions (p : ApplyParameters) (s : Staging) (t : Tables) :
    Except Failure (Tables × Nat) := do
  let promotions := t.promotions.map fun r =>
    if r.isAbsent p s then
      { r with
        validTo := some p.appliedAt
        lastObservedAt := p.appliedAt
        sourceFileId := p.sourceFileId }
    else r
  require (∀ r ∈ promotions, r.ValidityOrder) (constraintViolation "validity_order")
  pure ({ t with promotions := promotions },
    (t.promotions.filter (Promotion.isAbsent p s)).length)

/-- `_apply_promotions`. -/
def applyPromotions (a : DocumentApply) (t : Tables) : Except Failure (Tables × ApplySummary) := do
  let p := a.parameters
  let incoming := promotionIncoming a.staging
  let _ ← (if a.isFull then validateFullPromotionSnapshot p a.policy a.staging t else pure ⟨⟩)
  let t ← ensurePromotionItems p a.staging t
  let t ← ensurePromotionStores p a.staging t
  let inserted := (incoming.filter fun b => (openPromotion t (b.key p)).isNone).length
  let unchanged := (incoming.filter fun b => (openPromotion t (b.key p)).any fun r =>
    decide (r.fingerprint = b.fingerprint)).length
  let updated := incoming.length - inserted - unchanged
  let promotions ← closeOrRefreshPromotions p incoming t.promotions
  let t ← insertPromotions p incoming { t with promotions := promotions }
  let t := attachPromotionRelations p incoming t
  let absent ← (if a.isFull then closeAbsentPromotions p a.staging t else pure (t, 0))
  pure (absent.1, ⟨inserted, updated, unchanged, absent.2, inserted + updated + absent.2⟩)

/-! ## What each apply may write -/

theorem upsertStores_frame {p : ApplyParameters} {s : Staging} {t t' : Tables}
    (h : upsertStores p s t = .ok t') :
    t' = { t with stores := t'.stores, nextId := t'.nextId } := by
  obtain ⟨-, h⟩ := require_bind_eq_ok.mp h
  rw [pure_eq_ok] at h
  subst h
  rfl

theorem applyStores_eq_ok {a : DocumentApply} {t t' : Tables} {summary : ApplySummary}
    (h : applyStores a t = .ok (t', summary)) :
    ∃ t₁, upsertStores a.parameters a.staging t = .ok t₁ ∧
      t' = deactivateStores a.parameters a.staging
        (insertStoreAliases a.parameters a.staging t₁) := by
  obtain ⟨-, -, h⟩ := bind_eq_ok.mp h
  obtain ⟨t₁, h₁, h⟩ := bind_eq_ok.mp h
  rw [pure_eq_ok] at h
  cases h
  exact ⟨t₁, h₁, rfl⟩

theorem applyStores_frame {a : DocumentApply} {t t' : Tables} {summary : ApplySummary}
    (h : applyStores a t = .ok (t', summary)) :
    t' = { t with
      stores := t'.stores, storeAliases := t'.storeAliases, nextId := t'.nextId } := by
  obtain ⟨t₁, h₁, rfl⟩ := applyStores_eq_ok h
  rw [upsertStores_frame h₁]
  rfl

theorem ensurePromotionItems_frame {p : ApplyParameters} {s : Staging} {t t' : Tables}
    (h : ensurePromotionItems p s t = .ok t') :
    t' = { t with items := t'.items, nextId := t'.nextId } := by
  obtain ⟨-, h⟩ := require_bind_eq_ok.mp h
  rw [pure_eq_ok] at h
  subst h
  rfl

theorem ensurePromotionStores_frame {p : ApplyParameters} {s : Staging} {t t' : Tables}
    (h : ensurePromotionStores p s t = .ok t') :
    t' = { t with stores := t'.stores, nextId := t'.nextId } := by
  obtain ⟨-, h⟩ := require_bind_eq_ok.mp h
  obtain ⟨-, h⟩ := require_bind_eq_ok.mp h
  rw [pure_eq_ok] at h
  subst h
  rfl

theorem insertPromotions_eq_ok {p : ApplyParameters} {incoming : List StagedPromotion}
    {t t' : Tables} (h : insertPromotions p incoming t = .ok t') :
    (∀ r ∈ t'.promotions, r ∈ t.promotions ∨ ∃ b ∈ incoming, r.key = b.key p) ∧
      t' = { t with promotions := t'.promotions, nextId := t'.nextId } := by
  obtain ⟨-, h⟩ := require_bind_eq_ok.mp h
  rw [pure_eq_ok] at h
  subst h
  refine ⟨fun r hr => ?_, rfl⟩
  rcases List.mem_append.mp hr with hold | hnew
  · exact .inl hold
  · obtain ⟨⟨b, n⟩, hb, rfl⟩ := List.mem_map.mp hnew
    exact .inr ⟨b, (List.mem_filter.mp (List.fst_mem_of_mem_zipIdx hb)).1, rfl⟩

/-- The statements of an accepted promotion apply, with the tables between them. -/
theorem applyPromotions_eq_ok {a : DocumentApply} {t t' : Tables} {summary : ApplySummary}
    (h : applyPromotions a t = .ok (t', summary)) :
    ∃ t₁ t₂ t₃ promotions,
      ensurePromotionItems a.parameters a.staging t = .ok t₁ ∧
      ensurePromotionStores a.parameters a.staging t₁ = .ok t₂ ∧
      closeOrRefreshPromotions a.parameters (promotionIncoming a.staging) t₂.promotions =
        .ok promotions ∧
      insertPromotions a.parameters (promotionIncoming a.staging)
        { t₂ with promotions := promotions } = .ok t₃ ∧
      ((a.isFull = false ∧
          t' = attachPromotionRelations a.parameters (promotionIncoming a.staging) t₃) ∨
        (a.isFull = true ∧ ∃ n, closeAbsentPromotions a.parameters a.staging
          (attachPromotionRelations a.parameters (promotionIncoming a.staging) t₃) =
            .ok (t', n))) := by
  obtain ⟨-, -, h⟩ := bind_eq_ok.mp h
  obtain ⟨t₁, h₁, h⟩ := bind_eq_ok.mp h
  obtain ⟨t₂, h₂, h⟩ := bind_eq_ok.mp h
  obtain ⟨promotions, hp, h⟩ := bind_eq_ok.mp h
  obtain ⟨t₃, h₃, h⟩ := bind_eq_ok.mp h
  obtain ⟨absent, habsent, h⟩ := bind_eq_ok.mp h
  rw [pure_eq_ok] at h
  cases h
  refine ⟨t₁, t₂, t₃, promotions, h₁, h₂, hp, h₃, ?_⟩
  cases hfull : a.isFull with
  | false =>
    rw [hfull, if_neg Bool.false_ne_true, pure_eq_ok] at habsent
    exact .inl ⟨rfl, by rw [← habsent]⟩
  | true =>
    rw [hfull, if_pos rfl] at habsent
    exact .inr ⟨rfl, absent.2, habsent⟩

theorem closeAbsentPromotions_eq_ok {p : ApplyParameters} {s : Staging} {t t' : Tables} {n : Nat}
    (h : closeAbsentPromotions p s t = .ok (t', n)) :
    (∀ r ∈ t'.promotions, r.isOpen = true → r ∈ t.promotions) ∧
      t' = { t with promotions := t'.promotions } := by
  obtain ⟨-, h⟩ := require_bind_eq_ok.mp h
  rw [pure_eq_ok] at h
  cases h
  refine ⟨fun r hr hopen => ?_, rfl⟩
  obtain ⟨q, hq, rfl⟩ := List.mem_map.mp hr
  by_cases habsent : q.isAbsent p s
  · rw [if_pos habsent] at hopen
    cases hopen
  · rw [if_neg habsent]
    exact hq

theorem applyPromotions_frame {a : DocumentApply} {t t' : Tables} {summary : ApplySummary}
    (h : applyPromotions a t = .ok (t', summary)) :
    t' = { t with
      stores := t'.stores
      items := t'.items
      promotions := t'.promotions
      promotionItems := t'.promotionItems
      promotionStores := t'.promotionStores
      promotionClubs := t'.promotionClubs
      nextId := t'.nextId } := by
  obtain ⟨t₁, t₂, t₃, promotions, h₁, h₂, -, h₃, hend⟩ := applyPromotions_eq_ok h
  have hbody : attachPromotionRelations a.parameters (promotionIncoming a.staging) t₃ = { t with
      stores := t₃.stores
      items := t₃.items
      promotions := t₃.promotions
      promotionItems := (attachPromotionRelations a.parameters
        (promotionIncoming a.staging) t₃).promotionItems
      promotionStores := (attachPromotionRelations a.parameters
        (promotionIncoming a.staging) t₃).promotionStores
      promotionClubs := (attachPromotionRelations a.parameters
        (promotionIncoming a.staging) t₃).promotionClubs
      nextId := t₃.nextId } := by
    rw [(insertPromotions_eq_ok h₃).2, ensurePromotionStores_frame h₂,
      ensurePromotionItems_frame h₁]
    rfl
  rcases hend with ⟨-, rfl⟩ | ⟨-, n, hn⟩
  · rw [hbody]
  · rw [(closeAbsentPromotions_eq_ok hn).2, hbody]

end Makolet.Normalized
