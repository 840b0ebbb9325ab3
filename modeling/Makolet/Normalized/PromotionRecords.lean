import Makolet.Normalized.Promotions
import Mathlib.Data.Multiset.Basic
import Mathlib.Data.Multiset.UnionInter
import Mathlib.Algebra.Group.Nat.Defs

/-!
# Promotion records and their fingerprints

A parsed promotion is staged in two forms: its columns, with decimals rounded to the scale of the
column, and `_promotion_fingerprint`, a digest of the record as it was written. The JSON text that
is digested is kept as the payload it renders.
-/

set_option autoImplicit false

namespace Makolet.Normalized

open Makolet.Domain Makolet.Lib

/-- A finite, non-negative `decimal.Decimal`. Its sign can only be that of a zero, and `str` writes
the sign, the digits and the exponent. -/
structure Decimal where
  negative : Bool
  coefficient : Nat
  exponent : Int
  deriving DecidableEq, Repr

/-- The value in units of `10 ^ -scale`, rounded half up as a numeric column rounds it. -/
def Decimal.units (scale : Nat) (d : Decimal) : Nat :=
  -- The sign is dropped: `-0` is stored as zero.
  let shift := d.exponent + scale
  if 0 ≤ shift then d.coefficient * 10 ^ shift.toNat
  else (2 * d.coefficient + 10 ^ (-shift).toNat) / (2 * 10 ^ (-shift).toNat)

/-- Scale of `MONEY`. -/
def moneyScale : Nat := 4

/-- Scale of `QUANTITY`. -/
def quantityScale : Nat := 6

/-- Scale of `discount_rate`. -/
def rateScale : Nat := 6

/-- `PromotionRecord`. The parser keeps the first of several children with one identifier. -/
structure PromotionRecord where
  recordIndex : Nat
  chainId : String
  subchainId : String
  sourceStoreId : Option String
  promotionId : String
  description : Option String
  discountKind : DiscountKind
  startsAt : Option Time
  endsAt : Option Time
  items : List StagedPromotionItem
  storeIds : List String
  clubIds : List String
  rewardType : Option Int
  allowsMultipleDiscounts : Option Bool
  minimumQuantity : Option Decimal
  maximumQuantity : Option Decimal
  discountRate : Option Decimal
  minimumPurchase : Option Decimal
  discountedPrice : Option Decimal
  discountedUnitPrice : Option Decimal
  minimumItemsOffered : Option Nat
  additionalRestrictions : Option String
  remarks : Option String
  isActive : Option Bool
  distinctItems : (items.map StagedPromotionItem.sourceItemCode).Nodup
  distinctStores : storeIds.Nodup
  distinctClubs : clubIds.Nodup

/-- The object that `_promotion_fingerprint` renders as JSON. Sorting leaves of a child collection
what a multiset keeps of it. -/
structure FingerprintPayload where
  description : Option String
  discountKind : DiscountKind
  startsAt : Option Time
  endsAt : Option Time
  items : Multiset StagedPromotionItem
  stores : Multiset String
  clubs : Multiset String
  rewardType : Option Int
  allowsMultipleDiscounts : Option Bool
  minimumQuantity : Option Decimal
  maximumQuantity : Option Decimal
  discountRate : Option Decimal
  minimumPurchase : Option Decimal
  discountedPrice : Option Decimal
  discountedUnitPrice : Option Decimal
  minimumItemsOffered : Option Nat
  additionalRestrictions : Option String
  remarks : Option String
  isActive : Option Bool
  deriving DecidableEq

namespace PromotionRecord

variable (e : PromotionRecord)

/-- `payload` of `_promotion_fingerprint`. -/
def payload : FingerprintPayload where
  description := e.description
  discountKind := e.discountKind
  startsAt := e.startsAt
  endsAt := e.endsAt
  items := e.items
  -- The listed stores, without the one that scopes the file.
  stores := e.storeIds
  clubs := e.clubIds
  rewardType := e.rewardType
  allowsMultipleDiscounts := e.allowsMultipleDiscounts
  minimumQuantity := e.minimumQuantity
  maximumQuantity := e.maximumQuantity
  discountRate := e.discountRate
  minimumPurchase := e.minimumPurchase
  discountedPrice := e.discountedPrice
  discountedUnitPrice := e.discountedUnitPrice
  minimumItemsOffered := e.minimumItemsOffered
  additionalRestrictions := e.additionalRestrictions
  remarks := e.remarks
  isActive := e.isActive

/-- `source_store_id or ""`. -/
def scopeStore : String :=
  e.sourceStoreId.getD ""

/-- `effective_promotion_store_ids`. -/
def effectiveStoreIds : List String :=
  Table.distinctOn id (e.storeIds ++ if e.scopeStore = "" then [] else [e.scopeStore])

/-- The columns of the version. -/
def terms : PromotionTerms where
  description := e.description
  discountKind := e.discountKind
  startsAt := e.startsAt
  endsAt := e.endsAt
  rewardType := e.rewardType
  allowsMultipleDiscounts := e.allowsMultipleDiscounts
  minimumQuantity := e.minimumQuantity.map (Decimal.units quantityScale)
  maximumQuantity := e.maximumQuantity.map (Decimal.units quantityScale)
  discountRate := e.discountRate.map (Decimal.units rateScale)
  minimumPurchase := e.minimumPurchase.map (Decimal.units moneyScale)
  discountedPrice := e.discountedPrice.map (Decimal.units moneyScale)
  discountedUnitPrice := e.discountedUnitPrice.map (Decimal.units moneyScale)
  minimumItemsOffered := e.minimumItemsOffered
  additionalRestrictions := e.additionalRestrictions
  remarks := e.remarks
  isActive := e.isActive

/-- The staged row with its child rows; `digest` is SHA-256 of the rendered payload. -/
def staged (digest : FingerprintPayload → String) : StagedPromotion where
  recordIndex := e.recordIndex
  chainId := e.chainId
  subchainId := e.subchainId
  sourcePromotionId := e.promotionId
  sourceScopeStoreCode := e.scopeStore
  fingerprint := digest e.payload
  terms := e.terms
  items := e.items
  stores := e.effectiveStoreIds
  clubs := e.clubIds

/-- The decimals of the record, as they were written. -/
def decimals : List (Option Decimal) :=
  [e.minimumQuantity, e.maximumQuantity, e.discountRate, e.minimumPurchase, e.discountedPrice,
    e.discountedUnitPrice]

theorem mem_effectiveStoreIds {code : String} :
    code ∈ e.effectiveStoreIds ↔
      code ∈ e.storeIds ∨ e.scopeStore ≠ "" ∧ code = e.scopeStore := by
  have hmem : code ∈ e.effectiveStoreIds ↔
      code ∈ e.storeIds ++ if e.scopeStore = "" then [] else [e.scopeStore] := by
    constructor
    · exact Table.mem_of_mem_distinctOn
    · intro h
      obtain ⟨s, hs, rfl⟩ := @Table.exists_mem_distinctOn _ _ _ id _ _ h
      exact hs
  rw [hmem, List.mem_append]
  by_cases hscope : e.scopeStore = ""
  · simp [hscope]
  · simp [hscope]

end PromotionRecord

/-- Two records of one promotion write their decimals with the same digits and scale, and list the
same stores besides the one that scopes the file. -/
structure WrittenAlike (a b : PromotionRecord) : Prop where
  decimals : a.decimals = b.decimals
  stores : ∀ code, code ∈ a.storeIds ↔ code ∈ b.storeIds

/-- The two records say the same: equal columns after rounding, and equal sets of children. -/
structure SameContent (a b : StagedPromotion) : Prop where
  terms : a.terms = b.terms
  items : ∀ child, child ∈ a.items ↔ child ∈ b.items
  stores : ∀ code, code ∈ a.stores ↔ code ∈ b.stores
  clubs : ∀ club, club ∈ a.clubs ↔ club ∈ b.clubs

section Payloads

variable {digest : FingerprintPayload → String} {a b : PromotionRecord}

/-- Equal payloads of one scope are equal content. -/
theorem sameContent_of_payload (hpayload : a.payload = b.payload)
    (hscope : a.scopeStore = b.scopeStore) :
    SameContent (a.staged digest) (b.staged digest) := by
  simp only [PromotionRecord.payload, FingerprintPayload.mk.injEq, Multiset.coe_eq_coe] at hpayload
  obtain ⟨h₁, h₂, h₃, h₄, hitems, hstores, hclubs, h₅, h₆, h₇, h₈, h₉, h₁₀, h₁₁, h₁₂, h₁₃, h₁₄, h₁₅,
    h₁₆⟩ := hpayload
  refine ⟨?_, fun _ => hitems.mem_iff, fun code => ?_, fun _ => hclubs.mem_iff⟩
  · show a.terms = b.terms
    rw [PromotionRecord.terms, PromotionRecord.terms, h₁, h₂, h₃, h₄, h₅, h₆, h₇, h₈, h₉, h₁₀, h₁₁,
      h₁₂, h₁₃, h₁₄, h₁₅, h₁₆]
  · show code ∈ a.effectiveStoreIds ↔ code ∈ b.effectiveStoreIds
    rw [a.mem_effectiveStoreIds, b.mem_effectiveStoreIds, hstores.mem_iff, hscope]

/-- Of two records with equal content, the payloads are equal when they are written alike. -/
theorem payload_eq_iff (hsame : SameContent (a.staged digest) (b.staged digest)) :
    a.payload = b.payload ↔ WrittenAlike a b := by
  have hitems : a.items.Perm b.items :=
    (List.perm_ext_iff_of_nodup a.distinctItems.of_map b.distinctItems.of_map).mpr hsame.items
  have hclubs : a.clubIds.Perm b.clubIds :=
    (List.perm_ext_iff_of_nodup a.distinctClubs b.distinctClubs).mpr hsame.clubs
  have hterms : a.terms = b.terms := hsame.terms
  simp only [PromotionRecord.terms, PromotionTerms.mk.injEq] at hterms
  constructor
  · intro hpayload
    simp only [PromotionRecord.payload, FingerprintPayload.mk.injEq, Multiset.coe_eq_coe]
      at hpayload
    refine ⟨?_, fun code => hpayload.2.2.2.2.2.1.mem_iff⟩
    simp only [PromotionRecord.decimals, hpayload]
  · -- Children are listed without repetition, so equal sets of them are sorted to equal lists.
    rintro ⟨hdecimals, hcodes⟩
    have hstores : a.storeIds.Perm b.storeIds :=
      (List.perm_ext_iff_of_nodup a.distinctStores b.distinctStores).mpr hcodes
    simp only [PromotionRecord.decimals, List.cons.injEq, and_true] at hdecimals
    simp only [PromotionRecord.payload, FingerprintPayload.mk.injEq, Multiset.coe_eq_coe]
    simp only [hterms, hdecimals, hitems, hstores, hclubs, and_self]

end Payloads

end Makolet.Normalized
