import Makolet.Domain.Enums
import Makolet.Lib.Table

/-!
# Normalized tables and staging

The rows that one `apply` transaction reads and writes, after `adapters/persistence/schema.py`.
Surrogate `uuidv7()` keys are naturals drawn from the counter `Tables.nextId` where another
table refers to them (stores, retailer items, canonical products, promotions); a surrogate key that
nothing refers to is left out, and `current.id IS NULL` of an outer join is then the absence of a
row. Numeric columns are naturals in their smallest unit, which is what their non-negativity checks
leave.
-/

set_option autoImplicit false

namespace Makolet.Normalized

open Makolet.Domain

abbrev FileId := Nat

abbrev RetailerId := Nat

abbrev PortalId := Nat

abbrev ItemId := Nat

abbrev StoreId := Nat

abbrev ProductId := Nat

abbrev PromotionId := Nat

/-! ## Staged rows -/

/-- `staged_documents`: the header of a parsed document. -/
structure StagedDocument where
  subchainId : Option String
  storeId : Option String
  sourceUpdatedAt : Option Time
  deriving DecidableEq, Repr

/-- The descriptive columns a price record gives its retailer item. -/
structure ItemDescription where
  itemType : Option Int
  itemName : String
  manufacturerName : Option String
  manufacturerCountry : Option String
  manufacturerDescription : Option String
  unitQuantity : Option String
  quantity : Option Nat
  unitOfMeasure : Option String
  isWeighted : Option Bool
  quantityInPackage : Option Nat
  deriving DecidableEq, Repr

/-- The price columns that an apply compares. -/
structure PriceValue where
  itemPrice : Nat
  unitOfMeasurePrice : Option Nat
  allowDiscount : Option Bool
  deriving DecidableEq, Repr

/-- The price columns that are stored without being compared. -/
structure PriceDetails where
  sourceUpdatedAt : Option Time
  lastSaleAt : Option Time
  auditNumber : Option String
  deriving DecidableEq, Repr

/-- `staged_prices`. -/
structure StagedPrice where
  recordIndex : Nat
  chainId : String
  subchainId : String
  sourceStoreId : String
  sourceItemCode : String
  gtin : Option String
  description : ItemDescription
  value : PriceValue
  itemStatus : Option Int
  details : PriceDetails
  deriving DecidableEq, Repr

/-- The columns a store record gives its store. -/
structure StoreDescription where
  auditNumber : Option String
  storeType : Option String
  chainName : Option String
  subchainName : Option String
  name : String
  address : Option String
  city : Option String
  postalCode : Option String
  deriving DecidableEq, Repr

/-- `staged_stores`. -/
structure StagedStore where
  recordIndex : Nat
  chainId : String
  subchainId : String
  sourceStoreId : String
  description : StoreDescription
  deriving DecidableEq, Repr

inductive DiscountKind
  | fixedPrice
  | percentage
  | amount
  | quantity
  | secondItem
  | mixAndMatch
  | conditional
  | unknown
  deriving DecidableEq, Repr

/-- The columns a promotion record gives its promotion version. None of them is compared: two
versions differ when their fingerprints do. -/
structure PromotionTerms where
  description : Option String
  discountKind : DiscountKind
  startsAt : Option Time
  endsAt : Option Time
  rewardType : Option Int
  allowsMultipleDiscounts : Option Bool
  minimumQuantity : Option Nat
  maximumQuantity : Option Nat
  discountRate : Option Nat
  minimumPurchase : Option Nat
  discountedPrice : Option Nat
  discountedUnitPrice : Option Nat
  minimumItemsOffered : Option Nat
  additionalRestrictions : Option String
  remarks : Option String
  isActive : Option Bool
  deriving DecidableEq, Repr

/-- A row of `staged_promotion_items`. -/
structure StagedPromotionItem where
  sourceItemCode : String
  itemType : Option Int
  isGift : Bool
  deriving DecidableEq, Repr

/-- `staged_promotions` with its child rows. -/
structure StagedPromotion where
  recordIndex : Nat
  chainId : String
  subchainId : String
  sourcePromotionId : String
  sourceScopeStoreCode : String
  fingerprint : String
  terms : PromotionTerms
  items : List StagedPromotionItem
  stores : List String
  clubs : List String
  deriving DecidableEq, Repr

/-- Everything staged for one source file. -/
structure Staging where
  documents : List StagedDocument
  stores : List StagedStore
  prices : List StagedPrice
  promotions : List StagedPromotion
  deriving DecidableEq, Repr

def Staging.empty : Staging := ⟨[], [], [], []⟩

/-! ## Identity tables -/

/-- `stores`. -/
structure StoreRow where
  id : StoreId
  retailerId : RetailerId
  portalId : PortalId
  chainCode : String
  subchainCode : String
  sourceStoreCode : String
  description : StoreDescription
  isActive : Bool
  firstSeenAt : Time
  lastSeenAt : Time
  lastSourceFileId : FileId
  deriving DecidableEq, Repr

/-- The unique key `(retailer_id, portal_id, subchain_code, source_store_code)`. -/
def StoreRow.key (r : StoreRow) : RetailerId × PortalId × String × String :=
  (r.retailerId, r.portalId, r.subchainCode, r.sourceStoreCode)

/-- `store_aliases`, whose only kind is the source store code. -/
structure StoreAlias where
  storeId : StoreId
  retailerId : RetailerId
  portalId : PortalId
  aliasValue : String
  createdAt : Time
  deriving DecidableEq, Repr

def StoreAlias.key (a : StoreAlias) : RetailerId × PortalId × String :=
  (a.retailerId, a.portalId, a.aliasValue)

/-- `retailer_items`. -/
structure RetailerItem where
  id : ItemId
  retailerId : RetailerId
  portalId : PortalId
  sourceItemCode : String
  gtin : Option String
  description : ItemDescription
  firstSeenAt : Time
  lastSeenAt : Time
  lastSourceFileId : FileId
  deriving DecidableEq, Repr

/-- The unique key `(retailer_id, portal_id, source_item_code)`. -/
def RetailerItem.key (r : RetailerItem) : RetailerId × PortalId × String :=
  (r.retailerId, r.portalId, r.sourceItemCode)

/-! ## Observations -/

/-- The key of the current and history tables. -/
structure Key where
  itemId : ItemId
  storeId : StoreId
  deriving DecidableEq, Repr

/-- A row of `current_prices` or `current_availability`. -/
structure Current (ν π : Type) where
  key : Key
  value : ν
  details : π
  sourceFileId : FileId
  firstObservedAt : Time
  lastObservedAt : Time
  deriving DecidableEq, Repr

/-- A row of `price_history` or `availability_history`. -/
structure History (ν π : Type) where
  key : Key
  value : ν
  details : π
  sourceFileId : FileId
  validFrom : Time
  validTo : Option Time
  deriving DecidableEq, Repr

/-- A current table and its history table. -/
structure Observations (ν π : Type) where
  current : List (Current ν π)
  history : List (History ν π)
  deriving DecidableEq, Repr

/-- The availability columns, both of which an apply compares. -/
structure AvailabilityValue where
  isAvailable : Bool
  itemStatus : Option Int
  deriving DecidableEq, Repr

/-! ## Promotions -/

/-- `promotions`: the key, the version and its validity. -/
structure PromotionKey where
  retailerId : RetailerId
  portalId : PortalId
  subchainCode : String
  sourcePromotionId : String
  sourceScopeStoreCode : String
  deriving DecidableEq, Repr

structure Promotion where
  id : PromotionId
  key : PromotionKey
  fingerprint : String
  terms : PromotionTerms
  sourceFileId : FileId
  validFrom : Time
  validTo : Option Time
  lastObservedAt : Time
  deriving DecidableEq, Repr

/-- `promotion_items`. -/
structure PromotionItem where
  promotionId : PromotionId
  itemId : ItemId
  itemType : Option Int
  isGift : Bool
  deriving DecidableEq, Repr

/-! ## Identifiers and matches -/

/-- `retailer_identifier_assertions`; the value is stored normalized. -/
structure Assertion where
  itemId : ItemId
  kind : IdentifierKind
  value : String
  sourceFileId : FileId
  assertedAt : Time
  supersededAt : Option Time
  deriving DecidableEq, Repr

/-- The unique key `(retailer_item_id, kind, source_file_id)`. -/
def Assertion.key (a : Assertion) : ItemId × IdentifierKind × FileId :=
  (a.itemId, a.kind, a.sourceFileId)

def Assertion.isLive (a : Assertion) : Bool :=
  a.supersededAt.isNone

/-- `identifier_match_groups`. -/
structure MatchGroup where
  kind : IdentifierKind
  value : String
  productId : ProductId
  deriving DecidableEq, Repr

def MatchGroup.key (g : MatchGroup) : IdentifierKind × String :=
  (g.kind, g.value)

/-- `canonical_products`. -/
structure CanonicalProduct where
  id : ProductId
  name : String
  brand : Option String
  quantity : Option Nat
  unitOfMeasure : Option String
  createdAt : Time
  deriving DecidableEq, Repr

/-- Validation methods of a product identifier. `foreign` is any method that this code neither
writes nor reads, under its own text. -/
inductive ValidationMethod
  | retailerAssertion
  | independentRetailerCorroboration
  | operatorReview
  | isolatedRetailerItem
  | foreign (name : String)
  deriving DecidableEq, Repr

/-- `product_identifiers`. A global identifier has no issuer. -/
structure ProductIdentifier where
  productId : ProductId
  kind : IdentifierKind
  value : String
  issuer : Option (RetailerId × PortalId)
  isValidated : Bool
  validationMethod : ValidationMethod
  evidenceFileId : Option FileId
  evidenceRetailerCount : Option Nat
  createdAt : Time
  deriving DecidableEq, Repr

/-- The unique key `(kind, normalized_value, issuer_retailer_id, issuer_portal_id)`, nulls equal. -/
def ProductIdentifier.key (i : ProductIdentifier) :
    IdentifierKind × String × Option (RetailerId × PortalId) :=
  (i.kind, i.value, i.issuer)

/-- Methods of a confirmed match. -/
inductive MatchMethod
  | exactGtin
  | exactProvisionalGtin
  | exactValidatedGtin
  | isolatedRetailerItem
  | manualReview
  deriving DecidableEq, Repr

/-- The evidence object of an automatic match. -/
structure MatchEvidence where
  gtin : String
  retailerId : RetailerId
  sourceFileId : FileId
  validation : Option ValidationMethod
  deriving DecidableEq, Repr

/-- `confirmed_product_matches`, at most one row an item. -/
structure ConfirmedMatch where
  itemId : ItemId
  productId : ProductId
  method : MatchMethod
  evidence : Option MatchEvidence
  confirmedAt : Time
  confirmedBy : String
  deriving DecidableEq, Repr

/-- Why the exact matcher asks for a review. -/
inductive ConflictReason
  | manualMatchDisagrees
  | retailerScopeDisagrees
  | validatedGlobalDisagrees
  deriving DecidableEq, Repr

/-- `product_match_candidates` of the method `exact_identifier_conflict`. -/
structure MatchCandidate where
  itemId : ItemId
  productId : ProductId
  gtin : String
  reason : ConflictReason
  sourceFileId : FileId
  createdAt : Time
  deriving DecidableEq, Repr

def MatchCandidate.key (c : MatchCandidate) : ItemId × ProductId :=
  (c.itemId, c.productId)

/-! ## Ordering -/

inductive DocumentFamily
  | stores
  | prices
  | promotions
  deriving DecidableEq, Repr

/-- A scope of one file: its subchain and its source scope code. -/
structure Scope where
  subchainCode : String
  sourceScopeCode : String
  deriving DecidableEq, Repr

/-- The key of `source_scope_watermarks`. -/
structure WatermarkKey where
  retailerId : RetailerId
  portalId : PortalId
  family : DocumentFamily
  scope : Scope
  deriving DecidableEq, Repr

/-- `source_scope_watermarks`. -/
structure Watermark where
  key : WatermarkKey
  effectiveSourceTimestamp : Time
  sourceContentSha256 : String
  sourceFileId : FileId
  deriving DecidableEq, Repr

/-- `applied_source_contents`, at most one row a file. -/
structure AppliedContent where
  sourceFileId : FileId
  retailerId : RetailerId
  portalId : PortalId
  documentType : DocumentType
  contentSha256 : String
  appliedAt : Time
  deriving DecidableEq, Repr

/-! ## The whole normalized state -/

structure Tables where
  stores : List StoreRow
  storeAliases : List StoreAlias
  items : List RetailerItem
  prices : Observations PriceValue PriceDetails
  availability : Observations AvailabilityValue Unit
  promotions : List Promotion
  promotionItems : List PromotionItem
  promotionStores : List (PromotionId × StoreId)
  promotionClubs : List (PromotionId × String)
  assertions : List Assertion
  matchGroups : List MatchGroup
  products : List CanonicalProduct
  identifiers : List ProductIdentifier
  confirmedMatches : List ConfirmedMatch
  candidates : List MatchCandidate
  watermarks : List Watermark
  appliedContents : List AppliedContent
  nextId : Nat
  deriving DecidableEq, Repr

def Tables.empty : Tables where
  stores := []
  storeAliases := []
  items := []
  prices := ⟨[], []⟩
  availability := ⟨[], []⟩
  promotions := []
  promotionItems := []
  promotionStores := []
  promotionClubs := []
  assertions := []
  matchGroups := []
  products := []
  identifiers := []
  confirmedMatches := []
  candidates := []
  watermarks := []
  appliedContents := []
  nextId := 0

end Makolet.Normalized
