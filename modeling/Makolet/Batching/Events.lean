import Mathlib.Algebra.GroupWithZero.Nat
import Makolet.Domain.Identifiers
import Makolet.Normalized.PromotionRecords
import Makolet.Parsing.Stage

/-!
# Parsed events, their staging units and their memory charge

The records of `domain/models.py` that a parser yields, with every field that `_stage_memory_charge`
and `_event_rows` read. Both walk over Python objects, so a record is also given as the `Value`s of
its fields, in the order of the dataclass.
-/

set_option autoImplicit false

namespace Makolet.Batching

open Makolet.Domain
open Makolet.Lib (Table.distinctOn)
open Makolet.Normalized (Decimal DiscountKind FileId)
open Makolet.Parsing (ValidationIssue)

/-! ## Values -/

/-- The Python objects that the fields of an event and the columns of a staged row hold. -/
inductive Value
  | none
  | uuid (id : FileId)
  | datetime (time : Time)
  | bool (b : Bool)
  | int (i : Int)
  | decimal (d : Decimal)
  | text (s : String)
  | tuple (items : List Value)
  | record (fields : List Value)

namespace Value

def optional {α : Type} (value : α → Value) : Option α → Value
  | Option.none => Value.none
  | some a => value a

def natural (n : Nat) : Value := int n

end Value

/-- `_STAGE_CONTAINER_OVERHEAD_BYTES`. -/
def stageContainerOverheadBytes : Nat := 256

/-- `_STAGE_SCALAR_OVERHEAD_BYTES`. -/
def stageScalarOverheadBytes : Nat := 128

/-- `_STAGE_PERSISTENCE_ROW_OVERHEAD_BYTES`. -/
def stagePersistenceRowOverheadBytes : Nat := 512

/-- `int.bit_length` of a magnitude. -/
def bitLength (n : Nat) : Nat :=
  if n = 0 then 0 else n.log2 + 1

mutual

/-- `_retained_value_charge`. A Boolean is an `int`; a date and an identifier are none of the classes
that it tells apart. -/
def retainedValueCharge : Value → Nat
  | .text s => stageScalarOverheadBytes + 4 * s.length
  | .tuple items => stageContainerOverheadBytes + retainedValueCharges items
  | .decimal d => stageScalarOverheadBytes + 4 * (Nat.toDigits 10 d.coefficient).length
  | .int i => stageScalarOverheadBytes + (bitLength i.natAbs + 7) / 8
  | .bool b => stageScalarOverheadBytes + (bitLength b.toNat + 7) / 8
  | .record fields => stageContainerOverheadBytes + retainedValueCharges fields
  | .none => stageScalarOverheadBytes
  | .uuid _ => stageScalarOverheadBytes
  | .datetime _ => stageScalarOverheadBytes

def retainedValueCharges : List Value → Nat
  | [] => 0
  | value :: rest => retainedValueCharge value + retainedValueCharges rest

end

/-! ## Records -/

/-- The stored text of a document type. -/
def documentTypeValue : DocumentType → String
  | .stores => "stores"
  | .priceFull => "price_full"
  | .priceDelta => "price_delta"
  | .promotionFull => "promotion_full"
  | .promotionDelta => "promotion_delta"
  | .unknown => "unknown"

/-- The stored text of a discount kind. -/
def discountKindValue : DiscountKind → String
  | .fixedPrice => "fixed_price"
  | .percentage => "percentage"
  | .amount => "amount"
  | .quantity => "quantity"
  | .secondItem => "second_item"
  | .mixAndMatch => "mix_and_match"
  | .conditional => "conditional"
  | .unknown => "unknown"

/-- The stored text of a severity. -/
def issueSeverityValue : IssueSeverity → String
  | .warning => "warning"
  | .recordRejection => "record_rejection"
  | .fileQuarantine => "file_quarantine"

structure DocumentMetadata where
  documentType : DocumentType
  chainId : Option String
  subchainId : Option String
  storeId : Option String
  auditNumber : Option String
  sourceUpdatedAt : Option Time
  deriving DecidableEq, Repr

structure StoreRecord where
  recordIndex : Nat
  chainId : String
  subchainId : String
  storeId : String
  auditNumber : Option String
  storeType : Option String
  chainName : Option String
  subchainName : Option String
  storeName : String
  address : Option String
  city : Option String
  postalCode : Option String
  deriving DecidableEq, Repr

structure PriceRecord where
  recordIndex : Nat
  chainId : String
  subchainId : String
  storeId : String
  itemCode : String
  itemType : Option Int
  itemName : String
  manufacturerName : Option String
  manufacturerCountry : Option String
  manufacturerDescription : Option String
  unitQuantity : Option String
  quantity : Option Decimal
  unitOfMeasure : Option String
  isWeighted : Option Bool
  quantityInPackage : Option Decimal
  itemPrice : Decimal
  unitOfMeasurePrice : Option Decimal
  allowDiscount : Option Bool
  itemStatus : Option Int
  priceUpdatedAt : Option Time
  lastSaleAt : Option Time
  auditNumber : Option String
  deriving DecidableEq, Repr

structure PromotionItem where
  itemCode : String
  itemType : Option Int
  isGift : Bool
  deriving DecidableEq, Repr

/-- `PromotionRecord`, whose children the dataclass does not compare with each other. -/
structure PromotionRecord where
  recordIndex : Nat
  chainId : String
  subchainId : String
  sourceStoreId : Option String
  promotionId : String
  description : Option String
  discountKind : DiscountKind
  startsAt : Option Time
  endsAt : Option Time
  items : List PromotionItem
  storeIds : List String
  clubIds : List String
  rewardType : Option Int
  allowsMultipleDiscounts : Option Bool
  minimumQuantity : Option Decimal
  maximumQuantity : Option Decimal
  discountRate : Option Decimal
  minimumPurchase : Option Decimal
  discountedPrice : Option Decimal
  discountedUnitPrice : Option Decimal
  minimumItemsOffered : Option Int
  additionalRestrictions : Option String
  remarks : Option String
  isActive : Option Bool
  deriving DecidableEq, Repr

/-- What an event says, beside the file it belongs to. -/
inductive ParsedRecord
  | metadata (record : DocumentMetadata)
  | store (record : StoreRecord)
  | price (record : PriceRecord)
  | promotion (record : PromotionRecord)
  | issue (issue : ValidationIssue)
  deriving DecidableEq, Repr

/-- `ParsedEvent`; every class of the union begins with the field `source_file_id`. -/
structure ParsedEvent where
  sourceFileId : FileId
  record : ParsedRecord
  deriving DecidableEq, Repr

/-- `isinstance(event, ValidationIssue)`. -/
def ParsedEvent.issue? (event : ParsedEvent) : Option ValidationIssue :=
  match event.record with
  | .issue issue => some issue
  | _ => none

section Fields

open Value

def DocumentMetadata.values (r : DocumentMetadata) : List Value :=
  [text (documentTypeValue r.documentType), optional text r.chainId, optional text r.subchainId,
    optional text r.storeId, optional text r.auditNumber, optional datetime r.sourceUpdatedAt]

def StoreRecord.values (r : StoreRecord) : List Value :=
  [natural r.recordIndex, text r.chainId, text r.subchainId, text r.storeId,
    optional text r.auditNumber, optional text r.storeType, optional text r.chainName,
    optional text r.subchainName, text r.storeName, optional text r.address, optional text r.city,
    optional text r.postalCode]

def PriceRecord.values (r : PriceRecord) : List Value :=
  [natural r.recordIndex, text r.chainId, text r.subchainId, text r.storeId, text r.itemCode,
    optional int r.itemType, text r.itemName, optional text r.manufacturerName,
    optional text r.manufacturerCountry, optional text r.manufacturerDescription,
    optional text r.unitQuantity, optional decimal r.quantity, optional text r.unitOfMeasure,
    optional bool r.isWeighted, optional decimal r.quantityInPackage, decimal r.itemPrice,
    optional decimal r.unitOfMeasurePrice, optional bool r.allowDiscount, optional int r.itemStatus,
    optional datetime r.priceUpdatedAt, optional datetime r.lastSaleAt, optional text r.auditNumber]

def PromotionItem.values (r : PromotionItem) : List Value :=
  [text r.itemCode, optional int r.itemType, bool r.isGift]

def PromotionRecord.values (r : PromotionRecord) : List Value :=
  [natural r.recordIndex, text r.chainId, text r.subchainId, optional text r.sourceStoreId,
    text r.promotionId, optional text r.description, text (discountKindValue r.discountKind),
    optional datetime r.startsAt, optional datetime r.endsAt,
    tuple (r.items.map fun item => record item.values), tuple (r.storeIds.map text),
    tuple (r.clubIds.map text), optional int r.rewardType, optional bool r.allowsMultipleDiscounts,
    optional decimal r.minimumQuantity, optional decimal r.maximumQuantity,
    optional decimal r.discountRate, optional decimal r.minimumPurchase,
    optional decimal r.discountedPrice, optional decimal r.discountedUnitPrice,
    optional int r.minimumItemsOffered, optional text r.additionalRestrictions,
    optional text r.remarks, optional bool r.isActive]

def issueValues (r : ValidationIssue) : List Value :=
  [text (issueSeverityValue r.severity), text r.code, text r.message,
    optional natural r.recordIndex, optional text r.fieldName, optional text r.rejectedValue]

/-- The fields of an event, in the order of its dataclass. -/
def ParsedEvent.values (event : ParsedEvent) : List Value :=
  uuid event.sourceFileId :: match event.record with
    | .metadata r => r.values
    | .store r => r.values
    | .price r => r.values
    | .promotion r => r.values
    | .issue r => issueValues r

end Fields

/-! ## Units and charge -/

/-- `effective_promotion_store_ids`. -/
def effectivePromotionStoreIds (event : PromotionRecord) : List String :=
  let scopedStoreIds := match event.sourceStoreId with
    | some id => if id = "" then [] else [id]
    | none => []
  Table.distinctOn id (event.storeIds ++ scopedStoreIds)

/-- `_stage_units`. -/
def stageUnits (event : ParsedEvent) : Nat :=
  match event.record with
  | .promotion r =>
    1 + r.items.length + (effectivePromotionStoreIds r).length + r.clubIds.length
  | _ => 1

/-- `_stage_memory_charge`. -/
def stageMemoryCharge (event : ParsedEvent) (units : Nat) : Nat :=
  retainedValueCharge (.record event.values) + units * stagePersistenceRowOverheadBytes

/-- The charge of an event with its own units. -/
def stageBytes (event : ParsedEvent) : Nat :=
  stageMemoryCharge event (stageUnits event)

def totalUnits (events : List ParsedEvent) : Nat := (events.map stageUnits).sum

def totalBytes (events : List ParsedEvent) : Nat := (events.map stageBytes).sum

@[simp] theorem totalUnits_append (a b : List ParsedEvent) :
    totalUnits (a ++ b) = totalUnits a + totalUnits b := by
  simp [totalUnits]

@[simp] theorem totalBytes_append (a b : List ParsedEvent) :
    totalBytes (a ++ b) = totalBytes a + totalBytes b := by
  simp [totalBytes]

@[simp] theorem totalUnits_singleton (e : ParsedEvent) : totalUnits [e] = stageUnits e := by
  simp [totalUnits]

@[simp] theorem totalBytes_singleton (e : ParsedEvent) : totalBytes [e] = stageBytes e := by
  simp [totalBytes]

/-! ## The records as they are staged -/

/-- The record that a promotion with distinct children is. -/
def PromotionRecord.ofDistinct (r : Normalized.PromotionRecord) : PromotionRecord where
  recordIndex := r.recordIndex
  chainId := r.chainId
  subchainId := r.subchainId
  sourceStoreId := r.sourceStoreId
  promotionId := r.promotionId
  description := r.description
  discountKind := r.discountKind
  startsAt := r.startsAt
  endsAt := r.endsAt
  items := r.items.map fun item => ⟨item.sourceItemCode, item.itemType, item.isGift⟩
  storeIds := r.storeIds
  clubIds := r.clubIds
  rewardType := r.rewardType
  allowsMultipleDiscounts := r.allowsMultipleDiscounts
  minimumQuantity := r.minimumQuantity
  maximumQuantity := r.maximumQuantity
  discountRate := r.discountRate
  minimumPurchase := r.minimumPurchase
  discountedPrice := r.discountedPrice
  discountedUnitPrice := r.discountedUnitPrice
  minimumItemsOffered := r.minimumItemsOffered.map Int.ofNat
  additionalRestrictions := r.additionalRestrictions
  remarks := r.remarks
  isActive := r.isActive

theorem effectivePromotionStoreIds_ofDistinct (r : Normalized.PromotionRecord) :
    effectivePromotionStoreIds (.ofDistinct r) = r.effectiveStoreIds := by
  unfold effectivePromotionStoreIds Normalized.PromotionRecord.effectiveStoreIds
    Normalized.PromotionRecord.scopeStore
  cases hstore : r.sourceStoreId with
  | none => simp [PromotionRecord.ofDistinct, hstore]
  | some store => simp [PromotionRecord.ofDistinct, hstore]

/-- The units of a promotion are its staged row and the rows of its staged children. -/
theorem stageUnits_staged (digest : Normalized.FingerprintPayload → String)
    (r : Normalized.PromotionRecord) (file : FileId) :
    stageUnits ⟨file, .promotion (.ofDistinct r)⟩ =
      1 + (r.staged digest).items.length + (r.staged digest).stores.length +
        (r.staged digest).clubs.length := by
  simp only [stageUnits, effectivePromotionStoreIds_ofDistinct]
  simp [PromotionRecord.ofDistinct, Normalized.PromotionRecord.staged]

end Makolet.Batching
