import Mathlib.Data.List.Infix
import Makolet.Parsing.Stage

/-!
# Typed records

The record parsers of `adapters/parsers/xml.py`: how a field is looked up in a record and in the
header context of its document, and the records that `_parse_store`, `_parse_price` and
`_parse_promotion` build from the fields. What the fields are decoded with is `Decoders`.
-/

set_option autoImplicit false

namespace Makolet.Parsing

open Makolet.Domain Makolet.Lib Makolet.Normalized

/-! ## Elements -/

/-- An XML element with the text in front of its first child. -/
inductive Element
  | mk (tag : String) (attributes : List (String × String)) (text : Option String)
      (children : List Element)

namespace Element

def tag : Element → String
  | mk tag _ _ _ => tag

def attributes : Element → List (String × String)
  | mk _ attributes _ _ => attributes

def text : Element → Option String
  | mk _ _ text _ => text

def children : Element → List Element
  | mk _ _ _ children => children

end Element

/-- `_SchemaFindings`: the additive schema observations of a record or a document. -/
structure SchemaFindings where
  count : Nat
  fieldName : Option String
  evidence : String
  hasDiscountAmount : Bool
  hasConditionalField : Bool

/-- The functions that read single texts: `_tag_name`, `clean_source_text` at the field limit, the
functions of `domain/normalization.py`, the checks and digests of the records, and the schema
observations, with their warning evidence. `parseCount` is `parse_int` of a number that its record
does not allow to be negative. -/
structure Decoders where
  tagName : String → String
  cleanSourceText : Option String → Except Failure (Option String)
  normalizeIdentifier : String → Except Failure String
  parseDecimal : Option String → String → Except Failure (Option Nat)
  parseInt : Option String → String → Except Failure (Option Int)
  parseCount : Option String → String → Except Failure (Option Nat)
  parseBool : Option String → String → Except Failure (Option Bool)
  parseSourceDatetime : String → Except Failure (Option Time)
  combineSourceDateTime : Option String → Option String → Except Failure (Option Time)
  gtin : String → Option String
  casefold : String → String
  fingerprint : StagedPromotion → String
  checkStore : StagedStore → Except Failure Unit
  checkPrice : StagedPrice → Except Failure Unit
  checkPromotion : StagedPromotion → Except Failure Unit
  recordFindings : Element → Except Failure SchemaFindings
  elementFindings : List String → Element → SchemaFindings → Except Failure SchemaFindings
  warningEvidence : SchemaFindings → Option String
  promotionRestrictions : Option String → SchemaFindings → Option String

/-! ## Looking fields up -/

/-- A dictionary from normalized names to texts: the fields of a record, or the context. -/
abbrev Fields := String → Option String

def noFields : Fields := fun _ => none

/-- `_value`. The names of the source are normalized as they stand. -/
def value (values context : Fields) : List String → Option String
  | [] => none
  | name :: names =>
      match values name with
      | some found => some found
      | none =>
          match context name with
          | some found => some found
          | none => value values context names

def domainValidation (message : String) : Failure := ⟨.domainValidation, message, 0⟩

/-- `_required`. -/
def required (values context : Fields) (names : List String) : Except Failure String :=
  match value values context names with
  | some found => .ok found
  | none => .error (domainValidation
      ("Required XML field " ++ names.headD "" ++ " is missing"))

/-- A text that is a date with its time. -/
def hasTime (text : String) : Bool := text.toList.any fun c => c = 'T' || c = ' '

/-- `_date_time`. -/
def dateTime (d : Decoders) (values context : Fields) (dateNames timeNames : List String) :
    Except Failure (Option Time) :=
  match value values context dateNames, value values context timeNames with
  | some date, time =>
      if hasTime date then d.parseSourceDatetime date
      else d.combineSourceDateTime (some date) time
  | none, some time =>
      if hasTime time then d.parseSourceDatetime time
      else d.combineSourceDateTime none (some time)
  | none, none => d.combineSourceDateTime none none

/-- `_element_values`: the first text of each leaf. -/
def elementValues (d : Decoders) (element : Element) : Except Failure Fields :=
  element.children.foldlM (fun values child =>
    if child.children ≠ [] then .ok values
    else do
      match ← d.cleanSourceText child.text with
      | none => pure values
      | some text =>
          let name := d.tagName child.tag
          if (values name).isSome then pure values
          else pure fun other => if other = name then some text else values other) noFields

/-! ## Records -/

/-- `_parse_store`. -/
def parseStore (d : Decoders) (values context : Fields) (recordIndex : Nat) :
    Except Failure StagedStore := do
  let chainId ← required values context ["chainid"]
  let subchainId ← required values context ["subchainid"]
  let storeId ← required values context ["storeid"]
  let name ← required values context ["storename"]
  let record : StagedStore := {
    recordIndex := recordIndex
    chainId := chainId
    subchainId := subchainId
    sourceStoreId := storeId
    description := {
      auditNumber := value values context ["bikoretno", "auditnumber"]
      storeType := value values context ["storetype"]
      chainName := value values context ["chainname"]
      subchainName := value values context ["subchainname"]
      name := name
      address := value values context ["address", "storeaddress"]
      city := value values context ["city"]
      postalCode := value values context ["zipcode", "postalcode"] } }
  d.checkStore record
  pure record

/-- `parse_decimal(..., required=True)`. -/
def requiredDecimal (d : Decoders) (text : Option String) (fieldName : String) :
    Except Failure Nat := do
  match ← d.parseDecimal text fieldName with
  | some found => pure found
  | none => throw (domainValidation (fieldName ++ " is required"))

/-- `_parse_price`. -/
def parsePrice (d : Decoders) (values context : Fields) (recordIndex : Nat) :
    Except Failure StagedPrice := do
  let price ← requiredDecimal d (value values context ["itemprice", "price"]) "item_price"
  let chainId ← required values context ["chainid"]
  let subchainId ← required values context ["subchainid"]
  let storeId ← required values context ["storeid"]
  let code ← required values context ["itemcode", "barcode"]
  let itemCode ← d.normalizeIdentifier code
  let itemType ← d.parseInt (value values context ["itemtype"]) "item_type"
  let itemName ← required values context ["itemname", "itemnm"]
  let quantity ← d.parseDecimal (value values context ["quantity"]) "quantity"
  let isWeighted ← d.parseBool (value values context ["isweighted", "bisweighted"]) "is_weighted"
  let quantityInPackage ← d.parseDecimal
    (value values context ["qtyinpackage", "quantityinpackage"]) "quantity_in_package"
  let unitOfMeasurePrice ← d.parseDecimal
    (value values context ["unitofmeasureprice", "unitprice"]) "unit_of_measure_price"
  let allowDiscount ← d.parseBool (value values context ["allowdiscount"]) "allow_discount"
  let itemStatus ← d.parseInt (value values context ["itemstatus", "status"]) "item_status"
  let sourceUpdatedAt ← dateTime d values context ["priceupdatedate", "updatedate"]
    ["priceupdatetime", "updatetime"]
  let lastSaleAt ← dateTime d values context ["lastsaledate"] ["lastsaletime", "lastsaledatetime"]
  let record : StagedPrice := {
    recordIndex := recordIndex
    chainId := chainId
    subchainId := subchainId
    sourceStoreId := storeId
    sourceItemCode := itemCode
    gtin := d.gtin itemCode
    description := {
      itemType := itemType
      itemName := itemName
      manufacturerName := value values context ["manufacturername"]
      manufacturerCountry := value values context ["manufacturercountry", "manufacturecountry"]
      manufacturerDescription := value values context ["manufactureritemdescription"]
      unitQuantity := value values context ["unitqty", "unitquantity"]
      quantity := quantity
      unitOfMeasure := value values context ["unitofmeasure", "unitmeasure"]
      isWeighted := isWeighted
      quantityInPackage := quantityInPackage }
    value := {
      itemPrice := price
      unitOfMeasurePrice := unitOfMeasurePrice
      allowDiscount := allowDiscount }
    itemStatus := itemStatus
    details := {
      sourceUpdatedAt := sourceUpdatedAt
      lastSaleAt := lastSaleAt
      auditNumber := value values context ["bikoretno", "auditnumber"] } }
  d.checkPrice record
  pure record

/-- `_append_direct_promotion_item_codes`. -/
def appendDirectItemCodes (d : Decoders) (parent : Element)
    (items : List StagedPromotionItem) : Except Failure (List StagedPromotionItem) :=
  parent.children.foldlM (fun items child =>
    if child.children ≠ [] ∨ d.tagName child.tag ∉ ["itemcode", "barcode"] then .ok items
    else do
      match ← d.cleanSourceText child.text with
      | none => pure items
      | some text =>
          let code ← d.normalizeIdentifier text
          if ∃ item ∈ items, item.sourceItemCode = code then pure items
          else pure (items ++ [⟨code, none, false⟩])) items

/-- One item relationship of `_promotion_items`. -/
def appendPromotionItem (d : Decoders) (items : List StagedPromotionItem) (relation : Element) :
    Except Failure (List StagedPromotionItem) := do
  let values ← elementValues d relation
  match value values noFields ["itemcode", "barcode"] with
  | none => throw (domainValidation "Promotion item relationship is missing an item identifier")
  | some text => do
      let code ← d.normalizeIdentifier text
      if ∃ item ∈ items, item.sourceItemCode = code then pure items
      else do
        let itemType ← d.parseInt (value values noFields ["itemtype"]) "item_type"
        let isGift ← d.parseBool (value values noFields ["isgift"]) "is_gift"
        pure (items ++ [⟨code, itemType, isGift.getD false⟩])

/-- `_promotion_items`. -/
def promotionItems (d : Decoders) (element : Element) :
    Except Failure (List StagedPromotionItem) := do
  let containers := element.children.filter fun child => d.tagName child.tag = "promotionitems"
  let found ← containers.foldlM (fun items container =>
    match container.children.filter fun child =>
        d.tagName child.tag ∈ ["item", "promotionitem"] with
    | [] => appendDirectItemCodes d container items
    | relations => relations.foldlM (appendPromotionItem d) items) []
  if found ≠ [] then pure found else appendDirectItemCodes d element []

/-- `_nested_identifiers`. -/
def nestedIdentifiers (d : Decoders) (element : Element) (containerTag : String)
    (relationshipTags : List String) (identifierTag relationshipName : String) :
    Except Failure (List String) :=
  let containers := element.children.filter fun child => d.tagName child.tag = containerTag
  let relationships := containers.flatMap fun container =>
    container.children.filter fun child => d.tagName child.tag ∈ relationshipTags
  relationships.foldlM (fun identifiers relationship => do
    let fields ← elementValues d relationship
    match value fields noFields [identifierTag] with
    | none => throw (domainValidation
        ("Promotion " ++ relationshipName ++ " relationship is missing " ++ identifierTag))
    | some text => do
        let identifier ← d.normalizeIdentifier text
        if identifier ∈ identifiers then pure identifiers
        else pure (identifiers ++ [identifier])) []

/-- `_discount_kind`. -/
def discountKind (d : Decoders) (description : Option String)
    (discountedPrice discountRate minimumQuantity minimumPurchase : Option Nat)
    (items : List StagedPromotionItem) (findings : SchemaFindings) : DiscountKind :=
  let normalized := (d.casefold (description.getD "")).toList
  if "second".toList <:+: normalized ∨ "שני".toList <:+: normalized then .secondItem
  else if findings.hasDiscountAmount then .amount
  else if discountRate.isSome then .percentage
  else if minimumPurchase.isSome ∨ findings.hasConditionalField then .conditional
  else if minimumQuantity.isSome ∧ 1 < items.length then .mixAndMatch
  else if minimumQuantity.isSome then .quantity
  else if discountedPrice.isSome then .fixedPrice
  else .unknown

/-- `_parse_promotion`. -/
def parsePromotion (d : Decoders) (element : Element) (values context : Fields) (recordIndex : Nat)
    (findings : SchemaFindings) : Except Failure StagedPromotion := do
  let description := value values context ["promotiondescription", "description"]
  let items ← promotionItems d element
  require (items ≠ []) (domainValidation "Promotion contains no eligible item identifiers")
  let discountedPrice ← d.parseDecimal
    (value values context ["discountedprice", "promotionprice"]) "discounted_price"
  let discountRate ← d.parseDecimal
    (value values context ["discountrate", "discountpercent"]) "discount_rate"
  let minimumQuantity ← d.parseDecimal
    (value values context ["minqty", "minimumquantity"]) "minimum_quantity"
  let minimumPurchase ← d.parseDecimal
    (value values context ["minpurchaseamount", "minimumpurchase"]) "minimum_purchase"
  let chainId ← required values context ["chainid"]
  let subchainId ← required values context ["subchainid"]
  let code ← required values context ["promotionid", "promotioncode"]
  let promotionId ← d.normalizeIdentifier code
  let startsAt ← dateTime d values context ["promotionstartdate", "startdate"]
    ["promotionstarttime", "starttime"]
  let endsAt ← dateTime d values context ["promotionenddate", "enddate"]
    ["promotionendtime", "endtime"]
  let stores ← nestedIdentifiers d element "promotionstores" ["store", "promotionstore"] "storeid"
    "store"
  let clubs ← nestedIdentifiers d element "clubs" ["club", "promotionclub"] "clubid" "club"
  let rewardType ← d.parseInt (value values context ["rewardtype"]) "reward_type"
  let allowsMultipleDiscounts ← d.parseBool (value values context ["allowmultiplediscounts"])
    "allows_multiple_discounts"
  let maximumQuantity ← d.parseDecimal
    (value values context ["maxqty", "maximumquantity"]) "maximum_quantity"
  let discountedUnitPrice ← d.parseDecimal
    (value values context ["discountedpricepermida", "discountedunitprice"])
    "discounted_unit_price"
  let minimumItemsOffered ← d.parseCount
    (value values context ["minnoofitemofered", "minimumitemsoffered"]) "minimum_items_offered"
  let isActive ← d.parseBool (value values context ["isactive"]) "is_active"
  let record : StagedPromotion := {
    recordIndex := recordIndex
    chainId := chainId
    subchainId := subchainId
    sourcePromotionId := promotionId
    sourceScopeStoreCode := (value context noFields ["storeid"]).getD ""
    fingerprint := ""
    terms := {
      description := description
      discountKind := discountKind d description discountedPrice discountRate minimumQuantity
        minimumPurchase items findings
      startsAt := startsAt
      endsAt := endsAt
      rewardType := rewardType
      allowsMultipleDiscounts := allowsMultipleDiscounts
      minimumQuantity := minimumQuantity
      maximumQuantity := maximumQuantity
      discountRate := discountRate
      minimumPurchase := minimumPurchase
      discountedPrice := discountedPrice
      discountedUnitPrice := discountedUnitPrice
      minimumItemsOffered := minimumItemsOffered
      additionalRestrictions := d.promotionRestrictions
        (value values context ["additionalrestrictions"]) findings
      remarks := value values context ["remarks"]
      isActive := isActive }
    items := items
    stores := stores
    clubs := clubs }
  d.checkPromotion record
  pure { record with fingerprint := d.fingerprint record }

end Makolet.Parsing
