import Mathlib.Tactic.Ring
import Makolet.Batching.Copy
import Makolet.Domain.Filenames

/-!
# Columns that the records are written to

The staged tables of `persistence/schema.py`, with the widths of their columns and the checks on
them, and the checks of the constructors of `domain/models.py`. A decimal is rounded to the scale of
its column, and the checks hold of what is stored.

What the constructors admit fits the decimal and the text columns. They bound no integer but
`minimum_items_offered`, so that the other integers fit only where they are small enough.
-/

set_option autoImplicit false

namespace Makolet.Batching

open Makolet.Domain Makolet.Lib
open Makolet.Normalized (Decimal DiscountKind FileId moneyScale quantityScale rateScale)

/-! ## Columns -/

inductive ColumnType
  | uuid
  | integer
  | bigInteger
  | varchar (width : Nat)
  | text
  | numeric (precision scale : Nat)
  | boolean
  | timestamp
  | jsonb
  deriving DecidableEq, Repr

/-- A column with its checks. -/
structure Column where
  type : ColumnType
  nullable : Bool := true
  nonnegative : Bool := false
  lengths : Option (Nat × Nat) := none
  values : Option (List String) := none
  deriving DecidableEq, Repr

/-- An integer within the width of a column. -/
def Signed (bits : Nat) (i : Int) : Bool := decide (-2 ^ (bits - 1) ≤ i ∧ i < 2 ^ (bits - 1))

namespace Value

mutual

/-- What the driver sends: no text with a NUL character, and no decimal beyond the digits of a
numeric, as `sent` tells. -/
def sendable (sent : Decimal → Bool) : Value → Bool
  | .text s => decide ('\x00' ∉ s.toList)
  | .decimal d => sent d
  | .tuple items => sendables sent items
  | .record fields => sendables sent fields
  | _ => true

def sendables (sent : Decimal → Bool) : List Value → Bool
  | [] => true
  | value :: rest => sendable sent value && sendables sent rest

end

end Value

/-- A value of the type, within its width. A decimal is rounded to the scale before its digits are
counted. -/
def ColumnType.holds : ColumnType → Value → Bool
  | .uuid, .uuid _ => true
  | .integer, .int i => Signed 32 i
  | .bigInteger, .int i => Signed 64 i
  | .varchar width, .text s => decide (s.length ≤ width)
  | .text, .text _ => true
  | .numeric precision scale, .decimal d => decide (d.units scale < 10 ^ precision)
  | .boolean, .bool _ => true
  | .timestamp, .datetime _ => true
  | .jsonb, .tuple _ => true
  | _, _ => false

/-- `column >= 0`, of what is stored. -/
def ColumnType.isNonnegative : ColumnType → Value → Bool
  | _, .int i => decide (0 ≤ i)
  | .numeric _ scale, .decimal d => !d.negative || decide (d.units scale = 0)
  | _, _ => true

/-- The checks of a column. -/
def Column.checks (c : Column) (v : Value) : Bool :=
  (!c.nonnegative || c.type.isNonnegative v) &&
    match v with
    | .text s =>
      (c.lengths.all fun bounds => decide (bounds.1 ≤ s.length ∧ s.length ≤ bounds.2)) &&
        c.values.all fun values => decide (s ∈ values)
    | _ => true

/-- A column takes a value that is sent to it. -/
def Column.takes (c : Column) : Value → Bool
  | .none => c.nullable
  | v => c.type.holds v && c.checks v

/-- A row is written to a table without an error. -/
def RowFits (sent : Decimal → Bool) (columns : List Column) (row : Row) : Prop :=
  List.Forall₂ (fun c v => c.takes v && v.sendable sent) columns row

def required (type : ColumnType) : Column := { type, nullable := false }

def optionalColumn (type : ColumnType) : Column := { type }

def nonnegative (c : Column) : Column := { c with nonnegative := true }

def oneOf (c : Column) (values : List String) : Column := { c with values := some values }

def money : ColumnType := .numeric 14 moneyScale

def quantityColumn : ColumnType := .numeric 18 quantityScale

def discountKinds : List DiscountKind :=
  [.fixedPrice, .percentage, .amount, .quantity, .secondItem, .mixAndMatch, .conditional, .unknown]

def documentTypes : List DocumentType :=
  [.stores, .priceFull, .priceDelta, .promotionFull, .promotionDelta, .unknown]

/-- The key of a child of a promotion. -/
def childKey : List Column := [required .uuid, required .bigInteger, required .integer]

/-- The columns of the staged tables that records are written to, in the order of the rows. -/
def recordColumns : StagingTable → List Column
  | .stores => [required .uuid, required .bigInteger, required (.varchar 128),
      required (.varchar 128), required (.varchar 128), optionalColumn (.varchar 128),
      optionalColumn (.varchar 128), optionalColumn .text, optionalColumn .text, required .text,
      optionalColumn .text, optionalColumn .text, optionalColumn (.varchar 32)]
  | .prices => [required .uuid, required .bigInteger, required (.varchar 128),
      required (.varchar 128), required (.varchar 128), required (.varchar 128),
      optionalColumn (.varchar 14), optionalColumn .integer, required .text, optionalColumn .text,
      optionalColumn .text, optionalColumn .text, optionalColumn .text,
      nonnegative (optionalColumn quantityColumn), optionalColumn (.varchar 64),
      optionalColumn .boolean, nonnegative (optionalColumn quantityColumn),
      nonnegative (required money), nonnegative (optionalColumn money), optionalColumn .boolean,
      optionalColumn .integer, optionalColumn .timestamp, optionalColumn .timestamp,
      optionalColumn (.varchar 128)]
  | .promotions => [required .uuid, required .bigInteger, required (.varchar 128),
      required (.varchar 128), required (.varchar 128), required (.varchar 256),
      optionalColumn .text,
      oneOf (required (.varchar 32)) (discountKinds.map discountKindValue),
      optionalColumn .timestamp, optionalColumn .timestamp, optionalColumn .integer,
      optionalColumn .boolean, optionalColumn quantityColumn, optionalColumn quantityColumn,
      optionalColumn (.numeric 10 rateScale), optionalColumn money, optionalColumn money,
      optionalColumn money, optionalColumn .integer, optionalColumn .text, optionalColumn .text,
      optionalColumn .boolean, required (.varchar 64)]
  | .promotionItems => childKey ++
      [required (.varchar 128), optionalColumn .integer, required .boolean]
  | .promotionStores => childKey ++ [required (.varchar 128)]
  | .promotionClubs => childKey ++ [required (.varchar 128)]
  | .documents => [required .uuid, required .integer,
      oneOf (required (.varchar 32)) (documentTypes.map documentTypeValue),
      optionalColumn (.varchar 128), optionalColumn (.varchar 128), optionalColumn (.varchar 128),
      optionalColumn (.varchar 128), optionalColumn .timestamp]
  | .validationIssues => [required .uuid, optionalColumn .uuid, optionalColumn .uuid,
      required (.varchar 32), { required (.varchar 128) with lengths := some (1, 128) },
      required .text, optionalColumn .bigInteger, optionalColumn (.varchar 256),
      optionalColumn .text]

/-- The rows of a record in the staged tables. -/
def recordRows (c : RowContext) (metadataIndex : Nat) (record : ParsedRecord) :
    List (StagingTable × List Row) :=
  eventRows c metadataIndex record :: match record with
    | .promotion r => promotionChildRows c.sourceFileId r
    | _ => []

/-- A record is written without an error. -/
def RecordFits (sent : Decimal → Bool) (c : RowContext) (metadataIndex : Nat)
    (record : ParsedRecord) : Prop :=
  ∀ rows ∈ recordRows c metadataIndex record, ∀ row ∈ rows.2,
    RowFits sent (recordColumns rows.1) row

/-! ## The constructors -/

/-- `_ensure_text_length`. -/
def ensureTextLength (value : Option String) (fieldName : String) (maximum : Nat)
    (isRequired : Bool) : Except Failure Unit := do
  require (isRequired = true → value.getD "" ≠ "") (domainInvalid (fieldName ++ " is required"))
  require (∀ text ∈ value, text.length ≤ maximum)
    (domainInvalid (fieldName ++ " exceeds " ++ toString maximum ++ " characters"))

/-- The value in units of `10 ^ low`, with its sign. -/
def scaledTo (low : Int) (d : Decimal) : Int :=
  (if d.negative then -1 else 1) * (d.coefficient * 10 ^ (d.exponent - low).toNat : Nat)

/-- `a < b`. -/
def decimalLess (a b : Decimal) : Bool :=
  let low := min a.exponent b.exponent
  decide (scaledTo low a < scaledTo low b)

/-- `value <= maximum`, of a value that is not negative; the maximum is in units of the scale. -/
def atMost (scale maximum : Nat) (d : Decimal) : Bool :=
  let shift := d.exponent + scale
  if 0 ≤ shift then decide (d.coefficient * 10 ^ shift.toNat ≤ maximum)
  else decide (d.coefficient ≤ maximum * 10 ^ (-shift).toNat)

/-- `_ensure_decimal_range`. -/
def ensureDecimalRange (value : Option Decimal) (fieldName : String) (scale maximum : Nat) :
    Except Failure Unit :=
  require (∀ d ∈ value, (d.negative = true → d.coefficient = 0) ∧ atMost scale maximum d = true)
    (domainInvalid (fieldName ++ " is outside the supported range"))

/-- `MAXIMUM_PLAUSIBLE_QUANTITY`, in units of a quantity. -/
def maximumPlausibleQuantity : Nat := 1000000 * 10 ^ quantityScale

/-- `MAXIMUM_STORED_MONEY`, in units of money. -/
def maximumStoredMoney : Nat := 99999999999999

/-- The maximum of a discount rate, in its units. -/
def maximumDiscountRate : Nat := 100 * 10 ^ rateScale

def StoreRecord.postInit (r : StoreRecord) : Except Failure Unit := do
  ensureTextLength r.chainId "chain_id" 128 true
  ensureTextLength r.subchainId "subchain_id" 128 false
  ensureTextLength r.storeId "store_id" 128 true
  ensureTextLength r.auditNumber "audit_number" 128 false
  ensureTextLength r.storeType "store_type" 128 false
  ensureTextLength r.storeName "store_name" 1024 true
  ensureTextLength r.postalCode "postal_code" 32 false

def PriceRecord.postInit (r : PriceRecord) : Except Failure Unit := do
  ensureTextLength r.chainId "chain_id" 128 true
  ensureTextLength r.subchainId "subchain_id" 128 false
  ensureTextLength r.storeId "store_id" 128 true
  ensureTextLength r.itemCode "item_code" 128 true
  ensureTextLength r.itemName "item_name" 2048 true
  ensureTextLength r.unitOfMeasure "unit_of_measure" 64 false
  ensureTextLength r.auditNumber "audit_number" 128 false
  ensureDecimalRange r.quantity "quantity" quantityScale maximumPlausibleQuantity
  ensureDecimalRange r.quantityInPackage "quantity_in_package" quantityScale
    maximumPlausibleQuantity
  ensureDecimalRange r.itemPrice "item_price" moneyScale maximumStoredMoney
  ensureDecimalRange r.unitOfMeasurePrice "unit_of_measure_price" moneyScale maximumStoredMoney

def PromotionItem.postInit (r : PromotionItem) : Except Failure Unit :=
  ensureTextLength r.itemCode "item_code" 128 true

def PromotionRecord.postInit (r : PromotionRecord) : Except Failure Unit := do
  ensureTextLength r.chainId "chain_id" 128 true
  ensureTextLength r.subchainId "subchain_id" 128 false
  ensureTextLength r.sourceStoreId "source_store_id" 128 false
  ensureTextLength r.promotionId "promotion_id" 256 true
  r.storeIds.forM fun storeId => ensureTextLength storeId "store_id" 128 true
  r.clubIds.forM fun clubId => ensureTextLength clubId "club_id" 128 true
  require (∀ startsAt ∈ r.startsAt, ∀ endsAt ∈ r.endsAt, startsAt ≤ endsAt)
    (domainInvalid "ends_at cannot precede starts_at")
  ensureDecimalRange r.minimumQuantity "minimum_quantity" quantityScale maximumPlausibleQuantity
  ensureDecimalRange r.maximumQuantity "maximum_quantity" quantityScale maximumPlausibleQuantity
  require (∀ minimum ∈ r.minimumQuantity, ∀ maximum ∈ r.maximumQuantity,
      decimalLess maximum minimum = false)
    (domainInvalid "maximum_quantity cannot be less than minimum_quantity")
  ensureDecimalRange r.discountRate "discount_rate" rateScale maximumDiscountRate
  ensureDecimalRange r.minimumPurchase "minimum_purchase" moneyScale maximumStoredMoney
  ensureDecimalRange r.discountedPrice "discounted_price" moneyScale maximumStoredMoney
  ensureDecimalRange r.discountedUnitPrice "discounted_unit_price" moneyScale maximumStoredMoney
  require (∀ offered ∈ r.minimumItemsOffered, 0 ≤ offered ∧ offered ≤ 1000000)
    (domainInvalid "minimum_items_offered is outside the supported range")

/-- The constructors of a record and of its items return. -/
def ParsedRecord.Constructed : ParsedRecord → Prop
  | .store r => r.postInit = .ok ()
  | .price r => r.postInit = .ok ()
  | .promotion r => r.postInit = .ok () ∧ ∀ item ∈ r.items, item.postInit = .ok ()
  | .metadata _ => True
  | .issue _ => True

/-! ## Numeric columns -/

/-- What is at most the maximum is rounded to the maximum at most. -/
theorem units_le {scale maximum : Nat} {d : Decimal} (h : atMost scale maximum d = true) :
    d.units scale ≤ maximum := by
  rw [atMost] at h
  rw [Decimal.units]
  split at h
  · next hshift =>
    rw [if_pos hshift]
    exact of_decide_eq_true h
  · next hshift =>
    rw [if_neg hshift]
    have hle := of_decide_eq_true h
    have hpos : 0 < 10 ^ (-(d.exponent + scale)).toNat := Nat.pow_pos (by decide)
    generalize 10 ^ (-(d.exponent + (scale : Int))).toNat = power at hle hpos
    -- A half more than the maximum is rounded down to it.
    have hlt : 2 * d.coefficient + power < (maximum + 1) * (2 * power) := by
      have hdouble : 2 * d.coefficient ≤ 2 * (maximum * power) := Nat.mul_le_mul_left 2 hle
      have hexpand : (maximum + 1) * (2 * power) = 2 * (maximum * power) + 2 * power := by ring
      omega
    exact Nat.lt_succ_iff.1 ((Nat.div_lt_iff_lt_mul (by omega)).2 hlt)

theorem units_zero {scale : Nat} {d : Decimal} (h : d.coefficient = 0) : d.units scale = 0 := by
  rw [Decimal.units, h]
  split
  · rw [Nat.zero_mul]
  · rw [Nat.mul_zero, Nat.zero_add]
    have hpos : 0 < 10 ^ (-(d.exponent + (scale : Int))).toNat := Nat.pow_pos (by decide)
    exact Nat.div_eq_of_lt (by omega)

/-! ## What the columns take -/

attribute [local simp] ColumnType.holds Column.checks

@[simp] theorem takes_none (c : Column) : c.takes .none = c.nullable := rfl

theorem takes_int (c : Column) (i : Int) :
    c.takes (.int i) = (c.type.holds (.int i) && c.checks (.int i)) := rfl

theorem takes_decimal (c : Column) (d : Decimal) :
    c.takes (.decimal d) = (c.type.holds (.decimal d) && c.checks (.decimal d)) := rfl

theorem takes_text (c : Column) (s : String) :
    c.takes (.text s) = (c.type.holds (.text s) && c.checks (.text s)) := rfl

/-- **A decimal that a constructor admits fits its column, and is not negative there.** -/
theorem takes_admitted {value : Option Decimal} {fieldName : String} {scale maximum precision : Nat}
    (h : ensureDecimalRange value fieldName scale maximum = .ok ())
    (hmax : maximum < 10 ^ precision) (c : Column) (htype : c.type = .numeric precision scale) :
    ∀ d ∈ value, c.takes (.decimal d) = true := by
  intro d hd
  obtain ⟨hsign, hle⟩ := require_eq_ok.1 h d hd
  have hunits := units_le hle
  have hnonnegative : c.type.isNonnegative (.decimal d) = true := by
    rw [htype, ColumnType.isNonnegative]
    cases hneg : d.negative with
    | false => rfl
    | true => simp [units_zero (hsign hneg)]
  have hholds : c.type.holds (.decimal d) = true := by
    rw [htype, ColumnType.holds]
    exact decide_eq_true (by omega)
  have hchecks : c.checks (.decimal d) = true := by
    show (!c.nonnegative || c.type.isNonnegative (.decimal d)) && true = true
    rw [hnonnegative, Bool.or_true]
    rfl
  rw [takes_decimal, hholds, hchecks]
  rfl

/-- An optional text within a width. -/
def WithinWidth (width : Nat) (o : Option String) : Prop := ∀ s ∈ o, s.length ≤ width

/-- An optional integer of 32 bits. -/
def Small (o : Option Int) : Prop := ∀ i ∈ o, -2 ^ 31 ≤ i ∧ i < 2 ^ 31

theorem takes_optional {α : Type} {f : α → Value} {c : Column} {o : Option α}
    (hnullable : c.nullable = true) :
    c.takes (Value.optional f o) = true ↔ ∀ a ∈ o, c.takes (f a) = true := by
  cases o with
  | none => simp [Value.optional, hnullable]
  | some a => simp [Value.optional]

/-- The same of an optional decimal, in an optional column. -/
theorem takes_optional_admitted {value : Option Decimal} {fieldName : String}
    {scale maximum precision : Nat} (h : ensureDecimalRange value fieldName scale maximum = .ok ())
    (hmax : maximum < 10 ^ precision) {c : Column} (htype : c.type = .numeric precision scale)
    (hnullable : c.nullable = true) : c.takes (Value.optional Value.decimal value) = true :=
  (takes_optional hnullable).2 (takes_admitted h hmax c htype)

@[simp] theorem takes_required_uuid (id : FileId) : (required .uuid).takes (.uuid id) = true := rfl

@[simp] theorem takes_required_boolean (b : Bool) :
    (required .boolean).takes (.bool b) = true := rfl

@[simp] theorem takes_required_text (s : String) : (required .text).takes (.text s) = true := rfl

@[simp] theorem takes_bigInteger (n : Nat) :
    (required .bigInteger).takes (Value.natural n) = true ↔ n < 2 ^ 63 := by
  rw [Value.natural, takes_int]
  simp only [required, ColumnType.holds, Column.checks, Signed, Bool.not_false, Bool.true_or,
    Bool.and_true, decide_eq_true_eq]
  omega

@[simp] theorem takes_integer (n : Nat) :
    (required .integer).takes (Value.natural n) = true ↔ n < 2 ^ 31 := by
  rw [Value.natural, takes_int]
  simp only [required, ColumnType.holds, Column.checks, Signed, Bool.not_false, Bool.true_or,
    Bool.and_true, decide_eq_true_eq]
  omega

@[simp] theorem takes_varchar (width : Nat) (s : String) :
    (required (.varchar width)).takes (.text s) = true ↔ s.length ≤ width := by
  rw [takes_text]
  simp [required, ColumnType.holds, Column.checks]

@[simp] theorem takes_optional_varchar (width : Nat) (o : Option String) :
    (optionalColumn (.varchar width)).takes (Value.optional Value.text o) = true ↔
      WithinWidth width o := by
  rw [takes_optional rfl]
  refine forall₂_congr fun s _ => ?_
  rw [takes_text]
  simp [optionalColumn, ColumnType.holds, Column.checks]

@[simp] theorem takes_optional_integer (o : Option Int) :
    (optionalColumn .integer).takes (Value.optional Value.int o) = true ↔ Small o := by
  rw [takes_optional rfl]
  refine forall₂_congr fun i _ => ?_
  rw [takes_int]
  simp [optionalColumn, ColumnType.holds, Column.checks, Signed]

@[simp] theorem takes_optional_text (o : Option String) :
    (optionalColumn .text).takes (Value.optional Value.text o) = true := by
  rw [takes_optional rfl]
  exact fun _ _ => rfl

@[simp] theorem takes_optional_boolean (o : Option Bool) :
    (optionalColumn .boolean).takes (Value.optional Value.bool o) = true := by
  rw [takes_optional rfl]
  exact fun _ _ => rfl

@[simp] theorem takes_optional_timestamp (o : Option Time) :
    (optionalColumn .timestamp).takes (Value.optional Value.datetime o) = true := by
  rw [takes_optional rfl]
  exact fun _ _ => rfl

theorem takes_discountKind (kind : DiscountKind) :
    (oneOf (required (.varchar 32)) (discountKinds.map discountKindValue)).takes
      (.text (discountKindValue kind)) = true := by
  cases kind <;> decide

/-- The columns take the values of a row. -/
def RowTakes (columns : List Column) (row : Row) : Prop :=
  List.Forall₂ (fun c v => c.takes v = true) columns row

/-- The values of a row, or the fields of a record, are sent. -/
def Sendable (sent : Decimal → Bool) (row : Row) : Prop := ∀ v ∈ row, v.sendable sent = true

/-- A row fits where its values are sent and its columns take them. -/
theorem rowFits_iff {sent : Decimal → Bool} {columns : List Column} {row : Row} :
    RowFits sent columns row ↔ RowTakes columns row ∧ Sendable sent row := by
  rw [RowFits, RowTakes]
  constructor
  · intro h
    induction h with
    | nil => exact ⟨.nil, fun v hv => by cases hv⟩
    | cons hcv _ ih =>
      rw [Bool.and_eq_true] at hcv
      refine ⟨.cons hcv.1 ih.1, fun v hv => ?_⟩
      rcases List.mem_cons.1 hv with rfl | hv
      · exact hcv.2
      · exact ih.2 v hv
  · rintro ⟨htakes, hsent⟩
    induction htakes with
    | nil => exact .nil
    | cons hcv _ ih =>
      refine .cons ?_ (ih fun v hv => hsent v (List.mem_cons_of_mem _ hv))
      rw [hcv, hsent _ List.mem_cons_self]
      rfl

theorem ensureTextLength_ok {value : Option String} {fieldName : String} {maximum : Nat}
    {isRequired : Bool} (h : ensureTextLength value fieldName maximum isRequired = .ok ()) :
    WithinWidth maximum value := by
  obtain ⟨-, h⟩ := require_bind_eq_ok.1 h
  have hwithin : ∀ text ∈ value, text.length ≤ maximum := require_eq_ok.1 h
  exact hwithin

end Makolet.Batching
