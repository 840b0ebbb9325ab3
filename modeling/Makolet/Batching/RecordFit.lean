import Makolet.Batching.Columns
import Makolet.Sources.Identity

/-!
# Records and files that fit their columns

What the constructors of `domain/models.py` admit is written to its rows without an error exactly
where its integers are small enough and its values are sent: the constructors bound the decimals and
the texts, and no integer but `minimum_items_offered`. What a numeric column stores of a decimal
fits it, but a tiny decimal can have more digits than the driver sends.
-/

set_option autoImplicit false

namespace Makolet.Batching

open Makolet.Domain Makolet.Lib
open Makolet.Normalized (Decimal DiscountKind FileId moneyScale quantityScale rateScale)
open Makolet.Sources (protocolValue)

/-! ## Records -/

theorem StoreRecord.takes_iff {r : StoreRecord} (h : r.postInit = .ok ()) (file : FileId) :
    RowTakes (recordColumns .stores) (Value.uuid file :: r.values) ↔ r.recordIndex < 2 ^ 63 := by
  obtain ⟨⟨⟩, hchain, h⟩ := bind_eq_ok.1 h
  obtain ⟨⟨⟩, hsubchain, h⟩ := bind_eq_ok.1 h
  obtain ⟨⟨⟩, hstore, h⟩ := bind_eq_ok.1 h
  obtain ⟨⟨⟩, haudit, h⟩ := bind_eq_ok.1 h
  obtain ⟨⟨⟩, htype, h⟩ := bind_eq_ok.1 h
  obtain ⟨⟨⟩, -, hpostal⟩ := bind_eq_ok.1 h
  replace hchain := ensureTextLength_ok hchain _ rfl
  replace hsubchain := ensureTextLength_ok hsubchain _ rfl
  replace hstore := ensureTextLength_ok hstore _ rfl
  replace haudit := ensureTextLength_ok haudit
  replace htype := ensureTextLength_ok htype
  replace hpostal := ensureTextLength_ok hpostal
  simp only [RowTakes, recordColumns, StoreRecord.values, List.forall₂_cons,
    List.forall₂_nil_left_iff, takes_required_uuid, takes_bigInteger, takes_varchar,
    takes_optional_varchar, takes_optional_text, takes_required_text, hchain, hsubchain, hstore,
    haudit, htype, hpostal, true_and, and_true]

theorem gtin_length {itemCode : String} (h : isValidGtin itemCode.toList = true) :
    itemCode.length ≤ 14 := by
  simp only [isValidGtin, Bool.and_eq_true, decide_eq_true_eq, gtinLengths, List.mem_cons,
    List.not_mem_nil, or_false, String.length_toList] at h
  omega

theorem takes_gtin (itemCode : String) :
    (optionalColumn (.varchar 14)).takes
      (if isValidGtin itemCode.toList then .text itemCode else .none) = true := by
  split
  · next h =>
    exact (takes_optional_varchar 14 (some itemCode)).2 fun s hs =>
      Option.some.inj hs ▸ gtin_length h
  · rfl

/-- The row of a price. -/
theorem PriceRecord.takes_iff {r : PriceRecord} (h : r.postInit = .ok ()) (c : RowContext)
    (metadataIndex : Nat) {row : Row} (hrow : (eventRows c metadataIndex (.price r)).2 = [row]) :
    RowTakes (recordColumns .prices) row ↔
      r.recordIndex < 2 ^ 63 ∧ Small r.itemType ∧ Small r.itemStatus := by
  obtain ⟨⟨⟩, hchain, h⟩ := bind_eq_ok.1 h
  obtain ⟨⟨⟩, hsubchain, h⟩ := bind_eq_ok.1 h
  obtain ⟨⟨⟩, hstore, h⟩ := bind_eq_ok.1 h
  obtain ⟨⟨⟩, hcode, h⟩ := bind_eq_ok.1 h
  obtain ⟨⟨⟩, -, h⟩ := bind_eq_ok.1 h
  obtain ⟨⟨⟩, hunit, h⟩ := bind_eq_ok.1 h
  obtain ⟨⟨⟩, haudit, h⟩ := bind_eq_ok.1 h
  obtain ⟨⟨⟩, hquantity, h⟩ := bind_eq_ok.1 h
  obtain ⟨⟨⟩, hpackage, h⟩ := bind_eq_ok.1 h
  obtain ⟨⟨⟩, hprice, hunitPrice⟩ := bind_eq_ok.1 h
  replace hchain := ensureTextLength_ok hchain _ rfl
  replace hsubchain := ensureTextLength_ok hsubchain _ rfl
  replace hstore := ensureTextLength_ok hstore _ rfl
  replace hcode := ensureTextLength_ok hcode _ rfl
  replace hunit := ensureTextLength_ok hunit
  replace haudit := ensureTextLength_ok haudit
  have hquantityFits : (nonnegative (optionalColumn quantityColumn)).takes
      (Value.optional Value.decimal r.quantity) = true :=
    takes_optional_admitted hquantity (by decide) rfl rfl
  have hpackageFits : (nonnegative (optionalColumn quantityColumn)).takes
      (Value.optional Value.decimal r.quantityInPackage) = true :=
    takes_optional_admitted hpackage (by decide) rfl rfl
  have hpriceFits := takes_admitted hprice (by decide) (nonnegative (required money)) rfl _ rfl
  have hunitPriceFits : (nonnegative (optionalColumn money)).takes
      (Value.optional Value.decimal r.unitOfMeasurePrice) = true :=
    takes_optional_admitted hunitPrice (by decide) rfl rfl
  obtain rfl := List.singleton_inj.1 hrow
  simp only [RowTakes, recordColumns, List.forall₂_cons, List.forall₂_nil_left_iff,
    takes_required_uuid, takes_bigInteger, takes_varchar, takes_optional_varchar,
    takes_optional_text, takes_required_text, takes_optional_boolean, takes_optional_timestamp,
    takes_optional_integer, takes_gtin, hchain, hsubchain, hstore, hcode, hunit, haudit,
    hquantityFits, hpackageFits, hpriceFits, hunitPriceFits, true_and, and_true]

/-- The row of a promotion, with a digest of 64 characters. -/
theorem PromotionRecord.takes_iff {r : PromotionRecord} (h : r.postInit = .ok ()) (c : RowContext)
    (hdigest : (c.promotionFingerprint r).length = 64) (metadataIndex : Nat) {row : Row}
    (hrow : (eventRows c metadataIndex (.promotion r)).2 = [row]) :
    RowTakes (recordColumns .promotions) row ↔ r.recordIndex < 2 ^ 63 ∧ Small r.rewardType := by
  obtain ⟨⟨⟩, hchain, h⟩ := bind_eq_ok.1 h
  obtain ⟨⟨⟩, hsubchain, h⟩ := bind_eq_ok.1 h
  obtain ⟨⟨⟩, hstore, h⟩ := bind_eq_ok.1 h
  obtain ⟨⟨⟩, hpromotion, h⟩ := bind_eq_ok.1 h
  obtain ⟨⟨⟩, -, h⟩ := bind_eq_ok.1 h
  obtain ⟨⟨⟩, -, h⟩ := bind_eq_ok.1 h
  obtain ⟨-, h⟩ := require_bind_eq_ok.1 h
  obtain ⟨⟨⟩, hminimum, h⟩ := bind_eq_ok.1 h
  obtain ⟨⟨⟩, hmaximum, h⟩ := bind_eq_ok.1 h
  obtain ⟨-, h⟩ := require_bind_eq_ok.1 h
  obtain ⟨⟨⟩, hrate, h⟩ := bind_eq_ok.1 h
  obtain ⟨⟨⟩, hpurchase, h⟩ := bind_eq_ok.1 h
  obtain ⟨⟨⟩, hprice, h⟩ := bind_eq_ok.1 h
  obtain ⟨⟨⟩, hunitPrice, hoffered⟩ := bind_eq_ok.1 h
  replace hchain := ensureTextLength_ok hchain _ rfl
  replace hsubchain := ensureTextLength_ok hsubchain _ rfl
  replace hpromotion := ensureTextLength_ok hpromotion _ rfl
  replace hstore := ensureTextLength_ok hstore
  have hscope : (r.sourceStoreId.getD "").length ≤ 128 := by
    cases hid : r.sourceStoreId with
    | none => exact Nat.zero_le _
    | some id => exact hstore id hid
  have hofferedFits : Small r.minimumItemsOffered := by
    intro i hi
    have hrange := require_eq_ok.1 hoffered i hi
    omega
  have hminimumFits : (optionalColumn quantityColumn).takes
      (Value.optional Value.decimal r.minimumQuantity) = true :=
    takes_optional_admitted hminimum (by decide) rfl rfl
  have hmaximumFits : (optionalColumn quantityColumn).takes
      (Value.optional Value.decimal r.maximumQuantity) = true :=
    takes_optional_admitted hmaximum (by decide) rfl rfl
  have hrateFits : (optionalColumn (.numeric 10 rateScale)).takes
      (Value.optional Value.decimal r.discountRate) = true :=
    takes_optional_admitted hrate (by decide) rfl rfl
  have hpurchaseFits : (optionalColumn money).takes
      (Value.optional Value.decimal r.minimumPurchase) = true :=
    takes_optional_admitted hpurchase (by decide) rfl rfl
  have hpriceFits : (optionalColumn money).takes
      (Value.optional Value.decimal r.discountedPrice) = true :=
    takes_optional_admitted hprice (by decide) rfl rfl
  have hunitPriceFits : (optionalColumn money).takes
      (Value.optional Value.decimal r.discountedUnitPrice) = true :=
    takes_optional_admitted hunitPrice (by decide) rfl rfl
  have hdigestFits : (c.promotionFingerprint r).length ≤ 64 := hdigest.le
  obtain rfl := List.singleton_inj.1 hrow
  simp only [RowTakes, recordColumns, List.forall₂_cons, List.forall₂_nil_left_iff,
    takes_required_uuid, takes_bigInteger, takes_varchar, takes_optional_text,
    takes_optional_boolean, takes_optional_timestamp, takes_optional_integer, takes_discountKind,
    hchain, hsubchain, hscope, hpromotion, hofferedFits, hminimumFits, hmaximumFits, hrateFits,
    hpurchaseFits, hpriceFits, hunitPriceFits, hdigestFits, true_and, and_true]

/-! ## Values that are sent -/

variable {sent : Decimal → Bool}

@[simp] theorem sendable_cons (v : Value) (row : Row) :
    Sendable sent (v :: row) ↔ v.sendable sent = true ∧ Sendable sent row :=
  List.forall_mem_cons

@[simp] theorem sendable_nil : Sendable sent [] := fun _ h => by cases h

theorem sendables_iff {values : List Value} :
    Value.sendables sent values = true ↔ Sendable sent values := by
  induction values with
  | nil => exact iff_of_true rfl sendable_nil
  | cons v rest ih => rw [Value.sendables, Bool.and_eq_true, sendable_cons, ih]

theorem sendable_tuple_map {α : Type} (items : List α) (f : α → Value) :
    (Value.tuple (items.map f)).sendable sent = true ↔
      ∀ item ∈ items, (f item).sendable sent = true := by
  rw [Value.sendable, sendables_iff, Sendable, List.forall_mem_map]

theorem sendable_optional {α : Type} {f : α → Value} (hf : ∀ a, (f a).sendable sent = true)
    (o : Option α) : (Value.optional f o).sendable sent = true := by
  cases o with
  | none => rfl
  | some a => exact hf a

/-- The values that hold no text and no decimal. -/
theorem sendable_plain :
    (∀ id, (Value.uuid id).sendable sent = true) ∧ (∀ n, (Value.natural n).sendable sent = true) ∧
      (∀ b, (Value.bool b).sendable sent = true) ∧
      (∀ time, (Value.datetime time).sendable sent = true) ∧
      (∀ o, (Value.optional Value.int o).sendable sent = true) ∧
      (∀ o, (Value.optional Value.bool o).sendable sent = true) ∧
      ∀ o, (Value.optional Value.datetime o).sendable sent = true :=
  ⟨fun _ => rfl, fun _ => rfl, fun _ => rfl, fun _ => rfl, sendable_optional fun _ => rfl,
    sendable_optional fun _ => rfl, sendable_optional fun _ => rfl⟩

theorem sendable_text (s : String) : (Value.text s).sendable sent = true ↔ '\x00' ∉ s.toList := by
  rw [Value.sendable, decide_eq_true_iff]

theorem sendable_discountKind (kind : DiscountKind) :
    (Value.text (discountKindValue kind)).sendable sent = true := by
  rw [sendable_text]
  cases kind <;> decide

/-- A digest in 64 hexadecimal digits. -/
def IsDigest (s : String) : Prop := s.length = 64 ∧ s.toList.all Char.isAlphanum = true

theorem IsDigest.sendable {s : String} (h : IsDigest s) : (Value.text s).sendable sent = true := by
  refine (sendable_text s).2 fun hnul => ?_
  have hdigit := List.all_eq_true.1 h.2 _ hnul
  exact absurd hdigit (by decide)

/-- The fields of a price and its row hold the same texts. -/
theorem PriceRecord.sendable_iff (r : PriceRecord) (c : RowContext) (metadataIndex : Nat)
    {row : Row} (hrow : (eventRows c metadataIndex (.price r)).2 = [row]) :
    Sendable sent row ↔ Sendable sent r.values := by
  obtain ⟨huuid, -⟩ := @sendable_plain sent
  obtain rfl := List.singleton_inj.1 hrow
  simp only [PriceRecord.values, sendable_cons, huuid, true_and, and_congr_right_iff]
  intro _ _ _ _ hcode
  refine and_iff_right ?_
  split
  · exact hcode
  · rfl

theorem rowFits_cons {c : Column} {columns : List Column} {v : Value} {row : Row} :
    RowFits sent (c :: columns) (v :: row) ↔
      (c.takes v = true ∧ v.sendable sent = true) ∧ RowFits sent columns row := by
  rw [RowFits, List.forall₂_cons, Bool.and_eq_true, RowFits]

theorem rowFits_nil : RowFits sent [] [] := .nil

/-! ## Children of a promotion -/

/-- The rows of the children fit where each child does, and its index. -/
theorem childRows_fit_iff {α : Type} {children : List α} {fields : α → Row} {columns : List Column}
    (file : FileId) {recordIndex : Nat} (hindex : recordIndex < 2 ^ 63) :
    (∀ row ∈ children.mapIdx fun index child =>
        [Value.uuid file, Value.natural recordIndex, Value.natural index] ++ fields child,
      RowFits sent (childKey ++ columns) row) ↔
      children.length ≤ 2 ^ 31 ∧ ∀ child ∈ children, RowFits sent columns (fields child) := by
  have hrow : ∀ (index : Nat) (child : α),
      RowFits sent (childKey ++ columns)
        ([Value.uuid file, Value.natural recordIndex, Value.natural index] ++ fields child) ↔
      index < 2 ^ 31 ∧ RowFits sent columns (fields child) := by
    intro index child
    have hkey : ∀ id, (Value.uuid id).sendable sent = true := fun _ => rfl
    have hnatural : ∀ n, (Value.natural n).sendable sent = true := fun _ => rfl
    simp only [childKey, List.cons_append, List.nil_append, rowFits_cons, takes_required_uuid,
      takes_bigInteger, takes_integer, hkey, hnatural, hindex, and_true, true_and]
  constructor
  · intro h
    have hat : ∀ (i : Nat) (hi : i < children.length),
        i < 2 ^ 31 ∧ RowFits sent columns (fields children[i]) := fun i hi =>
      (hrow i _).1 (h _ (List.mem_mapIdx.2 ⟨i, hi, rfl⟩))
    constructor
    · by_contra hlong
      have hlast := (hat (2 ^ 31) (by omega)).1
      omega
    · intro child hchild
      obtain ⟨i, hi, rfl⟩ := List.getElem_of_mem hchild
      exact (hat i hi).2
  · rintro ⟨hlength, hfields⟩ row hmem
    obtain ⟨i, hi, rfl⟩ := List.mem_mapIdx.1 hmem
    exact (hrow i _).2 ⟨by omega, hfields _ (List.getElem_mem hi)⟩

theorem mem_effectivePromotionStoreIds {r : PromotionRecord} {storeId : String} :
    storeId ∈ effectivePromotionStoreIds r ↔
      storeId ∈ r.storeIds ∨ r.sourceStoreId = some storeId ∧ storeId ≠ "" := by
  rw [effectivePromotionStoreIds]
  have hmem : ∀ ids, storeId ∈ Table.distinctOn id (r.storeIds ++ ids) ↔
      storeId ∈ r.storeIds ++ ids := by
    intro ids
    constructor
    · exact Table.mem_of_mem_distinctOn
    · intro h
      obtain ⟨s, hs, rfl⟩ := @Table.exists_mem_distinctOn _ _ _ id _ _ h
      exact hs
  refine (hmem _).trans ?_
  rw [List.mem_append]
  refine or_congr_right ?_
  cases r.sourceStoreId with
  | none => simp
  | some scope =>
    by_cases hempty : scope = ""
    · subst hempty
      simp only [if_true, List.not_mem_nil, Option.some.injEq, ne_eq, false_iff, not_and, not_not]
      exact Eq.symm
    · simp only [if_neg hempty, List.mem_singleton, Option.some.injEq, ne_eq]
      constructor
      · rintro rfl
        exact ⟨rfl, hempty⟩
      · exact fun h => h.1.symm

theorem sendable_record (fields : List Value) :
    (Value.record fields).sendable sent = true ↔ Sendable sent fields := by
  rw [Value.sendable, sendables_iff]

/-- The fields of a promotion and its rows hold the same texts. -/
theorem PromotionRecord.sendable_iff (r : PromotionRecord) (c : RowContext)
    (hdigest : IsDigest (c.promotionFingerprint r)) (metadataIndex : Nat) {row : Row}
    (hrow : (eventRows c metadataIndex (.promotion r)).2 = [row]) :
    (Sendable sent row ∧ (∀ item ∈ r.items, Sendable sent item.values) ∧
      (∀ id ∈ effectivePromotionStoreIds r, (Value.text id).sendable sent = true) ∧
        ∀ id ∈ r.clubIds, (Value.text id).sendable sent = true) ↔ Sendable sent r.values := by
  have hscope : (Value.text (r.sourceStoreId.getD "")).sendable sent = true ↔
      (Value.optional Value.text r.sourceStoreId).sendable sent = true := by
    cases r.sourceStoreId with
    | none => exact iff_of_true ((sendable_text _).2 (by decide)) rfl
    | some id => exact Iff.rfl
  have hstores : (Value.text (r.sourceStoreId.getD "")).sendable sent = true →
      ((∀ id ∈ effectivePromotionStoreIds r, (Value.text id).sendable sent = true) ↔
        ∀ id ∈ r.storeIds, (Value.text id).sendable sent = true) := by
    intro hfree
    constructor
    · exact fun h id hid => h id (mem_effectivePromotionStoreIds.2 (.inl hid))
    · intro h id hid
      rcases mem_effectivePromotionStoreIds.1 hid with hid | ⟨hid, -⟩
      · exact h id hid
      · rwa [hid] at hfree
  obtain ⟨huuid, hnatural, -, -, hint, hbool, hdatetime⟩ := @sendable_plain sent
  obtain rfl := List.singleton_inj.1 hrow
  simp only [PromotionRecord.values, sendable_cons, sendable_nil, sendable_tuple_map,
    sendable_record, sendable_discountKind, hdigest.sendable, huuid, hnatural, hint, hbool,
    hdatetime,
    true_and, and_true, ← hscope]
  constructor
  · rintro ⟨⟨hchain, hsubchain, hstore, hid, hdescription, hrest⟩, hitems, hids, hclubs⟩
    exact ⟨hchain, hsubchain, hstore, hid, hdescription, hitems, (hstores hstore).1 hids, hclubs,
      hrest⟩
  · rintro ⟨hchain, hsubchain, hstore, hid, hdescription, hitems, hids, hclubs, hrest⟩
    exact ⟨⟨hchain, hsubchain, hstore, hid, hdescription, hrest⟩, hitems, (hstores hstore).2 hids,
      hclubs⟩

/-! ## Records that fit -/

/-- The integers of a record are within the width of their columns. -/
def IntegersFit : ParsedRecord → Prop
  | .store r => r.recordIndex < 2 ^ 63
  | .price r => r.recordIndex < 2 ^ 63 ∧ Small r.itemType ∧ Small r.itemStatus
  | .promotion r => r.recordIndex < 2 ^ 63 ∧ Small r.rewardType ∧
      (∀ item ∈ r.items, Small item.itemType) ∧ r.items.length ≤ 2 ^ 31 ∧
      (effectivePromotionStoreIds r).length ≤ 2 ^ 31 ∧ r.clubIds.length ≤ 2 ^ 31
  | .metadata _ => True
  | .issue _ => True

/-- A record of one row fits where its row does. -/
theorem recordFits_singleton {c : RowContext} {metadataIndex : Nat} {record : ParsedRecord}
    {table : StagingTable} {row : Row}
    (h : recordRows c metadataIndex record = [(table, [row])]) :
    RecordFits sent c metadataIndex record ↔ RowFits sent (recordColumns table) row := by
  rw [RecordFits, h, List.forall_mem_singleton, List.forall_mem_singleton]

theorem StoreRecord.fits_iff {r : StoreRecord} (h : r.postInit = .ok ()) (c : RowContext)
    (metadataIndex : Nat) :
    RecordFits sent c metadataIndex (.store r) ↔
      IntegersFit (.store r) ∧ Sendable sent r.values := by
  have huuid : (Value.uuid c.sourceFileId).sendable sent = true := rfl
  rw [recordFits_singleton rfl, rowFits_iff, takes_iff h, sendable_cons, IntegersFit]
  exact and_congr_right fun _ => and_iff_right huuid

theorem PriceRecord.fits_iff {r : PriceRecord} (h : r.postInit = .ok ()) (c : RowContext)
    (metadataIndex : Nat) :
    RecordFits sent c metadataIndex (.price r) ↔
      IntegersFit (.price r) ∧ Sendable sent r.values := by
  rw [recordFits_singleton rfl, rowFits_iff, takes_iff h c metadataIndex rfl,
    sendable_iff r c metadataIndex rfl, IntegersFit]

theorem PromotionItem.fits_iff {item : PromotionItem} (h : item.postInit = .ok ()) :
    RowFits sent [required (.varchar 128), optionalColumn .integer, required .boolean] item.values ↔
      Small item.itemType ∧ Sendable sent item.values := by
  have hcode : item.itemCode.length ≤ 128 := ensureTextLength_ok h _ rfl
  rw [rowFits_iff]
  refine and_congr_left fun _ => ?_
  simp only [RowTakes, PromotionItem.values, List.forall₂_cons, List.forall₂_nil_left_iff,
    takes_varchar, takes_optional_integer, takes_required_boolean, hcode, true_and, and_true]

/-- The one text of a child. -/
theorem code_fits_iff {id : String} (h : id.length ≤ 128) :
    RowFits sent [required (.varchar 128)] [Value.text id] ↔
      (Value.text id).sendable sent = true := by
  rw [rowFits_cons, takes_varchar]
  constructor
  · exact fun hfits => hfits.1.2
  · exact fun hfree => ⟨⟨h, hfree⟩, rowFits_nil⟩

theorem PromotionRecord.storeIds_within {r : PromotionRecord} (h : r.postInit = .ok ()) :
    (∀ id ∈ effectivePromotionStoreIds r, id.length ≤ 128) ∧ ∀ id ∈ r.clubIds, id.length ≤ 128 := by
  obtain ⟨⟨⟩, -, h⟩ := bind_eq_ok.1 h
  obtain ⟨⟨⟩, -, h⟩ := bind_eq_ok.1 h
  obtain ⟨⟨⟩, hstore, h⟩ := bind_eq_ok.1 h
  obtain ⟨⟨⟩, -, h⟩ := bind_eq_ok.1 h
  obtain ⟨⟨⟩, hstores, h⟩ := bind_eq_ok.1 h
  obtain ⟨⟨⟩, hclubs, -⟩ := bind_eq_ok.1 h
  constructor
  · intro id hid
    rcases mem_effectivePromotionStoreIds.1 hid with hid | ⟨hid, -⟩
    · exact ensureTextLength_ok (forM_eq_ok hstores id hid) _ rfl
    · exact ensureTextLength_ok hstore id hid
  · exact fun id hid => ensureTextLength_ok (forM_eq_ok hclubs id hid) _ rfl

theorem PromotionRecord.fits_iff {r : PromotionRecord} (h : r.postInit = .ok ())
    (hitems : ∀ item ∈ r.items, item.postInit = .ok ()) (c : RowContext)
    (hdigest : IsDigest (c.promotionFingerprint r)) (metadataIndex : Nat) :
    RecordFits sent c metadataIndex (.promotion r) ↔
      IntegersFit (.promotion r) ∧ Sendable sent r.values := by
  obtain ⟨hstores, hclubs⟩ := storeIds_within h
  obtain ⟨row, hrow⟩ : ∃ row, (eventRows c metadataIndex (.promotion r)).2 = [row] := ⟨_, rfl⟩
  have hrows : RecordFits sent c metadataIndex (.promotion r) ↔
      RowFits sent (recordColumns .promotions) row ∧
        ∀ rows ∈ promotionChildRows c.sourceFileId r, ∀ row ∈ rows.2,
          RowFits sent (recordColumns rows.1) row := by
    rw [RecordFits, recordRows, List.forall_mem_cons, hrow, List.forall_mem_singleton]
    rfl
  rw [hrows, rowFits_iff, takes_iff h c hdigest.1 metadataIndex hrow,
    ← sendable_iff r c hdigest metadataIndex hrow, IntegersFit]
  -- The rows of the children fit only where the index of the record does, as its own row says.
  by_cases hindex : r.recordIndex < 2 ^ 63
  · simp only [promotionChildRows, recordColumns, List.forall_mem_cons, List.not_mem_nil,
      false_imp_iff, implies_true, and_true, childRows_fit_iff c.sourceFileId hindex]
    have hitem : (∀ item ∈ r.items, RowFits sent [required (.varchar 128), optionalColumn .integer,
        required .boolean] item.values) ↔
        (∀ item ∈ r.items, Small item.itemType) ∧ ∀ item ∈ r.items, Sendable sent item.values := by
      rw [← forall₂_and]
      exact forall₂_congr fun item hmem => PromotionItem.fits_iff (hitems item hmem)
    have hstore : (∀ id ∈ effectivePromotionStoreIds r,
        RowFits sent [required (.varchar 128)] [Value.text id]) ↔
        ∀ id ∈ effectivePromotionStoreIds r, (Value.text id).sendable sent = true :=
      forall₂_congr fun id hid => code_fits_iff (hstores id hid)
    have hclub : (∀ id ∈ r.clubIds, RowFits sent [required (.varchar 128)] [Value.text id]) ↔
        ∀ id ∈ r.clubIds, (Value.text id).sendable sent = true :=
      forall₂_congr fun id hid => code_fits_iff (hclubs id hid)
    rw [hitem, hstore, hclub]
    tauto
  · exact iff_of_false (fun hfits => hindex hfits.1.1.1) fun hfits => hindex hfits.1.1

/-! ## Remote files -/

/-- The stored text of a compression format. -/
def compressionValue : CompressionFormat → String
  | .none => "none"
  | .gzip => "gzip"
  | .zip => "zip"
  | .zstandard => "zstandard"
  | .unknown => "unknown"

def compressionFormats : List CompressionFormat := [.none, .gzip, .zip, .zstandard, .unknown]

def protocols : List SourceProtocol := [.https, .http, .ftp, .ftps, .fixture]

def ingestionStatuses : List IngestionStatus :=
  [.discovered, .downloading, .archived, .parsing, .staged, .validating, .applying, .completed,
    .quarantined, .failedRetryable, .failedTerminal]

structure RemoteFile where
  retailerId : String
  portalId : String
  protocol : SourceProtocol
  remoteId : String
  downloadUrl : String
  originalFilename : String
  documentType : DocumentType
  compression : CompressionFormat
  discoveredAt : Time
  sourceTimestamp : Option Time
  contentLength : Option Int
  mediaType : Option String
  etag : Option String
  lastModified : Option Time
  responseMetadata : List (String × String)
  deriving DecidableEq, Repr

/-- How the texts of a remote file are read: the URL rules, the characters of the categories that
`_validate_download_url` refuses, and `str.isspace`. -/
structure FileRules extends TextRules where
  isControl : Char → Bool
  isSpace : Char → Bool

/-- `_validate_download_url`. -/
def FileRules.validateDownloadUrl (rules : FileRules) (value : String) (protocol : SourceProtocol) :
    Except Failure Unit := do
  require (value ≠ "") (domainInvalid "download_url is required")
  require (value.length ≤ 8192) (domainInvalid "download_url exceeds 8192 characters")
  require (value.toList.any rules.isControl = false)
    (domainInvalid "download_url contains unsafe Unicode controls")
  match rules.urlsplit value.toList with
  | none => .error (domainInvalid "download_url is malformed")
  | some parsed => do
    require ((portOf parsed).isSome = true) (domainInvalid "download_url is malformed")
    require ('@' ∉ parsed.netloc) (domainInvalid "download_url must not contain credentials")
    if protocol = .fixture then
      require (parsed.scheme ≠ [] ∧ (parsed.netloc ≠ [] ∨ parsed.path ≠ []))
        (domainInvalid "fixture download_url has no resource")
    else do
      require (rules.casefold parsed.scheme = (protocolValue protocol).toList)
        (domainInvalid "download_url scheme does not match protocol")
      require (rules.hostname parsed ≠ [] ∧ (rules.hostname parsed).any rules.isSpace = false)
        (domainInvalid "download_url has no valid host")

def RemoteFile.postInit (rules : FileRules) (f : RemoteFile) : Except Failure Unit := do
  require (f.retailerId ≠ "" ∧ f.portalId ≠ "" ∧ f.remoteId ≠ "")
    (domainInvalid "retailer_id, portal_id, and remote_id are required")
  require (f.remoteId.length ≤ 4096) (domainInvalid "remote_id exceeds 4096 characters")
  let basename ← rules.pathRules.safeBasename f.originalFilename.toList
  require (basename = f.originalFilename.toList)
    (domainInvalid "original_filename must be a decoded basename")
  rules.validateDownloadUrl f.downloadUrl f.protocol
  require (∀ length ∈ f.contentLength, 0 ≤ length)
    (domainInvalid "content_length cannot be negative")

/-- The columns of `source_files` that `register_discovery` writes. -/
def sourceFileColumns : List Column :=
  [required .uuid, required .uuid, { required .text with lengths := some (1, 4096) },
    required .text, { required .text with lengths := some (1, 2048) },
    oneOf (required (.varchar 32)) (documentTypes.map documentTypeValue),
    oneOf (required (.varchar 16)) (compressionFormats.map compressionValue),
    oneOf (required (.varchar 16)) (protocols.map protocolValue),
    oneOf (required (.varchar 32)) (ingestionStatuses.map IngestionStatus.value),
    required .timestamp, optionalColumn .timestamp, nonnegative (optionalColumn .bigInteger),
    optionalColumn .text, optionalColumn .text, optionalColumn .timestamp, required .jsonb]

/-- The texts, the numbers and the instants of a file, in the order of its columns. -/
def RemoteFile.values (f : RemoteFile) : Row :=
  [.text f.remoteId, .text f.downloadUrl, .text f.originalFilename,
    .text (documentTypeValue f.documentType), .text (compressionValue f.compression),
    .text (protocolValue f.protocol), .text (IngestionStatus.value .discovered),
    .datetime f.discoveredAt, Value.optional Value.datetime f.sourceTimestamp,
    Value.optional Value.int f.contentLength, Value.optional Value.text f.mediaType,
    Value.optional Value.text f.etag, Value.optional Value.datetime f.lastModified,
    .tuple (f.responseMetadata.map fun entry => .tuple [.text entry.1, .text entry.2])]

/-- The file is registered without an error, under its retailer and its portal. -/
def RemoteFile.Fits (sent : Decimal → Bool) (retailer portal : FileId) (f : RemoteFile) : Prop :=
  RowFits sent sourceFileColumns (.uuid retailer :: .uuid portal :: f.values)

theorem takes_checked_text (low high : Nat) (s : String) :
    Column.takes { required .text with lengths := some (low, high) } (.text s) = true ↔
      low ≤ s.length ∧ s.length ≤ high := by
  rw [takes_text]
  simp [required, ColumnType.holds, Column.checks]

theorem takes_enumerations (f : RemoteFile) :
    (oneOf (required (.varchar 32)) (documentTypes.map documentTypeValue)).takes
        (.text (documentTypeValue f.documentType)) = true ∧
      (oneOf (required (.varchar 16)) (compressionFormats.map compressionValue)).takes
        (.text (compressionValue f.compression)) = true ∧
      (oneOf (required (.varchar 16)) (protocols.map protocolValue)).takes
        (.text (protocolValue f.protocol)) = true ∧
      (oneOf (required (.varchar 32)) (ingestionStatuses.map IngestionStatus.value)).takes
        (.text (IngestionStatus.value .discovered)) = true := by
  refine ⟨?_, ?_, ?_, by decide⟩
  · cases f.documentType <;> decide
  · cases f.compression <;> decide
  · cases f.protocol <;> decide

theorem takes_optional_length {o : Option Int} (h : ∀ i ∈ o, 0 ≤ i) :
    (nonnegative (optionalColumn .bigInteger)).takes (Value.optional Value.int o) = true ↔
      ∀ i ∈ o, i < 2 ^ 63 := by
  rw [takes_optional rfl]
  refine forall₂_congr fun i hi => ?_
  have hi := h i hi
  rw [takes_int]
  simp only [nonnegative, optionalColumn, ColumnType.holds, Column.checks, Signed,
    ColumnType.isNonnegative, Bool.and_eq_true, Bool.or_eq_true, decide_eq_true_eq, and_true,
    Bool.not_true, Bool.false_eq_true, false_or]
  omega

theorem RemoteFile.fits_iff {rules : FileRules} {f : RemoteFile} (h : f.postInit rules = .ok ())
    (retailer portal : FileId) :
    f.Fits sent retailer portal ↔
      (∀ length ∈ f.contentLength, length < 2 ^ 63) ∧ Sendable sent f.values := by
  obtain ⟨⟨-, -, hid⟩, h⟩ := require_bind_eq_ok.1 h
  obtain ⟨hidLength, h⟩ := require_bind_eq_ok.1 h
  obtain ⟨basename, hbasename, h⟩ := bind_eq_ok.1 h
  obtain ⟨rfl, hrest⟩ := require_bind_eq_ok.1 h
  obtain ⟨⟨⟩, -, hrange⟩ := bind_eq_ok.1 hrest
  have hlength : ∀ length ∈ f.contentLength, 0 ≤ length := require_eq_ok.1 hrange
  obtain ⟨-, -, -, hdisplayed⟩ := (TextRules.safeBasename_eq_ok _).1 hbasename
  obtain ⟨hname, hdisplayed⟩ := require_bind_eq_ok.1 hdisplayed
  obtain ⟨-, hdisplayed⟩ := require_bind_eq_ok.1 hdisplayed
  have hnameLength := (require_eq_ok.1 hdisplayed).1
  rw [String.length_toList] at hnameLength
  have hidPos : 1 ≤ f.remoteId.length := by
    rw [← String.length_toList]
    exact List.length_pos_iff.2 fun hnil => hid (String.toList_injective hnil)
  have hnamePos : 1 ≤ f.originalFilename.length := by
    rw [← String.length_toList]
    exact List.length_pos_iff.2 hname
  have hnameMax : f.originalFilename.length ≤ 2048 := by omega
  obtain ⟨htype, hcompression, hprotocol, hstatus⟩ := takes_enumerations f
  have huuid : ∀ id, (Value.uuid id).sendable sent = true := fun _ => rfl
  have hinstant : ∀ t, (required .timestamp).takes (.datetime t) = true := fun _ => rfl
  have htuple : ∀ items, (required .jsonb).takes (.tuple items) = true := fun _ => rfl
  rw [Fits, rowFits_iff, sendable_cons, sendable_cons, and_iff_right (huuid _),
    and_iff_right (huuid _)]
  refine and_congr_left fun _ => ?_
  simp only [RowTakes, sourceFileColumns, RemoteFile.values, List.forall₂_cons,
    List.forall₂_nil_left_iff, takes_required_uuid, takes_checked_text, takes_required_text,
    takes_optional_text, takes_optional_timestamp, takes_optional_length hlength, htype,
    hcompression, hprotocol, hstatus, hinstant, htuple, hidPos, hidLength, hnamePos, hnameMax,
    true_and, and_true]

/-! ## What the constructors admit -/

/-- **What the constructors admit is written without an error exactly where its integers are within
the width of their columns, its texts hold no NUL character and its decimals have no more digits
than are sent.** -/
theorem admitted_fits_iff (sent : Decimal → Bool) (rules : FileRules) (c : RowContext)
    (hdigest : ∀ r, IsDigest (c.promotionFingerprint r)) :
    (∀ (r : StoreRecord) (metadataIndex : Nat), r.postInit = .ok () →
      (RecordFits sent c metadataIndex (.store r) ↔
        IntegersFit (.store r) ∧ Sendable sent r.values)) ∧
    (∀ (r : PriceRecord) (metadataIndex : Nat), r.postInit = .ok () →
      (RecordFits sent c metadataIndex (.price r) ↔
        IntegersFit (.price r) ∧ Sendable sent r.values)) ∧
    (∀ (r : PromotionRecord) (metadataIndex : Nat), r.postInit = .ok () →
      (∀ item ∈ r.items, item.postInit = .ok ()) →
      (RecordFits sent c metadataIndex (.promotion r) ↔
        IntegersFit (.promotion r) ∧ Sendable sent r.values)) ∧
    ∀ (f : RemoteFile) (retailer portal : FileId), f.postInit rules = .ok () →
      (f.Fits sent retailer portal ↔
        (∀ length ∈ f.contentLength, length < 2 ^ 63) ∧ Sendable sent f.values) := by
  refine ⟨?_, ?_, ?_, ?_⟩
  · exact fun r metadataIndex h => StoreRecord.fits_iff h c metadataIndex
  · exact fun r metadataIndex h => PriceRecord.fits_iff h c metadataIndex
  · exact fun r metadataIndex h hitems =>
      PromotionRecord.fits_iff h hitems c (hdigest r) metadataIndex
  · exact fun f retailer portal h => RemoteFile.fits_iff h retailer portal

/-- A price of 9.90 with an item type. -/
def typedPrice (itemType : Int) : PriceRecord where
  recordIndex := 1
  chainId := "7290000000001"
  subchainId := "1"
  storeId := "5"
  itemCode := "7290000000008"
  itemType := some itemType
  itemName := "Milk"
  manufacturerName := none
  manufacturerCountry := none
  manufacturerDescription := none
  unitQuantity := none
  quantity := some ⟨false, 1, 0⟩
  unitOfMeasure := some "l"
  isWeighted := some false
  quantityInPackage := none
  itemPrice := ⟨false, 990, -2⟩
  unitOfMeasurePrice := none
  allowDiscount := none
  itemStatus := some 1
  priceUpdatedAt := some 0
  lastSaleAt := none
  auditNumber := none

/-- A file with a declared length. -/
def lengthFile (contentLength : Int) : RemoteFile where
  retailerId := "shop"
  portalId := "portal"
  protocol := .https
  remoteId := "prices.example/Price1.gz"
  downloadUrl := "https://prices.example/Price1.gz"
  originalFilename := "Price1.gz"
  documentType := .priceDelta
  compression := .gzip
  discoveredAt := 0
  sourceTimestamp := none
  contentLength := some contentLength
  mediaType := none
  etag := none
  lastModified := none
  responseMetadata := []

/-- The rows of a file, with digests of zeros. -/
def zeroDigests : RowContext := ⟨1, none, none, fun _ => String.ofList (List.replicate 64 '0')⟩

/-- The digits of a numeric: 131072 before the point, and 16383 behind it. -/
def withinNumeric (d : Decimal) : Bool :=
  decide (-16383 ≤ d.exponent ∧ (Nat.toDigits 10 d.coefficient).length + d.exponent ≤ 131072)

def asciiFileRules : FileRules :=
  { Sources.asciiRules with
    isControl := fun c => decide (c.toNat < 0x20)
    isSpace := fun c => decide (c = ' ') }

theorem typedPrice_constructed (itemType : Int) : (typedPrice itemType).postInit = .ok () := by
  -- The constructor does not read the item type.
  have hzero : (typedPrice 0).postInit = .ok () := by decide +kernel
  exact hzero

theorem lengthFile_constructed : (lengthFile 20480).postInit asciiFileRules = .ok () := by
  decide +kernel

theorem admitted_fits_iff_small :
    RecordFits withinNumeric zeroDigests 0 (.price (typedPrice 1)) ∧
      (lengthFile 20480).Fits withinNumeric 1 2 := by
  have hzeros : (String.ofList (List.replicate 64 '0')).length = 64 ∧
      (String.ofList (List.replicate 64 '0')).toList.all Char.isAlphanum = true := by decide
  have hdigest : ∀ r, IsDigest (zeroDigests.promotionFingerprint r) := fun _ => hzeros
  obtain ⟨-, hprice, -, hfile⟩ := admitted_fits_iff withinNumeric asciiFileRules zeroDigests hdigest
  refine ⟨(hprice _ 0 (typedPrice_constructed 1)).2 ⟨?_, ?_⟩,
    (hfile _ 1 2 lengthFile_constructed).2 ⟨?_, ?_⟩⟩
  · have hsmall : ∀ i ∈ some (1 : Int), -2 ^ 31 ≤ i ∧ i < 2 ^ 31 := by decide
    exact ⟨by decide, hsmall, hsmall⟩
  · exact sendables_iff.1 (by decide)
  · intro length hlength
    cases hlength
    decide
  · exact sendables_iff.1 (by decide)

/-- An item type of `2 ^ 31` is admitted, and its column does not hold it. -/
theorem wide_item_type_overflows :
    (typedPrice 2147483648).postInit = .ok () ∧
      ¬ RecordFits withinNumeric zeroDigests 0 (.price (typedPrice 2147483648)) := by
  refine ⟨typedPrice_constructed _, fun h => ?_⟩
  have htype := ((PriceRecord.fits_iff (typedPrice_constructed 2147483648) zeroDigests 0).1 h).1.2.1
  exact absurd (htype _ rfl).2 (by decide)

end Makolet.Batching
