import Makolet.Export.ParquetMetadata

/-!
# The pages of a Parquet file

The body of a data page is read back. `Fits` says that a value has the representation of its type;
`levels` and `plain` are the bytes `_encode_definition_levels` and `_encode_plain` return for such
values, and `pageBytes` those of a page body. Their lengths stay below what the budget of a batch
charges for them.
-/

set_option autoImplicit false

namespace Makolet.Export

open Makolet.Lib
open Makolet.Lib.Parquet (PlainValue Physical readLevels readPlain readPlainValue assemble readPage
  readPageLevels)

/-! ## Definition levels -/

def levels (present : List Bool) : Bytes :=
  little 4 (levelRuns present).length ++ levelRuns present

theorem encodeDefinitionLevels_eq {present : List Bool} (h : (levelRuns present).length < 2 ^ 32) :
    encodeDefinitionLevels present = .ok (levels present) := by
  rw [encodeDefinitionLevels, packUnsigned32, require, if_pos h]
  rfl

theorem encodeRun_eq (value : Bool) (count : Nat) :
    encodeRun value count = varint (2 * count) ++ [if value then 1 else 0] := by
  rw [encodeRun, unsignedVarint_eq, Nat.shiftLeft_eq, Nat.mul_comm]

theorem length_encodeRun_pos (value : Bool) (count : Nat) : 0 < (encodeRun value count).length := by
  rw [encodeRun_eq, List.length_append, List.length_singleton]
  omega

/-- A run is read as its levels. -/
theorem readLevels_run (value : Bool) {count : Nat} (hcount : 0 < count) (fuel remaining : Nat)
    (rest : Bytes) :
    readLevels (fuel + 1) (count + remaining) (encodeRun value count ++ rest) =
      (readLevels fuel remaining rest).map (List.replicate count value ++ ·) := by
  have hvarint := Reads.varint (2 * count) ([if value then 1 else 0] ++ rest)
  have hmin : min count (count + remaining) = count := by omega
  have hleft : count + remaining - count = remaining := by omega
  rw [readLevels, if_neg (by omega), encodeRun_eq, List.append_assoc, hvarint, Option.bind_some]
  dsimp only
  rw [if_pos (by omega), List.singleton_append, Reader.byte, Option.bind_some,
    Nat.mul_div_cancel_left count (by decide), hmin, hleft]
  cases value <;> rfl

/-- Every run takes a byte or more, so that the bytes bound the number of runs. -/
theorem readLevels_encodeRuns (rest : List Bool) : ∀ (value : Bool) (count fuel : Nat),
    0 < count → (encodeRuns value count rest).length ≤ fuel →
      readLevels fuel (count + rest.length) (encodeRuns value count rest) =
        some (List.replicate count value ++ rest) := by
  induction rest with
  | nil =>
    intro value count fuel hcount hfuel
    have hpos := length_encodeRun_pos value count
    rw [encodeRuns] at hfuel
    obtain ⟨fuel, rfl⟩ : ∃ m, fuel = m + 1 := ⟨fuel - 1, by omega⟩
    have hrun := readLevels_run value hcount fuel 0 []
    rw [List.append_nil] at hrun
    rw [encodeRuns, List.length_nil, hrun]
    cases fuel <;> rfl
  | cons next rest ih =>
    intro value count fuel hcount hfuel
    rw [encodeRuns] at hfuel ⊢
    rw [List.length_cons]
    split at hfuel
    case isTrue heq =>
      have hrest := ih value (count + 1) fuel (by omega) hfuel
      rw [if_pos heq, show count + (rest.length + 1) = count + 1 + rest.length by omega, hrest, heq,
        List.replicate_succ', List.append_assoc, List.singleton_append]
    case isFalse hne =>
      have hpos := length_encodeRun_pos value count
      rw [List.length_append] at hfuel
      obtain ⟨fuel, rfl⟩ : ∃ m, fuel = m + 1 := ⟨fuel - 1, by omega⟩
      have hrest := ih next 1 fuel (by omega) (by omega)
      rw [if_neg hne, readLevels_run value hcount, Nat.add_comm rest.length 1, hrest]
      rfl

theorem readLevels_levelRuns (present : List Bool) {fuel : Nat}
    (h : (levelRuns present).length ≤ fuel) :
    readLevels fuel present.length (levelRuns present) = some present := by
  cases present with
  | nil => cases fuel <;> rfl
  | cons value rest =>
    rw [List.length_cons, levelRuns, Nat.add_comm,
      readLevels_encodeRuns rest value 1 fuel (by omega) h]
    rfl

/-- No more than two bytes a level. -/
theorem length_encodeRun {value : Bool} {count : Nat} (h : 0 < count) :
    (encodeRun value count).length ≤ 2 * count := by
  have hlt := length_varint_lt (by omega : 2 ≤ 2 * count)
  rw [encodeRun_eq, List.length_append, List.length_singleton]
  omega

theorem length_encodeRuns (rest : List Bool) : ∀ (value : Bool) (count : Nat), 0 < count →
    (encodeRuns value count rest).length ≤ 2 * (count + rest.length) := by
  induction rest with
  | nil =>
    intro value count hcount
    exact length_encodeRun hcount
  | cons next rest ih =>
    intro value count hcount
    rw [encodeRuns, List.length_cons]
    split
    case isTrue =>
      have hrest := ih value (count + 1) (by omega)
      omega
    case isFalse =>
      have hrun : (encodeRun value count).length ≤ 2 * count := length_encodeRun hcount
      have hrest := ih next 1 (by omega)
      rw [List.length_append]
      omega

theorem length_levelRuns (present : List Bool) :
    (levelRuns present).length ≤ 2 * present.length := by
  cases present with
  | nil => exact Nat.le_refl 0
  | cons value rest =>
    have h := length_encodeRuns rest value 1 (by omega)
    rw [levelRuns, List.length_cons]
    omega

/-! ## Values -/

/-- A value as its type is normalized. -/
def Fits (t : ExportType) (v : PlainValue) : Prop :=
  match t, v with
  | .boolean, .bool _ => True
  | .int32, .int n => Signed 32 n
  | .int64, .int n => Signed 64 n
  | .string, .bytes bytes => bytes.length < 2 ^ 32
  | .binary, .bytes bytes => bytes.length < 2 ^ 32
  | .decimalString, .bytes bytes => bytes.length < 2 ^ 32
  | .timestampIso8601, .bytes bytes => bytes.length < 2 ^ 32
  | _, _ => False

def PhysicalType.physical : PhysicalType → Physical
  | boolean => .boolean
  | int32 => .int32
  | int64 => .int64
  | byteArray => .byteArray

theorem ofCode_physicalType (p : PhysicalType) :
    Physical.ofCode (p.code : Int) = some p.physical := by
  cases p <;> rfl

/-- The bytes of a value that is no boolean. -/
def plainValue (t : ExportType) : PlainValue → Bytes
  | .int n => if t = .int32 then little 4 (toTwos 32 n) else little 8 (toTwos 64 n)
  | .bytes bytes => little 4 bytes.length ++ bytes
  | .bool _ => []

def isTrue (v : PlainValue) : Bool := v == .bool true

def plain (values : List PlainValue) (t : ExportType) : Bytes :=
  if t = .boolean then packBits (values.map isTrue) else values.flatMap (plainValue t)

theorem packSigned_eq {w : Nat} {n : Int} (h : Signed (8 * w) n) :
    packSigned w n = .ok (little w (toTwos (8 * w) n)) := by
  rw [packSigned, require, if_pos h]
  rfl

theorem packUnsigned32_eq {n : Nat} (h : n < 2 ^ 32) : packUnsigned32 n = .ok (little 4 n) := by
  rw [packUnsigned32, require, if_pos h]
  rfl

theorem encodePlainValue_eq {t : ExportType} {v : PlainValue} (ht : t ≠ .boolean) (h : Fits t v) :
    encodePlainValue t v = .ok (plainValue t v) := by
  cases t <;> cases v <;> try exact h.elim
  case boolean.bool => exact absurd rfl ht
  case int32.int n => exact packSigned_eq h
  case int64.int n => exact packSigned_eq h
  all_goals
    show (packUnsigned32 _).bind _ = _
    rw [packUnsigned32_eq h]
    rfl

/-- The values of a column that is no boolean are read one by one. -/
theorem reads_plainValue {t : ExportType} {v : PlainValue} (ht : t ≠ .boolean) (h : Fits t v) :
    Reads (readPlainValue (physicalType t).physical) (plainValue t v) v := by
  have hbytes (bytes : Bytes) (hb : bytes.length < 2 ^ 32) :
      Reads (readPlainValue .byteArray) (little 4 bytes.length ++ bytes) (.bytes bytes) := by
    have hsize : Reads (Reader.little 4) (little 4 bytes.length) bytes.length := Reads.little hb
    have hvalue := (Reads.take bytes).map (f := PlainValue.bytes)
    exact hsize.bind (f := fun size => (Reader.take size).bind fun bytes =>
      .pure (PlainValue.bytes bytes)) hvalue
  cases t <;> cases v <;> try exact h.elim
  case boolean.bool => exact absurd rfl ht
  case int32.int n =>
    have hread : Reads (Reader.little 4) (little 4 (toTwos 32 n)) (toTwos 32 n) :=
      Reads.little (toTwos_lt 32 n)
    have hmap := hread.map (f := fun n => PlainValue.int (ofTwos 32 n))
    rw [ofTwos_toTwos (by decide) h] at hmap
    exact hmap
  case int64.int n =>
    have hread : Reads (Reader.little 8) (little 8 (toTwos 64 n)) (toTwos 64 n) :=
      Reads.little (toTwos_lt 64 n)
    have hmap := hread.map (f := fun n => PlainValue.int (ofTwos 64 n))
    rw [ofTwos_toTwos (by decide) h] at hmap
    exact hmap
  all_goals exact hbytes _ h

/-- The bits of up to eight booleans. -/
theorem packValues_eq (values : List PlainValue) :
    packValues values = ofBits (values.map isTrue) := by
  -- With `k` bits packed, the next value sets the bit `k`.
  have hloop : ∀ (values : List PlainValue) (packed k : Nat), packed < 2 ^ k →
      (values.zipIdx k).foldl (fun packed value =>
        if value.1 = .bool true then packed ||| (1 <<< value.2) else packed) packed =
      packed + 2 ^ k * ofBits (values.map isTrue) := by
    intro values
    induction values with
    | nil => exact fun packed k _ => rfl
    | cons v rest ih =>
      intro packed k hpacked
      have hor : packed ||| (1 <<< k) = packed + 2 ^ k := by
        have h := Nat.two_pow_add_eq_or_of_lt hpacked 1
        rw [Nat.mul_one] at h
        rw [Nat.shiftLeft_eq, Nat.one_mul, Nat.or_comm, ← h, Nat.add_comm]
      rw [List.zipIdx_cons, List.foldl_cons, List.map_cons, ofBits, isTrue]
      have hpow : 2 ^ (k + 1) = 2 ^ k * 2 := Nat.pow_succ 2 k
      by_cases hv : v = .bool true
      · rw [if_pos hv, hor, ih _ _ (by omega), if_pos (by simp [hv]), hpow, Nat.mul_add,
          Nat.mul_one, Nat.mul_assoc, Nat.add_assoc]
      · rw [if_neg hv, ih _ _ (by omega), if_neg (by simpa using hv), hpow, Nat.zero_add,
          Nat.mul_assoc]
  have h := hloop values 0 0 (by decide)
  rw [Nat.zero_add, Nat.pow_zero, Nat.one_mul] at h
  exact h

theorem encodePlain_eq {values : List PlainValue} {t : ExportType} (h : ∀ v ∈ values, Fits t v) :
    encodePlain values t = .ok (plain values t) := by
  rw [encodePlain, plain]
  split
  case isTrue ht =>
    rw [packBits, List.length_map]
    refine congrArg _ (List.map_congr_left fun index _ => ?_)
    rw [packValues_eq, List.map_take, List.map_drop]
  case isFalse ht =>
    have hmap : values.mapM (encodePlainValue t) = .ok (values.map (plainValue t)) := by
      rw [mapM_eq_ok, List.forall₂_map_right_iff, List.forall₂_same]
      exact fun v hv => encodePlainValue_eq ht (h v hv)
    rw [hmap, List.flatMap_def]
    rfl

theorem reads_plain {values : List PlainValue} {t : ExportType} (h : ∀ v ∈ values, Fits t v) :
    Reads (readPlain (physicalType t).physical values.length) (plain values t) values := by
  by_cases ht : t = .boolean
  · subst ht
    have hbools : (values.map isTrue).map PlainValue.bool = values := by
      rw [List.map_map]
      refine (List.map_congr_left fun v hv => ?_).trans (List.map_id values)
      have hfits := h v hv
      cases v with
      | bool b => cases b <;> rfl
      | _ => exact hfits.elim
    have hread := (Reads.take (packBits (values.map isTrue))).map (f := fun packed =>
      ((packed.flatMap fun b => bits 8 b.toNat).take values.length).map PlainValue.bool)
    have hunpack := unpackBits (values.map isTrue)
    rw [List.length_map] at hunpack
    rw [hunpack, hbools, length_packBits, List.length_map] at hread
    exact hread
  · have hphysical : (physicalType t).physical ≠ .boolean := by
      cases t <;> first | exact absurd rfl ht | decide
    rw [readPlain, if_neg hphysical, plain, if_neg ht]
    exact Reads.many values fun v hv => reads_plainValue ht (h v hv)

/-! ## Page bodies -/

/-- The column a field is read as. -/
def leafOf (field : ExportField) : Parquet.Leaf where
  name := field.name
  physical := (physicalType field.valueType).physical
  optional := field.nullable
  converted := if isStringType field.valueType then some 0 else none
  logical := if isStringType field.valueType then some true else none

/-- The values of a column, as a field admits them: of its type, and none missing unless it is
nullable. -/
structure Admits (field : ExportField) (column : List (Option PlainValue)) : Prop where
  fits : ∀ v, some v ∈ column → Fits field.valueType v
  required : field.nullable = false → ∀ v ∈ column, v.isSome = true

def pageBytes (field : ExportField) (column : List (Option PlainValue)) : Bytes :=
  (if field.nullable then levels (column.map Option.isSome) else []) ++
    plain (column.filterMap id) field.valueType

section Body

variable {field : ExportField} {column : List (Option PlainValue)}

theorem Admits.fits_values (h : Admits field column) :
    ∀ v ∈ column.filterMap id, Fits field.valueType v := by
  intro v hv
  obtain ⟨w, hw, rfl⟩ := List.mem_filterMap.1 hv
  exact h.fits _ hw

theorem assemble_column (column : List (Option PlainValue)) :
    assemble (column.map Option.isSome) (column.filterMap id) = some column := by
  induction column with
  | nil => rfl
  | cons v rest ih =>
    cases v with
    | none =>
      show (assemble (rest.map Option.isSome) (rest.filterMap id)).map _ = _
      rw [ih]
      rfl
    | some v =>
      show (assemble (rest.map Option.isSome) (rest.filterMap id)).map _ = _
      rw [ih]
      rfl

theorem count_isSome (column : List (Option PlainValue)) :
    (column.map Option.isSome).count true = (column.filterMap id).length := by
  induction column with
  | nil => rfl
  | cons v rest ih => cases v <;> simp [ih]

theorem pageBody_eq {rows : List PreparedParquetRow} {fieldIndex : Nat}
    (h : Admits field (columnValues rows fieldIndex))
    (hlevels : (levelRuns ((columnValues rows fieldIndex).map Option.isSome)).length < 2 ^ 32) :
    pageBody rows field fieldIndex = .ok (pageBytes field (columnValues rows fieldIndex)) := by
  rw [pageBody, preparedColumn, pageBytes]
  dsimp only
  rw [encodePlain_eq h.fits_values, encodeDefinitionLevels_eq hlevels]
  cases field.nullable <;> rfl

/-- A column without nulls has the level one everywhere. -/
theorem Admits.levels_eq (h : Admits field column) (hnull : field.nullable = false) :
    column.map Option.isSome = List.replicate column.length true := by
  rw [List.eq_replicate_iff]
  refine ⟨List.length_map _, fun b hb => ?_⟩
  obtain ⟨v, hv, rfl⟩ := List.mem_map.1 hb
  exact h.required hnull v hv

theorem readPageLevels_pageBytes (h : Admits field column)
    (hlevels : (levelRuns (column.map Option.isSome)).length < 2 ^ 32) :
    readPageLevels (leafOf field) column.length (pageBytes field column) =
      some (column.map Option.isSome, plain (column.filterMap id) field.valueType) := by
  rw [readPageLevels, pageBytes]
  cases hnull : field.nullable with
  | false =>
    rw [if_neg (by simp [leafOf, hnull]), if_neg (by decide), List.nil_append, h.levels_eq hnull]
  | true =>
    have hsize : Reads (Reader.little 4) (little 4 (levelRuns (column.map Option.isSome)).length)
      (levelRuns (column.map Option.isSome)).length := Reads.little hlevels
    have hruns := Reads.take (levelRuns (column.map Option.isSome))
    have hread := readLevels_levelRuns (column.map Option.isSome) (Nat.le_refl _)
    rw [List.length_map] at hread
    rw [if_pos (by simp [leafOf, hnull]), if_pos rfl, levels, List.append_assoc, hsize]
    show (Reader.take _ _).bind _ = _
    rw [hruns]
    show (readLevels _ _ _).bind _ = _
    rw [hread]
    rfl

/-- **A page body is read back.** -/
theorem readPage_pageBytes (h : Admits field column)
    (hlevels : (levelRuns (column.map Option.isSome)).length < 2 ^ 32) :
    readPage (leafOf field) column.length (pageBytes field column) = some column := by
  have hvalues := reads_plain h.fits_values []
  rw [List.append_nil] at hvalues
  rw [readPage, readPageLevels_pageBytes h hlevels]
  show (readPlain _ _ _).bind _ = _
  rw [count_isSome]
  show (readPlain (physicalType field.valueType).physical _ _).bind _ = _
  rw [hvalues]
  exact assemble_column column

end Body

end Makolet.Export
