import Makolet.Lib.Bytes

/-!
# The compact protocol of Thrift

The values of the compact protocol, their encoding, and a reader of it. A field header holds the
type of the field and, when it is between 1 and 15, what its id adds to the id before it; a list
header holds the type of the elements and, up to 14, their number. A boolean field is in its header.
Doubles, sets and maps are left out.

`reads_value`: the reader reads back every value whose numbers fit their widths and whose lists have
elements of one kind.
-/

set_option autoImplicit false

namespace Makolet.Lib.Compact

inductive Width
  | w16
  | w32
  | w64
  deriving DecidableEq, Repr

namespace Width

def bits : Width → Nat
  | w16 => 16
  | w32 => 32
  | w64 => 64

end Width

inductive Kind
  | bool
  | byte
  | int (width : Width)
  | binary
  | list
  | struct
  deriving DecidableEq, Repr

namespace Kind

/-- The type of an element. -/
def code : Kind → Nat
  | bool => 2
  | byte => 3
  | int .w16 => 4
  | int .w32 => 5
  | int .w64 => 6
  | binary => 8
  | list => 9
  | struct => 12

def ofCode : Nat → Option Kind
  | 1 => some bool
  | 2 => some bool
  | 3 => some byte
  | 4 => some (int .w16)
  | 5 => some (int .w32)
  | 6 => some (int .w64)
  | 8 => some binary
  | 9 => some list
  | 12 => some struct
  | _ => none

theorem ofCode_code (k : Kind) : ofCode k.code = some k := by
  rcases k with _ | _ | w | _ | _ | _
  case int => cases w <;> rfl
  all_goals rfl

theorem code_lt (k : Kind) : k.code < 16 := by
  rcases k with _ | _ | w | _ | _ | _
  case int => cases w <;> decide
  all_goals decide

theorem code_pos (k : Kind) : 0 < k.code := by
  rcases k with _ | _ | w | _ | _ | _
  case int => cases w <;> decide
  all_goals decide

end Kind

inductive Value
  | bool (b : Bool)
  | byte (b : UInt8)
  | int (width : Width) (n : Int)
  | binary (bytes : Bytes)
  | list (element : Kind) (values : List Value)
  | struct (fields : List (Int × Value))

namespace Value

def kind : Value → Kind
  | bool _ => .bool
  | byte _ => .byte
  | int width _ => .int width
  | binary _ => .binary
  | list _ _ => .list
  | struct _ => .struct

/-- The type of a field with this value. -/
def code : Value → Nat
  | bool true => 1
  | v => v.kind.code

theorem code_eq (v : Value) : v.code = 1 ∨ v.code = v.kind.code := by
  cases v with
  | bool b =>
    cases b with
    | false => exact Or.inr rfl
    | true => exact Or.inl rfl
  | _ => exact Or.inr rfl

theorem code_lt (v : Value) : v.code < 16 := by
  have hkind := v.kind.code_lt
  rcases v.code_eq with h | h <;> omega

theorem code_pos (v : Value) : 0 < v.code := by
  have hkind := v.kind.code_pos
  rcases v.code_eq with h | h <;> omega

end Value

/-! ## Encoding -/

def fieldHeader (last id : Int) (code : Nat) : Bytes :=
  if 1 ≤ id - last ∧ id - last ≤ 15 then [UInt8.ofNat (16 * (id - last).toNat + code)]
  else UInt8.ofNat code :: varint (zigzag id)

def listHeader (element : Kind) (size : Nat) : Bytes :=
  if size ≤ 14 then [UInt8.ofNat (16 * size + element.code)]
  else UInt8.ofNat (240 + element.code) :: varint size

mutual

def encode : Value → Bytes
  | .bool b => [if b then 1 else 2]
  | .byte b => [b]
  | .int _ n => varint (zigzag n)
  | .binary bytes => varint bytes.length ++ bytes
  | .list element values => listHeader element values.length ++ encodeAll values
  | .struct fields => encodeFields 0 fields ++ [0]

def encodeAll : List Value → Bytes
  | [] => []
  | v :: rest => encode v ++ encodeAll rest

/-- The fields of a struct after the field `last`, without the stop. -/
def encodeFields : Int → List (Int × Value) → Bytes
  | _, [] => []
  | last, (id, v) :: rest =>
    fieldHeader last id v.code ++ (if v.kind = .bool then [] else encode v) ++ encodeFields id rest

end

/-! ## Decoding -/

def readListHeader : Reader (Kind × Nat) :=
  Reader.byte.bind fun header =>
    (Reader.ofOption (Kind.ofCode (header.toNat % 16))).bind fun element =>
      if header.toNat / 16 = 15 then Reader.varint.bind fun size => .pure (element, size)
      else .pure (element, header.toNat / 16)

/-- The code and the id of the next field, or nothing at the stop. -/
def readFieldHeader (last : Int) : Reader (Option (Nat × Int)) :=
  Reader.byte.bind fun header =>
    if header.toNat % 16 = 0 then .pure none
    else if header.toNat / 16 = 0 then
      (Reader.signed 16).bind fun id => .pure (some (header.toNat % 16, id))
    else .pure (some (header.toNat % 16, last + (header.toNat / 16 : Nat)))

mutual

/-- Read a value of a kind; the first argument bounds the number of nested values and fields. -/
def readValue : Nat → Kind → Reader Value
  | 0, _ => .fail
  | _ + 1, .bool => Reader.byte.bind fun b =>
    if b = 1 then .pure (.bool true)
    else if b = 2 ∨ b = 0 then .pure (.bool false)
    else .fail
  | _ + 1, .byte => Reader.byte.bind fun b => .pure (.byte b)
  | _ + 1, .int width => (Reader.signed width.bits).bind fun n => .pure (.int width n)
  | _ + 1, .binary => Reader.varint.bind fun size =>
    (Reader.take size).bind fun bytes => .pure (.binary bytes)
  | n + 1, .list => readListHeader.bind fun header =>
    ((readValue n header.1).many header.2).bind fun values => .pure (.list header.1 values)
  | n + 1, .struct => (readFields n 0).bind fun fields => .pure (.struct fields)

def readFields : Nat → Int → Reader (List (Int × Value))
  | 0, _ => .fail
  | n + 1, last => (readFieldHeader last).bind fun header =>
    match header with
    | none => .pure []
    | some (code, id) =>
      (if code = 1 then .pure (.bool true)
        else if code = 2 then .pure (.bool false)
        else (Reader.ofOption (Kind.ofCode code)).bind fun kind => readValue n kind).bind fun v =>
          (readFields n id).bind fun rest => .pure ((id, v) :: rest)

end

/-- The fields of the struct that the bytes begin with. -/
def decodeStruct (bytes : Bytes) : Option (List (Int × Value) × Bytes) :=
  readFields (bytes.length + 1) 0 bytes

/-! ## Reading back -/

mutual

/-- Numbers fit their widths, and the elements of a list have its kind. -/
def Writable : Value → Prop
  | .bool _ => True
  | .byte _ => True
  | .int width n => Signed width.bits n
  | .binary _ => True
  | .list element values => WritableAll element values
  | .struct fields => WritableFields fields

def WritableAll (element : Kind) : List Value → Prop
  | [] => True
  | v :: rest => v.kind = element ∧ Writable v ∧ WritableAll element rest

def WritableFields : List (Int × Value) → Prop
  | [] => True
  | (id, v) :: rest => Signed 16 id ∧ Writable v ∧ WritableFields rest

end

theorem reads_listHeader (element : Kind) (size : Nat) :
    Reads readListHeader (listHeader element size) (element, size) := by
  have hcode := element.code_lt
  have helement (n : Nat) (hn : n < 16) :
      Reader.ofOption (Kind.ofCode ((UInt8.ofNat (16 * n + element.code)).toNat % 16)) =
        Reader.ofOption (some element) ∧ (UInt8.ofNat (16 * n + element.code)).toNat / 16 = n := by
    rw [toNat_ofNat_of_lt (by omega), show (16 * n + element.code) % 16 = element.code by omega,
      Kind.ofCode_code]
    exact ⟨rfl, by omega⟩
  rw [listHeader]
  split
  case isTrue hsize =>
    obtain ⟨hkind, hsize'⟩ := helement size (by omega)
    refine (Reads.byte _).last ?_
    rw [hkind, hsize']
    refine (Reads.ofOption element).last ?_
    rw [if_neg (by omega)]
    exact Reads.pure _
  case isFalse hsize =>
    obtain ⟨hkind, hsize'⟩ := helement 15 (by omega)
    refine Reads.bind (Reads.byte _) ?_
    rw [show 240 = 16 * 15 from rfl, hkind, hsize']
    exact (Reads.ofOption element).bind (Reads.varint size).map

theorem reads_fieldHeader {last id : Int} {code : Nat} (hid : Signed 16 id) (hpos : 0 < code)
    (hlt : code < 16) :
    Reads (readFieldHeader last) (fieldHeader last id code) (some (code, id)) := by
  have hbyte (n : Nat) (hn : n < 16) :
      (UInt8.ofNat (16 * n + code)).toNat % 16 = code ∧
        (UInt8.ofNat (16 * n + code)).toNat / 16 = n := by
    rw [toNat_ofNat_of_lt (by omega)]
    omega
  rw [fieldHeader]
  split
  case isTrue hdelta =>
    obtain ⟨hcode, hdelta'⟩ := hbyte (id - last).toNat (by omega)
    refine (Reads.byte _).last ?_
    rw [hcode, hdelta', if_neg (by omega), if_neg (by omega),
      show last + ((id - last).toNat : Int) = id by omega]
    exact Reads.pure _
  case isFalse hdelta =>
    obtain ⟨hcode, hdelta'⟩ := hbyte 0 (by omega)
    rw [Nat.mul_zero, Nat.zero_add] at hcode hdelta'
    refine Reads.bind (Reads.byte _) ?_
    rw [hcode, hdelta', if_neg (by omega), if_pos rfl]
    exact (Reads.signed hid).map

theorem reads_stop (last : Int) : Reads (readFieldHeader last) [0] none := fun _ => rfl

theorem length_listHeader_pos (element : Kind) (size : Nat) :
    0 < (listHeader element size).length := by
  rw [listHeader]
  split <;> simp

theorem length_fieldHeader_pos (last id : Int) (code : Nat) :
    0 < (fieldHeader last id code).length := by
  rw [fieldHeader]
  split <;> simp

/-- Only a true boolean has the first code, only a false one the second. -/
theorem Value.eq_bool_of_kind {v : Value} (h : v.kind = .bool) :
    v = .bool true ∧ v.code = 1 ∨ v = .bool false ∧ v.code = 2 := by
  cases v with
  | bool b =>
    cases b with
    | false => exact Or.inr ⟨rfl, rfl⟩
    | true => exact Or.inl ⟨rfl, rfl⟩
  | _ => cases h

theorem Value.code_of_kind {v : Value} (h : v.kind ≠ .bool) :
    v.code = v.kind.code ∧ v.code ≠ 1 ∧ v.code ≠ 2 := by
  cases v with
  | bool b => exact absurd rfl h
  | int w n => cases w <;> exact ⟨rfl, by simp [code, kind, Kind.code], by simp [code, kind, Kind.code]⟩
  | _ => exact ⟨rfl, by simp [code, kind, Kind.code], by simp [code, kind, Kind.code]⟩

/-- The value of a field is read after its header. -/
theorem reads_body {v : Value} {n : Nat}
    (h : v.kind ≠ .bool → Reads (readValue n v.kind) (encode v) v) :
    Reads (if v.code = 1 then .pure (.bool true)
        else if v.code = 2 then .pure (.bool false)
        else (Reader.ofOption (Kind.ofCode v.code)).bind fun kind => readValue n kind)
      (if v.kind = .bool then [] else encode v) v := by
  by_cases hkind : v.kind = .bool
  · rw [if_pos hkind]
    rcases Value.eq_bool_of_kind hkind with ⟨hv, hcode⟩ | ⟨hv, hcode⟩
    · rw [hcode, if_pos rfl, hv]
      exact Reads.pure _
    · rw [hcode, if_neg (by decide), if_pos rfl, hv]
      exact Reads.pure _
  · obtain ⟨hcode, hone, htwo⟩ := Value.code_of_kind hkind
    rw [if_neg hkind, if_neg hone, if_neg htwo, hcode, Kind.ofCode_code]
    exact (Reads.ofOption v.kind).bind (h hkind)

mutual

/-- **Every writable value is read back.** -/
theorem reads_value (v : Value) (h : Writable v) (n : Nat) (hn : (encode v).length < n) :
    Reads (readValue n v.kind) (encode v) v := by
  obtain ⟨n, rfl⟩ : ∃ m, n = m + 1 := ⟨n - 1, by omega⟩
  match v with
  | .bool true => exact fun _ => rfl
  | .bool false => exact fun _ => rfl
  | .byte b => exact fun _ => rfl
  | .int width i => exact (Reads.signed h).map
  | .binary bytes => exact (Reads.varint bytes.length).bind (Reads.take bytes).map
  | .list element values =>
    rw [encode, List.length_append] at hn
    have hheader := length_listHeader_pos element values.length
    have hvalues := reads_values values element h n (by omega)
    exact (reads_listHeader element values.length).bind hvalues.map
  | .struct fields =>
    rw [encode, List.length_append, List.length_singleton] at hn
    exact (reads_fields fields 0 h n (by omega)).map

theorem reads_values (values : List Value) (element : Kind) (h : WritableAll element values)
    (n : Nat) (hn : (encodeAll values).length < n) :
    Reads ((readValue n element).many values.length) (encodeAll values) values := by
  match values with
  | [] => exact Reads.pure []
  | v :: rest =>
    rw [encodeAll, List.length_append] at hn
    obtain ⟨rfl, hv, hrest⟩ := h
    exact (reads_value v hv n (by omega)).bind (reads_values rest v.kind hrest n (by omega)).map

theorem reads_fields (fields : List (Int × Value)) (last : Int) (h : WritableFields fields)
    (n : Nat) (hn : (encodeFields last fields).length < n) :
    Reads (readFields n last) (encodeFields last fields ++ [0]) fields := by
  obtain ⟨n, rfl⟩ : ∃ m, n = m + 1 := ⟨n - 1, by omega⟩
  match fields with
  | [] => exact (reads_stop last).bind (Reads.pure [])
  | (id, v) :: rest =>
    obtain ⟨hid, hv, hrest⟩ := h
    have hheader := length_fieldHeader_pos last id v.code
    rw [encodeFields, List.length_append, List.length_append] at hn
    have hvalue := reads_body fun hkind => reads_value v hv n (by
      rw [if_neg hkind] at hn
      omega)
    rw [encodeFields, List.append_assoc, List.append_assoc]
    exact (reads_fieldHeader hid v.code_pos v.code_lt).bind
      (hvalue.bind (reads_fields rest id hrest n (by omega)).map)

end


theorem decodeStruct_encode {fields : List (Int × Value)} (h : WritableFields fields)
    (rest : Bytes) : decodeStruct (encode (.struct fields) ++ rest) = some (fields, rest) := by
  rw [encode, decodeStruct]
  refine reads_fields fields 0 h _ ?_ rest
  simp only [List.length_append]
  omega

/-! ## Fields one after the other -/

/-- The id of the last field, on which the next header depends. -/
def lastId : Int → List (Int × Value) → Int
  | last, [] => last
  | _, (id, _) :: rest => lastId id rest

theorem lastId_append (last : Int) (fields : List (Int × Value)) (id : Int) (v : Value) :
    lastId last (fields ++ [(id, v)]) = id := by
  induction fields generalizing last with
  | nil => rfl
  | cons f rest ih => exact ih f.1

theorem encodeFields_append (last : Int) (fields : List (Int × Value)) (id : Int) (v : Value) :
    encodeFields last (fields ++ [(id, v)]) = encodeFields last fields ++
      (fieldHeader (lastId last fields) id v.code ++ if v.kind = .bool then [] else encode v) := by
  induction fields generalizing last with
  | nil => simp [encodeFields, lastId]
  | cons f rest ih =>
    simp only [List.cons_append, encodeFields, lastId, ih, List.append_assoc]

theorem writableFields_append {fields : List (Int × Value)} {id : Int} {v : Value}
    (h : WritableFields fields) (hid : Signed 16 id) (hv : Writable v) :
    WritableFields (fields ++ [(id, v)]) := by
  induction fields with
  | nil => exact ⟨hid, hv, trivial⟩
  | cons f rest ih => exact ⟨h.1, h.2.1, ih h.2.2⟩

theorem encodeAll_eq_flatMap (values : List Value) : encodeAll values = values.flatMap encode := by
  induction values with
  | nil => rfl
  | cons v rest ih => rw [encodeAll, List.flatMap_cons, ih]

theorem writableAll_iff {element : Kind} {values : List Value} :
    WritableAll element values ↔ ∀ v ∈ values, v.kind = element ∧ Writable v := by
  induction values with
  | nil => simp [WritableAll]
  | cons v rest ih => simp [WritableAll, ih, and_assoc]

/-! ## Fields of a struct -/

section Fields

variable (fields : List (Int × Value)) (id : Int)

def intField (width : Width) : Option Int :=
  match fields.lookup id with
  | some (.int w n) => if w = width then some n else none
  | _ => none

def binaryField : Option Bytes :=
  match fields.lookup id with
  | some (.binary bytes) => some bytes
  | _ => none

def structField : Option (List (Int × Value)) :=
  match fields.lookup id with
  | some (.struct inner) => some inner
  | _ => none

def listField : Option (List Value) :=
  match fields.lookup id with
  | some (.list _ values) => some values
  | _ => none

end Fields

/-- The elements of a list of structs. -/
def structs (values : List Value) : Option (List (List (Int × Value))) :=
  values.mapM fun v =>
    match v with
    | .struct fields => some fields
    | _ => none

theorem structs_map (elements : List (List (Int × Value))) :
    structs (elements.map .struct) = some elements := by
  induction elements with
  | nil => rfl
  | cons e rest ih =>
    rw [structs] at ih ⊢
    simp [ih]

end Makolet.Lib.Compact
