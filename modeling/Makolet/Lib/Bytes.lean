import Mathlib.Algebra.Order.Ring.Int
import Mathlib.Data.List.Basic

/-!
# Readers of bytes

A reader takes a value from the front of a byte sequence. `Reads x text a` says that `x` reads `a`
from `text` and leaves what follows it, whatever that is; readers compose as their texts do.

The numbers of binary formats: little-endian numbers of a fixed width, two's complement, base-128
varints and their zigzag form for signed numbers, and bits packed eight to a byte. Texts are bytes in
UTF-8.
-/

set_option autoImplicit false

namespace Makolet.Lib

universe u v

variable {α : Type u} {β : Type v}

abbrev Bytes := List UInt8

theorem toNat_ofNat_of_lt {n : Nat} (h : n < 256) : (UInt8.ofNat n).toNat = n := by
  rw [UInt8.toNat_ofNat']
  exact Nat.mod_eq_of_lt h

/-! ## Readers -/

/-- A reader returns its value and the bytes after it, or fails. -/
def Reader (α : Type u) := Bytes → Option (α × Bytes)

namespace Reader

def pure (a : α) : Reader α := fun bytes => some (a, bytes)

def fail : Reader α := fun _ => none

def bind (x : Reader α) (f : α → Reader β) : Reader β := fun bytes =>
  (x bytes).bind fun r => f r.1 r.2

instance : Monad Reader where
  pure := pure
  bind := bind

def require (c : Prop) [Decidable c] : Reader Unit := if c then pure () else fail

def ofOption (a : Option α) : Reader α := fun bytes => a.map fun a => (a, bytes)

def byte : Reader UInt8
  | [] => none
  | b :: rest => some (b, rest)

def take (n : Nat) : Reader Bytes := fun bytes =>
  if n ≤ bytes.length then some (bytes.take n, bytes.drop n) else none

/-- The same reader, `n` times. -/
def many (x : Reader α) : Nat → Reader (List α)
  | 0 => pure []
  | n + 1 => x.bind fun a => (many x n).bind fun as => pure (a :: as)

end Reader

def Reads (x : Reader α) (text : Bytes) (a : α) : Prop :=
  ∀ rest, x (text ++ rest) = some (a, rest)

namespace Reads

theorem pure (a : α) : Reads (Reader.pure a) [] a := fun _ => rfl

theorem bind {x : Reader α} {f : α → Reader β} {text text' : Bytes} {a : α} {b : β}
    (hx : Reads x text a) (hf : Reads (f a) text' b) : Reads (x.bind f) (text ++ text') b := by
  intro rest
  rw [Reader.bind, List.append_assoc, hx]
  exact hf rest

/-- A reader after which nothing more is read. -/
theorem last {x : Reader α} {f : α → Reader β} {text : Bytes} {a : α} {b : β}
    (hx : Reads x text a) (hf : Reads (f a) [] b) : Reads (x.bind f) text b := by
  have h := hx.bind hf
  rwa [List.append_nil] at h

theorem map {x : Reader α} {f : α → β} {text : Bytes} {a : α} (hx : Reads x text a) :
    Reads (x.bind fun a => Reader.pure (f a)) text (f a) :=
  hx.last (Reads.pure (f a))

theorem require {c : Prop} [Decidable c] (hc : c) : Reads (Reader.require c) [] () := by
  rw [Reader.require, if_pos hc]
  exact Reads.pure ()

/-- A check reads nothing. -/
theorem check {c : Prop} [Decidable c] (hc : c) {f : Unit → Reader β} {text : Bytes} {b : β}
    (hf : Reads (f ()) text b) : Reads ((Reader.require c).bind f) text b :=
  (Reads.require hc).bind hf

theorem ofOption (a : α) : Reads (Reader.ofOption (some a)) [] a := fun _ => rfl

theorem byte (b : UInt8) : Reads Reader.byte [b] b := fun _ => rfl

theorem take (text : Bytes) : Reads (Reader.take text.length) text text := by
  intro rest
  simp [Reader.take]

theorem many {x : Reader α} {write : α → Bytes} :
    ∀ as : List α, (∀ a ∈ as, Reads x (write a) a) →
      Reads (x.many as.length) (as.flatMap write) as := by
  intro as
  induction as with
  | nil => exact fun _ => Reads.pure []
  | cons a as ih =>
    intro h
    have hrest := ih fun b hb => h b (List.mem_cons_of_mem a hb)
    exact (h a List.mem_cons_self).bind hrest.map

end Reads

/-! ## Little-endian numbers -/

/-- The lowest `width` bytes of a number, lowest first. -/
def little : Nat → Nat → Bytes
  | 0, _ => []
  | width + 1, n => UInt8.ofNat (n % 256) :: little width (n / 256)

def ofLittle : Bytes → Nat
  | [] => 0
  | b :: rest => b.toNat + 256 * ofLittle rest

@[simp] theorem length_little : ∀ width n, (little width n).length = width := by
  intro width
  induction width with
  | zero => exact fun _ => rfl
  | succ width ih => exact fun n => congrArg (· + 1) (ih (n / 256))

theorem ofLittle_little : ∀ width n, ofLittle (little width n) = n % 256 ^ width := by
  intro width
  induction width with
  | zero => exact fun n => (Nat.mod_one n).symm
  | succ width ih =>
    intro n
    rw [little, ofLittle, ih, toNat_ofNat_of_lt (Nat.mod_lt n (by decide)), Nat.pow_succ,
      Nat.mul_comm (256 ^ width) 256, Nat.mod_mul]

theorem little_ofLittle (bytes : Bytes) : little bytes.length (ofLittle bytes) = bytes := by
  induction bytes with
  | nil => rfl
  | cons b rest ih =>
    have hb : b.toNat < 256 := b.toNat_lt
    have hlow : (b.toNat + 256 * ofLittle rest) % 256 = b.toNat := by omega
    have hhigh : (b.toNat + 256 * ofLittle rest) / 256 = ofLittle rest := by omega
    rw [List.length_cons, little, ofLittle, hlow, hhigh, ih, UInt8.ofNat_toNat]

theorem ofLittle_lt (bytes : Bytes) : ofLittle bytes < 256 ^ bytes.length := by
  induction bytes with
  | nil => exact Nat.one_pos
  | cons b rest ih =>
    have hb : b.toNat < 256 := b.toNat_lt
    rw [List.length_cons, ofLittle, Nat.pow_succ]
    omega

def Reader.little (width : Nat) : Reader Nat :=
  (Reader.take width).bind fun bytes => .pure (ofLittle bytes)

theorem Reads.little {width n : Nat} (h : n < 256 ^ width) :
    Reads (Reader.little width) (Lib.little width n) n := by
  have htake := Reads.take (Lib.little width n)
  rw [length_little] at htake
  have hmap := htake.map (f := ofLittle)
  rwa [ofLittle_little, Nat.mod_eq_of_lt h] at hmap

/-- The two's complement of a number in `bits` bits. -/
def toTwos (bits : Nat) (n : Int) : Nat := (n % 2 ^ bits).toNat

def ofTwos (bits n : Nat) : Int := Int.bmod n (2 ^ bits)

/-- What `bits` bits hold of the signed numbers. -/
def Signed (bits : Nat) (n : Int) : Prop := -(2 ^ (bits - 1)) ≤ n ∧ n < 2 ^ (bits - 1)

instance (bits : Nat) (n : Int) : Decidable (Signed bits n) :=
  inferInstanceAs (Decidable (_ ∧ _))

theorem signed_natCast {bits n : Nat} (h : n < 2 ^ (bits - 1)) : Signed bits n := by
  constructor
  · have hpos : (0 : Int) < 2 ^ (bits - 1) := pow_pos (by decide) (bits - 1)
    omega
  · exact_mod_cast h

theorem Signed.mono {bits bits' : Nat} {n : Int} (h : Signed bits n) (hle : bits ≤ bits') :
    Signed bits' n := by
  have hpow : (2 : Int) ^ (bits - 1) ≤ 2 ^ (bits' - 1) :=
    pow_le_pow_right₀ (by decide) (by omega)
  obtain ⟨hlow, hhigh⟩ := h
  exact ⟨by omega, by omega⟩

theorem toTwos_lt (bits : Nat) (n : Int) : toTwos bits n < 2 ^ bits := by
  have hpos : (0 : Int) < 2 ^ bits := pow_pos (by decide) bits
  have hlt := Int.emod_lt_of_pos n hpos
  have hnonneg := Int.emod_nonneg n hpos.ne'
  rw [toTwos, ← Int.ofNat_lt, Int.toNat_of_nonneg hnonneg]
  exact_mod_cast hlt

theorem ofTwos_toTwos {bits : Nat} (hbits : 0 < bits) {n : Int} (h : Signed bits n) :
    ofTwos bits (toTwos bits n) = n := by
  obtain ⟨m, rfl⟩ : ∃ m, bits = m + 1 := ⟨bits - 1, by omega⟩
  have hpos : (0 : Int) < 2 ^ (m + 1) := pow_pos (by decide) (m + 1)
  have hcast : ((2 ^ (m + 1) : Nat) : Int) = 2 ^ (m + 1) := by push_cast; rfl
  have hpow : (2 : Int) ^ (m + 1) = 2 * 2 ^ m := by rw [pow_succ, mul_comm]
  rw [ofTwos, toTwos, Int.toNat_of_nonneg (Int.emod_nonneg n hpos.ne'), ← hcast, Int.emod_bmod]
  obtain ⟨hlow, hhigh⟩ := h
  rw [Nat.add_sub_cancel] at hlow hhigh
  apply Int.bmod_eq_of_le
  · rw [hcast, hpow]
    omega
  · rw [hcast, hpow]
    omega

/-! ## Varints -/

/-- Seven bits a byte, lowest first; every byte but the last has the high bit. -/
def varint (n : Nat) : Bytes :=
  if n < 128 then [UInt8.ofNat n] else UInt8.ofNat (n % 128 + 128) :: varint (n / 128)
termination_by n

def Reader.varint : Reader Nat
  | [] => none
  | b :: rest =>
    if b.toNat < 128 then some (b.toNat, rest)
    else (Reader.varint rest).map fun r => (b.toNat - 128 + 128 * r.1, r.2)

theorem varint_of_lt {n : Nat} (h : n < 128) : varint n = [UInt8.ofNat n] := by
  rw [varint, if_pos h]

theorem varint_of_le {n : Nat} (h : 128 ≤ n) :
    varint n = UInt8.ofNat (n % 128 + 128) :: varint (n / 128) := by
  rw [varint, if_neg (by omega)]

theorem Reads.varint (n : Nat) : Reads Reader.varint (Lib.varint n) n := by
  induction n using Nat.strong_induction_on with
  | _ n ih =>
    intro rest
    by_cases h : n < 128
    · have hbyte := toNat_ofNat_of_lt (by omega : n < 256)
      rw [varint_of_lt h, List.singleton_append, Reader.varint, hbyte, if_pos h]
    · have hbyte := toNat_ofNat_of_lt (by omega : n % 128 + 128 < 256)
      rw [varint_of_le (by omega), List.cons_append, Reader.varint, hbyte, if_neg (by omega),
        ih (n / 128) (by omega) rest, Option.map_some]
      exact congrArg some (Prod.ext (by dsimp only; omega) rfl)

theorem length_varint_pos (n : Nat) : 0 < (varint n).length := by
  rw [varint]
  split <;> simp

/-- A larger number has no shorter varint. -/
theorem length_varint_mono {m n : Nat} (h : m ≤ n) : (varint m).length ≤ (varint n).length := by
  induction n using Nat.strong_induction_on generalizing m with
  | _ n ih =>
    by_cases hm : m < 128
    · rw [varint_of_lt hm]
      exact length_varint_pos n
    · have hrec := ih (n / 128) (by omega) (Nat.div_le_div_right h : m / 128 ≤ n / 128)
      rw [varint_of_le (by omega : 128 ≤ m), varint_of_le (by omega : 128 ≤ n)]
      exact Nat.succ_le_succ hrec

theorem length_varint_lt {n : Nat} (h : 2 ≤ n) : (varint n).length < n := by
  induction n using Nat.strong_induction_on with
  | _ n ih =>
    by_cases hsmall : n < 128
    · rw [varint_of_lt hsmall]
      exact h
    · rw [varint_of_le (by omega), List.length_cons]
      by_cases hone : n / 128 < 2
      · rw [varint_of_lt (by omega : n / 128 < 128), List.length_singleton]
        omega
      · have hrec := ih (n / 128) (by omega) (by omega)
        omega

/-- Signed numbers in the order `0, -1, 1, -2, …`. -/
def zigzag (n : Int) : Nat := if 0 ≤ n then 2 * n.toNat else 2 * (-n - 1).toNat + 1

def ofZigzag (n : Nat) : Int := if n % 2 = 0 then (n / 2 : Nat) else -(n / 2 : Nat) - 1

theorem ofZigzag_zigzag (n : Int) : ofZigzag (zigzag n) = n := by
  rw [zigzag, ofZigzag]
  split <;> split <;> omega

theorem zigzag_natCast (n : Nat) : zigzag n = 2 * n := by
  rw [zigzag, if_pos (by omega), Int.toNat_natCast]

/-- A signed varint that must fit `bits` bits. -/
def Reader.signed (bits : Nat) : Reader Int :=
  Reader.varint.bind fun n =>
    (Reader.require (Signed bits (ofZigzag n))).bind fun _ => .pure (ofZigzag n)

theorem Reads.signed {bits : Nat} {n : Int} (h : Signed bits n) :
    Reads (Reader.signed bits) (Lib.varint (zigzag n)) n := by
  have hzig := ofZigzag_zigzag n
  refine (Reads.varint (zigzag n)).last ?_
  rw [hzig]
  exact Reads.check h (Reads.pure n)

/-! ## Packed bits -/

/-- The number whose bits these are, lowest first. -/
def ofBits : List Bool → Nat
  | [] => 0
  | b :: rest => (if b then 1 else 0) + 2 * ofBits rest

def bits : Nat → Nat → List Bool
  | 0, _ => []
  | n + 1, value => (value % 2 = 1) :: bits n (value / 2)

theorem ofBits_lt (bs : List Bool) : ofBits bs < 2 ^ bs.length := by
  induction bs with
  | nil => exact Nat.one_pos
  | cons b bs ih =>
    rw [ofBits, List.length_cons, Nat.pow_succ]
    split <;> omega

theorem bits_zero (n : Nat) : bits n 0 = List.replicate n false := by
  induction n with
  | zero => rfl
  | succ n ih =>
    rw [bits, ih]
    rfl

/-- The bits are read back, with zeros above them. -/
theorem bits_ofBits {bs : List Bool} {n : Nat} (h : bs.length ≤ n) :
    bits n (ofBits bs) = bs ++ List.replicate (n - bs.length) false := by
  induction bs generalizing n with
  | nil => exact bits_zero n
  | cons b bs ih =>
    obtain ⟨m, rfl⟩ : ∃ m, n = m + 1 := ⟨n - 1, by rw [List.length_cons] at h; omega⟩
    have hhead : (decide (ofBits (b :: bs) % 2 = 1)) = b := by
      cases b <;> simp [ofBits]
    have htail : ofBits (b :: bs) / 2 = ofBits bs := by
      rw [ofBits]
      split <;> omega
    rw [List.length_cons] at h ⊢
    rw [bits, hhead, htail, ih (by omega), Nat.add_sub_add_right, List.cons_append]

/-- Eight at a time, the last byte filled up with zeros. -/
def packBits (bs : List Bool) : Bytes :=
  (List.range ((bs.length + 7) / 8)).map fun index =>
    UInt8.ofNat (ofBits ((bs.drop (8 * index)).take 8))

theorem length_packBits (bs : List Bool) : (packBits bs).length = (bs.length + 7) / 8 := by
  rw [packBits, List.length_map, List.length_range]

theorem bits_packed {bs : List Bool} (h : bs.length ≤ 8) :
    bits 8 (UInt8.ofNat (ofBits bs)).toNat = bs ++ List.replicate (8 - bs.length) false := by
  have hlt : ofBits bs < 256 :=
    Nat.lt_of_lt_of_le (ofBits_lt bs) (Nat.pow_le_pow_right (by decide) h : _ ≤ 2 ^ 8)
  rw [toNat_ofNat_of_lt hlt, bits_ofBits h]

theorem unpackBits (bs : List Bool) :
    ((packBits bs).flatMap fun b => bits 8 b.toNat).take bs.length = bs := by
  -- The first byte holds the first eight bits; the other bytes are those of the rest.
  induction hn : bs.length using Nat.strong_induction_on generalizing bs with
  | _ n ih =>
    subst hn
    cases bs with
    | nil => rfl
    | cons b bs =>
      have hbytes : ((b :: bs).length + 7) / 8 = (((b :: bs).drop 8).length + 7) / 8 + 1 := by
        rw [List.length_drop, List.length_cons]
        omega
      have hcons : packBits (b :: bs) =
          UInt8.ofNat (ofBits ((b :: bs).take 8)) :: packBits ((b :: bs).drop 8) := by
        rw [packBits, hbytes, List.range_succ_eq_map, List.map_cons, List.map_map, packBits]
        refine congrArg₂ _ rfl (List.map_congr_left fun index _ => ?_)
        rw [Function.comp_apply, List.drop_drop, Nat.mul_succ, Nat.add_comm]
      have htake : ((b :: bs).take 8).length ≤ 8 := List.length_take_le 8 _
      rw [hcons, List.flatMap_cons, bits_packed htake]
      by_cases hshort : (b :: bs).length ≤ 8
      · rw [List.take_of_length_le hshort, List.append_assoc, List.take_left]
      · have hfull : ((b :: bs).take 8).length = 8 := by
          rw [List.length_take]
          omega
        have hrest := ih _ (by rw [List.length_drop]; omega) ((b :: bs).drop 8) rfl
        rw [hfull, Nat.sub_self, List.replicate_zero, List.append_nil, List.take_append, hfull,
          List.take_of_length_le (by omega), ← List.length_drop, hrest, List.take_append_drop]

/-! ## Texts -/

def utf8 (text : List Char) : Bytes := text.flatMap String.utf8EncodeChar

def ofUtf8 (bytes : Bytes) : Option (List Char) :=
  (String.fromUTF8? bytes.toByteArray).map String.toList

theorem ofUtf8_utf8 (text : List Char) : ofUtf8 (utf8 text) = some text := by
  have hbytes : (utf8 text).toByteArray = (String.ofList text).toByteArray := rfl
  rw [ofUtf8, hbytes, String.fromUTF8?, dif_pos (String.ofList text).isValidUTF8, Option.map_some]
  exact congrArg some String.toList_ofList

end Makolet.Lib
