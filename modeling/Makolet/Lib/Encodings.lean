import Makolet.Lib.Bytes

/-!
# Character encodings

Strict decoders of UTF-8, Windows-1255 and UTF-16 in both byte orders. A byte order mark is a
character of the text. `exists_ascii_of_decode` says what these encodings share: a run of ASCII
characters in a text is a run of their bytes in the document.
-/

set_option autoImplicit false

namespace Makolet.Lib

inductive Encoding
  | utf8
  | windows1255
  | utf16 (littleEndian : Bool)
  deriving DecidableEq, Repr

/-! ## Decoders -/

/-- The characters of Windows-1255 from the byte 0x80 on, 0 where there is none. -/
def windows1255High : List Nat := [
  0x20AC, 0x0000, 0x201A, 0x0192, 0x201E, 0x2026, 0x2020, 0x2021, 0x02C6, 0x2030, 0x0000, 0x2039,
  0x0000, 0x0000, 0x0000, 0x0000, 0x0000, 0x2018, 0x2019, 0x201C, 0x201D, 0x2022, 0x2013, 0x2014,
  0x02DC, 0x2122, 0x0000, 0x203A, 0x0000, 0x0000, 0x0000, 0x0000, 0x00A0, 0x00A1, 0x00A2, 0x00A3,
  0x20AA, 0x00A5, 0x00A6, 0x00A7, 0x00A8, 0x00A9, 0x00D7, 0x00AB, 0x00AC, 0x00AD, 0x00AE, 0x00AF,
  0x00B0, 0x00B1, 0x00B2, 0x00B3, 0x00B4, 0x00B5, 0x00B6, 0x00B7, 0x00B8, 0x00B9, 0x00F7, 0x00BB,
  0x00BC, 0x00BD, 0x00BE, 0x00BF, 0x05B0, 0x05B1, 0x05B2, 0x05B3, 0x05B4, 0x05B5, 0x05B6, 0x05B7,
  0x05B8, 0x05B9, 0x0000, 0x05BB, 0x05BC, 0x05BD, 0x05BE, 0x05BF, 0x05C0, 0x05C1, 0x05C2, 0x05C3,
  0x05F0, 0x05F1, 0x05F2, 0x05F3, 0x05F4, 0x0000, 0x0000, 0x0000, 0x0000, 0x0000, 0x0000, 0x0000,
  0x05D0, 0x05D1, 0x05D2, 0x05D3, 0x05D4, 0x05D5, 0x05D6, 0x05D7, 0x05D8, 0x05D9, 0x05DA, 0x05DB,
  0x05DC, 0x05DD, 0x05DE, 0x05DF, 0x05E0, 0x05E1, 0x05E2, 0x05E3, 0x05E4, 0x05E5, 0x05E6, 0x05E7,
  0x05E8, 0x05E9, 0x05EA, 0x0000, 0x0000, 0x200E, 0x200F, 0x0000]

def windows1255 (b : UInt8) : Option Char :=
  if b.toNat < 128 then some (Char.ofNat b.toNat)
  else
    let n := windows1255High.getD (b.toNat - 128) 0
    if n = 0 then none else some (Char.ofNat n)

/-- A code unit of UTF-16. -/
def codeUnit (littleEndian : Bool) (first second : UInt8) : Nat :=
  if littleEndian then first.toNat + 256 * second.toNat else 256 * first.toNat + second.toNat

def decodeUtf16 (littleEndian : Bool) : Bytes → Option (List Char)
  | [] => some []
  | [_] => none
  | a :: b :: rest =>
    let unit := codeUnit littleEndian a b
    if unit < 0xD800 ∨ 0xDFFF < unit then
      (decodeUtf16 littleEndian rest).map (Char.ofNat unit :: ·)
    else if 0xDC00 ≤ unit then none
    else
      match rest with
      | c :: d :: rest =>
        let low := codeUnit littleEndian c d
        if 0xDC00 ≤ low ∧ low ≤ 0xDFFF then
          (decodeUtf16 littleEndian rest).map
            (Char.ofNat (0x10000 + (unit - 0xD800) * 0x400 + (low - 0xDC00)) :: ·)
        else none
      | _ => none

namespace Encoding

def decode : Encoding → Bytes → Option (List Char)
  | .utf8, document => ofUtf8 document
  | .windows1255, document => document.mapM Makolet.Lib.windows1255
  | .utf16 littleEndian, document => decodeUtf16 littleEndian document

/-- The bytes of an ASCII character. -/
def asciiBytes : Encoding → Char → Bytes
  | .utf8, c => [UInt8.ofNat c.toNat]
  | .windows1255, c => [UInt8.ofNat c.toNat]
  | .utf16 true, c => [UInt8.ofNat c.toNat, 0]
  | .utf16 false, c => [0, UInt8.ofNat c.toNat]

end Encoding

/-! ## The first character -/

theorem utf8_of_ofUtf8 {bytes : Bytes} {text : List Char} (h : ofUtf8 bytes = some text) :
    bytes = utf8 text := by
  rw [ofUtf8, Option.map_eq_some_iff] at h
  obtain ⟨s, hs, rfl⟩ := h
  rw [String.fromUTF8?] at hs
  split at hs
  · obtain rfl := Option.some.inj hs
    have hbytes (t : String) : t.toByteArray = (utf8 t.toList).toByteArray := by
      have hcopy : (String.ofList t.toList).toByteArray = (utf8 t.toList).toByteArray := rfl
      rwa [String.ofList_toList] at hcopy
    exact List.toByteArray_inj.1 (hbytes (String.fromUTF8 bytes.toByteArray _))
  · cases hs

/-- The bytes of the first character, and what follows it. -/
def Encoding.FirstChar (e : Encoding) (document : Bytes) (c : Char) (text : List Char) : Prop :=
  ∃ first rest, document = first ++ rest ∧ e.decode rest = some text ∧
    (c.toNat < 128 → first = e.asciiBytes c)

theorem firstChar_utf8 {document : Bytes} {c : Char} {text : List Char}
    (h : Encoding.utf8.decode document = some (c :: text)) :
    Encoding.utf8.FirstChar document c text := by
  refine ⟨String.utf8EncodeChar c, utf8 text, utf8_of_ofUtf8 h, ofUtf8_utf8 text, fun hc => ?_⟩
  have hone : c.val.toNat ≤ 127 := Nat.le_of_lt_succ hc
  rw [String.utf8EncodeChar]
  simp only [hone, if_true]
  rfl

theorem windows1255_ascii {b : UInt8} {c : Char} (h : windows1255 b = some c)
    (hc : c.toNat < 128) : b = UInt8.ofNat c.toNat := by
  have hhigh : ∀ k < 128, windows1255High.getD k 0 = 0 ∨
      128 ≤ (Char.ofNat (windows1255High.getD k 0)).toNat := by decide
  have hlow : ∀ n < 128, (Char.ofNat n).toNat = n := by decide
  rw [windows1255] at h
  split at h
  · rename_i hb
    obtain rfl := Option.some.inj h
    rw [hlow _ hb, UInt8.ofNat_toNat]
  · rename_i hb
    have hlt := b.toNat_lt
    simp only [Option.ite_none_left_eq_some, Option.some.injEq] at h
    obtain ⟨hne, rfl⟩ := h
    rcases hhigh (b.toNat - 128) (by omega) with hzero | hge
    · exact absurd hzero hne
    · omega

theorem firstChar_windows1255 {document : Bytes} {c : Char} {text : List Char}
    (h : Encoding.windows1255.decode document = some (c :: text)) :
    Encoding.windows1255.FirstChar document c text := by
  cases document with
  | nil => cases h
  | cons b rest =>
    have h : (b :: rest).mapM windows1255 = some (c :: text) := h
    rw [List.mapM_cons, Option.bind_eq_bind, Option.bind_eq_some_iff] at h
    obtain ⟨first, hfirst, h⟩ := h
    rw [Option.bind_eq_bind, Option.bind_eq_some_iff] at h
    obtain ⟨more, hmore, h⟩ := h
    obtain ⟨rfl, rfl⟩ := List.cons.inj (Option.some.inj h)
    exact ⟨[b], rest, rfl, hmore, fun hc => congrArg (fun b => [b]) (windows1255_ascii hfirst hc)⟩

theorem toNat_ofNat_of_valid {n : Nat} (h : n < 0xD800 ∨ 0xDFFF < n ∧ n < 0x110000) :
    (Char.ofNat n).toNat = n := by
  rw [Char.ofNat, dif_pos h]
  rfl

/-- An ASCII character is a code unit of its own. -/
theorem codeUnit_ascii {littleEndian : Bool} {a b : UInt8}
    (hunit : codeUnit littleEndian a b < 0xD800 ∨ 0xDFFF < codeUnit littleEndian a b)
    (hc : (Char.ofNat (codeUnit littleEndian a b)).toNat < 128) :
    [a, b] =
      (Encoding.utf16 littleEndian).asciiBytes (Char.ofNat (codeUnit littleEndian a b)) := by
  have ha := a.toNat_lt
  have hb := b.toNat_lt
  have hzero {x : UInt8} (hx : x.toNat = 0) : x = 0 := UInt8.toNat_inj.1 hx
  have hvalue : (Char.ofNat (codeUnit littleEndian a b)).toNat = codeUnit littleEndian a b := by
    refine toNat_ofNat_of_valid (hunit.imp_right fun h => ⟨h, ?_⟩)
    rw [codeUnit]
    split <;> omega
  rw [hvalue] at hc
  cases littleEndian with
  | true =>
    have hunit : codeUnit true a b = a.toNat + 256 * b.toNat := rfl
    obtain rfl := hzero (show b.toNat = 0 by omega)
    have hlow : codeUnit true a 0 = a.toNat := hunit.trans (Nat.add_zero _)
    rw [Encoding.asciiBytes, hvalue, hlow, UInt8.ofNat_toNat]
  | false =>
    have hunit : codeUnit false a b = 256 * a.toNat + b.toNat := rfl
    obtain rfl := hzero (show a.toNat = 0 by omega)
    have hlow : codeUnit false 0 b = b.toNat := hunit.trans (Nat.zero_add _)
    rw [Encoding.asciiBytes, hvalue, hlow, UInt8.ofNat_toNat]

theorem firstChar_utf16 {littleEndian : Bool} {document : Bytes} {c : Char} {text : List Char}
    (h : (Encoding.utf16 littleEndian).decode document = some (c :: text)) :
    (Encoding.utf16 littleEndian).FirstChar document c text := by
  match document with
  | [] => cases h
  | [_] => cases h
  | a :: b :: rest =>
    rw [Encoding.decode, decodeUtf16.eq_def] at h
    simp only [] at h
    split at h
    · rename_i hunit
      obtain ⟨more, hmore, hcons⟩ := Option.map_eq_some_iff.1 h
      obtain ⟨rfl, rfl⟩ := List.cons.inj hcons
      exact ⟨[a, b], rest, rfl, hmore, codeUnit_ascii hunit⟩
    · rename_i hunit
      split at h
      · cases h
      · rename_i hhigh
        split at h
        · rename_i c' d rest
          split at h
          · rename_i hlow
            obtain ⟨more, hmore, hcons⟩ := Option.map_eq_some_iff.1 h
            obtain ⟨rfl, rfl⟩ := List.cons.inj hcons
            refine ⟨[a, b, c', d], rest, rfl, hmore, fun hc => ?_⟩
            rw [toNat_ofNat_of_valid (by omega)] at hc
            omega
          · cases h
        · cases h

theorem firstChar (e : Encoding) {document : Bytes} {c : Char} {text : List Char}
    (h : e.decode document = some (c :: text)) : e.FirstChar document c text := by
  cases e with
  | utf8 => exact firstChar_utf8 h
  | windows1255 => exact firstChar_windows1255 h
  | utf16 littleEndian => exact firstChar_utf16 h

/-! ## Runs of ASCII characters -/

theorem exists_drop_of_decode {e : Encoding} {document : Bytes} {before text : List Char}
    (h : e.decode document = some (before ++ text)) :
    ∃ first rest, document = first ++ rest ∧ e.decode rest = some text := by
  induction before generalizing document with
  | nil => exact ⟨[], document, rfl, h⟩
  | cons c before ih =>
    obtain ⟨first, rest, rfl, hrest, -⟩ := firstChar e h
    obtain ⟨first', rest', rfl, hrest'⟩ := ih hrest
    exact ⟨first ++ first', rest', (List.append_assoc _ _ _).symm, hrest'⟩

theorem exists_ascii_prefix {e : Encoding} {document : Bytes} {run text : List Char}
    (hrun : ∀ c ∈ run, c.toNat < 128) (h : e.decode document = some (run ++ text)) :
    ∃ rest, document = run.flatMap e.asciiBytes ++ rest := by
  induction run generalizing document with
  | nil => exact ⟨document, rfl⟩
  | cons c run ih =>
    obtain ⟨hc, hrun⟩ := List.forall_mem_cons.1 hrun
    obtain ⟨first, rest, rfl, hrest, hfirst⟩ := firstChar e h
    obtain ⟨rest', rfl⟩ := ih hrun hrest
    exact ⟨rest', by rw [hfirst hc, List.flatMap_cons, List.append_assoc]⟩

/-- A run of ASCII characters in the text is a run of their bytes in the document. -/
theorem exists_ascii_of_decode {e : Encoding} {document : Bytes} {before run after : List Char}
    (hrun : ∀ c ∈ run, c.toNat < 128)
    (h : e.decode document = some (before ++ (run ++ after))) :
    ∃ first rest, document = first ++ (run.flatMap e.asciiBytes ++ rest) := by
  obtain ⟨first, rest, rfl, hrest⟩ := exists_drop_of_decode h
  obtain ⟨rest, rfl⟩ := exists_ascii_prefix hrun hrest
  exact ⟨first, rest, rfl⟩

end Makolet.Lib
