import Mathlib.Data.List.Sort
import Mathlib.Data.List.Lex
import Mathlib.Data.Char
import Makolet.Lib.Bytes
import Makolet.Lib.Text

/-!
# Indented JSON texts

Values and the texts that `json.dumps` writes for them with `ensure_ascii=False`, `sort_keys=True`
and `indent=2`. A value is written in a place by a `level`, the number of values around it.
`Json.text_add` says that a value in a deeper place has the same text with more spaces behind each
line feed, and `length_utf8_indent` how many bytes these are.
-/

set_option autoImplicit false

namespace Makolet.Lib

inductive Json
  | number (n : Int)
  | string (s : List Char)
  | array (items : List Json)
  | object (fields : List (List Char × Json))

namespace Json

/-! ## Texts -/

def decimal : Int → List Char
  | .ofNat n => natText n
  | .negSucc n => '-' :: natText (n + 1)

/-- A line feed and the spaces in front of a value. -/
def newline (level : Nat) : List Char := '\n' :: List.replicate (2 * level) ' '

mutual

/-- The text of a value, with its fields in the order in which they are. -/
def text (level : Nat) : Json → List Char
  | .number n => decimal n
  | .string s => quote s
  | .array [] => ['[', ']']
  | .array (item :: items) =>
    '[' :: (newline (level + 1) ++ item.text (level + 1) ++ itemsText (level + 1) items ++
      newline level ++ [']'])
  | .object [] => ['\x7b', '\x7d']
  | .object ((key, value) :: fields) =>
    '\x7b' :: (newline (level + 1) ++ quote key ++ ':' :: ' ' :: value.text (level + 1) ++
      fieldsText (level + 1) fields ++ newline level ++ ['\x7d'])

/-- The items behind the first one. -/
def itemsText (level : Nat) : List Json → List Char
  | [] => []
  | item :: items => ',' :: (newline level ++ item.text level ++ itemsText level items)

/-- The fields behind the first one. -/
def fieldsText (level : Nat) : List (List Char × Json) → List Char
  | [] => []
  | (key, value) :: fields =>
    ',' :: (newline level ++ quote key ++ ':' :: ' ' :: value.text level ++ fieldsText level fields)

end

mutual

/-- The value with the fields of all its objects in order. -/
def sorted : Json → Json
  | .number n => .number n
  | .string s => .string s
  | .array items => .array (sortedItems items)
  | .object fields => .object ((sortedFields fields).insertionSort fun a b => a.1 ≤ b.1)

def sortedItems : List Json → List Json
  | [] => []
  | item :: items => item.sorted :: sortedItems items

def sortedFields : List (List Char × Json) → List (List Char × Json)
  | [] => []
  | (key, value) :: fields => (key, value.sorted) :: sortedFields fields

end

/-- `json.dumps(value, ensure_ascii=False, sort_keys=True, indent=2)`. -/
def dumps (value : Json) : List Char := value.sorted.text 0

theorem sortedItems_eq_map (items : List Json) : sortedItems items = items.map sorted := by
  induction items with
  | nil => rfl
  | cons item items ih => rw [sortedItems, ih, List.map_cons]

end Json

/-! ## Indentation -/

/-- A text with more spaces behind each line feed. -/
def indent (levels : Nat) (s : List Char) : List Char :=
  s.flatMap fun c => if c = '\n' then Json.newline levels else [c]

section Indent

variable (levels : Nat)

@[simp] theorem indent_append (s t : List Char) :
    indent levels (s ++ t) = indent levels s ++ indent levels t :=
  List.flatMap_append

@[simp] theorem indent_nil : indent levels [] = [] := rfl

theorem indent_cons {c : Char} (h : c ≠ '\n') (s : List Char) :
    indent levels (c :: s) = c :: indent levels s := by
  rw [indent, List.flatMap_cons, if_neg h]
  rfl

/-- A text without line feeds stays as it is. -/
theorem indent_of_not_mem {s : List Char} (h : '\n' ∉ s) : indent levels s = s := by
  induction s with
  | nil => rfl
  | cons c s ih =>
    rw [List.mem_cons, not_or] at h
    rw [indent_cons levels (Ne.symm h.1), ih h.2]

theorem indent_newline (level : Nat) :
    indent levels (Json.newline level) = Json.newline (level + levels) := by
  have hspaces : indent levels (List.replicate (2 * level) ' ') = List.replicate (2 * level) ' ' :=
    indent_of_not_mem levels fun h => absurd (List.eq_of_mem_replicate h) (by decide)
  have hfirst : indent levels (Json.newline level) =
      Json.newline levels ++ indent levels (List.replicate (2 * level) ' ') := rfl
  rw [hfirst, hspaces, Json.newline, Json.newline, List.cons_append,
    List.replicate_append_replicate, ← Nat.mul_add, Nat.add_comm level]

end Indent

namespace Json

/-! ## Strings and numbers are written on one line -/

theorem newline_not_mem_escapeChar (c : Char) : '\n' ∉ escapeChar c := by
  have hcontrol : ∀ n < 32,
      '\n' ∉ "\\u00".toList ++ [hexDigit (n / 16), hexDigit (n % 16)] := by decide
  rw [escapeChar]
  split_ifs with _ _ hline _ _ _ _ hlow
  all_goals first
    | decide
    | exact hcontrol c.toNat hlow
    | exact fun h => hline (List.mem_singleton.1 h).symm

theorem newline_not_mem_quote (s : List Char) : '\n' ∉ quote s := by
  intro h
  rw [quote, List.mem_cons, List.mem_append] at h
  rcases h with h | h | h
  · exact absurd h (by decide)
  · obtain ⟨c, -, hc⟩ := List.mem_flatMap.1 h
    exact newline_not_mem_escapeChar c hc
  · exact absurd h (by decide)

theorem newline_not_mem_decimal (n : Int) : '\n' ∉ decimal n := by
  have hdigits (n : Nat) : '\n' ∉ natText n := fun h =>
    absurd (Nat.isDigit_of_mem_toDigits (by decide) (by decide) h) (by decide)
  cases n with
  | ofNat n => exact hdigits n
  | negSucc n =>
    intro h
    rcases List.mem_cons.1 h with h | h
    · exact absurd h (by decide)
    · exact hdigits (n + 1) h

/-! ## Deeper places -/

mutual

/-- The text of a value in a deeper place. -/
theorem text_add (levels level : Nat) :
    ∀ value : Json, value.text (level + levels) = indent levels (value.text level)
  | .number n => (indent_of_not_mem levels (newline_not_mem_decimal n)).symm
  | .string s => (indent_of_not_mem levels (newline_not_mem_quote s)).symm
  | .array [] => rfl
  | .array (item :: items) => by
    have hlevel : level + levels + 1 = level + 1 + levels := Nat.add_right_comm ..
    rw [text, text, hlevel, text_add levels (level + 1) item,
      itemsText_add levels (level + 1) items, indent_cons levels (by decide)]
    simp only [indent_append, indent_newline, indent_of_not_mem levels (s := [']']) (by decide)]
  | .object [] => rfl
  | .object ((key, value) :: fields) => by
    have hlevel : level + levels + 1 = level + 1 + levels := Nat.add_right_comm ..
    rw [text, text, hlevel, text_add levels (level + 1) value,
      fieldsText_add levels (level + 1) fields, indent_cons levels (by decide)]
    simp only [indent_append, indent_newline, indent_cons levels (show ':' ≠ '\n' by decide),
      indent_cons levels (show ' ' ≠ '\n' by decide),
      indent_of_not_mem levels (newline_not_mem_quote key),
      indent_of_not_mem levels (s := ['\x7d']) (by decide)]

theorem itemsText_add (levels level : Nat) :
    ∀ items, itemsText (level + levels) items = indent levels (itemsText level items)
  | [] => rfl
  | item :: items => by
    rw [itemsText, itemsText, text_add levels level item, itemsText_add levels level items,
      indent_cons levels (by decide)]
    simp only [indent_append, indent_newline]

theorem fieldsText_add (levels level : Nat) :
    ∀ fields, fieldsText (level + levels) fields = indent levels (fieldsText level fields)
  | [] => rfl
  | (key, value) :: fields => by
    rw [fieldsText, fieldsText, text_add levels level value, fieldsText_add levels level fields,
      indent_cons levels (by decide)]
    simp only [indent_append, indent_newline, indent_cons levels (show ':' ≠ '\n' by decide),
      indent_cons levels (show ' ' ≠ '\n' by decide),
      indent_of_not_mem levels (newline_not_mem_quote key)]

end

/-- One more item. -/
theorem itemsText_concat (level : Nat) (items : List Json) (item : Json) :
    itemsText level (items ++ [item]) =
      itemsText level items ++ ',' :: (newline level ++ item.text level) := by
  induction items with
  | nil =>
    show ',' :: (newline level ++ item.text level ++ []) = _
    rw [List.append_nil]
    rfl
  | cons first items ih =>
    rw [List.cons_append, itemsText, itemsText, ih]
    simp only [List.append_assoc, List.cons_append]

end Json

/-! ## Lengths -/

theorem utf8_append (s t : List Char) : utf8 (s ++ t) = utf8 s ++ utf8 t := List.flatMap_append

/-- The octets of a character that is no line feed are none. -/
theorem newline_not_mem_utf8EncodeChar {c : Char} (h : c ≠ '\n') :
    0x0a ∉ String.utf8EncodeChar c := by
  have hne : c.val.toNat ≠ 10 := fun heq => h (Char.toNat_inj.1 heq)
  have hbyte {n : Nat} (hlt : n < 256) (hn : n ≠ 10) : (0x0a : UInt8) ≠ UInt8.ofNat n := by
    intro heq
    have htoNat := congrArg UInt8.toNat heq
    rw [toNat_ofNat_of_lt hlt] at htoNat
    exact hn htoNat.symm
  have hvalid : c.val.toNat < 0x110000 := by
    have hvalid : c.val.toNat < 0xD800 ∨ 0xDFFF < c.val.toNat ∧ c.val.toNat < 0x110000 := c.valid
    omega
  rw [String.utf8EncodeChar]
  generalize c.val.toNat = n at *
  split_ifs
  all_goals simp only [List.mem_cons, List.not_mem_nil, or_false, not_or]
  · exact hbyte (by omega) hne
  · exact ⟨hbyte (by omega) (by omega), hbyte (by omega) (by omega)⟩
  · exact ⟨hbyte (by omega) (by omega), hbyte (by omega) (by omega), hbyte (by omega) (by omega)⟩
  · exact ⟨hbyte (by omega) (by omega), hbyte (by omega) (by omega), hbyte (by omega) (by omega),
      hbyte (by omega) (by omega)⟩

/-- The octets of a text have as many line feeds as its characters. -/
theorem count_utf8 (s : List Char) : (utf8 s).count 0x0a = s.count '\n' := by
  induction s with
  | nil => rfl
  | cons c s ih =>
    have hcons : utf8 (c :: s) = String.utf8EncodeChar c ++ utf8 s := rfl
    rw [hcons, List.count_append, ih]
    by_cases hc : c = '\n'
    · subst hc
      rw [List.count_cons_self, Nat.add_comm]
      rfl
    · have hnone := List.count_eq_zero_of_not_mem (newline_not_mem_utf8EncodeChar hc)
      rw [List.count_cons_of_ne hc, hnone, Nat.zero_add]

theorem length_utf8_newline (level : Nat) : (utf8 (Json.newline level)).length = 2 * level + 1 := by
  have hspaces (n : Nat) : (utf8 (List.replicate n ' ')).length = n := by
    induction n with
    | zero => rfl
    | succ n ih => exact congrArg (· + 1) ih
  exact congrArg (· + 1) (hspaces (2 * level))

/-- So many bytes more has a text in a deeper place. -/
theorem length_utf8_indent (levels : Nat) (s : List Char) :
    (utf8 (indent levels s)).length = (utf8 s).length + 2 * levels * (utf8 s).count 0x0a := by
  rw [count_utf8]
  induction s with
  | nil => rfl
  | cons c s ih =>
    have hcons : utf8 (c :: s) = String.utf8EncodeChar c ++ utf8 s := rfl
    by_cases hc : c = '\n'
    · subst hc
      have hindent : indent levels ('\n' :: s) = Json.newline levels ++ indent levels s := rfl
      have hone : (String.utf8EncodeChar '\n').length = 1 := rfl
      rw [hindent, utf8_append, List.length_append, length_utf8_newline, ih, hcons,
        List.length_append, hone, List.count_cons_self, Nat.mul_succ]
      omega
    · have hindent : utf8 (indent levels (c :: s)) =
          String.utf8EncodeChar c ++ utf8 (indent levels s) := by
        rw [indent_cons levels hc]
        rfl
      rw [hindent, hcons, List.length_append, List.length_append, ih, List.count_cons_of_ne hc]
      omega

end Makolet.Lib
