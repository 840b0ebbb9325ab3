import Mathlib.Data.List.Sort
import Makolet.Lib.Bytes
import Makolet.Lib.Outcome
import Makolet.Lib.Text
import Makolet.Domain.Datetimes

/-!
# Query cursors

The cursor envelope of `application/queries.py`: `_cursor_scope`, `_bind_page` and `_decode_cursor`.
The hash and the codecs are parameters (`CursorCodecs`), of which a result assumes only what they do
with the texts at hand. A cursor that is bound to a scope is read back under that scope
(`decodeCursor_bindPage`) and refused under any other one (`decodeCursor_other_scope`).
-/

set_option autoImplicit false

namespace Makolet.Queries

open Makolet.Domain Makolet.Lib

/-! ## JSON texts -/

/-- What `json.loads` returns; a list is not told apart from other lists. -/
inductive Json
  | null
  | bool (b : Bool)
  | int (n : Int)
  | float (q : ℚ)
  | text (s : List Char)
  | list
  | object (fields : List (List Char × Json))

/-- The number in four hexadecimal digits. -/
def fourHex (n : Nat) : List Char :=
  [hexDigit (n / 4096 % 16), hexDigit (n / 256 % 16), hexDigit (n / 16 % 16), hexDigit (n % 16)]

/-- A character in an ASCII string of `json.dumps`. -/
def escapeAscii (c : Char) : List Char :=
  if c = '"' then ['\\', '"']
  else if c = '\\' then ['\\', '\\']
  else if 32 ≤ c.toNat ∧ c.toNat ≤ 126 then [c]
  else if c = '\n' then ['\\', 'n']
  else if c = '\r' then ['\\', 'r']
  else if c = '\t' then ['\\', 't']
  else if c.toNat = 8 then ['\\', 'b']
  else if c.toNat = 12 then ['\\', 'f']
  else if c.toNat < 0x10000 then '\\' :: 'u' :: fourHex c.toNat
  else
    ('\\' :: 'u' :: fourHex (0xD800 + (c.toNat - 0x10000) / 1024)) ++
      '\\' :: 'u' :: fourHex (0xDC00 + (c.toNat - 0x10000) % 1024)

def dumpText (s : List Char) : List Char := '"' :: (s.flatMap escapeAscii ++ ['"'])

def dumpInt (n : Int) : List Char :=
  if n < 0 then '-' :: natText n.natAbs else natText n.natAbs

/-- The compact text of an object whose values are dumped. -/
def dumpObject (fields : List (List Char × List Char)) : List Char :=
  '{' :: (List.intercalate [','] (fields.map fun field => dumpText field.1 ++ ':' :: field.2) ++
    ['}'])

/-- `str.encode` of a text of `json.dumps`, which is ASCII. -/
def asciiBytes (s : List Char) : Bytes := s.map fun c => UInt8.ofNat c.toNat

/-! ## Scopes -/

/-- A number in a fixed width. -/
def padded (base : Nat) : Nat → Nat → List Char
  | 0, _ => []
  | width + 1, n => padded base width (n / base) ++ [hexDigit (n % base % 16)]

/-- The 128 bits of a UUID. -/
abbrev Uuid := BitVec 128

/-- `str(uuid)`. -/
def uuidText (u : Uuid) : List Char :=
  let hex := padded 16 32 u.toNat
  hex.take 8 ++ '-' :: ((hex.drop 8).take 4 ++ '-' :: ((hex.drop 12).take 4 ++ '-' ::
    ((hex.drop 16).take 4 ++ '-' :: hex.drop 20)))

/-- An aware `datetime` in UTC. -/
structure UtcTime where
  year : Fin 10000
  month : Fin 13
  day : Fin 32
  hour : Fin 24
  minute : Fin 60
  second : Fin 60
  microsecond : Fin 1000000
  deriving DecidableEq, Repr

/-- `_timestamp`: `isoformat` in UTC. -/
def UtcTime.isoformat (t : UtcTime) : List Char :=
  padded 10 4 t.year ++ '-' :: (padded 10 2 t.month ++ '-' :: (padded 10 2 t.day ++ 'T' ::
    (padded 10 2 t.hour ++ ':' :: (padded 10 2 t.minute ++ ':' :: (padded 10 2 t.second ++
      ((if t.microsecond.val = 0 then [] else '.' :: padded 10 6 t.microsecond) ++
        "+00:00".toList))))))

/-- What the routes filter by. A `Decimal` is known by its `str`. -/
inductive FilterValue
  | none
  | text (s : List Char)
  | int (n : Int)
  | bool (b : Bool)
  | uuid (u : Uuid)
  | decimal (text : List Char)
  | time (t : UtcTime)

/-- A value of `_cursor_filter_value`. -/
inductive Normalized
  | null
  | text (s : List Char)
  | int (n : Int)
  | bool (b : Bool)
  deriving DecidableEq, Repr

/-- `_cursor_filter_value`. -/
def cursorFilterValue : FilterValue → Normalized
  | .none => .null
  | .text s => .text s
  | .int n => .int n
  | .bool b => .bool b
  | .uuid u => .text (uuidText u)
  | .decimal s => .text s
  | .time t => .text t.isoformat

def Normalized.dump : Normalized → List Char
  | .null => "null".toList
  | .text s => dumpText s
  | .int n => dumpInt n
  | .bool b => boolText b

def Normalized.json : Normalized → Json
  | .null => .null
  | .text s => .text s
  | .int n => .int n
  | .bool b => .bool b

/-- The keyword arguments of `_cursor_scope`. -/
abbrev Filters := List (String × FilterValue)

/-- The normalized filters, by `sort_keys`. -/
def normalizedFilters (filters : Filters) : List (List Char × Normalized) :=
  ((filters.insertionSort fun a b => a.1 ≤ b.1).map fun field =>
    (field.1.toList, cursorFilterValue field.2))

def dumpFilters (fields : List (List Char × Normalized)) : List Char :=
  dumpObject (fields.map fun field => (field.1, field.2.dump))

def filtersJson (fields : List (List Char × Normalized)) : Json :=
  .object (fields.map fun field => (field.1, field.2.json))

/-- The routes whose pages carry a cursor. -/
inductive Route
  | retailers
  | storesFind
  | productsSearch
  | pricesCurrent
  | pricesCompare
  | pricesHistory
  | promotionsActive
  | promotionsHistory
  | availabilityCurrent
  | freshness
  | sourceStatus
  | platformStatus
  deriving DecidableEq, Repr

def Route.value : Route → List Char
  | .retailers => "retailers".toList
  | .storesFind => "stores.find".toList
  | .productsSearch => "products.search".toList
  | .pricesCurrent => "prices.current".toList
  | .pricesCompare => "prices.compare".toList
  | .pricesHistory => "prices.history".toList
  | .promotionsActive => "promotions.active".toList
  | .promotionsHistory => "promotions.history".toList
  | .availabilityCurrent => "availability.current".toList
  | .freshness => "freshness".toList
  | .sourceStatus => "source-status".toList
  | .platformStatus => "platform-status".toList

/-- SHA-256 as `hexdigest`, unpadded URL-safe base64, and the reading of both codecs. -/
structure CursorCodecs where
  sha256 : Bytes → List Char
  encode : Bytes → List Char
  decode : List Char → Option Bytes
  loads : Bytes → Option Json

structure CursorScope where
  route : List Char
  fingerprint : List Char
  deriving DecidableEq, Repr

/-- The bytes that a fingerprint is taken of. -/
def filterBytes (filters : Filters) : Bytes := asciiBytes (dumpFilters (normalizedFilters filters))

/-- `_cursor_scope`. -/
def CursorCodecs.cursorScope (c : CursorCodecs) (route : Route) (filters : Filters) : CursorScope :=
  ⟨route.value, c.sha256 (filterBytes filters)⟩

/-! ## Cursors -/

def cursorPrefix : List Char := "mq1".toList

/-- `_CURSOR_MAXIMUM_CHARACTERS`. -/
def cursorMaximumCharacters : Nat := 512

/-- `_CURSOR_DOMAIN`. -/
def cursorDomain : Bytes := asciiBytes ("makolet-public-query-cursor-v1".toList ++ [Char.ofNat 0])

structure CursorPage (α : Type) where
  items : List α
  nextCursor : Option (List Char)
  deriving DecidableEq, Repr

structure DecodedCursor where
  position : Option (List Char)
  state : List (List Char × List Char)
  deriving DecidableEq, Repr

/-- The text of the payload, by `sort_keys`. -/
def dumpPayload (scope : CursorScope) (position : List Char)
    (state : List (List Char × List Char)) : List Char :=
  dumpObject [("f".toList, dumpText scope.fingerprint), ("p".toList, dumpText position),
    ("r".toList, dumpText scope.route),
    ("s".toList, dumpObject (state.map fun field => (field.1, dumpText field.2))),
    ("v".toList, dumpInt 1)]

def payloadJson (scope : CursorScope) (position : List Char)
    (state : List (List Char × List Char)) : Json :=
  .object [("f".toList, .text scope.fingerprint), ("p".toList, .text position),
    ("r".toList, .text scope.route),
    ("s".toList, .object (state.map fun field => (field.1, .text field.2))),
    ("v".toList, .int 1)]

def unprintable (c : Char) : Bool := decide (c.toNat < 32)

namespace CursorCodecs

variable (c : CursorCodecs)

/-- The cursor of a body. -/
def envelope (body : Bytes) : List Char :=
  cursorPrefix ++ '.' :: (c.encode body ++ '.' :: c.sha256 (cursorDomain ++ body))

/-- `_bind_page`. -/
def bindPage {α : Type} (page : CursorPage α) (scope : CursorScope)
    (state : List (List Char × List Char)) : Except Failure (CursorPage α) :=
  match page.nextCursor with
  | none => .ok ⟨page.items, none⟩
  | some position => do
    require (position ≠ [] ∧ position.length ≤ 256 ∧ position.any unprintable = false)
      (domainInvalid "Repository returned an invalid pagination cursor")
    let cursor := c.envelope (asciiBytes (dumpPayload scope position state))
    require (cursor.length ≤ cursorMaximumCharacters)
      (domainInvalid "Generated pagination cursor exceeds its size bound")
    pure ⟨page.items, some cursor⟩

def invalidCursor : Failure := domainInvalid "Cursor is invalid or does not match this query"

/-- `str.isspace` of a character. -/
def whitespace (c : Char) : Bool :=
  decide (9 ≤ c.toNat ∧ c.toNat ≤ 13 ∨ 28 ≤ c.toNat ∧ c.toNat ≤ 32 ∨
    0x2000 ≤ c.toNat ∧ c.toNat ≤ 0x200A ∨
    c.toNat ∈ [0x85, 0xA0, 0x1680, 0x2028, 0x2029, 0x202F, 0x205F, 0x3000])

/-- What no cursor holds. -/
def unreadable (d : Char) : Bool := decide (d.toNat < 32 ∨ 126 < d.toNat)

/-- `str.strip`. -/
def strip (s : List Char) : List Char :=
  ((s.dropWhile whitespace).reverse.dropWhile whitespace).reverse

def SameKeys (keys expected : List (List Char)) : Prop :=
  (∀ key ∈ keys, key ∈ expected) ∧ ∀ key ∈ expected, key ∈ keys

instance (keys expected : List (List Char)) : Decidable (SameKeys keys expected) :=
  inferInstanceAs (Decidable (_ ∧ _))

/-- `== _CURSOR_VERSION`, which `True` and `1.0` are as well. -/
def isVersion : Option Json → Bool
  | some (.int n) => n = 1
  | some (.bool b) => b
  | some (.float q) => q = 1
  | _ => false

def textOf : Option Json → Option (List Char)
  | some (.text s) => some s
  | _ => none

/-- The state items, if every one is an acceptable text. -/
def stateOf : List (List Char × Json) → Option (List (List Char × List Char))
  | [] => some []
  | (key, .text item) :: rest =>
      if item ≠ [] ∧ item.length ≤ 64 ∧ item.any unprintable = false then
        (stateOf rest).map ((key, item) :: ·)
      else none
  | _ :: _ => none

/-- `_decode_cursor`. -/
def decodeCursor (value : Option (List Char)) (scope : CursorScope)
    (stateKeys : List (List Char)) : Except Failure DecodedCursor :=
  match value with
  | none => .ok ⟨none, []⟩
  | some value => do
    let cleaned := strip value
    require (cleaned ≠ [] ∧ cleaned.length ≤ cursorMaximumCharacters ∧
      cleaned.any unreadable = false) invalidCursor
    match cleaned.splitOn '.' with
    | [mark, encoded, supplied] =>
      match c.decode encoded with
      | none => .error invalidCursor
      | some body =>
        match c.loads body with
        | some (.object payload) => do
          require (mark = cursorPrefix ∧ supplied.length = 64 ∧
            supplied = c.sha256 (cursorDomain ++ body)) invalidCursor
          require (SameKeys (payload.map Prod.fst)
            ["f".toList, "p".toList, "r".toList, "s".toList, "v".toList]) invalidCursor
          require (isVersion (payload.lookup "v".toList) = true ∧
            textOf (payload.lookup "r".toList) = some scope.route ∧
            textOf (payload.lookup "f".toList) = some scope.fingerprint) invalidCursor
          match textOf (payload.lookup "p".toList), payload.lookup "s".toList with
          | some position, some (.object state) => do
            require (position ≠ [] ∧ position.length ≤ 256 ∧ position.any unprintable = false)
              invalidCursor
            require (SameKeys (state.map Prod.fst) stateKeys) invalidCursor
            match stateOf state with
            | none => .error invalidCursor
            | some items => pure ⟨some position, items⟩
          | _, _ => .error invalidCursor
        | _ => .error invalidCursor
    | _ => .error invalidCursor

end CursorCodecs

/-! ## Texts of the envelope -/

/-- A text that `json.dumps` writes as it is. -/
def Plain (s : List Char) : Prop :=
  ∀ d ∈ s, 32 < d.toNat ∧ d.toNat ≤ 126 ∧ d ≠ '"' ∧ d ≠ '\\'

instance (s : List Char) : Decidable (Plain s) := List.decidableBAll _ s

theorem Plain.append {s t : List Char} (hs : Plain s) (ht : Plain t) : Plain (s ++ t) := by
  intro d hd
  exact (List.mem_append.1 hd).elim (hs d) (ht d)

theorem Plain.cons {d : Char} {s : List Char} (hd : Plain [d]) (hs : Plain s) : Plain (d :: s) :=
  hd.append hs

theorem Plain.sublist {s t : List Char} (h : Plain t) (hsub : s.Sublist t) : Plain s :=
  fun d hd => h d (hsub.subset hd)

theorem Plain.printable {s : List Char} (h : Plain s) : s.any unprintable = false := by
  rw [List.any_eq_false]
  intro d hd
  have := (h d hd).1
  simp [unprintable]
  omega

theorem dumpText_of_plain {s : List Char} (h : Plain s) : dumpText s = '"' :: (s ++ ['"']) := by
  have hself : s.flatMap escapeAscii = s := by
    induction s with
    | nil => rfl
    | cons d s ih =>
      obtain ⟨hlow, hhigh, hquote, hback⟩ := h d List.mem_cons_self
      have hd : escapeAscii d = [d] := by
        rw [escapeAscii, if_neg hquote, if_neg hback, if_pos ⟨hlow.le, hhigh⟩]
      rw [List.flatMap_cons, hd, ih fun e he => h e (List.mem_cons_of_mem _ he)]
      rfl
  rw [dumpText, hself]

theorem length_dumpText {s : List Char} (h : Plain s) : (dumpText s).length = s.length + 2 := by
  rw [dumpText_of_plain h]
  simp

theorem plain_hexDigit : ∀ n < 16, Plain [hexDigit n] := by decide

theorem plain_padded (base width n : Nat) : Plain (padded base width n) := by
  induction width generalizing n with
  | zero =>
    intro d hd
    cases hd
  | succ width ih => exact (ih _).append (plain_hexDigit _ (Nat.mod_lt _ (by decide)))

theorem length_padded (base width n : Nat) : (padded base width n).length = width := by
  induction width generalizing n with
  | zero => rfl
  | succ width ih => rw [padded, List.length_append, ih]; rfl

theorem plain_uuidText (u : Uuid) : Plain (uuidText u) := by
  have hhex := plain_padded 16 32 u.toNat
  have hdash : Plain ['-'] := by decide
  rw [uuidText]
  generalize padded 16 32 u.toNat = hex at hhex
  have hpart : ∀ m n, Plain ((hex.drop m).take n) := fun m n =>
    hhex.sublist ((List.take_sublist _ _).trans (List.drop_sublist _ _))
  exact (hhex.sublist (List.take_sublist _ _)).append (hdash.append ((hpart 8 4).append
    (hdash.append ((hpart 12 4).append (hdash.append ((hpart 16 4).append
      (hdash.append (hhex.sublist (List.drop_sublist _ _)))))))))

theorem length_uuidText (u : Uuid) : (uuidText u).length = 36 := by
  simp [uuidText, length_padded]

theorem plain_isoformat (t : UtcTime) : Plain t.isoformat := by
  have hfraction : Plain (if t.microsecond.val = 0 then []
      else '.' :: padded 10 6 t.microsecond) := by
    split_ifs
    · exact fun _ hd => by cases hd
    · exact Plain.cons (by decide) (plain_padded 10 6 _)
  have hzone : Plain "+00:00".toList := by decide
  exact (plain_padded 10 4 _).append (.cons (by decide) ((plain_padded 10 2 _).append
    (.cons (by decide) ((plain_padded 10 2 _).append (.cons (by decide)
      ((plain_padded 10 2 _).append (.cons (by decide) ((plain_padded 10 2 _).append
        (.cons (by decide) ((plain_padded 10 2 _).append (hfraction.append hzone)))))))))))

theorem length_isoformat (t : UtcTime) : 1 ≤ t.isoformat.length ∧ t.isoformat.length ≤ 32 := by
  have hzone : "+00:00".toList.length = 6 := by decide
  have hfraction : (if t.microsecond.val = 0 then []
      else '.' :: padded 10 6 t.microsecond).length ≤ 7 := by
    split_ifs
    · exact Nat.zero_le _
    · rw [List.length_cons, length_padded]
  rw [UtcTime.isoformat]
  simp only [List.length_append, List.length_cons, length_padded, hzone]
  omega

theorem plain_route (route : Route) : Plain route.value ∧ route.value.length ≤ 20 := by
  cases route <;> decide

theorem Route.value_injective : Function.Injective Route.value := by
  intro a b h
  cases a <;> cases b <;> first | rfl | exact absurd h (by decide)

/-! ## What a bound cursor holds -/

/-- What the traversal of a history keeps from page to page. -/
inductive TraversalState
  | none
  | range (since until_ : UtcTime)
  | instant (at_ : UtcTime)

/-- The `state` of `_bind_page`. -/
def TraversalState.fields : TraversalState → List (List Char × List Char)
  | .none => []
  | .range since until_ => [("since".toList, since.isoformat), ("until".toList, until_.isoformat)]
  | .instant at_ => [("at".toList, at_.isoformat)]

/-- The `state_keys` of `_decode_cursor`. -/
def TraversalState.keys (s : TraversalState) : List (List Char) := s.fields.map Prod.fst

def hexDigits : List Char := "0123456789abcdef".toList

/-- A digest in hexadecimal digits. -/
def IsDigest (s : List Char) : Prop := s.length = 64 ∧ ∀ d ∈ s, d ∈ hexDigits

instance (s : List Char) : Decidable (IsDigest s) :=
  decidable_of_iff (s.length = 64 ∧ s.all (fun d => decide (d ∈ hexDigits)) = true) (by
    rw [IsDigest, List.all_eq_true]
    simp only [decide_eq_true_eq])

def base64Alphabet : List Char :=
  "ABCDEFGHIJKLMNOPQRSTUVWXYZabcdefghijklmnopqrstuvwxyz0123456789-_".toList

/-- The hash and the codecs on one body. -/
structure CursorCodecs.Reads (c : CursorCodecs) (body : Bytes) (json : Json) : Prop where
  digest : IsDigest (c.sha256 (cursorDomain ++ body))
  length : (c.encode body).length = (4 * body.length + 2) / 3
  alphabet : ∀ d ∈ c.encode body, d ∈ base64Alphabet
  decodes : c.decode (c.encode body) = some body
  loads : c.loads body = some json

theorem IsDigest.plain {s : List Char} (h : IsDigest s) : Plain s := by
  have hhex : Plain hexDigits := by decide
  exact fun d hd => hhex d (h.2 d hd)

theorem length_intercalate_le (xs : List (List Char)) :
    (List.intercalate [','] xs).length ≤ (xs.map fun x => x.length + 1).sum := by
  induction xs with
  | nil => simp [List.intercalate]
  | cons x xs ih =>
    cases xs with
    | nil => simp [List.intercalate]
    | cons y ys =>
      have hstep : List.intercalate [','] (x :: y :: ys) =
          x ++ ',' :: List.intercalate [','] (y :: ys) := by
        simp [List.intercalate, List.intersperse]
      rw [hstep, List.map_cons, List.sum_cons, List.length_append, List.length_cons]
      omega

theorem length_dumpObject_le (fields : List (List Char × List Char)) :
    (dumpObject fields).length ≤
      2 + (fields.map fun f => (dumpText f.1).length + f.2.length + 2).sum := by
  have hle := length_intercalate_le
    (fields.map fun field => dumpText field.1 ++ ':' :: field.2)
  have hsum : ((fields.map fun field => dumpText field.1 ++ ':' :: field.2).map
      fun x => x.length + 1) = fields.map fun f => (dumpText f.1).length + f.2.length + 2 := by
    rw [List.map_map]
    refine List.map_congr_left fun f _ => ?_
    simp only [Function.comp_apply, List.length_append, List.length_cons]
    omega
  rw [hsum] at hle
  rw [dumpObject, List.length_cons, List.length_append, List.length_singleton]
  omega

/-- The state items are acceptable. -/
theorem TraversalState.fields_ok (s : TraversalState) :
    ∀ f ∈ s.fields, f.2 ≠ [] ∧ f.2.length ≤ 64 ∧ f.2.any unprintable = false := by
  have htime : ∀ t : UtcTime, t.isoformat ≠ [] ∧ t.isoformat.length ≤ 64 ∧
      t.isoformat.any unprintable = false := by
    intro t
    obtain ⟨hlow, hhigh⟩ := length_isoformat t
    exact ⟨List.ne_nil_of_length_pos hlow, by omega, (plain_isoformat t).printable⟩
  intro f hf
  cases s with
  | none => cases hf
  | range since until_ =>
    simp only [fields, List.mem_cons, List.not_mem_nil, or_false] at hf
    rcases hf with rfl | rfl
    · exact htime since
    · exact htime until_
  | instant at_ =>
    simp only [fields, List.mem_cons, List.not_mem_nil, or_false] at hf
    subst hf
    exact htime at_

theorem length_dumpState_le (s : TraversalState) :
    (dumpObject (s.fields.map fun field => (field.1, dumpText field.2))).length ≤ 88 := by
  have hle := length_dumpObject_le (s.fields.map fun field => (field.1, dumpText field.2))
  have hsince : (dumpText "since".toList).length = 7 := by decide
  have huntil : (dumpText "until".toList).length = 7 := by decide
  have hat : (dumpText "at".toList).length = 4 := by decide
  have htime : ∀ t : UtcTime, (dumpText t.isoformat).length ≤ 34 := by
    intro t
    rw [length_dumpText (plain_isoformat t)]
    have := (length_isoformat t).2
    omega
  cases s with
  | none =>
    simp only [TraversalState.fields, List.map_nil, List.sum_nil] at hle ⊢
    omega
  | range since until_ =>
    simp only [TraversalState.fields, List.map_cons, List.map_nil, List.sum_cons, List.sum_nil,
      hsince, huntil] at hle ⊢
    have := htime since
    have := htime until_
    omega
  | instant at_ =>
    simp only [TraversalState.fields, List.map_cons, List.map_nil, List.sum_cons, List.sum_nil,
      hat] at hle ⊢
    have := htime at_
    omega

/-- A payload is short. -/
theorem length_dumpPayload_le {scope : CursorScope} (route : Route) (position : Uuid)
    (state : TraversalState) (hroute : scope.route = route.value)
    (hdigest : IsDigest scope.fingerprint) :
    (dumpPayload scope (uuidText position) state.fields).length ≤ 242 := by
  have hle := length_dumpObject_le [("f".toList, dumpText scope.fingerprint),
    ("p".toList, dumpText (uuidText position)), ("r".toList, dumpText scope.route),
    ("s".toList, dumpObject (state.fields.map fun field => (field.1, dumpText field.2))),
    ("v".toList, dumpInt 1)]
  have hkeys : (dumpText "f".toList).length = 3 ∧ (dumpText "p".toList).length = 3 ∧
      (dumpText "r".toList).length = 3 ∧ (dumpText "s".toList).length = 3 ∧
      (dumpText "v".toList).length = 3 ∧ (dumpInt 1).length = 1 := by decide
  obtain ⟨hf, hp, hr, hs, hv, hone⟩ := hkeys
  have hstate := length_dumpState_le state
  have hroutes := (plain_route route).2
  simp only [List.map_cons, List.map_nil, List.sum_cons, List.sum_nil, hf, hp, hr, hs, hv, hone,
    length_dumpText hdigest.plain, hdigest.1, length_dumpText (plain_uuidText position),
    length_uuidText, hroute, length_dumpText (plain_route route).1] at hle
  rw [dumpPayload, hroute]
  omega

/-! ## Reading a cursor back -/

/-- A character that neither `strip` nor `split` reads as its own. -/
def Inner (d : Char) : Prop := 32 < d.toNat ∧ d.toNat ≤ 126 ∧ d ≠ '.'

instance (d : Char) : Decidable (Inner d) := inferInstanceAs (Decidable (_ ∧ _))

theorem inner_of_mem_base64 {d : Char} (h : d ∈ base64Alphabet) : Inner d := by
  have hall : base64Alphabet.all (fun d => decide (Inner d)) = true := by decide
  exact of_decide_eq_true (List.all_eq_true.1 hall d h)

theorem inner_of_mem_digest {s : List Char} (h : IsDigest s) : ∀ d ∈ s, Inner d := by
  have hall : hexDigits.all (fun d => decide (Inner d)) = true := by decide
  exact fun d hd => of_decide_eq_true (List.all_eq_true.1 hall d (h.2 d hd))

theorem inner_of_mem_prefix : ∀ d ∈ cursorPrefix, Inner d := by
  have hall : cursorPrefix.all (fun d => decide (Inner d)) = true := by decide
  exact fun d hd => of_decide_eq_true (List.all_eq_true.1 hall d hd)

theorem strip_of_printable {s : List Char} (h : ∀ d ∈ s, 32 < d.toNat ∧ d.toNat ≤ 126) :
    CursorCodecs.strip s = s := by
  have hspace : ∀ d ∈ s, CursorCodecs.whitespace d = false := by
    intro d hd
    obtain ⟨hlow, hhigh⟩ := h d hd
    refine decide_eq_false ?_
    simp only [List.mem_cons, List.not_mem_nil, or_false]
    omega
  have hkeep : ∀ {s : List Char}, (∀ d ∈ s, CursorCodecs.whitespace d = false) →
      s.dropWhile CursorCodecs.whitespace = s := by
    intro s hs
    cases s with
    | nil => rfl
    | cons d s => rw [List.dropWhile_cons, hs d List.mem_cons_self]; rfl
  rw [CursorCodecs.strip, hkeep hspace, hkeep fun d hd => hspace d (List.mem_reverse.1 hd),
    List.reverse_reverse]

/-- The three parts of an envelope. -/
theorem splitOn_envelope {mark encoded digest : List Char} (hmark : ∀ d ∈ mark, Inner d)
    (hencoded : ∀ d ∈ encoded, Inner d) (hdigest : ∀ d ∈ digest, Inner d) :
    (mark ++ '.' :: (encoded ++ '.' :: digest)).splitOn '.' = [mark, encoded, digest] := by
  have hnot : ∀ {s : List Char}, (∀ d ∈ s, Inner d) → '.' ∉ s := fun h hmem => (h _ hmem).2.2 rfl
  rw [List.splitOn_append_cons_self, List.splitOn_append_cons_self,
    List.splitOn_eq_singleton (hnot hmark), List.splitOn_eq_singleton (hnot hencoded),
    List.splitOn_eq_singleton (hnot hdigest)]
  rfl

theorem stateOf_texts {state : List (List Char × List Char)}
    (h : ∀ f ∈ state, f.2 ≠ [] ∧ f.2.length ≤ 64 ∧ f.2.any unprintable = false) :
    CursorCodecs.stateOf (state.map fun f => (f.1, Json.text f.2)) = some state := by
  induction state with
  | nil => rfl
  | cons f state ih =>
    obtain ⟨key, item⟩ := f
    have hrest := ih fun f hf => h f (List.mem_cons_of_mem _ hf)
    rw [List.map_cons, CursorCodecs.stateOf, if_pos (h (key, item) List.mem_cons_self), hrest]
    rfl

theorem lookup_payload (f p r s v : Json) :
    List.lookup "f".toList [("f".toList, f), ("p".toList, p), ("r".toList, r), ("s".toList, s),
        ("v".toList, v)] = some f ∧
      List.lookup "p".toList [("f".toList, f), ("p".toList, p), ("r".toList, r), ("s".toList, s),
        ("v".toList, v)] = some p ∧
      List.lookup "r".toList [("f".toList, f), ("p".toList, p), ("r".toList, r), ("s".toList, s),
        ("v".toList, v)] = some r ∧
      List.lookup "s".toList [("f".toList, f), ("p".toList, p), ("r".toList, r), ("s".toList, s),
        ("v".toList, v)] = some s ∧
      List.lookup "v".toList [("f".toList, f), ("p".toList, p), ("r".toList, r), ("s".toList, s),
        ("v".toList, v)] = some v :=
  ⟨rfl, rfl, rfl, rfl, rfl⟩

theorem sameKeys_payload (f p r s v : Json) :
    CursorCodecs.SameKeys ([("f".toList, f), ("p".toList, p), ("r".toList, r), ("s".toList, s),
      ("v".toList, v)].map Prod.fst)
      ["f".toList, "p".toList, "r".toList, "s".toList, "v".toList] :=
  ⟨fun _ hmem => hmem, fun _ hmem => hmem⟩

section Binding

variable {c : CursorCodecs} {scope : CursorScope} {route : Route} {position : Uuid}
  {state : TraversalState}

/-- The body of a cursor. -/
def cursorBody (scope : CursorScope) (position : Uuid) (state : TraversalState) : Bytes :=
  asciiBytes (dumpPayload scope (uuidText position) state.fields)

theorem envelope_spec (hroute : scope.route = route.value) (hscope : IsDigest scope.fingerprint)
    (h : c.Reads (cursorBody scope position state)
      (payloadJson scope (uuidText position) state.fields)) :
    (c.envelope (cursorBody scope position state)).length ≤ cursorMaximumCharacters ∧
      ∀ d ∈ c.envelope (cursorBody scope position state), 32 < d.toNat ∧ d.toNat ≤ 126 := by
  have hprefix : cursorPrefix.length = 3 := rfl
  constructor
  · have hbody : (cursorBody scope position state).length ≤ 242 := by
      rw [cursorBody, asciiBytes, List.length_map]
      exact length_dumpPayload_le route position state hroute hscope
    rw [CursorCodecs.envelope, List.length_append, List.length_cons, List.length_append,
      List.length_cons, h.length, h.digest.1, hprefix, cursorMaximumCharacters]
    omega
  · intro d hd
    simp only [CursorCodecs.envelope, List.mem_append, List.mem_cons] at hd
    have hdot : 32 < '.'.toNat ∧ '.'.toNat ≤ 126 := by decide
    rcases hd with hd | rfl | hd | rfl | hd
    · have hinner := inner_of_mem_prefix d hd
      exact ⟨hinner.1, hinner.2.1⟩
    · exact hdot
    · have hinner := inner_of_mem_base64 (h.alphabet d hd)
      exact ⟨hinner.1, hinner.2.1⟩
    · exact hdot
    · have hinner := inner_of_mem_digest h.digest d hd
      exact ⟨hinner.1, hinner.2.1⟩

/-- `_bind_page` emits the envelope. -/
theorem bindPage_eq {α : Type} (items : List α) (hroute : scope.route = route.value)
    (hscope : IsDigest scope.fingerprint)
    (h : c.Reads (cursorBody scope position state)
      (payloadJson scope (uuidText position) state.fields)) :
    c.bindPage ⟨items, some (uuidText position)⟩ scope state.fields =
      .ok ⟨items, some (c.envelope (cursorBody scope position state))⟩ := by
  have hposition : uuidText position ≠ [] ∧ (uuidText position).length ≤ 256 ∧
      (uuidText position).any unprintable = false := by
    have hlength := length_uuidText position
    exact ⟨List.ne_nil_of_length_pos (by omega), by omega, (plain_uuidText position).printable⟩
  rw [CursorCodecs.bindPage]
  dsimp only
  rw [require_bind_of hposition]
  exact require_bind_of (envelope_spec hroute hscope h).1 _

/-- What `_decode_cursor` checks of the text of a cursor holds of an envelope. -/
theorem envelope_clean (hroute : scope.route = route.value) (hscope : IsDigest scope.fingerprint)
    (h : c.Reads (cursorBody scope position state)
      (payloadJson scope (uuidText position) state.fields)) :
    c.envelope (cursorBody scope position state) ≠ [] ∧
      (c.envelope (cursorBody scope position state)).length ≤ cursorMaximumCharacters ∧
      (c.envelope (cursorBody scope position state)).any CursorCodecs.unreadable = false := by
  obtain ⟨hsize, hprintable⟩ := envelope_spec hroute hscope h
  refine ⟨?_, hsize, ?_⟩
  · rw [CursorCodecs.envelope]
    exact List.append_ne_nil_of_right_ne_nil _ (List.cons_ne_nil _ _)
  · rw [List.any_eq_false]
    intro d hd
    obtain ⟨hlow, hhigh⟩ := hprintable d hd
    simp only [CursorCodecs.unreadable, decide_eq_true_eq]
    omega

/-- And what it checks of a position holds of an identifier. -/
theorem uuidText_clean (position : Uuid) :
    uuidText position ≠ [] ∧ (uuidText position).length ≤ 256 ∧
      (uuidText position).any unprintable = false := by
  have hlength := length_uuidText position
  exact ⟨List.ne_nil_of_length_pos (by omega), by omega, (plain_uuidText position).printable⟩

/-- What `_decode_cursor` still asks of an envelope: its route and its fingerprint, and the keys of
its state. -/
theorem decodeCursor_envelope (hroute : scope.route = route.value)
    (hscope : IsDigest scope.fingerprint)
    (h : c.Reads (cursorBody scope position state)
      (payloadJson scope (uuidText position) state.fields))
    (other : CursorScope) (stateKeys : List (List Char)) :
    c.decodeCursor (some (c.envelope (cursorBody scope position state))) other stateKeys =
      (do
        require (scope.route = other.route ∧ scope.fingerprint = other.fingerprint)
          CursorCodecs.invalidCursor
        require (CursorCodecs.SameKeys state.keys stateKeys) CursorCodecs.invalidCursor
        pure ⟨some (uuidText position), state.fields⟩) := by
  obtain ⟨-, hprintable⟩ := envelope_spec hroute hscope h
  have hparts : (c.envelope (cursorBody scope position state)).splitOn '.' =
      [cursorPrefix, c.encode (cursorBody scope position state),
        c.sha256 (cursorDomain ++ cursorBody scope position state)] :=
    splitOn_envelope inner_of_mem_prefix (fun d hd => inner_of_mem_base64 (h.alphabet d hd))
      (inner_of_mem_digest h.digest)
  have hstate : (state.fields.map fun f => (f.1, Json.text f.2)).map Prod.fst = state.keys := by
    rw [List.map_map]
    rfl
  rw [CursorCodecs.decodeCursor, strip_of_printable hprintable,
    require_bind_of (envelope_clean hroute hscope h), hparts]
  dsimp only
  rw [h.decodes]
  dsimp only
  rw [h.loads, payloadJson]
  dsimp only
  rw [require_bind_of ⟨rfl, h.digest.1, rfl⟩]
  obtain ⟨hf, hp, hr, hs, hv⟩ := lookup_payload (.text scope.fingerprint)
    (.text (uuidText position)) (.text scope.route)
    (.object (state.fields.map fun field => (field.1, Json.text field.2))) (.int 1)
  rw [require_bind_of (sameKeys_payload _ _ _ _ _), hf, hp, hr, hs, hv]
  by_cases hsame : scope.route = other.route ∧ scope.fingerprint = other.fingerprint
  · have hscopes : CursorCodecs.isVersion (some (.int 1)) = true ∧
        CursorCodecs.textOf (some (.text scope.route)) = some other.route ∧
        CursorCodecs.textOf (some (.text scope.fingerprint)) = some other.fingerprint :=
      ⟨rfl, congrArg some hsame.1, congrArg some hsame.2⟩
    rw [require_bind_of hscopes, require_bind_of hsame]
    show (do
      require _ _
      require (CursorCodecs.SameKeys _ stateKeys) _
      match CursorCodecs.stateOf _ with
      | none => _
      | some items => _) = _
    rw [require_bind_of (uuidText_clean position), hstate, stateOf_texts state.fields_ok]
  · have hscopes : ¬ (CursorCodecs.isVersion (some (.int 1)) = true ∧
        CursorCodecs.textOf (some (.text scope.route)) = some other.route ∧
        CursorCodecs.textOf (some (.text scope.fingerprint)) = some other.fingerprint) := by
      rintro ⟨-, hroutes, hprints⟩
      exact hsame ⟨Option.some.inj hroutes, Option.some.inj hprints⟩
    rw [require_bind_of_not hscopes, require_bind_of_not hsame]

end Binding

/-! ## Cursors under other scopes -/

theorem Normalized.json_injective : Function.Injective Normalized.json := by
  intro a b h
  cases a <;> cases b <;> simp_all [Normalized.json]

theorem filtersJson_injective : Function.Injective filtersJson := by
  intro fields fields' h
  have hfields := Json.object.inj h
  refine List.map_injective_iff.2 (fun a b hab => ?_) hfields
  obtain ⟨hkey, hvalue⟩ := Prod.mk.injEq _ _ _ _ ▸ hab
  exact Prod.ext hkey (Normalized.json_injective hvalue)

/-- `json.loads` reads the filters of a scope back. -/
def CursorCodecs.ReadsFilters (c : CursorCodecs) (filters : Filters) : Prop :=
  c.loads (filterBytes filters) = some (filtersJson (normalizedFilters filters))

/-- Filters that are not the same have different fingerprints, if their digests do not collide. -/
theorem fingerprint_ne {c : CursorCodecs} {filters filters' : Filters}
    (h : c.ReadsFilters filters) (h' : c.ReadsFilters filters')
    (hsha : c.sha256 (filterBytes filters) = c.sha256 (filterBytes filters') →
      filterBytes filters = filterBytes filters')
    (hne : normalizedFilters filters ≠ normalizedFilters filters') :
    c.sha256 (filterBytes filters) ≠ c.sha256 (filterBytes filters') := by
  intro heq
  have hbytes := hsha heq
  rw [CursorCodecs.ReadsFilters, hbytes, h'] at h
  exact hne (filtersJson_injective (Option.some.inj h)).symm

/-- A cursor is within its bound, is read back under its own scope, and is refused under any other
route and under any other normalized filters. -/
theorem cursor_bound {α : Type} (c : CursorCodecs) (items : List α) (route : Route)
    (filters : Filters) (state : TraversalState) (position : Uuid)
    (hscope : IsDigest (c.sha256 (filterBytes filters)))
    (hbody : c.Reads (cursorBody (c.cursorScope route filters) position state)
      (payloadJson (c.cursorScope route filters) (uuidText position) state.fields)) :
    ∃ cursor, c.bindPage ⟨items, some (uuidText position)⟩ (c.cursorScope route filters)
        state.fields = .ok ⟨items, some cursor⟩ ∧
      cursor.length ≤ cursorMaximumCharacters ∧
      c.decodeCursor (some cursor) (c.cursorScope route filters) state.keys =
        .ok ⟨some (uuidText position), state.fields⟩ ∧
      ∀ (route' : Route) (filters' : Filters) (stateKeys : List (List Char)),
        route ≠ route' ∨ normalizedFilters filters ≠ normalizedFilters filters' →
        c.ReadsFilters filters → c.ReadsFilters filters' →
        (c.sha256 (filterBytes filters) = c.sha256 (filterBytes filters') →
          filterBytes filters = filterBytes filters') →
        ∃ failure, c.decodeCursor (some cursor) (c.cursorScope route' filters') stateKeys =
          .error failure := by
  have hroute : (c.cursorScope route filters).route = route.value := rfl
  refine ⟨_, bindPage_eq items hroute hscope hbody, (envelope_spec hroute hscope hbody).1, ?_, ?_⟩
  · have hkeys : CursorCodecs.SameKeys state.keys state.keys :=
      ⟨fun _ hmem => hmem, fun _ hmem => hmem⟩
    rw [decodeCursor_envelope hroute hscope hbody, require_bind_of ⟨rfl, rfl⟩,
      require_bind_of hkeys]
    rfl
  · intro route' filters' stateKeys hother hreads hreads' hsha
    refine ⟨CursorCodecs.invalidCursor, ?_⟩
    rw [decodeCursor_envelope hroute hscope hbody]
    refine require_bind_of_not ?_ _
    rintro ⟨hroutes, hprints⟩
    rcases hother with hne | hne
    · exact hne (Route.value_injective hroutes)
    · exact fingerprint_ne hreads hreads' hsha hne hprints

/-! ## A cursor of a price history -/

def firstOfAugust : UtcTime := ⟨2026, 8, 1, 0, 0, 0, 0⟩

def eighthOfAugust : UtcTime := ⟨2026, 8, 8, 0, 0, 0, 0⟩

/-- One week of the prices of a product. -/
def historyFilters (product : Uuid) : Filters :=
  [("product_id", .uuid product), ("store_id", .none), ("since", .time firstOfAugust),
    ("until", .time eighthOfAugust)]

def historyState : TraversalState := .range firstOfAugust eighthOfAugust

def historyFingerprint : List Char :=
  "b3378e5456a02c847b453a24c1498057da99fab83f9cf6e482800047d6f246bc".toList

def historyScope : CursorScope := ⟨Route.pricesHistory.value, historyFingerprint⟩

/-- A function on the filters of two products, and on every other text. -/
def onHistory {β : Type} (first second other : β) (bytes : Bytes) : β :=
  if bytes = filterBytes (historyFilters 7) then first
  else if bytes = filterBytes (historyFilters 8) then second
  else other

/-- The hash and the codecs on the filters of the two products and on a page of the first one, where
they are the real ones. -/
def historyCodecs : CursorCodecs where
  sha256 := onHistory historyFingerprint
    "d215d2c93ff994fb1c9a1021fe7eab633fab5cf59f7be335e19069ca5f0ee2d5".toList
    "20f07d6a98ca27ea5b5f9d83769e301db0a7f713d09b8a4e1c4f5301fa57c42f".toList
  encode := fun _ =>
    ("eyJmIjoiYjMzNzhlNTQ1NmEwMmM4NDdiNDUzYTI0YzE0OTgwNTdkYTk5ZmFiODNmOWNmNmU0ODI4MDAwNDdkNmYy" ++
      "NDZiYyIsInAiOiIwMDAwMDAwMC0wMDAwLTAwMDAtMDAwMC0wMDAwMDAwMDAwMDEiLCJyIjoicHJpY2VzLmhpc3Rv" ++
      "cnkiLCJzIjp7InNpbmNlIjoiMjAyNi0wOC0wMVQwMDowMDowMCswMDowMCIsInVudGlsIjoiMjAyNi0wOC0wOFQw" ++
      "MDowMDowMCswMDowMCJ9LCJ2IjoxfQ").toList
  decode := fun _ => some (cursorBody historyScope 1 historyState)
  loads := onHistory (some (filtersJson (normalizedFilters (historyFilters 7))))
    (some (filtersJson (normalizedFilters (historyFilters 8))))
    (some (payloadJson historyScope (uuidText 1) historyState.fields))

section History

variable {β : Type} (first second other : β)

theorem onHistory_first :
    onHistory first second other (filterBytes (historyFilters 7)) = first :=
  if_pos rfl

theorem onHistory_second :
    onHistory first second other (filterBytes (historyFilters 8)) = second := by
  have hne : filterBytes (historyFilters 8) ≠ filterBytes (historyFilters 7) := by
    decide +kernel
  rw [onHistory, if_neg hne, if_pos rfl]

theorem onHistory_body :
    onHistory first second other (cursorBody historyScope 1 historyState) = other := by
  have hne : cursorBody historyScope 1 historyState ≠ filterBytes (historyFilters 7) ∧
      cursorBody historyScope 1 historyState ≠ filterBytes (historyFilters 8) := by
    decide +kernel
  rw [onHistory, if_neg hne.1, if_neg hne.2]

end History

theorem sha256_first :
    historyCodecs.sha256 (filterBytes (historyFilters 7)) = historyFingerprint := by
  simp only [historyCodecs, onHistory_first]

theorem readsFilters_first : historyCodecs.ReadsFilters (historyFilters 7) := by
  simp only [CursorCodecs.ReadsFilters, historyCodecs, onHistory_first]

theorem readsFilters_second : historyCodecs.ReadsFilters (historyFilters 8) := by
  simp only [CursorCodecs.ReadsFilters, historyCodecs, onHistory_second]

theorem cursorScope_history :
    historyCodecs.cursorScope .pricesHistory (historyFilters 7) = historyScope :=
  congrArg (CursorScope.mk Route.pricesHistory.value) sha256_first

theorem mem_base64Alphabet {d : Char} (h : d.isAlphanum = true) : d ∈ base64Alphabet := by
  have hall : ∀ n < 123, (Char.ofNat n).isAlphanum = true → Char.ofNat n ∈ base64Alphabet := by
    decide +kernel
  have hlow : d.toNat < 123 := by
    have hkind : ((d.isUpper || d.isLower) || d.isDigit) = true := h
    simp only [Bool.or_eq_true] at hkind
    rcases hkind with (hupper | hlower) | hdigit
    · exact Nat.lt_of_le_of_lt (of_decide_eq_true hupper).2 (by decide : 90 < 123)
    · exact Nat.lt_of_le_of_lt (of_decide_eq_true (Bool.and_eq_true_iff.1 hlower).2)
        (by decide : 122 < 123)
    · exact Nat.lt_of_le_of_lt (of_decide_eq_true (Bool.and_eq_true_iff.1 hdigit).2)
        (by decide : 57 < 123)
  have hd := hall d.toNat hlow
  rw [Char.ofNat_toNat] at hd
  exact hd h

theorem encode_history (bytes : Bytes) :
    (historyCodecs.encode bytes).length = 294 ∧
      (historyCodecs.encode bytes).all Char.isAlphanum = true := by
  simp only [historyCodecs, String.toList_append, List.length_append, List.all_append]
  decide +kernel

theorem reads_history : historyCodecs.Reads (cursorBody historyScope 1 historyState)
    (payloadJson historyScope (uuidText 1) historyState.fields) := by
  obtain ⟨hlength, halphabet⟩ := encode_history (cursorBody historyScope 1 historyState)
  refine ⟨by decide +kernel, hlength.trans (by decide +kernel), ?_, rfl, ?_⟩
  · exact fun d hd => mem_base64Alphabet (List.all_eq_true.1 halphabet d hd)
  · simp only [historyCodecs, onHistory_body]

/-- The cursor of one product is read back with its range, and refused for another product. -/
theorem cursor_bound_history :
    ∃ cursor, historyCodecs.bindPage ⟨["first"], some (uuidText 1)⟩
        (historyCodecs.cursorScope .pricesHistory (historyFilters 7)) historyState.fields =
          .ok ⟨["first"], some cursor⟩ ∧
      cursor.length ≤ cursorMaximumCharacters ∧
      historyCodecs.decodeCursor (some cursor)
          (historyCodecs.cursorScope .pricesHistory (historyFilters 7)) historyState.keys =
        .ok ⟨some (uuidText 1), historyState.fields⟩ ∧
      ∃ failure, historyCodecs.decodeCursor (some cursor)
        (historyCodecs.cursorScope .pricesHistory (historyFilters 8)) historyState.keys =
          .error failure := by
  have hsecond : historyCodecs.sha256 (filterBytes (historyFilters 8)) =
      "d215d2c93ff994fb1c9a1021fe7eab633fab5cf59f7be335e19069ca5f0ee2d5".toList := by
    simp only [historyCodecs, onHistory_second]
  have hdigest : IsDigest (historyCodecs.sha256 (filterBytes (historyFilters 7))) := by
    rw [sha256_first]
    decide +kernel
  obtain ⟨cursor, hbind, hsize, hback, hrefused⟩ :=
    cursor_bound historyCodecs ["first"] .pricesHistory (historyFilters 7) historyState 1 hdigest
      (cursorScope_history ▸ reads_history)
  refine ⟨cursor, hbind, hsize, hback, hrefused .pricesHistory (historyFilters 8) historyState.keys
    (.inr (by decide +kernel)) readsFilters_first readsFilters_second fun hsame => ?_⟩
  rw [sha256_first, hsecond] at hsame
  exact absurd hsame (by decide +kernel)

end Makolet.Queries
