import Makolet.Lib.Encodings
import Makolet.Sources.JsonValues

/-!
# Listings in JSON

`parse_json_listing` and `bounded_json_value_span` of `adapters/sources/common.py`.
`parseJsonListing_agrees` compares them with the decoder.
-/

set_option autoImplicit false

namespace Makolet.Sources

open Makolet.Domain Makolet.Lib

/-! ## Spans -/

/-- The first index from `start` on that is not blank. -/
def jsonValueStart (text : List Char) (start : Int) : Nat :=
  text.length - ((text.drop start.toNat).dropWhile isBlank).length

def boundedJsonValueSpan (text : List Char) (start : Int) : Except Failure (Nat × Nat) := do
  require (0 ≤ start ∧ start ≤ text.length) malformedJson
  let valueStart := jsonValueStart text start
  let rest ← boundedJsonValueEnd (text.drop valueStart)
  return (valueStart, text.length - rest.length)

def validateJsonShape (text : List Char) : Except Failure Unit := do
  let (_, valueEnd) ← boundedJsonValueSpan text 0
  require ((text.drop valueEnd).all isBlank) malformedJson

/-! ## Listings -/

/-- What leaves `parse_json_listing`: a failure of its own, or one of the interpreter. -/
inductive JsonRaised
  | makolet (failure : Failure)
  | interpreter (e : JsonError)
  deriving DecidableEq, Repr

def byteOrderMark : Bytes := [0xEF, 0xBB, 0xBF]

/-- `bytes.decode("utf-8-sig")`. -/
def decodeUtf8Sig (body : Bytes) : Option (List Char) :=
  ofUtf8 (if byteOrderMark.isPrefixOf body then body.drop 3 else body)

def validateListingSize (body : Bytes) : Except Failure Unit :=
  require (body.length ≤ maximumListingBytes)
    (sourceResponse "Source listing exceeds the parser byte limit")

def parseJsonListing (r : JsonRuntime) (body : Bytes) : Except JsonRaised JsonTree := do
  (validateListingSize body).mapError .makolet
  match decodeUtf8Sig body with
  | none => .error (.makolet (sourceResponse "Source listing JSON is not UTF-8"))
  | some text =>
    (validateJsonShape text).mapError .makolet
    -- Only `JSONDecodeError` is caught.
    match loads r text with
    | .ok tree => .ok tree
    | .error .malformed => .error (.makolet malformedJson)
    | .error e => .error (.interpreter e)

/-! ## Failures -/

def IsSourceResponse (f : Failure) : Prop := ∃ message, f = sourceResponse message

theorem byteCount_raises (b : Nat) (c : Char) :
    RaisesOnly IsSourceResponse (boundedJsonByteCount b c) :=
  .guard (.inr ⟨_, rfl⟩) fun _ => .pure _

theorem stringCharacterCount_raises (m : Nat) :
    RaisesOnly IsSourceResponse (boundedJsonStringCharacterCount m) :=
  .guard (.inr ⟨_, rfl⟩) fun _ => .pure _

theorem stringStep_raises (s : JsonShape) (c : Char) :
    RaisesOnly IsSourceResponse (s.stringStep c) := by
  rw [JsonShape.stringStep]
  split
  · exact (stringCharacterCount_raises _).bind fun _ _ => .pure _
  · split
    · exact .pure _
    · split
      · exact .pure _
      · exact (stringCharacterCount_raises _).bind fun _ _ => .pure _

theorem structureStep_raises (s : JsonShape) (c : Char) :
    RaisesOnly IsSourceResponse (s.structureStep c) := by
  rw [JsonShape.structureStep]
  split
  · exact .pure _
  · split
    · exact .guard (.inr ⟨_, rfl⟩) fun _ => .pure _
    · split
      · refine .guard (.inr ⟨_, rfl⟩) fun _ => .guard (.inr ⟨_, rfl⟩) fun _ => ?_
        split <;> exact .pure _
      · split
        · exact .pure _
        · split
          · exact .pure _
          · exact .guard (.inr ⟨_, rfl⟩) fun _ => .pure _

theorem step_raises (s : JsonShape) (c : Char) : RaisesOnly IsSourceResponse (s.step c) := by
  refine (byteCount_raises _ _).bind fun b _ => ?_
  rw [JsonShape.characterStep]
  split
  · exact (stringStep_raises _ _).bind fun _ _ => .pure _
  · refine (structureStep_raises _ _).bind fun next _ => ?_
    split
    · exact .pure _
    · exact .guard (.inr ⟨_, rfl⟩) fun _ => .pure _

theorem containerEnd_raises (s : JsonShape) (text : List Char) :
    RaisesOnly IsSourceResponse (boundedJsonContainerEnd s text) := by
  induction text generalizing s with
  | nil => exact .error ⟨_, rfl⟩
  | cons c text ih =>
    rw [boundedJsonContainerEnd]
    refine (step_raises s c).bind fun next _ => ?_
    split
    · exact .pure _
    · exact ih _

theorem stringEnd_raises (escaped : Bool) (m b : Nat) (text : List Char) :
    RaisesOnly IsSourceResponse (boundedJsonStringEnd escaped m b text) := by
  induction text generalizing escaped m b with
  | nil => exact .error ⟨_, rfl⟩
  | cons c text ih =>
    rw [boundedJsonStringEnd]
    refine (byteCount_raises _ _).bind fun b' _ => ?_
    split
    · exact (stringCharacterCount_raises _).bind fun _ _ => ih _ _ _
    · split
      · exact ih _ _ _
      · split
        · exact .pure _
        · exact (stringCharacterCount_raises _).bind fun _ _ => ih _ _ _

theorem scalarEnd_raises (k b : Nat) (text : List Char) :
    RaisesOnly IsSourceResponse (boundedJsonScalarEnd k b text) := by
  induction text generalizing k b with
  | nil => exact .pure _
  | cons c text ih =>
    rw [boundedJsonScalarEnd]
    split
    · split
      · exact .error ⟨_, rfl⟩
      · exact .pure _
    · exact (byteCount_raises _ _).bind fun b' _ => .guard (.inr ⟨_, rfl⟩) fun _ => ih _ _

theorem valueEnd_raises (text : List Char) :
    RaisesOnly IsSourceResponse (boundedJsonValueEnd text) := by
  cases text with
  | nil => exact .error ⟨_, rfl⟩
  | cons c text =>
    rw [boundedJsonValueEnd]
    split
    · exact containerEnd_raises _ _
    · split
      · exact (byteCount_raises _ _).bind fun _ _ => stringEnd_raises _ _ _ _
      · exact scalarEnd_raises _ _ _

theorem valueSpan_raises (text : List Char) (start : Int) :
    RaisesOnly IsSourceResponse (boundedJsonValueSpan text start) :=
  .guard (.inr ⟨_, rfl⟩) fun _ => (valueEnd_raises _).bind fun _ _ => .pure _

theorem validateJsonShape_raises (text : List Char) :
    RaisesOnly IsSourceResponse (validateJsonShape text) :=
  (valueSpan_raises text 0).bind fun _ _ => .require (.inr ⟨_, rfl⟩)

/-! ## The scanner and the decoder -/

theorem drop_jsonValueStart (text : List Char) (start : Int) :
    text.drop (jsonValueStart text start) = (text.drop start.toNat).dropWhile isBlank := by
  have hends : (text.drop start.toNat).dropWhile isBlank <:+ text :=
    (List.dropWhile_suffix _).trans (List.drop_suffix _ _)
  exact (List.suffix_iff_eq_drop.1 hends).symm

theorem valueSpan_tree {text rest : List Char} {start : Int} {v : JsonTree}
    (hstart : 0 ≤ start ∧ start ≤ text.length)
    (hvalue : text.drop (jsonValueStart text start) = v.text ++ rest) (hrest : Delimited rest) :
    Decides (WithinJsonLimits v) (boundedJsonValueSpan text start)
      (.ok (jsonValueStart text start, text.length - rest.length)) := by
  rw [boundedJsonValueSpan, require_bind_of hstart]
  simp only [hvalue]
  exact (valueEnd_tree v hrest).bind fun rest =>
    .ok (jsonValueStart text start, text.length - rest.length)

theorem delimited_of_blank {rest : List Char} (h : rest.all isBlank = true) : Delimited rest := by
  intro c hc
  have hblank := List.all_eq_true.1 h c (List.mem_of_mem_head? hc)
  rw [isDelimiter, hblank, Bool.true_or]

/-- The shape of a listing that the decoder accepts is accepted within the limits. -/
theorem validateJsonShape_of_loads {r : JsonRuntime} {text : List Char} {v : JsonTree}
    (h : loads r text = .ok v) :
    Decides (WithinJsonLimits v) (validateJsonShape text) (.ok ()) := by
  obtain ⟨rest, hraw, hend⟩ := loads_eq_ok h
  have hblank : rest.all isBlank = true := by
    rw [List.all_eq_true]
    exact List.dropWhile_eq_nil_iff.1 hend
  have hvalue : text.drop (jsonValueStart text 0) = v.text ++ rest := by
    rw [drop_jsonValueStart]
    exact rawDecode_text hraw
  have hspan := valueSpan_tree ⟨Int.le_refl 0, Int.natCast_nonneg _⟩ hvalue
    (delimited_of_blank hblank)
  have hends : rest <:+ text := by
    have hrest : rest <:+ text.drop (jsonValueStart text 0) := ⟨v.text, hvalue.symm⟩
    exact hrest.trans (List.drop_suffix _ _)
  have hdrop : text.drop (text.length - rest.length) = rest :=
    (List.suffix_iff_eq_drop.1 hends).symm
  have hshape := hspan.bind fun span : Nat × Nat =>
    require ((text.drop span.2).all isBlank) malformedJson
  rw [ok_bind, hdrop, require, if_pos hblank] at hshape
  exact hshape

/-- A listing of a good shape is refused by the decoder for its syntax only. -/
theorem loads_malformed {r : JsonRuntime} (hdepth : maximumJsonDepth ≤ r.maximumDepth)
    (hdigits : maximumJsonScalarCharacters ≤ r.maximumDigits) {text : List Char} {e : JsonError}
    (hshape : validateJsonShape text = .ok ()) (h : loads r text = .error e) : e = .malformed := by
  rcases loads_eq_error h with rfl | hraw
  · rfl
  · by_contra hne
    have hlimit : e = .recursion ∨ e = .digits := by
      cases e with
      | malformed => exact absurd rfl hne
      | recursion => exact .inl rfl
      | digits => exact .inr rfl
      | exhausted => exact absurd hraw (rawDecode_ne_exhausted r _)
    -- Then the scanner had failed before the decoder was called.
    obtain ⟨e', he'⟩ := valueEnd_of_limit hdepth hdigits hlimit hraw
    obtain ⟨⟨valueStart, valueEnd⟩, hspan, _⟩ := bind_eq_ok.1 hshape
    obtain ⟨_, hspan⟩ := require_bind_eq_ok.1 hspan
    obtain ⟨rest, hrest, _⟩ := bind_eq_ok.1 hspan
    rw [drop_jsonValueStart] at hrest
    rw [show (takeBlank text).2 = (text.drop (0 : Int).toNat).dropWhile isBlank from rfl] at he'
    rw [he'] at hrest
    cases hrest

theorem parseJsonListing_eq_ok (r : JsonRuntime) (body : Bytes) (tree : JsonTree) :
    parseJsonListing r body = .ok tree ↔
      body.length ≤ maximumListingBytes ∧ ∃ text, decodeUtf8Sig body = some text ∧
        loads r text = .ok tree ∧ WithinJsonLimits tree := by
  unfold parseJsonListing
  rw [bind_eq_ok]
  constructor
  · rintro ⟨_, hsize, h⟩
    refine ⟨require_eq_ok.1 (mapError_eq_ok.1 hsize), ?_⟩
    split at h
    · cases h
    · rename_i text htext
      obtain ⟨_, hshape, h⟩ := bind_eq_ok.1 h
      split at h
      · rename_i tree' hloads
        cases h
        refine ⟨text, htext, hloads, ?_⟩
        by_contra hlimits
        obtain ⟨e, he⟩ := (validateJsonShape_of_loads hloads).stop hlimits
        rw [mapError_eq_ok, he] at hshape
        cases hshape
      · cases h
      · cases h
  · rintro ⟨hsize, text, htext, hloads, hlimits⟩
    refine ⟨⟨⟩, mapError_eq_ok.2 (require_eq_ok.2 hsize), ?_⟩
    rw [htext]
    simp only
    rw [(validateJsonShape_of_loads hloads).pass hlimits, hloads]
    rfl

theorem parseJsonListing_raises {r : JsonRuntime} (hdepth : maximumJsonDepth ≤ r.maximumDepth)
    (hdigits : maximumJsonScalarCharacters ≤ r.maximumDigits) {body : Bytes} {e : JsonRaised}
    (h : parseJsonListing r body = .error e) :
    ∃ message, e = .makolet (sourceResponse message) := by
  unfold parseJsonListing at h
  rcases bind_eq_error.1 h with h | ⟨_, _, h⟩
  · obtain ⟨e', he', rfl⟩ := mapError_eq_error h
    obtain ⟨message, rfl⟩ : IsSourceResponse e' := RaisesOnly.require (.inr ⟨_, rfl⟩) e' he'
    exact ⟨message, rfl⟩
  · split at h
    · cases h
      exact ⟨_, rfl⟩
    · rename_i text _
      rcases bind_eq_error.1 h with h | ⟨_, hshape, h⟩
      · obtain ⟨e', he', rfl⟩ := mapError_eq_error h
        obtain ⟨message, rfl⟩ := validateJsonShape_raises text e' he'
        exact ⟨message, rfl⟩
      · split at h
        · cases h
        · cases h
          exact ⟨_, rfl⟩
        · rename_i e' hne hloads
          exact absurd (loads_malformed hdepth hdigits (mapError_eq_ok.1 hshape) hloads)
            fun heq => hne heq

theorem valueSpan_decoder {r : JsonRuntime} {text : List Char} {start : Int} {tree : JsonTree}
    {valueEnd : Nat} (hstart : 0 ≤ start ∧ start ≤ text.length)
    (hdecoder : rawDecodeAt r text (jsonValueStart text start) = .ok (tree, valueEnd))
    (hrest : Delimited (text.drop valueEnd)) :
    Decides (WithinJsonLimits tree) (boundedJsonValueSpan text start)
      (.ok (jsonValueStart text start, valueEnd)) := by
  obtain ⟨rest, hraw, rfl, hdrop⟩ := rawDecodeAt_eq_ok hdecoder
  rw [hdrop] at hrest
  exact valueSpan_tree hstart (rawDecode_text hraw) hrest

theorem parseJsonListing_agrees (r : JsonRuntime) (hdepth : maximumJsonDepth ≤ r.maximumDepth)
    (hdigits : maximumJsonScalarCharacters ≤ r.maximumDigits) :
    (∀ body tree, parseJsonListing r body = .ok tree ↔
      body.length ≤ maximumListingBytes ∧ ∃ text, decodeUtf8Sig body = some text ∧
        loads r text = .ok tree ∧ WithinJsonLimits tree) ∧
    (∀ body e, parseJsonListing r body = .error e →
      ∃ message, e = .makolet (sourceResponse message)) ∧
    (∀ text start tree valueEnd, 0 ≤ start → start ≤ (text.length : Int) →
      rawDecodeAt r text (jsonValueStart text start) = .ok (tree, valueEnd) →
      Delimited (text.drop valueEnd) →
      (WithinJsonLimits tree →
        boundedJsonValueSpan text start = .ok (jsonValueStart text start, valueEnd)) ∧
      ∀ span, boundedJsonValueSpan text start = .ok span →
        span = (jsonValueStart text start, valueEnd) ∧ WithinJsonLimits tree) ∧
    ∀ text start e, boundedJsonValueSpan text start = .error e →
      ∃ message, e = sourceResponse message := by
  refine ⟨parseJsonListing_eq_ok r, fun body e h => parseJsonListing_raises hdepth hdigits h,
    fun text start tree valueEnd hstart hle hdecoder hrest => ?_, valueSpan_raises⟩
  have hspan := valueSpan_decoder ⟨hstart, hle⟩ hdecoder hrest
  refine ⟨hspan.pass, fun span h => ?_⟩
  by_cases hlimits : WithinJsonLimits tree
  · rw [hspan.pass hlimits] at h
    exact ⟨(Except.ok.inj h).symm, hlimits⟩
  · obtain ⟨e, he⟩ := hspan.stop hlimits
    rw [he] at h
    cases h

/-- The array `[1]`. -/
def sampleArray : JsonTree :=
  .container false ⟨[], fun _ h => absurd h List.not_mem_nil⟩
    (.last none (.scalar ⟨['1'], List.cons_ne_nil _ _, List.forall_mem_singleton.2 rfl⟩)
      ⟨[], fun _ h => absurd h List.not_mem_nil⟩)

theorem parseJsonListing_agrees_sample :
    parseJsonListing ⟨900, 4300⟩ (utf8 ['[', '1', ']']) = .ok sampleArray ∧
      boundedJsonValueSpan ['=', ' ', '[', '1', ']', ';'] 1 = .ok (2, 5) := by
  have hlimits : WithinJsonLimits sampleArray :=
    ⟨by decide, by decide, by decide, by decide, by decide⟩
  obtain ⟨hparse, _, hspan, _⟩ := parseJsonListing_agrees ⟨900, 4300⟩ (by decide) (by decide)
  constructor
  · exact (hparse _ _).2 ⟨by decide, _, ofUtf8_utf8 ['[', '1', ']'], rfl, hlimits⟩
  · exact (hspan ['=', ' ', '[', '1', ']', ';'] 1 sampleArray 5 (by decide) (by decide) rfl
      fun c hc => by cases hc; rfl).1 hlimits

end Makolet.Sources
