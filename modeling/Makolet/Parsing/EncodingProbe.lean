import Makolet.Lib.Decoders
import Makolet.Parsing.SecurityMarkers

/-!
# The encoding probe

`adapters/parsers/encoding.py`: a document is fed to the probe while it is spooled, the probe then
names a codec, and `RetailXmlParser._parse_spooled` decodes the spooled document with it, in other
chunks. `resolve_spool` says what the probe makes of the document as a whole, and
`declarations_stay_out` that no text with a marker gets behind both passes.
-/

set_option autoImplicit false

namespace Makolet.Parsing

open Makolet.Domain Makolet.Lib

/-! ## Codecs -/

inductive Codec
  | utf8Sig
  | cp1255
  | utf16
  | utf16Le
  | utf16Be
  deriving DecidableEq, Repr

def utf8Bom : Bytes := [0xef, 0xbb, 0xbf]

def utf16LeBom : Bytes := [0xff, 0xfe]

def utf16BeBom : Bytes := [0xfe, 0xff]

/-- `utf-8-sig` waits until it can tell whether there is a mark. -/
def chooseUtf8Sig (data : Bytes) : Choice Encoding :=
  if data.length < 3 ∧ data <+: utf8Bom then .undecided
  else if utf8Bom <+: data then .reads .utf8 3
  else .reads .utf8 0

/-- `utf-16` needs a mark. -/
def chooseUtf16 (data : Bytes) : Choice Encoding :=
  if data.length < 2 then .undecided
  else if utf16LeBom <+: data then .reads (.utf16 true) 2
  else if utf16BeBom <+: data then .reads (.utf16 false) 2
  else .refused

theorem prefix_append_iff {mark data : Bytes} (h : mark.length ≤ data.length) (more : Bytes) :
    mark <+: data ++ more ↔ mark <+: data :=
  ⟨fun hmark => List.prefix_of_prefix_length_le hmark (List.prefix_append data more) h,
    fun hmark => hmark.trans (List.prefix_append data more)⟩

theorem chooseUtf8Sig_append {data : Bytes} (more : Bytes) (h : chooseUtf8Sig data ≠ .undecided) :
    chooseUtf8Sig (data ++ more) = chooseUtf8Sig data := by
  have hdecided : ¬(data.length < 3 ∧ data <+: utf8Bom) := fun hundecided =>
    h (if_pos hundecided)
  have hlonger : ¬((data ++ more).length < 3 ∧ data ++ more <+: utf8Bom) := by
    rintro ⟨hshort, hmark⟩
    rw [List.length_append] at hshort
    exact hdecided ⟨by omega, (List.prefix_append data more).trans hmark⟩
  have hmark : utf8Bom <+: data ++ more ↔ utf8Bom <+: data := by
    refine ⟨fun hmark => ?_, fun hmark => hmark.trans (List.prefix_append data more)⟩
    rcases Nat.lt_or_ge data.length 3 with hshort | hlong
    · exact absurd ⟨hshort, List.prefix_of_prefix_length_le (List.prefix_append data more) hmark
        (Nat.le_of_lt hshort)⟩ hdecided
    · have hmark' : utf8Bom.length ≤ data.length := hlong
      exact (prefix_append_iff hmark' more).1 hmark
  rw [chooseUtf8Sig, chooseUtf8Sig, if_neg hdecided, if_neg hlonger]
  simp only [hmark]

theorem chooseUtf16_append {data : Bytes} (more : Bytes) (h : chooseUtf16 data ≠ .undecided) :
    chooseUtf16 (data ++ more) = chooseUtf16 data := by
  have hlong : ¬data.length < 2 := fun hshort => h (if_pos hshort)
  have hlonger : ¬(data ++ more).length < 2 := by
    rw [List.length_append]
    omega
  have hle : utf16LeBom <+: data ++ more ↔ utf16LeBom <+: data :=
    prefix_append_iff (Nat.le_of_not_lt hlong) more
  have hbe : utf16BeBom <+: data ++ more ↔ utf16BeBom <+: data :=
    prefix_append_iff (Nat.le_of_not_lt hlong) more
  rw [chooseUtf16, chooseUtf16, if_neg hlong, if_neg hlonger]
  simp only [hle, hbe]

def utf8SigHeader : Header Encoding where
  reader := Encoding.reader
  start := none
  choose := chooseUtf8Sig
  acceptsEnd := fun _ => true
  choose_nil := fun _ => by decide
  choose_append := chooseUtf8Sig_append
  skip_le := fun {data i n} h => by
    rw [chooseUtf8Sig] at h
    split_ifs at h with hundecided hmark
    · cases h
      exact hmark.length_le
    · cases h
      exact Nat.zero_le _

def utf16Header : Header Encoding where
  reader := Encoding.reader
  start := none
  choose := chooseUtf16
  acceptsEnd := fun buffer => decide (buffer = [])
  choose_nil := fun _ => by decide
  choose_append := chooseUtf16_append
  skip_le := fun {data i n} h => by
    rw [chooseUtf16] at h
    split_ifs at h with hshort hle hbe
    · cases h
      exact hle.length_le
    · cases h
      exact hbe.length_le

/-- A codec that does not look at the beginning. -/
def plainHeader (e : Encoding) : Header Encoding where
  reader := Encoding.reader
  start := some e
  choose := fun _ => .undecided
  acceptsEnd := fun _ => false
  choose_nil := fun _ => rfl
  choose_append := fun _ _ => rfl
  skip_le := fun h => by cases h

def Codec.header : Codec → Header Encoding
  | .utf8Sig => utf8SigHeader
  | .cp1255 => plainHeader .windows1255
  | .utf16 => utf16Header
  | .utf16Le => plainHeader (.utf16 true)
  | .utf16Be => plainHeader (.utf16 false)

/-- `incremental_decoder`. -/
def incrementalDecoder (codec : Codec) : Decoder (Headed Encoding) := codec.header.decoder

theorem header_reader (codec : Codec) : codec.header.reader = Encoding.reader := by
  cases codec <;> rfl

/-! ## Validators -/

/-- `_StrictEncodingValidator`. -/
structure StrictEncodingValidator where
  decoder : Headed Encoding
  valid : Bool
  deriving DecidableEq, Repr

namespace StrictEncodingValidator

variable (codec : Codec)

def init : StrictEncodingValidator := ⟨(incrementalDecoder codec).start, true⟩

def feed (v : StrictEncodingValidator) (chunk : Bytes) : StrictEncodingValidator :=
  if v.valid = true then
    match (incrementalDecoder codec).feed v.decoder chunk with
    | some (_, decoder) => ⟨decoder, true⟩
    | none => { v with valid := false }
  else v

def finish (v : StrictEncodingValidator) : StrictEncodingValidator :=
  if v.valid = true then
    match (incrementalDecoder codec).finish v.decoder with
    | some _ => v
    | none => { v with valid := false }
  else v

theorem foldl_feed_of_invalid {v : StrictEncodingValidator} (hv : v.valid = false)
    (chunks : List Bytes) : chunks.foldl (feed codec) v = v := by
  induction chunks with
  | nil => rfl
  | cons chunk chunks ih =>
    have hstep : v.feed codec chunk = v := if_neg (hv ▸ Bool.false_ne_true)
    rw [List.foldl_cons, hstep, ih]

/-- A validator is valid as long as its decoder reads the chunks. -/
theorem foldl_feed {v : StrictEncodingValidator} (hv : v.valid = true) (chunks : List Bytes) :
    match (incrementalDecoder codec).run v.decoder chunks with
    | some (_, decoder) => chunks.foldl (feed codec) v = ⟨decoder, true⟩
    | none => (chunks.foldl (feed codec) v).valid = false := by
  induction chunks generalizing v with
  | nil =>
    obtain ⟨decoder, valid⟩ := v
    obtain rfl := hv
    rfl
  | cons chunk chunks ih =>
    rw [List.foldl_cons, Decoder.run]
    cases hfeed : (incrementalDecoder codec).feed v.decoder chunk with
    | none =>
      have hstep : v.feed codec chunk = { v with valid := false } := by
        rw [feed, if_pos hv, hfeed]
      rw [hstep]
      show (chunks.foldl (feed codec) { v with valid := false }).valid = false
      rw [foldl_feed_of_invalid codec rfl]
    | some first =>
      have hstep : v.feed codec chunk = ⟨first.2, true⟩ := by
        rw [feed, if_pos hv, hfeed]
      have hrest := ih (v := ⟨first.2, true⟩) rfl
      rw [hstep, Option.bind_some]
      cases hrun : (incrementalDecoder codec).run first.2 chunks with
      | none =>
        rw [hrun] at hrest
        exact hrest
      | some rest =>
        rw [hrun] at hrest
        exact hrest

/-- A validator says whether its decoder decodes the chunks. -/
theorem valid_finish (chunks : List Bytes) :
    ((chunks.foldl (feed codec) (init codec)).finish codec).valid =
      ((incrementalDecoder codec).decode chunks).isSome := by
  have hfold := foldl_feed codec (v := init codec) rfl chunks
  have hstart : (init codec).decoder = (incrementalDecoder codec).start := rfl
  rw [hstart] at hfold
  rw [Decoder.decode]
  cases hrun : (incrementalDecoder codec).run (incrementalDecoder codec).start chunks with
  | none =>
    rw [hrun] at hfold
    rw [finish, if_neg (hfold ▸ Bool.false_ne_true), hfold]
    rfl
  | some read =>
    rw [hrun] at hfold
    have hfold : chunks.foldl (feed codec) (init codec) = ⟨read.2, true⟩ := hfold
    rw [hfold, finish, if_pos rfl, Option.bind_some, Option.isSome_map]
    cases (incrementalDecoder codec).finish read.2 with
    | none => rfl
    | some text => rfl

end StrictEncodingValidator

/-! ## What the beginning says -/

/-- `_PROBE_BYTES`. -/
def probeBytes : Nat := 4096

/-- `_UTF32_SIGNATURES`. -/
def utf32Signatures : List Bytes :=
  [[0, 0, 0xfe, 0xff], [0xff, 0xfe, 0, 0], [0, 0, 0, 60], [60, 0, 0, 0]]

/-- `_UTF8_NAMES`. -/
def utf8Names : List Bytes := [asciiLiteral "utf8", asciiLiteral "utf-8"]

/-- `_WINDOWS_1255_NAMES`. -/
def windows1255Names : List Bytes :=
  [asciiLiteral "cp1255", asciiLiteral "windows1255", asciiLiteral "windows-1255",
    asciiLiteral "x-cp1255"]

def lowerByte (b : UInt8) : UInt8 := if 65 ≤ b.toNat ∧ b.toNat ≤ 90 then b + 32 else b

/-- `\w` in a pattern of bytes. -/
def isWordByte (b : UInt8) : Bool :=
  (48 ≤ b && b ≤ 57) || (65 ≤ b && b ≤ 90) || b = 95 || (97 ≤ b && b ≤ 122)

/-- `[a-z0-9._:-]`, in any case. -/
def isNameByte (b : UInt8) : Bool :=
  (48 ≤ b && b ≤ 57) || (65 ≤ b && b ≤ 90) || (97 ≤ b && b ≤ 122) ||
    b ∈ [46, 95, 58, 45]

/-- The bytes in front of the first marker. -/
def bytesBefore (marker : Bytes) : Bytes → Option Bytes
  | [] => none
  | b :: rest =>
    if marker.isPrefixOf (b :: rest) then some []
    else (bytesBefore marker rest).map (b :: ·)

/-- `_XML_DECLARATION`: the attributes of the declaration. -/
def declarationAttributes (head : Bytes) : Option Bytes :=
  let text := (if utf8Bom.isPrefixOf head then head.drop 3 else head).dropWhile
    (· ∈ [32, 9, 13, 10])
  if (text.take 5).map lowerByte = asciiLiteral "<?xml" ∧
      (text.drop 5).head?.any isWordByte = false then
    bytesBefore (asciiLiteral "?>") (text.drop 5)
  else none

/-- `_ENCODING_ATTRIBUTE` at the beginning of a text: the name of the encoding. -/
def encodingAttribute (text : Bytes) : Option Bytes :=
  if (text.take 8).map lowerByte = asciiLiteral "encoding" then
    match (text.drop 8).dropWhile isSpaceByte with
    | 61 :: rest =>
      match rest.dropWhile isSpaceByte with
      | quote :: rest =>
        let name := rest.takeWhile isNameByte
        if (quote = 34 ∨ quote = 39) ∧ name ≠ [] ∧ (rest.drop name.length).head? = some quote then
          some name
        else none
      | [] => none
    | _ => none
  else none

/-- `_ENCODING_ATTRIBUTE.search`, from a place behind the byte `before`. -/
def searchEncoding (before : Option UInt8) : Bytes → Option Bytes
  | [] => none
  | b :: rest =>
    match if before.any isWordByte then none else encodingAttribute (b :: rest) with
    | some name => some name
    | none => searchEncoding (some b) rest

/-- `_declared_encoding`. -/
def declaredEncoding (head : Bytes) : Option Bytes :=
  ((declarationAttributes head).bind (searchEncoding none)).map (·.map lowerByte)

/-- White space, and then the opening of a tag, in code units of two bytes. -/
def opensTag (littleEndian : Bool) : Bytes → Bool
  | a :: b :: rest =>
    if codeUnit littleEndian a b ∈ [32, 9, 10, 13] then opensTag littleEndian rest
    else codeUnit littleEndian a b = 60
  | _ => false

/-- `_utf16_without_bom`. -/
def utf16WithoutBom (head : Bytes) : Option Codec :=
  if opensTag true (head.take 128) then some .utf16Le
  else if opensTag false (head.take 128) then some .utf16Be
  else none

/-! ## The probe -/

/-- `XmlEncodingProbe`. -/
structure XmlEncodingProbe where
  head : Bytes
  utf8 : StrictEncodingValidator
  windows1255 : StrictEncodingValidator
  finished : Bool
  deriving DecidableEq, Repr

/-- What the probe decides from the beginning of the document and the two validators. -/
def decideCodec (head : Bytes) (utf8 windows1255 : Bool) : Except Failure Codec :=
  if utf32Signatures.any (·.isPrefixOf head) then
    .error (malformedDocument "UTF-32 XML is not supported")
  else if utf16LeBom.isPrefixOf head || utf16BeBom.isPrefixOf head then .ok .utf16
  else
    match utf16WithoutBom head with
    | some codec => .ok codec
    | none =>
      if utf8Bom.isPrefixOf head then
        if utf8 then .ok .utf8Sig
        else .error (malformedDocument "UTF-8 BOM conflicts with the document bytes")
      else if (declaredEncoding head).any (· ∈ windows1255Names) && windows1255 then .ok .cp1255
      else if (declaredEncoding head).any (· ∈ utf8Names) && utf8 then .ok .utf8Sig
      else if utf8 && !windows1255 then .ok .utf8Sig
      else if windows1255 && !utf8 then .ok .cp1255
      else if utf8 && windows1255 then .ok .utf8Sig
      else .error (malformedDocument "XML bytes are neither valid UTF-8 nor Windows-1255")

namespace XmlEncodingProbe

def init : XmlEncodingProbe :=
  { head := [], utf8 := .init .utf8Sig, windows1255 := .init .cp1255, finished := false }

/-- A `RuntimeError` behind the end. -/
def feed (p : XmlEncodingProbe) (chunk : Bytes) : Except Failure XmlEncodingProbe := do
  require (p.finished = false) ⟨.other, "XML encoding probe has already finished", 0⟩
  pure { p with
    head := if p.head.length < probeBytes then p.head ++ chunk.take (probeBytes - p.head.length)
      else p.head
    utf8 := p.utf8.feed .utf8Sig chunk
    windows1255 := p.windows1255.feed .cp1255 chunk }

def finish (p : XmlEncodingProbe) : XmlEncodingProbe :=
  if p.finished = false then
    { p with
      utf8 := p.utf8.finish .utf8Sig
      windows1255 := p.windows1255.finish .cp1255
      finished := true }
  else p

/-- The probe afterwards, and the codec. -/
def resolve (p : XmlEncodingProbe) : XmlEncodingProbe × Except Failure Codec :=
  (p.finish, decideCodec p.finish.head p.finish.utf8.valid p.finish.windows1255.valid)

end XmlEncodingProbe

/-! ## The document as a whole -/

/-- Whether a codec decodes a document. -/
def decodes (codec : Codec) (document : Bytes) : Bool :=
  ((incrementalDecoder codec).decode [document]).isSome

/-- The codec of a document, which is not in chunks. -/
def documentCodec (document : Bytes) : Except Failure Codec :=
  decideCodec (document.take probeBytes) (decodes .utf8Sig document) (decodes .cp1255 document)

theorem splits (codec : Codec) : (incrementalDecoder codec).Splits codec.header.Held :=
  codec.header.splits

theorem take_take_append (n : Nat) (s t : Bytes) : (s.take n ++ t).take n = (s ++ t).take n := by
  rw [List.take_append, List.take_append, List.take_take, Nat.min_self, List.length_take]
  congr 2
  omega

theorem head_feed {head : Bytes} (h : head.length ≤ probeBytes) (chunk : Bytes) :
    (if head.length < probeBytes then head ++ chunk.take (probeBytes - head.length) else head) =
      (head ++ chunk).take probeBytes := by
  rw [List.take_append, List.take_of_length_le h]
  split
  · rfl
  · have hfull : probeBytes - head.length = 0 := by omega
    rw [hfull, List.take_zero, List.append_nil]

namespace XmlEncodingProbe

/-- The chunks of a document, none of which is refused. -/
theorem foldlM_feed {p : XmlEncodingProbe} (hp : p.finished = false)
    (hhead : p.head.length ≤ probeBytes) (chunks : List Bytes) :
    chunks.foldlM feed p = .ok
      { head := (p.head ++ chunks.flatten).take probeBytes
        utf8 := chunks.foldl (StrictEncodingValidator.feed .utf8Sig) p.utf8
        windows1255 := chunks.foldl (StrictEncodingValidator.feed .cp1255) p.windows1255
        finished := false } := by
  induction chunks generalizing p with
  | nil =>
    rw [List.flatten_nil, List.append_nil, List.take_of_length_le hhead, ← hp]
    rfl
  | cons chunk chunks ih =>
    rw [List.foldlM_cons, feed, require_bind_of hp, head_feed hhead]
    let next : XmlEncodingProbe := { p with
      head := (p.head ++ chunk).take probeBytes
      utf8 := p.utf8.feed .utf8Sig chunk
      windows1255 := p.windows1255.feed .cp1255 chunk }
    have hnext : next.head.length ≤ probeBytes := List.length_take_le _ _
    refine (ih (p := next) hp hnext).trans ?_
    have htake : ((p.head ++ chunk).take probeBytes ++ chunks.flatten).take probeBytes =
        (p.head ++ (chunk :: chunks).flatten).take probeBytes := by
      rw [List.flatten_cons, ← List.append_assoc]
      exact take_take_append _ _ _
    rw [← htake]
    rfl

/-- What the probe decides is decided by the document. -/
theorem resolve_of_foldlM {p : XmlEncodingProbe} {chunks : List Bytes}
    (h : chunks.foldlM feed init = .ok p) : p.resolve.2 = documentCodec chunks.flatten := by
  rw [foldlM_feed rfl (Nat.zero_le _)] at h
  obtain rfl := Except.ok.inj h
  have hutf8 := StrictEncodingValidator.valid_finish .utf8Sig chunks
  have hwindows := StrictEncodingValidator.valid_finish .cp1255 chunks
  rw [Decoder.decode_chunks (splits _)] at hutf8 hwindows
  rw [documentCodec, decodes, decodes, ← hutf8, ← hwindows]
  rfl

end XmlEncodingProbe

/-- The two codecs that the probe validates are named for documents that they decode only. -/
theorem decodes_of_decideCodec {head : Bytes} {utf8 windows1255 : Bool} {codec : Codec}
    (h : decideCodec head utf8 windows1255 = .ok codec) :
    (codec = .utf8Sig → utf8 = true) ∧ (codec = .cp1255 → windows1255 = true) := by
  have hunmarked : ∀ {codec}, utf16WithoutBom head = some codec →
      codec ≠ .utf8Sig ∧ codec ≠ .cp1255 := by
    intro codec hcodec
    rw [utf16WithoutBom] at hcodec
    split_ifs at hcodec
    · obtain rfl := Option.some.inj hcodec
      exact ⟨Codec.noConfusion, Codec.noConfusion⟩
    · obtain rfl := Option.some.inj hcodec
      exact ⟨Codec.noConfusion, Codec.noConfusion⟩
  rw [decideCodec] at h
  split at h
  · cases h
  split at h
  · obtain rfl := Except.ok.inj h
    exact ⟨Codec.noConfusion, Codec.noConfusion⟩
  split at h
  · rename_i codec' hcodec
    obtain rfl := Except.ok.inj h
    exact ⟨fun heq => absurd heq (hunmarked hcodec).1, fun heq => absurd heq (hunmarked hcodec).2⟩
  · split_ifs at h
    all_goals
      obtain rfl := Except.ok.inj h
      simp_all

/-- Whatever the chunks, the probe accepts them and decides as the document says; the second pass
then reads one text, whatever its chunks, and reads it without an error where the codec is one that
the probe validated. -/
theorem resolve_spool (chunks : List Bytes) :
    ∃ p, chunks.foldlM XmlEncodingProbe.feed .init = .ok p ∧
      p.resolve.2 = documentCodec chunks.flatten ∧
      ∀ codec, p.resolve.2 = .ok codec → ∃ decoded,
        (∀ reads : List Bytes, reads.flatten = chunks.flatten →
          (incrementalDecoder codec).decode reads = decoded) ∧
        (codec = .utf8Sig ∨ codec = .cp1255 → decoded.isSome = true) := by
  have hfeed := XmlEncodingProbe.foldlM_feed (p := .init) rfl (Nat.zero_le _) chunks
  refine ⟨_, hfeed, XmlEncodingProbe.resolve_of_foldlM hfeed, fun codec hcodec => ?_⟩
  rw [XmlEncodingProbe.resolve_of_foldlM hfeed] at hcodec
  obtain ⟨hutf8, hwindows⟩ := decodes_of_decideCodec hcodec
  refine ⟨(incrementalDecoder codec).decode [chunks.flatten], fun reads hreads => ?_, ?_⟩
  · rw [Decoder.decode_chunks (splits codec), hreads]
  · rintro (rfl | rfl)
    · exact hutf8 rfl
    · exact hwindows rfl

/-- A declared Windows-1255 document, which is no UTF-8. -/
def hebrewDocument : List Bytes :=
  [asciiLiteral "<?xml encoding=" ++ [39], asciiLiteral "Windows-1255" ++ [39, 63],
    [62, 60, 97, 62, 0xe0, 60], [47, 97, 62]]

theorem resolve_spool_sample : ∃ p,
    hebrewDocument.foldlM XmlEncodingProbe.feed .init = .ok p ∧ p.resolve.2 = .ok .cp1255 ∧
      ((incrementalDecoder .cp1255).decode hebrewDocument).isSome = true := by
  obtain ⟨p, hfeed, hresolve, hdecodes⟩ := resolve_spool hebrewDocument
  have hcodec : p.resolve.2 = .ok .cp1255 := hresolve.trans (by decide +kernel)
  obtain ⟨decoded, hreads, hsome⟩ := hdecodes .cp1255 hcodec
  exact ⟨p, hfeed, hcodec, by rw [hreads _ rfl]; exact hsome (.inr rfl)⟩

/-! ## Both passes -/

section Passes

variable {ε : Type}

/-- The first pass of `RetailXmlParser._parse`: the probe and the spool. -/
def spooledParse (replay : XmlEncodingProbe × Bytes → List ε × Option Failure) :
    SpooledParse (XmlEncodingProbe × Bytes) ε where
  start := (.init, [])
  absorb := fun s chunk => do
    let probe ← s.1.feed chunk
    pure (probe, s.2 ++ chunk)
  replay := replay

variable {replay : XmlEncodingProbe × Bytes → List ε × Option Failure}

theorem spooled_of_spoolChunk {s s' : SpoolState (XmlEncodingProbe × Bytes)} {chunk : Bytes}
    (h : spoolChunk (spooledParse replay) s chunk = .ok s') :
    s'.spooled.2 = s.spooled.2 ++ chunk := by
  obtain ⟨tail, -, habsorb⟩ := bind_eq_ok.1 h
  obtain ⟨start, -, hrest⟩ := bind_eq_ok.1 habsorb
  obtain ⟨spooled, hspooled, hnext⟩ := bind_eq_ok.1 hrest
  obtain ⟨probe, -, hpair⟩ := bind_eq_ok.1 hspooled
  obtain rfl := pure_eq_ok.1 hnext
  obtain rfl := pure_eq_ok.1 hpair
  rfl

/-- The spool holds the document. -/
theorem spooled_of_spoolChunks {s s' : SpoolState (XmlEncodingProbe × Bytes)}
    {chunks : List Bytes} (h : spoolChunks (spooledParse replay) s chunks = .ok s') :
    s'.spooled.2 = s.spooled.2 ++ chunks.flatten := by
  induction chunks generalizing s with
  | nil =>
    obtain rfl := Except.ok.inj h
    exact (List.append_nil _).symm
  | cons chunk chunks ih =>
    rw [spoolChunks, List.foldlM_cons] at h
    obtain ⟨next, hnext, hrest⟩ := bind_eq_ok.1 h
    rw [ih hrest, spooled_of_spoolChunk hnext, List.flatten_cons, List.append_assoc]

/-- What the second pass has decoded, in whatever chunks and however far, holds no marker. -/
theorem declarations_stay_out (replay : XmlEncodingProbe × Bytes → List ε × Option Failure)
    {chunks : List Bytes} {s : SpoolState (XmlEncodingProbe × Bytes)}
    (hspool : spoolChunks (spooledParse replay) (spooledParse replay).begin chunks = .ok s)
    (codec : Codec) {reads : List Bytes} {more : Bytes}
    (hreads : reads.flatten ++ more = s.spooled.2) {text : List Char} {decoder : Headed Encoding}
    (hrun : (incrementalDecoder codec).run (incrementalDecoder codec).start reads =
      some (text, decoder)) : ¬HoldsMarker text := by
  intro hmarker
  rw [Decoder.run_eq_feed (splits codec) (splits codec).start] at hrun
  obtain ⟨e, first, seen, last, hdocument, hseen⟩ := codec.header.exists_decode_of_feed
    (fun e => ⟨e, by rw [header_reader]; exact e.reads_reader⟩) hrun
  obtain ⟨marker, hmem, before, run, after, rfl, hpos, hlength, hupper⟩ :=
    exists_run_of_holdsMarker hseen hmarker
  have hflatten : chunks.flatten = (first ++ before) ++ (run ++ (after ++ (last ++ more))) := by
    have hspooled : s.spooled.2 = chunks.flatten := spooled_of_spoolChunks hspool
    rw [← hspooled, ← hreads, hdocument]
    simp only [List.append_assoc]
  have hbegin : spoolChunks (spooledParse replay) (spooledParse replay).begin [] =
      .ok (spooledParse replay).begin := rfl
  obtain ⟨failure, hraised, -⟩ := spoolChunks_error hmem hupper hlength (List.nil_append _).symm
    hbegin rfl hflatten (by rw [List.flatten_nil, List.length_nil]; omega)
  rw [hspool] at hraised
  cases hraised

end Passes

def emptyElement : Bytes := [60, 97, 47, 62]

/-- The state behind the first pass over `emptyElement`. -/
def emptyElementSpool : SpoolState (XmlEncodingProbe × Bytes) where
  tail := emptyElement
  start := emptyElement
  spooled :=
    ({ head := emptyElement
       utf8 := ⟨⟨some .utf8, []⟩, true⟩
       windows1255 := ⟨⟨some .windows1255, []⟩, true⟩
       finished := false }, emptyElement)

/-- A second pass that yields nothing. -/
def noReplay : XmlEncodingProbe × Bytes → List Unit × Option Failure := fun _ => ([], none)

theorem declarations_stay_out_sample :
    spoolChunks (spooledParse noReplay) (spooledParse noReplay).begin [[60, 97], [47, 62]] =
      .ok emptyElementSpool ∧ ¬HoldsMarker ['<', 'a', '/'] := by
  have hspool : spoolChunks (spooledParse noReplay) (spooledParse noReplay).begin
      [[60, 97], [47, 62]] = .ok emptyElementSpool := by rfl
  have hreads : ([[60, 97, 47]] : List Bytes).flatten ++ [62] = emptyElementSpool.spooled.2 := rfl
  have hrun : (incrementalDecoder .utf8Sig).run (incrementalDecoder .utf8Sig).start
      [[60, 97, 47]] = some (['<', 'a', '/'], ⟨some .utf8, []⟩) := by rfl
  exact ⟨hspool, declarations_stay_out noReplay hspool .utf8Sig hreads hrun⟩

end Makolet.Parsing
