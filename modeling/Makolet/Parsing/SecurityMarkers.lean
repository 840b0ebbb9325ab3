import Mathlib.Data.List.Infix
import Makolet.Lib.Encodings
import Makolet.Lib.Outcome
import Makolet.Parsing.TokenGuard

/-!
# Security markers

The loop of `RetailXmlParser._parse` of `adapters/parsers/xml.py` that spools the document before
its encoding is known. Each chunk is searched for declarations together with the end of what came
before, without NUL bytes and in upper case. `parse_raises` says that this finds a marker in every
encoding, wherever the chunks end.
-/

set_option autoImplicit false

namespace Makolet.Parsing

open Makolet.Domain Makolet.Lib

/-! ## The checks of a chunk -/

/-- A byte of `bytes.upper()`. -/
def upperByte (b : UInt8) : UInt8 := if 97 ≤ b.toNat ∧ b.toNat ≤ 122 then b - 32 else b

/-- The ASCII bytes of a literal. -/
def asciiLiteral (s : String) : Bytes := s.toList.map fun c => UInt8.ofNat c.toNat

/-- `_SECURITY_MARKERS`. -/
def securityMarkers : List Bytes := [asciiLiteral "<!DOCTYPE", asciiLiteral "<!ENTITY"]

/-- `_HTML_PREFIXES`. -/
def htmlPrefixes : List Bytes := [asciiLiteral "<HTML", asciiLiteral "<!DOCTYPEHTML"]

/-- `marker in text`. -/
def containsBytes (marker text : Bytes) : Bool := text.tails.any marker.isPrefixOf

/-- `text.replace(b"\x00", b"")`. -/
def withoutNul (text : Bytes) : Bytes := text.filter (· ≠ 0)

def markerError : Failure := malformedDocument "DOCTYPE and entity declarations are not allowed"

/-- The last bytes of a text, as many as are kept. -/
def securityTail (text : Bytes) : Bytes := text.drop (text.length - 32)

/-- `_check_security_markers`. -/
def checkSecurityMarkers (tail chunk : Bytes) : Except Failure Bytes := do
  let probe := (withoutNul (tail ++ chunk)).map upperByte
  require (securityMarkers.any (containsBytes · probe) = false) markerError
  pure (securityTail (tail ++ chunk))

/-- `\s` in a pattern of bytes. -/
def isSpaceByte (b : UInt8) : Bool := b = 32 || (9 ≤ b && b ≤ 13)

/-- The text behind the XML declaration of a document, where there is one and it ends. -/
def behindDeclaration (text : Bytes) : Option Bytes :=
  if (asciiLiteral "<?XML").isPrefixOf text then
    match text.tails.find? (asciiLiteral "?>").isPrefixOf with
    | none => none
    | some rest => some ((rest.drop 2).dropWhile isSpaceByte)
  else some text

/-- `_reject_html_prefix`. -/
def rejectHtmlPrefix (start : Bytes) : Except Failure Unit :=
  let normalized := ((withoutNul start).dropWhile
    (· ∈ [0xef, 0xbb, 0xbf, 0xff, 0xfe, 32, 9, 13, 10])).map upperByte
  match behindDeclaration normalized with
  | none => pure ()
  | some normalized =>
    let compact := (normalized.take 128).filter fun b => !isSpaceByte b
    require (htmlPrefixes.any (·.isPrefixOf compact) = false)
      (malformedDocument "Source returned HTML instead of a data document")

/-! ## The parser -/

/-- What `_parse` does besides: the probe and the spool as one state, with what they raise for a
chunk, and the events of the spooled document with what is raised behind them. -/
structure SpooledParse (σ : Type) (ε : Type) where
  start : σ
  absorb : σ → Bytes → Except Failure σ
  replay : σ → List ε × Option Failure

section Parse

variable {σ ε : Type} (p : SpooledParse σ ε)

/-- The variables of the loop. -/
structure SpoolState (σ : Type) where
  tail : Bytes
  start : Bytes
  spooled : σ

/-- The start of the document, which is searched for HTML while it grows. -/
def extendStart (start chunk : Bytes) : Except Failure Bytes :=
  if start.length < 1024 then do
    let start := start ++ chunk.take (1024 - start.length)
    rejectHtmlPrefix start
    pure start
  else pure start

/-- What a chunk has to pass behind the search for markers. -/
def absorbChunk (s : SpoolState σ) (tail chunk : Bytes) : Except Failure (SpoolState σ) := do
  let start ← extendStart s.start chunk
  let spooled ← p.absorb s.spooled chunk
  pure { tail := tail, start := start, spooled := spooled }

/-- One turn of the loop. -/
def spoolChunk (s : SpoolState σ) (chunk : Bytes) : Except Failure (SpoolState σ) := do
  let tail ← checkSecurityMarkers s.tail chunk
  absorbChunk p s tail chunk

/-- The loop over the decompressed chunks. -/
def spoolChunks (s : SpoolState σ) (chunks : List Bytes) : Except Failure (SpoolState σ) :=
  chunks.foldlM (spoolChunk p) s

def SpooledParse.begin : SpoolState σ := { tail := [], start := [], spooled := p.start }

/-- `_parse`: the events that it yields and what it raises. -/
def parseDocument (chunks : List Bytes) : List ε × Option Failure :=
  match spoolChunks p p.begin chunks with
  | .error e => ([], some e)
  | .ok s => p.replay s.spooled

end Parse

/-! ## What a probe finds -/

/-- The literals of the markers. -/
def markerLiterals : List String := ["<!DOCTYPE", "<!ENTITY"]

/-- A text holds a marker, in any case of its letters. -/
def HoldsMarker (text : List Char) : Prop :=
  ∃ marker ∈ markerLiterals, ∃ before run after, text = before ++ (run ++ after) ∧
    run.map Char.toUpper = marker.toList

theorem containsBytes_of_append (before marker after : Bytes) :
    containsBytes marker (before ++ (marker ++ after)) = true := by
  refine List.any_eq_true.2 ⟨marker ++ after, ?_, List.isPrefixOf_iff_prefix.2 ⟨after, rfl⟩⟩
  exact (List.mem_tails _ _).2 ⟨before, rfl⟩

theorem withoutNul_append (s t : Bytes) : withoutNul (s ++ t) = withoutNul s ++ withoutNul t :=
  List.filter_append ..

/-- A character that is a character of a marker in upper case is ASCII. -/
theorem ascii_of_toUpper {c : Char} (h : c.toUpper.toNat < 128) : c.toNat < 128 := by
  by_cases hlower : 'a'.val ≤ c.val ∧ c.val ≤ 'z'.val
  · have hz : c.toNat ≤ 122 := hlower.2
    omega
  · have hsame : c.toUpper = c := dif_neg hlower
    rwa [hsame] at h

/-- The bytes of such a character without NUL bytes and in upper case. -/
theorem upper_asciiBytes (e : Encoding) {c : Char} (h : c.toUpper.toNat < 128)
    (hne : c.toUpper.toNat ≠ 0) :
    (withoutNul (e.asciiBytes c)).map upperByte = [UInt8.ofNat c.toUpper.toNat] := by
  have hupper : ∀ n < 128, (Char.ofNat n).toUpper.toNat ≠ 0 → UInt8.ofNat n ≠ 0 ∧
      upperByte (UInt8.ofNat n) = UInt8.ofNat (Char.ofNat n).toUpper.toNat := by decide
  have hc := hupper c.toNat (ascii_of_toUpper h)
  rw [Char.ofNat_toNat] at hc
  obtain ⟨hnul, hbyte⟩ := hc hne
  have hkept : withoutNul (e.asciiBytes c) = [UInt8.ofNat c.toNat] := by
    match e with
    | .utf8 => exact List.filter_cons_of_pos (decide_eq_true hnul)
    | .windows1255 => exact List.filter_cons_of_pos (decide_eq_true hnul)
    | .utf16 true => exact List.filter_cons_of_pos (decide_eq_true hnul)
    | .utf16 false =>
      have hskip : withoutNul [0, UInt8.ofNat c.toNat] = withoutNul [UInt8.ofNat c.toNat] := rfl
      exact hskip.trans (List.filter_cons_of_pos (decide_eq_true hnul))
  rw [hkept, List.map_singleton, hbyte]

/-- The bytes of a marker in a document, without NUL bytes and in upper case. -/
theorem upper_flatMap_asciiBytes (e : Encoding) {run marker : List Char}
    (h : run.map Char.toUpper = marker) (hmarker : ∀ c ∈ marker, c.toNat < 128 ∧ c.toNat ≠ 0) :
    (withoutNul (run.flatMap e.asciiBytes)).map upperByte =
      marker.map fun c => UInt8.ofNat c.toNat := by
  subst h
  induction run with
  | nil => rfl
  | cons c run ih =>
    rw [List.map_cons, List.forall_mem_cons] at hmarker
    rw [List.flatMap_cons, withoutNul_append, List.map_append, ih hmarker.2,
      upper_asciiBytes e hmarker.1.1 hmarker.1.2]
    rfl

theorem markerLiterals_ascii {marker : String} (h : marker ∈ markerLiterals) :
    (∀ c ∈ marker.toList, c.toNat < 128 ∧ c.toNat ≠ 0) ∧ marker.toList.length ≤ 16 ∧
      marker.toList ≠ [] ∧ asciiLiteral marker ∈ securityMarkers := by
  have hall : markerLiterals.all fun marker =>
      marker.toList.all (fun c => decide (c.toNat < 128 ∧ c.toNat ≠ 0)) &&
        decide (marker.toList.length ≤ 16 ∧ marker.toList ≠ [] ∧
          asciiLiteral marker ∈ securityMarkers) := by decide
  have hmarker := List.all_eq_true.1 hall marker h
  rw [Bool.and_eq_true, List.all_eq_true] at hmarker
  exact ⟨fun c hc => of_decide_eq_true (hmarker.1 c hc), of_decide_eq_true hmarker.2⟩

theorem length_asciiBytes (e : Encoding) (c : Char) :
    1 ≤ (e.asciiBytes c).length ∧ (e.asciiBytes c).length ≤ 2 := by
  match e with
  | .utf8 => exact ⟨Nat.le_refl 1, Nat.le_succ 1⟩
  | .windows1255 => exact ⟨Nat.le_refl 1, Nat.le_succ 1⟩
  | .utf16 true => exact ⟨Nat.le_succ 1, Nat.le_refl 2⟩
  | .utf16 false => exact ⟨Nat.le_succ 1, Nat.le_refl 2⟩

theorem length_flatMap_asciiBytes (e : Encoding) (run : List Char) :
    run.length ≤ (run.flatMap e.asciiBytes).length ∧
      (run.flatMap e.asciiBytes).length ≤ 2 * run.length := by
  induction run with
  | nil => exact ⟨Nat.le_refl 0, Nat.le_refl 0⟩
  | cons c run ih =>
    have hone := length_asciiBytes e c
    rw [List.flatMap_cons, List.length_append, List.length_cons]
    omega

/-- What a document holds where its text holds a marker: so many bytes that are a marker for the
check. -/
theorem exists_run_of_holdsMarker {e : Encoding} {document : Bytes} {text : List Char}
    (h : e.decode document = some text) (hmarker : HoldsMarker text) :
    ∃ marker ∈ securityMarkers, ∃ before run after, document = before ++ (run ++ after) ∧
      0 < run.length ∧ run.length ≤ 32 ∧ (withoutNul run).map upperByte = marker := by
  obtain ⟨marker, hmem, before, run, after, rfl, hrun⟩ := hmarker
  obtain ⟨hascii, hlength, hne, hsecurity⟩ := markerLiterals_ascii hmem
  have hrunAscii : ∀ c ∈ run, c.toNat < 128 := fun c hc =>
    ascii_of_toUpper (hascii _ (hrun ▸ List.mem_map_of_mem hc)).1
  obtain ⟨first, rest, rfl⟩ := exists_ascii_of_decode hrunAscii h
  have hcount := congrArg List.length hrun
  have hpos := List.length_pos_iff.2 hne
  have hbytes := length_flatMap_asciiBytes e run
  rw [List.length_map] at hcount
  exact ⟨_, hsecurity, first, _, rest, rfl, by omega, by omega,
    upper_flatMap_asciiBytes e hrun hascii⟩

/-! ## Where the marker is found -/

/-- The check of a text finds a marker in its last bytes and the chunk. -/
theorem checkSecurityMarkers_error {marker before run after t chunk : Bytes}
    (hmem : marker ∈ securityMarkers) (hrun : (withoutNul run).map upperByte = marker)
    (hlength : run.length ≤ 32) (hsplit : t ++ chunk = before ++ (run ++ after))
    (ht : t.length ≤ before.length + run.length) :
    checkSecurityMarkers (securityTail t) chunk = .error markerError := by
  obtain ⟨first, hprobe⟩ : ∃ first, securityTail t ++ chunk = first ++ (run ++ after) := by
    refine ⟨before.drop (t.length - 32), ?_⟩
    rw [securityTail, ← List.drop_append_of_le_length (Nat.sub_le _ _), hsplit,
      List.drop_append_of_le_length (by omega)]
  have hfound : containsBytes marker ((withoutNul (securityTail t ++ chunk)).map upperByte) =
      true := by
    rw [hprobe, withoutNul_append, withoutNul_append, List.map_append, List.map_append, hrun]
    exact containsBytes_of_append _ _ _
  have hany : ¬securityMarkers.any
      (containsBytes · ((withoutNul (securityTail t ++ chunk)).map upperByte)) = false := by
    rw [List.any_eq_true.2 ⟨marker, hmem, hfound⟩]
    decide
  rw [checkSecurityMarkers]
  exact require_bind_of_not hany _

theorem checkSecurityMarkers_eq_error {tail chunk : Bytes} {failure : Failure}
    (h : checkSecurityMarkers tail chunk = .error failure) : failure = markerError := by
  rcases bind_eq_error.1 h with h | ⟨_, -, h⟩
  · rw [require] at h
    split at h
    · cases h
    · exact (Except.error.inj h).symm
  · cases h

/-- The tail is that of all bytes so far. -/
theorem securityTail_append (t chunk : Bytes) :
    securityTail (securityTail t ++ chunk) = securityTail (t ++ chunk) := by
  have hdrop : securityTail t ++ chunk = (t ++ chunk).drop (t.length - 32) := by
    rw [securityTail, List.drop_append_of_le_length (Nat.sub_le _ _)]
  rw [hdrop, securityTail, List.drop_drop, securityTail, List.length_drop]
  congr 1
  rw [List.length_append]
  omega

/-! ## Documents -/

section Raises

variable {σ ε : Type} {p : SpooledParse σ ε}

/-- A chunk was rejected for something else before all of the document was there, and no marker was
found until then. -/
def RejectedEarlier (p : SpooledParse σ ε) (chunks : List Bytes) (failure : Failure) : Prop :=
  ∃ before chunk after s tail, chunks = before ++ chunk :: after ∧ after.flatten ≠ [] ∧
    spoolChunks p p.begin before = .ok s ∧ checkSecurityMarkers s.tail chunk = .ok tail ∧
    absorbChunk p s tail chunk = .error failure

theorem tail_of_absorbChunk {s s' : SpoolState σ} {tail chunk : Bytes}
    (h : absorbChunk p s tail chunk = .ok s') : s'.tail = tail := by
  rw [absorbChunk] at h
  obtain ⟨_, -, h⟩ := bind_eq_ok.1 h
  obtain ⟨spooled, -, h⟩ := bind_eq_ok.1 h
  obtain rfl := pure_eq_ok.1 h
  rfl

/-- From the bytes that were read so far, without all of the marker, the loop does not come to its
end. -/
theorem spoolChunks_error {marker before run after : Bytes} {chunks : List Bytes}
    (hmem : marker ∈ securityMarkers) (hrun : (withoutNul run).map upperByte = marker)
    (hlength : run.length ≤ 32) {done rest : List Bytes} {s : SpoolState σ}
    (hchunks : chunks = done ++ rest) (hdone : spoolChunks p p.begin done = .ok s)
    (htail : s.tail = securityTail done.flatten)
    (hdocument : chunks.flatten = before ++ (run ++ after))
    (hread : done.flatten.length < before.length + run.length) :
    ∃ failure, spoolChunks p s rest = .error failure ∧
      (failure = markerError ∨ RejectedEarlier p chunks failure) := by
  induction rest generalizing done s with
  | nil =>
    rw [hchunks, List.append_nil] at hdocument
    rw [hdocument] at hread
    simp only [List.length_append] at hread
    omega
  | cons chunk rest ih =>
    have hcons : spoolChunks p s (chunk :: rest) =
        spoolChunk p s chunk >>= fun s => spoolChunks p s rest := rfl
    rw [hcons, spoolChunk, htail]
    have hsplit : (done.flatten ++ chunk) ++ rest.flatten = before ++ (run ++ after) := by
      rw [← hdocument, hchunks, List.flatten_append, List.flatten_cons, List.append_assoc]
    by_cases hend : before.length + run.length ≤ (done.flatten ++ chunk).length
    · -- The marker ends in this chunk.
      have hwhole : (before ++ run).IsPrefix (done.flatten ++ chunk) :=
        List.prefix_of_prefix_length_le ⟨after, by rw [List.append_assoc]⟩
          ⟨rest.flatten, hsplit⟩ (by rw [List.length_append]; exact hend)
      obtain ⟨after', hafter⟩ := hwhole
      rw [checkSecurityMarkers_error hmem hrun hlength
        (by rw [← hafter, List.append_assoc]) (Nat.le_of_lt hread)]
      exact ⟨markerError, rfl, .inl rfl⟩
    · have hmore : rest.flatten ≠ [] := by
        intro hnil
        rw [hnil, List.append_nil] at hsplit
        rw [hsplit] at hend
        simp only [List.length_append] at hend
        omega
      cases hcheck : checkSecurityMarkers (securityTail done.flatten) chunk with
      | error failure =>
        rw [checkSecurityMarkers_eq_error hcheck]
        exact ⟨markerError, rfl, .inl rfl⟩
      | ok tail =>
        cases habsorb : absorbChunk p s tail chunk with
        | error failure =>
          refine ⟨failure, by rw [ok_bind, habsorb]; rfl, .inr ?_⟩
          exact ⟨done, chunk, rest, s, tail, hchunks, hmore, hdone, htail ▸ hcheck, habsorb⟩
        | ok next =>
          have hnext : next.tail = securityTail (done ++ [chunk]).flatten := by
            obtain ⟨-, htail'⟩ := require_bind_eq_ok.1 hcheck
            rw [tail_of_absorbChunk habsorb, ← pure_eq_ok.1 htail', securityTail_append,
              List.flatten_append, List.flatten_singleton]
          have hdone' : spoolChunks p p.begin (done ++ [chunk]) = .ok next := by
            rw [spoolChunks, List.foldlM_append]
            refine bind_eq_ok.2 ⟨s, hdone, ?_⟩
            rw [List.foldlM_cons, spoolChunk, htail, hcheck, ok_bind, habsorb]
            rfl
          rw [ok_bind, habsorb]
          refine ih (by rw [hchunks, List.append_assoc]; rfl) hdone' hnext ?_
          rw [List.flatten_append, List.flatten_singleton]
          omega

/-- A document whose text holds a marker is rejected before it yields any event, in every encoding
and wherever its chunks end: for the marker, unless an earlier chunk was rejected for something
else. -/
theorem parse_raises (p : SpooledParse σ ε) (e : Encoding) (document : Bytes) (text : List Char)
    (htext : e.decode document = some text) (hmarker : HoldsMarker text) (chunks : List Bytes)
    (hchunks : chunks.flatten = document) :
    (parseDocument p chunks).1 = [] ∧ ∃ failure, (parseDocument p chunks).2 = some failure ∧
      (failure = markerError ∨ RejectedEarlier p chunks failure) := by
  obtain ⟨marker, hmem, before, run, after, rfl, hpos, hlength, hrun⟩ :=
    exists_run_of_holdsMarker htext hmarker
  have hnone : chunks = [] ++ chunks := rfl
  have hbegin : spoolChunks p p.begin [] = .ok p.begin := rfl
  obtain ⟨failure, hraised, hkind⟩ := spoolChunks_error hmem hrun hlength hnone hbegin rfl hchunks
    (by rw [List.flatten_nil, List.length_nil]; omega)
  rw [parseDocument, hraised]
  exact ⟨rfl, failure, rfl, hkind⟩

end Raises

/-- A parser that accepts every chunk and yields one event. -/
def sampleParse : SpooledParse Bytes Unit where
  start := []
  absorb spooled chunk := .ok (spooled ++ chunk)
  replay _ := ([()], none)

/-- `<!doctype` in UTF-16, one byte a chunk. -/
def sampleDocument : Bytes := "<!doctype".toList.flatMap (Encoding.utf16 true).asciiBytes

theorem parse_raises_sample :
    (parseDocument sampleParse (sampleDocument.map fun b => [b])).1 = [] ∧
      ∃ failure, (parseDocument sampleParse (sampleDocument.map fun b => [b])).2 = some failure ∧
        (failure = markerError ∨
          RejectedEarlier sampleParse (sampleDocument.map fun b => [b]) failure) :=
  parse_raises sampleParse (.utf16 true) sampleDocument "<!doctype".toList (by decide +kernel)
    ⟨"<!DOCTYPE", List.mem_cons_self, [], "<!doctype".toList, [], rfl, by decide +kernel⟩ _
    (by decide +kernel)

end Makolet.Parsing
