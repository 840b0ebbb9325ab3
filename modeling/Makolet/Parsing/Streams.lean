import Makolet.Lib.Incremental
import Makolet.Lib.Outcome

/-!
# Bounded decompression

`_gzip` and `_zstandard` of `adapters/parsers/streams.py` over the incremental decoders of the
standard library: chunks come in, bounded outputs are yielded, and the counters of both sides are
compared with the limits before every yield.
-/

set_option autoImplicit false

namespace Makolet.Parsing

open Makolet.Lib

/-! ## The code -/

/-- `CompressionLimits`, the fields that the stream decoders read. -/
structure CompressionLimits where
  maximumCompressedBytes : Nat
  maximumDecompressedBytes : Nat
  maximumExpansionRatio : Nat
  maximumChunkBytes : Nat
  positive : 0 < maximumCompressedBytes ∧ 0 < maximumDecompressedBytes ∧
    0 < maximumExpansionRatio ∧ 0 < maximumChunkBytes

/-- How a decoder can fail. `unfinished` is a loop that does not end. -/
inductive StreamError
  | unsafeArchive (message : String)
  | eofError
  | unfinished
  deriving DecidableEq, Repr

/-- A yielded output, with the number of compressed bytes received before it. -/
structure Yield where
  output : Bytes
  received : Nat
  deriving DecidableEq, Repr

/-- The locals of a decoder, and what it has yielded. -/
structure StreamState (δ : Type) where
  decompressor : δ
  compressed : Nat
  decompressed : Nat
  yielded : List Yield
  deriving DecidableEq, Repr

/-- A failure comes after some outputs were yielded. -/
structure StreamFailure where
  error : StreamError
  yielded : List Yield
  deriving DecidableEq, Repr

variable {δ : Type}

def StreamState.start (decompressor : δ) : StreamState δ := ⟨decompressor, 0, 0, []⟩

/-- `raise UnsafeArchiveError(message)` unless the condition holds. -/
def StreamState.ensure (s : StreamState δ) (c : Prop) [Decidable c] (message : String) :
    Except StreamFailure Unit :=
  require c ⟨.unsafeArchive message, s.yielded⟩

/-- `_check_compressed`. -/
def checkCompressed (limits : CompressionLimits) (s : StreamState δ) : Except StreamFailure Unit :=
  s.ensure (s.compressed ≤ limits.maximumCompressedBytes)
    "Archive exceeds the compressed-byte limit"

/-- `_check_decompressed`. -/
def checkDecompressed (limits : CompressionLimits) (s : StreamState δ) :
    Except StreamFailure Unit :=
  s.ensure (s.decompressed ≤ limits.maximumDecompressedBytes)
    "Document exceeds the decompressed-byte limit"

/-- `_check_ratio`. -/
def checkRatio (limits : CompressionLimits) (s : StreamState δ) : Except StreamFailure Unit := do
  s.ensure (¬(s.compressed = 0 ∧ s.decompressed ≠ 0)) "Compressed document has no input bytes"
  s.ensure (¬(s.compressed ≠ 0 ∧
      s.compressed * limits.maximumExpansionRatio < s.decompressed))
    "Document exceeds the expansion-ratio limit"

/-- Count, check and yield an output that is not empty. -/
def emit (limits : CompressionLimits) (s : StreamState δ) (output : Bytes) :
    Except StreamFailure (StreamState δ) :=
  if output = [] then .ok s
  else do
    let s := { s with decompressed := s.decompressed + output.length }
    checkDecompressed limits s
    checkRatio limits s
    pure { s with yielded := s.yielded ++ [⟨output, s.compressed⟩] }

/-- The compressed bytes of one more chunk. -/
def receive (limits : CompressionLimits) (s : StreamState δ) (chunk : Bytes) :
    Except StreamFailure (StreamState δ) := do
  let s := { s with compressed := s.compressed + chunk.length }
  checkCompressed limits s
  pure s

/-- `while pending` of `_gzip`, for at most `fuel` rounds. -/
def gzipLoop (i : Inflater δ) (limits : CompressionLimits) :
    Nat → StreamState δ → Bytes → Except StreamFailure (StreamState δ)
  | 0, s, pending =>
    if pending = [] then .ok s else .error ⟨.unfinished, s.yielded⟩
  | fuel + 1, s, pending =>
    if pending = [] then .ok s
    else
      match i.decompress s.decompressor pending limits.maximumChunkBytes with
      | .error _ => .error ⟨.unsafeArchive "Gzip payload is invalid", s.yielded⟩
      | .ok (output, d) => do
        let pending := i.unconsumedTail d
        let s ← emit limits { s with decompressor := d } output
        if i.eof d then do
          s.ensure (i.unusedData d = [] ∧ pending = [])
            "Concatenated or trailing Gzip data is not allowed"
          pure s
        else if output = [] ∧ pending = [] then pure s
        else gzipLoop i limits fuel s pending

/-- The rounds that are enough: every round but the last yields a byte of the limit. -/
def CompressionLimits.rounds (limits : CompressionLimits) : Nat :=
  limits.maximumDecompressedBytes + 2

/-- `async for chunk in chunks` of `_gzip`. -/
def gzipChunk (i : Inflater δ) (limits : CompressionLimits) (s : StreamState δ) (chunk : Bytes) :
    Except StreamFailure (StreamState δ) := do
  let s ← receive limits s chunk
  gzipLoop i limits limits.rounds s chunk

/-- The checks at the end of the chunks. -/
def finish (limits : CompressionLimits) (eof : δ → Bool) (message : String) (s : StreamState δ) :
    Except StreamFailure (List Yield) := do
  s.ensure (eof s.decompressor = true) message
  checkRatio limits s
  pure s.yielded

/-- `_gzip`. -/
def gzip (i : Inflater δ) (limits : CompressionLimits) (chunks : List Bytes) :
    Except StreamFailure (List Yield) := do
  let s ← runList (gzipChunk i limits) (.start i.start) chunks
  finish limits i.eof "Gzip payload is truncated" s

/-- `while True` of `_zstandard`, for at most `fuel` rounds. -/
def zstandardLoop (f : FrameDecompressor δ) (limits : CompressionLimits) :
    Nat → StreamState δ → Bytes → Except StreamFailure (StreamState δ)
  | 0, s, _ => .error ⟨.unfinished, s.yielded⟩
  | fuel + 1, s, pending =>
    match f.decompress s.decompressor pending limits.maximumChunkBytes with
    | .error .zstdError => .error ⟨.unsafeArchive "Zstandard payload is invalid", s.yielded⟩
    -- Not caught: `except zstd.ZstdError` is the only handler.
    | .error .eofError => .error ⟨.eofError, s.yielded⟩
    | .ok (output, d) => do
      let s ← emit limits { s with decompressor := d } output
      if f.eof d then do
        s.ensure (f.unusedData d = []) "Multiple or trailing Zstandard frames are not allowed"
        pure s
      else if f.needsInput d then pure s
      else zstandardLoop f limits fuel s []

/-- `async for chunk in chunks` of `_zstandard`. -/
def zstandardChunk (f : FrameDecompressor δ) (limits : CompressionLimits) (s : StreamState δ)
    (chunk : Bytes) : Except StreamFailure (StreamState δ) := do
  let s ← receive limits s chunk
  zstandardLoop f limits limits.rounds s chunk

/-- `_zstandard`. -/
def zstandard (f : FrameDecompressor δ) (limits : CompressionLimits) (chunks : List Bytes) :
    Except StreamFailure (List Yield) := do
  let s ← runList (zstandardChunk f limits) (.start f.start) chunks
  finish limits f.eof "Zstandard payload is truncated" s

/-! ## What is yielded -/

/-- The concatenated output. -/
def outputOf (yielded : List Yield) : Bytes := yielded.flatMap Yield.output

/-- With every output, the total stays within the limits for the chunks received so far. -/
def Bounded (limits : CompressionLimits) (chunks : List Bytes) (yielded : List Yield) : Prop :=
  ∀ before y after, yielded = before ++ y :: after →
    (outputOf (before ++ [y])).length ≤ limits.maximumDecompressedBytes ∧
      (outputOf (before ++ [y])).length ≤ limits.maximumExpansionRatio * y.received ∧
      ∃ n, y.received = (chunks.take n).flatten.length

/-- The outcome is exact: the whole payload of one frame, or `UnsafeArchiveError`. -/
def ExactPayload (format : Format) (chunks : List Bytes) : Except StreamFailure (List Yield) → Prop
  | .ok yielded => format chunks.flatten = some (outputOf yielded)
  | .error failure => ∃ message, failure.error = .unsafeArchive message

/-- What an outcome has yielded. -/
def yieldedOf : Except StreamFailure (List Yield) → List Yield
  | .ok yielded => yielded
  | .error failure => failure.yielded

@[simp] theorem outputOf_nil : outputOf [] = [] := rfl

@[simp] theorem outputOf_concat (yielded : List Yield) (y : Yield) :
    outputOf (yielded ++ [y]) = outputOf yielded ++ y.output := by
  simp [outputOf]

/-! ## The counters -/

/-- The counters measure what was received and yielded. -/
structure Accounted (limits : CompressionLimits) (done : List Bytes) (s : StreamState δ) : Prop where
  compressed : s.compressed = done.flatten.length
  decompressed : s.decompressed = (outputOf s.yielded).length
  limit : s.decompressed ≤ limits.maximumDecompressedBytes
  bounded : Bounded limits done s.yielded

/-- The decoder raised `UnsafeArchiveError` after outputs within the limits. -/
structure Refused (limits : CompressionLimits) (done : List Bytes) (e : StreamFailure) : Prop where
  error : ∃ message, e.error = .unsafeArchive message
  bounded : Bounded limits done e.yielded

variable {limits : CompressionLimits} {done : List Bytes} {s s' : StreamState δ}

theorem Bounded.append {yielded : List Yield} (h : Bounded limits done yielded)
    (more : List Bytes) : Bounded limits (done ++ more) yielded := by
  intro before y after hsplit
  obtain ⟨hlimit, hratio, n, hn⟩ := h before y after hsplit
  refine ⟨hlimit, hratio, min n done.length, ?_⟩
  rw [List.take_append_of_le_length (Nat.min_le_right n done.length), hn]
  rcases Nat.le_total n done.length with hle | hle
  · rw [Nat.min_eq_left hle]
  · rw [Nat.min_eq_right hle, List.take_of_length_le hle, List.take_length]

theorem Bounded.concat {yielded : List Yield} {y : Yield} (h : Bounded limits done yielded)
    (hlimit : (outputOf (yielded ++ [y])).length ≤ limits.maximumDecompressedBytes)
    (hratio : (outputOf (yielded ++ [y])).length ≤ limits.maximumExpansionRatio * y.received)
    (hreceived : y.received = done.flatten.length) : Bounded limits done (yielded ++ [y]) := by
  intro before z after hsplit
  rcases List.eq_nil_or_concat after with rfl | ⟨front, last, rfl⟩
  · obtain ⟨rfl, rfl⟩ := List.append_inj' hsplit rfl
      |>.imp id (fun h => (List.cons.inj h).1)
    exact ⟨hlimit, hratio, done.length, by rw [hreceived, List.take_length]⟩
  · have hfront : yielded = before ++ z :: front := by
      have hsame : yielded ++ [y] = (before ++ z :: front) ++ [last] := by
        rw [hsplit]
        simp
      exact (List.append_inj' hsame rfl).1
    exact h before z front hfront

/-- A failed check refuses the archive. -/
theorem Accounted.refused (h : Accounted limits done s) (message : String) :
    Refused limits done ⟨.unsafeArchive message, s.yielded⟩ :=
  ⟨⟨message, rfl⟩, h.bounded⟩

/-- One output, of any length. -/
theorem Accounted.emitted (h : Accounted limits done s) (output : Bytes) :
    match emit limits s output with
    | .ok s' => Accounted limits done s' ∧ s'.decompressor = s.decompressor ∧
        outputOf s'.yielded = outputOf s.yielded ++ output ∧
        s'.decompressed = s.decompressed + output.length
    | .error e => Refused limits done e := by
  unfold emit
  split_ifs with hempty
  · subst hempty
    exact ⟨h, rfl, (List.append_nil _).symm, rfl⟩
  · unfold checkDecompressed checkRatio StreamState.ensure require
    dsimp only
    by_cases hlimit : s.decompressed + output.length ≤ limits.maximumDecompressedBytes
    · rw [if_pos hlimit]
      by_cases hnone : s.compressed = 0 ∧ s.decompressed + output.length ≠ 0
      · rw [if_neg (not_not_intro hnone)]
        exact h.refused _
      · rw [if_pos hnone]
        by_cases hratio : s.compressed ≠ 0 ∧
            s.compressed * limits.maximumExpansionRatio < s.decompressed + output.length
        · rw [if_neg (not_not_intro hratio)]
          exact h.refused _
        · rw [if_pos hratio]
          have hdecompressed := h.decompressed
          have hpositive : 0 < output.length := List.length_pos_of_ne_nil hempty
          have htotal : (outputOf (s.yielded ++ [⟨output, s.compressed⟩])).length =
              s.decompressed + output.length := by
            rw [outputOf_concat, List.length_append, hdecompressed]
          have hbound : s.decompressed + output.length ≤
              limits.maximumExpansionRatio * s.compressed := by
            rw [Nat.mul_comm]
            by_contra hover
            refine hratio ⟨fun hzero => hnone ⟨hzero, by omega⟩, by omega⟩
          refine ⟨⟨h.compressed, htotal.symm, hlimit, ?_⟩, rfl, outputOf_concat _ _, rfl⟩
          exact h.bounded.concat (by rw [htotal]; exact hlimit) (by rw [htotal]; exact hbound)
            h.compressed
    · rw [if_neg hlimit]
      exact h.refused _

/-- The output of a call, which leaves the decompressor in `d`. -/
theorem Accounted.emittedWith (h : Accounted limits done s) (d : δ) (output : Bytes) :
    match emit limits { s with decompressor := d } output with
    | .ok s' => Accounted limits done s' ∧ s'.decompressor = d ∧
        outputOf s'.yielded = outputOf s.yielded ++ output ∧
        s'.decompressed = s.decompressed + output.length
    | .error e => Refused limits done e := by
  have hd : Accounted limits done { s with decompressor := d } :=
    ⟨h.compressed, h.decompressed, h.limit, h.bounded⟩
  exact hd.emitted output

/-- One chunk of compressed bytes. -/
theorem Accounted.received (h : Accounted limits done s) (chunk : Bytes) :
    match receive limits s chunk with
    | .ok s' => Accounted limits (done ++ [chunk]) s' ∧
        s' = { s with compressed := s.compressed + chunk.length } ∧
        (done ++ [chunk]).flatten.length ≤ limits.maximumCompressedBytes
    | .error e => Refused limits (done ++ [chunk]) e ∧
        limits.maximumCompressedBytes < (done ++ [chunk]).flatten.length := by
  have htotal : (done ++ [chunk]).flatten.length = s.compressed + chunk.length := by
    rw [List.flatten_append, List.length_append, List.flatten_singleton, h.compressed]
  unfold receive checkCompressed StreamState.ensure require
  dsimp only
  by_cases hlimit : s.compressed + chunk.length ≤ limits.maximumCompressedBytes
  · rw [if_pos hlimit]
    exact ⟨⟨htotal.symm, h.decompressed, h.limit, h.bounded.append _⟩, rfl, by omega⟩
  · rw [if_neg hlimit]
    exact ⟨⟨⟨_, rfl⟩, h.bounded.append _⟩, by omega⟩

theorem accounted_start (limits : CompressionLimits) (d : δ) :
    Accounted limits [] (StreamState.start d) where
  compressed := rfl
  decompressed := rfl
  limit := Nat.zero_le _
  bounded before y after h := by cases before <;> cases h

/-! ## The inflater -/

section Gzip

variable {i : Inflater δ} {format : Format} {Fed : δ → Bytes → Bytes → Prop} {given : Bytes}

/-- The decoder stands in the frame, or at its end with nothing behind it. -/
def Stands (eof : δ → Bool) (unusedData : δ → Bytes) (format : Format)
    (Fed : δ → Bytes → Bytes → Prop) (given : Bytes) (s : StreamState δ) : Prop :=
  (eof s.decompressor = false ∧ Fed s.decompressor given (outputOf s.yielded)) ∨
    (eof s.decompressor = true ∧ unusedData s.decompressor = [] ∧
      format given = some (outputOf s.yielded))

/-- The loop consumes its input, and the rounds are enough: a round that goes on has an output. -/
theorem gzipLoop_spec (contract : i.Contract format Fed) (fuel : Nat) :
    ∀ {s : StreamState δ} (pending : Bytes) {given : Bytes}, Accounted limits done s →
      i.eof s.decompressor = false → Fed s.decompressor given (outputOf s.yielded) →
      limits.maximumDecompressedBytes - s.decompressed < fuel →
      match gzipLoop i limits fuel s pending with
      | .ok s' => Accounted limits done s' ∧
          Stands i.eof i.unusedData format Fed (given ++ pending) s'
      | .error e => Refused limits done e := by
  induction fuel with
  | zero =>
    intro s pending given h heof hfed hfuel
    exact absurd hfuel (Nat.not_lt_zero _)
  | succ fuel ih =>
    intro s pending given h heof hfed hfuel
    rw [gzipLoop]
    by_cases hnil : pending = []
    · rw [if_pos hnil, hnil, List.append_nil]
      exact ⟨h, .inl ⟨heof, hfed⟩⟩
    · rw [if_neg hnil]
      cases hstep : i.decompress s.decompressor pending limits.maximumChunkBytes with
      | error e => exact h.refused _
      | ok r =>
        obtain ⟨output, d⟩ := r
        have hchunk := limits.positive.2.2.2
        have hemit := h.emittedWith d output
        dsimp only
        cases hres : emit limits { s with decompressor := d } output with
        | error e =>
          rw [hres] at hemit
          exact hemit
        | ok s' =>
          rw [hres] at hemit
          obtain ⟨haccounted, hdecompressor, houtput, hcount⟩ := hemit
          rw [ok_bind]
          cases hend : i.eof d with
          | true =>
            obtain ⟨⟨used, hused, hformat⟩, -⟩ := contract.ends hfed heof hchunk hstep hend
            rw [if_pos rfl]
            by_cases hrest : i.unusedData d = [] ∧ i.unconsumedTail d = []
            · simp only [StreamState.ensure, require, if_pos hrest]
              refine ⟨haccounted, .inr ⟨hdecompressor ▸ hend, hdecompressor ▸ hrest.1, ?_⟩⟩
              rw [hused, hrest.1, List.append_nil, houtput]
              exact hformat
            · simp only [StreamState.ensure, require, if_neg hrest]
              exact haccounted.refused _
          | false =>
            obtain ⟨⟨used, hused, hfed'⟩, hfull⟩ := contract.goesOn hfed heof hchunk hstep hend
            rw [← houtput] at hfed'
            rw [if_neg Bool.false_ne_true]
            by_cases hquiet : output = [] ∧ i.unconsumedTail d = []
            · rw [if_pos hquiet]
              refine ⟨haccounted, .inl ⟨hdecompressor ▸ hend, ?_⟩⟩
              rw [hused, hquiet.2, List.append_nil, hdecompressor]
              exact hfed'
            · rw [if_neg hquiet]
              -- The output that left input over, or came with none left, is not empty.
              have hne : output ≠ [] := by
                intro hout
                exact hquiet ⟨hout, by_contra fun htail => hfull htail hout⟩
              have hpositive := List.length_pos_of_ne_nil hne
              have hlimit := haccounted.limit
              have hrec := ih (i.unconsumedTail d) haccounted (hdecompressor ▸ hend)
                (hdecompressor ▸ hfed') (by omega)
              rw [List.append_assoc, ← hused] at hrec
              exact hrec

/-- One chunk: within the frame, or behind its end. -/
theorem gzipChunk_spec (contract : i.Contract format Fed) (h : Accounted limits done s)
    (hstands : Stands i.eof i.unusedData format Fed done.flatten s) (chunk : Bytes) :
    match gzipChunk i limits s chunk with
    | .ok s' => Accounted limits (done ++ [chunk]) s' ∧
        Stands i.eof i.unusedData format Fed (done ++ [chunk]).flatten s'
    | .error e => Refused limits (done ++ [chunk]) e := by
  have hflatten : (done ++ [chunk]).flatten = done.flatten ++ chunk := by
    rw [List.flatten_append, List.flatten_singleton]
  have hreceive := h.received chunk
  unfold gzipChunk
  cases hres : receive limits s chunk with
  | error e =>
    rw [hres] at hreceive
    exact hreceive.1
  | ok s' =>
    rw [hres] at hreceive
    obtain ⟨haccounted, rfl, -⟩ := hreceive
    rw [ok_bind, hflatten]
    rcases hstands with ⟨heof, hfed⟩ | ⟨heof, hunused, hformat⟩
    · have hlimit := h.limit
      refine gzipLoop_spec contract limits.rounds chunk haccounted heof hfed ?_
      show limits.maximumDecompressedBytes - s.decompressed < limits.maximumDecompressedBytes + 2
      omega
    · -- The frame has ended; anything but an empty chunk is trailing data.
      rw [CompressionLimits.rounds, gzipLoop]
      by_cases hnil : chunk = []
      · rw [if_pos hnil, hnil, List.append_nil]
        exact ⟨by rwa [hnil] at haccounted, .inr ⟨heof, hunused, hformat⟩⟩
      · rw [if_neg hnil]
        obtain ⟨d', hstep, heof', hunused'⟩ := contract.ended chunk limits.maximumChunkBytes heof
        have hne : ¬(i.unusedData d' = [] ∧ i.unconsumedTail d' = []) := by
          rw [hunused', hunused, List.nil_append]
          exact fun hrest => hnil hrest.1
        simp only [hstep, emit, if_true, ok_bind, heof', StreamState.ensure, require, if_neg hne]
        exact haccounted.refused _

theorem gzip_run (contract : i.Contract format Fed) (chunks : List Bytes) :
    ∀ {done : List Bytes} {s : StreamState δ}, Accounted limits done s →
      Stands i.eof i.unusedData format Fed done.flatten s →
      match runList (gzipChunk i limits) s chunks with
      | .ok s' => Accounted limits (done ++ chunks) s' ∧
          Stands i.eof i.unusedData format Fed (done ++ chunks).flatten s'
      | .error e => Refused limits (done ++ chunks) e := by
  induction chunks with
  | nil =>
    intro done s h hstands
    rw [List.append_nil]
    exact ⟨h, hstands⟩
  | cons chunk rest ih =>
    intro done s h hstands
    have hchunk := gzipChunk_spec contract h hstands chunk
    rw [runList, List.append_cons]
    cases hres : gzipChunk i limits s chunk with
    | error e =>
      rw [hres] at hchunk
      exact ⟨hchunk.error, hchunk.bounded.append rest⟩
    | ok s' =>
      rw [hres] at hchunk
      exact ih hchunk.1 hchunk.2

end Gzip

/-- The end of the chunks: the payload is whole, or the archive is refused. -/
theorem finish_spec {eof : δ → Bool} {unusedData : δ → Bytes} {format : Format}
    {Fed : δ → Bytes → Bytes → Prop} (h : Accounted limits done s)
    (hstands : Stands eof unusedData format Fed done.flatten s) (message : String) :
    Bounded limits done (yieldedOf (finish limits eof message s)) ∧
      ExactPayload format done (finish limits eof message s) := by
  unfold finish checkRatio StreamState.ensure require
  by_cases heof : eof s.decompressor = true
  · have hformat : format done.flatten = some (outputOf s.yielded) := by
      rcases hstands with ⟨hopen, -⟩ | ⟨-, -, hformat⟩
      · rw [hopen] at heof
        cases heof
      · exact hformat
    rw [if_pos heof]
    by_cases hnone : ¬(s.compressed = 0 ∧ s.decompressed ≠ 0)
    · rw [if_pos hnone]
      by_cases hratio : ¬(s.compressed ≠ 0 ∧
          s.compressed * limits.maximumExpansionRatio < s.decompressed)
      · rw [if_pos hratio]
        exact ⟨h.bounded, hformat⟩
      · rw [if_neg hratio]
        exact ⟨h.bounded, _, rfl⟩
    · rw [if_neg hnone]
      exact ⟨h.bounded, _, rfl⟩
  · rw [if_neg heof]
    exact ⟨h.bounded, _, rfl⟩

/-! ## The frame decompressor -/

section Zstandard

variable {f : FrameDecompressor δ} {format : Format} {afterEnd : FrameError}
  {Fed : δ → Bytes → Bytes → Prop}

/-- The loop takes its input once and then drains the output; the rounds are enough. -/
theorem zstandardLoop_spec (contract : f.Contract format afterEnd Fed) (fuel : Nat) :
    ∀ {s : StreamState δ} (pending : Bytes) {given : Bytes}, Accounted limits done s →
      f.eof s.decompressor = false → Fed s.decompressor given (outputOf s.yielded) →
      (limits.maximumDecompressedBytes - s.decompressed + 1 < fuel ∨
        pending = [] ∧ f.needsInput s.decompressor = false ∧
          limits.maximumDecompressedBytes - s.decompressed < fuel) →
      match zstandardLoop f limits fuel s pending with
      | .ok s' => Accounted limits done s' ∧
          Stands f.eof f.unusedData format Fed (given ++ pending) s'
      | .error e => Refused limits done e := by
  induction fuel with
  | zero =>
    intro s pending given h heof hfed hfuel
    rcases hfuel with hfuel | ⟨-, -, hfuel⟩
    · exact absurd hfuel (Nat.not_lt_zero _)
    · exact absurd hfuel (Nat.not_lt_zero _)
  | succ fuel ih =>
    intro s pending given h heof hfed hfuel
    rw [zstandardLoop]
    cases hstep : f.decompress s.decompressor pending limits.maximumChunkBytes with
    | error e =>
      rw [contract.invalid heof hstep]
      exact h.refused _
    | ok r =>
      obtain ⟨output, d⟩ := r
      have hchunk := limits.positive.2.2.2
      have hemit := h.emittedWith d output
      dsimp only
      cases hres : emit limits { s with decompressor := d } output with
      | error e =>
        rw [hres] at hemit
        exact hemit
      | ok s' =>
        rw [hres] at hemit
        obtain ⟨haccounted, hdecompressor, houtput, hcount⟩ := hemit
        rw [ok_bind]
        cases hend : f.eof d with
        -- The frame is over: bytes behind it are refused.
        | true =>
          obtain ⟨frame, hframe, hformat⟩ := contract.ends hfed heof hchunk hstep hend
          rw [if_pos rfl]
          by_cases hrest : f.unusedData d = []
          · simp only [StreamState.ensure, require, if_pos hrest]
            refine ⟨haccounted, .inr ⟨hdecompressor ▸ hend, hdecompressor ▸ hrest, ?_⟩⟩
            rw [hframe, hrest, List.append_nil, houtput]
            exact hformat
          · simp only [StreamState.ensure, require, if_neg hrest]
            exact haccounted.refused _
        | false =>
          have hfed' := contract.goesOn hfed heof hchunk hstep hend
          rw [← houtput] at hfed'
          rw [if_neg Bool.false_ne_true]
          by_cases hneeds : f.needsInput d = true
          · rw [if_pos hneeds]
            exact ⟨haccounted, .inl ⟨hdecompressor ▸ hend, hdecompressor ▸ hfed'⟩⟩
          · rw [if_neg hneeds]
            have hquiet : f.needsInput d = false := Bool.eq_false_iff.mpr hneeds
            have hlimit := haccounted.limit
            -- Every further round yields a byte at least, and there is a limit for these.
            have hrounds : limits.maximumDecompressedBytes - s'.decompressed < fuel := by
              rcases hfuel with hfuel | ⟨hnil, hready, hfuel⟩
              · omega
              · -- A drained round has an output.
                subst hnil
                have hne : output ≠ [] := by
                  rcases contract.provides hfed heof hready hchunk hstep with hne | hbad | hbad
                  · exact hne
                  · rw [hend] at hbad
                    cases hbad
                  · rw [hquiet] at hbad
                    cases hbad
                have hpositive := List.length_pos_of_ne_nil hne
                omega
            have hrec := ih [] haccounted (hdecompressor ▸ hend) (hdecompressor ▸ hfed')
              (.inr ⟨rfl, hdecompressor ▸ hquiet, hrounds⟩)
            rwa [List.append_nil] at hrec

/-- One chunk within the frame. -/
theorem zstandardChunk_spec (contract : f.Contract format afterEnd Fed)
    (h : Accounted limits done s) (heof : f.eof s.decompressor = false)
    (hfed : Fed s.decompressor done.flatten (outputOf s.yielded)) (chunk : Bytes) :
    match zstandardChunk f limits s chunk with
    | .ok s' => Accounted limits (done ++ [chunk]) s' ∧
        Stands f.eof f.unusedData format Fed (done ++ [chunk]).flatten s'
    | .error e => Refused limits (done ++ [chunk]) e := by
  have hflatten : (done ++ [chunk]).flatten = done.flatten ++ chunk := by
    rw [List.flatten_append, List.flatten_singleton]
  have hreceive := h.received chunk
  unfold zstandardChunk
  cases hres : receive limits s chunk with
  | error e =>
    rw [hres] at hreceive
    exact hreceive.1
  | ok s' =>
    rw [hres] at hreceive
    obtain ⟨haccounted, rfl, -⟩ := hreceive
    rw [ok_bind, hflatten]
    have hlimit := h.limit
    refine zstandardLoop_spec contract limits.rounds chunk haccounted heof hfed (.inl ?_)
    show limits.maximumDecompressedBytes - s.decompressed + 1 < limits.maximumDecompressedBytes + 2
    omega

/-- One chunk behind the end of the frame: the decompressor refuses the call. -/
theorem zstandardChunk_ended (contract : f.Contract format afterEnd Fed)
    (h : Accounted limits done s) (heof : f.eof s.decompressor = true) (chunk : Bytes) :
    ∃ e, zstandardChunk f limits s chunk = .error e ∧ Bounded limits (done ++ [chunk]) e.yielded ∧
      (e.error = .eofError ↔ afterEnd = .eofError ∧
        (done ++ [chunk]).flatten.length ≤ limits.maximumCompressedBytes) ∧
      (e.error ≠ .eofError → ∃ message, e.error = .unsafeArchive message) := by
  have hreceive := h.received chunk
  unfold zstandardChunk
  cases hres : receive limits s chunk with
  | error e =>
    rw [hres] at hreceive
    obtain ⟨⟨⟨message, hmessage⟩, hbounded⟩, hover⟩ := hreceive
    refine ⟨e, rfl, hbounded, ?_, fun _ => ⟨message, hmessage⟩⟩
    rw [hmessage]
    exact iff_of_false (fun hbad => by cases hbad) fun hlimit => by omega
  | ok s' =>
    rw [hres] at hreceive
    obtain ⟨haccounted, rfl, hlimit⟩ := hreceive
    rw [ok_bind, CompressionLimits.rounds, zstandardLoop]
    simp only [contract.ended chunk limits.maximumChunkBytes heof]
    cases afterEnd with
    | zstdError =>
      refine ⟨_, rfl, haccounted.bounded, ?_, fun _ => ⟨_, rfl⟩⟩
      exact iff_of_false (fun hbad => by cases hbad) fun hbad => by cases hbad.1
    | eofError =>
      refine ⟨_, rfl, haccounted.bounded, ?_, fun hbad => absurd rfl hbad⟩
      exact iff_of_true rfl ⟨rfl, hlimit⟩

/-- A chunk within the limit is received after the end of the frame. -/
def ReceivesAfterEnd (f : FrameDecompressor δ) (limits : CompressionLimits) (done : List Bytes)
    (s : StreamState δ) (chunks : List Bytes) : Prop :=
  ∃ before chunk after s', chunks = before ++ chunk :: after ∧
    runList (zstandardChunk f limits) s before = .ok s' ∧ f.eof s'.decompressor = true ∧
    (done ++ before ++ [chunk]).flatten.length ≤ limits.maximumCompressedBytes

theorem zstandard_run (contract : f.Contract format afterEnd Fed) (chunks : List Bytes) :
    ∀ {done : List Bytes} {s : StreamState δ}, Accounted limits done s →
      Stands f.eof f.unusedData format Fed done.flatten s →
      match runList (zstandardChunk f limits) s chunks with
      | .ok s' => Accounted limits (done ++ chunks) s' ∧
          Stands f.eof f.unusedData format Fed (done ++ chunks).flatten s'
      | .error e => Bounded limits (done ++ chunks) e.yielded ∧
          ((∃ message, e.error = .unsafeArchive message) ∨
            e.error = .eofError ∧ afterEnd = .eofError ∧
              ReceivesAfterEnd f limits done s chunks) := by
  induction chunks with
  | nil =>
    intro done s h hstands
    rw [List.append_nil]
    exact ⟨h, hstands⟩
  | cons chunk rest ih =>
    intro done s h hstands
    rw [runList, List.append_cons]
    -- Before the end of the frame a chunk is accounted for and the rest follows; behind it the
    -- chunk is the one that `ReceivesAfterEnd` names, unless it is over the limit.
    rcases hstands with ⟨heof, hfed⟩ | ⟨heof, -, -⟩
    · have hchunk := zstandardChunk_spec contract h heof hfed chunk
      cases hres : zstandardChunk f limits s chunk with
      | error e =>
        rw [hres] at hchunk
        exact ⟨hchunk.bounded.append rest, .inl hchunk.error⟩
      | ok s' =>
        rw [hres] at hchunk
        have hrest := ih hchunk.1 hchunk.2
        rw [ok_bind]
        cases hrun : runList (zstandardChunk f limits) s' rest with
        | ok s'' =>
          rw [hrun] at hrest
          exact hrest
        | error e =>
          rw [hrun] at hrest
          refine ⟨hrest.1, hrest.2.imp id ?_⟩
          rintro ⟨herror, hafter, before, c, after, s₁, hsplit, hbefore, heof₁, hlimit⟩
          refine ⟨herror, hafter, chunk :: before, c, after, s₁, by rw [hsplit]; rfl, ?_, heof₁, ?_⟩
          · rw [runList, hres]
            exact hbefore
          · rw [List.append_cons done chunk before]
            exact hlimit
    · obtain ⟨e, hres, hbounded, heofError, hother⟩ := zstandardChunk_ended contract h heof chunk
      rw [hres]
      refine ⟨hbounded.append rest, ?_⟩
      by_cases herror : e.error = .eofError
      · obtain ⟨hafter, hlimit⟩ := heofError.mp herror
        refine .inr ⟨herror, hafter, [], chunk, rest, s, rfl, rfl, heof, ?_⟩
        rwa [List.append_nil]
      · exact .inl (hother herror)

theorem runList_append {ε σ ι : Type} (step : σ → ι → Except ε σ) (a b : List ι) :
    ∀ s, runList step s (a ++ b) = runList step s a >>= fun s' => runList step s' b := by
  induction a with
  | nil => exact fun s => rfl
  | cons x rest ih =>
    intro s
    rw [List.cons_append, runList, runList]
    cases step s x with
    | error e => rfl
    | ok s' => exact ih s'

theorem stands_start (contract : f.Contract format afterEnd Fed) :
    Stands f.eof f.unusedData format Fed ([] : List Bytes).flatten (StreamState.start f.start) :=
  .inl ⟨contract.eof_start, contract.fed_start⟩

/-- A chunk behind the end of the frame ends the run with the error of the decompressor. -/
theorem zstandard_receivesAfterEnd (contract : f.Contract format .eofError Fed)
    {chunks : List Bytes} (h : ReceivesAfterEnd f limits [] (.start f.start) chunks) :
    ∃ yielded, zstandard f limits chunks = .error ⟨.eofError, yielded⟩ := by
  obtain ⟨before, chunk, after, s, rfl, hbefore, heof, hlimit⟩ := h
  have hrun := zstandard_run contract before (accounted_start limits f.start)
    (stands_start contract)
  rw [hbefore] at hrun
  obtain ⟨⟨error, yielded⟩, hres, -, heofError, -⟩ :=
    zstandardChunk_ended contract hrun.1 heof chunk
  have herror : error = .eofError := heofError.mpr ⟨rfl, hlimit⟩
  subst herror
  refine ⟨yielded, ?_⟩
  rw [zstandard, runList_append, hbefore, ok_bind, runList, hres]
  rfl

end Zstandard

/-- Both decoders keep their outputs within the limits and finish, and the inflater yields exactly
the payload of one frame or refuses the archive; so does the frame decompressor if and only if no
chunk is received after the end of the frame, or the library raises `ZstdError` there. -/
theorem bounded_decompression_exact (limits : CompressionLimits) (chunks : List Bytes) :
    (∀ {δ : Type} (i : Inflater δ) (format : Format) (Fed : δ → Bytes → Bytes → Prop),
      i.Contract format Fed →
        Bounded limits chunks (yieldedOf (gzip i limits chunks)) ∧
          ExactPayload format chunks (gzip i limits chunks)) ∧
      ∀ {δ : Type} (f : FrameDecompressor δ) (format : Format) (afterEnd : FrameError)
        (Fed : δ → Bytes → Bytes → Prop), f.Contract format afterEnd Fed →
          Bounded limits chunks (yieldedOf (zstandard f limits chunks)) ∧
            (∀ e, zstandard f limits chunks = .error e → e.error ≠ .unfinished) ∧
            (ExactPayload format chunks (zstandard f limits chunks) ↔
              ¬(afterEnd = .eofError ∧
                ReceivesAfterEnd f limits [] (.start f.start) chunks)) := by
  constructor
  · intro δ i format Fed contract
    have hrun := gzip_run contract chunks (accounted_start limits i.start)
      (.inl ⟨contract.eof_start, contract.fed_start⟩)
    unfold gzip
    cases hres : runList (gzipChunk i limits) (.start i.start) chunks with
    | error e =>
      rw [hres] at hrun
      exact ⟨hrun.bounded, hrun.error⟩
    | ok s =>
      rw [hres] at hrun
      exact finish_spec hrun.1 hrun.2 _
  · intro δ f format afterEnd Fed contract
    have hrun := zstandard_run contract chunks (accounted_start limits f.start)
      (stands_start contract)
    rw [List.nil_append] at hrun
    -- The run has failed, and its error says which side of the equivalence holds, or it has gone
    -- through, and then no chunk came behind the end of the frame.
    cases hres : runList (zstandardChunk f limits) (.start f.start) chunks with
    | error e =>
      rw [hres] at hrun
      have hzstandard : zstandard f limits chunks = .error e := by
        rw [zstandard, hres]
        rfl
      obtain ⟨hbounded, hcause⟩ := hrun
      rw [hzstandard]
      refine ⟨hbounded, ?_, ?_⟩
      · intro e' he
        cases he
        rcases hcause with ⟨message, herror⟩ | ⟨herror, -, -⟩
        · rw [herror]
          exact StreamError.noConfusion
        · rw [herror]
          exact StreamError.noConfusion
      · rcases hcause with ⟨message, herror⟩ | ⟨herror, hafter, hreceives⟩
        · refine iff_of_true ⟨message, herror⟩ ?_
          rintro ⟨rfl, hreceives⟩
          obtain ⟨yielded, hbad⟩ := zstandard_receivesAfterEnd contract hreceives
          rw [hzstandard] at hbad
          cases hbad
          cases herror
        · refine iff_of_false ?_ fun h => h ⟨hafter, hreceives⟩
          rintro ⟨message, hbad⟩
          rw [herror] at hbad
          cases hbad
    | ok s =>
      rw [hres] at hrun
      have hzstandard : zstandard f limits chunks =
          finish limits f.eof "Zstandard payload is truncated" s := by
        rw [zstandard, hres]
        rfl
      obtain ⟨hbounded, hexact⟩ :=
        finish_spec hrun.1 hrun.2 "Zstandard payload is truncated"
      rw [hzstandard]
      refine ⟨hbounded, ?_, iff_of_true hexact ?_⟩
      · intro e he
        rw [he] at hexact
        obtain ⟨message, herror⟩ := hexact
        rw [herror]
        exact StreamError.noConfusion
      · rintro ⟨rfl, hreceives⟩
        obtain ⟨yielded, hbad⟩ := zstandard_receivesAfterEnd contract hreceives
        rw [← hzstandard, hbad] at hexact
        obtain ⟨message, herror⟩ := hexact
        cases herror

/-! ## Two frames -/

/-- A decoder of one fixed frame: what it was given, and what follows the frame. -/
structure OneFrame where
  given : Bytes
  ended : Bool
  unused : Bytes
  deriving DecidableEq, Repr

/-- The outcome of more data before the end. -/
def OneFrame.advance (frame payload : Bytes) (d : OneFrame) (data : Bytes) :
    Option (Bytes × OneFrame) :=
  let all := d.given ++ data
  if frame <+: all then some (payload, ⟨frame, true, all.drop frame.length⟩)
  else if all <+: frame then some ([], ⟨all, false, []⟩)
  else none

def oneFormat (frame payload : Bytes) : Format := fun bytes =>
  if bytes = frame then some payload else none

def oneInflater (frame payload : Bytes) : Inflater OneFrame where
  start := ⟨[], false, []⟩
  decompress d data _ :=
    if d.ended then .ok ([], { d with unused := d.unused ++ data })
    else (d.advance frame payload data).elim (.error ()) .ok
  eof d := d.ended
  unusedData d := d.unused
  unconsumedTail _ := []

def oneDecompressor (frame payload : Bytes) : FrameDecompressor OneFrame where
  start := ⟨[], false, []⟩
  decompress d data _ :=
    if d.ended then .error .eofError
    else (d.advance frame payload data).elim (.error .zstdError) .ok
  eof d := d.ended
  unusedData d := d.unused
  needsInput d := !d.ended

/-- Before the end the decoder holds a part of the frame and has returned nothing. -/
def OneFrame.Fed (frame : Bytes) (d : OneFrame) (given out : Bytes) : Prop :=
  d.given = given ∧ out = [] ∧ given <+: frame

section OneFrame

variable {frame payload : Bytes}

theorem OneFrame.advance_spec {given out data o : Bytes} {d d' : OneFrame}
    (hfed : d.Fed frame given out) (h : d.advance frame payload data = some (o, d')) :
    (d'.ended = false ∧ o = [] ∧ d'.Fed frame (given ++ data) (out ++ o)) ∨
      (d'.ended = true ∧ ∃ used, data = used ++ d'.unused ∧
        oneFormat frame payload (given ++ used) = some (out ++ o)) := by
  obtain ⟨rfl, rfl, used, hused⟩ := hfed
  unfold OneFrame.advance at h
  dsimp only at h
  split_ifs at h with hwhole hpart
  · cases h
    obtain ⟨rest, hrest⟩ := hwhole
    refine .inr ⟨rfl, used, ?_, by rw [oneFormat, if_pos hused]; rfl⟩
    have hdata : d.given ++ data = d.given ++ (used ++ rest) := by
      rw [← hrest, ← List.append_assoc, hused]
    show data = used ++ (d.given ++ data).drop frame.length
    rw [← hrest, List.drop_left]
    exact List.append_cancel_left hdata
  · cases h
    exact .inl ⟨rfl, rfl, rfl, rfl, hpart⟩

/-- A call before the end that returned. -/
theorem elim_eq_ok {ε α : Type} {x : Option α} {e : ε} {a : α} :
    x.elim (.error e) Except.ok = .ok a ↔ x = some a := by
  cases x <;> simp

theorem oneInflater_contract (frame payload : Bytes) :
    (oneInflater frame payload).Contract (oneFormat frame payload) (OneFrame.Fed frame) where
  fed_start := ⟨rfl, rfl, List.nil_prefix⟩
  eof_start := rfl
  goesOn := by
    intro d given out data limit o d' hfed heof _ hstep hend
    have heof : d.ended = false := heof
    simp only [oneInflater, heof, Bool.false_eq_true, if_false] at hstep
    have hadvance := elim_eq_ok.mp hstep
    refine ⟨⟨data, (List.append_nil data).symm, ?_⟩, fun htail => absurd rfl htail⟩
    rcases OneFrame.advance_spec hfed hadvance with ⟨-, -, hfed'⟩ | ⟨hended, -⟩
    · exact hfed'
    · exact absurd (hended.symm.trans hend) (by decide)
  ends := by
    intro d given out data limit o d' hfed heof _ hstep hend
    have heof : d.ended = false := heof
    simp only [oneInflater, heof, Bool.false_eq_true, if_false] at hstep
    have hadvance := elim_eq_ok.mp hstep
    refine ⟨?_, rfl⟩
    rcases OneFrame.advance_spec hfed hadvance with ⟨hopen, -⟩ | ⟨-, hframe⟩
    · exact absurd (hopen.symm.trans hend) (by decide)
    · exact hframe
  ended := by
    intro d data limit heof
    exact ⟨{ d with unused := d.unused ++ data }, if_pos heof, heof, rfl⟩

theorem oneDecompressor_contract (frame payload : Bytes) :
    (oneDecompressor frame payload).Contract (oneFormat frame payload) .eofError
      (OneFrame.Fed frame) where
  fed_start := ⟨rfl, rfl, List.nil_prefix⟩
  eof_start := rfl
  goesOn := by
    intro d given out data limit o d' hfed heof _ hstep hend
    have heof : d.ended = false := heof
    simp only [oneDecompressor, heof, Bool.false_eq_true, if_false] at hstep
    have hadvance := elim_eq_ok.mp hstep
    rcases OneFrame.advance_spec hfed hadvance with ⟨-, -, hfed'⟩ | ⟨hended, -⟩
    · exact hfed'
    · exact absurd (hended.symm.trans hend) (by decide)
  ends := by
    intro d given out data limit o d' hfed heof _ hstep hend
    have heof : d.ended = false := heof
    simp only [oneDecompressor, heof, Bool.false_eq_true, if_false] at hstep
    have hadvance := elim_eq_ok.mp hstep
    rcases OneFrame.advance_spec hfed hadvance with ⟨hopen, -⟩ | ⟨-, used, hdata, hformat⟩
    · exact absurd (hopen.symm.trans hend) (by decide)
    · refine ⟨given ++ used, ?_, hformat⟩
      rw [List.append_assoc]
      exact congrArg (given ++ ·) hdata
  invalid := by
    intro d data limit e heof hstep
    have heof : d.ended = false := heof
    simp only [oneDecompressor, heof, Bool.false_eq_true, if_false] at hstep
    cases hadvance : d.advance frame payload data with
    | none =>
      rw [hadvance] at hstep
      cases hstep
      rfl
    | some r =>
      rw [hadvance] at hstep
      cases hstep
  provides := by
    intro d given out limit o d' _ heof hready _ _
    have heof : d.ended = false := heof
    have hready : (!d.ended) = false := hready
    rw [heof] at hready
    cases hready
  ended := by
    intro d data limit heof
    exact if_pos heof

end OneFrame

/-- The Gzip member of `hi`, one stored block. -/
def gzipHi : Bytes :=
  [0x1f, 0x8b, 8, 0, 0, 0, 0, 0, 0, 0xff, 1, 2, 0, 0xfd, 0xff, 0x68, 0x69, 0xac, 0x2a, 0x93, 0xd8,
    2, 0, 0, 0]

/-- The Zstandard frame of `hello`, one raw block. -/
def zstandardHello : Bytes :=
  [0x28, 0xb5, 0x2f, 0xfd, 0x20, 5, 0x29, 0, 0, 0x68, 0x65, 0x6c, 0x6c, 0x6f]

def hello : Bytes := [0x68, 0x65, 0x6c, 0x6c, 0x6f]

def smallLimits : CompressionLimits := ⟨100, 20, 10, 10, by decide⟩

/-- No chunk comes after the frame, whose last bytes are in the second chunk. -/
theorem not_receivesAfterEnd_hello :
    ¬ ReceivesAfterEnd (oneDecompressor zstandardHello hello) smallLimits []
      (.start (oneDecompressor zstandardHello hello).start)
      [zstandardHello.take 4, zstandardHello.drop 4] := by
  rintro ⟨before, chunk, after, s, hchunks, hrun, hended, -⟩
  cases before with
  | nil =>
    cases hrun
    cases hended
  | cons first before =>
    obtain ⟨rfl, hchunks⟩ := List.cons_eq_cons.mp hchunks
    cases before with
    | nil =>
      cases hrun
      cases hended
    | cons second before =>
      exact absurd (congrArg List.length (List.cons_eq_cons.mp hchunks).2) (by simp)

/-- A Gzip member and a Zstandard frame, each in two chunks. -/
theorem bounded_decompression_exact_sample :
    (gzip (oneInflater gzipHi [0x68, 0x69]) smallLimits [gzipHi.take 4, gzipHi.drop 4] =
        .ok [⟨[0x68, 0x69], 25⟩] ∧
      ExactPayload (oneFormat gzipHi [0x68, 0x69]) [gzipHi.take 4, gzipHi.drop 4]
        (gzip (oneInflater gzipHi [0x68, 0x69]) smallLimits [gzipHi.take 4, gzipHi.drop 4])) ∧
      zstandard (oneDecompressor zstandardHello hello) smallLimits
          [zstandardHello.take 4, zstandardHello.drop 4] = .ok [⟨hello, 14⟩] ∧
        ExactPayload (oneFormat zstandardHello hello) [zstandardHello.take 4, zstandardHello.drop 4]
          (zstandard (oneDecompressor zstandardHello hello) smallLimits
            [zstandardHello.take 4, zstandardHello.drop 4]) := by
  obtain ⟨-, hgzip⟩ := (bounded_decompression_exact smallLimits [gzipHi.take 4, gzipHi.drop 4]).1
    _ _ _ (oneInflater_contract gzipHi [0x68, 0x69])
  obtain ⟨-, -, hzstandard⟩ := (bounded_decompression_exact smallLimits
    [zstandardHello.take 4, zstandardHello.drop 4]).2 _ _ _ _
      (oneDecompressor_contract zstandardHello hello)
  exact ⟨⟨rfl, hgzip⟩, rfl, hzstandard.mpr fun h => not_receivesAfterEnd_hello h.2⟩

/-- A byte that follows the frame in a chunk of its own raises `EOFError`, after the payload. -/
theorem trailing_chunk_raises_eof :
    zstandard (oneDecompressor zstandardHello hello) smallLimits [zstandardHello, [0x21]] =
        .error ⟨.eofError, [⟨hello, 14⟩]⟩ ∧
      ¬ExactPayload (oneFormat zstandardHello hello) [zstandardHello, [0x21]]
        (zstandard (oneDecompressor zstandardHello hello) smallLimits
          [zstandardHello, [0x21]]) := by
  have hraised : zstandard (oneDecompressor zstandardHello hello) smallLimits
      [zstandardHello, [0x21]] = .error ⟨.eofError, [⟨hello, 14⟩]⟩ := rfl
  refine ⟨hraised, ?_⟩
  rw [hraised]
  rintro ⟨message, herror⟩
  cases herror

end Makolet.Parsing
