import Makolet.Lib.Bytes

/-!
# Incremental decoders of one frame

A format says which byte sequences are one complete frame, and what they decode to. A decoder is fed
the bytes in pieces. Two interfaces of such decoders are described with what a caller may rely on: an
inflater gives back the input that did not fit the output, a frame decompressor keeps it and says
whether it needs more. They differ in what happens after the end of the frame: an inflater collects
what follows, a frame decompressor refuses the call.
-/

set_option autoImplicit false

namespace Makolet.Lib

/-- The payload of a byte sequence that is exactly one frame. -/
abbrev Format := Bytes → Option Bytes

/-! ## Inflaters -/

/-- The interface of a `zlib.decompressobj`; `decompress` may raise `zlib.error`. -/
structure Inflater (δ : Type) where
  start : δ
  decompress : δ → Bytes → Nat → Except Unit (Bytes × δ)
  eof : δ → Bool
  unusedData : δ → Bytes
  unconsumedTail : δ → Bytes

/-- `Fed d given out`: the bytes `given` were consumed by `d`, which returned `out` for them. -/
structure Inflater.Contract {δ : Type} (i : Inflater δ) (format : Format)
    (Fed : δ → Bytes → Bytes → Prop) : Prop where
  fed_start : Fed i.start [] []
  eof_start : i.eof i.start = false
  /-- Before the end: what was not consumed is the tail, which is left over by a full output only. -/
  goesOn : ∀ {d given out data limit o d'}, Fed d given out → i.eof d = false → 0 < limit →
    i.decompress d data limit = .ok (o, d') → i.eof d' = false →
    (∃ used, data = used ++ i.unconsumedTail d' ∧ Fed d' (given ++ used) (out ++ o)) ∧
      (i.unconsumedTail d' ≠ [] → o ≠ [])
  /-- At the end: the consumed bytes are one frame, and the rest of the input is unused. -/
  ends : ∀ {d given out data limit o d'}, Fed d given out → i.eof d = false → 0 < limit →
    i.decompress d data limit = .ok (o, d') → i.eof d' = true →
    (∃ used, data = used ++ i.unusedData d' ∧ format (given ++ used) = some (out ++ o)) ∧
      i.unconsumedTail d' = []
  /-- After the end: all further input is unused. -/
  ended : ∀ {d} (data : Bytes) (limit : Nat), i.eof d = true →
    ∃ d', i.decompress d data limit = .ok ([], d') ∧ i.eof d' = true ∧
      i.unusedData d' = i.unusedData d ++ data

/-! ## Frame decompressors -/

/-- What a call of a frame decompressor can raise. -/
inductive FrameError
  | zstdError
  | eofError
  deriving DecidableEq, Repr

/-- The interface of a `compression.zstd.ZstdDecompressor`. -/
structure FrameDecompressor (δ : Type) where
  start : δ
  decompress : δ → Bytes → Nat → Except FrameError (Bytes × δ)
  eof : δ → Bool
  unusedData : δ → Bytes
  needsInput : δ → Bool

/-- `Fed d given out`: `d` was given the bytes `given` and returned `out` so far. `afterEnd` is what
a call after the end of the frame raises. -/
structure FrameDecompressor.Contract {δ : Type} (f : FrameDecompressor δ) (format : Format)
    (afterEnd : FrameError) (Fed : δ → Bytes → Bytes → Prop) : Prop where
  fed_start : Fed f.start [] []
  eof_start : f.eof f.start = false
  goesOn : ∀ {d given out data limit o d'}, Fed d given out → f.eof d = false → 0 < limit →
    f.decompress d data limit = .ok (o, d') → f.eof d' = false → Fed d' (given ++ data) (out ++ o)
  ends : ∀ {d given out data limit o d'}, Fed d given out → f.eof d = false → 0 < limit →
    f.decompress d data limit = .ok (o, d') → f.eof d' = true →
    ∃ frame, given ++ data = frame ++ f.unusedData d' ∧ format frame = some (out ++ o)
  /-- Data that is no frame raises the error of the format. -/
  invalid : ∀ {d data limit e}, f.eof d = false → f.decompress d data limit = .error e →
    e = .zstdError
  /-- A decompressor that does not need input can provide more output. -/
  provides : ∀ {d given out limit o d'}, Fed d given out → f.eof d = false →
    f.needsInput d = false → 0 < limit → f.decompress d [] limit = .ok (o, d') →
    o ≠ [] ∨ f.eof d' = true ∨ f.needsInput d' = true
  ended : ∀ {d} (data : Bytes) (limit : Nat), f.eof d = true →
    f.decompress d data limit = .error afterEnd

end Makolet.Lib
