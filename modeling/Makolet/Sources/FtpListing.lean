import Mathlib.Data.List.TakeWhile
import Makolet.Downloads.FtpTls
import Makolet.Lib.Bytes
import Makolet.Lib.Lines
import Makolet.Sources.Adapters

/-!
# Listings of FTP directories

`_retrieve_ftp_lines` of `adapters/sources/ncr/__init__.py` reads a listing from a data channel in
the chunks that the socket returns, cuts it into lines and passes each to a callback, within limits
of bytes, lines and bytes a line. `collect_machine_line` is the callback of `MLSD`.

`retrieveFtpLines_eq_ok` says what is accepted in terms of the bytes of the listing alone, so that
it does not matter where the chunks end.
-/

set_option autoImplicit false

namespace Makolet.Sources

open Makolet.Domain Makolet.Lib
open Makolet.Downloads (ControlBudget Raised)

/-! ## Limits -/

def listingError (message : String) : Raised := .makolet (sourceResponse message)

/-- `_FtpListingLimits`. -/
structure FtpListingLimits where
  maximumBytes : Nat
  maximumLines : Nat
  maximumLineBytes : Nat
  maximumFactTokens : Nat
  wireBytes : Nat
  wireLines : Nat
  deriving DecidableEq, Repr

namespace FtpListingLimits

def consumeWireBytes (l : FtpListingLimits) (byteCount : Nat) : Except Raised FtpListingLimits := do
  let wireBytes := l.wireBytes + byteCount
  require (wireBytes ≤ l.maximumBytes)
    (listingError "FTP directory exceeds its configured byte limit")
  pure { l with wireBytes := wireBytes }

def acceptWireLine (l : FtpListingLimits) (byteCount : Nat) : Except Raised FtpListingLimits := do
  require (byteCount ≤ l.maximumLineBytes)
    (listingError "FTP directory contains an oversized line")
  let wireLines := l.wireLines + 1
  require (wireLines ≤ l.maximumLines)
    (listingError "FTP directory exceeds its configured entry limit")
  pure { l with wireLines := wireLines }

def checkPendingLine (l : FtpListingLimits) (byteCount : Nat) : Except Raised Unit :=
  require (byteCount ≤ l.maximumLineBytes)
    (listingError "FTP directory contains an oversized line")

def checkFactTokens (l : FtpListingLimits) (tokenCount : Nat) : Except Raised Unit :=
  require (tokenCount ≤ l.maximumFactTokens)
    (listingError "FTP MLSD line contains too many facts")

end FtpListingLimits

/-! ## The lines of a listing -/

def lineFeed : UInt8 := 10

def carriageReturn : UInt8 := 13

/-- `line.removesuffix(b)`, of one byte. -/
def removeSuffix (b : UInt8) (line : Bytes) : Bytes :=
  if line.getLast? = some b then line.dropLast else line

/-- A line without the bytes that end it. -/
def lineText (wireLine : Bytes) : Bytes :=
  removeSuffix carriageReturn (removeSuffix lineFeed wireLine)

/-- The state of a retrieval: the limits and the budget with what was charged, and what the callback
has made of the lines. -/
structure Retrieval (σ : Type) where
  limits : FtpListingLimits
  budget : ControlBudget
  collected : σ

section Retrieval

variable {σ : Type} (callback : σ → Bytes → Except Raised σ)

/-- A line is charged and passed to the callback. -/
def passLine (s : Retrieval σ) (wireLine text : Bytes) : Except Raised (Retrieval σ) := do
  let limits ← s.limits.acceptWireLine wireLine.length
  let collected ← callback s.collected text
  pure { s with limits := limits, collected := collected }

/-- The line up to the next line feed, and what is behind it. -/
def nextWireLine (pending : Bytes) : Option (Bytes × Bytes) :=
  match pending.dropWhile (· ≠ lineFeed) with
  | [] => none
  | newline :: rest => some (pending.takeWhile (· ≠ lineFeed) ++ [newline], rest)

/-- The inner loop, with the bytes that it leaves pending. -/
def passLines : Nat → Bytes → Retrieval σ → Except Raised (Bytes × Retrieval σ)
  | 0, pending, s => pure (pending, s)
  | turns + 1, pending, s =>
    match nextWireLine pending with
    | none => pure (pending, s)
    | some (wireLine, rest) => do
      let s ← passLine callback s wireLine (lineText wireLine)
      passLines turns rest s

/-- One turn of the outer loop. -/
def receiveChunk (pending data : Bytes) (s : Retrieval σ) :
    Except Raised (Bytes × Retrieval σ) := do
  let charged := s.budget.consumeDataBytes data.length
  charged.1
  let limits ← s.limits.consumeWireBytes data.length
  let pending := pending ++ data
  let r ← passLines callback pending.length pending { s with limits := limits, budget := charged.2 }
  r.2.limits.checkPendingLine r.1.length
  pure r

/-- The outer loop over what `recv` returns, nothing at the end of the data. -/
def receiveChunks : Bytes → Retrieval σ → List Bytes → Except Raised (Bytes × Retrieval σ)
  | pending, s, [] => pure (pending, s)
  | pending, s, [] :: _ => pure (pending, s)
  | pending, s, (b :: data) :: chunks => do
    let r ← receiveChunk callback pending (b :: data) s
    receiveChunks r.1 r.2 chunks

/-- `_retrieve_ftp_lines`, of a listing that is not cancelled. What `recv` of a TLS socket charges
to the budget is no part of it. -/
def retrieveFtpLines (s : Retrieval σ) (chunks : List Bytes) : Except Raised (Retrieval σ) := do
  let r ← receiveChunks callback [] s chunks
  if r.1 = [] then pure r.2
  else passLine callback r.2 r.1 (removeSuffix carriageReturn r.1)

end Retrieval

/-- The bytes that are received. -/
def receivedBytes : List Bytes → Bytes
  | [] => []
  | [] :: _ => []
  | (b :: data) :: chunks => b :: data ++ receivedBytes chunks

/-- The lines of a listing as they are on the wire. -/
def wireLines (listing : Bytes) : List Bytes :=
  let r := cut lineFeed listing
  r.1 ++ if r.2 = [] then [] else [r.2]

/-- The lines of a listing: each ends with a line feed, which a carriage return may precede, and the
last one may end with the listing. -/
def ftpLines (listing : Bytes) : List Bytes := (wireLines listing).map lineText

/-! ## Facts -/

/-- What the callbacks ask of the texts of a listing: `decode` of the encoding of the client,
`casefold`, `int` and `safe_basename`. -/
structure ListingTexts where
  decode : Bytes → Option (List Char)
  casefold : List Char → List Char
  int : List Char → Option Int
  safeBasename : List Char → Except Failure (List Char)

/-- A dictionary of facts, the last one of a name in front. -/
abbrev Facts := List (List Char × List Char)

/-- `text.partition(mark)`, with whether there is a mark. -/
def partition (mark : Char) (text : List Char) : List Char × Bool × List Char :=
  match text.dropWhile (· ≠ mark) with
  | [] => (text, false, [])
  | _ :: rest => (text.takeWhile (· ≠ mark), true, rest)

/-- Where the fact ends that begins at a place: at the next `;`, or with the text. -/
def tokenEnd (factsText : List Char) (tokenStart : Nat) : Nat :=
  tokenStart + ((factsText.drop tokenStart).takeWhile (· ≠ ';')).length

/-- What the loop does with a fact: the count of the facts so far, and the facts. -/
def putFact (t : ListingTexts) (limits : FtpListingLimits) (counted : Nat × Facts)
    (fact : List Char) : Except Raised (Nat × Facts) := do
  let tokenCount := counted.1 + 1
  limits.checkFactTokens tokenCount
  let parts := partition '=' fact
  require (parts.2.1 = true ∧ parts.1 ≠ []) (listingError "FTP MLSD fact is malformed")
  pure (tokenCount, (t.casefold parts.1, parts.2.2) :: counted.2)

/-- An empty fact is passed over. -/
def takeFact (t : ListingTexts) (limits : FtpListingLimits) (counted : Nat × Facts)
    (fact : List Char) : Except Raised (Nat × Facts) :=
  if fact = [] then pure counted else putFact t limits counted fact

/-- The loop over the facts of a line. -/
def factLoop (t : ListingTexts) (limits : FtpListingLimits) (factsText : List Char) :
    Nat → Nat → Nat × Facts → Except Raised (Nat × Facts)
  | 0, _, counted => pure counted
  | turns + 1, tokenStart, counted =>
    if tokenStart ≤ factsText.length then do
      let tokenEnd := tokenEnd factsText tokenStart
      let fact := (factsText.drop tokenStart).take (tokenEnd - tokenStart)
      let counted ← takeFact t limits counted fact
      if tokenEnd = factsText.length then pure counted
      else factLoop t limits factsText turns (tokenEnd + 1) counted
    else pure counted

/-- `_ftp_size`. -/
def ftpSize (t : ListingTexts) (facts : Facts) : Except Raised (Option Nat) :=
  match facts.lookup "size".toList with
  | none => pure none
  | some value =>
    match t.int value with
    | none => .error (listingError "FTP MLSD size fact is invalid")
    | some parsed =>
      if parsed < 0 then .error (listingError "FTP MLSD size fact is negative")
      else pure (some parsed.toNat)

/-- `_decode_ftp_line`. -/
def decodeFtpLine (t : ListingTexts) (rawLine : Bytes) : Except Raised (List Char) :=
  match t.decode rawLine with
  | none => .error (listingError "FTP listing contains invalid text encoding")
  | some line => pure line

/-- `collect_machine_line`. -/
def collectMachineLine (t : ListingTexts) (limits : FtpListingLimits)
    (entries : List FtpCatalogEntry) (rawLine : Bytes) : Except Raised (List FtpCatalogEntry) := do
  let line ← decodeFtpLine t rawLine
  let parts := partition ' ' line
  require (parts.2.1 = true ∧ parts.2.2 ≠ []) (listingError "FTP MLSD line is malformed")
  let counted ← factLoop t limits parts.1 (parts.1.length + 1) 0 (0, [])
  if t.casefold ((counted.2.lookup "type".toList).getD "file".toList) ≠ "file".toList then
    pure entries
  else do
    let filename ← (t.safeBasename parts.2.2).mapError .makolet
    let contentLength ← ftpSize t counted.2
    pure (entries ++ [{ filename := String.ofList filename, contentLength := contentLength }])

/-! ## Lines -/

section Lines

variable {σ : Type} {callback : σ → Bytes → Except Raised σ} {s s' : Retrieval σ}

theorem nextWireLine_none {pending : Bytes} (h : lineFeed ∉ pending) :
    nextWireLine pending = none := by
  have hnone : pending.dropWhile (· ≠ lineFeed) = [] :=
    List.dropWhile_eq_nil_iff.2 fun b hb => decide_eq_true fun heq => h (heq ▸ hb)
  rw [nextWireLine, hnone]

theorem nextWireLine_some {line : Bytes} (h : lineFeed ∉ line) (rest : Bytes) :
    nextWireLine (line ++ lineFeed :: rest) = some (line ++ [lineFeed], rest) := by
  have hline : ∀ b ∈ line, decide (b ≠ lineFeed) = true := fun b hb =>
    decide_eq_true fun heq => h (heq ▸ hb)
  have hrest : (lineFeed :: rest).dropWhile (· ≠ lineFeed) = lineFeed :: rest := rfl
  have hnone : (lineFeed :: rest).takeWhile (· ≠ lineFeed) = [] := rfl
  rw [nextWireLine, List.dropWhile_append_of_pos hline, List.takeWhile_append_of_pos hline, hrest,
    hnone, List.append_nil]

/-- The lines of a listing are charged and passed one after the other. -/
def passAll (callback : σ → Bytes → Except Raised σ) (s : Retrieval σ) (lines : List Bytes) :
    Except Raised (Retrieval σ) :=
  lines.foldlM (fun s line => passLine callback s line (lineText line)) s

/-- The inner loop passes the complete lines and leaves what is behind them. -/
theorem passLines_eq {turns : Nat} {pending : Bytes} (h : pending.length ≤ turns) :
    passLines callback turns pending s =
      passAll callback s (cut lineFeed pending).1 >>= fun s =>
        pure ((cut lineFeed pending).2, s) := by
  induction turns generalizing pending s with
  | zero =>
    obtain rfl := List.length_eq_zero_iff.1 (Nat.le_zero.1 h)
    rfl
  | succ turns ih =>
    rw [passLines]
    -- The loop cuts at the first line feed, as `cut` does.
    by_cases hmem : lineFeed ∈ pending
    · obtain ⟨line, rest, rfl, hline⟩ := List.eq_append_cons_of_mem hmem
      rw [List.length_append, List.length_cons] at h
      rw [nextWireLine_some hline, cut_mark hline]
      simp only [passAll, List.foldlM_cons, bind_assoc]
      congr 1
      funext s
      exact ih (by omega)
    · rw [nextWireLine_none hmem, cut_of_not_mem hmem]
      rfl

/-- What passing the lines does. -/
def Retrieval.passed (s : Retrieval σ) (count : Nat) (collected : σ) : Retrieval σ :=
  { s with
    limits := { s.limits with wireLines := s.limits.wireLines + count }
    collected := collected }

theorem passLine_eq_ok {wireLine text : Bytes} :
    passLine callback s wireLine text = .ok s' ↔
      wireLine.length ≤ s.limits.maximumLineBytes ∧
        s.limits.wireLines + 1 ≤ s.limits.maximumLines ∧
        ∃ collected, callback s.collected text = .ok collected ∧ s' = s.passed 1 collected := by
  constructor
  · intro h
    obtain ⟨limits, hlimits, h⟩ := bind_eq_ok.1 h
    obtain ⟨hbytes, hlimits⟩ := require_bind_eq_ok.1 hlimits
    obtain ⟨hlines, hlimits⟩ := require_bind_eq_ok.1 hlimits
    obtain rfl := pure_eq_ok.1 hlimits
    obtain ⟨collected, hcollected, h⟩ := bind_eq_ok.1 h
    exact ⟨hbytes, hlines, collected, hcollected, (pure_eq_ok.1 h).symm⟩
  · rintro ⟨hbytes, hlines, collected, hcollected, rfl⟩
    rw [passLine, FtpListingLimits.acceptWireLine, require_bind_of hbytes]
    show (require _ _ >>= _ >>= _) = _
    rw [require_bind_of hlines]
    show (callback s.collected text >>= _) = _
    rw [hcollected]
    rfl

/-- The lines are accepted where each is short enough, there are not too many of them and the
callback accepts them in order. -/
theorem passAll_eq_ok {lines : List Bytes} :
    passAll callback s lines = .ok s' ↔
      (∀ line ∈ lines, line.length ≤ s.limits.maximumLineBytes) ∧
        (lines = [] ∨ s.limits.wireLines + lines.length ≤ s.limits.maximumLines) ∧
        ∃ collected, (lines.map lineText).foldlM callback s.collected = .ok collected ∧
          s' = s.passed lines.length collected := by
  induction lines generalizing s with
  | nil =>
    constructor
    · intro h
      exact ⟨fun _ hline => absurd hline List.not_mem_nil, .inl rfl, s.collected, rfl,
        (pure_eq_ok.1 h).symm⟩
    · rintro ⟨-, -, collected, hcollected, rfl⟩
      obtain rfl := pure_eq_ok.1 hcollected
      rfl
  | cons line lines ih =>
    have hcons : passAll callback s (line :: lines) =
        passLine callback s line (lineText line) >>= fun s => passAll callback s lines := rfl
    rw [hcons, bind_eq_ok, List.map_cons, List.foldlM_cons]
    constructor
    · rintro ⟨next, hnext, hrest⟩
      obtain ⟨hbytes, hlines, collected, hcollected, rfl⟩ := passLine_eq_ok.1 hnext
      obtain ⟨hbytes', hlines', collected', hcollected', rfl⟩ := ih.1 hrest
      refine ⟨List.forall_mem_cons.2 ⟨hbytes, hbytes'⟩, .inr ?_, collected',
        bind_eq_ok.2 ⟨_, hcollected, hcollected'⟩, ?_⟩
      · rw [List.length_cons]
        rcases hlines' with rfl | hlines'
        · exact hlines
        · simp only [Retrieval.passed] at hlines'
          omega
      · simp only [Retrieval.passed, List.length_cons, Nat.add_assoc, Nat.add_comm 1]
    · rintro ⟨hbytes, hlines, collected, hcollected, rfl⟩
      obtain ⟨hbytes, hbytes'⟩ := List.forall_mem_cons.1 hbytes
      have hlines := hlines.resolve_left (List.cons_ne_nil _ _)
      rw [List.length_cons] at hlines
      obtain ⟨next, hnext, hrest⟩ := bind_eq_ok.1 hcollected
      refine ⟨_, passLine_eq_ok.2 ⟨hbytes, by omega, next, hnext, rfl⟩,
        ih.2 ⟨hbytes', .inr ?_, collected, hrest, ?_⟩⟩
      · simp only [Retrieval.passed]
        omega
      · simp only [Retrieval.passed, List.length_cons, Nat.add_assoc, Nat.add_comm 1]

end Lines

/-! ## Chunks -/

section Chunks

variable {σ : Type} {callback : σ → Bytes → Except Raised σ} {s s' : Retrieval σ}
  {pending left : Bytes}

/-- What so many bytes of data charge. -/
def Retrieval.charged (s : Retrieval σ) (byteCount : Nat) : Retrieval σ :=
  { s with
    limits := { s.limits with wireBytes := s.limits.wireBytes + byteCount }
    budget := { s.budget with dataBytes := s.budget.dataBytes + byteCount } }

/-- So many bytes of data are within the limits. -/
def Retrieval.Affords (s : Retrieval σ) (byteCount : Nat) : Prop :=
  (s.charged byteCount).budget.checkTotal = .ok () ∧
    s.limits.wireBytes + byteCount ≤ s.limits.maximumBytes

theorem Retrieval.Affords.mono {byteCount more : Nat} (h : s.Affords (byteCount + more)) :
    s.Affords byteCount := by
  obtain ⟨htotal, hbytes⟩ := h
  refine ⟨require_eq_ok.2 fun maximum hmaximum => ?_, by omega⟩
  have hle := require_eq_ok.1 htotal maximum hmaximum
  simp only [ControlBudget.totalBytes, Retrieval.charged] at hle ⊢
  omega

theorem Retrieval.charged_charged (s : Retrieval σ) (byteCount more : Nat) :
    (s.charged byteCount).charged more = s.charged (byteCount + more) := by
  simp only [Retrieval.charged, Nat.add_assoc]

/-- Passing lines does not change what data may be charged. -/
theorem Retrieval.passed_affords {count byteCount more : Nat} {collected : σ} :
    ((s.passed count collected).charged byteCount).Affords more ↔ s.Affords (byteCount + more) := by
  simp only [Retrieval.Affords, Retrieval.charged, Retrieval.passed, Nat.add_assoc]

/-- Lines are passed as before where data were charged. -/
theorem passAll_charged {byteCount : Nat} {lines : List Bytes} :
    passAll callback (s.charged byteCount) lines = .ok s' ↔
      ∃ next, passAll callback s lines = .ok next ∧ s' = next.charged byteCount := by
  rw [passAll_eq_ok]
  constructor
  · rintro ⟨hbytes, hlines, collected, hcollected, rfl⟩
    exact ⟨_, passAll_eq_ok.2 ⟨hbytes, hlines, collected, hcollected, rfl⟩, rfl⟩
  · rintro ⟨next, hnext, rfl⟩
    obtain ⟨hbytes, hlines, collected, hcollected, rfl⟩ := passAll_eq_ok.1 hnext
    exact ⟨hbytes, hlines, collected, hcollected, rfl⟩

/-- A chunk is accepted within the limits, where the lines that it completes are, and where what it
leaves is not too long for a line. -/
theorem receiveChunk_eq_ok {data : Bytes} :
    receiveChunk callback pending data s = .ok (left, s') ↔
      s.Affords data.length ∧
        (∃ next, passAll callback s (cut lineFeed (pending ++ data)).1 = .ok next ∧
          s' = next.charged data.length) ∧
        left = (cut lineFeed (pending ++ data)).2 ∧
        left.length ≤ s.limits.maximumLineBytes := by
  rw [← passAll_charged]
  constructor
  · intro h
    obtain ⟨_, htotal, h⟩ := bind_eq_ok.1 h
    obtain ⟨limits, hlimits, h⟩ := bind_eq_ok.1 h
    obtain ⟨hbytes, hlimits⟩ := require_bind_eq_ok.1 hlimits
    obtain rfl := pure_eq_ok.1 hlimits
    obtain ⟨r, hr, h⟩ := bind_eq_ok.1 h
    rw [passLines_eq (Nat.le_refl _)] at hr
    obtain ⟨next, hnext, hr⟩ := bind_eq_ok.1 hr
    obtain rfl := pure_eq_ok.1 hr
    obtain ⟨hleft, h⟩ := require_bind_eq_ok.1 h
    obtain ⟨rfl, rfl⟩ := Prod.mk.inj (pure_eq_ok.1 h)
    obtain ⟨-, -, collected, -, rfl⟩ := passAll_eq_ok.1 hnext
    exact ⟨⟨htotal, hbytes⟩, hnext, rfl, hleft⟩
  · rintro ⟨⟨htotal, hbytes⟩, hnext, rfl, hleft⟩
    refine bind_eq_ok.2 ⟨(), htotal, bind_eq_ok.2 ⟨_, require_bind_eq_ok.2 ⟨hbytes, rfl⟩, ?_⟩⟩
    refine bind_eq_ok.2 ⟨((cut lineFeed (pending ++ data)).2, s'), ?_, ?_⟩
    · rw [passLines_eq (Nat.le_refl _)]
      exact bind_eq_ok.2 ⟨s', hnext, rfl⟩
    · obtain ⟨-, -, collected, -, rfl⟩ := passAll_eq_ok.1 hnext
      exact require_bind_eq_ok.2 ⟨hleft, rfl⟩

/-- A chunk in two pieces. What the first one leaves is short enough where the second is accepted:
it is the beginning of a line of the second, or of what that leaves. -/
theorem receiveChunk_append {data more : Bytes} {r : Bytes × Retrieval σ} :
    receiveChunk callback pending (data ++ more) s = .ok r ↔
      ∃ left next, receiveChunk callback pending data s = .ok (left, next) ∧
        receiveChunk callback left more next = .ok r := by
  obtain ⟨left, s'⟩ := r
  rw [receiveChunk_eq_ok, ← List.append_assoc, cut_append, List.length_append]
  have hfree : lineFeed ∉ (cut lineFeed (pending ++ data)).2 := mark_not_mem_left _
  constructor
  · rintro ⟨haffords, ⟨final, hfinal, rfl⟩, rfl, hleft⟩
    rw [passAll, List.foldlM_append] at hfinal
    obtain ⟨next, hnext, hrest⟩ := bind_eq_ok.1 hfinal
    obtain ⟨-, -, collected, -, hpassed⟩ := passAll_eq_ok.1 hnext
    have hbytes := (passAll_eq_ok.1 hrest).1
    have hmaximum : next.limits.maximumLineBytes = s.limits.maximumLineBytes := by
      rw [hpassed]
      rfl
    rw [hmaximum] at hbytes
    refine ⟨(cut lineFeed (pending ++ data)).2, next.charged data.length,
      receiveChunk_eq_ok.2 ⟨haffords.mono, ⟨next, hnext, rfl⟩, rfl,
        length_left_le hfree hbytes hleft⟩, receiveChunk_eq_ok.2 ⟨?_, ?_, rfl, ?_⟩⟩
    · rw [hpassed]
      exact Retrieval.passed_affords.2 haffords
    · exact ⟨final.charged data.length, passAll_charged.2 ⟨final, hrest, rfl⟩,
        (Retrieval.charged_charged _ _ _).symm⟩
    · exact Nat.le_trans hleft (Nat.le_of_eq hmaximum.symm)
  · rintro ⟨_, _, hdata, hmore⟩
    obtain ⟨-, ⟨next, hnext, rfl⟩, rfl, -⟩ := receiveChunk_eq_ok.1 hdata
    obtain ⟨haffords, ⟨final, hfinal, rfl⟩, rfl, hleft⟩ := receiveChunk_eq_ok.1 hmore
    obtain ⟨final, hrest, rfl⟩ := passAll_charged.1 hfinal
    obtain ⟨-, -, collected, -, hpassed⟩ := passAll_eq_ok.1 hnext
    refine ⟨?_, ⟨final, ?_, Retrieval.charged_charged _ _ _⟩, rfl, ?_⟩
    · rw [hpassed] at haffords
      exact Retrieval.passed_affords.1 haffords
    · rw [passAll, List.foldlM_append]
      exact bind_eq_ok.2 ⟨next, hnext, hrest⟩
    · rw [hpassed] at hleft
      exact hleft

/-- It does not matter in which chunks the data are received. -/
theorem receiveChunks_eq_ok {chunks : List Bytes} {r : Bytes × Retrieval σ} :
    receiveChunks callback pending s chunks = .ok r ↔
      (receivedBytes chunks = [] ∧ r = (pending, s)) ∨
        (receivedBytes chunks ≠ [] ∧
          receiveChunk callback pending (receivedBytes chunks) s = .ok r) := by
  fun_induction receivedBytes chunks generalizing pending s with
  | case1 =>
    rw [receiveChunks, pure_eq_ok]
    exact ⟨fun h => .inl ⟨rfl, h.symm⟩, fun h => h.elim (fun h => h.2.symm) fun h => absurd rfl h.1⟩
  | case2 chunks =>
    rw [receiveChunks, pure_eq_ok]
    exact ⟨fun h => .inl ⟨rfl, h.symm⟩, fun h => h.elim (fun h => h.2.symm) fun h => absurd rfl h.1⟩
  | case3 b data chunks ih =>
    rw [receiveChunks, bind_eq_ok]
    have hne : b :: data ++ receivedBytes chunks ≠ [] := List.cons_ne_nil _ _
    rw [or_iff_right fun h => hne h.1, and_iff_right hne]
    constructor
    · rintro ⟨⟨left, next⟩, hnext, hrest⟩
      rcases ih.1 hrest with ⟨hnil, rfl⟩ | ⟨hmore, hrest⟩
      · rw [hnil, List.append_nil]
        exact hnext
      · exact receiveChunk_append.2 ⟨left, next, hnext, hrest⟩
    · intro h
      by_cases hmore : receivedBytes chunks = []
      · rw [hmore, List.append_nil] at h
        exact ⟨r, h, ih.2 (.inl ⟨hmore, rfl⟩)⟩
      · obtain ⟨left, next, hnext, hrest⟩ := receiveChunk_append.1 h
        exact ⟨(left, next), hnext, ih.2 (.inr ⟨hmore, hrest⟩)⟩

/-- A line that no line feed ends. -/
theorem lineText_of_not_mem {line : Bytes} (h : lineFeed ∉ line) :
    lineText line = removeSuffix carriageReturn line := by
  have hlast : line.getLast? ≠ some lineFeed := fun hlast => h (List.mem_of_getLast? hlast)
  rw [lineText, show removeSuffix lineFeed line = line from if_neg hlast]

theorem passAll_singleton {line : Bytes} :
    passAll callback s [line] = passLine callback s line (lineText line) := by
  rw [passAll, List.foldlM_cons]
  exact bind_pure _

/-- What is accepted, in terms of the bytes of the listing. -/
theorem retrieveFtpLines_eq_ok {chunks : List Bytes} :
    retrieveFtpLines callback s chunks = .ok s' ↔
      (receivedBytes chunks = [] ∨ s.Affords (receivedBytes chunks).length) ∧
        ∃ next, passAll callback s (wireLines (receivedBytes chunks)) = .ok next ∧
          s' = next.charged (receivedBytes chunks).length := by
  rw [retrieveFtpLines, bind_eq_ok]
  by_cases hnil : receivedBytes chunks = []
  · rw [hnil]
    constructor
    · rintro ⟨r, hr, h⟩
      rcases receiveChunks_eq_ok.1 hr with ⟨-, rfl⟩ | ⟨hne, -⟩
      · exact ⟨.inl rfl, s, rfl, (pure_eq_ok.1 h).symm⟩
      · exact absurd hnil hne
    · rintro ⟨-, next, hnext, rfl⟩
      obtain rfl := pure_eq_ok.1 hnext
      exact ⟨([], s), receiveChunks_eq_ok.2 (.inl ⟨hnil, rfl⟩), rfl⟩
  · have hchunks (r : Bytes × Retrieval σ) : receiveChunks callback [] s chunks = .ok r ↔
        receiveChunk callback [] (receivedBytes chunks) s = .ok r := by
      rw [receiveChunks_eq_ok, or_iff_right fun h => hnil h.1, and_iff_right hnil]
    have hfree : lineFeed ∉ (cut lineFeed (receivedBytes chunks)).2 := mark_not_mem_left _
    rw [or_iff_right hnil, wireLines]
    by_cases hleft : (cut lineFeed (receivedBytes chunks)).2 = []
    · rw [if_pos hleft, List.append_nil]
      constructor
      · rintro ⟨⟨left, final⟩, hr, h⟩
        obtain ⟨haffords, ⟨next, hnext, rfl⟩, rfl, -⟩ :=
          receiveChunk_eq_ok.1 ((hchunks _).1 hr)
        rw [List.nil_append, if_pos hleft] at h
        exact ⟨haffords, next, hnext, (pure_eq_ok.1 h).symm⟩
      · rintro ⟨haffords, next, hnext, rfl⟩
        refine ⟨([], next.charged (receivedBytes chunks).length), (hchunks _).2
          (receiveChunk_eq_ok.2 ⟨haffords, ⟨next, hnext, rfl⟩, hleft.symm, Nat.zero_le _⟩), ?_⟩
        rw [if_pos rfl]
        rfl
    · rw [if_neg hleft, passAll, List.foldlM_append]
      constructor
      · rintro ⟨⟨left, final⟩, hr, h⟩
        obtain ⟨haffords, ⟨next, hnext, rfl⟩, rfl, -⟩ :=
          receiveChunk_eq_ok.1 ((hchunks _).1 hr)
        rw [List.nil_append] at h hnext
        rw [if_neg hleft, ← lineText_of_not_mem hfree, ← passAll_singleton,
          passAll_charged] at h
        obtain ⟨last, hlast, rfl⟩ := h
        exact ⟨haffords, last, bind_eq_ok.2 ⟨next, hnext, hlast⟩, rfl⟩
      · rintro ⟨haffords, last, hlast, rfl⟩
        obtain ⟨next, hnext, hlast⟩ := bind_eq_ok.1 hlast
        obtain ⟨-, -, collected, -, hpassed⟩ := passAll_eq_ok.1 hnext
        have hbytes := (passAll_eq_ok.1 hlast).1 _ List.mem_cons_self
        rw [hpassed] at hbytes
        refine ⟨(_, next.charged (receivedBytes chunks).length), (hchunks _).2
          (receiveChunk_eq_ok.2 ⟨haffords, ⟨next, hnext, rfl⟩, rfl, hbytes⟩), ?_⟩
        rw [List.nil_append, if_neg hleft, ← lineText_of_not_mem hfree, ← passAll_singleton,
          passAll_charged]
        exact ⟨last, hlast, rfl⟩

end Chunks

/-! ## The loop over the facts -/

/-- The facts of a text. -/
def factsOf (factsText : List Char) : List (List Char) :=
  (factsText.splitOn ';').filter (· ≠ [])

/-- Where the next turn of the loop begins, if there is one. -/
def nextToken (factsText : List Char) (tokenStart : Nat) : Option Nat :=
  if tokenStart ≤ factsText.length ∧ tokenEnd factsText tokenStart ≠ factsText.length then
    some (tokenEnd factsText tokenStart + 1)
  else none

section FactLoop

variable {t : ListingTexts} {limits : FtpListingLimits} {factsText : List Char}
  {turns tokenStart : Nat} {counted : Nat × Facts}

theorem tokenEnd_le (h : tokenStart ≤ factsText.length) :
    tokenEnd factsText tokenStart ≤ factsText.length := by
  have hle := (List.takeWhile_prefix (· ≠ ';') (l := factsText.drop tokenStart)).length_le
  rw [List.length_drop] at hle
  rw [tokenEnd]
  omega

/-- Every turn begins behind the one before. -/
theorem nextToken_wellFounded (factsText : List Char) :
    WellFounded fun next tokenStart => nextToken factsText tokenStart = some next := by
  refine Subrelation.wf (r := InvImage (· < ·) fun start => factsText.length + 1 - start) ?_
    (InvImage.wf _ Nat.lt_wfRel.wf)
  intro next tokenStart h
  rw [nextToken] at h
  split at h
  · rename_i hturn
    obtain rfl := Option.some.inj h
    have hend := tokenEnd_le hturn.1
    have hstart : tokenStart ≤ tokenEnd factsText tokenStart := Nat.le_add_right _ _
    show factsText.length + 1 - (tokenEnd factsText tokenStart + 1) <
      factsText.length + 1 - tokenStart
    omega
  · cases h

/-- A turn takes the text up to the next mark, or all of it. -/
theorem tokenEnd_cases (h : tokenStart ≤ factsText.length) :
    (∃ fact rest, factsText.drop tokenStart = fact ++ ';' :: rest ∧ ';' ∉ fact ∧
        tokenEnd factsText tokenStart = tokenStart + fact.length ∧
        tokenEnd factsText tokenStart < factsText.length) ∨
      (';' ∉ factsText.drop tokenStart ∧ tokenEnd factsText tokenStart = factsText.length) := by
  have htake {fact : List Char} (hfact : ';' ∉ fact) : ∀ c ∈ fact, decide (c ≠ ';') = true :=
    fun c hc => decide_eq_true fun heq => hfact (heq ▸ hc)
  by_cases hmark : ';' ∈ factsText.drop tokenStart
  · obtain ⟨fact, rest, hdrop, hfact⟩ := List.eq_append_cons_of_mem hmark
    have hlength := congrArg List.length hdrop
    rw [List.length_drop, List.length_append, List.length_cons] at hlength
    have hend : tokenEnd factsText tokenStart = tokenStart + fact.length := by
      have hnone : (';' :: rest).takeWhile (· ≠ ';') = [] := rfl
      rw [tokenEnd, hdrop, List.takeWhile_append_of_pos (htake hfact), hnone, List.append_nil]
    exact .inl ⟨fact, rest, hdrop, hfact, hend, by omega⟩
  · refine .inr ⟨hmark, ?_⟩
    rw [tokenEnd, List.takeWhile_eq_self_iff.2 (htake hmark), List.length_drop]
    omega

/-- The loop deals with the facts behind a place, and with nothing else. -/
theorem factLoop_eq (h : tokenStart ≤ factsText.length)
    (hturns : factsText.length + 1 ≤ turns + tokenStart) :
    factLoop t limits factsText turns tokenStart counted =
      (factsOf (factsText.drop tokenStart)).foldlM (putFact t limits) counted := by
  induction turns generalizing tokenStart counted with
  | zero => omega
  | succ turns ih =>
    have hfacts (fact : List Char) (facts : List (List Char)) :
        ((fact :: facts).filter (· ≠ [])).foldlM (putFact t limits) counted =
          takeFact t limits counted fact >>= fun counted =>
            (facts.filter (· ≠ [])).foldlM (putFact t limits) counted := by
      cases fact with
      | nil => rfl
      | cons c fact => rfl
    rw [factLoop, if_pos h]
    rcases tokenEnd_cases h with ⟨fact, rest, hdrop, hfact, hend, hlt⟩ | ⟨hnone, hend⟩
    · have hslice : (factsText.drop tokenStart).take (tokenEnd factsText tokenStart - tokenStart) =
          fact := by
        rw [hend, Nat.add_sub_cancel_left, hdrop, List.take_left' rfl]
      have hrest : factsText.drop (tokenEnd factsText tokenStart + 1) = rest := by
        rw [hend, Nat.add_assoc, ← List.drop_drop, hdrop, ← List.drop_drop, List.drop_left' rfl]
        rfl
      simp only [hslice, if_neg (Nat.ne_of_lt hlt)]
      rw [factsOf, hdrop, List.splitOn_append_cons_self_of_not_mem hfact, hfacts]
      congr 1
      funext counted
      rw [ih (by omega) (by omega), hrest]
      rfl
    · have hslice : (factsText.drop tokenStart).take (tokenEnd factsText tokenStart - tokenStart) =
          factsText.drop tokenStart :=
        List.take_of_length_le (by rw [hend, List.length_drop])
      simp only [hslice, if_pos hend]
      rw [factsOf, List.splitOn_eq_singleton hnone, hfacts]
      rfl

end FactLoop

/-! ## Listings in other chunks -/

/-- A listing is within the limits, of bytes, of the bytes of a line and of lines, and the callback
accepts its lines and makes `collected` of them. -/
structure Retrieval.Takes {σ : Type} (callback : σ → Bytes → Except Raised σ) (s : Retrieval σ)
    (listing : Bytes) (collected : σ) : Prop where
  data : listing = [] ∨ s.Affords listing.length
  lineBytes : ∀ line ∈ wireLines listing, line.length ≤ s.limits.maximumLineBytes
  lines : wireLines listing = [] ∨
    s.limits.wireLines + (wireLines listing).length ≤ s.limits.maximumLines
  passed : (ftpLines listing).foldlM callback s.collected = .ok collected

/-- A listing is accepted where it is within the limits and the callback accepts its lines. -/
theorem retrieveFtpLines_takes {σ : Type} {callback : σ → Bytes → Except Raised σ}
    {s : Retrieval σ} {chunks : List Bytes} {s' : Retrieval σ} :
    retrieveFtpLines callback s chunks = .ok s' ↔
      ∃ collected, s.Takes callback (receivedBytes chunks) collected ∧
        s' = (s.passed (wireLines (receivedBytes chunks)).length collected).charged
          (receivedBytes chunks).length := by
  rw [retrieveFtpLines_eq_ok]
  constructor
  · rintro ⟨hdata, next, hnext, rfl⟩
    obtain ⟨hbytes, hlines, collected, hcollected, rfl⟩ := passAll_eq_ok.1 hnext
    exact ⟨collected, ⟨hdata, hbytes, hlines, hcollected⟩, rfl⟩
  · rintro ⟨collected, ⟨hdata, hbytes, hlines, hcollected⟩, rfl⟩
    exact ⟨hdata, _, passAll_eq_ok.2 ⟨hbytes, hlines, collected, hcollected, rfl⟩, rfl⟩

/-- However the socket splits a listing, it is rejected, and then it is beyond a limit or the
callback rejects one of its lines, or it is accepted with the same result, and then it is within the
limits and the result is what the callback makes of its lines in order. And the loop over the facts
of a line of `MLSD` comes to its end, where it has dealt with the facts that are not empty, one
after the other. -/
theorem retrieveFtpLines_split {σ : Type} (callback : σ → Bytes → Except Raised σ) (s : Retrieval σ)
    (chunks chunks' : List Bytes) (h : receivedBytes chunks = receivedBytes chunks') :
    (((∃ e, retrieveFtpLines callback s chunks = .error e) ∧
        (∃ e, retrieveFtpLines callback s chunks' = .error e) ∧
        ∀ collected, ¬ s.Takes callback (receivedBytes chunks) collected) ∨
      ∃ s', retrieveFtpLines callback s chunks = .ok s' ∧
        retrieveFtpLines callback s chunks' = .ok s' ∧
        s.Takes callback (receivedBytes chunks) s'.collected) ∧
      ∀ (t : ListingTexts) (limits : FtpListingLimits) (factsText : List Char),
        (WellFounded fun next tokenStart => nextToken factsText tokenStart = some next) ∧
          ∀ more, factLoop t limits factsText (factsText.length + 1 + more) 0 (0, []) =
            (factsOf factsText).foldlM (putFact t limits) (0, []) := by
  refine ⟨?_, fun t limits factsText => ⟨nextToken_wellFounded factsText, fun more => ?_⟩⟩
  · have hsame (s' : Retrieval σ) : retrieveFtpLines callback s chunks = .ok s' ↔
        retrieveFtpLines callback s chunks' = .ok s' := by
      rw [retrieveFtpLines_takes, retrieveFtpLines_takes, h]
    cases hrun : retrieveFtpLines callback s chunks with
    | ok s' =>
      obtain ⟨collected, htakes, rfl⟩ := retrieveFtpLines_takes.1 hrun
      exact .inr ⟨_, rfl, (hsame _).1 hrun, htakes⟩
    | error e =>
      refine .inl ⟨⟨e, rfl⟩, ?_, fun collected htakes => ?_⟩
      · cases hrun' : retrieveFtpLines callback s chunks' with
        | error e' => exact ⟨e', rfl⟩
        | ok s' =>
          rw [(hsame s').2 hrun'] at hrun
          cases hrun
      · rw [retrieveFtpLines_takes.2 ⟨collected, htakes, rfl⟩] at hrun
        cases hrun
  · rw [factLoop_eq (Nat.zero_le _) (by omega), List.drop_zero]

/-- The lines as they were passed. -/
def keepLines (lines : List Bytes) (line : Bytes) : Except Raised (List Bytes) :=
  .ok (lines ++ [line])

def sampleListing : Retrieval (List Bytes) where
  limits := ⟨64, 4, 16, 8, 0, 0⟩
  budget := ⟨0, 0, 0, some 64⟩
  collected := []

/-- A listing of two lines, which is accepted: `a`, with a carriage return at the end of a chunk,
and `b`. -/
theorem retrieveFtpLines_split_sample :
    ((retrieveFtpLines keepLines sampleListing [[97, 13], [10, 98]]).map (·.collected) =
        .ok [[97], [98]] ∧
      ((((∃ e, retrieveFtpLines keepLines sampleListing [[97, 13], [10, 98]] = .error e) ∧
          (∃ e, retrieveFtpLines keepLines sampleListing [[97], [13, 10, 98]] = .error e) ∧
          ∀ collected,
            ¬ sampleListing.Takes keepLines (receivedBytes [[97, 13], [10, 98]]) collected) ∨
        ∃ s', retrieveFtpLines keepLines sampleListing [[97, 13], [10, 98]] = .ok s' ∧
          retrieveFtpLines keepLines sampleListing [[97], [13, 10, 98]] = .ok s' ∧
          sampleListing.Takes keepLines (receivedBytes [[97, 13], [10, 98]]) s'.collected) ∧
        ∀ (t : ListingTexts) (limits : FtpListingLimits) (factsText : List Char),
          (WellFounded fun next tokenStart => nextToken factsText tokenStart = some next) ∧
            ∀ more, factLoop t limits factsText (factsText.length + 1 + more) 0 (0, []) =
              (factsOf factsText).foldlM (putFact t limits) (0, []))) :=
  ⟨rfl, retrieveFtpLines_split keepLines sampleListing [[97, 13], [10, 98]]
    [[97], [13, 10, 98]] rfl⟩

end Makolet.Sources
