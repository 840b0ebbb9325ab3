import Makolet.Domain.Enums
import Makolet.Lib.Outcome

/-!
# The end of an FTPS data channel

`_MeteredTlsSocket.recv` pumps ciphertext between a raw socket and the memory buffers of an SSL
object, and `_download_sync` reads a file from it until `recv` returns no bytes. What the SSL object
and the raw socket answer is given turn by turn; `recv` maps the answers to bytes, to the end of the
data, or to an exception.

The data end where the peer has sent `close_notify`, or where the connection below has ended.
`recv` ends them also with any other `SSLError`, since `suppress_ragged_eofs` covers all of them.
-/

set_option autoImplicit false

namespace Makolet.Downloads

open Makolet.Domain Makolet.Lib

abbrev Bytes := List UInt8

/-- The subclasses of `ssl.SSLError`, and `SSLError` itself. -/
inductive SslError
  | zeroReturn
  | wantRead
  | wantWrite
  | syscall
  | eof
  | certVerification
  | other
  deriving DecidableEq, Repr

/-- `FtpControlLimitError.reason`. -/
inductive LimitReason
  | replyBytes
  | replyLines
  | operationBytes
  | operationLines
  | totalBytes
  deriving DecidableEq, Repr

/-- What the calls of a download raise. -/
inductive Raised
  | ssl (e : SslError)
  | osError
  | eofError
  | ftplib (permanent : Bool)
  | controlLimit (reason : LimitReason)
  | makolet (failure : Failure)
  deriving DecidableEq, Repr

/-! ## The metered socket -/

/-- `FtpControlBudget`, as the data channel uses it. -/
structure ControlBudget where
  controlBytes : Nat
  dataBytes : Nat
  wireBytes : Nat
  maximumTotalBytes : Option Nat
  deriving DecidableEq, Repr

namespace ControlBudget

/-- `_accounted_bytes_unlocked`. -/
def totalBytes (b : ControlBudget) : Nat := max b.wireBytes (b.controlBytes + b.dataBytes)

def checkTotal (b : ControlBudget) : Except Raised Unit :=
  require (∀ maximum ∈ b.maximumTotalBytes, b.totalBytes ≤ maximum) (.controlLimit .totalBytes)

def recordWireBytes (b : ControlBudget) (count : Nat) : Except Raised Unit × ControlBudget :=
  let b' := { b with wireBytes := b.wireBytes + count }
  (b'.checkTotal, b')

def consumeDataBytes (b : ControlBudget) (count : Nat) : Except Raised Unit × ControlBudget :=
  let b' := { b with dataBytes := b.dataBytes + count }
  (b'.checkTotal, b')

end ControlBudget

/-- The socket with its budget. `ended` is set by `write_eof`, once the raw socket has returned no
bytes. -/
structure Channel where
  budget : ControlBudget
  ended : Bool
  deriving DecidableEq, Repr

/-- One call of the SSL object: what it returns or raises, the ciphertext it leaves to be sent,
what `send` of the raw socket returns for it, and what `recv` of the raw socket would return. `none`
is an `OSError`. -/
structure Turn where
  result : Except SslError Bytes
  pending : Nat
  sends : List (Option Nat)
  received : Option Nat

def closedBeforeCharged (b : ControlBudget) : Raised :=
  .makolet ⟨.sourceAccess, "FTPS socket closed before ciphertext could be charged", b.totalBytes⟩

/-- `_flush_outgoing`; `none` while a `send` is still awaited. -/
def flushOutgoing : Nat → List (Option Nat) → Channel → Option (Except Raised Unit × Channel)
  | 0, _, c => some (.ok (), c)
  | _ + 1, [], _ => none
  | _ + 1, none :: _, c => some (.error .osError, c)
  | left + 1, some sent :: rest, c =>
    if sent = 0 then some (.error (closedBeforeCharged c.budget), c)
    else
      match c.budget.recordWireBytes sent with
      | (.error e, b) => some (.error e, { c with budget := b })
      | (.ok (), b) => flushOutgoing (left + 1 - sent) rest { c with budget := b }

/-- `_pull_incoming`. -/
def pullIncoming (received : Option Nat) (c : Channel) : Except Raised Unit × Channel :=
  match received with
  | none => (.error .osError, c)
  | some 0 => (.ok (), { c with ended := true })
  | some count =>
    let (charged, b) := c.budget.recordWireBytes count
    (charged, { c with budget := b })

/-- `_run_ssl`: the SSL object is called again after `SSLWantReadError` and `SSLWantWriteError`;
`none` while no turn has ended the call. -/
def runSsl : List Turn → Channel → Option (Except Raised Bytes × Channel)
  | [], _ => none
  | turn :: rest, c =>
    match turn.result with
    | .error .wantRead =>
      (flushOutgoing turn.pending turn.sends c).bind fun flushed =>
        match flushed with
        | (.error e, c) => some (.error e, c)
        | (.ok (), c) =>
          match pullIncoming turn.received c with
          | (.error e, c) => some (.error e, c)
          | (.ok (), c) => runSsl rest c
    | .error .wantWrite =>
      (flushOutgoing turn.pending turn.sends c).bind fun flushed =>
        match flushed with
        | (.error e, c) => some (.error e, c)
        | (.ok (), c) => runSsl rest c
    | .error e => some (.error (.ssl e), c)
    | .ok bytes =>
      (flushOutgoing turn.pending turn.sends c).map fun flushed =>
        match flushed with
        | (.error e, c) => (.error e, c)
        | (.ok (), c) => (.ok bytes, c)

/-- The `except` clauses of `recv`. -/
def recvResult (suppressRaggedEofs : Bool) : Except Raised Bytes → Except Raised Bytes
  | .error (.ssl .zeroReturn) => .ok []
  | .error (.ssl e) => if suppressRaggedEofs then .ok [] else .error (.ssl e)
  | result => result

/-- `recv`, without flags. -/
def recv (suppressRaggedEofs : Bool) (buflen : Int) (turns : List Turn) (c : Channel) :
    Option (Except Raised Bytes × Channel) :=
  if buflen ≤ 0 then some (.ok [], c)
  else (runSsl turns c).map fun r => (recvResult suppressRaggedEofs r.1, r.2)

/-! ## The download -/

/-- What the steps of one turn of `_retrieve_ftp_binary` meet: a cancellation before or after
`recv`, the turns of `recv`, and whether there is free space for the chunk. -/
structure RecvInput where
  cancelledBefore : Bool
  turns : List Turn
  cancelledAfter : Bool
  roomy : Bool

/-- The limits of a download, and the flag its data channel was wrapped with. -/
structure DownloadPolicy where
  chunkSize : { n : Nat // 1 ≤ n ∧ n ≤ 64 * 1024 }
  maximumPayloadBytes : Nat
  suppressRaggedEofs : Bool

structure DownloadState where
  channel : Channel
  contentLength : Nat

def cancelled : Raised := .osError

def capacityReached (b : ControlBudget) : Raised :=
  .makolet ⟨.archiveCapacity, "FTP download spool reached its configured free-space reserve",
    b.totalBytes⟩

/-- `_raise_response_limit`. -/
def responseLimit (maximum : Nat) (b : ControlBudget) : Raised :=
  .makolet ⟨.downloadLimit, "FTP response exceeds " ++ toString maximum ++ " bytes", b.totalBytes⟩

/-- `write_chunk`, after its checkpoint. -/
def writeChunk (policy : DownloadPolicy) (roomy : Bool) (chunk : Bytes) (s : DownloadState) :
    Except Raised Unit × DownloadState :=
  let contentLength := s.contentLength + chunk.length
  let (charged, b) := s.channel.budget.consumeDataBytes chunk.length
  let s' : DownloadState := ⟨{ s.channel with budget := b }, contentLength⟩
  let written := do
    require (contentLength ≤ policy.maximumPayloadBytes)
      (responseLimit policy.maximumPayloadBytes b)
    charged
    require (roomy = true) (capacityReached b)
  (written, s')

/-- A call of `recv`: its turns, and the channel it found. -/
abbrev RecvCall := List Turn × Channel

/-- The loop of `_retrieve_ftp_binary`, with the calls of `recv` that it makes; `none` while it
waits. -/
def retrieve (policy : DownloadPolicy) :
    List RecvInput → DownloadState → Option (Except Raised Unit × DownloadState × List RecvCall)
  | [], _ => none
  | input :: rest, s =>
    if input.cancelledBefore then some (.error cancelled, s, [])
    else
      (recv policy.suppressRaggedEofs policy.chunkSize.1 input.turns s.channel).bind fun r =>
        let s' : DownloadState := { s with channel := r.2 }
        let call : RecvCall := (input.turns, s.channel)
        match r.1 with
        | .error e => some (.error e, s', [call])
        | .ok chunk =>
          if input.cancelledAfter then some (.error cancelled, s', [call])
          else if chunk = [] then some (.ok (), s', [call])
          else
            match writeChunk policy input.roomy chunk s' with
            | (.error e, s'') => some (.error e, s'', [call])
            | (.ok (), s'') =>
              (retrieve policy rest s'').map fun r => (r.1, r.2.1, call :: r.2.2)

/-- The exceptions of `_download_sync`, as it hands them on. -/
def downloadFailure (b : ControlBudget) : Raised → Failure
  | .makolet failure => failure
  | .controlLimit .totalBytes =>
    match b.maximumTotalBytes with
    | some maximum =>
      ⟨.downloadLimit, "FTP response exceeds " ++ toString maximum ++ " bytes", b.totalBytes⟩
    | none => ⟨.other, "FTP transfer budget has no byte ceiling", 0⟩
  | .controlLimit _ =>
    ⟨.sourceResponse, "FTP control replies exceed their configured safety limits", b.totalBytes⟩
  | .ftplib true => ⟨.sourceBlocked, "Public FTP server denied file access", b.totalBytes⟩
  | _ => ⟨.sourceAccess, "Public FTP file download failed", b.totalBytes⟩

/-- A download: the commands before the data channel is read and those after it, each of which may
raise, and what is read. -/
structure Download where
  policy : DownloadPolicy
  before : List (Except Raised Unit)
  channel : Channel
  inputs : List RecvInput
  after : List (Except Raised Unit)

/-- `_download_sync`, with the calls of `recv`. -/
def Download.sync (d : Download) : Option (Except Failure (Nat × Nat) × List RecvCall) :=
  match d.before.forM id with
  | .error e => some (.error (downloadFailure d.channel.budget e), [])
  | .ok () =>
    (retrieve d.policy d.inputs ⟨d.channel, 0⟩).map fun r =>
      let b := r.2.1.channel.budget
      (match (do r.1; d.after.forM id : Except Raised Unit) with
        | .error e => .error (downloadFailure b e)
        | .ok () => .ok (r.2.1.contentLength, b.totalBytes), r.2.2)

/-! ## What ends the data -/

/-- The peer has closed the channel: the SSL object raised `SSLZeroReturnError`, or read no
bytes. -/
def CloseNotified (result : Except Raised Bytes) : Prop :=
  result = .ok [] ∨ result = .error (.ssl .zeroReturn)

/-- The connection below has ended: the raw socket returned no bytes, or the SSL object raised
`SSLEOFError`. -/
def ConnectionEnded (result : Except Raised Bytes) (c : Channel) : Prop :=
  result = .error (.ssl .eof) ∨ c.ended = true

/-- What `_run_ssl` came to is an end of the data. -/
def DataEnded (call : RecvCall) : Prop :=
  ∃ result c, runSsl call.1 call.2 = some (result, c) ∧
    (CloseNotified result ∨ ConnectionEnded result c)

/-- The call meets an `SSLError` that is neither `SSLZeroReturnError` nor `SSLEOFError`. -/
def Fails (call : RecvCall) : Prop :=
  ∃ e c, runSsl call.1 call.2 = some (.error (.ssl e), c) ∧ e ≠ .zeroReturn ∧ e ≠ .eof

/-- A call of `recv` returns no bytes only at an end of the data, and hands any other `SSLError`
on. -/
structure RecvSound (suppressRaggedEofs : Bool) (buflen : Int) (call : RecvCall) : Prop where
  empty : ∀ c, recv suppressRaggedEofs buflen call.1 call.2 = some (.ok [], c) → DataEnded call
  propagates : ∀ e c, runSsl call.1 call.2 = some (.error (.ssl e), c) → e ≠ .zeroReturn →
    e ≠ .eof → recv suppressRaggedEofs buflen call.1 call.2 = some (.error (.ssl e), c)

section Recv

variable {suppress : Bool} {buflen : Int} {call : RecvCall}

theorem recv_of_pos (h : 0 < buflen) (turns : List Turn) (c : Channel) :
    recv suppress buflen turns c =
      (runSsl turns c).map fun r => (recvResult suppress r.1, r.2) :=
  if_neg (Int.not_le.mpr h)

/-- No bytes are made of no bytes, or of an `SSLError`. -/
theorem recvResult_empty {result : Except Raised Bytes} (h : recvResult suppress result = .ok []) :
    CloseNotified result ∨ result = .error (.ssl .eof) ∨
      suppress = true ∧ ∃ e, result = .error (.ssl e) ∧ e ≠ .zeroReturn ∧ e ≠ .eof := by
  cases result with
  | ok bytes =>
    cases h
    exact .inl (.inl rfl)
  | error raised =>
    cases raised with
    | ssl e =>
      by_cases hzero : e = .zeroReturn
      · subst hzero
        exact .inl (.inr rfl)
      · by_cases heof : e = .eof
        · subst heof
          exact .inr (.inl rfl)
        · cases suppress with
          | true => exact .inr (.inr ⟨rfl, e, rfl, hzero, heof⟩)
          | false =>
            cases e <;> first | exact absurd rfl hzero | cases h
    | _ => cases h

theorem recvResult_of_fails {e : SslError} (h : e ≠ .zeroReturn) :
    recvResult suppress (.error (.ssl e)) = if suppress then .ok [] else .error (.ssl e) := by
  cases e <;> first | exact absurd rfl h | rfl

/-- **One call is sound exactly where it does not turn another `SSLError` into no bytes.** -/
theorem recvSound_iff (hpos : 0 < buflen) :
    RecvSound suppress buflen call ↔ suppress = false ∨ ¬Fails call := by
  constructor
  · intro h
    cases suppress with
    | false => exact .inl rfl
    | true =>
      refine .inr ?_
      rintro ⟨e, c, hrun, hzero, heof⟩
      have hrecv := h.propagates e c hrun hzero heof
      rw [recv_of_pos hpos, hrun, Option.map_some, recvResult_of_fails hzero] at hrecv
      cases hrecv
  · intro h
    refine ⟨fun c hrecv => ?_, fun e c hrun hzero heof => ?_⟩
    · rw [recv_of_pos hpos] at hrecv
      obtain ⟨⟨result, c'⟩, hrun, heq⟩ := Option.map_eq_some_iff.mp hrecv
      obtain ⟨hempty, rfl⟩ := Prod.mk.inj heq
      rcases recvResult_empty hempty with hnotified | hended | ⟨hsuppress, e, rfl, hzero, heof⟩
      · exact ⟨result, _, hrun, .inl hnotified⟩
      · exact ⟨result, _, hrun, .inr (.inl hended)⟩
      · rcases h with hoff | hnot
        · rw [hoff] at hsuppress
          cases hsuppress
        · exact absurd ⟨e, _, hrun, hzero, heof⟩ hnot
    · rcases h with hoff | hnot
      · rw [recv_of_pos hpos, hrun, Option.map_some, recvResult_of_fails hzero, hoff]
        rfl
      · exact absurd ⟨e, c, hrun, hzero, heof⟩ hnot

end Recv

/-! ## Downloads -/

/-- The last call of a loop that returned has returned no bytes. -/
theorem retrieve_ok {policy : DownloadPolicy} : ∀ {inputs : List RecvInput} {s s' : DownloadState}
    {calls : List RecvCall}, retrieve policy inputs s = some (.ok (), s', calls) →
      ∃ call c, calls.getLast? = some call ∧
        recv policy.suppressRaggedEofs policy.chunkSize.1 call.1 call.2 = some (.ok [], c) := by
  intro inputs
  induction inputs with
  | nil =>
    intro s s' calls h
    cases h
  | cons input rest ih =>
    intro s s' calls h
    rw [retrieve] at h
    split at h
    · cases h
    · obtain ⟨⟨result, c⟩, hrecv, h⟩ := Option.bind_eq_some_iff.mp h
      cases result with
      | error e => cases h
      | ok chunk =>
        dsimp only at h
        split at h
        · cases h
        · split at h
          · rename_i hempty
            cases h
            exact ⟨_, c, rfl, hempty ▸ hrecv⟩
          · split at h
            · cases h
            · obtain ⟨⟨result, s₁, calls'⟩, hrest, heq⟩ := Option.map_eq_some_iff.mp h
              cases heq
              obtain ⟨call, c', hlast, hcall⟩ := ih hrest
              refine ⟨call, c', ?_, hcall⟩
              rw [List.getLast?_cons, hlast]
              rfl

/-- Every call of a download is sound, and its result stands for data that have ended. -/
structure DownloadSound (d : Download) : Prop where
  calls : ∀ result calls, d.sync = some (result, calls) →
    ∀ call ∈ calls, RecvSound d.policy.suppressRaggedEofs d.policy.chunkSize.1 call
  result : ∀ length total calls, d.sync = some (.ok (length, total), calls) →
    ∃ call, calls.getLast? = some call ∧ DataEnded call

/-- **A download ends its data only where they have ended exactly if no call of `recv` meets another
`SSLError` while ragged ends are suppressed.** -/
theorem downloadSound_iff (d : Download) :
    DownloadSound d ↔ d.policy.suppressRaggedEofs = false ∨
      ∀ result calls, d.sync = some (result, calls) → ∀ call ∈ calls, ¬Fails call := by
  have hpos : (0 : Int) < d.policy.chunkSize.1 := by
    have := d.policy.chunkSize.2.1
    omega
  constructor
  · intro h
    by_cases hoff : d.policy.suppressRaggedEofs = false
    · exact .inl hoff
    · exact .inr fun result calls hsync call hcall =>
        ((recvSound_iff hpos).mp (h.calls result calls hsync call hcall)).resolve_left hoff
  · intro h
    have hcalls : ∀ result calls, d.sync = some (result, calls) →
        ∀ call ∈ calls, RecvSound d.policy.suppressRaggedEofs d.policy.chunkSize.1 call := by
      intro result calls hsync call hcall
      exact (recvSound_iff hpos).mpr (h.imp id fun hnot => hnot result calls hsync call hcall)
    refine ⟨hcalls, fun length total calls hsync => ?_⟩
    have hsound := hcalls _ _ hsync
    rw [Download.sync] at hsync
    split at hsync
    · cases hsync
    · obtain ⟨⟨result, s, calls'⟩, hretrieve, heq⟩ := Option.map_eq_some_iff.mp hsync
      obtain ⟨hresult, hcalls'⟩ := Prod.mk.inj heq
      dsimp only at hresult hcalls'
      subst hcalls'
      cases result with
      | error e => cases hresult
      | ok =>
        obtain ⟨call, c, hlast, hrecv⟩ := retrieve_ok hretrieve
        exact ⟨call, hlast, (hsound call (List.mem_of_getLast? hlast)).empty c hrecv⟩

/-- A record that does not decrypt behind the first chunk: the download returns what came before. -/
def truncatedDownload : Download where
  policy :=
    { chunkSize := ⟨65536, by decide⟩
      maximumPayloadBytes := 1000
      suppressRaggedEofs := true }
  before := [.ok ()]
  channel := ⟨⟨0, 0, 0, none⟩, false⟩
  inputs :=
    [⟨false, [⟨.ok [104, 105], 0, [], none⟩], false, true⟩,
      ⟨false, [⟨.error .other, 0, [], none⟩], false, true⟩]
  after := [.ok ()]

theorem truncated_download_returns : ∃ calls,
    truncatedDownload.sync = some (.ok (2, 2), calls) ∧
      ∀ call, calls.getLast? = some call → ¬DataEnded call := by
  refine ⟨_, rfl, ?_⟩
  rintro call hlast ⟨result, c, hrun, hended⟩
  cases hlast
  cases hrun
  rcases hended with (hnotified | hnotified) | (hended | hended)
  · cases hnotified
  · cases hnotified
  · cases hended
  · cases hended

end Makolet.Downloads
