import Makolet.Lib.Stateful
import Makolet.Sources.Identity

/-!
# HTTP transfers

`HttpTransferMeter`, `resolve_http_target`, `send_pinned_request`, `_open_validated_response` and
`iter_raw` of `adapters/download/http.py`, for one download. What the resolver, the HTTP client and
the body of the response answer is given beforehand; the requests, the operations on the meter and
the chunks that are yielded are recorded, so that what holds of them holds whatever is answered.

The URLs of the HTTP client and the addresses of `ipaddress` are parameters.
-/

set_option autoImplicit false

namespace Makolet.Downloads.Http

open Makolet.Domain Makolet.Lib

abbrev Text := List Char

/-! ## The meter -/

def httpControlBytesPerAttempt : Nat := 128 * 1024

def httpDnsControlBytesPerLookup : Nat := 64 * 1024

def maximumHttpResolvedAddresses : Nat := 4

def maximumHttpRedirects : Nat := 3

def maximumTransferChunkBytes : Nat := 64 * 1024

structure HttpTransferMeter where
  maximumBytes : Nat
  wireBytes : Nat := 0
  controlEstimate : Nat := 0
  payloadBytes : Nat := 0
  accountedBytes : Nat := 0
  currentAttemptControl : Nat := 0
  deriving DecidableEq, Repr

/-- An operation on the meter. -/
inductive MeterOperation
  | beginAttempt
  | beginDnsLookup
  | recordWire (byteCount : Nat)
  | recordPayload (byteCount : Nat)
  | recordResponseControl (byteCount : Nat)
  deriving DecidableEq, Repr

namespace HttpTransferMeter

/-- `_commit`, with the transferred bytes of the limit error where it raises one. -/
def commit (m : HttpTransferMeter) : HttpTransferMeter × Option Nat :=
  let accountedBytes := max m.wireBytes (m.controlEstimate + m.payloadBytes)
  ({ m with accountedBytes },
    if m.maximumBytes < accountedBytes then some accountedBytes else none)

def beginAttempt (m : HttpTransferMeter) : HttpTransferMeter × Option Nat :=
  let proposedControl := m.controlEstimate + httpControlBytesPerAttempt
  let proposedTotal := max m.wireBytes (proposedControl + m.payloadBytes)
  if m.maximumBytes < proposedTotal then (m, some m.accountedBytes)
  else { m with
    controlEstimate := proposedControl
    currentAttemptControl := httpControlBytesPerAttempt }.commit

def beginDnsLookup (m : HttpTransferMeter) : HttpTransferMeter × Option Nat :=
  let proposedControl := m.controlEstimate + httpDnsControlBytesPerLookup
  let proposedTotal := max m.wireBytes (proposedControl + m.payloadBytes)
  if m.maximumBytes < proposedTotal then (m, some m.accountedBytes)
  else { m with controlEstimate := proposedControl }.commit

def recordWire (m : HttpTransferMeter) (byteCount : Nat) : HttpTransferMeter × Option Nat :=
  { m with wireBytes := m.wireBytes + byteCount }.commit

def recordPayload (m : HttpTransferMeter) (byteCount : Nat) : HttpTransferMeter × Option Nat :=
  { m with payloadBytes := m.payloadBytes + byteCount }.commit

def recordResponseControl (m : HttpTransferMeter) (byteCount : Nat) :
    HttpTransferMeter × Option Nat :=
  if m.currentAttemptControl < byteCount then
    { m with
      currentAttemptControl := byteCount
      controlEstimate := m.controlEstimate + (byteCount - m.currentAttemptControl) }.commit
  else (m, none)

end HttpTransferMeter

namespace MeterOperation

def apply : MeterOperation → HttpTransferMeter → HttpTransferMeter × Option Nat
  | beginAttempt, m => m.beginAttempt
  | beginDnsLookup, m => m.beginDnsLookup
  | recordWire byteCount, m => m.recordWire byteCount
  | recordPayload byteCount, m => m.recordPayload byteCount
  | recordResponseControl byteCount, m => m.recordResponseControl byteCount

/-- The bytes on the wire that an operation counts. -/
def wire : MeterOperation → Nat
  | recordWire byteCount => byteCount
  | _ => 0

/-- The bytes of the body that an operation counts. -/
def payload : MeterOperation → Nat
  | recordPayload byteCount => byteCount
  | _ => 0

/-- The control bytes that an operation estimates, beside what its attempt has estimated. -/
def control : MeterOperation → Nat → Nat
  | beginAttempt, _ => httpControlBytesPerAttempt
  | beginDnsLookup, _ => httpDnsControlBytesPerLookup
  | recordResponseControl byteCount, attemptControl => byteCount - attemptControl
  | _, _ => 0

/-- What the attempt has estimated behind an operation. -/
def attemptControl : MeterOperation → Nat → Nat
  | beginAttempt, _ => httpControlBytesPerAttempt
  | recordResponseControl byteCount, attemptControl => max attemptControl byteCount
  | _, attemptControl => attemptControl

/-- What an operation adds to the counters. -/
def increment : MeterOperation → HttpTransferMeter → Nat
  | beginAttempt, _ => httpControlBytesPerAttempt
  | beginDnsLookup, _ => httpDnsControlBytesPerLookup
  | recordWire byteCount, _ => byteCount
  | recordPayload byteCount, _ => byteCount
  | recordResponseControl byteCount, m => byteCount - m.currentAttemptControl

/-- The length of the chunk that an operation counts. -/
def chunkLength : MeterOperation → Option Nat
  | recordPayload byteCount => some byteCount
  | _ => none

end MeterOperation

/-- An operation as it was made. -/
structure Charge where
  operation : MeterOperation
  before : HttpTransferMeter
  after : HttpTransferMeter
  limitError : Option Nat
  deriving DecidableEq, Repr

/-! ## What the transfer is given -/

/-- What is raised: `httpx.TransportError`, the cancellation of a deadline, or an error. -/
inductive Raised
  | transport
  | cancelled
  | failure (f : Failure)
  deriving DecidableEq, Repr

/-- The URLs of the HTTP client; `copy_with(host=...)` changes the host only. -/
structure UrlRules (Url : Type) where
  parse : Text → Except Raised Url
  scheme : Url → Text
  host : Url → Text
  port : Url → Option Nat
  hasUserinfo : Url → Bool
  join : Url → Text → Except Raised Url
  withHost : Url → Text → Url
  host_withHost : ∀ url host', host (withHost url host') = host'
  scheme_withHost : ∀ url host', scheme (withHost url host') = scheme url
  port_withHost : ∀ url host', port (withHost url host') = port url

/-- `ipaddress.ip_address`, `is_global` and `str`. -/
structure AddressRules (Address : Type) where
  parse : Text → Option Address
  isGlobal : Address → Bool
  text : Address → Text

/-- What a response tells; `controlBytes` is `_response_control_bytes`. -/
structure Response where
  statusCode : Nat
  isRedirect : Bool
  location : Option Text
  contentLength : Option Text
  controlBytes : Nat
  deriving DecidableEq, Repr

/-- One call of `client.send`: the raw bytes that it moves, and what it returns or raises. -/
structure Attempt where
  wire : List Nat
  outcome : Except Raised Response

inductive BodyEvent
  | wire (byteCount : Nat)
  | chunk (raw : List UInt8)

/-- The answers, by the number of the redirect and of the address. -/
structure Answers where
  resolve : Nat → Text → Int → Except Raised (List Text)
  attempt : Nat → Nat → Attempt
  body : List BodyEvent
  bodyEnd : Option Raised

/-- `RemoteAccessPolicy`. -/
structure RemoteAccessPolicy where
  allowedHosts : List Text
  redirectHosts : List Text
  allowedSchemes : List Text
  allowedPorts : List Nat
  maximumRedirects : Nat
  maximumResponseBytes : Nat
  hosts_ne : allowedHosts ≠ []
  schemes_ne : allowedSchemes ≠ []
  schemes_http : ∀ scheme ∈ allowedSchemes, scheme = "http".toList ∨ scheme = "https".toList
  ports_ne : allowedPorts ≠ []
  ports_range : ∀ port ∈ allowedPorts, 1 ≤ port ∧ port ≤ 65535
  redirects_le : maximumRedirects ≤ maximumHttpRedirects
  response_pos : 0 < maximumResponseBytes

/-- The hosts that a request may go to, by the number of the redirect. -/
def RemoteAccessPolicy.hostsAt (policy : RemoteAccessPolicy) : Nat → List Text
  | 0 => policy.allowedHosts
  | _ + 1 => if policy.redirectHosts = [] then policy.allowedHosts else policy.redirectHosts

/-! ## The transfer -/

/-- A request as it is sent, with the number of the redirect and of the address. -/
structure PinnedRequest (Url : Type) where
  hop : Nat
  index : Nat
  url : Url
  hostname : Text
  hostHeader : Text
  sniHostname : Option Text

/-- What has been done so far. -/
structure Transfer (Url : Type) where
  meter : HttpTransferMeter
  charges : List Charge := []
  sent : List (PinnedRequest Url) := []
  yielded : List (List UInt8) := []
  iterated : Bool := false

structure ResolvedHttpTarget (Url : Type) where
  logicalUrl : Url
  hostname : Text
  port : Int
  addresses : List Text

def sourceAccess (message : String) : Raised := .failure ⟨.sourceAccess, message, 0⟩

def sourceResponse (message : String) : Raised := .failure ⟨.sourceResponse, message, 0⟩

def unsafeRemote (message : String) : Raised := .failure ⟨.unsafeRemote, message, 0⟩

def ofExcept {σ α : Type} : Except Raised α → EStateM Raised σ α
  | .ok a => pure a
  | .error e => throw e

section Transfers

variable {Url Address : Type} (urls : UrlRules Url) (addresses : AddressRules Address)
  (text : TextRules) (parseInt : Text → Option Int)

/-- An operation on the meter; a limit error is raised behind it. -/
def charge (operation : MeterOperation) : EStateM Raised (Transfer Url) Unit := fun s =>
  let applied := operation.apply s.meter
  let s' := { s with
    meter := applied.1
    charges := s.charges ++ [⟨operation, s.meter, applied.1, applied.2⟩] }
  match applied.2 with
  | none => .ok () s'
  | some transferred =>
    .error (.failure ⟨.downloadLimit, "HTTP transfer exceeds " ++
      toString s.meter.maximumBytes ++ " charged bytes", transferred⟩) s'

/-- `_default_port_for_scheme`. -/
def defaultPortForScheme (scheme : Text) : Int :=
  if scheme = "https".toList then 443 else if scheme = "http".toList then 80 else -1

/-- The loop of `resolve_http_target` over the addresses. -/
def validateAddresses : List Text → List Text → Except Raised (List Text)
  | validated, [] => .ok validated
  | validated, address :: rest =>
    match addresses.parse address with
    | none => .error (unsafeRemote "Hostname resolver returned an invalid address")
    | some parsed =>
      if addresses.isGlobal parsed then
        if addresses.text parsed ∈ validated then validateAddresses validated rest
        else if maximumHttpResolvedAddresses < validated.length + 1 then
          .error (unsafeRemote "Public source hostname resolved to too many addresses")
        else validateAddresses (validated ++ [addresses.text parsed]) rest
      else .error (unsafeRemote "Public source hostname resolved to a non-public address")

/-- `resolve_http_target`. -/
def resolveHttpTarget (policy : RemoteAccessPolicy)
    (resolve : Text → Int → Except Raised (List Text)) (url : Url) (allowedHosts : List Text) :
    Except Raised (ResolvedHttpTarget Url) := do
  let scheme := text.casefold (urls.scheme url)
  let host := Sources.normalizedHost text (urls.host url)
  let defaultPort := defaultPortForScheme scheme
  let port := ((urls.port url).map Int.ofNat).getD defaultPort
  require (scheme ∈ policy.allowedSchemes ∧ host ∈ allowedHosts.map (Sources.normalizedHost text))
    (unsafeRemote "Discovered URL is outside the configured source allowlist")
  require (urls.hasUserinfo url = false ∧ port = defaultPort ∧
      port ∈ policy.allowedPorts.map Int.ofNat)
    (unsafeRemote "Discovered URL contains credentials or a disallowed port")
  let answers ← resolve host port
  require (answers ≠ []) (sourceAccess "Public source hostname resolved to no addresses")
  let validated ← validateAddresses addresses [] answers
  pure ⟨url, host, port, validated⟩

/-- `_logical_authority`. -/
def logicalAuthority (target : ResolvedHttpTarget Url) : Text :=
  let hostname := if ':' ∈ target.hostname then '[' :: target.hostname ++ [']'] else target.hostname
  let defaultPort : Int :=
    if text.casefold (urls.scheme target.logicalUrl) = "https".toList then 443 else 80
  if target.port = defaultPort then hostname
  else hostname ++ ':' :: (toString target.port).toList

/-- The request to one address. -/
def pinnedRequest (hop index : Nat) (target : ResolvedHttpTarget Url) (address : Text) :
    PinnedRequest Url where
  hop := hop
  index := index
  url := urls.withHost target.logicalUrl address
  hostname := target.hostname
  hostHeader := logicalAuthority urls text target
  sniHostname :=
    if text.casefold (urls.scheme target.logicalUrl) = "https".toList then some target.hostname
    else none

/-- The loop of `send_pinned_request`; `failed` says that `last_error` is set. -/
def sendEach (hop : Nat) (target : ResolvedHttpTarget Url) (attempt : Nat → Attempt) :
    Nat → Bool → List Text → EStateM Raised (Transfer Url) Response
  | _, failed, [] =>
    if failed then throw .transport
    else throw (sourceAccess "Public source hostname resolved to no usable addresses")
  | index, _, address :: rest => do
    charge .beginAttempt
    modify fun s : Transfer Url =>
      { s with sent := s.sent ++ [pinnedRequest urls text hop index target address] }
    (attempt index).wire.forM fun byteCount => charge (.recordWire byteCount)
    match (attempt index).outcome with
    | .error .transport => sendEach hop target attempt (index + 1) true rest
    | .error e => throw e
    | .ok response => do
      charge (.recordResponseControl response.controlBytes)
      pure response

/-- `send_pinned_request`. -/
def sendPinnedRequest (hop : Nat) (target : ResolvedHttpTarget Url) (attempt : Nat → Attempt) :
    EStateM Raised (Transfer Url) Response :=
  sendEach urls text hop target attempt 0 false target.addresses

def raiseForStatus (statusCode : Nat) : Except Raised Unit :=
  if statusCode = 200 then .ok ()
  else if statusCode ∈ [401, 403] then
    .error (.failure ⟨.sourceBlocked, "Public source denied access", 0⟩)
  else if statusCode ∈ [408, 425, 429] ∨ 500 ≤ statusCode then
    .error (sourceAccess ("Public source returned transient HTTP status " ++ toString statusCode))
  else .error (sourceResponse ("Public source returned HTTP status " ++ toString statusCode))

/-- `_parse_content_length`. -/
def parseContentLength : Option Text → Except Raised (Option Nat)
  | none => .ok none
  | some value =>
    match parseInt value with
    | none => .error (sourceResponse "Response Content-Length is invalid")
    | some parsed =>
      if parsed < 0 then .error (sourceResponse "Response Content-Length is negative")
      else .ok (some parsed.toNat)

def validateDeclaredLength (value : Option Text) (maximumResponseBytes transferredBytes : Nat) :
    Except Raised Unit := do
  let parsed ← parseContentLength parseInt value
  require (∀ declared ∈ parsed, declared ≤ maximumResponseBytes)
    (.failure ⟨.downloadLimit, "Response declares more than " ++ toString maximumResponseBytes ++
      " downloaded bytes", transferredBytes⟩)

def HttpTransferMeter.remainingBytes (m : HttpTransferMeter) : Nat :=
  m.maximumBytes - m.accountedBytes

/-- A transport error of the request is a `SourceAccessError`. -/
def requestFailed (message : String) : Raised → Transfer Url → Raised
  | .transport, s => .failure ⟨.sourceAccess, message, s.meter.accountedBytes⟩
  | e, _ => e

/-- The errors carry what has been transferred. -/
def withTransferredBytes : Raised → Transfer Url → Raised
  | .failure f, s =>
    if f.kind.isMakolet then
      .failure { f with transferredBytes := max f.transferredBytes s.meter.accountedBytes }
    else .failure f
  | e, _ => e

/-- The loop of `_open_validated_response`, with the redirects that are left. -/
def followRedirects (policy : RemoteAccessPolicy) (answers : Answers) :
    Nat → Nat → Url → EStateM Raised (Transfer Url) Response
  | left, hop, url => do
    charge .beginDnsLookup
    let target ← ofExcept (resolveHttpTarget urls addresses text policy (answers.resolve hop) url
      (policy.hostsAt hop))
    let response ← raiseAs (requestFailed "Public source request failed")
      (sendPinnedRequest urls text hop target (answers.attempt hop))
    if response.isRedirect then
      match left with
      | 0 => throw (unsafeRemote "Public source exceeded its redirect limit")
      | left + 1 => do
        let location := response.location.getD []
        if location = [] then throw (sourceResponse "Redirect response omitted Location")
        else do
          let url ← ofExcept (urls.join target.logicalUrl location)
          followRedirects policy answers left (hop + 1) url
    else do
      ofExcept (raiseForStatus response.statusCode)
      let s ← get
      ofExcept (validateDeclaredLength parseInt response.contentLength
        (min policy.maximumResponseBytes s.meter.remainingBytes) s.meter.accountedBytes)
      pure response

/-- `_open_validated_response`. -/
def openValidatedResponse (policy : RemoteAccessPolicy) (answers : Answers) (rawUrl : Text) :
    EStateM Raised (Transfer Url) Response := do
  let url ← ofExcept (urls.parse rawUrl)
  raiseAs withTransferredBytes
    (followRedirects urls addresses text parseInt policy answers policy.maximumRedirects 0 url)

/-- The pieces of a raw chunk. -/
def pieces (raw : List UInt8) : List (List UInt8) :=
  (List.range ((raw.length + maximumTransferChunkBytes - 1) / maximumTransferChunkBytes)).map
    fun i => (raw.drop (i * maximumTransferChunkBytes)).take maximumTransferChunkBytes

def responseExceeds (maximumResponseBytes transferredBytes : Nat) : Raised :=
  .failure ⟨.downloadLimit,
    "Response exceeds " ++ toString maximumResponseBytes ++ " downloaded bytes", transferredBytes⟩

/-- A limit error of the meter is told as one of the response, where the response is too long. -/
def overLimit (maximumResponseBytes iteratedBytes : Nat) : Raised → Transfer Url → Raised
  | .failure f, _ =>
    if f.kind = .downloadLimit ∧ maximumResponseBytes < iteratedBytes then
      responseExceeds maximumResponseBytes f.transferredBytes
    else .failure f
  | e, _ => e

/-- The inner loop of `iter_raw`, which returns `_iterated_bytes`. -/
def iterPieces (maximumResponseBytes : Nat) :
    List (List UInt8) → Nat → EStateM Raised (Transfer Url) Nat
  | [], iteratedBytes => pure iteratedBytes
  | chunk :: rest, iteratedBytes => do
    let iteratedBytes := iteratedBytes + chunk.length
    raiseAs (overLimit maximumResponseBytes iteratedBytes) (charge (.recordPayload chunk.length))
    let s ← get
    if maximumResponseBytes < iteratedBytes then
      throw (responseExceeds maximumResponseBytes s.meter.accountedBytes)
    else do
      modify fun s : Transfer Url => { s with yielded := s.yielded ++ [chunk] }
      iterPieces maximumResponseBytes rest iteratedBytes

/-- The outer loop of `iter_raw`. -/
def iterBody (maximumResponseBytes : Nat) :
    List BodyEvent → Nat → EStateM Raised (Transfer Url) Nat
  | [], iteratedBytes => pure iteratedBytes
  | .wire byteCount :: rest, iteratedBytes => do
    charge (.recordWire byteCount)
    iterBody maximumResponseBytes rest iteratedBytes
  | .chunk raw :: rest, iteratedBytes => do
    let iteratedBytes ← iterPieces maximumResponseBytes (pieces raw) iteratedBytes
    iterBody maximumResponseBytes rest iteratedBytes

/-- `iter_raw`. -/
def iterRaw (maximumResponseBytes : Nat) (response : Response) (answers : Answers) :
    EStateM Raised (Transfer Url) Unit := do
  let s ← get
  if s.iterated then throw (sourceResponse "A download response can only be consumed once")
  else do
    modify fun s : Transfer Url => { s with iterated := true }
    let iteratedBytes ← iterBody maximumResponseBytes answers.body 0
    match answers.bodyEnd with
    | some .transport => do
      let s ← get
      throw (.failure ⟨.sourceAccess, "Public source response failed while streaming",
        s.meter.accountedBytes⟩)
    | some e => throw e
    | none => do
      let declaredLength ← ofExcept (parseContentLength parseInt response.contentLength)
      let s ← get
      if ∀ declared ∈ declaredLength, declared = iteratedBytes then pure ()
      else throw (.failure ⟨.sourceResponse,
        "Downloaded response ended before its declared content length", s.meter.accountedBytes⟩)

/-- One download whose chunks are all consumed. -/
def download (policy : RemoteAccessPolicy) (answers : Answers) (rawUrl : Text) :
    EStateM Raised (Transfer Url) Response := do
  let response ← openValidatedResponse urls addresses text parseInt policy answers rawUrl
  let s ← get
  iterRaw parseInt (min policy.maximumResponseBytes s.meter.remainingBytes) response answers
  pure response

end Transfers

/-! ## The meter is balanced -/

/-- What has been transferred is the larger of the two counts. -/
def HttpTransferMeter.Balanced (m : HttpTransferMeter) : Prop :=
  m.accountedBytes = max m.wireBytes (m.controlEstimate + m.payloadBytes)

/-- What an operation on a balanced meter does. -/
structure Applied (operation : MeterOperation) (m m' : HttpTransferMeter)
    (limitError : Option Nat) : Prop where
  balanced : m'.Balanced
  le : m.accountedBytes ≤ m'.accountedBytes
  maximum : m'.maximumBytes = m.maximumBytes
  increment_le : m'.accountedBytes ≤ m.accountedBytes + operation.increment m
  within : limitError = none → m.accountedBytes ≤ m.maximumBytes →
    m'.accountedBytes ≤ m.maximumBytes
  told : ∀ transferred ∈ limitError, transferred = m'.accountedBytes

/-- A commit after the counters have grown by no more than the increment. -/
theorem applied_commit {operation : MeterOperation} {m grown : HttpTransferMeter}
    (h : m.Balanced) (hmaximum : grown.maximumBytes = m.maximumBytes)
    (hwire : m.wireBytes ≤ grown.wireBytes)
    (htotal : m.controlEstimate + m.payloadBytes ≤ grown.controlEstimate + grown.payloadBytes)
    (hwire_le : grown.wireBytes ≤ m.wireBytes + operation.increment m)
    (htotal_le : grown.controlEstimate + grown.payloadBytes ≤
      m.controlEstimate + m.payloadBytes + operation.increment m) :
    Applied operation m grown.commit.1 grown.commit.2 := by
  rw [HttpTransferMeter.Balanced] at h
  refine ⟨rfl, ?_, hmaximum, ?_, ?_, ?_⟩
  · show m.accountedBytes ≤ max grown.wireBytes (grown.controlEstimate + grown.payloadBytes)
    omega
  · show max grown.wireBytes (grown.controlEstimate + grown.payloadBytes) ≤ _
    omega
  · intro hnone _
    show max grown.wireBytes (grown.controlEstimate + grown.payloadBytes) ≤ m.maximumBytes
    by_contra hover
    rw [HttpTransferMeter.commit, if_pos (by rw [hmaximum]; omega)] at hnone
    cases hnone
  · intro transferred htransferred
    rw [HttpTransferMeter.commit] at htransferred
    dsimp only at htransferred
    split_ifs at htransferred
    · exact (Option.some.inj htransferred).symm
    · cases htransferred

/-- A meter that is left as it is. -/
theorem applied_unchanged {operation : MeterOperation} {m : HttpTransferMeter} (h : m.Balanced)
    {limitError : Option Nat} (htold : ∀ transferred ∈ limitError, transferred = m.accountedBytes) :
    Applied operation m m limitError :=
  ⟨h, Nat.le_refl _, rfl, Nat.le_add_right _ _, fun _ hle => hle, htold⟩

theorem apply_applied (operation : MeterOperation) {m : HttpTransferMeter} (h : m.Balanced) :
    Applied operation m (operation.apply m).1 (operation.apply m).2 := by
  cases operation with
  | beginAttempt =>
    rw [MeterOperation.apply, HttpTransferMeter.beginAttempt]
    split
    · exact applied_unchanged h fun _ htransferred => (Option.some.inj htransferred).symm
    · apply applied_commit h <;> simp only [MeterOperation.increment] <;> omega
  | beginDnsLookup =>
    rw [MeterOperation.apply, HttpTransferMeter.beginDnsLookup]
    split
    · exact applied_unchanged h fun _ htransferred => (Option.some.inj htransferred).symm
    · apply applied_commit h <;> simp only [MeterOperation.increment] <;> omega
  | recordWire byteCount =>
    apply applied_commit h <;> simp [MeterOperation.increment]
  | recordPayload byteCount =>
    apply applied_commit h <;> simp only [MeterOperation.increment] <;> omega
  | recordResponseControl byteCount =>
    rw [MeterOperation.apply, HttpTransferMeter.recordResponseControl]
    split
    · apply applied_commit h <;> simp only [MeterOperation.increment] <;> omega
    · exact applied_unchanged h fun _ htransferred => by cases htransferred

/-- What an operation counts, and when it meets the limit. -/
structure Counted (operation : MeterOperation) (m m' : HttpTransferMeter)
    (limitError : Option Nat) : Prop where
  wire : m'.wireBytes = m.wireBytes + operation.wire
  payload : m'.payloadBytes = m.payloadBytes + operation.payload
  control : limitError = none →
    m'.controlEstimate = m.controlEstimate + operation.control m.currentAttemptControl
  attemptControl : limitError = none →
    m'.currentAttemptControl = operation.attemptControl m.currentAttemptControl
  limited : m.Balanced → m.accountedBytes ≤ m.maximumBytes →
    (limitError = none ↔ max (m.wireBytes + operation.wire)
      (m.controlEstimate + operation.control m.currentAttemptControl +
        (m.payloadBytes + operation.payload)) ≤ m.maximumBytes)

theorem commit_none {m : HttpTransferMeter} :
    m.commit.2 = none ↔ max m.wireBytes (m.controlEstimate + m.payloadBytes) ≤ m.maximumBytes := by
  rw [HttpTransferMeter.commit]
  dsimp only
  split
  · exact iff_of_false (Option.some_ne_none _) (Nat.not_le.2 ‹_›)
  · exact iff_of_true rfl (Nat.le_of_not_lt ‹_›)

theorem apply_counted (operation : MeterOperation) (m : HttpTransferMeter) :
    Counted operation m (operation.apply m).1 (operation.apply m).2 := by
  cases operation with
  | beginAttempt =>
    rw [MeterOperation.apply, HttpTransferMeter.beginAttempt]
    split
    · refine ⟨rfl, rfl, fun h => (by cases h), fun h => (by cases h), fun _ _ => ?_⟩
      exact iff_of_false (Option.some_ne_none _) (Nat.not_le.2 ‹_›)
    · exact ⟨rfl, rfl, fun _ => rfl, fun _ => rfl, fun _ _ => commit_none⟩
  | beginDnsLookup =>
    rw [MeterOperation.apply, HttpTransferMeter.beginDnsLookup]
    split
    · refine ⟨rfl, rfl, fun h => (by cases h), fun h => (by cases h), fun _ _ => ?_⟩
      exact iff_of_false (Option.some_ne_none _) (Nat.not_le.2 ‹_›)
    · exact ⟨rfl, rfl, fun _ => rfl, fun _ => rfl, fun _ _ => commit_none⟩
  | recordWire byteCount =>
    exact ⟨rfl, rfl, fun _ => rfl, fun _ => rfl, fun _ _ => commit_none⟩
  | recordPayload byteCount =>
    exact ⟨rfl, rfl, fun _ => rfl, fun _ => rfl, fun _ _ => commit_none⟩
  | recordResponseControl byteCount =>
    rw [MeterOperation.apply, HttpTransferMeter.recordResponseControl]
    split
    · rename_i hlt
      exact ⟨rfl, rfl, fun _ => rfl, fun _ => (Nat.max_eq_right hlt.le).symm,
        fun _ _ => commit_none⟩
    · rename_i hle
      have hnone : byteCount - m.currentAttemptControl = 0 := by omega
      refine ⟨rfl, rfl, fun _ => ?_, fun _ => (Nat.max_eq_left (Nat.le_of_not_lt hle)).symm, ?_⟩
      · simp only [MeterOperation.control, hnone, Nat.add_zero]
      · intro hbalanced hwithin
        rw [HttpTransferMeter.Balanced] at hbalanced
        simp only [MeterOperation.control, MeterOperation.wire, MeterOperation.payload, hnone,
          Nat.add_zero, true_iff]
        omega

/-- The operations that lead from one meter to another. -/
inductive Metered : HttpTransferMeter → List Charge → HttpTransferMeter → Prop
  | nil (m : HttpTransferMeter) : Metered m [] m
  | cons {m m' : HttpTransferMeter} {rest : List Charge} (operation : MeterOperation) :
      Metered (operation.apply m).1 rest m' →
        Metered m (⟨operation, m, (operation.apply m).1, (operation.apply m).2⟩ :: rest) m'

namespace Metered

theorem snoc {m m' : HttpTransferMeter} {charges : List Charge} (h : Metered m charges m')
    (operation : MeterOperation) :
    Metered m (charges ++ [⟨operation, m', (operation.apply m').1, (operation.apply m').2⟩])
      (operation.apply m').1 := by
  induction h with
  | nil m => exact .cons operation (.nil _)
  | cons first _ ih => exact .cons first ih

/-- Before and behind an operation. -/
theorem split {m m' : HttpTransferMeter} {before after : List Charge} {c : Charge}
    (h : Metered m (before ++ c :: after) m') :
    Metered m before c.before ∧ c.after = (c.operation.apply c.before).1 ∧
      c.limitError = (c.operation.apply c.before).2 ∧ Metered c.after after m' := by
  induction before generalizing m with
  | nil =>
    cases h with
    | cons operation hrest => exact ⟨.nil m, rfl, rfl, hrest⟩
  | cons first before ih =>
    cases h with
    | cons operation hrest =>
      obtain ⟨hbefore, hafter, hlimit, htail⟩ := ih hrest
      exact ⟨.cons operation hbefore, hafter, hlimit, htail⟩

theorem balanced {m m' : HttpTransferMeter} {charges : List Charge} (h : Metered m charges m')
    (hm : m.Balanced) : m'.Balanced ∧ m'.maximumBytes = m.maximumBytes := by
  induction h with
  | nil m => exact ⟨hm, rfl⟩
  | cons operation _ ih =>
    have happlied := apply_applied operation hm
    obtain ⟨hbalanced, hmaximum⟩ := ih happlied.balanced
    exact ⟨hbalanced, hmaximum.trans happlied.maximum⟩

/-- The wire and the payload are what the operations count. -/
theorem totals {m m' : HttpTransferMeter} {charges : List Charge} (h : Metered m charges m') :
    m'.wireBytes = m.wireBytes + (charges.map (·.operation.wire)).sum ∧
      m'.payloadBytes = m.payloadBytes + (charges.map (·.operation.payload)).sum := by
  induction h with
  | nil m => exact ⟨rfl, rfl⟩
  | cons operation _ ih =>
    obtain ⟨hwire, hpayload⟩ := ih
    have hcounted := apply_counted operation
    refine ⟨?_, ?_⟩
    · rw [hwire, (hcounted _).wire, List.map_cons, List.sum_cons, Nat.add_assoc]
    · rw [hpayload, (hcounted _).payload, List.map_cons, List.sum_cons, Nat.add_assoc]

/-- Without a limit error the meter stays within the limit. -/
theorem within {m m' : HttpTransferMeter} {charges : List Charge} (h : Metered m charges m')
    (hm : m.Balanced) (hle : m.accountedBytes ≤ m.maximumBytes)
    (hnone : ∀ c ∈ charges, c.limitError = none) : m'.accountedBytes ≤ m.maximumBytes := by
  induction h with
  | nil m => exact hle
  | @cons m m' rest operation _ ih =>
    have happlied := apply_applied operation hm
    have hfirst := happlied.within (hnone _ List.mem_cons_self) hle
    have hrest := ih happlied.balanced (by rw [happlied.maximum]; exact hfirst) fun c hc =>
      hnone c (List.mem_cons_of_mem _ hc)
    rwa [happlied.maximum] at hrest

end Metered

end Makolet.Downloads.Http
