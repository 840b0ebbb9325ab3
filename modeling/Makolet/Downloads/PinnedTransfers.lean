import Makolet.Downloads.HttpTransfers

/-!
# Pinned and metered transfers

Every request of a download goes to an address that the resolver has answered, and the operations on
its meter are those of the transfer. `Charged` says which ones these are, from what the client, the
resolver and the body answer; the triples say that each step of the transfer makes its own.
-/

set_option autoImplicit false

namespace Makolet.Downloads.Http

open Makolet.Domain Makolet.Lib

/-! ## The operations of a transfer -/

/-- Of one attempt: it is begun, what it moves is counted, and the head of its response. -/
def attemptOperations (attempt : Attempt) : List MeterOperation :=
  .beginAttempt :: (attempt.wire.map .recordWire ++
    match attempt.outcome with
    | .ok response => [.recordResponseControl response.controlBytes]
    | .error _ => [])

/-- Of one hop: a lookup, and then the attempts. -/
def hopOperations (attempt : Nat → Attempt) (attempts : Nat) : List MeterOperation :=
  .beginDnsLookup :: (List.range attempts).flatMap fun index => attemptOperations (attempt index)

/-- Of the hops, by the numbers of their attempts. -/
def requestOperations (attempt : Nat → Nat → Attempt) (attempts : List Nat) :
    List MeterOperation :=
  attempts.zipIdx.flatMap fun hop => hopOperations (attempt hop.2) hop.1

/-- The attempts of the hops, by the numbers of the redirect and of the address. -/
def requestNumbers (attempts : List Nat) : List (Nat × Nat) :=
  attempts.zipIdx.flatMap fun hop => (List.range hop.1).map fun index => (hop.2, index)

def BodyEvent.operations : BodyEvent → List MeterOperation
  | wire byteCount => [.recordWire byteCount]
  | chunk raw => (pieces raw).map fun piece => .recordPayload piece.length

def BodyEvent.pieces : BodyEvent → List (List UInt8)
  | wire _ => []
  | chunk raw => Http.pieces raw

/-- Of the body: what it moves is counted, and the length of each piece. -/
def bodyOperations (body : List BodyEvent) : List MeterOperation := body.flatMap (·.operations)

def bodyPieces (body : List BodyEvent) : List (List UInt8) := body.flatMap (·.pieces)

/-- The number of a request. -/
def PinnedRequest.number {Url : Type} (request : PinnedRequest Url) : Nat × Nat :=
  (request.hop, request.index)

/-- An attempt that was begun. -/
def Charge.begins (c : Charge) : Bool :=
  decide (c.operation = .beginAttempt) && c.limitError.isNone

/-- The last operation has met the limit. -/
def Limited {Url : Type} (s : Transfer Url) : Prop :=
  ∃ c, s.charges.getLast? = some c ∧ c.limitError ≠ none

/-- The body is longer than what the response may have. -/
def Overlong {Url : Type} (raised : Option Raised) (s : Transfer Url) : Prop :=
  ∃ maximum transferred, raised = some (responseExceeds maximum transferred) ∧
    maximum < s.meter.payloadBytes

/-- Every attempt has been made to its end, and where the response was opened its body has been read
to the end. -/
structure Whole {Url : Type} (answers : Answers) (attempts : List Nat) (opened : Bool)
    (s : Transfer Url) : Prop where
  operations : s.charges.map (·.operation) = requestOperations answers.attempt attempts ++
    if opened then bodyOperations answers.body else []
  sent : s.sent.map (·.number) = requestNumbers attempts
  yielded : s.yielded = if opened then bodyPieces answers.body else []

/-- The operations are those of the transfer, in order: a lookup for each hop, an attempt for each
request, the bytes that each attempt and the body have moved, and the length of each chunk that is
yielded. They end early only where the last of them has met the limit or the body is too long. -/
structure Charged {Url : Type} (answers : Answers) (attempts : List Nat) (opened : Bool)
    (raised : Option Raised) (s : Transfer Url) : Prop where
  operations : s.charges.map (·.operation) <+: requestOperations answers.attempt attempts ++
    if opened then bodyOperations answers.body else []
  earlier : ∀ c ∈ s.charges.dropLast, c.limitError = none
  sent : s.sent.map (·.number) <+: requestNumbers attempts
  begun : s.charges.countP Charge.begins = s.sent.length
  yielded : s.yielded <+: bodyPieces answers.body
  counted : ∃ refused, (s.charges.map (·.operation)).filterMap MeterOperation.chunkLength =
    s.yielded.map List.length ++ refused ∧ refused.length ≤ 1
  complete : raised ≠ none ∧ (Limited s ∨ Overlong raised s) ∨ Whole answers attempts opened s
  returned : raised = none → opened = true

section Operations

variable {attempt : Nat → Nat → Attempt} {attempts : List Nat}

/-- A hop begins with its lookup. -/
theorem requestOperations_lookup :
    requestOperations attempt (attempts ++ [0]) =
      requestOperations attempt attempts ++ [.beginDnsLookup] := by
  simp only [requestOperations, List.zipIdx_append, List.flatMap_append]
  rfl

/-- One more attempt of the last hop. -/
theorem requestOperations_attempt (attempt : Nat → Nat → Attempt) (attempts : List Nat)
    (index : Nat) :
    requestOperations attempt (attempts ++ [index + 1]) =
      requestOperations attempt (attempts ++ [index]) ++
        attemptOperations (attempt attempts.length index) := by
  simp only [requestOperations, List.zipIdx_append, List.flatMap_append, List.zipIdx_singleton,
    List.flatMap_singleton, hopOperations, List.range_succ, Nat.zero_add, List.append_assoc,
    List.cons_append]

theorem requestNumbers_lookup : requestNumbers (attempts ++ [0]) = requestNumbers attempts := by
  simp only [requestNumbers, List.zipIdx_append, List.flatMap_append, List.zipIdx_singleton,
    List.flatMap_singleton, List.range_zero, List.map_nil, List.append_nil]

theorem requestNumbers_attempt (attempts : List Nat) (index : Nat) :
    requestNumbers (attempts ++ [index + 1]) =
      requestNumbers (attempts ++ [index]) ++ [(attempts.length, index)] := by
  simp only [requestNumbers, List.zipIdx_append, List.flatMap_append, List.zipIdx_singleton,
    List.flatMap_singleton, List.range_succ, List.map_append, List.map_singleton, Nat.zero_add,
    List.append_assoc]

/-- At most four attempts for each hop. -/
theorem length_requestNumbers_le (h : ∀ n ∈ attempts, n ≤ maximumHttpResolvedAddresses) :
    (requestNumbers attempts).length ≤ attempts.length * maximumHttpResolvedAddresses := by
  induction attempts using List.reverseRecOn with
  | nil => exact Nat.le_refl _
  | append_singleton attempts n ih =>
    have hrest := ih fun m hm => h m (List.mem_append_left _ hm)
    have hlast := h n (List.mem_append_right _ List.mem_cons_self)
    simp only [requestNumbers, List.zipIdx_append, List.flatMap_append, List.zipIdx_singleton,
      List.flatMap_singleton, List.length_append, List.length_map, List.length_range,
      List.length_singleton] at hrest ⊢
    rw [Nat.succ_mul]
    omega

/-- No request counts a chunk. -/
theorem chunkLength_of_mem_requestOperations {operation : MeterOperation}
    (h : operation ∈ requestOperations attempt attempts) : operation.chunkLength = none := by
  obtain ⟨hop, -, h⟩ := List.mem_flatMap.1 h
  rcases List.mem_cons.1 h with rfl | h
  · rfl
  · obtain ⟨index, -, h⟩ := List.mem_flatMap.1 h
    rcases List.mem_cons.1 h with rfl | h
    · rfl
    · rcases List.mem_append.1 h with h | h
      · obtain ⟨byteCount, -, rfl⟩ := List.mem_map.1 h
        rfl
      · split at h
        · rw [List.mem_singleton.1 h]
          rfl
        · cases h

theorem bodyOperations_cons (event : BodyEvent) (rest : List BodyEvent) :
    bodyOperations (event :: rest) = event.operations ++ bodyOperations rest :=
  List.flatMap_cons

theorem bodyPieces_cons (event : BodyEvent) (rest : List BodyEvent) :
    bodyPieces (event :: rest) = event.pieces ++ bodyPieces rest :=
  List.flatMap_cons

/-- The chunks of a body are what is counted of it. -/
theorem chunkLength_bodyOperations (body : List BodyEvent) :
    (bodyOperations body).filterMap MeterOperation.chunkLength =
      (bodyPieces body).map List.length := by
  induction body with
  | nil => rfl
  | cons event rest ih =>
    rw [bodyOperations_cons, bodyPieces_cons, List.filterMap_append, List.map_append, ih]
    congr 1
    cases event with
    | wire byteCount => rfl
    | chunk raw =>
      show ((pieces raw).map _).filterMap _ = (pieces raw).map List.length
      rw [List.filterMap_map]
      exact congrFun List.filterMap_eq_map (pieces raw)

end Operations

/-! ## Requests are pinned -/

section Pinned

variable {Url Address : Type} (urls : UrlRules Url) (addresses : AddressRules Address)
  (text : TextRules) (parseInt : Text → Option Int) (policy : RemoteAccessPolicy)
  (answers : Answers)

/-- A request to a global address that the resolver has answered for a host of the allowlist, under
an allowed scheme and at its default port. -/
structure Pinned (request : PinnedRequest Url) : Prop where
  host : request.hostname ∈
    (policy.hostsAt request.hop).map (Sources.normalizedHost text)
  scheme : text.casefold (urls.scheme request.url) ∈ policy.allowedSchemes
  port : ((urls.port request.url).map Int.ofNat).getD
      (defaultPortForScheme (text.casefold (urls.scheme request.url))) =
    defaultPortForScheme (text.casefold (urls.scheme request.url))
  port_allowed : defaultPortForScheme (text.casefold (urls.scheme request.url)) ∈
    policy.allowedPorts.map Int.ofNat
  address : ∃ resolved answer parsed, answers.resolve request.hop request.hostname
      (defaultPortForScheme (text.casefold (urls.scheme request.url))) = .ok resolved ∧
    answer ∈ resolved ∧ addresses.parse answer = some parsed ∧
      addresses.isGlobal parsed = true ∧ urls.host request.url = addresses.text parsed

variable {urls addresses text parseInt policy answers}

/-- Validated addresses are few, and texts of global addresses of the answer. -/
theorem validateAddresses_ok {rest validated result : List Text}
    (h : validateAddresses addresses validated rest = .ok result)
    (hlength : validated.length ≤ maximumHttpResolvedAddresses) :
    result.length ≤ maximumHttpResolvedAddresses ∧
      ∀ address ∈ result, address ∈ validated ∨ ∃ answer ∈ rest, ∃ parsed,
        addresses.parse answer = some parsed ∧ addresses.isGlobal parsed = true ∧
          address = addresses.text parsed := by
  induction rest generalizing validated with
  | nil =>
    cases h
    exact ⟨hlength, fun address haddress => Or.inl haddress⟩
  | cons answer rest ih =>
    rw [validateAddresses] at h
    cases hparsed : addresses.parse answer with
    | none =>
      rw [hparsed] at h
      cases h
    | some parsed =>
      rw [hparsed] at h
      dsimp only at h
      split_ifs at h with hglobal hknown hmany
      · obtain ⟨hresult, hmem⟩ := ih h hlength
        refine ⟨hresult, fun address haddress => ?_⟩
        rcases hmem address haddress with hold | ⟨a, ha, hrest⟩
        · exact Or.inl hold
        · exact Or.inr ⟨a, List.mem_cons_of_mem answer ha, hrest⟩
      · obtain ⟨hresult, hmem⟩ := ih h
          (by simp only [List.length_append, List.length_singleton]; omega)
        refine ⟨hresult, fun address haddress => ?_⟩
        rcases hmem address haddress with hold | ⟨a, ha, hrest⟩
        · rcases List.mem_append.1 hold with hold | hnew
          · exact Or.inl hold
          · exact Or.inr ⟨answer, List.mem_cons_self, parsed, hparsed, hglobal,
              List.mem_singleton.1 hnew⟩
        · exact Or.inr ⟨a, List.mem_cons_of_mem answer ha, hrest⟩

/-- A target that is resolved pins its requests. -/
theorem resolveHttpTarget_ok {hop : Nat} {url : Url} {target : ResolvedHttpTarget Url}
    (h : resolveHttpTarget urls addresses text policy (answers.resolve hop) url
      (policy.hostsAt hop) = .ok target) :
    target.addresses.length ≤ maximumHttpResolvedAddresses ∧
      ∀ index, ∀ address ∈ target.addresses, Pinned urls addresses text policy answers
        (pinnedRequest urls text hop index target address) := by
  obtain ⟨⟨hscheme, hhost⟩, h⟩ := require_bind_eq_ok.1 h
  obtain ⟨⟨-, hport, hallowed⟩, h⟩ := require_bind_eq_ok.1 h
  obtain ⟨resolved, hresolved, h⟩ := bind_eq_ok.1 h
  obtain ⟨-, h⟩ := require_bind_eq_ok.1 h
  obtain ⟨validated, hvalidated, h⟩ := bind_eq_ok.1 h
  cases pure_eq_ok.1 h
  obtain ⟨hlength, hmem⟩ := validateAddresses_ok hvalidated (Nat.zero_le _)
  refine ⟨hlength, fun index address haddress => ?_⟩
  rcases hmem address haddress with hnone | ⟨answer, hanswer, parsed, hparsed, hglobal, htext⟩
  · cases hnone
  · rw [hport] at hresolved hallowed
    refine ⟨hhost, ?_, ?_, ?_, resolved, answer, parsed, ?_, hanswer, hparsed, hglobal, ?_⟩
    · rwa [pinnedRequest, urls.scheme_withHost]
    · rwa [pinnedRequest, urls.scheme_withHost, urls.port_withHost]
    · rwa [pinnedRequest, urls.scheme_withHost]
    · rwa [pinnedRequest, urls.scheme_withHost]
    · rw [pinnedRequest, urls.host_withHost, htext]

/-! ## What a transfer has done -/

variable (urls addresses text policy answers)

/-- The operations that a transfer has made, all but the last without a limit error, its requests,
all of them pinned, and its chunks. -/
structure Stands (maximumBytes : Nat) (operations : List MeterOperation) (begun : Nat)
    (requests : List (Nat × Nat)) (chunks : List (List UInt8)) (s : Transfer Url) : Prop where
  metered : Metered ⟨maximumBytes, 0, 0, 0, 0, 0⟩ s.charges s.meter
  pinned : ∀ request ∈ s.sent, Pinned urls addresses text policy answers request
  operations : s.charges.map (·.operation) = operations
  earlier : ∀ c ∈ s.charges.dropLast, c.limitError = none
  begun : s.charges.countP Charge.begins = begun
  sent : s.sent.map (·.number) = requests
  yielded : s.yielded = chunks

/-- A transfer that has not met the limit. -/
structure Going (maximumBytes : Nat) (operations : List MeterOperation) (begun : Nat)
    (requests : List (Nat × Nat)) (chunks : List (List UInt8)) (s : Transfer Url) : Prop extends
    Stands urls addresses text policy answers maximumBytes operations begun requests chunks s where
  unlimited : ∀ c ∈ s.charges, c.limitError = none

/-- A transfer whose last operation has met the limit. -/
structure Halted (maximumBytes : Nat) (operations : List MeterOperation) (begun : Nat)
    (requests : List (Nat × Nat)) (chunks : List (List UInt8)) (s : Transfer Url) : Prop extends
    Stands urls addresses text policy answers maximumBytes operations begun requests chunks s where
  limited : Limited s

/-- A transfer that has made so many attempts and has read this part of the body. -/
def Read (maximumBytes : Nat) (attempts : List Nat) (done : List MeterOperation)
    (chunks : List (List UInt8)) : Transfer Url → Prop :=
  Going urls addresses text policy answers maximumBytes
    (requestOperations answers.attempt attempts ++ done) (requestNumbers attempts).length
    (requestNumbers attempts) chunks

/-- A transfer that has come to its end, or has raised this. -/
structure Ended (maximumBytes hops : Nat) (raised : Option Raised) (s : Transfer Url) : Prop where
  metered : Metered ⟨maximumBytes, 0, 0, 0, 0, 0⟩ s.charges s.meter
  pinned : ∀ request ∈ s.sent, Pinned urls addresses text policy answers request
  charged : ∃ attempts opened, attempts.length ≤ hops ∧
    (∀ n ∈ attempts, n ≤ maximumHttpResolvedAddresses) ∧ Charged answers attempts opened raised s

/-- A transfer that has ended before its body, whatever it raises. -/
def Failed (maximumBytes hops : Nat) (s : Transfer Url) : Prop :=
  ∀ raised : Raised, Ended urls addresses text policy answers maximumBytes hops (some raised) s

/-- A transfer that has opened its response after so many hops at most. -/
def Opened (maximumBytes hops : Nat) (s : Transfer Url) : Prop :=
  ∃ attempts : List Nat, (attempts.length ≤ hops ∧
      ∀ n ∈ attempts, n ≤ maximumHttpResolvedAddresses) ∧
    Read urls addresses text policy answers maximumBytes attempts [] [] s

variable {urls addresses text policy answers}

section Steps

variable {maximumBytes begun : Nat} {operations : List MeterOperation}
  {requests : List (Nat × Nat)} {chunks : List (List UInt8)}

/-- The operation is the next one, and it meets the limit or it does not. -/
theorem triple_charge (operation : MeterOperation) :
    Triple (Going urls addresses text policy answers maximumBytes operations begun requests chunks)
      (charge operation)
      (fun _ => Going urls addresses text policy answers maximumBytes (operations ++ [operation])
        (begun + if operation = .beginAttempt then 1 else 0) requests chunks)
      (fun _ => Halted urls addresses text policy answers maximumBytes (operations ++ [operation])
        begun requests chunks) := by
  intro s hs
  have hmetered := hs.metered.snoc operation
  have hoperations (c : Charge) (hc : c.operation = operation) :
      (s.charges ++ [c]).map (·.operation) = operations ++ [operation] := by
    rw [List.map_append, hs.operations, List.map_singleton, hc]
  have hearlier (c : Charge) : ∀ d ∈ (s.charges ++ [c]).dropLast, d.limitError = none := by
    rw [List.dropLast_concat]
    exact hs.unlimited
  rw [charge]
  dsimp only
  cases hlimit : (operation.apply s.meter).2 with
  | none =>
    rw [hlimit] at hmetered
    refine ⟨⟨hmetered, hs.pinned, hoperations _ rfl, hearlier _, ?_, hs.sent, hs.yielded⟩, ?_⟩
    · rw [List.countP_append, hs.begun, List.countP_singleton]
      simp only [Charge.begins, Option.isNone_none, Bool.and_true, decide_eq_true_eq]
    · intro c hc
      rcases List.mem_append.1 hc with hc | hc
      · exact hs.unlimited c hc
      · rw [List.mem_singleton.1 hc]
  | some transferred =>
    rw [hlimit] at hmetered
    refine ⟨⟨hmetered, hs.pinned, hoperations _ rfl, hearlier _, ?_, hs.sent, hs.yielded⟩,
      _, List.getLast?_concat, Option.some_ne_none _⟩
    rw [List.countP_append, hs.begun, List.countP_singleton]
    simp only [Charge.begins, Option.isNone_some, Bool.and_false, Bool.false_eq_true, if_false,
      Nat.add_zero]

/-- The bytes that are moved are charged one after the other. -/
theorem triple_recordWire {wire : List Nat} : ∀ {operations : List MeterOperation},
    Triple (Going urls addresses text policy answers maximumBytes operations begun requests chunks)
      (wire.forM fun byteCount => charge (.recordWire byteCount))
      (fun _ => Going urls addresses text policy answers maximumBytes
        (operations ++ wire.map .recordWire) begun requests chunks)
      (fun _ s => ∃ done, done <+: wire.map .recordWire ∧
        Halted urls addresses text policy answers maximumBytes (operations ++ done) begun requests
          chunks s) := by
  induction wire with
  | nil =>
    intro operations
    rw [List.map_nil, List.append_nil]
    exact Triple.pure fun s hs => hs
  | cons byteCount wire ih =>
    intro operations
    have hfirst : [MeterOperation.recordWire byteCount] <+:
        (byteCount :: wire).map .recordWire := ⟨wire.map .recordWire, rfl⟩
    refine Triple.bind ((triple_charge _).error_mono fun e s hs => ⟨_, hfirst, hs⟩) fun _ => ?_
    rw [if_neg (by simp), Nat.add_zero]
    refine ih.consequence (fun s hs => hs) (fun _ s hs => ?_) fun e s hs => ?_
    · rwa [List.append_assoc] at hs
    · obtain ⟨done, hdone, hs⟩ := hs
      rw [List.append_assoc] at hs
      exact ⟨_, (List.prefix_append_right_inj [_]).2 hdone, hs⟩

theorem triple_ofExcept {σ α : Type} {P : σ → Prop} {x : Except Raised α} :
    Triple P (ofExcept x) (fun a s => x = .ok a ∧ P s) (fun _ => P) := by
  cases x with
  | ok a => exact Triple.pure fun s hs => ⟨rfl, hs⟩
  | error e => exact Triple.throw fun s hs => hs

/-- A check of the response leaves the transfer. -/
theorem triple_check {σ α : Type} {P : σ → Prop} {E : Raised → σ → Prop} {x : Except Raised α}
    (hraised : ∀ e s, P s → E e s) : Triple P (ofExcept x) (fun _ => P) E :=
  triple_ofExcept.consequence (fun _ hs => hs) (fun _ _ hs => hs.2) hraised

section Hops

variable {attempts : List Nat} {hops : Nat}

/-- A transfer that raises before its response is opened. -/
theorem Read.failed {s : Transfer Url}
    (hs : Read urls addresses text policy answers maximumBytes attempts [] [] s)
    (hlength : attempts.length ≤ hops)
    (hmost : ∀ n ∈ attempts, n ≤ maximumHttpResolvedAddresses) :
    Failed urls addresses text policy answers maximumBytes hops s := by
  have hoperations : s.charges.map (·.operation) =
      requestOperations answers.attempt attempts ++ [] := hs.operations
  have hyielded : s.yielded = [] := hs.yielded
  refine fun raised => ⟨hs.metered, hs.pinned, attempts, false, hlength, hmost, ?_⟩
  refine ⟨hoperations ▸ List.prefix_rfl, hs.earlier, hs.sent ▸ List.prefix_rfl, ?_, ?_,
    ⟨[], ?_, ?_⟩, .inr ⟨hoperations, hs.sent, hyielded⟩, fun h => by cases h⟩
  · rw [hs.begun, ← hs.sent, List.length_map]
  · rw [hyielded]
    exact List.nil_prefix
  · rw [hoperations, hyielded, List.append_nil]
    exact List.filterMap_eq_nil_iff.2 fun _ => chunkLength_of_mem_requestOperations
  · exact Nat.zero_le 1

/-- A request that meets the limit. -/
theorem Halted.failed {s : Transfer Url}
    (hs : Halted urls addresses text policy answers maximumBytes operations requests.length requests
      [] s)
    (hoperations : operations <+: requestOperations answers.attempt attempts)
    (hrequests : requests <+: requestNumbers attempts) (hlength : attempts.length ≤ hops)
    (hmost : ∀ n ∈ attempts, n ≤ maximumHttpResolvedAddresses) :
    Failed urls addresses text policy answers maximumBytes hops s := by
  refine fun raised => ⟨hs.metered, hs.pinned, attempts, false, hlength, hmost, ?_⟩
  refine ⟨?_, hs.earlier, hs.sent ▸ hrequests, ?_, ?_, ⟨[], ?_, Nat.zero_le 1⟩,
    .inl ⟨Option.some_ne_none _, .inl hs.limited⟩, fun h => by cases h⟩
  · rw [hs.operations]
    exact hoperations.trans (List.prefix_append _ _)
  · rw [hs.begun, ← hs.sent, List.length_map]
  · rw [hs.yielded]
    exact List.nil_prefix
  · rw [hs.operations, hs.yielded]
    exact List.filterMap_eq_nil_iff.2 fun _ hoperation =>
      chunkLength_of_mem_requestOperations (hoperations.subset hoperation)

theorem le_of_mem_concat {maximum n : Nat} (hmost : ∀ m ∈ attempts, m ≤ maximum)
    (hn : n ≤ maximum) : ∀ m ∈ attempts ++ [n], m ≤ maximum := by
  intro m hm
  rcases List.mem_append.1 hm with hm | hm
  · exact hmost m hm
  · rwa [List.mem_singleton.1 hm]

theorem triple_sendEach {target : ResolvedHttpTarget Url} {rest : List Text}
    (hpinned : ∀ index, ∀ address ∈ rest, Pinned urls addresses text policy answers
      (pinnedRequest urls text attempts.length index target address))
    (hmost : ∀ n ∈ attempts, n ≤ maximumHttpResolvedAddresses)
    (hlength : attempts.length + 1 ≤ hops) :
    ∀ {index : Nat} {failed : Bool}, index + rest.length ≤ maximumHttpResolvedAddresses →
      Triple (Read urls addresses text policy answers maximumBytes (attempts ++ [index]) [] [])
        (sendEach urls text attempts.length target (answers.attempt attempts.length) index failed
          rest)
        (fun _ s => ∃ n, n ≤ maximumHttpResolvedAddresses ∧
          Read urls addresses text policy answers maximumBytes (attempts ++ [n]) [] [] s)
        (fun _ => Failed urls addresses text policy answers maximumBytes hops) := by
  have hlength' (n : Nat) : (attempts ++ [n]).length ≤ hops := by
    rwa [List.length_append, List.length_singleton]
  induction rest with
  | nil =>
    intro index failed hindex
    rw [sendEach]
    split
    · exact Triple.throw fun s hs => hs.failed (hlength' index) (le_of_mem_concat hmost hindex)
    · exact Triple.throw fun s hs => hs.failed (hlength' index) (le_of_mem_concat hmost hindex)
  | cons address rest ih =>
    intro index failed hindex
    rw [List.length_cons] at hindex
    have hnext : index + 1 ≤ maximumHttpResolvedAddresses := by omega
    have hstep := requestOperations_attempt answers.attempt attempts index
    have hnumbers := requestNumbers_attempt attempts index
    have hcount : (requestNumbers (attempts ++ [index + 1])).length =
        (requestNumbers (attempts ++ [index])).length + 1 := by
      rw [hnumbers, List.length_append, List.length_singleton]
    -- What an attempt has done before it meets the limit.
    have hhalted {s : Transfer Url} {done : List MeterOperation}
        {requests : List (Nat × Nat)}
        (hdone : done <+: attemptOperations (answers.attempt attempts.length index))
        (hrequests : requests <+: requestNumbers (attempts ++ [index + 1]))
        (hs : Halted urls addresses text policy answers maximumBytes
          (requestOperations answers.attempt (attempts ++ [index]) ++ done) requests.length requests
          [] s) : Failed urls addresses text policy answers maximumBytes hops s := by
      refine hs.failed ?_ hrequests (hlength' (index + 1)) (le_of_mem_concat hmost hnext)
      rw [hstep]
      exact (List.prefix_append_right_inj _).2 hdone
    rw [sendEach]
    refine Triple.bind (Q := fun _ => Going urls addresses text policy answers maximumBytes
      (requestOperations answers.attempt (attempts ++ [index]) ++ [.beginAttempt])
      ((requestNumbers (attempts ++ [index])).length + 1) (requestNumbers (attempts ++ [index])) [])
      ((triple_charge _).consequence (fun s hs => ?_) (fun _ s hs => hs) fun e s hs => ?_)
      fun _ => ?_
    · have hs : Going urls addresses text policy answers maximumBytes _ _ _ [] s := hs
      rwa [List.append_nil] at hs
    · exact hhalted ⟨_, rfl⟩ (hnumbers ▸ List.prefix_append _ _) hs
    -- The request is recorded.
    refine Triple.bind (Q := fun _ => Going urls addresses text policy answers maximumBytes
      (requestOperations answers.attempt (attempts ++ [index]) ++ [.beginAttempt])
      (requestNumbers (attempts ++ [index + 1])).length (requestNumbers (attempts ++ [index + 1]))
      []) (Triple.modify fun s hs => ?_) fun _ => ?_
    · refine ⟨⟨hs.metered, fun request hrequest => ?_, hs.operations, hs.earlier, ?_, ?_,
        hs.yielded⟩, hs.unlimited⟩
      · rcases List.mem_append.1 hrequest with hold | hnew
        · exact hs.pinned request hold
        · rw [List.mem_singleton.1 hnew]
          exact hpinned index address List.mem_cons_self
      · rw [hcount]
        exact hs.begun
      · rw [hnumbers, List.map_append, hs.sent]
        rfl
    -- The bytes on the wire are charged, and then the attempt has an outcome.
    refine Triple.bind (triple_recordWire.error_mono fun e s hs => ?_) fun _ => ?_
    · obtain ⟨done, hdone, hs⟩ := hs
      rw [List.append_assoc] at hs
      exact hhalted ((List.prefix_append_right_inj [_]).2 (hdone.trans (List.prefix_append _ _)))
        List.prefix_rfl hs
    have hfailed {e : Raised} {s : Transfer Url}
        (houtcome : (answers.attempt attempts.length index).outcome = .error e)
        (hs : Going urls addresses text policy answers maximumBytes
          (requestOperations answers.attempt (attempts ++ [index]) ++ [.beginAttempt] ++
            (answers.attempt attempts.length index).wire.map .recordWire)
          (requestNumbers (attempts ++ [index + 1])).length
          (requestNumbers (attempts ++ [index + 1])) [] s) :
        Read urls addresses text policy answers maximumBytes (attempts ++ [index + 1]) [] [] s := by
      rw [Read, hstep, attemptOperations, houtcome]
      simpa only [List.append_nil, List.append_assoc, List.singleton_append] using hs
    cases houtcome : (answers.attempt attempts.length index).outcome with
    | ok response =>
      refine Triple.bind (Q := fun _ => Read urls addresses text policy answers maximumBytes
        (attempts ++ [index + 1]) [] [])
        ((triple_charge _).consequence (fun s hs => hs) (fun _ s hs => ?_) fun e s hs => ?_)
        fun _ => ?_
      · rw [Read, hstep, attemptOperations, houtcome]
        simpa using hs
      · refine hhalted ?_ List.prefix_rfl (by simpa only [List.append_assoc] using hs)
        rw [attemptOperations, houtcome]
        exact List.prefix_rfl
      · exact Triple.pure fun s hs => ⟨index + 1, hnext, hs⟩
    | error e =>
      cases e with
      -- Only a transport error falls back to the next address.
      | transport =>
        have hrest := @ih (fun i a ha => hpinned i a (List.mem_cons_of_mem address ha)) (index + 1)
          true (by omega)
        exact hrest.consequence (fun s hs => hfailed houtcome hs) (fun _ s hs => hs)
          fun e s hs => hs
      | cancelled =>
        exact Triple.throw fun s hs =>
          (hfailed houtcome hs).failed (hlength' (index + 1)) (le_of_mem_concat hmost hnext)
      | failure f =>
        exact Triple.throw fun s hs =>
          (hfailed houtcome hs).failed (hlength' (index + 1)) (le_of_mem_concat hmost hnext)

/-- What comes behind a response begins after the attempts of one hop. -/
theorem triple_hop {url : Url}
    {next : ResolvedHttpTarget Url → Response → EStateM Raised (Transfer Url) Response}
    {Q : Response → Transfer Url → Prop}
    (hmost : ∀ n ∈ attempts, n ≤ maximumHttpResolvedAddresses)
    (hlength : attempts.length + 1 ≤ hops)
    (hnext : ∀ target response n, n ≤ maximumHttpResolvedAddresses →
      Triple (Read urls addresses text policy answers maximumBytes (attempts ++ [n]) [] [])
        (next target response) Q
        (fun _ => Failed urls addresses text policy answers maximumBytes hops)) :
    Triple (Read urls addresses text policy answers maximumBytes attempts [] [])
      (do
        charge .beginDnsLookup
        let target ← ofExcept (resolveHttpTarget urls addresses text policy
          (answers.resolve attempts.length) url (policy.hostsAt attempts.length))
        let response ← raiseAs (requestFailed "Public source request failed")
          (sendPinnedRequest urls text attempts.length target (answers.attempt attempts.length))
        next target response)
      Q (fun _ => Failed urls addresses text policy answers maximumBytes hops) := by
  have hzero := le_of_mem_concat hmost (Nat.zero_le maximumHttpResolvedAddresses)
  have hlength' : (attempts ++ [0]).length ≤ hops := by
    rwa [List.length_append, List.length_singleton]
  have hlookup : requestOperations answers.attempt (attempts ++ [0]) =
      requestOperations answers.attempt attempts ++ [.beginDnsLookup] := requestOperations_lookup
  refine Triple.bind (Q := fun _ =>
    Read urls addresses text policy answers maximumBytes (attempts ++ [0]) [] [])
    ((triple_charge _).consequence (fun s hs => hs) (fun _ s hs => ?_) fun e s hs => ?_)
    fun _ => ?_
  · rw [Read, hlookup, requestNumbers_lookup]
    simpa using hs
  · rw [List.append_nil] at hs
    exact hs.failed (hlookup ▸ List.prefix_rfl) (requestNumbers_lookup ▸ List.prefix_rfl) hlength'
      hzero
  refine Triple.bind (triple_ofExcept.error_mono fun e s hs => hs.failed hlength' hzero)
    fun target => Triple.of_and fun htarget => ?_
  obtain ⟨haddresses, hpinned⟩ := resolveHttpTarget_ok htarget
  refine Triple.bind (Triple.raiseAs _ (triple_sendEach hpinned hmost hlength (by omega)))
    fun response => Triple.of_exists fun n => Triple.of_and fun hn => hnext target response n hn

/-- The checks on a response that is no redirect. -/
theorem triple_accept {response : Response} (hlength : attempts.length ≤ hops)
    (hmost : ∀ n ∈ attempts, n ≤ maximumHttpResolvedAddresses) :
    Triple (Read urls addresses text policy answers maximumBytes attempts [] [])
      (do
        ofExcept (raiseForStatus response.statusCode)
        let s ← get
        ofExcept (validateDeclaredLength parseInt response.contentLength
          (min policy.maximumResponseBytes s.meter.remainingBytes) s.meter.accountedBytes)
        pure response)
      (fun _ => Read urls addresses text policy answers maximumBytes attempts [] [])
      (fun _ => Failed urls addresses text policy answers maximumBytes hops) := by
  refine Triple.bind (triple_check fun e s hs => hs.failed hlength hmost) fun _ => ?_
  refine Triple.bind (Triple.get fun s hs => hs) fun _ => ?_
  refine Triple.bind (triple_check fun e s hs => hs.failed hlength hmost) fun _ => ?_
  exact Triple.pure fun s hs => hs

/-- The redirects that are left bound the hops. -/
theorem triple_followRedirects {left : Nat} : ∀ {attempts : List Nat} {url : Url},
    (∀ n ∈ attempts, n ≤ maximumHttpResolvedAddresses) → attempts.length + left + 1 ≤ hops →
    Triple (Read urls addresses text policy answers maximumBytes attempts [] [])
      (followRedirects urls addresses text parseInt policy answers left attempts.length url)
      (fun _ => Opened urls addresses text policy answers maximumBytes hops)
      (fun _ => Failed urls addresses text policy answers maximumBytes hops) := by
  have hconcat {attempts : List Nat} (n : Nat) :
      (attempts ++ [n]).length = attempts.length + 1 := by
    rw [List.length_append, List.length_singleton]
  have haccept {attempts : List Nat} {response : Response} (hlength : attempts.length ≤ hops)
      (hmost : ∀ n ∈ attempts, n ≤ maximumHttpResolvedAddresses) :
      Triple (Read urls addresses text policy answers maximumBytes attempts [] [])
        (do
          ofExcept (raiseForStatus response.statusCode)
          let s ← get
          ofExcept (validateDeclaredLength parseInt response.contentLength
            (min policy.maximumResponseBytes s.meter.remainingBytes) s.meter.accountedBytes)
          pure response)
        (fun _ => Opened urls addresses text policy answers maximumBytes hops)
        (fun _ => Failed urls addresses text policy answers maximumBytes hops) :=
    (triple_accept hlength hmost).consequence (fun s hs => hs)
      (fun _ s hs => ⟨attempts, ⟨hlength, hmost⟩, hs⟩) fun _ s hs => hs
  -- A hop uses up a redirect; with none left a further one is refused.
  induction left with
  | zero =>
    intro attempts url hmost hlength
    rw [followRedirects]
    refine triple_hop hmost (by omega) fun target response n hn =>
      Triple.ite (fun _ => ?_) fun _ => ?_
    · exact Triple.throw fun s hs =>
        hs.failed (by rw [hconcat]; omega) (le_of_mem_concat hmost hn)
    · exact haccept (by rw [hconcat]; omega) (le_of_mem_concat hmost hn)
  | succ left ih =>
    intro attempts url hmost hlength
    rw [followRedirects]
    refine triple_hop hmost (by omega) fun target response n hn =>
      Triple.ite (fun _ => ?_) fun _ => ?_
    · have hfailed {s : Transfer Url}
          (hs : Read urls addresses text policy answers maximumBytes (attempts ++ [n]) [] [] s) :
          Failed urls addresses text policy answers maximumBytes hops s :=
        hs.failed (by rw [hconcat]; omega) (le_of_mem_concat hmost hn)
      refine Triple.ite (fun _ => Triple.throw fun s hs => hfailed hs) fun _ => ?_
      refine Triple.bind (triple_check fun e s hs => hfailed hs) fun url => ?_
      have hrest := @ih (attempts ++ [n]) url (le_of_mem_concat hmost hn) (by rw [hconcat]; omega)
      rwa [hconcat] at hrest
    · exact haccept (by rw [hconcat]; omega) (le_of_mem_concat hmost hn)

theorem triple_openValidatedResponse {rawUrl : Text} :
    Triple (Read urls addresses text policy answers maximumBytes [] [] [])
      (openValidatedResponse urls addresses text parseInt policy answers rawUrl)
      (fun _ => Opened urls addresses text policy answers maximumBytes
        (policy.maximumRedirects + 1))
      (fun _ => Failed urls addresses text policy answers maximumBytes
        (policy.maximumRedirects + 1)) := by
  have hnone : ∀ n ∈ ([] : List Nat), n ≤ maximumHttpResolvedAddresses :=
    fun _ h => absurd h List.not_mem_nil
  refine Triple.bind (triple_check fun e s hs => hs.failed (Nat.zero_le _) hnone) fun url => ?_
  refine Triple.raiseAs _ ?_
  refine triple_followRedirects hnone ?_
  rw [List.length_nil, Nat.zero_add]

end Hops

section Body

variable {attempts : List Nat} {hops maximumResponseBytes : Nat} {done : List MeterOperation}

theorem sum_payload (operations : List MeterOperation) :
    (operations.map (·.payload)).sum = (operations.filterMap MeterOperation.chunkLength).sum := by
  induction operations with
  | nil => rfl
  | cons operation rest ih =>
    rw [List.map_cons, List.sum_cons, ih]
    cases operation with
    | recordPayload byteCount => rfl
    | _ => exact Nat.zero_add _

theorem filterMap_chunkLength_append :
    (requestOperations answers.attempt attempts ++ done).filterMap MeterOperation.chunkLength =
      done.filterMap MeterOperation.chunkLength := by
  rw [List.filterMap_append,
    List.filterMap_eq_nil_iff.2 fun _ => chunkLength_of_mem_requestOperations, List.nil_append]

/-- A transfer that raises in its body. -/
theorem Stands.ended {s : Transfer Url} {raised : Raised} (refused : List Nat)
    (hs : Stands urls addresses text policy answers maximumBytes
      (requestOperations answers.attempt attempts ++ done) (requestNumbers attempts).length
      (requestNumbers attempts) chunks s)
    (hbound : attempts.length ≤ hops ∧ ∀ n ∈ attempts, n ≤ maximumHttpResolvedAddresses)
    (hdone : done <+: bodyOperations answers.body) (hchunks : chunks <+: bodyPieces answers.body)
    (hcounted : done.filterMap MeterOperation.chunkLength = chunks.map List.length ++ refused)
    (hrefused : refused.length ≤ 1)
    (hcomplete : Limited s ∨ Overlong (some raised) s ∨
      done = bodyOperations answers.body ∧ chunks = bodyPieces answers.body) :
    Ended urls addresses text policy answers maximumBytes hops (some raised) s := by
  refine ⟨hs.metered, hs.pinned, attempts, true, hbound.1, hbound.2, ?_⟩
  refine ⟨?_, hs.earlier, hs.sent ▸ List.prefix_rfl, ?_, hs.yielded ▸ hchunks,
    ⟨refused, ?_, hrefused⟩, ?_, fun h => by cases h⟩
  · rw [hs.operations]
    exact (List.prefix_append_right_inj _).2 hdone
  · rw [hs.begun, ← hs.sent, List.length_map]
  · rw [hs.operations, filterMap_chunkLength_append, hcounted, hs.yielded]
  · rcases hcomplete with hlimited | hoverlong | ⟨rfl, rfl⟩
    · exact .inl ⟨Option.some_ne_none _, .inl hlimited⟩
    · exact .inl ⟨Option.some_ne_none _, .inr hoverlong⟩
    · exact .inr ⟨hs.operations, hs.sent, hs.yielded⟩

/-- Each piece is charged, and it is yielded where the response may be so long. -/
theorem triple_iterPieces {rest : List (List UInt8)}
    (hbound : attempts.length ≤ hops ∧ ∀ n ∈ attempts, n ≤ maximumHttpResolvedAddresses) :
    ∀ {done : List MeterOperation} {chunks : List (List UInt8)},
      done ++ rest.map (fun piece => MeterOperation.recordPayload piece.length) <+:
        bodyOperations answers.body →
      chunks ++ rest <+: bodyPieces answers.body →
      done.filterMap MeterOperation.chunkLength = chunks.map List.length →
      Triple (Read urls addresses text policy answers maximumBytes attempts done chunks)
        (iterPieces maximumResponseBytes rest (chunks.map List.length).sum)
        (fun iteratedBytes s => iteratedBytes = ((chunks ++ rest).map List.length).sum ∧
          Read urls addresses text policy answers maximumBytes attempts
            (done ++ rest.map fun piece => .recordPayload piece.length) (chunks ++ rest) s)
        (fun e => Ended urls addresses text policy answers maximumBytes hops (some e)) := by
  induction rest with
  | nil =>
    intro done chunks _ _ _
    rw [List.map_nil, List.append_nil, List.append_nil]
    exact Triple.pure fun s hs => ⟨rfl, hs⟩
  | cons chunk rest ih =>
    intro done chunks hdone hchunks hcounted
    have hoperations : done ++ (chunk :: rest).map
          (fun piece => MeterOperation.recordPayload piece.length) =
        done ++ [MeterOperation.recordPayload chunk.length] ++
          rest.map fun piece => MeterOperation.recordPayload piece.length := by
      rw [List.map_cons, List.append_assoc, List.singleton_append]
    have hpieces : chunks ++ chunk :: rest = chunks ++ [chunk] ++ rest := by
      rw [List.append_assoc, List.singleton_append]
    rw [hoperations] at hdone ⊢
    rw [hpieces] at hchunks ⊢
    have hcharged : (done ++ [MeterOperation.recordPayload chunk.length]).filterMap
          MeterOperation.chunkLength =
        chunks.map List.length ++ [chunk.length] := by
      rw [List.filterMap_append, hcounted]
      rfl
    have hsum : ((chunks ++ [chunk]).map List.length).sum =
        (chunks.map List.length).sum + chunk.length := by
      rw [List.map_append, List.sum_append, List.map_singleton, List.sum_singleton]
    have hdone' := (List.prefix_append _ _).trans hdone
    have hchunks' : chunks <+: bodyPieces answers.body :=
      (List.prefix_append _ _).trans ((List.prefix_append _ _).trans hchunks)
    rw [iterPieces]
    refine Triple.bind (Triple.consequence (Triple.raiseAs _ (triple_charge _)) (fun s hs => hs)
      (fun _ s hs => hs) fun e s hs => ?_) fun _ => ?_
    · rw [List.append_assoc] at hs
      exact hs.toStands.ended _ hbound hdone' hchunks' hcharged (Nat.le_refl 1) (.inl hs.limited)
    rw [if_neg (by simp), Nat.add_zero, List.append_assoc]
    refine Triple.bind (Triple.get fun s hs => hs) fun _ => ?_
    refine Triple.ite (fun hlong => ?_) fun _ => ?_
    -- The piece that is too much is charged, and not yielded.
    · refine Triple.throw fun s hs => hs.toStands.ended _ hbound hdone' hchunks' hcharged
        (Nat.le_refl 1) (.inr (.inl ⟨_, _, rfl, ?_⟩))
      -- The meter has counted what the loop has.
      have htotal := hs.metered.totals.2
      have hpayload : s.charges.map (·.operation.payload) =
          (s.charges.map (·.operation)).map (·.payload) := by
        rw [List.map_map]
        rfl
      rw [hpayload, hs.operations, sum_payload, filterMap_chunkLength_append, hcharged,
        List.sum_append,
        List.sum_singleton, Nat.zero_add] at htotal
      rwa [htotal]
    · refine Triple.bind (Q := fun _ => Read urls addresses text policy answers maximumBytes
        attempts (done ++ [.recordPayload chunk.length]) (chunks ++ [chunk]))
        (Triple.modify fun s hs => ?_) fun _ => ?_
      · exact ⟨⟨hs.metered, hs.pinned, hs.operations, hs.earlier, hs.begun, hs.sent,
          congrArg (· ++ [chunk]) hs.yielded⟩, hs.unlimited⟩
      · rw [← hsum]
        refine ih hdone hchunks ?_
        rw [hcharged, List.map_append, List.map_singleton]

/-- The body is read to its end, or an error is raised. -/
theorem triple_iterBody {rest : List BodyEvent}
    (hbound : attempts.length ≤ hops ∧ ∀ n ∈ attempts, n ≤ maximumHttpResolvedAddresses) :
    ∀ {done : List MeterOperation} {chunks : List (List UInt8)},
      bodyOperations answers.body = done ++ bodyOperations rest →
      bodyPieces answers.body = chunks ++ bodyPieces rest →
      done.filterMap MeterOperation.chunkLength = chunks.map List.length →
      Triple (Read urls addresses text policy answers maximumBytes attempts done chunks)
        (iterBody maximumResponseBytes rest (chunks.map List.length).sum)
        (fun iteratedBytes s =>
          iteratedBytes = ((bodyPieces answers.body).map List.length).sum ∧
          Read urls addresses text policy answers maximumBytes attempts
            (bodyOperations answers.body) (bodyPieces answers.body) s)
        (fun e => Ended urls addresses text policy answers maximumBytes hops (some e)) := by
  induction rest with
  | nil =>
    intro done chunks hdone hchunks _
    rw [hdone, hchunks]
    simp only [bodyOperations, bodyPieces, List.flatMap_nil, List.append_nil]
    exact Triple.pure fun s hs => ⟨rfl, hs⟩
  | cons event rest ih =>
    intro done chunks hdone hchunks hcounted
    rw [bodyOperations_cons, ← List.append_assoc] at hdone
    rw [bodyPieces_cons, ← List.append_assoc] at hchunks
    have hdone' : done ++ event.operations <+: bodyOperations answers.body := ⟨_, hdone.symm⟩
    have hchunks' : chunks ++ event.pieces <+: bodyPieces answers.body := ⟨_, hchunks.symm⟩
    cases event with
    | wire byteCount =>
      have hpieces : chunks ++ BodyEvent.pieces (.wire byteCount) = chunks := List.append_nil _
      rw [hpieces] at hchunks
      have hcharged : (done ++ [MeterOperation.recordWire byteCount]).filterMap
            MeterOperation.chunkLength =
          chunks.map List.length := by
        rw [List.filterMap_append, hcounted]
        exact List.append_nil _
      rw [iterBody]
      refine Triple.bind ((triple_charge _).error_mono fun e s hs => ?_) fun _ => ?_
      · rw [List.append_assoc] at hs
        exact hs.toStands.ended [] hbound hdone'
          ((List.prefix_append _ _).trans hchunks') (hcharged.trans (List.append_nil _).symm)
          (Nat.zero_le 1) (.inl hs.limited)
      · rw [if_neg (by simp), Nat.add_zero, List.append_assoc]
        exact ih hdone hchunks hcharged
    | chunk raw =>
      have hcharged : (done ++ (Http.pieces raw).map fun piece =>
            MeterOperation.recordPayload piece.length).filterMap MeterOperation.chunkLength =
          (chunks ++ Http.pieces raw).map List.length := by
        rw [List.filterMap_append, hcounted, List.map_append, List.filterMap_map]
        congr 1
        exact congrFun List.filterMap_eq_map (Http.pieces raw)
      rw [iterBody]
      exact Triple.bind (triple_iterPieces hbound hdone' hchunks' hcounted) fun iteratedBytes =>
          Triple.of_and fun hiterated => hiterated ▸ ih hdone hchunks hcharged

/-- An iteration that ends normally has read the whole body, which has the declared length. -/
theorem triple_iterRaw {response : Response}
    (hbound : attempts.length ≤ hops ∧ ∀ n ∈ attempts, n ≤ maximumHttpResolvedAddresses) :
    Triple (Read urls addresses text policy answers maximumBytes attempts [] [])
      (iterRaw parseInt maximumResponseBytes response answers)
      (fun _ s => Ended urls addresses text policy answers maximumBytes hops none s ∧
        ∀ declared, parseContentLength parseInt response.contentLength = .ok (some declared) →
          (s.yielded.map List.length).sum = declared)
      (fun e => Ended urls addresses text policy answers maximumBytes hops (some e)) := by
  have hended {s : Transfer Url} (raised : Raised)
      (hs : Read urls addresses text policy answers maximumBytes attempts
        (bodyOperations answers.body) (bodyPieces answers.body) s) :
      Ended urls addresses text policy answers maximumBytes hops (some raised) s :=
    hs.toStands.ended [] hbound List.prefix_rfl List.prefix_rfl
      ((chunkLength_bodyOperations _).trans (List.append_nil _).symm) (Nat.zero_le 1)
      (.inr (.inr ⟨rfl, rfl⟩))
  refine Triple.bind (Triple.get fun s hs => hs) fun _ => ?_
  refine Triple.ite (fun _ => Triple.throw fun s hs => hs.failed hbound.1 hbound.2 _) fun _ => ?_
  refine Triple.bind (Q := fun _ =>
    Read urls addresses text policy answers maximumBytes attempts [] []) (Triple.modify fun s hs =>
      ⟨⟨hs.metered, hs.pinned, hs.operations, hs.earlier, hs.begun, hs.sent, hs.yielded⟩,
        hs.unlimited⟩) fun _ => ?_
  have hbody : Triple (Read urls addresses text policy answers maximumBytes attempts [] [])
      (iterBody maximumResponseBytes answers.body 0)
      (fun iteratedBytes s =>
        iteratedBytes = ((bodyPieces answers.body).map List.length).sum ∧
        Read urls addresses text policy answers maximumBytes attempts
          (bodyOperations answers.body) (bodyPieces answers.body) s)
      (fun e => Ended urls addresses text policy answers maximumBytes hops (some e)) :=
    triple_iterBody hbound rfl rfl rfl
  refine Triple.bind hbody fun iteratedBytes => Triple.of_and fun hiterated => ?_
  -- A body that is cut raises what cut it; a whole one is compared with its declared length.
  cases answers.bodyEnd with
  | some e =>
    cases e with
    | transport =>
      exact Triple.bind (Triple.get fun s hs => hs) fun _ => Triple.throw fun s hs => hended _ hs
    | cancelled => exact Triple.throw fun s hs => hended _ hs
    | failure f => exact Triple.throw fun s hs => hended _ hs
  | none =>
    refine Triple.bind (triple_ofExcept.error_mono fun e s hs => hended e hs) fun declaredLength =>
      Triple.of_and fun hlength => ?_
    refine Triple.bind (Triple.get fun s hs => hs) fun _ => ?_
    refine Triple.ite (fun hdeclared => Triple.pure fun s hs => ?_) fun _ =>
      Triple.throw fun s hs => hended _ hs
    refine ⟨⟨hs.metered, hs.pinned, attempts, true, hbound.1, hbound.2, ?_⟩, ?_⟩
    · refine ⟨hs.operations ▸ List.prefix_rfl, hs.earlier, hs.sent ▸ List.prefix_rfl, ?_,
        hs.yielded ▸ List.prefix_rfl, ⟨[], ?_, Nat.zero_le 1⟩,
        .inr ⟨hs.operations, hs.sent, hs.yielded⟩, fun _ => rfl⟩
      · rw [hs.begun, ← hs.sent, List.length_map]
      · rw [hs.operations, filterMap_chunkLength_append, chunkLength_bodyOperations, hs.yielded,
          List.append_nil]
    · intro declared hparsed
      rw [hlength] at hparsed
      rw [hs.yielded, ← hiterated, hdeclared declared (Except.ok.inj hparsed)]

end Body

theorem triple_download {rawUrl : Text} :
    Triple (Read urls addresses text policy answers maximumBytes [] [] [])
      (download urls addresses text parseInt policy answers rawUrl)
      (fun response s =>
        Ended urls addresses text policy answers maximumBytes (policy.maximumRedirects + 1) none s ∧
        ∀ declared, parseContentLength parseInt response.contentLength = .ok (some declared) →
          (s.yielded.map List.length).sum = declared)
      (fun e => Ended urls addresses text policy answers maximumBytes (policy.maximumRedirects + 1)
        (some e)) := by
  refine Triple.bind (triple_openValidatedResponse.error_mono fun e s hs => hs e) fun response => ?_
  refine Triple.of_exists fun attempts => Triple.of_and fun hbound => ?_
  refine Triple.bind (Triple.get fun s hs => hs) fun _ => ?_
  exact Triple.bind (triple_iterRaw hbound) fun _ => Triple.pure fun s hs => hs

end Steps

/-! ## The whole download -/

/-- A transfer before its first operation. -/
def started {Url : Type} (maximumBytes : Nat) : Transfer Url where
  meter := ⟨maximumBytes, 0, 0, 0, 0, 0⟩

/-- The state that a computation ends in. -/
def finalState {σ ε α : Type} : EStateM.Result ε σ α → σ
  | .ok _ s => s
  | .error _ s => s

/-- What a computation raises. -/
def raisedBy {σ ε α : Type} : EStateM.Result ε σ α → Option ε
  | .ok _ _ => none
  | .error e _ => some e

/-- What the meter tells around an operation: it counts what the operation is about, it does not
decrease, it is the larger of the two counts, and it is within the limit until the first limit
error. The limit is met where the counts would be beyond it, and then it is exceeded by the
increment of the operation at most. -/
structure Accounted (maximumBytes : Nat) (before : List Charge) (c : Charge) : Prop where
  counted : Counted c.operation c.before c.after c.limitError
  le : c.before.accountedBytes ≤ c.after.accountedBytes
  balanced : c.after.accountedBytes =
    max c.after.wireBytes (c.after.controlEstimate + c.after.payloadBytes)
  told : ∀ transferred ∈ c.limitError, transferred = c.after.accountedBytes
  started : (∀ d ∈ before, d.limitError = none) → c.before.accountedBytes ≤ maximumBytes
  within : (∀ d ∈ before, d.limitError = none) → c.limitError = none →
    c.after.accountedBytes ≤ maximumBytes
  limited : (∀ d ∈ before, d.limitError = none) →
    (c.limitError = none ↔ max (c.before.wireBytes + c.operation.wire)
      (c.before.controlEstimate + c.operation.control c.before.currentAttemptControl +
        (c.before.payloadBytes + c.operation.payload)) ≤ maximumBytes)
  exceeds : (∀ d ∈ before, d.limitError = none) →
    c.after.accountedBytes ≤ maximumBytes + c.operation.increment c.before

theorem Metered.accounted {maximumBytes : Nat} {charges before after : List Charge} {c : Charge}
    {m : HttpTransferMeter} (hmetered : Metered ⟨maximumBytes, 0, 0, 0, 0, 0⟩ charges m)
    (hsplit : charges = before ++ c :: after) : Accounted maximumBytes before c := by
  rw [hsplit] at hmetered
  obtain ⟨hbefore, hafter, hlimit, -⟩ := hmetered.split
  have hstart : HttpTransferMeter.Balanced ⟨maximumBytes, 0, 0, 0, 0, 0⟩ := rfl
  obtain ⟨hbalanced, hmaximum⟩ := hbefore.balanced hstart
  have hmaximum : c.before.maximumBytes = maximumBytes := hmaximum
  have happlied := apply_applied c.operation hbalanced
  have hcounted := apply_counted c.operation c.before
  rw [← hafter, ← hlimit] at happlied hcounted
  have hstarted : (∀ d ∈ before, d.limitError = none) → c.before.accountedBytes ≤ maximumBytes :=
    hbefore.within hstart (Nat.zero_le _)
  refine ⟨hcounted, happlied.le, happlied.balanced, happlied.told, hstarted, ?_, ?_, ?_⟩
  · intro hnone hlimit
    have hwithin := happlied.within hlimit (by rw [hmaximum]; exact hstarted hnone)
    rwa [hmaximum] at hwithin
  · intro hnone
    have hlimited := hcounted.limited hbalanced (by rw [hmaximum]; exact hstarted hnone)
    rwa [hmaximum] at hlimited
  · intro hnone
    have hle := happlied.increment_le
    have hbound := hstarted hnone
    omega

/-- **Whatever is answered, every request of a download is pinned to a vetted address, the requests
are few, the operations on the meter are those of the transfer, each counts what it is about and
within the limit, and a body that ends normally has the declared length.** -/
theorem http_transfer_pinned_and_metered (urls : UrlRules Url) (addresses : AddressRules Address)
    (text : TextRules) (parseInt : Text → Option Int) (policy : RemoteAccessPolicy)
    (answers : Answers) (rawUrl : Text) (maximumBytes : Nat) :
    let result := download urls addresses text parseInt policy answers rawUrl (started maximumBytes)
    let final := finalState result
    (∀ request ∈ final.sent, Pinned urls addresses text policy answers request) ∧
    final.sent.length ≤ (policy.maximumRedirects + 1) * maximumHttpResolvedAddresses ∧
    (∃ attempts opened, attempts.length ≤ policy.maximumRedirects + 1 ∧
      Charged answers attempts opened (raisedBy result) final) ∧
    Metered ⟨maximumBytes, 0, 0, 0, 0, 0⟩ final.charges final.meter ∧
    (∀ before c after, final.charges = before ++ c :: after → Accounted maximumBytes before c) ∧
    final.meter.wireBytes = (final.charges.map (·.operation.wire)).sum ∧
    final.meter.payloadBytes = (final.charges.map (·.operation.payload)).sum ∧
    ∀ response s, result = .ok response s →
      ∀ declared, parseContentLength parseInt response.contentLength = .ok (some declared) →
        (s.yielded.map List.length).sum = declared := by
  intro result final
  have hstart : Read urls addresses text policy answers maximumBytes [] [] []
      (started maximumBytes) := by
    refine ⟨⟨.nil _, ?_, rfl, ?_, rfl, rfl, rfl⟩, ?_⟩
    · exact fun _ h => absurd h List.not_mem_nil
    · exact fun _ h => absurd h List.not_mem_nil
    · exact fun _ h => absurd h List.not_mem_nil
  have htriple := @triple_download _ _ urls addresses text parseInt policy answers maximumBytes
    rawUrl
  have hended : Ended urls addresses text policy answers maximumBytes (policy.maximumRedirects + 1)
      (raisedBy result) final := by
    cases hresult : result with
    | ok response s =>
      have hfinal : final = s := congrArg finalState hresult
      rw [hfinal]
      exact (htriple.of_ok hstart hresult).1
    | error e s =>
      have hfinal : final = s := congrArg finalState hresult
      rw [hfinal]
      exact htriple.of_error hstart hresult
  obtain ⟨attempts, opened, hlength, hmost, hcharged⟩ := hended.charged
  obtain ⟨hwire, hpayload⟩ := hended.metered.totals
  refine ⟨hended.pinned, ?_, ⟨attempts, opened, hlength, hcharged⟩, hended.metered,
    fun before c after => hended.metered.accounted, hwire.trans (Nat.zero_add _),
    hpayload.trans (Nat.zero_add _), ?_⟩
  · calc final.sent.length = (final.sent.map (·.number)).length := (List.length_map _).symm
      _ ≤ (requestNumbers attempts).length := hcharged.sent.length_le
      _ ≤ attempts.length * maximumHttpResolvedAddresses := length_requestNumbers_le hmost
      _ ≤ (policy.maximumRedirects + 1) * maximumHttpResolvedAddresses :=
        Nat.mul_le_mul_right _ hlength
  · intro response s hresult
    exact (htriple.of_ok hstart hresult).2

end Pinned

/-! ## A transfer with a redirect -/

structure SampleUrl where
  scheme : Text
  host : Text
  path : Text

/-- A URL without a port or user information. -/
def sampleParse (text : Text) : Except Raised SampleUrl :=
  let scheme := text.takeWhile (· ≠ ':')
  let rest := text.drop (scheme.length + 3)
  .ok ⟨scheme, rest.takeWhile (· ≠ '/'), rest.dropWhile (· ≠ '/')⟩

def sampleUrls : UrlRules SampleUrl where
  parse := sampleParse
  scheme := SampleUrl.scheme
  host := SampleUrl.host
  port := fun _ => none
  hasUserinfo := fun _ => false
  join := fun url location =>
    if location.head? = some '/' then .ok { url with path := location } else sampleParse location
  withHost := fun url host => { url with host := host }
  host_withHost := fun _ _ => rfl
  scheme_withHost := fun _ _ => rfl
  port_withHost := fun _ _ => rfl

/-- Dotted addresses, of which those of one private network are not global. -/
def sampleAddresses : AddressRules Text where
  parse := fun text => if text.all (fun c => c.isDigit || c == '.') then some text else none
  isGlobal := fun address => decide (address.take 3 ≠ "10.".toList)
  text := fun address => address

def sampleParseInt (text : Text) : Option Int :=
  if text ≠ [] ∧ text.all Char.isDigit then
    some (Int.ofNat (text.foldl (fun n c => 10 * n + (c.toNat - '0'.toNat)) 0))
  else none

def samplePolicy : RemoteAccessPolicy where
  allowedHosts := ["prices.example".toList]
  redirectHosts := ["files.example".toList]
  allowedSchemes := ["https".toList]
  allowedPorts := [443]
  maximumRedirects := 1
  maximumResponseBytes := 1000
  hosts_ne := by decide
  schemes_ne := by decide
  schemes_http := by decide
  ports_ne := by decide
  ports_range := by decide
  redirects_le := by decide
  response_pos := by decide

/-- The first address of the first host cannot be reached; the second one answers with a redirect,
the head of which is larger than what an attempt estimates. -/
def sampleAttempt : Nat → Nat → Attempt
  | 0, 0 => ⟨[100], .error .transport⟩
  | 0, _ => ⟨[200, 300], .ok ⟨302, true, some "https://files.example/p.gz".toList, none, 153600⟩⟩
  | _, _ => ⟨[250], .ok ⟨200, false, none, some "5".toList, 400⟩⟩

def sampleAnswers : Answers where
  resolve := fun hop _ _ =>
    if hop = 0 then .ok ["93.184.216.34".toList, "93.184.216.35".toList]
    else .ok ["151.101.1.69".toList]
  attempt := sampleAttempt
  body := [.wire 5, .chunk [1, 2, 3], .chunk [4, 5]]
  bodyEnd := none

/-- A download with an address that cannot be reached, a redirect and a declared body. -/
theorem http_transfer_pinned_and_metered_sample :
    let result := download sampleUrls sampleAddresses Sources.asciiRules sampleParseInt samplePolicy
      sampleAnswers "https://prices.example/p".toList (started 1048576)
    let final := finalState result
    raisedBy result = none ∧
    final.sent.map (fun request => (request.number, request.hostname, request.url.host)) =
      [((0, 0), "prices.example".toList, "93.184.216.34".toList),
        ((0, 1), "prices.example".toList, "93.184.216.35".toList),
        ((1, 0), "files.example".toList, "151.101.1.69".toList)] ∧
    final.charges.map (·.operation) =
      [.beginDnsLookup, .beginAttempt, .recordWire 100, .beginAttempt, .recordWire 200,
        .recordWire 300, .recordResponseControl 153600, .beginDnsLookup, .beginAttempt,
        .recordWire 250, .recordResponseControl 400, .recordWire 5, .recordPayload 3,
        .recordPayload 2] ∧
    final.meter = ⟨1048576, 855, 546816, 5, 546821, 131072⟩ ∧
    final.yielded = [[1, 2, 3], [4, 5]] ∧
    (∀ request ∈ final.sent, Pinned sampleUrls sampleAddresses Sources.asciiRules samplePolicy
      sampleAnswers request) ∧
    ∃ attempts opened, attempts.length ≤ 2 ∧
      Charged sampleAnswers attempts opened (raisedBy result) final := by
  intro result final
  obtain ⟨hpinned, -, hcharged, -⟩ := http_transfer_pinned_and_metered sampleUrls sampleAddresses
    Sources.asciiRules sampleParseInt samplePolicy sampleAnswers "https://prices.example/p".toList
    1048576
  exact ⟨by decide +kernel, by decide +kernel, by decide +kernel, by decide +kernel,
    by decide +kernel, hpinned, hcharged⟩

end Makolet.Downloads.Http
