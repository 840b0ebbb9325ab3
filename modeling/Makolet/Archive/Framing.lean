import Makolet.Lib.Bytes
import Makolet.Lib.Outcome

/-!
# Messages of a child process

The channel of `adapters/archive/_process.py` between the process and the children that read and
write for it. A message is a frame, which is its pickled form behind the length of that form. The
socket may take and return the bytes of the frames in any pieces.

What a sender has sent an endpoint obtains, once each and in order, whether it receives with
`try_recv`, which keeps a buffer between its calls, or with `recv`, which reads what it needs and no
more. `receivers_agree` is the main result.
-/

set_option autoImplicit false

namespace Makolet.Archive

open Makolet.Lib

variable {α : Type}

/-! ## Frames -/

/-- `dumps` and `loads` of `pickle`; `loads` fails on what is no pickled object. -/
structure Pickle (α : Type) where
  dumps : α → Bytes
  loads : Bytes → Option α

/-- What was pickled is loaded again. -/
def Pickle.Inverse (p : Pickle α) : Prop := ∀ value, p.loads (p.dumps value) = some value

inductive ChannelError
  /-- `ValueError("archive child IPC frame exceeded its size limit")`. -/
  | frameSize
  /-- `EOFError("archive child IPC channel closed")`. -/
  | eof
  /-- `ProcessDeadlineError("Archive child input exceeded its total deadline")`. -/
  | deadline
  /-- What `pickle.loads` raises. -/
  | unpickling
  deriving DecidableEq, Repr

/-- `_FRAME_HEADER.size`. -/
def headerSize : Nat := 8

/-- `_MAX_FRAME_BYTES`. -/
def maxFrameBytes : Nat := 64 * 1024 * 1024

/-- `_FRAME_HEADER.pack`: the highest byte first. -/
def packHeader (size : Nat) : Bytes := (little headerSize size).reverse

/-- `_FRAME_HEADER.unpack`. -/
def unpackHeader (header : Bytes) : Nat := ofLittle header.reverse

/-- `_frame`. -/
def frame (p : Pickle α) (value : α) : Except ChannelError Bytes := do
  let payload := p.dumps value
  require (payload.length ≤ maxFrameBytes) .frameSize
  pure (packHeader payload.length ++ payload)

/-! ## Senders -/

/-- A turn of the loop of `send_async`: how much the socket took, nothing where the write would have
blocked, and whether the deadline passed before it could be written to again. -/
structure Turn where
  taken : Nat
  expired : Bool

/-- The loop of `send_async`, with what the socket took and how the loop ended; `none` where it
still waits. -/
def sendAsyncLoop : Bytes → List Turn → Bytes × Option (Except ChannelError Unit)
  | [], _ => ([], some (.ok ()))
  | _ :: _, [] => ([], none)
  | b :: rest, turn :: turns =>
    if 0 < turn.taken then
      let left := sendAsyncLoop ((b :: rest).drop turn.taken) turns
      ((b :: rest).take turn.taken ++ left.1, left.2)
    else if turn.expired then ([], some (.error .deadline))
    else sendAsyncLoop (b :: rest) turns

inductive SendCall (α : Type)
  | send (value : α)
  | sendAsync (value : α) (turns : List Turn)

def SendCall.value : SendCall α → α
  | .send value => value
  | .sendAsync value _ => value

/-- What a call gives to the socket, and how it ends. -/
def SendCall.run (p : Pickle α) (call : SendCall α) : Bytes × Option (Except ChannelError Unit) :=
  match frame p call.value with
  | .error e => ([], some (.error e))
  | .ok bytes =>
    match call with
    | .send _ => (bytes, some (.ok ()))
    | .sendAsync _ turns => sendAsyncLoop bytes turns

/-- The call does not hit the deadline and does not wait for ever: it sends the message, or it
refuses one whose pickled form is too long for a frame. -/
def SendCall.Ends (p : Pickle α) (call : SendCall α) : Prop :=
  (call.run p).2 = some (.ok ()) ∨
    (call.run p).2 = some (.error .frameSize) ∧ maxFrameBytes < (p.dumps call.value).length

/-- The messages whose calls returned. -/
def sentBy (p : Pickle α) (calls : List (SendCall α)) : List α :=
  (calls.filter fun call => (call.run p).2 = some (.ok ())).map SendCall.value

/-- What the socket took of all calls. -/
def streamOf (p : Pickle α) (calls : List (SendCall α)) : Bytes :=
  calls.flatMap fun call => (call.run p).1

/-! ## `try_recv` -/

/-- `_pop_buffered_message`, with the buffer that it leaves. -/
def popBufferedMessage (p : Pickle α) (buffer : Bytes) :
    Except ChannelError (Option α) × Bytes :=
  if buffer.length < headerSize then (.ok none, buffer)
  else
    let payloadSize := unpackHeader (buffer.take headerSize)
    if maxFrameBytes < payloadSize then (.error .frameSize, buffer)
    else
      let frameSize := headerSize + payloadSize
      if buffer.length < frameSize then (.ok none, buffer)
      else
        match p.loads ((buffer.take frameSize).drop headerSize) with
        | some value => (.ok (some value), buffer.drop frameSize)
        | none => (.error .unpickling, buffer.drop frameSize)

/-- What the socket answers to a poll: that there is nothing to read, or what it read; nothing at
the end of the stream. -/
inductive Poll
  | idle
  | chunk (bytes : Bytes)

def Poll.bytes : Poll → Bytes
  | .idle => []
  | .chunk bytes => bytes

/-- An endpoint between two calls of `try_recv`: the buffer, and what the socket will answer. -/
structure Endpoint where
  buffer : Bytes
  polls : List Poll

/-- The bytes that the endpoint has or will have. -/
def Endpoint.unread (e : Endpoint) : Bytes := e.buffer ++ e.polls.flatMap Poll.bytes

/-- The loop of `try_recv`. Where there are no more answers there is nothing more to read. -/
def tryRecvLoop (p : Pickle α) : Bytes → List Poll → Except ChannelError (Option α) × Endpoint
  | buffer, [] => (.ok none, ⟨buffer, []⟩)
  | buffer, .idle :: polls => (.ok none, ⟨buffer, polls⟩)
  | buffer, .chunk [] :: polls => (.error .eof, ⟨buffer, polls⟩)
  | buffer, .chunk (b :: bytes) :: polls =>
    match popBufferedMessage p (buffer ++ b :: bytes) with
    | (.ok none, buffer) => tryRecvLoop p buffer polls
    | (result, buffer) => (result, ⟨buffer, polls⟩)

/-- `try_recv`. -/
def tryRecv (p : Pickle α) (e : Endpoint) : Except ChannelError (Option α) × Endpoint :=
  match popBufferedMessage p e.buffer with
  | (.ok none, buffer) => tryRecvLoop p buffer e.polls
  | (result, buffer) => (result, ⟨buffer, e.polls⟩)

/-- The message that a call returned. -/
def received : Except ChannelError (Option α) → List α
  | .ok (some value) => [value]
  | _ => []

/-- The messages that so many calls of `try_recv` return, also behind one that raised. -/
def tryRecvCalls (p : Pickle α) : Nat → Endpoint → List α
  | 0, _ => []
  | calls + 1, e => received (tryRecv p e).1 ++ tryRecvCalls p calls (tryRecv p e).2

/-! ## `recv` -/

/-- A blocking socket: what is still to be read, how often it was read, and how many bytes more than
one it returns each time, as far as they are asked for and there. At the end of `unread` the other
side has closed the channel. -/
structure Socket where
  unread : Bytes
  reads : Nat
  grants : Nat → Nat

/-- `socket.recv`. -/
def Socket.recv (s : Socket) (limit : Nat) : Bytes × Socket :=
  let size := min limit (s.grants s.reads + 1)
  (s.unread.take size, { s with unread := s.unread.drop size, reads := s.reads + 1 })

/-- The loop of `_read_exact`, with so many bytes missing; each turn but the last reads one at
least. -/
def readExactLoop : Nat → Bytes → Nat → Socket → Except ChannelError Bytes × Socket
  | 0, chunks, _, s => (.ok chunks, s)
  | turns + 1, chunks, size, s =>
    if chunks.length < size then
      match s.recv (size - chunks.length) with
      | ([], s) => (.error .eof, s)
      | (b :: chunk, s) => readExactLoop turns (chunks ++ b :: chunk) size s
    else (.ok chunks, s)

/-- `_read_exact`. -/
def readExact (size : Nat) (s : Socket) : Except ChannelError Bytes × Socket :=
  readExactLoop size [] size s

/-- `recv`. -/
def recv (p : Pickle α) (s : Socket) : Except ChannelError α × Socket :=
  match readExact headerSize s with
  | (.error e, s) => (.error e, s)
  | (.ok header, s) =>
    let payloadSize := unpackHeader header
    if maxFrameBytes < payloadSize then (.error .frameSize, s)
    else
      match readExact payloadSize s with
      | (.error e, s) => (.error e, s)
      | (.ok payload, s) =>
        match p.loads payload with
        | some value => (.ok value, s)
        | none => (.error .unpickling, s)

/-- The messages that so many calls of `recv` return. A call that raises is the last one: in
`_child_main` it ends the child, and in `_streamed_input_chunks` the generator. -/
def recvCalls (p : Pickle α) : Nat → Socket → List α
  | 0, _ => []
  | calls + 1, s =>
    match recv p s with
    | (.ok value, s) => value :: recvCalls p calls s
    | (.error _, _) => []

/-! ## What is sent -/

variable {p : Pickle α}

/-- The bytes of a message. -/
def framed (p : Pickle α) (value : α) : Bytes :=
  packHeader (p.dumps value).length ++ p.dumps value

/-- Messages that have frames. -/
def Framable (p : Pickle α) (values : List α) : Prop :=
  ∀ value ∈ values, (p.dumps value).length ≤ maxFrameBytes

def frames (p : Pickle α) (values : List α) : Bytes := values.flatMap (framed p)

theorem frame_eq_ok {value : α} {bytes : Bytes} (h : frame p value = .ok bytes) :
    (p.dumps value).length ≤ maxFrameBytes ∧ bytes = framed p value := by
  obtain ⟨hsize, h⟩ := require_bind_eq_ok.1 h
  exact ⟨hsize, (pure_eq_ok.1 h).symm⟩


/-- The loop ends with the whole of the frame sent or it hits the deadline. -/
theorem sendAsyncLoop_spec (bytes : Bytes) (turns : List Turn) :
    (sendAsyncLoop bytes turns).2 = some (.ok ()) ∧ (sendAsyncLoop bytes turns).1 = bytes ∨
      (sendAsyncLoop bytes turns).2 = none ∨
      (sendAsyncLoop bytes turns).2 = some (.error .deadline) := by
  fun_induction sendAsyncLoop bytes turns with
  | case1 turns => exact .inl ⟨rfl, rfl⟩
  | case2 b rest => exact .inr (.inl rfl)
  | case3 b rest turn turns htaken left ih =>
    rcases ih with ⟨hend, hall⟩ | hnot
    · exact .inl ⟨hend, by show _ ++ left.1 = _; rw [hall, List.take_append_drop]⟩
    · exact .inr hnot
  | case4 b rest turn turns hblocked hexpired => exact .inr (.inr rfl)
  | case5 b rest turn turns hblocked hexpired ih => exact ih

/-- A call that ends gives the socket the frame of the message that it sends, or nothing. -/
theorem SendCall.run_of_ends {call : SendCall α} (h : call.Ends p) :
    ((call.run p).2 = some (.ok ()) ∧ (p.dumps call.value).length ≤ maxFrameBytes ∧
        (call.run p).1 = framed p call.value) ∨
      ((call.run p).2 ≠ some (.ok ()) ∧ (call.run p).1 = []) := by
  rw [SendCall.Ends] at h
  rw [SendCall.run] at h ⊢
  cases hframe : frame p call.value with
  | error e => exact .inr ⟨by simp, rfl⟩
  | ok bytes =>
    obtain ⟨hsize, rfl⟩ := frame_eq_ok hframe
    rw [hframe] at h
    cases call with
    | send value => exact .inl ⟨rfl, hsize, rfl⟩
    | sendAsync value turns =>
      rcases sendAsyncLoop_spec (framed p value) turns with ⟨hend, hall⟩ | hnone | hdeadline
      · exact .inl ⟨hend, hsize, hall⟩
      · simp only [SendCall.value, hnone] at h
        rcases h with h | ⟨h, -⟩ <;> cases h
      · simp only [SendCall.value, hdeadline] at h
        rcases h with h | ⟨h, -⟩ <;> cases h

/-- What is sent are the messages that fit into a frame. -/
theorem sentBy_eq {calls : List (SendCall α)} (h : ∀ call ∈ calls, call.Ends p) :
    sentBy p calls =
      (calls.map SendCall.value).filter fun v => decide ((p.dumps v).length ≤ maxFrameBytes) := by
  rw [sentBy, List.filter_map]
  refine congrArg (List.map SendCall.value) (List.filter_congr fun call hcall => ?_)
  refine decide_eq_decide.2 ⟨fun hend => ?_, fun hsize => ?_⟩
  · rcases SendCall.run_of_ends (h call hcall) with ⟨-, hsize, -⟩ | ⟨hnot, -⟩
    · exact hsize
    · exact absurd hend hnot
  · rcases h call hcall with hend | ⟨-, hlong⟩
    · exact hend
    · exact absurd hsize (Nat.not_le.2 hlong)

/-- What the calls have given to the socket are the frames of the messages that they have sent. -/
theorem streamOf_eq {calls : List (SendCall α)} (h : ∀ call ∈ calls, call.Ends p) :
    streamOf p calls = frames p (sentBy p calls) ∧ Framable p (sentBy p calls) := by
  induction calls with
  | nil => exact ⟨rfl, fun _ hvalue => absurd hvalue List.not_mem_nil⟩
  | cons call calls ih =>
    obtain ⟨hstream, hframable⟩ := ih fun other hother => h other (List.mem_cons_of_mem call hother)
    have hcons : streamOf p (call :: calls) = (call.run p).1 ++ streamOf p calls := rfl
    rcases SendCall.run_of_ends (h call List.mem_cons_self) with ⟨hend, hsize, hall⟩ | ⟨hend, hnone⟩
    · have hsent : sentBy p (call :: calls) = call.value :: sentBy p calls := by
        simp [sentBy, hend]
      rw [hcons, hsent, hstream, hall]
      refine ⟨rfl, fun value hvalue => ?_⟩
      rcases List.mem_cons.1 hvalue with rfl | hvalue
      · exact hsize
      · exact hframable value hvalue
    · have hsent : sentBy p (call :: calls) = sentBy p calls := by
        simp [sentBy, hend]
      rw [hcons, hsent, hnone]
      exact ⟨hstream, hframable⟩

/-! ## What cannot be read -/

/-- What follows the messages: no complete header, a header that announces too much with whatever is
behind it, or a header without all of what it announces. -/
def Unreadable (rest : Bytes) : Prop :=
  rest.length < headerSize ∨ maxFrameBytes < unpackHeader (rest.take headerSize) ∨
    rest.length < headerSize + unpackHeader (rest.take headerSize)

@[simp] theorem length_packHeader (size : Nat) : (packHeader size).length = headerSize := by
  rw [packHeader, List.length_reverse, length_little]

theorem unpackHeader_packHeader {size : Nat} (h : size ≤ maxFrameBytes) :
    unpackHeader (packHeader size) = size := by
  have hlt : size < 256 ^ headerSize := Nat.lt_of_le_of_lt h (by decide)
  rw [unpackHeader, packHeader, List.reverse_reverse, ofLittle_little, Nat.mod_eq_of_lt hlt]

theorem length_framed (value : α) :
    (framed p value).length = headerSize + (p.dumps value).length := by
  rw [framed, List.length_append, length_packHeader]

theorem take_header (value : α) (rest : Bytes) :
    (framed p value ++ rest).take headerSize = packHeader (p.dumps value).length := by
  rw [framed, List.append_assoc, List.take_left' (length_packHeader _)]

/-- What comes before the end of what cannot be read cannot be read. -/
theorem Unreadable.of_append {buffer more : Bytes} (h : Unreadable (buffer ++ more)) :
    Unreadable buffer := by
  rcases Nat.lt_or_ge buffer.length headerSize with hshort | hlong
  · exact .inl hshort
  · rw [Unreadable, List.take_append_of_le_length hlong, List.length_append] at h
    rw [Unreadable]
    omega

/-- The beginning of a frame. -/
def Incomplete (buffer : Bytes) : Prop :=
  buffer.length < headerSize ∨ unpackHeader (buffer.take headerSize) ≤ maxFrameBytes ∧
    buffer.length < headerSize + unpackHeader (buffer.take headerSize)

theorem Incomplete.of_framed {value : α} {buffer more : Bytes}
    (hsize : (p.dumps value).length ≤ maxFrameBytes) (h : framed p value = buffer ++ more)
    (hmore : more ≠ []) : Incomplete buffer := by
  rcases Nat.lt_or_ge buffer.length headerSize with hshort | hlong
  · exact .inl hshort
  · have hheader : buffer.take headerSize = packHeader (p.dumps value).length := by
      rw [← take_header value [], List.append_nil, h, List.take_append_of_le_length hlong]
    have hlength := congrArg List.length h
    rw [length_framed, List.length_append] at hlength
    have hpos := List.length_pos_iff.2 hmore
    rw [Incomplete, hheader, unpackHeader_packHeader hsize]
    omega

/-- A buffer that begins what was sent: it begins with the first frame, it begins that frame, or it
cannot be read. -/
theorem framed_or_not {values : List α} {rest buffer more : Bytes}
    (hvalues : Framable p values) (hrest : Unreadable rest)
    (h : buffer ++ more = frames p values ++ rest) :
    (∃ value values' left, values = value :: values' ∧ buffer = framed p value ++ left ∧
        left ++ more = frames p values' ++ rest) ∨
      (Incomplete buffer ∧ more ≠ []) ∨ (Unreadable buffer ∧ values = []) := by
  cases values with
  | nil =>
    have hbuffer : buffer ++ more = rest := h
    exact .inr (.inr ⟨(hbuffer ▸ hrest).of_append, rfl⟩)
  | cons value values =>
    have h : buffer ++ more = framed p value ++ (frames p values ++ rest) := by
      rw [h, ← List.append_assoc]
      rfl
    rcases List.append_eq_append_iff.1 h with ⟨missing, hvalue, hmore⟩ | ⟨left, hbuffer, hleft⟩
    · by_cases hmissing : missing = []
      · rw [hmissing, List.append_nil] at hvalue
        rw [hmissing] at hmore
        exact .inl ⟨value, values, [], rfl, by rw [hvalue, List.append_nil], hmore⟩
      · refine .inr (.inl ⟨.of_framed (hvalues value List.mem_cons_self) hvalue hmissing, ?_⟩)
        rintro rfl
        exact hmissing (List.append_eq_nil_iff.1 hmore.symm).1
    · exact .inl ⟨value, values, left, rfl, hbuffer, hleft.symm⟩

/-! ## Receiving with a buffer -/

/-- The first frame of the buffer is its message. -/
theorem pop_framed (hp : p.Inverse) {value : α} {left : Bytes}
    (hsize : (p.dumps value).length ≤ maxFrameBytes) :
    popBufferedMessage p (framed p value ++ left) = (.ok (some value), left) := by
  have hlength := length_framed (p := p) value
  have htotal : (framed p value ++ left).length =
      headerSize + (p.dumps value).length + left.length := by
    rw [List.length_append, hlength]
  have hpayload : (framed p value).drop headerSize = p.dumps value := by
    rw [framed, List.drop_left' (length_packHeader _)]
  rw [popBufferedMessage, if_neg (by omega), take_header, unpackHeader_packHeader hsize]
  simp only []
  rw [if_neg (Nat.not_lt.2 hsize), if_neg (by omega), List.take_left' hlength,
    List.drop_left' hlength, hpayload, hp value]

theorem pop_incomplete {buffer : Bytes} (h : Incomplete buffer) :
    popBufferedMessage p buffer = (.ok none, buffer) := by
  rw [popBufferedMessage]
  split
  · rfl
  · rename_i hheader
    obtain ⟨hsize, hshort⟩ := h.resolve_left hheader
    simp only []
    rw [if_neg (Nat.not_lt.2 hsize), if_pos hshort]

/-- A buffer that cannot be read stays as it is and gives no message. -/
theorem pop_unreadable {buffer : Bytes} (h : Unreadable buffer) :
    popBufferedMessage p buffer = (.ok none, buffer) ∨
      popBufferedMessage p buffer = (.error .frameSize, buffer) := by
  rw [popBufferedMessage]
  split
  · exact .inl rfl
  · rename_i hheader
    simp only []
    split
    · exact .inr rfl
    · rename_i hsize
      have hshort : buffer.length < headerSize + unpackHeader (buffer.take headerSize) := by
        rcases h with h | h | h
        · exact absurd h hheader
        · exact absurd h hsize
        · exact h
      exact .inl (if_pos hshort)

/-- What a call leaves to the next ones: the message that it returned is the first of those that
were missing, or it returned none and has come nearer to the end of what will arrive. -/
def Delivers (p : Pickle α) (rest : Bytes) (values : List α) (polls : Nat)
    (r : Except ChannelError (Option α) × Endpoint) : Prop :=
  ∃ left, values = received r.1 ++ left ∧ r.2.unread = frames p left ++ rest ∧
    r.2.polls.length ≤ polls ∧ (left = [] ∨ left.length + r.2.polls.length < values.length + polls)

theorem Delivers.first {rest : Bytes} {value : α} {values : List α} {polls : List Poll} {n : Nat}
    {left : Bytes} (hleft : left ++ polls.flatMap Poll.bytes = frames p values ++ rest)
    (hn : polls.length ≤ n) :
    Delivers p rest (value :: values) n (.ok (some value), ⟨left, polls⟩) :=
  ⟨values, rfl, hleft, hn, .inr (by simp only [List.length_cons]; omega)⟩

theorem Delivers.none {rest : Bytes} {values : List α} {polls : List Poll} {n : Nat}
    {buffer : Bytes} {result : Except ChannelError (Option α)} (hresult : received result = [])
    (hbuffer : buffer ++ polls.flatMap Poll.bytes = frames p values ++ rest)
    (hn : polls.length ≤ n) (hless : values = [] ∨ polls.length < n) :
    Delivers p rest values n (result, ⟨buffer, polls⟩) :=
  ⟨values, by rw [hresult, List.nil_append], hbuffer, hn, hless.imp_right fun h => by
    show values.length + polls.length < _
    omega⟩

section TryRecv

variable {rest : Bytes} {values : List α}

theorem tryRecvLoop_delivers (hp : p.Inverse) (hvalues : Framable p values)
    (hrest : Unreadable rest) (polls : List Poll) (buffer : Bytes)
    (h : buffer ++ polls.flatMap Poll.bytes = frames p values ++ rest)
    (hnone : values = [] ∨ polls ≠ []) :
    Delivers p rest values polls.length (tryRecvLoop p buffer polls) := by
  induction polls generalizing buffer with
  | nil => exact .none rfl h (Nat.le_refl _) (.inl (hnone.resolve_right fun hne => hne rfl))
  | cons poll polls ih =>
    have hlt : polls.length < (poll :: polls).length := Nat.lt_succ_self _
    cases poll with
    | idle => exact .none rfl h (Nat.le_of_lt hlt) (.inr hlt)
    | chunk bytes =>
      cases bytes with
      | nil => exact .none rfl h (Nat.le_of_lt hlt) (.inr hlt)
      | cons b bytes =>
        have h : (buffer ++ b :: bytes) ++ polls.flatMap Poll.bytes = frames p values ++ rest := by
          rw [← h, List.append_assoc]
          rfl
        have hgoesOn (hmore : values = [] ∨ polls ≠ []) : Delivers p rest values
            (Poll.chunk (b :: bytes) :: polls).length
            (tryRecvLoop p (buffer ++ b :: bytes) polls) := by
          obtain ⟨left, hsplit, hunread, hless, hend⟩ := ih _ h hmore
          exact ⟨left, hsplit, hunread, Nat.le_trans hless (Nat.le_of_lt hlt),
            hend.imp_right fun hend => Nat.lt_trans hend (Nat.add_lt_add_left hlt _)⟩
        rw [tryRecvLoop]
        -- The buffer holds a whole message, a part of one, or what is no message.
        rcases framed_or_not hvalues hrest h with
          ⟨value, values, left, rfl, hbuffer, hleft⟩ | ⟨hincomplete, hmore⟩ | ⟨hunreadable, rfl⟩
        · rw [hbuffer, pop_framed hp (hvalues value List.mem_cons_self)]
          exact .first hleft (Nat.le_of_lt hlt)
        · rw [pop_incomplete hincomplete]
          refine hgoesOn (.inr ?_)
          rintro rfl
          exact hmore rfl
        · rcases pop_unreadable (p := p) hunreadable with hpop | hpop
          · rw [hpop]
            exact hgoesOn (.inl rfl)
          · rw [hpop]
            exact .none rfl h (Nat.le_of_lt hlt) (.inr hlt)

/-- What one call of `try_recv` does. -/
theorem tryRecv_delivers (hp : p.Inverse) (hvalues : Framable p values) (hrest : Unreadable rest)
    (e : Endpoint) (h : e.unread = frames p values ++ rest) :
    Delivers p rest values e.polls.length (tryRecv p e) := by
  rw [tryRecv]
  rcases framed_or_not hvalues hrest h with
    ⟨value, values, left, rfl, hbuffer, hleft⟩ | ⟨hincomplete, hmore⟩ | ⟨hunreadable, rfl⟩
  · rw [hbuffer, pop_framed hp (hvalues value List.mem_cons_self)]
    exact .first hleft (Nat.le_refl _)
  · rw [pop_incomplete hincomplete]
    refine tryRecvLoop_delivers hp hvalues hrest e.polls e.buffer h (.inr fun hnil => hmore ?_)
    rw [hnil]
    rfl
  · rcases pop_unreadable (p := p) hunreadable with hpop | hpop
    · rw [hpop]
      exact tryRecvLoop_delivers hp hvalues hrest e.polls e.buffer h (.inl rfl)
    · rw [hpop]
      exact .none rfl h (Nat.le_refl _) (.inl rfl)

/-- The messages that an endpoint with `try_recv` has obtained are the first ones, and all of them
after enough calls. -/
theorem tryRecvCalls_spec (hp : p.Inverse) (hvalues : Framable p values) (hrest : Unreadable rest)
    (calls : Nat) (e : Endpoint) (h : e.unread = frames p values ++ rest) :
    tryRecvCalls p calls e <+: values ∧
      (values.length + e.polls.length ≤ calls → tryRecvCalls p calls e = values) := by
  induction calls generalizing e values with
  | zero =>
    refine ⟨List.nil_prefix, fun henough => ?_⟩
    rw [List.length_eq_zero_iff.1 (show values.length = 0 by omega)]
    rfl
  | succ calls ih =>
    obtain ⟨left, rfl, hunread, hpolls, hless⟩ := tryRecv_delivers hp hvalues hrest e h
    have hleft : Framable p left := fun value hvalue =>
      hvalues value (List.mem_append_right _ hvalue)
    obtain ⟨hbegins, hall⟩ := ih hleft (tryRecv p e).2 hunread
    -- Each call either delivers a message or has used up a poll.
    refine ⟨(List.prefix_append_right_inj _).2 hbegins, fun henough => ?_⟩
    rw [tryRecvCalls]
    rcases hless with rfl | hless
    · rw [List.prefix_nil.1 hbegins]
    · rw [hall (by omega)]

end TryRecv

/-! ## Receiving exactly -/

theorem Socket.recv_append (s : Socket) (limit : Nat) :
    (s.recv limit).1 ++ (s.recv limit).2.unread = s.unread :=
  List.take_append_drop _ s.unread

/-- A read returns the beginning of what is asked for, where there is something. -/
theorem Socket.recv_eq {s : Socket} {want more : Bytes} (h : s.unread = want ++ more)
    (hwant : want ≠ []) : ∃ b got left, want = b :: got ++ left ∧
      s.recv want.length = (b :: got, { s with unread := left ++ more, reads := s.reads + 1 }) := by
  obtain ⟨b, rest, rfl⟩ := List.exists_cons_of_ne_nil hwant
  have hle : min (b :: rest).length (s.grants s.reads + 1) ≤ (b :: rest).length :=
    Nat.min_le_left ..
  obtain ⟨k, hk⟩ : ∃ k, min (b :: rest).length (s.grants s.reads + 1) = k + 1 :=
    Nat.exists_eq_succ_of_ne_zero (by rw [List.length_cons]; omega)
  refine ⟨b, rest.take k, rest.drop k, by rw [List.cons_append, List.take_append_drop], ?_⟩
  rw [Socket.recv, h, List.take_append_of_le_length hle, List.drop_append_of_le_length hle, hk]
  rfl

/-- The loop reads what is missing, where it is there. -/
theorem readExactLoop_eq {turns size : Nat} {chunks want more : Bytes} {s : Socket}
    (hsize : chunks.length + want.length = size) (hturns : want.length ≤ turns)
    (h : s.unread = want ++ more) :
    ∃ reads, readExactLoop turns chunks size s =
      (.ok (chunks ++ want), { s with unread := more, reads := reads }) := by
  induction turns generalizing chunks want s with
  | zero =>
    obtain rfl := List.length_eq_zero_iff.1 (Nat.le_zero.1 hturns)
    exact ⟨s.reads, by rw [readExactLoop, List.append_nil, ← (show s.unread = more from h)]⟩
  | succ turns ih =>
    rw [readExactLoop]
    by_cases hwant : want = []
    · subst hwant
      rw [if_neg (by rw [List.length_nil] at hsize; omega)]
      exact ⟨s.reads, by rw [List.append_nil, ← (show s.unread = more from h)]⟩
    · have hpos := List.length_pos_iff.2 hwant
      obtain ⟨b, got, left, rfl, hrecv⟩ := Socket.recv_eq h hwant
      rw [if_pos (by omega), show size - chunks.length = (b :: got ++ left).length by omega, hrecv]
      simp only [List.length_append, List.length_cons] at hsize hturns
      have hleft : (chunks ++ b :: got).length + left.length = size := by
        simp only [List.length_append, List.length_cons]
        omega
      have hs : ({ s with unread := left ++ more, reads := s.reads + 1 } : Socket).unread =
        left ++ more := rfl
      obtain ⟨reads, hread⟩ := ih hleft (by omega) hs
      exact ⟨reads, by simp only [hread, List.append_assoc, List.cons_append]⟩

theorem readExact_eq {want more : Bytes} {s : Socket} (h : s.unread = want ++ more) :
    ∃ reads, readExact want.length s = (.ok want, { s with unread := more, reads := reads }) :=
  readExactLoop_eq (Nat.zero_add _) (Nat.le_refl _) h

/-- Where too little is there the end of the stream is found. -/
theorem readExactLoop_short {turns size : Nat} {chunks : Bytes} {s : Socket}
    (hsize : chunks.length + s.unread.length < size) (hturns : size ≤ chunks.length + turns) :
    (readExactLoop turns chunks size s).1 = .error .eof := by
  induction turns generalizing chunks s with
  | zero => omega
  | succ turns ih =>
    rw [readExactLoop, if_pos (by omega)]
    cases hrecv : s.recv (size - chunks.length) with
    | mk got s' =>
      cases got with
      | nil => rfl
      | cons b got =>
        have htotal : (b :: got).length + s'.unread.length = s.unread.length := by
          have hall := congrArg List.length (s.recv_append (size - chunks.length))
          rwa [hrecv, List.length_append] at hall
        refine ih ?_ ?_
        · rw [List.length_append]
          omega
        · rw [List.length_append, List.length_cons]
          omega

theorem readExact_short (size : Nat) (s : Socket) (h : s.unread.length < size) :
    ∃ s', readExact size s = (.error .eof, s') := by
  have hread : (readExact size s).1 = .error .eof :=
    readExactLoop_short (by rwa [List.length_nil, Nat.zero_add]) (Nat.le_add_left ..)
  exact ⟨_, Prod.ext hread rfl⟩

section Recv

variable {rest : Bytes} {values : List α}

/-- What one call of `recv` does where a frame is there. -/
theorem recv_framed (hp : p.Inverse) {value : α} {more : Bytes} {s : Socket}
    (hsize : (p.dumps value).length ≤ maxFrameBytes) (h : s.unread = framed p value ++ more) :
    ∃ reads, recv p s = (.ok value, { s with unread := more, reads := reads }) := by
  rw [framed, List.append_assoc] at h
  obtain ⟨reads, hheader⟩ := readExact_eq h
  rw [length_packHeader] at hheader
  obtain ⟨reads, hpayload⟩ := readExact_eq
    (s := { s with unread := p.dumps value ++ more, reads := reads }) rfl
  refine ⟨reads, ?_⟩
  rw [recv, hheader]
  simp only [unpackHeader_packHeader hsize]
  rw [if_neg (Nat.not_lt.2 hsize), hpayload]
  simp only [hp value]

/-- A call raises where nothing can be read. -/
theorem recv_unreadable {s : Socket} (h : Unreadable s.unread) :
    ∃ e s', recv p s = (.error e, s') := by
  rw [recv]
  rcases Nat.lt_or_ge s.unread.length headerSize with hshort | hlong
  · obtain ⟨s', hread⟩ := readExact_short _ s hshort
    rw [hread]
    exact ⟨_, _, rfl⟩
  · have hlength : (s.unread.take headerSize).length = headerSize := List.length_take_of_le hlong
    obtain ⟨reads, hread⟩ := readExact_eq (List.take_append_drop headerSize s.unread).symm
    rw [hlength] at hread
    rw [hread]
    simp only []
    split
    · exact ⟨_, _, rfl⟩
    · rename_i hsize
      have hpayload : s.unread.length < headerSize + unpackHeader (s.unread.take headerSize) := by
        rw [Unreadable] at h
        omega
      obtain ⟨s', hread⟩ := readExact_short (unpackHeader (s.unread.take headerSize))
        { s with unread := s.unread.drop headerSize, reads := reads }
        (by rw [List.length_drop]; omega)
      rw [hread]
      exact ⟨_, _, rfl⟩

/-- The messages that so many calls of `recv` obtain are the first ones. -/
theorem recvCalls_eq (hp : p.Inverse) (hvalues : Framable p values) (hrest : Unreadable rest)
    (calls : Nat) (s : Socket) (h : s.unread = frames p values ++ rest) :
    recvCalls p calls s = values.take calls := by
  induction calls generalizing s values with
  | zero => rfl
  | succ calls ih =>
    rw [recvCalls]
    cases values with
    | nil =>
      obtain ⟨e, s', hrecv⟩ := recv_unreadable (p := p) (s := s) (by rw [h]; exact hrest)
      rw [hrecv, List.take_nil]
    | cons value values =>
      have h : s.unread = framed p value ++ (frames p values ++ rest) := by
        rw [h, ← List.append_assoc]
        rfl
      obtain ⟨reads, hrecv⟩ := recv_framed hp (hvalues value List.mem_cons_self) h
      have hvalues : Framable p values := fun other hother =>
        hvalues other (List.mem_cons_of_mem value hother)
      rw [hrecv]
      exact congrArg (value :: ·) (ih hvalues _ rfl)

end Recv

/-! ## Both receivers -/

/-- The calls send the messages that fit into a frame. Of a stream that holds what was sent, and then
at most what cannot be read, an endpoint with `try_recv` and one with `recv` obtain these messages,
once each and in order, and nothing of what follows, in whatever pieces the bytes were sent and
arrive. -/
theorem receivers_agree (p : Pickle α) (hp : p.Inverse) (calls : List (SendCall α))
    (hends : ∀ call ∈ calls, call.Ends p) (rest : Bytes) (hrest : Unreadable rest) :
    (sentBy p calls =
        (calls.map SendCall.value).filter fun v => decide ((p.dumps v).length ≤ maxFrameBytes)) ∧
      (∀ e : Endpoint, e.unread = streamOf p calls ++ rest →
        (∀ n, tryRecvCalls p n e <+: sentBy p calls) ∧
          ∀ n, (sentBy p calls).length + e.polls.length ≤ n →
            tryRecvCalls p n e = sentBy p calls) ∧
      ∀ s : Socket, s.unread = streamOf p calls ++ rest →
        ∀ n, recvCalls p n s = (sentBy p calls).take n := by
  obtain ⟨hstream, hvalues⟩ := streamOf_eq hends
  refine ⟨sentBy_eq hends, ?_⟩
  rw [hstream]
  refine ⟨fun e he => ⟨fun n => ?_, fun n => ?_⟩, fun s hs n => ?_⟩
  · exact (tryRecvCalls_spec hp hvalues hrest n e he).1
  · exact (tryRecvCalls_spec hp hvalues hrest n e he).2
  · exact recvCalls_eq hp hvalues hrest n s hs

/-- `pickle` on small integers. -/
def pickleByte : Pickle UInt8 where
  dumps value := [0x80, 0x05, 0x4b, value, 0x2e]
  loads
    | [0x80, 0x05, 0x4b, value, 0x2e] => some value
    | _ => none

/-- Two messages, the second one in two pieces behind a write that would have blocked. -/
def sampleCalls : List (SendCall UInt8) :=
  [.send 7, .sendAsync 9 [⟨3, false⟩, ⟨0, false⟩, ⟨16, false⟩]]

/-- A header that announces all of 64 bits, and a frame. -/
def sampleRest : Bytes := List.replicate 8 0xff ++ framed pickleByte 11

/-- The end of the first header arrives behind a poll that finds nothing, with the second message
and the header behind it. -/
def sampleEndpoint : Endpoint :=
  let bytes := streamOf pickleByte sampleCalls ++ sampleRest
  { buffer := bytes.take 2
    polls := [.chunk ((bytes.drop 2).take 3), .idle, .chunk ((bytes.drop 5).take 25), .idle,
      .chunk (bytes.drop 30)] }

/-- One byte at a time at first, and then three. -/
def sampleSocket : Socket where
  unread := streamOf pickleByte sampleCalls ++ sampleRest
  reads := 0
  grants reads := if reads < 10 then 0 else 2

theorem receivers_agree_sample :
    (sentBy pickleByte sampleCalls = [7, 9] ∧
        tryRecvCalls pickleByte 20 sampleEndpoint = [7, 9] ∧
        recvCalls pickleByte 20 sampleSocket = [7, 9]) ∧
      recvCalls pickleByte 1 sampleSocket = [7] := by
  obtain ⟨hsent, htry, hrecv⟩ := receivers_agree pickleByte (fun _ => rfl) sampleCalls
    (by unfold SendCall.Ends; decide) sampleRest (by unfold Unreadable; decide)
  have hvalues : sentBy pickleByte sampleCalls = [7, 9] := hsent.trans (by decide)
  refine ⟨⟨hvalues, ?_, ?_⟩, ?_⟩
  · rw [(htry sampleEndpoint (by decide)).2 20 (by decide), hvalues]
  · rw [hrecv sampleSocket rfl 20, hvalues]
    rfl
  · rw [hrecv sampleSocket rfl 1, hvalues]
    rfl

end Makolet.Archive
