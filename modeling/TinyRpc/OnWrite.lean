/-
TinyRpc/OnWrite.lean

`TcpConnection::on_write`: encode what is waiting, and write the output buffer
to the socket.

The loop never moves the read index of the output buffer.  So nothing that has
been sent ever leaves the buffer: after a partial write the next pass sends from
the same byte again, and the next call of `on_write` sends the whole buffer once
more.  The output buffer holds all bytes encoded so far, on every run; what the
socket has accepted is a prefix of them as long as the socket accepts bytes only
once.
-/
import TinyRpc.TcpConnection
import TinyRpc.Base.Runs

namespace TinyRpc

open Checked Bytes TcpBuffer ProtobufProtocol Runs

/-- What a call of `::write` returns. -/
inductive WriteResult
  /-- the number of bytes the socket has accepted -/
  | accepted (count : Nat)
  /-- `-1` with `EAGAIN` -/
  | again
  /-- `-1` with another `errno` -/
  | error
  deriving DecidableEq

/-- The number of bytes accepted by a call of `::write`. -/
def WriteResult.count : WriteResult → Nat
  | .accepted count => count
  | _ => 0

/-- How a call of `on_write` stands: it has found the connection closed, has left its
loop with or without `is_write_all`, or is still in it. -/
inductive WriteExit
  | disconnected
  | writeAll
  | blocked
  | looping
  deriving DecidableEq

/-! ### The function -/

/-- The loop of `on_write`, on the results of its calls of `::write`: the bytes the
socket accepts, and how the loop is left.  The buffer stays as it is. -/
def writeLoop (outBuffer : TcpBuffer) : List WriteResult → List UInt8 × WriteExit
  | [] => if outBuffer.canReadBytesNum = 0 then ([], .writeAll) else ([], .looping)
  | result :: results =>
      if outBuffer.canReadBytesNum = 0 then ([], .writeAll)
      else
        match result with
        | .accepted count =>
            if outBuffer.canReadBytesNum ≤ count then (outBuffer.readable, .writeAll)
            else
              -- no `adjust_read_index`: the next pass starts from the same byte
              let (sent, exit) := writeLoop outBuffer results
              (outBuffer.readable.take count ++ sent, exit)
        | .again => ([], .blocked)
        | .error => writeLoop outBuffer results

/-- What a call of `on_write` leaves and does. -/
structure Written (κ : Type) where
  connection : TcpConnection κ
  /-- the bytes the socket has accepted -/
  sent : List UInt8
  exit : WriteExit
  /-- the callbacks run, each with its message -/
  called : List (ProtobufProtocol × κ)
  deriving DecidableEq

variable {κ : Type}

/-- The messages a call of `on_write` encodes: on a connected client, those that wait. -/
def toEncode (c : TcpConnection κ) : List ProtobufProtocol :=
  if c.state = .connected ∧ c.connectionType = .tcpConnectionByClient then
    c.writeDones.map Prod.fst
  else []

/-- The end of `on_write`: a client runs its callbacks and forgets them. -/
def runWriteDones (c : TcpConnection κ) (messages : List ProtobufProtocol) :
    TcpConnection κ × List (ProtobufProtocol × κ) :=
  if c.connectionType = .tcpConnectionByClient then
    ({ c with writeDones := [] }, messages.zip (c.writeDones.map Prod.snd))
  else (c, [])

/-- What follows the loop of `on_write`.  A call that is still in the loop does not come
to it. -/
def finishWrite (c : TcpConnection κ) (messages : List ProtobufProtocol) (sent : List UInt8) :
    WriteExit → Written κ
  | .writeAll =>
      let (c, called) := runWriteDones { c with listensOut := false } messages
      ⟨c, sent, .writeAll, called⟩
  | .blocked =>
      let (c, called) := runWriteDones c messages
      ⟨c, sent, .blocked, called⟩
  | exit => ⟨c, sent, exit, []⟩

/-- `on_write`. -/
def onWrite (c : TcpConnection κ) (results : List WriteResult) : Except Fault (Written κ) :=
  if c.state ≠ .connected then .ok ⟨c, [], .disconnected, []⟩
  else do
    let (messages, outBuffer) ← encode (toEncode c) c.outBuffer
    let (sent, exit) := writeLoop outBuffer results
    .ok (finishWrite { c with outBuffer := outBuffer } messages sent exit)

/-- The end of `excute` on a server: encode the replies, and listen for `OUT_EVENT`. -/
def reply (c : TcpConnection κ) (replies : List ProtobufProtocol) :
    Except Fault (TcpConnection κ) := do
  let (_, outBuffer) ← encode replies c.outBuffer
  .ok { c with outBuffer := outBuffer }.listenWrite

/-! ### Runs -/

/-- The frames `encode` writes for `messages`, one behind the other. -/
def encodedBytes (messages : List ProtobufProtocol) : List UInt8 :=
  messages.flatMap fun m =>
    match encodeProtubuf m with
    | .ok (_, buf) => buf
    | .error _ => []

/-- A connection, the bytes its socket has accepted, the bytes encoded so far, and
whether the last event was an `on_write` that cancelled `OUT_EVENT`. -/
structure Outgoing (κ : Type) where
  connection : TcpConnection κ
  accepted : List UInt8
  encoded : List UInt8
  cancelled : Bool

/-- What can happen on the sending side of a connection. -/
inductive SendEvent (κ : Type)
  | reply (replies : List ProtobufProtocol)
  | writeMessage (message : ProtobufProtocol) (done : κ)
  | onWrite (results : List WriteResult)

def sendStep : Step (Outgoing κ) (SendEvent κ)
  | s, .reply replies =>
      (reply s.connection replies).toOption.map fun c =>
        { s with
          connection := c
          encoded := s.encoded ++ encodedBytes replies
          cancelled := false }
  | s, .writeMessage message done =>
      some
        { s with
          connection := (s.connection.pushSendMessage message done).listenWrite
          cancelled := false }
  | s, .onWrite results =>
      (onWrite s.connection results).toOption.map fun w =>
        { connection := w.connection
          accepted := s.accepted ++ w.sent
          encoded := s.encoded ++ encodedBytes (toEncode s.connection)
          cancelled := w.exit = .writeAll }

/-- The sending side of a connection on which nothing has been sent; what its output
buffer holds has been encoded before. -/
def Outgoing.start (c : TcpConnection κ) : Outgoing κ := ⟨c, [], c.outBuffer.readable, false⟩

/-- The socket has accepted a prefix of what was encoded, and all of it when `on_write`
cancels `OUT_EVENT`. -/
def SentInOrder (s : Outgoing κ) : Prop :=
  s.accepted <+: s.encoded ∧ (s.cancelled = true → s.accepted = s.encoded)

instance decidableSentInOrder : DecidablePred (@SentInOrder κ) := fun _ =>
  inferInstanceAs (Decidable (_ ∧ _))

/-- The socket accepts bytes in at most one call of `::write` of this `on_write`, and in
none if it has accepted some before. -/
def AcceptsOnce (s : Outgoing κ) : SendEvent κ → Prop
  | .onWrite results =>
      (results.filter fun r => 0 < r.count).length ≤ if s.accepted = [] then 1 else 0
  | _ => True

instance decidableAcceptsOnce :
    ∀ (s : Outgoing κ) (event : SendEvent κ), Decidable (AcceptsOnce s event)
  | _, .onWrite _ => inferInstanceAs (Decidable (_ ≤ _))
  | _, .reply _ => inferInstanceAs (Decidable True)
  | _, .writeMessage _ _ => inferInstanceAs (Decidable True)

/-- What every run keeps: the output buffer holds all bytes encoded so far. -/
structure Unsent (s : Outgoing κ) : Prop where
  readable : s.connection.outBuffer.readable = s.encoded
  sent : SentInOrder s

variable {c : TcpConnection κ} {results : List WriteResult} {out : TcpBuffer}
  {messages : List ProtobufProtocol}

/-! ### One call -/

theorem encodedBytes_of_encodes {frames : List (List UInt8)}
    (h : List.Forall₂ Encodes messages frames) : encodedBytes messages = frames.flatten := by
  induction h with
  | nil => rfl
  | cons henc _ ih =>
      obtain ⟨m', henc⟩ := henc
      rw [List.flatten_cons, ← ih]
      simp [encodedBytes, henc]

/-- `encode` appends the encoded bytes. -/
theorem readable_encode {ms' : List ProtobufProtocol} {out' : TcpBuffer}
    (h : encode messages out = .ok (ms', out')) :
    out'.readable = out.readable ++ encodedBytes messages := by
  obtain ⟨frames, hall, hread⟩ := encode_readable h
  rw [hread, encodedBytes_of_encodes hall]

theorem writeLoop_empty (h : out.canReadBytesNum = 0) :
    writeLoop out results = ([], .writeAll) := by
  cases results with
  | nil => exact if_pos h
  | cons r results => cases r <;> exact if_pos h

theorem writeLoop_all {count : Nat} (h₀ : out.canReadBytesNum ≠ 0)
    (h : out.canReadBytesNum ≤ count) :
    writeLoop out (.accepted count :: results) = (out.readable, .writeAll) :=
  (if_neg h₀).trans (if_pos h)

theorem writeLoop_part {count : Nat} (h₀ : out.canReadBytesNum ≠ 0)
    (h : count < out.canReadBytesNum) :
    writeLoop out (.accepted count :: results)
      = (out.readable.take count ++ (writeLoop out results).1, (writeLoop out results).2) :=
  (if_neg h₀).trans (if_neg (Nat.not_le.mpr h))

theorem writeLoop_again (h₀ : out.canReadBytesNum ≠ 0) :
    writeLoop out (.again :: results) = ([], .blocked) := if_neg h₀

theorem writeLoop_error (h₀ : out.canReadBytesNum ≠ 0) :
    writeLoop out (.error :: results) = writeLoop out results := if_neg h₀

theorem readable_eq_nil (h : out.canReadBytesNum = 0) : out.readable = [] :=
  List.eq_nil_of_length_eq_zero (by rw [length_readable, h])

/-- Where no call accepts a byte, none is sent, and the loop ends well only if there was
none to send. -/
theorem writeLoop_of_none (h : ∀ r ∈ results, r.count = 0) :
    (writeLoop out results).1 = [] ∧
      ((writeLoop out results).2 = .writeAll → out.readable = []) := by
  by_cases h₀ : out.canReadBytesNum = 0
  · rw [writeLoop_empty h₀]
    exact ⟨rfl, fun _ => readable_eq_nil h₀⟩
  induction results with
  | nil =>
      have hloop : writeLoop out [] = ([], .looping) := if_neg h₀
      rw [hloop]
      exact ⟨rfl, nofun⟩
  | cons r results ih =>
      have ih := ih fun r hr => h r (List.mem_cons_of_mem _ hr)
      cases r with
      | accepted count =>
          obtain rfl : count = 0 := h _ List.mem_cons_self
          rw [writeLoop_part h₀ (Nat.pos_of_ne_zero h₀), List.take_zero, List.nil_append]
          exact ih
      | again =>
          rw [writeLoop_again h₀]
          exact ⟨rfl, nofun⟩
      | error =>
          rw [writeLoop_error h₀]
          exact ih

theorem count_eq_zero_of_filter (h : (results.filter fun r => 0 < r.count).length = 0) :
    ∀ r ∈ results, r.count = 0 := by
  intro r hr
  have hnil := List.eq_nil_of_length_eq_zero h
  simpa using List.filter_eq_nil_iff.mp hnil r hr

/-- A partial write after which nothing is accepted. -/
theorem writeLoop_part_last {count : Nat} (h₀ : out.canReadBytesNum ≠ 0)
    (h : count < out.canReadBytesNum) (hrest : ∀ r ∈ results, r.count = 0) :
    (writeLoop out (.accepted count :: results)).1 = out.readable.take count ∧
      ((writeLoop out (.accepted count :: results)).2 = .writeAll → out.readable = []) := by
  obtain ⟨hsent, hexit⟩ := @writeLoop_of_none results out hrest
  rw [writeLoop_part h₀ h, hsent, List.append_nil]
  exact ⟨rfl, hexit⟩

/-- Where one call at most accepts bytes, the bytes sent are the first of the buffer, and
all of them if the loop ends well. -/
theorem writeLoop_of_once (h : (results.filter fun r => 0 < r.count).length ≤ 1) :
    (writeLoop out results).1 <+: out.readable ∧
      ((writeLoop out results).2 = .writeAll → (writeLoop out results).1 = out.readable) := by
  by_cases h₀ : out.canReadBytesNum = 0
  · rw [writeLoop_empty h₀]
    exact ⟨List.nil_prefix, fun _ => (readable_eq_nil h₀).symm⟩
  induction results with
  | nil =>
      have hloop : writeLoop out [] = ([], .looping) := if_neg h₀
      rw [hloop]
      exact ⟨List.nil_prefix, nofun⟩
  | cons r results ih =>
      cases r with
      | again =>
          rw [writeLoop_again h₀]
          exact ⟨List.nil_prefix, nofun⟩
      | error =>
          rw [writeLoop_error h₀]
          exact ih h
      | accepted count =>
          by_cases hall : out.canReadBytesNum ≤ count
          · rw [writeLoop_all h₀ hall]
            exact ⟨List.prefix_rfl, fun _ => rfl⟩
          rcases Nat.eq_zero_or_pos count with rfl | hpos
          · rw [writeLoop_part h₀ (Nat.not_le.mp hall), List.take_zero, List.nil_append]
            exact ih h
          · -- the calls after this one accept nothing
            rw [List.filter_cons_of_pos (by exact decide_eq_true hpos), List.length_cons] at h
            have hrest := count_eq_zero_of_filter (Nat.le_zero.mp (Nat.le_of_succ_le_succ h))
            obtain ⟨hsent, hexit⟩ := writeLoop_part_last h₀ (Nat.not_le.mp hall) hrest
            rw [hsent]
            refine ⟨List.take_prefix _ _, fun hw => ?_⟩
            rw [hexit hw, List.take_nil]

theorem onWrite_disconnected (hc : c.state ≠ .connected) :
    onWrite c results = .ok ⟨c, [], .disconnected, []⟩ := if_pos hc

theorem runWriteDones_outBuffer : (runWriteDones c messages).1.outBuffer = c.outBuffer := by
  unfold runWriteDones
  split <;> rfl

/-- What follows the loop leaves the output buffer alone. -/
theorem finishWrite_eq {sent : List UInt8} {exit : WriteExit} :
    (finishWrite c messages sent exit).sent = sent ∧
      (finishWrite c messages sent exit).exit = exit ∧
      (finishWrite c messages sent exit).connection.outBuffer = c.outBuffer := by
  cases exit with
  | disconnected => exact ⟨rfl, rfl, rfl⟩
  | writeAll => exact ⟨rfl, rfl, runWriteDones_outBuffer⟩
  | blocked => exact ⟨rfl, rfl, runWriteDones_outBuffer⟩
  | looping => exact ⟨rfl, rfl, rfl⟩

/-- **One call of `on_write`** encodes what waits, and sends what its loop sends from a
buffer that it leaves as it is. -/
theorem onWrite_connected (hc : c.state = .connected) {w : Written κ}
    (h : onWrite c results = .ok w) :
    w.connection.outBuffer.readable = c.outBuffer.readable ++ encodedBytes (toEncode c) ∧
      writeLoop w.connection.outBuffer results = (w.sent, w.exit) := by
  rw [onWrite, if_neg (not_not_intro hc)] at h
  obtain ⟨⟨messages, out⟩, henc, h⟩ := bind_eq_ok.mp h
  obtain rfl := Except.ok.inj h
  obtain ⟨hsent, hexit, hout⟩ := @finishWrite_eq κ { c with outBuffer := out } messages
    (writeLoop out results).1 (writeLoop out results).2
  rw [hsent, hexit, hout]
  exact ⟨readable_encode henc, rfl⟩

/-! ### The run -/

theorem Unsent.start (c : TcpConnection κ) : Unsent (Outgoing.start c) where
  readable := rfl
  sent := ⟨List.nil_prefix, nofun⟩

theorem Unsent.reply {s : Outgoing κ} (h : Unsent s) {replies : List ProtobufProtocol}
    {c : TcpConnection κ} (hc : reply s.connection replies = .ok c) :
    Unsent
      { s with
        connection := c
        encoded := s.encoded ++ encodedBytes replies
        cancelled := false } := by
  obtain ⟨⟨messages, out⟩, henc, hc⟩ := bind_eq_ok.mp hc
  obtain rfl := Except.ok.inj hc
  refine ⟨?_, ?_, nofun⟩
  · show out.readable = s.encoded ++ encodedBytes replies
    rw [readable_encode henc, h.readable]
  · exact h.sent.1.trans (List.prefix_append _ _)

/-- While nothing has been sent, what is sent now starts with the first byte. -/
theorem prefix_of_first {accepted encoded sent : List UInt8} {exit : WriteExit}
    (hloop : writeLoop out results = (sent, exit)) (hread : out.readable = encoded)
    (hone : (results.filter fun r => 0 < r.count).length ≤ 1) (hfirst : accepted = []) :
    accepted ++ sent <+: encoded ∧ (exit = .writeAll → accepted ++ sent = encoded) := by
  have hcall := @writeLoop_of_once results out hone
  rw [hloop, hread] at hcall
  rwa [hfirst, List.nil_append]

/-- Once something has been sent, nothing is sent any more. -/
theorem prefix_of_later {accepted encoded sent : List UInt8} {exit : WriteExit}
    (hloop : writeLoop out results = (sent, exit)) (hread : out.readable = encoded)
    (hnone : ∀ r ∈ results, r.count = 0) (hle : accepted <+: encoded) :
    accepted ++ sent <+: encoded ∧ (exit = .writeAll → accepted ++ sent = encoded) := by
  have hcall := @writeLoop_of_none results out hnone
  rw [hloop, hread] at hcall
  obtain ⟨hsent, hall⟩ := hcall
  have hsent : sent = [] := hsent
  rw [hsent, List.append_nil]
  refine ⟨hle, fun hexit => ?_⟩
  -- the loop ended well without sending: there is nothing in the buffer
  have hnil : encoded = [] := hall hexit
  rw [hnil] at hle ⊢
  exact List.prefix_nil.mp hle

/-- A call on a connection that is not connected does nothing. -/
theorem Unsent.disconnected {s : Outgoing κ} (h : Unsent s)
    (hc : s.connection.state ≠ .connected) :
    Unsent
      { connection := s.connection
        accepted := s.accepted ++ []
        encoded := s.encoded ++ encodedBytes (toEncode s.connection)
        cancelled := false } := by
  have hnone : toEncode s.connection = [] := if_neg fun hand => hc hand.1
  have hnil : encodedBytes (toEncode s.connection) = [] := by rw [hnone]; rfl
  rw [hnil, List.append_nil, List.append_nil]
  exact ⟨h.readable, h.sent.1, nofun⟩

theorem Unsent.onWrite {s : Outgoing κ} (h : Unsent s) (honce : AcceptsOnce s (.onWrite results))
    {w : Written κ} (hw : onWrite s.connection results = .ok w) :
    Unsent
      { connection := w.connection
        accepted := s.accepted ++ w.sent
        encoded := s.encoded ++ encodedBytes (toEncode s.connection)
        cancelled := w.exit = .writeAll } := by
  by_cases hc : s.connection.state = .connected
  · obtain ⟨hread, hloop⟩ := onWrite_connected hc hw
    rw [h.readable] at hread
    have hsent : s.accepted ++ w.sent <+: s.encoded ++ encodedBytes (toEncode s.connection) ∧
        (w.exit = .writeAll →
          s.accepted ++ w.sent = s.encoded ++ encodedBytes (toEncode s.connection)) := by
      -- the one call that may accept bytes is in this `on_write` or in an earlier one
      by_cases hfirst : s.accepted = []
      · have hone : (results.filter fun r => 0 < r.count).length ≤ 1 := by
          simpa [AcceptsOnce, hfirst] using honce
        exact prefix_of_first hloop hread hone hfirst
      · have hnone : (results.filter fun r => 0 < r.count).length ≤ 0 := by
          simpa [AcceptsOnce, hfirst] using honce
        exact prefix_of_later hloop hread (count_eq_zero_of_filter (Nat.le_zero.mp hnone))
          (h.sent.1.trans (List.prefix_append _ _))
    exact ⟨hread, hsent.1, fun hexit => hsent.2 (of_decide_eq_true hexit)⟩
  · rw [onWrite_disconnected hc] at hw
    obtain rfl := Except.ok.inj hw
    exact h.disconnected hc

theorem Unsent.step (s : Outgoing κ) (event : SendEvent κ) (s' : Outgoing κ) (h : Unsent s)
    (honce : AcceptsOnce s event) (hs : s' ∈ sendStep s event) : Unsent s' := by
  cases event with
  | reply replies =>
      obtain ⟨c, hc, rfl⟩ := Option.map_eq_some_iff.mp hs
      exact h.reply (toOption_eq_some.mp hc)
  | writeMessage message done =>
      obtain rfl := Option.some.inj hs
      exact ⟨h.readable, h.sent.1, nofun⟩
  | onWrite results =>
      obtain ⟨w, hw, rfl⟩ := Option.map_eq_some_iff.mp hs
      exact h.onWrite honce (toOption_eq_some.mp hw)

/-- **Sent in order.**  In every run in which the socket accepts bytes only once, the
bytes it has accepted are at all times a prefix of those encoded, and all of them
whenever `on_write` cancels `OUT_EVENT`. -/
theorem sent_in_order (c : TcpConnection κ) (events : List (SendEvent κ))
    (h : Meets sendStep AcceptsOnce (Outgoing.start c) events) :
    Always sendStep SentInOrder (Outgoing.start c) events :=
  always_of_meets (fun _ h => h.sent) Unsent.step (Unsent.start c) h

/-- A second message, of the same length. -/
def nextReply : ProtobufProtocol := { msgId := [50] }

/-- After a partial write the same bytes are sent again; and with the second reply of a
connection, the first is sent again. -/
theorem sent_again :
    ¬ Always sendStep SentInOrder (Outgoing.start acceptedConnection)
      [.reply [shortRequest], .onWrite [.accepted 10, .accepted 27]] ∧
    ¬ Always sendStep SentInOrder (Outgoing.start acceptedConnection)
      [.reply [shortRequest], .onWrite [.accepted 27], .reply [nextReply],
        .onWrite [.accepted 54]] := by
  decide +kernel

/-- A reply that a full socket takes at the second call of `on_write`. -/
theorem sent_in_order_reply :
    Always sendStep SentInOrder (Outgoing.start acceptedConnection)
      [.reply [shortRequest], .onWrite [.again], .onWrite [.accepted 27], .onWrite [.again]] :=
  sent_in_order acceptedConnection _ (by decide +kernel)

end TinyRpc
