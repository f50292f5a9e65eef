/-
TinyRpc/Session.lean

A client and a server at the two ends of one socket, from the calls of the client to the
callbacks that get the responses.

The client encodes the requests that wait and writes; the server reads, decodes,
dispatches, encodes the responses and writes; the client reads, decodes and runs the
callback that it finds under the `msg_id` of the response.  The callback of a request that
has been written registers the one for its response, as in `CallMethod`.  Reads and
writes of the two sides come in any order, and each transfers as much as it likes of what
the socket has.

`session_in_order` is what the connection does for the requests: no request is dispatched
twice or out of order, and the client gets the responses that the dispatcher gives to the
requests, in their order.
-/
import TinyRpc.ByteQueue
import TinyRpc.Endpoint
import TinyRpc.ReadDones
import TinyRpc.WriteDones

namespace TinyRpc

open Checked Bytes TcpBuffer ProtobufProtocol Runs Framing

variable {M κ : Type}

structure Session (κ : Type) where
  client : Endpoint κ
  server : Endpoint Unit
  /-- the requests, with the callbacks for their responses -/
  pushed : List (ProtobufProtocol × κ)
  /-- the callbacks run, with the responses they were given -/
  called : List (κ × ProtobufProtocol)

inductive SessionEvent (κ : Type)
  /-- `TcpClient::write_message`, with the callback for the response -/
  | writeMessage (message : ProtobufProtocol) (done : κ)
  | clientWrite (results : List WriteResult)
  | serverRead (results : List ReadResult) (fuel : Nat)
  | serverWrite (results : List WriteResult)
  | clientRead (results : List ReadResult) (fuel : Nat)

/-- `TcpClient::read_message`. -/
def TcpConnection.readMessage (c : TcpConnection κ) (reqId : List UInt8) (done : κ) :
    TcpConnection κ :=
  (c.pushReadMessage reqId done).listenRead

/-- The callbacks of requests that have been written: each waits for the response. -/
def TcpConnection.readMessages (c : TcpConnection κ) (called : List (ProtobufProtocol × κ)) :
    TcpConnection κ :=
  called.foldl (fun c call => c.readMessage call.1.msgId call.2) c

/-- The callbacks that `excute` of a client runs for the messages decoded. -/
def responseCalls (c : TcpConnection κ) (result : List ProtobufProtocol) :
    List (κ × ProtobufProtocol) :=
  result.filterMap fun message => (readDone c message).map (·, message)

/-- `services k` is the table, with what its handlers do by then, when the server dispatches its
request number `k`. -/
def sessionStep (services : Nat → ServiceMap M) : Step (Session κ) (SessionEvent κ)
  | s, .writeMessage message done =>
      if s.client.loops then none
      else
        some
          { s with
            client := s.client.writeMessage message done
            pushed := s.pushed ++ [(message, done)] }
  | s, .clientWrite results =>
      (s.client.onWrite results).map fun (client, called) =>
        { s with client := client.setConnection (client.connection.readMessages called) }
  | s, .serverRead results fuel =>
      (s.server.onRead s.client.out.accepted results fuel).bind fun
        | (server, none) => some { s with server := server }
        | (server, some requests) =>
            (server.reply (dispatchAll services s.server.decoded.length requests)).map fun server =>
              { s with server := server }
  | s, .serverWrite results =>
      (s.server.onWrite results).map fun (server, _) => { s with server := server }
  | s, .clientRead results fuel =>
      (s.client.onRead s.server.out.accepted results fuel).map fun (client, result) =>
        { s with
          client := client
          called := s.called ++ responseCalls client.connection (result.getD []) }

/-- A client that has connected, and the connection that the server has accepted. -/
def Session.start (κ : Type) : Session κ where
  client := Endpoint.start
    ((TcpConnection.ofBufferSize κ 128 bufferSize_lt .tcpConnectionByClient).setState .connected)
  server := Endpoint.start acceptedConnection
  pushed := []
  called := []

/-- The requests are within the limits, each socket accepts bytes in one call, and the reads are
calm. -/
def Orderly (s : Session κ) : SessionEvent κ → Prop
  | .writeMessage message _ => WithinLimits message
  | .clientWrite results => AcceptsOnce s.client.out (.onWrite results)
  | .serverRead results _ =>
      s.server.connection.state = .connected → Calm s.server.connection s.client.sent results
  | .serverWrite results => AcceptsOnce s.server.out (.onWrite results)
  | .clientRead results _ =>
      s.client.connection.state = .connected → Calm s.client.connection s.server.sent results

/-- The `msg_id`s of the requests. -/
def Session.msgIds (s : Session κ) : List (List UInt8) := s.pushed.map fun call => call.1.msgId

/-- A request has a `msg_id` of its own. -/
def FreshIds (s : Session κ) : SessionEvent κ → Prop
  | .writeMessage message _ => message.msgId ∉ s.msgIds
  | _ => True

/-- The responses to the requests that have been pushed, as the client decodes them. -/
def Session.remote (services : Nat → ServiceMap M) (s : Session κ) : List ProtobufProtocol :=
  (responses services (s.pushed.map Prod.fst)).map delivered

/-- The server has dispatched the first requests, and the client has got the responses to the
first of them. -/
structure InOrder (services : Nat → ServiceMap M) (s : Session κ) : Prop where
  dispatched : s.server.decoded <+: (s.pushed.map Prod.fst).map delivered
  received : s.client.decoded <+: s.remote services

/-- No request waits, and all bytes encoded on either side have been sent and read. -/
structure Session.Settled (s : Session κ) : Prop where
  clientReturns : s.client.loops = false
  written : s.client.connection.writeDones = []
  requestsSent : s.client.out.accepted = s.client.out.encoded
  requestsRead : s.server.read = s.client.out.accepted
  responsesSent : s.server.out.accepted = s.server.out.encoded
  responsesRead : s.client.read = s.server.out.accepted

/-- Each callback that has been run is that of a request, with the response to this request; and
they have been run in the order of the requests. -/
structure Correlated (services : Nat → ServiceMap M) (s : Session κ) : Prop where
  called : s.called <+: (s.pushed.map Prod.snd).zip (s.remote services)
  all : s.Settled → s.called = (s.pushed.map Prod.snd).zip (s.remote services)

/-! ### The dispatcher on a sequence of requests -/

section Dispatch

variable {services : Nat → ServiceMap M}

theorem dispatchAll_append (k : Nat) (requests requests' : List ProtobufProtocol) :
    dispatchAll services k (requests ++ requests') =
      dispatchAll services k requests ++ dispatchAll services (k + requests.length) requests' := by
  induction requests generalizing k with
  | nil => rfl
  | cons request requests ih =>
      rw [List.cons_append, dispatchAll, ih, dispatchAll, List.length_cons, List.cons_append,
        Nat.add_right_comm, Nat.add_assoc]

theorem dispatchAll_isPrefix {requests requests' : List ProtobufProtocol}
    (h : requests <+: requests') :
    dispatchAll services 0 requests <+: dispatchAll services 0 requests' := by
  obtain ⟨more, rfl⟩ := h
  rw [dispatchAll_append]
  exact List.prefix_append _ _

end Dispatch

/-! ### The callbacks of a client -/

section Callbacks

variable {c : TcpConnection κ} {id : List UInt8}

/-- An entry that is there stays, and a new one stands for its `msg_id` alone. -/
theorem lookup_readMessage (reqId : List UInt8) (done : κ) :
    (c.readMessage reqId done).readDones.lookup id =
      (c.readDones.lookup id).or ([(reqId, done)].lookup id) := by
  show (c.pushReadMessage reqId done).readDones.lookup id = _
  unfold TcpConnection.pushReadMessage
  by_cases hid : id = reqId
  · subst hid
    split
    · rename_i hsome
      rw [Option.or_of_isSome hsome]
    · rename_i hnone
      rw [Option.not_isSome_iff_eq_none.mp hnone, Option.none_or, List.lookup_cons_self,
        List.lookup_cons_self]
  · have hother : [(reqId, done)].lookup id = none := by
      rw [List.lookup_cons, beq_false_of_ne hid]
      rfl
    rw [hother, Option.or_none]
    split
    · rfl
    · rw [List.lookup_cons, beq_false_of_ne hid]

/-- The callbacks in the map are those registered, the first of each `msg_id`. -/
theorem lookup_readMessages (called : List (ProtobufProtocol × κ)) :
    (c.readMessages called).readDones.lookup id =
      (c.readDones.lookup id).or ((called.map fun call => (call.1.msgId, call.2)).lookup id) := by
  induction called generalizing c with
  | nil => exact (Option.or_none).symm
  | cons call called ih =>
      show ((c.readMessage call.1.msgId call.2).readMessages called).readDones.lookup id = _
      rw [ih, lookup_readMessage, Option.or_assoc, ← List.lookup_append]
      rfl

/-- What the callbacks leave alone. -/
theorem readMessages_eq (called : List (ProtobufProtocol × κ)) :
    (c.readMessages called).inBuffer = c.inBuffer ∧
      (c.readMessages called).outBuffer = c.outBuffer ∧
      (c.readMessages called).connectionType = c.connectionType ∧
      (c.readMessages called).writeDones = c.writeDones := by
  induction called generalizing c with
  | nil => exact ⟨rfl, rfl, rfl, rfl⟩
  | cons call called ih =>
      obtain ⟨hin, hout, htype, hdones⟩ := @ih (c.readMessage call.1.msgId call.2)
      have hone : (c.readMessage call.1.msgId call.2).inBuffer = c.inBuffer ∧
          (c.readMessage call.1.msgId call.2).outBuffer = c.outBuffer ∧
          (c.readMessage call.1.msgId call.2).connectionType = c.connectionType ∧
          (c.readMessage call.1.msgId call.2).writeDones = c.writeDones := by
        unfold TcpConnection.readMessage TcpConnection.pushReadMessage
        split
        · exact ⟨rfl, rfl, rfl, rfl⟩
        · exact ⟨rfl, rfl, rfl, rfl⟩
      exact ⟨hin.trans hone.1, hout.trans hone.2.1, htype.trans hone.2.2.1,
        hdones.trans hone.2.2.2⟩

end Callbacks

/-! ### A client's `on_write` -/

section ClientWrite

/-- The messages that `encode` gives back have the `msg_id`s that they are sent under. -/
theorem encode_msgIds {ms ms' : List ProtobufProtocol} {out out' : TcpBuffer}
    (h : encode ms out = .ok (ms', out')) :
    ms'.map msgId = ms.map fun m => m.withMsgId.msgId := by
  induction ms generalizing ms' out out' with
  | nil =>
      obtain ⟨rfl, -⟩ := Prod.mk.inj (Except.ok.inj h)
      rfl
  | cons m ms ih =>
      rw [encode] at h
      obtain ⟨⟨m₁, buf⟩, henc, h⟩ := bind_eq_ok.mp h
      obtain ⟨out₁, -, h⟩ := bind_eq_ok.mp h
      obtain ⟨⟨ms₂, out₂⟩, hrest, h⟩ := bind_eq_ok.mp h
      obtain ⟨rfl, -⟩ := Prod.mk.inj (Except.ok.inj h)
      have hid : m₁.msgId = m.withMsgId.msgId := by
        simp only [encodeProtubuf, copyString, check_bind_eq_ok, Except.ok.injEq,
          Prod.mk.injEq] at henc
        obtain ⟨-, -, -, -, -, rfl, -⟩ := henc
        rfl
      rw [List.map_cons, List.map_cons, ih hrest, hid]

/-- A callback and the `msg_id` of its message. -/
def entry (call : ProtobufProtocol × κ) : List UInt8 × κ := (call.1.msgId, call.2)

theorem map_entry_zip {ms : List ProtobufProtocol} {calls : List (ProtobufProtocol × κ)}
    (h : ms.map msgId = calls.map fun call => call.1.msgId) :
    (ms.zip (calls.map Prod.snd)).map entry = calls.map entry := by
  induction calls generalizing ms with
  | nil =>
      rw [List.map_nil, List.zip_nil_right]
  | cons call calls ih =>
      rcases ms with - | ⟨m, ms⟩
      · cases h
      · obtain ⟨hid, hrest⟩ := List.cons.inj h
        rw [List.map_cons, List.zip_cons_cons, List.map_cons, List.map_cons, ih hrest]
        exact congrArg (· :: _) (Prod.ext hid rfl)

/-- What a client's `on_write` does with the messages that wait: it leaves them alone on a
connection that is not up, and stays in its loop, or returns with all of them written. -/
inductive Writes (c : TcpConnection κ) (w : Written κ) : Prop
  | down : c.state ≠ .connected → w = ⟨c, [], .disconnected, []⟩ → Writes c w
  | loops : c.state = .connected → w.exit = .looping → w.called = [] → Writes c w
  | returns : c.state = .connected → w.exit ≠ .looping → w.connection.writeDones = [] →
      w.called.map entry = c.writeDones.map entry → Writes c w

variable {c : TcpConnection κ} {results : List WriteResult} {w : Written κ}

theorem runWriteDones_frame {messages : List ProtobufProtocol} :
    (runWriteDones c messages).1.inBuffer = c.inBuffer ∧
      (runWriteDones c messages).1.connectionType = c.connectionType ∧
      (runWriteDones c messages).1.readDones = c.readDones := by
  unfold runWriteDones
  split
  · exact ⟨rfl, rfl, rfl⟩
  · exact ⟨rfl, rfl, rfl⟩

theorem finishWrite_frame {messages : List ProtobufProtocol} {sent : List UInt8}
    {exit : WriteExit} :
    (finishWrite c messages sent exit).connection.inBuffer = c.inBuffer ∧
      (finishWrite c messages sent exit).connection.connectionType = c.connectionType ∧
      (finishWrite c messages sent exit).connection.readDones = c.readDones := by
  cases exit with
  | disconnected => exact ⟨rfl, rfl, rfl⟩
  | writeAll => exact @runWriteDones_frame κ { c with listensOut := false } messages
  | blocked => exact runWriteDones_frame
  | looping => exact ⟨rfl, rfl, rfl⟩

/-- What `on_write` leaves alone. -/
theorem onWrite_frame (h : onWrite c results = .ok w) :
    w.connection.inBuffer = c.inBuffer ∧ w.connection.connectionType = c.connectionType ∧
      w.connection.readDones = c.readDones := by
  by_cases hc : c.state = .connected
  · rw [onWrite, if_neg (not_not_intro hc)] at h
    obtain ⟨⟨messages, out⟩, -, h⟩ := bind_eq_ok.mp h
    obtain rfl := Except.ok.inj h
    exact @finishWrite_frame κ { c with outBuffer := out } messages _ _
  · rw [onWrite_disconnected hc] at h
    obtain rfl := Except.ok.inj h
    exact ⟨rfl, rfl, rfl⟩

/-- A loop that is left is followed by the callbacks of all messages that wait. -/
theorem finishWrite_client {messages : List ProtobufProtocol} {sent : List UInt8}
    {exit : WriteExit} (hc : c.connectionType = .tcpConnectionByClient)
    (hexit : exit = .writeAll ∨ exit = .blocked) :
    (finishWrite c messages sent exit).connection.writeDones = [] ∧
      (finishWrite c messages sent exit).called =
        messages.zip (c.writeDones.map Prod.snd) := by
  rcases hexit with rfl | rfl
  · simp [finishWrite, runWriteDones, hc]
  · simp [finishWrite, runWriteDones, hc]

theorem writes_of_onWrite (hc : c.connectionType = .tcpConnectionByClient)
    (hlimits : ∀ call ∈ c.writeDones, WithinLimits call.1) (h : onWrite c results = .ok w) :
    Writes c w := by
  by_cases hstate : c.state = .connected
  · rw [onWrite, if_neg (not_not_intro hstate)] at h
    obtain ⟨⟨messages, out⟩, henc, h⟩ := bind_eq_ok.mp h
    obtain rfl := Except.ok.inj h
    have hids : messages.map msgId = c.writeDones.map fun call => call.1.msgId := by
      rw [encode_msgIds henc, toEncode, if_pos ⟨hstate, hc⟩, List.map_map]
      refine List.map_congr_left fun call hcall => ?_
      exact congrArg msgId (hlimits call hcall).withMsgId
    have hleft : ∀ {exit : WriteExit}, exit = .writeAll ∨ exit = .blocked →
        (finishWrite { c with outBuffer := out } messages (writeLoop out results).1
            exit).connection.writeDones = [] ∧
          (finishWrite { c with outBuffer := out } messages (writeLoop out results).1
            exit).called.map entry = c.writeDones.map entry := by
      intro exit hexit
      obtain ⟨hnil, hcalled⟩ := @finishWrite_client κ { c with outBuffer := out } messages
        (writeLoop out results).1 exit hc hexit
      exact ⟨hnil, (congrArg (List.map entry) hcalled).trans (map_entry_zip hids)⟩
    cases hloop : (writeLoop out results).2 with
    | disconnected => exact absurd hloop (writeLoop_connected out results)
    | looping => exact .loops hstate rfl rfl
    | writeAll =>
        obtain ⟨hnil, hcalled⟩ := hleft (.inl rfl)
        exact .returns hstate (fun hloops => by cases hloops) hnil hcalled
    | blocked =>
        obtain ⟨hnil, hcalled⟩ := hleft (.inr rfl)
        exact .returns hstate (fun hloops => by cases hloops) hnil hcalled
  · rw [onWrite_disconnected hstate] at h
    exact .down hstate (Except.ok.inj h).symm

end ClientWrite

/-! ### What every step keeps -/

/-- The requests that wait in the queue of the client. -/
def Session.waiting (s : Session κ) : List (ProtobufProtocol × κ) :=
  if s.client.loops then [] else s.client.connection.writeDones

/-- The requests pushed have been written, or wait; and unless the client is still in its loop,
those written have registered their callbacks. -/
structure Queued (s : Session κ) (written : List (ProtobufProtocol × κ)) : Prop where
  pushed : s.pushed = written ++ s.waiting
  sent : s.client.sent = written.map Prod.fst
  registered : s.client.loops = false → ∀ id,
    s.client.connection.readDones.lookup id = (written.map entry).lookup id

/-- Both sides send and receive, the server has answered what it has decoded, and the requests are
in the queue of the client or written. -/
structure Conversing (services : Nat → ServiceMap M) (s : Session κ) : Prop where
  clientType : s.client.connection.connectionType = .tcpConnectionByClient
  serverType : s.server.connection.connectionType = .tcpConnectionByServer
  limits : ∀ call ∈ s.pushed, WithinLimits call.1
  client : Sends s.client
  server : Sends s.server
  toServer : Receives s.server s.client.sent
  toClient : Receives s.client s.server.sent
  answered : s.server.sent = dispatchAll services 0 s.server.decoded
  queued : ∃ written, Queued s written

section Steps

variable {services : Nat → ServiceMap M} {s s' : Session κ}

/-- In a new buffer every byte is spare. -/
theorem fresh_spare :
    (TcpBuffer.ofSize 128 bufferSize_lt).writeIndex < (TcpBuffer.ofSize 128 bufferSize_lt).size :=
  (InBuffer.start bufferSize_lt (by decide)).spare

theorem Conversing.start : Conversing services (Session.start κ) where
  clientType := rfl
  serverType := rfl
  limits := nofun
  client := Sends.start (readable_ofSize 128 bufferSize_lt)
  server := Sends.start (readable_ofSize 128 bufferSize_lt)
  toServer := Receives.start (readable_ofSize 128 bufferSize_lt) fresh_spare
  toClient := Receives.start (readable_ofSize 128 bufferSize_lt) fresh_spare
  answered := rfl
  queued := ⟨[], rfl, rfl, fun _ _ => rfl⟩

/-- What the requests that have been decoded are. -/
theorem Conversing.dispatched (h : Conversing services s) :
    s.server.decoded <+: (s.pushed.map Prod.fst).map delivered := by
  obtain ⟨written, hpushed, hsent, -⟩ := h.queued
  refine h.toServer.decoded_isPrefix.trans ?_
  rw [hsent, hpushed, List.map_append]
  exact (List.prefix_append _ _).map delivered

theorem Conversing.inOrder (h : Conversing services s) : InOrder services s where
  dispatched := h.dispatched
  received := by
    refine h.toClient.decoded_isPrefix.trans ?_
    rw [h.answered]
    exact (dispatchAll_isPrefix h.dispatched).map delivered

/-- Before `on_write`, what has been pushed and not written waits in `m_write_dones`. -/
theorem waiting_of_returned (hloops : s.client.loops = false) :
    s.waiting = s.client.connection.writeDones := if_neg (by rw [hloops]; nofun)

/-- A request is put into the queue. -/
theorem Conversing.writeMessage (h : Conversing services s) {message : ProtobufProtocol}
    (hm : WithinLimits message) (done : κ) (hloops : s.client.loops = false) :
    Conversing services
      { s with
        client := s.client.writeMessage message done
        pushed := s.pushed ++ [(message, done)] } := by
  obtain ⟨written, hpushed, hsent, hregistered⟩ := h.queued
  refine ⟨h.clientType, h.serverType, fun call hcall => ?_, h.client.writeMessage message done,
    h.server, h.toServer, ⟨h.toClient.spare, h.toClient.stands⟩, h.answered, written, ?_, hsent,
    hregistered⟩
  · rcases List.mem_append.mp hcall with hold | hnew
    · exact h.limits call hold
    · obtain rfl := List.mem_singleton.mp hnew
      exact hm
  · rw [waiting_of_returned hloops] at hpushed
    show s.pushed ++ [(message, done)] = written ++ (if s.client.loops then [] else _)
    rw [hpushed, hloops, List.append_assoc]
    rfl

theorem Conversing.waiting_limits (h : Conversing services s) (hloops : s.client.loops = false) :
    ∀ call ∈ s.client.connection.writeDones, WithinLimits call.1 := by
  obtain ⟨written, hpushed, -, -⟩ := h.queued
  intro call hcall
  refine h.limits call ?_
  rw [hpushed, waiting_of_returned hloops]
  exact List.mem_append_right _ hcall

theorem Conversing.toEncode_limits (h : Conversing services s) (hloops : s.client.loops = false) :
    ∀ m ∈ toEncode s.client.connection, WithinLimits m := by
  intro m hm
  unfold toEncode at hm
  split at hm
  · obtain ⟨call, hcall, rfl⟩ := List.mem_map.mp hm
    exact h.waiting_limits hloops call hcall
  · exact absurd hm List.not_mem_nil

/-- What the callbacks of the requests that have been written leave in the queue and in the map. -/
theorem Conversing.queued_clientWrite (h : Conversing services s)
    {written : List (ProtobufProtocol × κ)} (hqueued : Queued s written)
    {results : List WriteResult} {client : Endpoint κ} {w : Written κ}
    (hw : s.client.Wrote client results w) :
    ∃ written, Queued
      { s with client := client.setConnection (w.connection.readMessages w.called) } written := by
  have hpushed := hqueued.pushed
  rw [waiting_of_returned hw.returned] at hpushed
  have hnow : ∀ {exit}, w.exit = exit → (client.setConnection
      (w.connection.readMessages w.called)).loops = decide (exit = .looping) := by
    rintro exit rfl
    exact hw.loops
  rcases writes_of_onWrite h.clientType (h.waiting_limits hw.returned) hw.call with
    ⟨hdown, hsame⟩ | ⟨hup, hexit, hnone⟩ | ⟨hup, hexit, hnil, hcalled⟩
  · -- nothing is written on a connection that is not up
    have hloops := hnow (congrArg Written.exit hsame)
    have hencode : toEncode s.client.connection = [] := if_neg fun hand => hdown hand.1
    refine ⟨written, ?_, ?_, fun _ id => ?_⟩
    · rw [waiting_of_returned hloops]
      show s.pushed = written ++ (w.connection.readMessages w.called).writeDones
      rw [hsame]
      exact hpushed
    · show client.sent = _
      rw [hw.sent, hencode, List.append_nil]
      exact hqueued.sent
    · show (w.connection.readMessages w.called).readDones.lookup id = _
      rw [hsame]
      exact hqueued.registered hw.returned id
  · have hloops := hnow hexit
    have hencode : toEncode s.client.connection = s.client.connection.writeDones.map Prod.fst :=
      if_pos ⟨hup, h.clientType⟩
    refine ⟨written ++ s.client.connection.writeDones, ?_, ?_, fun hreturned => ?_⟩
    · have hwaiting : Session.waiting
          { s with client := client.setConnection (w.connection.readMessages w.called) } = [] :=
        if_pos hloops
      rw [hwaiting, List.append_nil]
      exact hpushed
    · show client.sent = _
      rw [hw.sent, hencode, hqueued.sent, List.map_append]
    · rw [hloops] at hreturned
      cases hreturned
  · have hloops := hnow rfl
    rw [decide_eq_false hexit] at hloops
    have hencode : toEncode s.client.connection = s.client.connection.writeDones.map Prod.fst :=
      if_pos ⟨hup, h.clientType⟩
    obtain ⟨-, -, -, hwrite⟩ := @readMessages_eq κ w.connection w.called
    refine ⟨written ++ s.client.connection.writeDones, ?_, ?_, fun _ id => ?_⟩
    · rw [waiting_of_returned hloops]
      show s.pushed = _ ++ (w.connection.readMessages w.called).writeDones
      rw [hwrite, hnil, List.append_nil]
      exact hpushed
    · show client.sent = _
      rw [hw.sent, hencode, hqueued.sent, List.map_append]
    · -- the map has the callbacks of the requests written before, and those of the new ones
      show (w.connection.readMessages w.called).readDones.lookup id = _
      rw [lookup_readMessages, (onWrite_frame hw.call).2.2, hqueued.registered hw.returned]
      show ((written.map entry).lookup id).or ((w.called.map entry).lookup id) = _
      rw [hcalled, ← List.lookup_append, List.map_append]

/-- The requests that wait are written, and their callbacks run. -/
theorem Conversing.clientWrite (h : Conversing services s) {results : List WriteResult}
    {client : Endpoint κ} {called : List (ProtobufProtocol × κ)}
    (honce : AcceptsOnce s.client.out (.onWrite results))
    (hs : s.client.onWrite results = some (client, called)) :
    Conversing services
      { s with client := client.setConnection (client.connection.readMessages called) } := by
  obtain ⟨w, hw, rfl⟩ := Endpoint.wrote hs
  obtain ⟨written, hqueued⟩ := h.queued
  rw [hw.connection_eq]
  obtain ⟨hin, htype, hdones⟩ := onWrite_frame hw.call
  obtain ⟨hin', hout', htype', hwrite'⟩ := @readMessages_eq κ w.connection w.called
  have hsends := h.client.onWrite honce (h.toEncode_limits hw.returned) hw
  refine ⟨htype'.trans (htype.trans h.clientType), h.serverType, h.limits,
    hsends.setConnection (hout'.trans (congrArg TcpConnection.outBuffer hw.connection_eq.symm)),
    h.server, ?_, h.toClient.congr (hin'.trans hin) hw.read hw.decoded, h.answered, ?_⟩
  · show Receives s.server client.sent
    rw [hw.sent]
    exact h.toServer.send _
  · exact h.queued_clientWrite hqueued hw

/-- The queue is the client's. -/
theorem Conversing.queued_setServer (h : Conversing services s) (server : Endpoint Unit) :
    ∃ written, Queued { s with server := server } written := by
  obtain ⟨written, hpushed, hsent, hregistered⟩ := h.queued
  exact ⟨written, hpushed, hsent, hregistered⟩

/-- The server reads and decodes, and answers if `excute` is called. -/
theorem Conversing.serverRead (h : Conversing services s) {results : List ReadResult} {fuel : Nat}
    (hcalm : s.server.connection.state = .connected →
      Calm s.server.connection s.client.sent results)
    (hs : s' ∈ sessionStep services s (.serverRead results fuel)) : Conversing services s' := by
  obtain ⟨⟨server, result⟩, hread, hs⟩ := Option.bind_eq_some_iff.mp hs
  have hon := Endpoint.readOn hread
  have hreceives := h.toServer.onRead h.client.limits h.client.accepted hcalm hread
  have hsends := h.server.onRead hon
  have htype := hon.connectionType.trans h.serverType
  cases result with
  | none =>
      obtain rfl := Option.some.inj hs
      have hdecoded := hon.decoded.trans (List.append_nil _)
      refine ⟨h.clientType, htype, h.limits, h.client, hsends, hreceives, ?_, ?_,
        h.queued_setServer server⟩
      · exact hon.sent ▸ h.toClient
      · show server.sent = dispatchAll services 0 server.decoded
        rw [hon.sent, hdecoded]
        exact h.answered
  | some requests =>
      obtain ⟨server', hreply, rfl⟩ := Option.map_eq_some_iff.mp hs
      have hreplied := Endpoint.replied hreply
      have hdecoded : server.decoded = s.server.decoded ++ requests := hon.decoded
      have hlimits : ∀ m ∈ server.decoded, WithinLimits m := by
        intro m hm
        obtain ⟨m', hm', rfl⟩ := List.mem_map.mp (hreceives.decoded_isPrefix.subset hm)
        exact withinLimits_delivered (h.client.limits m' hm')
      have hreplies : ∀ m ∈ dispatchAll services s.server.decoded.length requests,
          WithinLimits m := by
        refine dispatchAll_withinLimits fun m hm => hlimits m ?_
        rw [hdecoded]
        exact List.mem_append_right _ hm
      refine ⟨h.clientType, hreplied.connectionType.trans htype, h.limits, h.client,
        hsends.reply hreplies hreply,
        hreceives.congr hreplied.inBuffer hreplied.read hreplied.decoded, ?_, ?_,
        h.queued_setServer server'⟩
      · show Receives s.client server'.sent
        rw [hreplied.sent, hon.sent]
        exact h.toClient.send _
      · show server'.sent = dispatchAll services 0 server'.decoded
        rw [hreplied.sent, hon.sent, hreplied.decoded, hdecoded, dispatchAll_append, h.answered,
          Nat.zero_add]

/-- A server has nothing to encode when it writes. -/
theorem Conversing.serverWrite (h : Conversing services s) {results : List WriteResult}
    (honce : AcceptsOnce s.server.out (.onWrite results))
    (hs : s' ∈ sessionStep services s (.serverWrite results)) : Conversing services s' := by
  obtain ⟨⟨server, called⟩, hwrite, rfl⟩ := Option.map_eq_some_iff.mp hs
  obtain ⟨w, hw, -⟩ := Endpoint.wrote hwrite
  have hnone : toEncode s.server.connection = [] := by
    refine if_neg fun hclient => ?_
    have htype := h.serverType.symm.trans hclient.2
    cases htype
  have hsends := h.server.onWrite honce (by rw [hnone]; nofun) hw
  obtain ⟨hin, htype, -⟩ := onWrite_frame hw.call
  have hsent := hw.sent
  rw [hnone, List.append_nil] at hsent
  refine ⟨h.clientType, ?_, h.limits, h.client, hsends, ?_, ?_, ?_, h.queued_setServer server⟩
  · show server.connection.connectionType = _
    rw [hw.connection_eq, htype]
    exact h.serverType
  · exact h.toServer.congr ((congrArg TcpConnection.inBuffer hw.connection_eq).trans hin) hw.read
      hw.decoded
  · exact hsent ▸ h.toClient
  · show server.sent = dispatchAll services 0 server.decoded
    rw [hsent, hw.decoded]
    exact h.answered

/-- The client reads and decodes, and runs the callbacks that it finds. -/
theorem Conversing.clientRead (h : Conversing services s) {results : List ReadResult} {fuel : Nat}
    (hcalm : s.client.connection.state = .connected →
      Calm s.client.connection s.server.sent results)
    {client : Endpoint κ} {result : Option (List ProtobufProtocol)}
    (hread : s.client.onRead s.server.out.accepted results fuel = some (client, result))
    (called : List (κ × ProtobufProtocol)) :
    Conversing services { s with client := client, called := called } := by
  have hon := Endpoint.readOn hread
  have hreceives := h.toClient.onRead h.server.limits h.server.accepted hcalm hread
  obtain ⟨written, hpushed, hsent, hregistered⟩ := h.queued
  refine ⟨hon.connectionType.trans h.clientType, h.serverType, h.limits, h.client.onRead hon,
    h.server, ?_, hreceives, h.answered, written, ?_, hon.sent.trans hsent, fun hloops id => ?_⟩
  · exact hon.sent ▸ h.toServer
  · have hwaiting : Session.waiting { s with client := client, called := called } = s.waiting := by
      unfold Session.waiting
      dsimp only
      rw [hon.loops, hon.writeDones]
    rw [hwaiting]
    exact hpushed
  · show client.connection.readDones.lookup id = _
    rw [hon.readDones]
    exact hregistered (hon.loops.symm.trans hloops) id

theorem Conversing.step (s : Session κ) (event : SessionEvent κ) (s' : Session κ)
    (h : Conversing services s) (hevent : Orderly s event)
    (hs : s' ∈ sessionStep services s event) : Conversing services s' := by
  cases event with
  | writeMessage message done =>
      obtain ⟨hloops, heq⟩ := Option.mem_ite_none_left.mp hs
      obtain rfl := Option.some.inj heq
      exact h.writeMessage hevent done (Bool.eq_false_iff.mpr hloops)
  | clientWrite results =>
      obtain ⟨⟨client, called⟩, hwrite, rfl⟩ := Option.map_eq_some_iff.mp hs
      exact h.clientWrite hevent hwrite
  | serverRead results fuel => exact h.serverRead hevent hs
  | serverWrite results => exact h.serverWrite hevent hs
  | clientRead results fuel =>
      obtain ⟨⟨client, result⟩, hread, rfl⟩ := Option.map_eq_some_iff.mp hs
      exact h.clientRead hevent hread _

end Steps

/-! ### Conversations without waiting -/

instance decidableWithinLimits (m : ProtobufProtocol) : Decidable (WithinLimits m) :=
  decidable_of_iff
    (m.msgId ≠ [] ∧ m.msgId.length ≤ 99 ∧ m.methodName.length ≤ 511 ∧ m.errInfo.length ≤ 511 ∧
      0 ∉ m.msgId ∧ 0 ∉ m.methodName ∧ 0 ∉ m.errInfo)
    ⟨fun ⟨hne, hid, hname, hinfo, hid₀, hname₀, hinfo₀⟩ =>
        ⟨hne, hid, hname, hinfo, hid₀, hname₀, hinfo₀⟩,
      fun ⟨hne, hid, hname, hinfo, hid₀, hname₀, hinfo₀⟩ =>
        ⟨hne, hid, hname, hinfo, hid₀, hname₀, hinfo₀⟩⟩

/-- The requests are within the limits, each socket accepts bytes in one call, and each side reads
all that the other has sent, in one read. -/
def Prompt (s : Session κ) : SessionEvent κ → Prop
  | .writeMessage message _ => WithinLimits message
  | .clientWrite results => AcceptsOnce s.client.out (.onWrite results)
  | .serverRead results _ => ReadsAll s.server s.client.sent results
  | .serverWrite results => AcceptsOnce s.server.out (.onWrite results)
  | .clientRead results _ => ReadsAll s.client s.server.sent results

instance decidablePrompt (s : Session κ) : ∀ event, Decidable (Prompt s event)
  | .writeMessage message _ => inferInstanceAs (Decidable (WithinLimits message))
  | .clientWrite results =>
      inferInstanceAs (Decidable (AcceptsOnce s.client.out (.onWrite results)))
  | .serverRead results _ => inferInstanceAs (Decidable (ReadsAll s.server s.client.sent results))
  | .serverWrite results =>
      inferInstanceAs (Decidable (AcceptsOnce s.server.out (.onWrite results)))
  | .clientRead results _ => inferInstanceAs (Decidable (ReadsAll s.client s.server.sent results))

/-- What is prompt is orderly. -/
theorem Conversing.orderly {services : Nat → ServiceMap M} {s : Session κ}
    (h : Conversing services s) {event : SessionEvent κ} (hprompt : Prompt s event) :
    Orderly s event := by
  cases event with
  | writeMessage message done => exact hprompt
  | clientWrite results => exact hprompt
  | serverRead results fuel => exact fun _ => h.toServer.calm h.client.limits hprompt
  | serverWrite results => exact hprompt
  | clientRead results fuel => exact fun _ => h.toClient.calm h.server.limits hprompt

/-- **Requests and responses stay in order.**  However the reads and writes of the two sides
interleave, as long as they are orderly, the server dispatches the requests one after the other,
none of them twice, and the client gets the responses to the first of them, in their order. -/
theorem session_in_order (services : Nat → ServiceMap M) (events : List (SessionEvent κ))
    (h : Meets (sessionStep services) Orderly (Session.start κ) events) :
    Always (sessionStep services) (InOrder services) (Session.start κ) events :=
  always_of_meets (fun _ h => h.inOrder) Conversing.step Conversing.start h

/-- The calls that bring `calls` to the server and their responses back, each reading or writing all
there is. -/
def roundTrip (services : Nat → ServiceMap M) (calls : List (ProtobufProtocol × κ)) :
    List (SessionEvent κ) :=
  let sent := ((calls.map Prod.fst).map frame).flatten
  let answered := ((responses services (calls.map Prod.fst)).map frame).flatten
  calls.map (fun call => .writeMessage call.1 call.2) ++
    [.clientWrite [.accepted sent.length], .serverRead [.data sent] (calls.length + 1),
      .serverWrite [.accepted answered.length], .clientRead [.data answered] (calls.length + 1)]

/-- A request that reaches its method, and one that names no service. -/
def mixedCalls : List (ProtobufProtocol × Nat) :=
  [(echoRequest [97], 1), ({ shortRequest with msgId := [50] }, 2)]

/-- A table with one service. -/
def echoServices : Nat → ServiceMap (List UInt8) := fun _ => registered [echoService [97]]

theorem roundTrip_prompt :
    Meets (sessionStep echoServices) Prompt (Session.start Nat)
      (roundTrip echoServices mixedCalls) := by
  decide +kernel

theorem session_in_order_roundTrip :
    Always (sessionStep echoServices) (InOrder echoServices) (Session.start Nat)
      (roundTrip echoServices mixedCalls) :=
  session_in_order echoServices _
    (meets_of_meets (fun _ _ h => h.orderly) Conversing.step Conversing.start roundTrip_prompt)

end TinyRpc
