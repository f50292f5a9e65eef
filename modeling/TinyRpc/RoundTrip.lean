/-
TinyRpc/RoundTrip.lean

Remote calls that come back.

`session_in_order` and `session_correlates` say what a conversation does as far as it
gets.  Here it gets to the end: requests whose frames, and whose responses, fit into an
input buffer of 128 bytes are all answered by one `on_write` and one `on_read` on either
side, whatever their number, their services and what the methods return
(`round_trip_completes`).  Each of the four calls goes on because of what the invariant
says about the state that the one before it has left.
-/
import Mathlib.Algebra.Order.BigOperators.Group.List
import Mathlib.Algebra.Order.Group.Nat
import TinyRpc.SessionCalls

namespace TinyRpc

open Checked Bytes TcpBuffer ProtobufProtocol Runs Framing

variable {M κ : Type}

/-! ### Calls that do all there is to do -/

section Calls

variable {e : Endpoint κ} {ms messages : List ProtobufProtocol} {b out : TcpBuffer}
  {accepted bytes : List UInt8}

/-- `decode` needs one pass for each frame, and one to see that there is none left. -/
theorem decode_frames_fuel (hms : ∀ m ∈ ms, WithinLimits m)
    (hread : b.readable = (ms.map frame).flatten) (hspare : b.writeIndex < b.size) :
    ∃ t, decode (ms.length + 1) b = some (.ok (t, ms.map delivered)) := by
  induction ms generalizing b with
  | nil => exact ⟨b, Loop.run_succ_done (decodePass_eq_none.mpr (quiet_of_readable_nil hread)) 0⟩
  | cons m ms ih =>
      obtain ⟨b₁, hpass, hread₁, hspare₁⟩ :=
        decodePass_of_frame (hms m List.mem_cons_self) hread hspare
      obtain ⟨t, ht⟩ := ih (fun m' hm' => hms m' (List.mem_cons_of_mem m hm')) hread₁ hspare₁
      refine ⟨t, ?_⟩
      show Loop.run decodePass (ms.length + 1 + 1) b = _
      rw [Loop.run_succ_again hpass]
      show (decode (ms.length + 1) b₁).map _ = _
      rw [ht]
      rfl

/-- A call of `on_read` that reads all decodes all. -/
theorem Receives.reads_all (h : Receives e ms) (hms : ∀ m ∈ ms, WithinLimits m)
    (hup : e.connection.state = .connected) (hloops : e.loops = false)
    (hall : ReadsAll e ms [.data bytes]) (hthere : e.read ++ bytes <+: accepted) {fuel : Nat}
    (hfuel : ms.length < fuel) :
    ∃ e' new, e.onRead accepted [.data bytes] fuel = some (e', some new) ∧
      e'.read = e.read ++ bytes ∧ e'.connection.state = .connected := by
  obtain ⟨-, hlt, hread, -⟩ := hall
  obtain ⟨taken, left, rfl, -, hheld⟩ := h.whole hread
  have hroom : e.connection.inBuffer.writeIndex + bytes.length < e.connection.inBuffer.size := by
    rw [canWriteBytesNum] at hlt
    omega
  have hreceived : received [.data bytes] = bytes := List.append_nil bytes
  have hcall : TinyRpc.onRead e.connection [.data bytes] =
      .ok (some ({ e.connection with inBuffer := e.connection.inBuffer.readIn bytes },
        some (e.connection.inBuffer.readIn bytes).readable)) := by
    rw [TinyRpc.onRead, if_neg (not_not_intro hup), readLoop_data hlt]
    rfl
  obtain ⟨t, ht⟩ := decode_frames_fuel (fun m hm => hms m (List.mem_append_right _ hm))
    ((readable_readIn hroom).trans hheld) (readIn_spare h.spare)
  rw [List.length_append] at hfuel
  have hdecode : decode fuel (e.connection.inBuffer.readIn bytes) =
      some (.ok (t, left.map delivered)) := Loop.run_mono_le (by omega) ht
  refine ⟨{ { e with read := e.read ++ bytes }.setConnection
      { e.connection with inBuffer := t } with decoded := e.decoded ++ left.map delivered },
    left.map delivered, ?_, rfl, hup⟩
  have hgoes : ¬ (e.loops ∨ ¬ e.read ++ bytesRead e.connection [.data bytes] <+: accepted) := by
    rw [bytesRead, if_pos hup, hreceived, hloops, not_or, not_not]
    exact ⟨Bool.false_ne_true, hthere⟩
  rw [Endpoint.onRead, if_neg hgoes, hcall]
  dsimp only
  rw [hdecode, bytesRead, if_pos hup, hreceived]

/-- A call of `on_write` whose bytes the socket accepts at once. -/
theorem Endpoint.writes_all (hup : e.connection.state = .connected) (hloops : e.loops = false)
    (henc : encode (toEncode e.connection) e.connection.outBuffer = .ok (messages, out))
    (hne : out.readable ≠ []) :
    ∃ e' w, e.onWrite [.accepted out.readable.length] = some (e', w.called) ∧
      e.Wrote e' [.accepted out.readable.length] w ∧ w.exit = .writeAll ∧
      w.sent = out.readable ∧ w.connection.state = .connected ∧
      w.connection.inBuffer = e.connection.inBuffer := by
  have hcall : TinyRpc.onWrite e.connection [.accepted out.readable.length] =
      .ok (finishWrite { e.connection with outBuffer := out } messages out.readable .writeAll) := by
    have hnot : out.canReadBytesNum ≠ 0 := fun h => hne (readable_eq_nil h)
    rw [TinyRpc.onWrite, if_neg (not_not_intro hup), henc, ok_bind]
    dsimp only
    rw [writeLoop_all hnot (length_readable out).ge]
  have hsome : e.onWrite [.accepted out.readable.length] = some
      ({ e with
          out :=
            { connection := (finishWrite { e.connection with outBuffer := out } messages
                out.readable .writeAll).connection
              accepted := e.out.accepted ++ out.readable
              encoded := e.out.encoded ++ encodedBytes (toEncode e.connection)
              cancelled := true }
          loops := false
          sent := e.sent ++ toEncode e.connection },
        (finishWrite { e.connection with outBuffer := out } messages out.readable
          .writeAll).called) := by
    rw [Endpoint.onWrite, hloops, hcall]
    rfl
  obtain ⟨w, hw, hcalled⟩ := Endpoint.wrote hsome
  obtain rfl := Except.ok.inj (hw.call.symm.trans hcall)
  refine ⟨_, _, hsome, hw, rfl, rfl, ?_, (onWrite_frame hw.call).1⟩
  show (runWriteDones _ messages).1.state = _
  unfold runWriteDones
  split
  · exact hup
  · exact hup

end Calls

/-! ### The run -/

section Run

variable {services : Nat → ServiceMap M} {s s' : Session κ}
  {calls : List (ProtobufProtocol × κ)} {ms : List ProtobufProtocol}

/-- What the invariant theorems keep, over a prompt step of requests with `msg_id`s of their own. -/
theorem Conversing.goes {event : SessionEvent κ} (h : Conversing services s ∧ Unmixed s)
    (hprompt : Prompt s event) (hfresh : FreshIds s event)
    (hs : sessionStep services s event = some s') : Conversing services s' ∧ Unmixed s' := by
  have hconv := Conversing.step s event s' h.1 (h.1.orderly hprompt) hs
  exact ⟨hconv, h.2.step h.1 hconv hfresh hs⟩

/-- The conversation in which `calls` wait and nothing else has happened. -/
def queuedSession (calls : List (ProtobufProtocol × κ)) (listens : Bool) : Session κ :=
  { Session.start κ with
    client := Endpoint.start
      { (Session.start κ).client.connection with writeDones := calls, listensOut := listens }
    pushed := calls }

theorem after_writeMessages (hlimits : ∀ call ∈ calls, WithinLimits call.1)
    (hnodup : (calls.map fun call => call.1.msgId).Nodup) :
    ∃ listens, after (sessionStep services) (Session.start κ)
        (calls.map fun call => .writeMessage call.1 call.2) = some (queuedSession calls listens) ∧
      Conversing services (queuedSession calls listens) ∧
      Unmixed (queuedSession calls listens) := by
  induction calls using List.reverseRecOn with
  | nil => exact ⟨false, rfl, Conversing.start, List.nodup_nil, rfl⟩
  | append_singleton calls call ih =>
      rw [List.map_append, List.nodup_append] at hnodup
      obtain ⟨listens, hrun, h⟩ :=
        ih (fun c hc => hlimits c (List.mem_append_left _ hc)) hnodup.1
      have hstep : sessionStep services (queuedSession calls listens)
          (.writeMessage call.1 call.2) = some (queuedSession (calls ++ [call]) true) := rfl
      have hprompt : Prompt (queuedSession calls listens) (.writeMessage call.1 call.2) :=
        hlimits call (List.mem_append_right _ (List.mem_singleton_self _))
      have hfresh : FreshIds (queuedSession calls listens) (.writeMessage call.1 call.2) :=
        fun hmem => hnodup.2.2 _ hmem _ (List.mem_singleton_self _) rfl
      refine ⟨true, ?_, Conversing.goes h hprompt hfresh hstep⟩
      rw [List.map_append, after_append, hrun]
      rfl

/-- The requests of `calls` have been sent, and the server has not read them. -/
structure Asked (calls : List (ProtobufProtocol × κ)) (s : Session κ) : Prop where
  pushed : s.pushed = calls
  server : s.server = Endpoint.start acceptedConnection
  sent : s.client.sent = calls.map Prod.fst
  accepted : s.client.out.accepted = (s.client.sent.map frame).flatten
  up : s.client.connection.state = .connected
  returns : s.client.loops = false
  written : s.client.connection.writeDones = []
  inBuffer : s.client.connection.inBuffer = TcpBuffer.ofSize 128 bufferSize_lt
  read : s.client.read = []

theorem flatten_frames_ne_nil (hne : ms ≠ []) : (ms.map frame).flatten ≠ [] := by
  obtain ⟨m, rest, rfl⟩ := List.exists_cons_of_ne_nil hne
  rw [List.map_cons, List.flatten_cons]
  exact List.append_ne_nil_of_left_ne_nil (frame_ne_nil m) _

/-- `encode` into a buffer that has not been used. -/
theorem encode_limits (hms : ∀ m ∈ ms, WithinLimits m)
    (hsize : (ms.map frameLength).sum < 1073741824) :
    ∃ messages out, encode ms (TcpBuffer.ofSize 128 bufferSize_lt) = .ok (messages, out) ∧
      out.readable = (ms.map frame).flatten := by
  have hroom : (TcpBuffer.ofSize 128 bufferSize_lt).writeIndex +
      (ms.map fun m => m.withMsgId.frameLength).sum < 1073741824 := by
    rw [sum_withMsgId hms]
    exact (Nat.zero_add _).trans_lt hsize
  obtain ⟨messages, out, henc⟩ := encode_ok hroom
  refine ⟨messages, out, henc, ?_⟩
  rw [readable_encode henc, readable_ofSize, encodedBytes_eq hms henc, List.nil_append]

/-- The replies of an end that has encoded nothing before. -/
theorem Endpoint.replies {κ' : Type} {e : Endpoint κ'} (hms : ∀ m ∈ ms, WithinLimits m)
    (hsize : (ms.map frameLength).sum < 1073741824)
    (hempty : e.connection.outBuffer = TcpBuffer.ofSize 128 bufferSize_lt) :
    ∃ e', e.reply ms = some e' ∧ e'.connection.outBuffer.readable = (ms.map frame).flatten ∧
      e'.connection.state = e.connection.state ∧ e'.loops = e.loops ∧
      e'.out.accepted = e.out.accepted := by
  obtain ⟨messages, out, henc, hreadable⟩ := encode_limits hms hsize
  refine ⟨{ e with
      out :=
        { e.out with
          connection := { e.connection with outBuffer := out }.listenWrite
          encoded := e.out.encoded ++ encodedBytes ms
          cancelled := false }
      sent := e.sent ++ ms }, ?_, hreadable, rfl, rfl, rfl⟩
  rw [Endpoint.reply, TinyRpc.reply, hempty, henc]
  rfl

theorem readMessages_state (c : TcpConnection κ) (called : List (ProtobufProtocol × κ)) :
    (c.readMessages called).state = c.state := by
  induction called generalizing c with
  | nil => rfl
  | cons call called ih =>
      refine (ih (c.readMessage call.1.msgId call.2)).trans ?_
      unfold TcpConnection.readMessage TcpConnection.pushReadMessage
      split
      · rfl
      · rfl

/-- A call of `::write` that is the only one. -/
theorem acceptsOnce_of_nil {s : Outgoing κ} (hnil : s.accepted = []) (count : Nat) :
    AcceptsOnce s (.onWrite [.accepted count]) := by
  show _ ≤ _
  rw [if_pos hnil]
  exact List.length_filter_le _ _

/-- The client sends the requests that wait. -/
theorem clientWrite_asked {listens : Bool}
    (h : Conversing services (queuedSession calls listens) ∧ Unmixed (queuedSession calls listens))
    (hne : calls ≠ [])
    (hsize : ((calls.map Prod.fst).map frameLength).sum < 1073741824) :
    ∃ s, sessionStep services (queuedSession calls listens)
        (.clientWrite [.accepted ((calls.map Prod.fst).map frame).flatten.length]) = some s ∧
      (Conversing services s ∧ Unmixed s) ∧ Asked calls s := by
  have hlimits : ∀ m ∈ calls.map Prod.fst, WithinLimits m := by
    intro m hm
    obtain ⟨call, hcall, rfl⟩ := List.mem_map.mp hm
    exact h.1.limits call hcall
  have hencode : toEncode (queuedSession calls listens).client.connection = calls.map Prod.fst :=
    if_pos ⟨rfl, rfl⟩
  obtain ⟨messages, out, henc, hreadable⟩ := encode_limits hlimits hsize
  have hnil : out.readable ≠ [] := by
    rw [hreadable]
    exact flatten_frames_ne_nil fun hnil => hne (List.map_eq_nil_iff.mp hnil)
  obtain ⟨e', w, hs, hw, hexit, hsent, hup, hin⟩ :=
    @Endpoint.writes_all κ (queuedSession calls listens).client messages out rfl rfl
      (by rw [hencode]; exact henc) hnil
  rw [hreadable] at hs hsent
  have hstep : sessionStep services (queuedSession calls listens)
      (.clientWrite [.accepted ((calls.map Prod.fst).map frame).flatten.length]) = some
        { queuedSession calls listens with
          client := e'.setConnection (e'.connection.readMessages w.called) } := by
    show Option.map _ _ = _
    rw [hs]
    rfl
  obtain ⟨hinBuffer, -, -, hwrite⟩ := @readMessages_eq κ w.connection w.called
  rw [hw.connection_eq] at hstep
  have hprompt : Prompt (queuedSession calls listens)
      (.clientWrite [.accepted ((calls.map Prod.fst).map frame).flatten.length]) :=
    @acceptsOnce_of_nil κ (queuedSession calls listens).client.out rfl _
  refine ⟨_, hstep, Conversing.goes h hprompt trivial hstep, rfl, rfl, ?_, ?_,
    (readMessages_state _ _).trans hup, ?_, ?_, hinBuffer.trans hin, hw.read⟩
  · show e'.sent = _
    rw [hw.sent, hencode]
    rfl
  · show e'.out.accepted = (e'.sent.map frame).flatten
    rw [hw.out, hw.sent, hencode]
    exact hsent
  · show e'.loops = false
    rw [hw.loops, hexit]
    rfl
  · show (w.connection.readMessages w.called).writeDones = []
    rw [hwrite]
    rcases writes_of_onWrite rfl (fun call hcall => h.1.limits call hcall) hw.call with
      ⟨hdown, -⟩ | ⟨-, hlooping, -⟩ | ⟨-, -, hnone, -⟩
    · exact absurd rfl hdown
    · rw [hexit] at hlooping
      cases hlooping
    · exact hnone

/-- The server has answered the requests, and the client has not read the responses. -/
structure Answered (services : Nat → ServiceMap M) (calls : List (ProtobufProtocol × κ))
    (s : Session κ) : Prop where
  pushed : s.pushed = calls
  sent : s.server.sent = responses services (calls.map Prod.fst)
  up : s.server.connection.state = .connected
  returns : s.server.loops = false
  requests : s.client.out.accepted = (s.client.sent.map frame).flatten
  read : s.server.read = s.client.out.accepted
  accepted : s.server.out.accepted = []
  outBuffer : s.server.connection.outBuffer.readable = (s.server.sent.map frame).flatten
  clientUp : s.client.connection.state = .connected
  clientReturns : s.client.loops = false
  written : s.client.connection.writeDones = []
  inBuffer : s.client.connection.inBuffer = TcpBuffer.ofSize 128 bufferSize_lt
  unread : s.client.read = []

theorem frameLength_le_sum {m : ProtobufProtocol} (hm : m ∈ ms) :
    m.frameLength ≤ (ms.map frameLength).sum :=
  List.single_le_sum (fun _ _ => Nat.zero_le _) _ (List.mem_map_of_mem hm)

theorem length_frames (ms : List ProtobufProtocol) :
    ((ms.map frame).flatten).length = (ms.map frameLength).sum := by
  rw [List.length_flatten, List.map_map]
  exact congrArg List.sum (List.map_congr_left fun m _ => length_frame m)

theorem canWriteBytesNum_ofSize (n : Nat) (h : n < 2147483648) :
    (TcpBuffer.ofSize n h).canWriteBytesNum = n := List.length_replicate

/-- Frames of fewer than 128 bytes in all fit into an input buffer that is empty. -/
theorem readsAll_frames {κ' : Type} {e : Endpoint κ'}
    (hin : e.connection.inBuffer = TcpBuffer.ofSize 128 bufferSize_lt) (hread : e.read = [])
    (hne : ms ≠ []) (hsize : (ms.map frameLength).sum < 128) :
    ReadsAll e ms [.data (ms.map frame).flatten] := by
  refine ⟨List.length_pos_iff.mpr (flatten_frames_ne_nil hne), ?_, ?_, fun m hm => ?_⟩
  · rwa [hin, canWriteBytesNum_ofSize, length_frames]
  · rw [hread, List.nil_append]
  · have hle := frameLength_le_sum hm
    omega

/-- The server reads the requests and answers them. -/
theorem Asked.serverRead (h : Conversing services s ∧ Unmixed s) (hasked : Asked calls s)
    (hne : calls ≠ []) (hrequests : ((calls.map Prod.fst).map frameLength).sum < 128)
    (hresponses : ((responses services (calls.map Prod.fst)).map frameLength).sum < 1073741824) :
    ∃ s', sessionStep services s (.serverRead
        [.data ((calls.map Prod.fst).map frame).flatten] (calls.length + 1)) = some s' ∧
      (Conversing services s' ∧ Unmixed s') ∧ Answered services calls s' := by
  have hprompt : Prompt s (.serverRead [.data ((calls.map Prod.fst).map frame).flatten]
      (calls.length + 1)) := by
    show ReadsAll s.server s.client.sent [.data ((calls.map Prod.fst).map frame).flatten]
    rw [hasked.sent, hasked.server]
    exact readsAll_frames rfl rfl (fun hnil => hne (List.map_eq_nil_iff.mp hnil)) hrequests
  have hlength : s.client.sent.length < calls.length + 1 := by
    rw [hasked.sent, List.length_map]
    exact Nat.lt_succ_self _
  have hthere : s.server.read ++ ((calls.map Prod.fst).map frame).flatten <+:
      s.client.out.accepted := by
    rw [hasked.accepted, hasked.sent, hasked.server]
    exact List.prefix_rfl
  obtain ⟨server, new, hread, hreadAll, hup⟩ :=
    h.1.toServer.reads_all h.1.client.limits (by rw [hasked.server]; rfl)
      (by rw [hasked.server]; rfl) hprompt hthere hlength
  have hon := Endpoint.readOn hread
  have hdecoded : server.decoded = (calls.map Prod.fst).map delivered := by
    have hreceives := h.1.toServer.onRead h.1.client.limits h.1.client.accepted
      (h.1.orderly hprompt) hread
    rw [hreceives.all (by rw [hreadAll, hasked.server, hasked.sent]; rfl), hasked.sent]
  have hnew : dispatchAll services s.server.decoded.length new =
      responses services (calls.map Prod.fst) := by
    have hall := hon.decoded.symm.trans hdecoded
    rw [hasked.server] at hall ⊢
    rw [responses, ← hall]
    rfl
  have hempty : server.connection.outBuffer = TcpBuffer.ofSize 128 bufferSize_lt := by
    rw [hon.outBuffer, hasked.server]
    rfl
  have hlimits : ∀ m ∈ responses services (calls.map Prod.fst), WithinLimits m := by
    refine responses_withinLimits fun m hm => ?_
    obtain ⟨call, hcall, rfl⟩ := List.mem_map.mp hm
    exact h.1.limits call (by rwa [hasked.pushed])
  obtain ⟨server', hreply, hreadable, hstate, hloops, haccepted⟩ :=
    Endpoint.replies hlimits hresponses hempty
  have hreplied := Endpoint.replied hreply
  have hstep : sessionStep services s (.serverRead
      [.data ((calls.map Prod.fst).map frame).flatten] (calls.length + 1)) =
        some { s with server := server' } := by
    show Option.bind _ _ = _
    rw [hread]
    show Option.map _ (server.reply (dispatchAll services s.server.decoded.length new)) = _
    rw [hnew, hreply]
    rfl
  have hsent : server'.sent = responses services (calls.map Prod.fst) := by
    rw [hreplied.sent, hon.sent, hasked.server]
    rfl
  refine ⟨_, hstep, Conversing.goes h hprompt trivial hstep, hasked.pushed, hsent,
    hstate.trans hup, ?_, hasked.accepted, ?_, ?_, ?_, hasked.up, hasked.returns, hasked.written,
    hasked.inBuffer, hasked.read⟩
  · show server'.loops = false
    rw [hloops, hon.loops, hasked.server]
    rfl
  · show server'.read = s.client.out.accepted
    rw [hreplied.read, hreadAll, hasked.accepted, hasked.server, hasked.sent]
    rfl
  · show server'.out.accepted = []
    rw [haccepted, hon.accepted, hasked.server]
    rfl
  · show server'.connection.outBuffer.readable = (server'.sent.map frame).flatten
    rw [hsent]
    exact hreadable

/-- The responses have been sent. -/
structure Replied (services : Nat → ServiceMap M) (calls : List (ProtobufProtocol × κ))
    (s : Session κ) : Prop where
  pushed : s.pushed = calls
  sent : s.server.sent = responses services (calls.map Prod.fst)
  requests : s.client.out.accepted = (s.client.sent.map frame).flatten
  read : s.server.read = s.client.out.accepted
  accepted : s.server.out.accepted = (s.server.sent.map frame).flatten
  up : s.client.connection.state = .connected
  returns : s.client.loops = false
  written : s.client.connection.writeDones = []
  inBuffer : s.client.connection.inBuffer = TcpBuffer.ofSize 128 bufferSize_lt
  unread : s.client.read = []

theorem responses_ne_nil (hne : calls ≠ []) : responses services (calls.map Prod.fst) ≠ [] := by
  rw [← List.length_pos_iff, responses, length_dispatchAll, List.length_map, List.length_map]
  exact List.length_pos_iff.mpr hne

theorem Answered.serverWrite (h : Conversing services s ∧ Unmixed s)
    (hanswered : Answered services calls s) (hne : calls ≠ []) :
    ∃ s', sessionStep services s (.serverWrite
        [.accepted ((responses services (calls.map Prod.fst)).map frame).flatten.length]) =
          some s' ∧
      (Conversing services s' ∧ Unmixed s') ∧ Replied services calls s' := by
  have hencode : toEncode s.server.connection = [] := by
    refine if_neg fun hclient => ?_
    have htype := h.1.serverType.symm.trans hclient.2
    cases htype
  have hreadable := hanswered.outBuffer
  rw [hanswered.sent] at hreadable
  obtain ⟨server, w, hs, hw, -, hsent, -⟩ :=
    @Endpoint.writes_all Unit s.server [] s.server.connection.outBuffer hanswered.up
      hanswered.returns (by rw [hencode]; rfl)
      (by rw [hreadable]; exact flatten_frames_ne_nil (responses_ne_nil hne))
  rw [hreadable] at hs hsent
  have hstep : sessionStep services s (.serverWrite
      [.accepted ((responses services (calls.map Prod.fst)).map frame).flatten.length]) =
        some { s with server := server } := by
    show Option.map _ _ = _
    rw [hs]
    rfl
  have hprompt : Prompt s (.serverWrite
      [.accepted ((responses services (calls.map Prod.fst)).map frame).flatten.length]) :=
    acceptsOnce_of_nil hanswered.accepted _
  have hsame : server.sent = s.server.sent := by
    rw [hw.sent, hencode, List.append_nil]
  refine ⟨_, hstep, Conversing.goes h hprompt trivial hstep, hanswered.pushed,
    hsame.trans hanswered.sent, hanswered.requests, hw.read.trans hanswered.read, ?_,
    hanswered.clientUp, hanswered.clientReturns, hanswered.written, hanswered.inBuffer,
    hanswered.unread⟩
  show server.out.accepted = (server.sent.map frame).flatten
  rw [hsame, hanswered.sent, hw.out]
  show s.server.out.accepted ++ w.sent = _
  rw [hanswered.accepted, hsent, List.nil_append]

/-- The client reads the responses, and nothing is under way any more. -/
theorem Replied.clientRead (h : Conversing services s ∧ Unmixed s)
    (hreplied : Replied services calls s) (hne : calls ≠ [])
    (hresponses : ((responses services (calls.map Prod.fst)).map frameLength).sum < 128) :
    ∃ s', sessionStep services s (.clientRead
        [.data ((responses services (calls.map Prod.fst)).map frame).flatten]
        (calls.length + 1)) = some s' ∧
      (Conversing services s' ∧ Unmixed s') ∧ s'.pushed = calls ∧ s'.Settled := by
  have hprompt : Prompt s (.clientRead
      [.data ((responses services (calls.map Prod.fst)).map frame).flatten]
      (calls.length + 1)) := by
    show ReadsAll s.client s.server.sent
      [.data ((responses services (calls.map Prod.fst)).map frame).flatten]
    rw [hreplied.sent]
    exact readsAll_frames hreplied.inBuffer hreplied.unread (responses_ne_nil hne) hresponses
  have hlength : s.server.sent.length < calls.length + 1 := by
    rw [hreplied.sent, responses, length_dispatchAll, List.length_map, List.length_map]
    exact Nat.lt_succ_self _
  have hthere : s.client.read ++ ((responses services (calls.map Prod.fst)).map frame).flatten <+:
      s.server.out.accepted := by
    rw [hreplied.accepted, hreplied.sent, hreplied.unread]
    exact List.prefix_rfl
  obtain ⟨client, new, hread, hreadAll, -⟩ :=
    h.1.toClient.reads_all h.1.server.limits hreplied.up hreplied.returns hprompt hthere hlength
  have hon := Endpoint.readOn hread
  have hstep : sessionStep services s (.clientRead
      [.data ((responses services (calls.map Prod.fst)).map frame).flatten]
      (calls.length + 1)) = some
        { s with
          client := client
          called := s.called ++ responseCalls client.connection new } := by
    show Option.map _ _ = _
    rw [hread]
    rfl
  have hnext := Conversing.goes h hprompt trivial hstep
  refine ⟨_, hstep, hnext, hreplied.pushed, hon.loops.trans hreplied.returns,
    hon.writeDones.trans hreplied.written, ?_, ?_, ?_, ?_⟩
  · rw [hnext.1.client.bytes]
    show client.out.accepted = (client.sent.map frame).flatten
    rw [hon.accepted, hon.sent]
    exact hreplied.requests
  · exact hreplied.read.trans hon.accepted.symm
  · exact hreplied.accepted.trans h.1.server.bytes.symm
  · show client.read = s.server.out.accepted
    rw [hreadAll, hreplied.unread, hreplied.accepted, hreplied.sent]
    rfl

end Run

/-- **Remote calls come back.**  Requests within the limits, with `msg_id`s of their own, whose
frames fit into an input buffer together, as those of their responses do, are all answered: the
round trip goes through, and runs their callbacks in order, each with the response that the
dispatcher gives to its request. -/
theorem round_trip_completes (services : Nat → ServiceMap M)
    (calls : List (ProtobufProtocol × κ)) (hne : calls ≠ [])
    (hlimits : ∀ call ∈ calls, WithinLimits call.1)
    (hnodup : (calls.map fun call => call.1.msgId).Nodup)
    (hrequests : ((calls.map Prod.fst).map frameLength).sum < 128)
    (hresponses : ((responses services (calls.map Prod.fst)).map frameLength).sum < 128) :
    ∃ s, after (sessionStep services) (Session.start κ) (roundTrip services calls) = some s ∧
      s.called = (calls.map Prod.snd).zip
        ((responses services (calls.map Prod.fst)).map delivered) := by
  obtain ⟨listens, hrun, h⟩ := @after_writeMessages M κ services calls hlimits hnodup
  obtain ⟨s₁, hwrite, h, hasked⟩ := clientWrite_asked h hne (by omega)
  obtain ⟨s₂, hread, h, hanswered⟩ := hasked.serverRead h hne hrequests (by omega)
  obtain ⟨s₃, hwrite', h, hreplied⟩ := hanswered.serverWrite h hne
  obtain ⟨s₄, hread', h, hpushed, hsettled⟩ := hreplied.clientRead h hne hresponses
  refine ⟨s₄, ?_, ?_⟩
  · rw [roundTrip, after_append, hrun]
    simp only [Option.bind_some, after, hwrite, hread, hwrite', hread']
  · rw [h.2.called, h.1.received_all hsettled, Session.remote, hpushed]

theorem round_trip_completes_mixedCalls :
    ∃ s, after (sessionStep echoServices) (Session.start Nat) (roundTrip echoServices mixedCalls) =
        some s ∧
      s.called = (mixedCalls.map Prod.snd).zip
        ((responses echoServices (mixedCalls.map Prod.fst)).map delivered) :=
  round_trip_completes echoServices mixedCalls (by decide) (by decide) (by decide)
    (by decide +kernel) (by decide +kernel)

end TinyRpc
