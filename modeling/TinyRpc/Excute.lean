/-
TinyRpc/Excute.lean

`TcpConnection::excute` on a server: decode what has been read, dispatch each
request, encode the responses.

A response carries the `msg_id` and the method name of its request on every path
through the dispatcher, and an error text that is short and free of NULs
(`dispatcher_response`).  So the responses stay within the limits of the decoder
on the other side, and what the client decodes is, request by request, what it
asked for: `response_correlates`.
-/
import TinyRpc.RpcDispatcher
import TinyRpc.DecodeBatch
import TinyRpc.OnWrite

namespace TinyRpc

open Checked Bytes TcpBuffer ProtobufProtocol

variable {M κ : Type}

/-! ### The function -/

/-- The responses to `requests`, in order.  `services k` is the table, with what its
handlers do by then, when the request at index `k` is dispatched. -/
def dispatchAll (services : Nat → ServiceMap M) : Nat → List ProtobufProtocol →
    List ProtobufProtocol
  | _, [] => []
  | k, request :: requests =>
      (dispatcher (services k) request {}).response :: dispatchAll services (k + 1) requests

/-- `excute` of a server connection, for at most `fuel` passes of its `decode`. -/
def excuteServer (fuel : Nat) (services : Nat → ServiceMap M) (c : TcpConnection κ) :
    Option (Except Fault (TcpConnection κ)) :=
  (decode fuel c.inBuffer).map fun decoded => do
    let (inBuffer, result) ← decoded
    reply { c with inBuffer := inBuffer } (dispatchAll services 0 result)

/-- `excute` returns, and leaves the connection `c'`. -/
def Excutes (services : Nat → ServiceMap M) (c c' : TcpConnection κ) : Prop :=
  ∃ fuel, excuteServer fuel services c = some (.ok c')

/-! ### The responses -/

/-- The error texts of the dispatcher. -/
def errorTexts : List (List UInt8) :=
  [text "parse service name error", text "service not found", text "method not found",
    text "serialize error", text "serilize error"]

/-- On every path the response has the ids of the request, and the error text it had or
one of the five. -/
structure AnswersTo (request response answer : ProtobufProtocol) : Prop where
  msgId : answer.msgId = request.msgId
  methodName : answer.methodName = request.methodName
  errInfo : answer.errInfo ∈ response.errInfo :: errorTexts

variable {services : ServiceMap M} {request response : ProtobufProtocol}

/-- A method that has been found leaves the ids of the response alone. -/
theorem callService_response {s : Service M} {m : Method M} :
    AnswersTo response response (callService s m request response).response := by
  unfold callService callServiceIn
  dsimp only [Id.run, pure, bind]
  cases m.parse request.pbData with
  | none => exact ⟨rfl, rfl, by simp [setProtubufError, errorTexts]⟩
  | some reqMessage =>
      dsimp only
      cases m.serialize (m.callMethod (RpcController.setMsgId {} request.msgId) reqMessage).2 with
      | none => exact ⟨rfl, rfl, by simp [setProtubufError, errorTexts]⟩
      | some pbData => exact ⟨rfl, rfl, List.mem_cons_self⟩

theorem dispatcher_response :
    AnswersTo request response (dispatcher services request response).response := by
  unfold dispatcher dispatcherIn
  dsimp only
  split
  · exact ⟨rfl, rfl, by simp [setProtubufError, errorTexts]⟩
  · split
    · exact ⟨rfl, rfl, by simp [setProtubufError, errorTexts]⟩
    · split
      · exact ⟨rfl, rfl, by simp [setProtubufError, errorTexts]⟩
      · obtain ⟨hid, hname, herr⟩ := @callService_response M request
          { response with msgId := request.msgId, methodName := request.methodName } _ _
        exact ⟨hid, hname, herr⟩

/-- The error texts are within the limits of the decoder. -/
theorem errorTexts_limits : ∀ t ∈ errorTexts, t.length ≤ 511 ∧ 0 ∉ t := by
  decide +kernel

/-- The response to a request within the limits of the decoder is within them. -/
theorem dispatcher_withinLimits (h : WithinLimits request) :
    WithinLimits (dispatcher services request {}).response := by
  obtain ⟨hid, hname, herr⟩ := @dispatcher_response M services request {}
  have hlimits : (dispatcher services request {}).response.errInfo.length ≤ 511 ∧
      0 ∉ (dispatcher services request {}).response.errInfo := by
    rcases List.mem_cons.mp herr with hnil | hmem
    · rw [hnil]
      exact ⟨Nat.zero_le _, List.not_mem_nil⟩
    · exact errorTexts_limits _ hmem
  constructor
  · rw [hid]
    exact h.msgId_ne_nil
  · rw [hid]
    exact h.msgId_length
  · rw [hname]
    exact h.methodName_length
  · exact hlimits.1
  · rw [hid]
    exact h.msgId_nul
  · rw [hname]
    exact h.methodName_nul
  · exact hlimits.2

/-- What a message is told from others by. -/
def ids (m : ProtobufProtocol) : List UInt8 × List UInt8 := (m.msgId, m.methodName)

/-- **One response for each request, in order, with its ids.** -/
theorem dispatchAll_ids (services : Nat → ServiceMap M) (k : Nat)
    (requests : List ProtobufProtocol) :
    (dispatchAll services k requests).map ids = requests.map ids := by
  induction requests generalizing k with
  | nil => rfl
  | cons request requests ih =>
      obtain ⟨hid, hname, -⟩ := @dispatcher_response M (services k) request {}
      show ids (dispatcher (services k) request {}).response :: _ = ids request :: _
      rw [ih, ids, hid, hname]
      rfl

theorem dispatchAll_withinLimits {services : Nat → ServiceMap M} {k : Nat}
    {requests : List ProtobufProtocol} (h : ∀ m ∈ requests, WithinLimits m) :
    ∀ m ∈ dispatchAll services k requests, WithinLimits m := by
  induction requests generalizing k with
  | nil => exact fun m hm => absurd hm List.not_mem_nil
  | cons request requests ih =>
      intro m hm
      rcases List.mem_cons.mp hm with rfl | hm
      · exact dispatcher_withinLimits (h request List.mem_cons_self)
      · exact ih (fun m' hm' => h m' (List.mem_cons_of_mem _ hm')) m hm

/-- A message that was delivered is within the limits the sent one was in. -/
theorem withinLimits_delivered {m : ProtobufProtocol} (h : WithinLimits m) :
    WithinLimits (delivered m) :=
  ⟨h.1, h.2, h.3, h.4, h.5, h.6, h.7⟩

theorem map_ids_delivered (ms : List ProtobufProtocol) :
    (ms.map delivered).map ids = ms.map ids := by
  rw [List.map_map]
  rfl

/-! ### The whole way -/

/-- The responses that `excute` makes for the requests. -/
def responses (services : Nat → ServiceMap M) (requests : List ProtobufProtocol) :
    List ProtobufProtocol :=
  dispatchAll services 0 (requests.map delivered)

theorem responses_withinLimits {services : Nat → ServiceMap M}
    {requests : List ProtobufProtocol} (h : ∀ m ∈ requests, WithinLimits m) :
    ∀ m ∈ responses services requests, WithinLimits m := by
  apply dispatchAll_withinLimits
  intro m hm
  obtain ⟨m', hm', rfl⟩ := List.mem_map.mp hm
  exact withinLimits_delivered (h m' hm')

theorem sum_withMsgId {ms : List ProtobufProtocol} (h : ∀ m ∈ ms, WithinLimits m) :
    (ms.map fun m => m.withMsgId.frameLength).sum = (ms.map frameLength).sum := by
  congr 1
  apply List.map_congr_left
  intro m hm
  rw [(h m hm).withMsgId]

/-- **`excute` appends the frames of the responses**, and consumes the requests. -/
theorem excutes_responses {services : Nat → ServiceMap M} {c : TcpConnection κ}
    {requests : List ProtobufProtocol} {frames : List (List UInt8)}
    (hreq : ∀ m ∈ requests, WithinLimits m) (henc : List.Forall₂ Encodes requests frames)
    (hread : c.inBuffer.readable = frames.flatten)
    (hspare : c.inBuffer.writeIndex < c.inBuffer.size)
    (hsize : c.outBuffer.writeIndex + ((responses services requests).map frameLength).sum
      < 536870912) :
    ∃ c' replies, Excutes services c c' ∧
      List.Forall₂ Encodes (responses services requests) replies ∧
      c'.outBuffer.readable = c.outBuffer.readable ++ replies.flatten ∧
      c'.inBuffer.readable = [] ∧ c'.listensOut = true := by
  have hlimits := @responses_withinLimits M services requests hreq
  obtain ⟨inBuffer, ⟨fuel, hfuel⟩, hnil⟩ := decode_encode hreq henc c.inBuffer hread hspare
  obtain ⟨ms', out, hout⟩ := @encode_ok (responses services requests) c.outBuffer
    (by rw [sum_withMsgId hlimits]; omega)
  obtain ⟨replies, hreplies, hreadable⟩ := encode_readable hout
  have hreply : reply { c with inBuffer := inBuffer } (responses services requests)
      = .ok { c with inBuffer := inBuffer, outBuffer := out, listensOut := true } := by
    rw [reply, hout, ok_bind]
    rfl
  refine ⟨{ c with inBuffer := inBuffer, outBuffer := out, listensOut := true }, replies,
    ⟨fuel, ?_⟩, hreplies, hreadable, hnil, rfl⟩
  show (Loop.run decodePass fuel c.inBuffer).map _ = _
  rw [hfuel]
  exact congrArg some hreply

/-- **Responses correlate with requests.**  `excute` appends one frame for each request to
the output buffer, and the client that decodes these frames gets, in the order of the
requests, messages with their `msg_id`s and method names. -/
theorem response_correlates (services : Nat → ServiceMap M) (c : TcpConnection κ)
    (requests : List ProtobufProtocol) (frames : List (List UInt8))
    (hreq : ∀ m ∈ requests, WithinLimits m) (henc : List.Forall₂ Encodes requests frames)
    (hread : c.inBuffer.readable = frames.flatten)
    (hspare : c.inBuffer.writeIndex < c.inBuffer.size)
    (hsize : c.outBuffer.writeIndex + ((responses services requests).map frameLength).sum
      < 536870912) :
    ∃ c' replies, Excutes services c c' ∧
      c'.outBuffer.readable = c.outBuffer.readable ++ replies.flatten ∧
      List.Forall₂ Encodes (responses services requests) replies ∧
      replies.length = requests.length ∧
      ∀ b : TcpBuffer, b.readable = replies.flatten → b.writeIndex < b.size →
        ∃ b' received, Loop.Returns decodePass b b' received ∧
          received.map ids = requests.map ids := by
  obtain ⟨c', replies, hexcutes, hreplies, hreadable, -, -⟩ :=
    excutes_responses hreq henc hread hspare hsize
  have hids : (responses services requests).map ids = requests.map ids := by
    rw [responses, dispatchAll_ids, map_ids_delivered]
  have hlength := congrArg List.length hids
  rw [List.length_map, List.length_map] at hlength
  refine ⟨c', replies, hexcutes, hreadable, hreplies, ?_, fun b hb hbspare => ?_⟩
  · rw [← hreplies.length_eq, hlength]
  · obtain ⟨b', hreturns, -⟩ :=
      decode_encode (responses_withinLimits hreq) hreplies b hb hbspare
    refine ⟨b', _, hreturns, ?_⟩
    rw [map_ids_delivered, hids]

theorem withinLimits_echoRequest : WithinLimits (echoRequest [97]) := by
  constructor <;> decide

/-- A request that reaches its method, one that names no service, and a spare byte. -/
def mixedBuffer : TcpBuffer where
  buffer := (echoRequest [97]).frame ++ shortRequest.frame ++ [0]
  readIndex := 0
  writeIndex := 57
  read_le_write := Nat.zero_le 57
  write_le_size := by decide
  size_lt := by decide

theorem response_correlates_mixed :
    ∃ c' replies,
      Excutes (fun _ => registered [echoService [97]])
        { acceptedConnection with inBuffer := mixedBuffer } c' ∧
      c'.outBuffer.readable = acceptedConnection.outBuffer.readable ++ replies.flatten ∧
      List.Forall₂ Encodes
        (responses (fun _ => registered [echoService [97]]) [echoRequest [97], shortRequest])
        replies ∧
      replies.length = 2 ∧
      ∀ b : TcpBuffer, b.readable = replies.flatten → b.writeIndex < b.size →
        ∃ b' received, Loop.Returns decodePass b b' received ∧
          received.map ids = [echoRequest [97], shortRequest].map ids :=
  response_correlates (fun _ => registered [echoService [97]])
    { acceptedConnection with inBuffer := mixedBuffer } [echoRequest [97], shortRequest]
    [(echoRequest [97]).frame, shortRequest.frame]
    (by simp [withinLimits_shortRequest, withinLimits_echoRequest])
    (.cons ⟨_, encodeProtubuf_eq (by decide)⟩ (.cons encodes_shortRequest .nil))
    (by decide) (by decide) (by decide +kernel)

end TinyRpc
