/-
TinyRpc/RpcDispatcher.lean

The server's dispatcher: a table of services under their full names, and the
way a request finds its method.

A client sends `method->full_name()`: the full name of the service, a dot, and
the name of the method.  The dispatcher takes what stands before the *first* dot
for the service.  The two agree exactly on services whose full name has no dot,
that is, on services without a package: `dispatched_iff`.

`M` is the type of protobuf messages.  What a method does with them comes from
generated code and from the user, and is a field of the method.
-/
import TinyRpc.RpcController
import Mathlib.Data.List.Nodup
import Mathlib.Logic.Function.Basic

namespace TinyRpc

variable {M : Type}

/-- `'.'`. -/
def dot : UInt8 := 46

/-! ### Services -/

/-- A method of a service, with the functions of its two message types. -/
structure Method (M : Type) where
  /-- the simple name -/
  name : List UInt8
  /-- `ParseFromString` on the request prototype -/
  parse : List UInt8 → Option M
  /-- `CallMethod`: the controller and the response after it -/
  callMethod : RpcController → M → RpcController × M
  /-- `SerializeToString` on the response -/
  serialize : M → Option (List UInt8)

/-- A service with its descriptor: simple names have no dot, and each names one method. -/
structure Service (M : Type) where
  fullName : List UInt8
  methods : List (Method M)
  dot_free : ∀ m ∈ methods, dot ∉ m.name
  names_nodup : (methods.map Method.name).Nodup

/-- `FindMethodByName`. -/
def Service.findMethodByName (s : Service M) (name : List UInt8) : Option (Method M) :=
  s.methods.find? fun m => m.name = name

/-- `m_service_map`. -/
abbrev ServiceMap (M : Type) := List UInt8 → Option (Service M)

/-- `register_service`. -/
def registerService (services : ServiceMap M) (service : Service M) : ServiceMap M :=
  Function.update services service.fullName (some service)

/-- The table after a sequence of registrations. -/
def registered (all : List (Service M)) : ServiceMap M :=
  all.foldl registerService fun _ => none

/-! ### The dispatcher -/

/-- `parse_service_full_name`: what stands before the first dot, and what after it. -/
def parseServiceFullName (fullName : List UInt8) : Option (List UInt8 × List UInt8) :=
  if fullName = [] then none
  else
    match fullName.findIdx? (· = dot) with
    | none => none
    | some pos => some (fullName.take pos, fullName.drop (pos + 1))

/-- `set_protubuf_error`. -/
def setProtubufError (msg : ProtobufProtocol) (errCode : Int32) (errInfo : List UInt8) :
    ProtobufProtocol :=
  { msg with
    errCode := errCode
    errInfoLen := Int32.ofNat errInfo.length
    errInfo := errInfo }

/-- What a call of `dispatcher` comes to. -/
structure Dispatched (M : Type) where
  response : ProtobufProtocol
  /-- the service and the method it has found -/
  target : Option (Service M × Method M)
  /-- the controller, as the handler has left it -/
  controller : Option RpcController

section Effects

variable {F : Type → Type} [Monad F]

/-- The part of `dispatcher` that works on a method it has found, by what a call of a handler
is. -/
def callServiceIn (call : Method M → RpcController → M → F (RpcController × M))
    (service : Service M) (method : Method M) (request response : ProtobufProtocol) :
    F (Dispatched M) :=
  let target := some (service, method)
  match method.parse request.pbData with
  | none =>
      pure ⟨setProtubufError response errorFailedDeserialize (text "serialize error"), target,
        none⟩
  | some reqMessage => do
      let (controller, rspMessage) ←
        call method (RpcController.setMsgId {} request.msgId) reqMessage
      match method.serialize rspMessage with
      -- the error code is that of a missing service
      | none =>
          pure ⟨setProtubufError response errorServiceNotFound (text "serilize error"), target,
            some controller⟩
      | some pbData =>
          pure ⟨{ response with pbData := pbData, errCode := 0 }, target, some controller⟩

/-- `dispatcher`, by what a call of a handler is. -/
def dispatcherIn (call : Method M → RpcController → M → F (RpcController × M))
    (services : ServiceMap M) (request response : ProtobufProtocol) : F (Dispatched M) :=
  let response := { response with msgId := request.msgId, methodName := request.methodName }
  match parseServiceFullName request.methodName with
  | none =>
      pure ⟨setProtubufError response errorParseServiceName (text "parse service name error"),
        none, none⟩
  | some (serviceName, methodName) =>
      match services serviceName with
      | none =>
          pure ⟨setProtubufError response errorServiceNotFound (text "service not found"), none,
            none⟩
      | some service =>
          match service.findMethodByName methodName with
          | none =>
              pure ⟨setProtubufError response errorMethodNotFound (text "method not found"), none,
                none⟩
          | some method => callServiceIn call service method request response

end Effects

/-- The same, where the handler is called and nothing else happens. -/
def callService (service : Service M) (method : Method M)
    (request response : ProtobufProtocol) : Dispatched M :=
  Id.run (callServiceIn (fun method controller reqMessage =>
    pure (method.callMethod controller reqMessage)) service method request response)

/-- `dispatcher`. -/
def dispatcher (services : ServiceMap M) (request response : ProtobufProtocol) : Dispatched M :=
  Id.run (dispatcherIn (fun method controller reqMessage =>
    pure (method.callMethod controller reqMessage)) services request response)

/-! ### Names -/

/-- `method->full_name()`. -/
def methodFullName (s : Service M) (m : Method M) : List UInt8 := s.fullName ++ dot :: m.name

/-- The name is cut at its first dot. -/
theorem parseServiceFullName_first {a b : List UInt8} (ha : dot ∉ a) :
    parseServiceFullName (a ++ dot :: b) = some (a, b) := by
  have hne : a ++ dot :: b ≠ [] := List.append_ne_nil_of_right_ne_nil a (List.cons_ne_nil _ _)
  rw [parseServiceFullName, if_neg hne, Bytes.findIdx?_first ha]
  simp

/-- A method is found under its name, -/
theorem Service.findMethodByName_of_mem (s : Service M) {m : Method M} (hm : m ∈ s.methods) :
    s.findMethodByName m.name = some m := by
  unfold findMethodByName
  cases hfind : s.methods.find? fun m' => m'.name = m.name with
  | none =>
      have hnot := List.find?_eq_none.mp hfind m hm
      exact absurd (decide_eq_true rfl) hnot
  | some m' =>
      have hname : m'.name = m.name := by simpa using List.find?_some hfind
      have hmem := List.mem_of_find?_eq_some hfind
      rw [List.inj_on_of_nodup_map s.names_nodup hmem hm hname]

/-- and none under a name with a dot. -/
theorem Service.findMethodByName_of_dot (s : Service M) {name : List UInt8} (h : dot ∈ name) :
    s.findMethodByName name = none := by
  unfold findMethodByName
  rw [List.find?_eq_none]
  intro m hm hname
  have hname : m.name = name := of_decide_eq_true hname
  exact s.dot_free m hm (hname ▸ h)

theorem foldl_registerService {all : List (Service M)} {services : ServiceMap M}
    {name : List UInt8} (h : ∀ s ∈ all, s.fullName ≠ name) :
    all.foldl registerService services name = services name := by
  induction all generalizing services with
  | nil => rfl
  | cons s all ih =>
      rw [List.foldl_cons, ih fun t ht => h t (List.mem_cons_of_mem s ht)]
      exact Function.update_of_ne (h s List.mem_cons_self).symm _ _

/-- Services with different names are all registered. -/
theorem registered_of_mem {all : List (Service M)} (hall : (all.map Service.fullName).Nodup)
    {s : Service M} (hs : s ∈ all) : registered all s.fullName = some s := by
  have hgen : ∀ services : ServiceMap M,
      all.foldl registerService services s.fullName = some s := by
    induction all with
    | nil => exact absurd hs List.not_mem_nil
    | cons t all ih =>
        intro services
        obtain ⟨hnew, hrest⟩ := List.nodup_cons.mp hall
        rcases List.mem_cons.mp hs with rfl | hmem
        · -- no later registration has the name of `s`
          have hother : ∀ t ∈ all, t.fullName ≠ s.fullName := fun t ht heq =>
            hnew (heq ▸ List.mem_map_of_mem ht)
          rw [List.foldl_cons, foldl_registerService hother]
          exact Function.update_self _ _ _
        · exact ih hrest hmem _
  exact hgen _

/-! ### Where a request goes -/

/-- The request comes to the method `m` of the service `s`, and the response has none of
the three errors of a name that leads nowhere. -/
def DispatchedTo (services : ServiceMap M) (s : Service M) (m : Method M)
    (request response : ProtobufProtocol) : Prop :=
  let d := dispatcher services request response
  d.target = some (s, m) ∧ d.response.errCode ≠ errorParseServiceName ∧
    d.response.errCode ≠ errorServiceNotFound ∧ d.response.errCode ≠ errorMethodNotFound

/-- The handler's response, for a request that parses to `reqMessage`. -/
def rspMessage (m : Method M) (request : ProtobufProtocol) (reqMessage : M) : M :=
  (m.callMethod (RpcController.setMsgId {} request.msgId) reqMessage).2

/-- If the payload of the request parses, what the handler makes of it serialises. -/
def ResponseSerialises (m : Method M) (request : ProtobufProtocol) : Prop :=
  ∀ reqMessage, m.parse request.pbData = some reqMessage →
    (m.serialize (rspMessage m request reqMessage)).isSome = true

variable {services : ServiceMap M} {s : Service M} {m : Method M}
  {request response : ProtobufProtocol}

theorem callService_target :
    (callService s m request response).target = some (s, m) := by
  unfold callService callServiceIn
  cases m.parse request.pbData with
  | none => rfl
  | some reqMessage =>
      dsimp only [Id.run, pure, bind]
      cases m.serialize (m.callMethod (RpcController.setMsgId {} request.msgId) reqMessage).2 with
      | none => rfl
      | some pbData => rfl

/-- The error codes of a method that has been found.  A response that does not serialise
is reported as a missing service. -/
theorem callService_errCode :
    (callService s m request response).response.errCode =
      match m.parse request.pbData with
      | none => errorFailedDeserialize
      | some reqMessage =>
          if (m.serialize (rspMessage m request reqMessage)).isSome then 0
          else errorServiceNotFound := by
  unfold callService callServiceIn rspMessage
  cases m.parse request.pbData with
  | none => rfl
  | some reqMessage =>
      dsimp only [Id.run, pure, bind]
      cases m.serialize (m.callMethod (RpcController.setMsgId {} request.msgId) reqMessage).2 with
      | none => rfl
      | some pbData => rfl

/-- The response of a method that has been found has none of the three errors, unless it
does not serialise. -/
theorem callService_errors :
    ((callService s m request response).response.errCode ≠ errorServiceNotFound ↔
        ResponseSerialises m request) ∧
      (callService s m request response).response.errCode ≠ errorParseServiceName ∧
      (callService s m request response).response.errCode ≠ errorMethodNotFound := by
  rw [callService_errCode]
  unfold ResponseSerialises
  cases hparse : m.parse request.pbData with
  | none =>
      dsimp only
      refine ⟨⟨fun _ reqMessage h => (nomatch h), fun _ => ?_⟩, ?_, ?_⟩ <;> decide
  | some reqMessage =>
      dsimp only
      by_cases hser : (m.serialize (rspMessage m request reqMessage)).isSome = true
      · rw [if_pos hser]
        refine ⟨⟨fun _ reqMessage' h => ?_, fun _ => ?_⟩, ?_, ?_⟩
        · rw [← Option.some.inj h]
          exact hser
        · decide
        · decide
        · decide
      · rw [if_neg hser]
        refine ⟨⟨fun h => absurd rfl h, fun h => absurd (h reqMessage rfl) hser⟩, ?_, ?_⟩ <;>
          decide

/-- A name without a package leads to its method. -/
theorem dispatcher_of_no_dot (hs : services s.fullName = some s) (hm : m ∈ s.methods)
    (hname : request.methodName = methodFullName s m) (hdot : dot ∉ s.fullName) :
    dispatcher services request response = callService s m request
      { response with msgId := request.msgId, methodName := request.methodName } := by
  have hparse : parseServiceFullName request.methodName = some (s.fullName, m.name) := by
    rw [hname, methodFullName, parseServiceFullName_first hdot]
  unfold dispatcher dispatcherIn
  dsimp only
  rw [hparse]
  dsimp only
  rw [hs]
  dsimp only
  rw [s.findMethodByName_of_mem hm]
  rfl

/-- A name with a package leads nowhere: its first part is no service, or a service whose
methods are asked for a name with a dot. -/
theorem dispatcher_of_dot (hname : request.methodName = methodFullName s m)
    (hdot : dot ∈ s.fullName) : (dispatcher services request response).target = none := by
  obtain ⟨a, b, hsplit, ha⟩ := List.eq_append_cons_of_mem hdot
  have hparse : parseServiceFullName request.methodName = some (a, b ++ dot :: m.name) := by
    rw [hname, methodFullName, hsplit, List.append_assoc, List.cons_append,
      parseServiceFullName_first ha]
  have hrest : dot ∈ b ++ dot :: m.name := List.mem_append_right b List.mem_cons_self
  unfold dispatcher dispatcherIn
  dsimp only
  rw [hparse]
  dsimp only
  cases hfind : services a with
  | none => rfl
  | some s' =>
      dsimp only
      rw [s'.findMethodByName_of_dot hrest]
      rfl

/-- **Exactly which requests reach their method**: those to a service whose full name has
no dot, if the handler's response serialises. -/
theorem dispatched_iff (all : List (Service M)) (s : Service M) (m : Method M)
    (request response : ProtobufProtocol) (hs : registered all s.fullName = some s)
    (hm : m ∈ s.methods) (hname : request.methodName = methodFullName s m) :
    DispatchedTo (registered all) s m request response ↔
      dot ∉ s.fullName ∧ ResponseSerialises m request := by
  unfold DispatchedTo
  dsimp only
  by_cases hdot : dot ∈ s.fullName
  · rw [dispatcher_of_dot hname hdot]
    exact ⟨fun h => absurd h.1 nofun, fun h => absurd hdot h.1⟩
  · obtain ⟨hservice, hparse, hmethod⟩ := @callService_errors M s m request
      { response with msgId := request.msgId, methodName := request.methodName }
    rw [dispatcher_of_no_dot hs hm hname hdot, callService_target]
    constructor
    · rintro ⟨-, -, hne, -⟩
      exact ⟨hdot, hservice.mp hne⟩
    · rintro ⟨-, hser⟩
      exact ⟨rfl, hparse, hservice.mpr hser, hmethod⟩

/-- A method that answers with the bytes it is sent. -/
def echoMethod : Method (List UInt8) where
  name := [109]
  parse := some
  callMethod := fun controller reqMessage => (controller, reqMessage)
  serialize := some

/-- A service with the one method. -/
def echoService (fullName : List UInt8) : Service (List UInt8) where
  fullName := fullName
  methods := [echoMethod]
  dot_free := by decide
  names_nodup := by decide

theorem registered_echoService (fullName : List UInt8) :
    registered [echoService fullName] (echoService fullName).fullName
      = some (echoService fullName) :=
  registered_of_mem (by simp) List.mem_cons_self

/-- A request for the method. -/
def echoRequest (fullName : List UInt8) : ProtobufProtocol :=
  { msgId := [49], methodName := methodFullName (echoService fullName) echoMethod }

/-- The service `a.b` is looked up as `a`. -/
theorem packaged_service_not_found :
    (dispatcher (registered [echoService [97, dot, 98]])
        (echoRequest [97, dot, 98]) {}).response.errCode = errorServiceNotFound ∧
      ¬ ∀ (all : List (Service (List UInt8))) (s : Service (List UInt8))
        (m : Method (List UInt8)) (request response : ProtobufProtocol),
        registered all s.fullName = some s → m ∈ s.methods →
          request.methodName = methodFullName s m →
            DispatchedTo (registered all) s m request response := by
  have hcode : (dispatcher (registered [echoService [97, dot, 98]])
      (echoRequest [97, dot, 98]) {}).response.errCode = errorServiceNotFound := by
    decide +kernel
  refine ⟨hcode, fun h => ?_⟩
  have hto := h [echoService [97, dot, 98]] (echoService [97, dot, 98]) echoMethod
    (echoRequest [97, dot, 98]) {} (registered_echoService _) List.mem_cons_self rfl
  exact hto.2.2.1 hcode

/-- Without a package, the request reaches its method. -/
theorem unpackaged_service_found :
    DispatchedTo (registered [echoService [97]]) (echoService [97]) echoMethod
      (echoRequest [97]) {} :=
  (dispatched_iff [echoService [97]] (echoService [97]) echoMethod (echoRequest [97]) {}
    (registered_echoService _) List.mem_cons_self rfl).mpr ⟨by decide, fun _ _ => rfl⟩

end TinyRpc
