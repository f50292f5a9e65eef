/-
TinyRpc/HandlerFailure.lean

What becomes of a call that its handler fails on the server.

A handler gets a controller, and two ways to say that the call has failed:
`SetFailed(reason)`, which protobuf prescribes, and `set_error(code, info)`.
Both reach the controller (`errorInfo_calls`), only the second marks it as failed
(`failed_calls`), and nothing reaches the response: the dispatcher sets its error
code to `0` after the call and never looks at the controller.  So a response says
what the handler said exactly when the handler said nothing: `dispatcher_reports_iff`.
-/
import TinyRpc.RpcDispatcher

namespace TinyRpc

variable {M : Type}

/-! ### Handlers -/

/-- A call of a handler on its controller. -/
inductive ControllerCall where
  | setFailed (reason : List UInt8)
  | setError (code : Int32) (info : List UInt8) (hcode : code ≠ 0)

namespace ControllerCall

def apply (c : RpcController) : ControllerCall → RpcController
  | .setFailed reason => c.setFailed reason
  | .setError code info _ => c.setError code info

/-- The reason that the call gives. -/
def reason : ControllerCall → List UInt8
  | .setFailed reason => reason
  | .setError _ info _ => info

/-- The call goes through `set_error`. -/
def IsSetError : ControllerCall → Prop
  | .setFailed _ => False
  | .setError _ _ _ => True

end ControllerCall

/-- A method of a service, by what its handler says on the controller and answers. -/
structure Handler (M : Type) where
  name : List UInt8
  parse : List UInt8 → Option M
  handle : RpcController → M → List ControllerCall × M
  serialize : M → Option (List UInt8)

namespace Handler

def method (h : Handler M) : Method M where
  name := h.name
  parse := h.parse
  callMethod controller reqMessage :=
    let done := h.handle controller reqMessage
    (done.1.foldl ControllerCall.apply controller, done.2)
  serialize := h.serialize

/-- The controller that the dispatcher hands to the handler. -/
def controller (request : ProtobufProtocol) : RpcController :=
  RpcController.setMsgId {} request.msgId

/-- What the handler says when it gets the request. -/
def calls (h : Handler M) (request : ProtobufProtocol) (reqMessage : M) : List ControllerCall :=
  (h.handle (controller request) reqMessage).1

/-- What the handler answers. -/
def answer (h : Handler M) (request : ProtobufProtocol) (reqMessage : M) : M :=
  (h.handle (controller request) reqMessage).2

end Handler

/-! ### On the controller -/

/-- The controller holds the last reason given. -/
theorem errorInfo_calls (calls : List ControllerCall) (last : ControllerCall)
    (c : RpcController) :
    ((calls ++ [last]).foldl ControllerCall.apply c).errorInfo = last.reason := by
  rw [List.foldl_append]
  rcases last with reason | ⟨code, info, hcode⟩
  · rfl
  · rfl

/-- `SetFailed` leaves `Failed()` as it is. -/
theorem failed_calls (calls : List ControllerCall) (c : RpcController) :
    (calls.foldl ControllerCall.apply c).failed = true ↔
      c.failed = true ∨ ∃ call ∈ calls, call.IsSetError := by
  induction calls generalizing c with
  | nil => simp
  | cons call calls ih =>
      rw [List.foldl_cons, ih]
      rcases call with reason | ⟨code, info, hcode⟩
      · simp [ControllerCall.apply, ControllerCall.IsSetError, RpcController.setFailed,
          RpcController.failed]
      · simp [ControllerCall.apply, ControllerCall.IsSetError, RpcController.setError,
          RpcController.failed]

/-! ### On the response -/

/-- The response says what the handler said: nothing and code `0`, or the last reason and
a code for it. -/
def ReportsCalls (calls : List ControllerCall) (response : ProtobufProtocol) : Prop :=
  match calls.getLast? with
  | none => response.errCode = 0
  | some last => response.errCode ≠ 0 ∧ response.errInfo = last.reason

variable {services : ServiceMap M} {s : Service M} {m : Method M}
  {request response : ProtobufProtocol}

/-- What is found is called. -/
theorem dispatcher_of_target (h : (dispatcher services request response).target = some (s, m)) :
    dispatcher services request response = callService s m request
      { response with msgId := request.msgId, methodName := request.methodName } := by
  unfold dispatcher dispatcherIn at h ⊢
  dsimp only at h ⊢
  split at h
  · cases h
  · split at h
    · cases h
    · split at h
      · cases h
      · have hfound := callService_target.symm.trans h
        cases hfound
        rfl

/-- **The dispatcher reports success, whatever the handler has said.** -/
theorem dispatcher_errCode {h : Handler M} {reqMessage : M}
    (htarget : (dispatcher services request response).target = some (s, h.method))
    (hparse : h.parse request.pbData = some reqMessage)
    (hser : (h.serialize (h.answer request reqMessage)).isSome = true) :
    (dispatcher services request response).response.errCode = 0 := by
  have hparse' : h.method.parse request.pbData = some reqMessage := hparse
  rw [dispatcher_of_target htarget, callService_errCode, hparse']
  exact if_pos hser

/-- **Exactly which handlers the response is true of**: those that have nothing to report. -/
theorem dispatcher_reports_iff (services : ServiceMap M) (s : Service M) (h : Handler M)
    (request response : ProtobufProtocol) (reqMessage : M)
    (htarget : (dispatcher services request response).target = some (s, h.method))
    (hparse : h.parse request.pbData = some reqMessage)
    (hser : (h.serialize (h.answer request reqMessage)).isSome = true) :
    ReportsCalls (h.calls request reqMessage) (dispatcher services request response).response ↔
      h.calls request reqMessage = [] := by
  have hzero := dispatcher_errCode htarget hparse hser
  unfold ReportsCalls
  constructor
  · intro hreport
    cases hlast : (h.calls request reqMessage).getLast? with
    | none => exact List.getLast?_eq_none_iff.mp hlast
    | some last =>
        rw [hlast] at hreport
        exact absurd hzero hreport.1
  · intro hnil
    rw [hnil]
    exact hzero

/-- A handler that refuses, in the way protobuf prescribes. -/
def refusingHandler : Handler (List UInt8) where
  name := [109]
  parse := some
  handle := fun _ reqMessage => ([.setFailed (text "no")], reqMessage)
  serialize := some

/-- A handler that has nothing to say. -/
def silentHandler : Handler (List UInt8) :=
  { refusingHandler with handle := fun _ reqMessage => ([], reqMessage) }

/-- A service with the one method. -/
def handlerService (h : Handler (List UInt8)) (hname : dot ∉ h.name) :
    Service (List UInt8) where
  fullName := [97]
  methods := [h.method]
  dot_free := by simpa [Handler.method] using hname
  names_nodup := List.nodup_singleton _

theorem dot_notMem_name : dot ∉ refusingHandler.name := by decide

/-- A request for the method. -/
def handlerRequest (h : Handler (List UInt8)) (hname : dot ∉ h.name) : ProtobufProtocol :=
  { msgId := [49], methodName := methodFullName (handlerService h hname) h.method }

/-- The request comes to the handler. -/
theorem target_handlerService {h : Handler (List UInt8)} (hname : dot ∉ h.name) :
    (dispatcher (registered [handlerService h hname]) (handlerRequest h hname) {}).target
      = some (handlerService h hname, h.method) := by
  have hdot : dot ∉ (handlerService h hname).fullName := by simp [handlerService, dot]
  have hmem : h.method ∈ (handlerService h hname).methods := List.mem_cons_self
  rw [dispatcher_of_no_dot (registered_of_mem (by simp) List.mem_cons_self) hmem rfl hdot]
  exact callService_target

/-- A response with nothing in it but success, to a call that was refused. -/
theorem refused_call_reported_as_success :
    ¬ ∀ (services : ServiceMap (List UInt8)) (s : Service (List UInt8))
      (h : Handler (List UInt8)) (request response : ProtobufProtocol)
      (reqMessage : List UInt8),
      (dispatcher services request response).target = some (s, h.method) →
        h.parse request.pbData = some reqMessage →
          (h.serialize (h.answer request reqMessage)).isSome = true →
            ReportsCalls (h.calls request reqMessage)
              (dispatcher services request response).response := by
  intro hall
  have htarget := target_handlerService dot_notMem_name
  have hreport := hall _ _ refusingHandler _ {} [] htarget rfl rfl
  exact hreport.1 (dispatcher_errCode htarget rfl rfl)

/-- A handler with nothing to report. -/
theorem silent_call_reported :
    ReportsCalls (silentHandler.calls (handlerRequest silentHandler dot_notMem_name) [])
      (dispatcher (registered [handlerService silentHandler dot_notMem_name])
        (handlerRequest silentHandler dot_notMem_name) {}).response :=
  (dispatcher_reports_iff _ _ silentHandler _ {} []
    (@target_handlerService silentHandler dot_notMem_name) rfl rfl).mpr rfl

end TinyRpc
