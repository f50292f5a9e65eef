/-
TinyRpc/DispatchStages.lean

The stages of `dispatcher`, and what the response says of the one that failed.

A request passes four checks before its handler is called, and its response one more.
`stageOf` is the first check that fails, with the calls of handlers made by then.  The
dispatcher makes exactly these calls (`dispatcherIn_invoke`), and every check has an error
code of its own, but the last one reports the code of the second: `reports_iff`.
-/
import TinyRpc.Excute

namespace TinyRpc

variable {M : Type}

/-! ### The stages -/

inductive Stage
  | parseServiceName
  | serviceNotFound
  | methodNotFound
  | failedDeserialize
  | failedSerialize
  | done
  deriving DecidableEq

/-- The error code that is there for the stage. -/
def Stage.errCode : Stage → Int32
  | .parseServiceName => errorParseServiceName
  | .serviceNotFound => errorServiceNotFound
  | .methodNotFound => errorMethodNotFound
  | .failedDeserialize => errorFailedDeserialize
  | .failedSerialize => errorFailedSerialize
  | .done => 0

/-- The stages are told apart by their codes. -/
theorem Stage.errCode_inj {stage stage' : Stage} (h : stage.errCode = stage'.errCode) :
    stage = stage' := by
  cases stage <;> cases stage' <;> first | rfl | exact absurd h (by decide)

/-- A call of a handler. -/
structure Invocation (M : Type) where
  method : Method M
  controller : RpcController
  reqMessage : M

/-- What stands before the first dot. -/
def servicePart (fullName : List UInt8) : List UInt8 := fullName.takeWhile (· ≠ dot)

/-- What stands after it. -/
def methodPart (fullName : List UInt8) : List UInt8 := (fullName.dropWhile (· ≠ dot)).tail

/-- The stage that a request comes to, and the calls made by then. -/
def stageOf (services : ServiceMap M) (request : ProtobufProtocol) :
    Stage × List (Invocation M) :=
  if dot ∈ request.methodName then
    match services (servicePart request.methodName) with
    | none => (.serviceNotFound, [])
    | some service =>
        match service.findMethodByName (methodPart request.methodName) with
        | none => (.methodNotFound, [])
        | some method =>
            match method.parse request.pbData with
            | none => (.failedDeserialize, [])
            | some reqMessage =>
                let calls := [⟨method, RpcController.setMsgId {} request.msgId, reqMessage⟩]
                match method.serialize (rspMessage method request reqMessage) with
                | none => (.failedSerialize, calls)
                | some _ => (.done, calls)
  else (.parseServiceName, [])

/-! ### The calls of the handlers -/

/-- A call of a handler that is noted down. -/
def invoke (method : Method M) (controller : RpcController) (reqMessage : M) :
    StateM (List (Invocation M)) (RpcController × M) := do
  modify fun calls => calls ++ [⟨method, controller, reqMessage⟩]
  pure (method.callMethod controller reqMessage)

/-- The calls of handlers that the dispatcher makes. -/
def invocations (services : ServiceMap M) (request response : ProtobufProtocol) :
    List (Invocation M) :=
  ((dispatcherIn invoke services request response).run []).2

/-- The response has the ids of the request and the code of the stage that the request comes to;
a stage that is done has the payload that the handler's response serialises to; and the
handler is called as often as the stage says. -/
structure Reports (services : ServiceMap M) (request response : ProtobufProtocol) : Prop where
  msgId : (dispatcher services request response).response.msgId = request.msgId
  methodName : (dispatcher services request response).response.methodName = request.methodName
  errCode : ∀ stage, (dispatcher services request response).response.errCode = stage.errCode ↔
    (stageOf services request).1 = stage
  pbData : (stageOf services request).1 = .done →
    ∃ call, (stageOf services request).2 = [call] ∧
      call.method.serialize (rspMessage call.method request call.reqMessage) =
        some (dispatcher services request response).response.pbData
  calls : invocations services request response = (stageOf services request).2

variable {services : ServiceMap M} {request response : ProtobufProtocol}

/-- `parse_service_full_name` cuts at the first dot, and wants one. -/
theorem parseServiceFullName_eq (fullName : List UInt8) :
    parseServiceFullName fullName =
      if dot ∈ fullName then some (servicePart fullName, methodPart fullName) else none := by
  split
  · rename_i hdot
    obtain ⟨a, b, rfl, ha⟩ := List.eq_append_cons_of_mem hdot
    obtain ⟨hservice, hmethod⟩ := @Bytes.before_behind_first a dot b ha
    rw [parseServiceFullName_first ha]
    exact congrArg some (Prod.ext hservice.symm hmethod.symm)
  · rename_i hdot
    unfold parseServiceFullName
    rw [Bytes.findIdx?_none hdot]
    exact ite_self _

/-! ### Stage by stage -/

/-- The code that the response has at a stage: that of a missing service, where the handler's
response does not serialise. -/
def Stage.reportedCode : Stage → Int32
  | .failedSerialize => errorServiceNotFound
  | stage => stage.errCode

/-- What follows on the call of a handler goes on with its answer. -/
theorem invoke_bind_run {α : Type} (method : Method M) (controller : RpcController)
    (reqMessage : M) (next : RpcController × M → StateM (List (Invocation M)) α)
    (calls : List (Invocation M)) :
    (invoke method controller reqMessage >>= next).run calls =
      (next (method.callMethod controller reqMessage)).run
        (calls ++ [⟨method, controller, reqMessage⟩]) := rfl

/-- The dispatcher has come to its result at the stage, with the calls of the stage on its way. -/
structure AtStage (request : ProtobufProtocol) (stage : Stage × List (Invocation M))
    (result : Dispatched M) (run : StateM (List (Invocation M)) (Dispatched M)) : Prop where
  errCode : result.response.errCode = stage.1.reportedCode
  pbData : stage.1 = .done → ∃ call, stage.2 = [call] ∧
    call.method.serialize (rspMessage call.method request call.reqMessage) =
      some result.response.pbData
  calls : ∀ calls, run.run calls = (result, calls ++ stage.2)

/-- A check fails before a handler is called. -/
theorem AtStage.uncalled {stage : Stage} {result : Dispatched M} (hdone : stage ≠ .done)
    (hcode : result.response.errCode = stage.reportedCode) :
    AtStage request (stage, []) result (pure result) := by
  refine ⟨hcode, fun h => absurd h hdone, fun calls => ?_⟩
  rw [List.append_nil]
  rfl

/-- **The dispatcher comes to the stage**, check by check. -/
theorem atStage_dispatcher (services : ServiceMap M) (request response : ProtobufProtocol) :
    AtStage request (stageOf services request) (dispatcher services request response)
      (dispatcherIn invoke services request response) := by
  unfold dispatcher dispatcherIn stageOf
  rw [parseServiceFullName_eq]
  by_cases hdot : dot ∈ request.methodName
  · rw [if_pos hdot, if_pos hdot]
    dsimp only
    cases services (servicePart request.methodName) with
    | none => exact .uncalled nofun rfl
    | some service =>
        dsimp only
        cases service.findMethodByName (methodPart request.methodName) with
        | none => exact .uncalled nofun rfl
        | some method =>
            unfold callServiceIn rspMessage
            dsimp only
            cases method.parse request.pbData with
            | none => exact .uncalled nofun rfl
            | some reqMessage =>
                -- the handler has been called before its answer is looked at
                dsimp only
                rw [pure_bind]
                cases hser : method.serialize
                    (method.callMethod (RpcController.setMsgId {} request.msgId) reqMessage).2 with
                | none =>
                    refine ⟨rfl, nofun, fun calls => ?_⟩
                    rw [invoke_bind_run, hser]
                    rfl
                | some pbData =>
                    refine ⟨rfl, fun _ => ⟨_, rfl, hser⟩, fun calls => ?_⟩
                    rw [invoke_bind_run, hser]
                    rfl
  · rw [if_neg hdot, if_neg hdot]
    exact .uncalled nofun rfl

/-- **The dispatcher calls the handlers of the stage**, and none else. -/
theorem dispatcherIn_invoke (calls : List (Invocation M)) :
    (dispatcherIn invoke services request response).run calls =
      (dispatcher services request response, calls ++ (stageOf services request).2) :=
  (atStage_dispatcher services request response).calls calls

/-- **The response says which stage has failed**, and the handler is called as it should be, if
and only if the stage is not the serialisation of the handler's response. -/
theorem reports_iff (services : ServiceMap M) (request response : ProtobufProtocol) :
    Reports services request response ↔ (stageOf services request).1 ≠ .failedSerialize := by
  constructor
  · intro h hstage
    have hcode := (h.errCode .failedSerialize).mpr hstage
    rw [(atStage_dispatcher ..).errCode, hstage] at hcode
    exact absurd hcode (by decide)
  · intro hstage
    obtain ⟨hid, hname, -⟩ := @dispatcher_response M services request response
    obtain ⟨hcode, hdata, -⟩ := atStage_dispatcher services request response
    have hreported : (stageOf services request).1.reportedCode =
        (stageOf services request).1.errCode := by
      cases hs : (stageOf services request).1 with
      | failedSerialize => exact absurd hs hstage
      | _ => rfl
    refine ⟨hid, hname, fun stage => ?_, hdata, ?_⟩
    · rw [hcode, hreported]
      exact ⟨Stage.errCode_inj, congrArg Stage.errCode⟩
    · rw [invocations, dispatcherIn_invoke]
      rfl

/-- A service whose one method has a response that does not serialise, as one that lacks a required
field. -/
def muteService : Service (List UInt8) where
  fullName := [97]
  methods := [{ echoMethod with serialize := fun _ => none }]
  dot_free := by decide
  names_nodup := by decide

/-- The response that does not serialise is reported as a missing service. -/
theorem unserialised_not_reported :
    (dispatcher (registered [muteService]) (echoRequest [97]) {}).response.errCode =
        errorServiceNotFound ∧
      ¬ ∀ (services : ServiceMap (List UInt8)) (request response : ProtobufProtocol),
        Reports services request response := by
  have hstage : (stageOf (registered [muteService]) (echoRequest [97])).1 = .failedSerialize := by
    decide
  have hcode : (dispatcher (registered [muteService]) (echoRequest [97]) {}).response.errCode =
      errorServiceNotFound := by
    rw [(atStage_dispatcher ..).errCode, hstage]
    rfl
  refine ⟨hcode, fun h => ?_⟩
  have hsaid := ((h (registered [muteService]) (echoRequest [97]) {}).errCode
    .failedSerialize).mpr hstage
  rw [hcode] at hsaid
  exact absurd hsaid (by decide)

end TinyRpc
