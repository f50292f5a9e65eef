/-
TinyRpc/RpcChannel.lean

One call of `RpcChannel::CallMethod`: the function itself, the callbacks it
hands to the client (after the connect, after the write, on the reply), and the
timer.

The caller learns the result of a call when the closure runs.  Of the ways a
call can end, the timer runs it and so does a reply without error, unless the
call was cancelled from the start; the other ways out (no `RpcController`, the
channel is not initialised, the request does not serialise, the payload of the
reply does not parse, the reply carries an error code) return without it.
`closure_runs_once_iff` says that these are exactly the ways the caller is not
told.
-/
import TinyRpc.RpcController
import TinyRpc.Base.Runs

namespace TinyRpc

open RpcController Runs

/-! ### The state of a call -/

/-- How far the callbacks of a call have come. -/
inductive CallStage
  | ready
  /-- `CallMethod` has returned without a timer -/
  | returned
  | connecting
  /-- the connect failed: only the timer is left -/
  | notConnected
  | writing
  /-- the reply callback is registered -/
  | reading
  deriving DecidableEq

inductive TimerState
  | notArmed
  | pending
  | cancelled
  | fired
  deriving DecidableEq

structure Call where
  /-- `m_is_init` -/
  isInit : Bool
  /-- `m_closure` is not null -/
  hasClosure : Bool
  controller : RpcController
  request : ProtobufProtocol
  /-- the payload last parsed into `m_response` -/
  response : Option (List UInt8)
  stage : CallStage
  timer : TimerState
  /-- the reply callback still has its `channel` -/
  hasChannel : Bool
  /-- how often the closure has run -/
  closureRuns : Nat
  deriving DecidableEq

/-- A call that has not begun, on a channel with a closure. -/
def Call.start (isInit : Bool) (controller : RpcController) : Call where
  isInit := isInit
  hasClosure := true
  controller := controller
  request := {}
  response := none
  stage := .ready
  timer := .notArmed
  hasChannel := true
  closureRuns := 0

/-- `if (channel->get_closure()) channel->get_closure()->Run()`. -/
def Call.runClosure (s : Call) : Call :=
  { s with closureRuns := if s.hasClosure then s.closureRuns + 1 else s.closureRuns }

/-- The same, unless the call has been cancelled. -/
def Call.notify (s : Call) : Call := if s.controller.isCanceled then s else s.runClosure

/-- `channel.reset()`, in the callback of the reply. -/
def Call.resetChannel (s : Call) : Call := { s with hasChannel := false }

/-- `my_controller->set_error`. -/
def Call.setError (s : Call) (errorCode : Int32) (errorInfo : List UInt8) : Call :=
  { s with controller := s.controller.setError errorCode errorInfo }

/-! ### The function and its callbacks -/

/-- What `CallMethod` is given, and what it gets from the functions it calls. -/
structure CallArgs where
  /-- `controller` is an `RpcController` -/
  isRpcController : Bool
  /-- `method->full_name()` -/
  fullName : List UInt8
  /-- what `gen_msg_id` returns -/
  genMsgId : List UInt8
  /-- what the request serialises to, if it does -/
  serialized : Option (List UInt8)

/-- The start of `CallMethod`: the `msg_id` of the call and the name on the wire. -/
def prepare (s : Call) (args : CallArgs) : Call :=
  let msgId := if s.controller.msgId = [] then args.genMsgId else s.controller.msgId
  { s with
    controller := s.controller.setMsgId msgId
    request := { s.request with msgId := msgId, methodName := args.fullName } }

/-- `CallMethod`, up to the start of the connect. -/
def callMethod (s : Call) (args : CallArgs) : Call :=
  if args.isRpcController = false then { s with stage := .returned }
  else
    let s := prepare s args
    if s.isInit = false then
      { s.setError errorRpcChannelNotInit (text "RpcChannel not init") with stage := .returned }
    else
      match args.serialized with
      | none =>
          { s.setError errorFailedSerialize (text "failed to serizlize") with
            stage := .returned }
      | some pbData =>
          { s with
            request := { s.request with pbData := pbData }
            timer := .pending
            stage := .connecting }

/-- The callback of the connect, with the client's error code and text. -/
def connectDone (s : Call) (errorCode : Int32) (errorInfo : List UInt8) : Call :=
  if errorCode ≠ 0 then { s.setError errorCode errorInfo with stage := .notConnected }
  else { s with stage := .writing }

/-- `set_cancel(true)`, which is too late for a timer that has fired. -/
def Call.cancelTimer (s : Call) : Call :=
  { s with timer := if s.timer = .pending then .cancelled else s.timer }

/-- The callback of the reply.  `parses` is `ParseFromString` on the response. -/
def replyDone (parses : List UInt8 → Bool) (s : Call) (rsp : ProtobufProtocol) : Call :=
  let s := { s.cancelTimer with response := some rsp.pbData }
  -- the timer is gone now, and the two error exits do not run the closure
  if parses rsp.pbData = false then s.setError errorFailedSerialize (text "serizlize error")
  else if rsp.errCode ≠ 0 then s.setError rsp.errCode rsp.errInfo
  else s.notify.resetChannel

/-- The callback of the timer. -/
def timeoutDone (s : Call) : Call :=
  let controller := s.controller.startCancel
  let s :=
    { s with
      timer := .fired
      controller := controller.setError errorRpcCallTimeout
        (text ("rpc call timeout" ++ toString controller.timeoutMs.toInt)) }
  s.runClosure

inductive CallEvent
  | callMethod (args : CallArgs)
  | connectDone (errorCode : Int32) (errorInfo : List UInt8)
  | written
  | reply (rsp : ProtobufProtocol)
  | timeout

/-- What an event does to a call.  A callback runs only when the one before it has
registered it, and the timer only while it is pending.  (The reply callback is not taken
out when it has run; once its `channel` is gone, running it again is undefined.) -/
def callStep (parses : List UInt8 → Bool) : Step Call CallEvent
  | s, .callMethod args => if s.stage = .ready then some (callMethod s args) else none
  | s, .connectDone code info =>
      if s.stage = .connecting then some (connectDone s code info) else none
  | s, .written => if s.stage = .writing then some { s with stage := .reading } else none
  | s, .reply rsp =>
      if s.stage = .reading ∧ s.hasChannel = true then some (replyDone parses s rsp) else none
  | s, .timeout => if s.timer = .pending then some (timeoutDone s) else none

/-! ### Who runs the closure -/

/-- `CallMethod` has returned without arming the timer, or the timer has fired or been
cancelled. -/
def Call.Over (s : Call) : Prop :=
  s.stage = .returned ∨ s.timer = .fired ∨ s.timer = .cancelled

instance (s : Call) : Decidable s.Over := inferInstanceAs (Decidable (_ ∨ _))

/-- The closure has not run twice, and once the call is over, it has run. -/
def ClosureRanOnce (s : Call) : Prop := s.closureRuns ≤ 1 ∧ (s.Over → s.closureRuns = 1)

instance : DecidablePred ClosureRanOnce := fun _ => inferInstanceAs (Decidable (_ ∧ _))

/-- The event takes none of the ways out on which nobody runs the closure: the call gets
as far as the timer, and a reply before the timeout finds a controller that is not
cancelled, parses, and carries no error. -/
def CallerTold (parses : List UInt8 → Bool) (s : Call) : CallEvent → Prop
  | .callMethod args =>
      args.isRpcController = true ∧ s.isInit = true ∧ args.serialized.isSome = true
  | .reply rsp =>
      s.timer = .pending →
        parses rsp.pbData = true ∧ rsp.errCode = 0 ∧ s.controller.isCanceled = false
  | _ => True

/-- What a call is while every event before has been told to the caller. -/
structure Call.Sound (s : Call) : Prop where
  closure : s.hasClosure = true
  called : s.stage ≠ .returned
  notArmed : s.timer = .notArmed ↔ s.stage = .ready
  waiting : s.timer = .notArmed ∨ s.timer = .pending → s.closureRuns = 0
  told : s.timer = .cancelled ∨ s.timer = .fired → s.closureRuns = 1
  replied : s.timer = .cancelled → s.hasChannel = false
  late : s.timer = .fired → s.controller.isCanceled = true

variable {parses : List UInt8 → Bool} {s s' : Call}

theorem Call.Sound.start (isInit : Bool) (controller : RpcController) :
    (Call.start isInit controller).Sound where
  closure := rfl
  called := nofun
  notArmed := ⟨fun _ => rfl, fun _ => rfl⟩
  waiting := fun _ => rfl
  told := nofun
  replied := nofun
  late := nofun

theorem Call.Sound.runs_le (h : s.Sound) : s.closureRuns ≤ 1 := by
  cases ht : s.timer with
  | notArmed => exact (h.waiting (.inl ht)).trans_le (Nat.zero_le 1)
  | pending => exact (h.waiting (.inr ht)).trans_le (Nat.zero_le 1)
  | cancelled => exact (h.told (.inl ht)).le
  | fired => exact (h.told (.inr ht)).le

/-- A sound call keeps what is asked of it. -/
theorem Call.Sound.ranOnce (h : s.Sound) : ClosureRanOnce s := by
  refine ⟨h.runs_le, ?_⟩
  rintro (hret | hfired | hcancelled)
  · exact absurd hret h.called
  · exact h.told (.inr hfired)
  · exact h.told (.inl hcancelled)

/-! ### One event at a time -/

theorem cancelTimer_of_pending (h : s.timer = .pending) : s.cancelTimer.timer = .cancelled :=
  if_pos h

theorem cancelTimer_of_not_pending (h : s.timer ≠ .pending) : s.cancelTimer = s := by
  rw [Call.cancelTimer, if_neg h]

/-- What an event can do, and when. -/
theorem callStep_cases {event : CallEvent} (hs : s' ∈ callStep parses s event) :
    (∃ args, event = .callMethod args ∧ s.stage = .ready ∧ s' = callMethod s args) ∨
    (∃ code info, event = .connectDone code info ∧ s.stage = .connecting ∧
      s' = connectDone s code info) ∨
    (event = .written ∧ s.stage = .writing ∧ s' = { s with stage := .reading }) ∨
    (∃ rsp, event = .reply rsp ∧ s.stage = .reading ∧ s.hasChannel = true ∧
      s' = replyDone parses s rsp) ∨
    (event = .timeout ∧ s.timer = .pending ∧ s' = timeoutDone s) := by
  cases event with
  | callMethod args =>
      obtain ⟨hstage, heq⟩ := Option.mem_ite_none_right.mp hs
      exact .inl ⟨args, rfl, hstage, (Option.some.inj heq).symm⟩
  | connectDone code info =>
      obtain ⟨hstage, heq⟩ := Option.mem_ite_none_right.mp hs
      exact .inr (.inl ⟨code, info, rfl, hstage, (Option.some.inj heq).symm⟩)
  | written =>
      obtain ⟨hstage, heq⟩ := Option.mem_ite_none_right.mp hs
      exact .inr (.inr (.inl ⟨rfl, hstage, (Option.some.inj heq).symm⟩))
  | reply rsp =>
      obtain ⟨⟨hstage, hchannel⟩, heq⟩ := Option.mem_ite_none_right.mp hs
      exact .inr (.inr (.inr (.inl ⟨rsp, rfl, hstage, hchannel, (Option.some.inj heq).symm⟩)))
  | timeout =>
      obtain ⟨ht, heq⟩ := Option.mem_ite_none_right.mp hs
      exact .inr (.inr (.inr (.inr ⟨rfl, ht, (Option.some.inj heq).symm⟩)))

/-- With an initialised channel and a request that serialises, `CallMethod` arms the
timer; -/
theorem callMethod_told {args : CallArgs} (h : CallerTold parses s (.callMethod args)) :
    ∃ controller request, callMethod s args
      = { s with
          controller := controller
          request := request
          timer := .pending
          stage := .connecting } := by
  obtain ⟨hrpc, hinit, hser⟩ := h
  obtain ⟨pbData, hpb⟩ := Option.isSome_iff_exists.mp hser
  have hinit' : ¬ (prepare s args).isInit = false := by
    show ¬ s.isInit = false
    rw [hinit]
    decide
  refine ⟨(prepare s args).controller, { (prepare s args).request with pbData := pbData }, ?_⟩
  rw [callMethod, if_neg (by rw [hrpc]; decide)]
  show (if (prepare s args).isInit = false then _ else _) = _
  rw [if_neg hinit', hpb]
  rfl

/-- otherwise it returns, and nobody has run the closure. -/
theorem callMethod_not_told {args : CallArgs} (h : ¬ CallerTold parses s (.callMethod args)) :
    (callMethod s args).stage = .returned ∧
      (callMethod s args).closureRuns = s.closureRuns := by
  unfold callMethod
  split
  · exact ⟨rfl, rfl⟩
  · rename_i hrpc
    dsimp only
    split
    · exact ⟨rfl, rfl⟩
    · rename_i hinit
      split
      · exact ⟨rfl, rfl⟩
      · rename_i pbData hpb
        refine absurd ⟨?_, ?_, ?_⟩ h
        · exact Bool.of_not_eq_false hrpc
        · exact Bool.of_not_eq_false hinit
        · rw [hpb]
          rfl

/-- A reply that does not parse or carries an error sets the error, and returns. -/
theorem replyDone_of_error {rsp : ProtobufProtocol}
    (h : ¬ (parses rsp.pbData = true ∧ rsp.errCode = 0)) :
    ∃ code info, replyDone parses s rsp
      = { s.cancelTimer with
          response := some rsp.pbData
          controller := s.controller.setError code info } := by
  unfold replyDone
  dsimp only
  split
  · exact ⟨_, _, rfl⟩
  · rename_i hparse
    split
    · exact ⟨_, _, rfl⟩
    · rename_i hcode
      exact absurd ⟨Bool.of_not_eq_false hparse, not_not.mp hcode⟩ h

theorem notify_eq (hclosure : s.hasClosure = true) :
    s.notify = { s with closureRuns := s.closureRuns
      + (if s.controller.isCanceled then 0 else 1) } := by
  unfold Call.notify
  split
  · rfl
  · rw [Call.runClosure, if_pos hclosure]

/-- A reply without error runs the closure, unless the call has been cancelled. -/
theorem replyDone_of_ok {rsp : ProtobufProtocol}
    (h : parses rsp.pbData = true ∧ rsp.errCode = 0) (hclosure : s.hasClosure = true) :
    replyDone parses s rsp
      = { s.cancelTimer with
          response := some rsp.pbData
          closureRuns := s.closureRuns + (if s.controller.isCanceled then 0 else 1)
          hasChannel := false } := by
  unfold replyDone
  dsimp only
  rw [if_neg (by rw [h.1]; decide), if_neg (not_not_intro h.2), notify_eq (by exact hclosure)]
  rfl

theorem timeoutDone_eq (hclosure : s.hasClosure = true) :
    ∃ info, timeoutDone s
      = { s with
          timer := .fired
          controller := s.controller.startCancel.setError errorRpcCallTimeout info
          closureRuns := s.closureRuns + 1 } := by
  refine ⟨text ("rpc call timeout" ++ toString s.controller.timeoutMs.toInt), ?_⟩
  show Call.runClosure _ = _
  rw [Call.runClosure, if_pos (by exact hclosure)]
  rfl

/-! ### The invariant -/

theorem Call.Sound.call (h : s.Sound) {args : CallArgs} (hstage : s.stage = .ready)
    (htold : CallerTold parses s (.callMethod args)) : (callMethod s args).Sound := by
  obtain ⟨controller, request, heq⟩ := callMethod_told htold
  have hruns : s.closureRuns = 0 := h.waiting (.inl (h.notArmed.mpr hstage))
  rw [heq]
  exact
    { closure := h.closure
      called := nofun
      notArmed := ⟨nofun, nofun⟩
      waiting := fun _ => hruns
      told := nofun
      replied := nofun
      late := nofun }

/-- A callback that leaves the timer and the closure alone only moves the call on. -/
theorem Call.Sound.keep (h : s.Sound) {stage : CallStage} {controller : RpcController}
    {response : Option (List UInt8)} {hasChannel : Bool}
    (hready : s.stage ≠ .ready ∧ stage ≠ .ready) (hreturned : stage ≠ .returned)
    (hcanceled : controller.isCanceled = s.controller.isCanceled)
    (hreplied : s.timer = .cancelled → hasChannel = false) :
    { s with
      stage := stage
      controller := controller
      response := response
      hasChannel := hasChannel }.Sound where
  closure := h.closure
  called := hreturned
  notArmed := ⟨fun ht => absurd (h.notArmed.mp ht) hready.1, fun hr => absurd hr hready.2⟩
  waiting := h.waiting
  told := h.told
  replied := hreplied
  late := fun ht => hcanceled.trans (h.late ht)

theorem Call.Sound.connect (h : s.Sound) {code : Int32} {info : List UInt8}
    (hstage : s.stage = .connecting) : (connectDone s code info).Sound := by
  have hne : s.stage ≠ .ready := by rw [hstage]; nofun
  unfold connectDone
  split
  · exact h.keep ⟨hne, nofun⟩ nofun (setError_isCancled _ _ _) h.replied
  · exact h.keep ⟨hne, nofun⟩ nofun rfl h.replied

/-- A reply that comes first runs the closure, and drops its channel. -/
theorem Call.Sound.replyFirst (h : s.Sound) {rsp : ProtobufProtocol} (hstage : s.stage = .reading)
    (ht : s.timer = .pending) (htold : CallerTold parses s (.reply rsp)) :
    (replyDone parses s rsp).Sound := by
  obtain ⟨hparse, hcode, hcanceled⟩ := htold ht
  rw [replyDone_of_ok ⟨hparse, hcode⟩ h.closure]
  simp only [Call.cancelTimer, ht, if_true, hcanceled]
  exact
    { closure := h.closure
      called := h.called
      notArmed := ⟨nofun, fun hr => absurd (hr.symm.trans hstage) nofun⟩
      waiting := nofun
      told := fun _ => congrArg (· + 1) (h.waiting (.inr ht))
      replied := fun _ => rfl
      late := nofun }

/-- A reply that comes late finds the controller cancelled, and the closure is not run
again. -/
theorem Call.Sound.replyLate (h : s.Sound) {rsp : ProtobufProtocol} (hstage : s.stage = .reading)
    (ht : s.timer = .fired) : (replyDone parses s rsp).Sound := by
  have hne : s.stage ≠ .ready := by rw [hstage]; nofun
  have hnot : s.timer ≠ .cancelled := by rw [ht]; nofun
  have hcancel : s.cancelTimer = s := cancelTimer_of_not_pending (by rw [ht]; decide)
  by_cases hok : parses rsp.pbData = true ∧ rsp.errCode = 0
  · rw [replyDone_of_ok hok h.closure, hcancel, if_pos (h.late ht)]
    exact h.keep ⟨hne, hne⟩ h.called rfl fun hc => absurd hc hnot
  · obtain ⟨code, info, heq⟩ := @replyDone_of_error parses s rsp hok
    rw [heq, hcancel]
    exact h.keep ⟨hne, hne⟩ h.called (setError_isCancled _ _ _) h.replied

theorem Call.Sound.reply (h : s.Sound) {rsp : ProtobufProtocol} (hstage : s.stage = .reading)
    (hchannel : s.hasChannel = true) (htold : CallerTold parses s (.reply rsp)) :
    (replyDone parses s rsp).Sound := by
  cases ht : s.timer with
  | notArmed => exact absurd ((h.notArmed.mp ht).symm.trans hstage) nofun
  | pending => exact h.replyFirst hstage ht htold
  | cancelled => exact absurd ((h.replied ht).symm.trans hchannel) nofun
  | fired => exact h.replyLate hstage ht

theorem Call.Sound.timeout (h : s.Sound) (ht : s.timer = .pending) : (timeoutDone s).Sound := by
  obtain ⟨info, heq⟩ := timeoutDone_eq h.closure
  rw [heq]
  have hstage : s.stage ≠ .ready := fun hr => absurd ((h.notArmed.mpr hr).symm.trans ht) nofun
  exact
    { closure := h.closure
      called := h.called
      notArmed := ⟨nofun, fun hr => absurd hr hstage⟩
      waiting := nofun
      told := fun _ => congrArg (· + 1) (h.waiting (.inr ht))
      replied := nofun
      late := fun _ => rfl }

/-- Every event that the caller is told of keeps a call sound. -/
theorem Call.Sound.step (s : Call) (event : CallEvent) (s' : Call) (h : s.Sound)
    (htold : CallerTold parses s event) (hs : s' ∈ callStep parses s event) : s'.Sound := by
  rcases callStep_cases hs with ⟨args, rfl, hstage, rfl⟩ | ⟨code, info, rfl, hstage, rfl⟩ |
    ⟨rfl, hstage, rfl⟩ | ⟨rsp, rfl, hstage, hchannel, rfl⟩ | ⟨rfl, ht, rfl⟩
  · exact h.call hstage htold
  · exact h.connect hstage
  · have hne : s.stage ≠ .ready := by rw [hstage]; nofun
    exact h.keep ⟨hne, nofun⟩ nofun rfl h.replied
  · exact h.reply hstage hchannel htold
  · exact h.timeout ht

/-- A reply while the timer is pending is the end of the call: if the closure has run
then, the caller was told. -/
theorem callerTold_of_reply (h : s.Sound) {rsp : ProtobufProtocol} (ht : s.timer = .pending)
    (honce : ClosureRanOnce (replyDone parses s rsp)) :
    parses rsp.pbData = true ∧ rsp.errCode = 0 ∧ s.controller.isCanceled = false := by
  have hzero : s.closureRuns = 0 := h.waiting (.inr ht)
  have hcancel : s.cancelTimer.timer = .cancelled := cancelTimer_of_pending ht
  by_cases hok : parses rsp.pbData = true ∧ rsp.errCode = 0
  · rw [replyDone_of_ok hok h.closure] at honce
    have hone := honce.2 (.inr (.inr hcancel))
    refine ⟨hok.1, hok.2, ?_⟩
    by_contra hcanceled
    rw [Bool.of_not_eq_false hcanceled, hzero] at hone
    exact absurd (show 0 + 0 = 1 from hone) (by decide)
  · obtain ⟨code, info, heq⟩ := @replyDone_of_error parses s rsp hok
    rw [heq] at honce
    have hone : s.closureRuns = 1 := honce.2 (.inr (.inr hcancel))
    exact absurd (hzero.symm.trans hone) (by decide)

/-- An event that the caller is not told of leaves a call that is over, and a closure that
has not run. -/
theorem callerTold_of_ranOnce (s : Call) (event : CallEvent) (s' : Call) (h : s.Sound)
    (hs : s' ∈ callStep parses s event) (honce : ClosureRanOnce s') :
    CallerTold parses s event := by
  rcases callStep_cases hs with ⟨args, rfl, hstage, rfl⟩ | ⟨code, info, rfl, -, -⟩ |
    ⟨rfl, -, -⟩ | ⟨rsp, rfl, -, -, rfl⟩ | ⟨rfl, -, -⟩
  · -- the call has returned without a timer, so nobody is left to run the closure
    by_contra hnot
    obtain ⟨hret, hruns⟩ := callMethod_not_told hnot
    have hzero : s.closureRuns = 0 := h.waiting (.inl (h.notArmed.mpr hstage))
    have hone := honce.2 (.inl hret)
    rw [hruns, hzero] at hone
    exact absurd hone (by decide)
  · trivial
  · trivial
  · exact fun ht => callerTold_of_reply h ht honce
  · trivial

/-- **Exactly when the caller is told of the result**: over any run of one call, the
closure never runs twice and has run as soon as the call is over, if and only if every
event of the run is one of which the caller is told. -/
theorem closure_runs_once_iff (parses : List UInt8 → Bool) (isInit : Bool)
    (controller : RpcController) (events : List CallEvent) :
    Always (callStep parses) ClosureRanOnce (Call.start isInit controller) events ↔
      Meets (callStep parses) (CallerTold parses) (Call.start isInit controller) events :=
  always_iff_meets (fun _ h => h.ranOnce) Call.Sound.step callerTold_of_ranOnce
    (Call.Sound.start isInit controller)

/-- Arguments with a request that serialises. -/
def goodArgs : CallArgs := ⟨true, [], [49], some []⟩

/-- Four ways out on which nobody runs the closure. -/
theorem closure_not_run :
    ¬ Always (callStep fun _ => true) ClosureRanOnce (Call.start false {})
      [.callMethod goodArgs] ∧
    ¬ Always (callStep fun _ => true) ClosureRanOnce (Call.start true {})
      [.callMethod { goodArgs with serialized := none }] ∧
    ¬ Always (callStep fun _ => false) ClosureRanOnce (Call.start true {})
      [.callMethod goodArgs, .connectDone 0 [], .written, .reply shortRequest] ∧
    ¬ Always (callStep fun _ => true) ClosureRanOnce (Call.start true {})
      [.callMethod goodArgs, .connectDone 0 [], .written,
        .reply { shortRequest with errCode := errorServiceNotFound }] := by
  decide +kernel

end TinyRpc
