/-
TinyRpc/RemoteCall.lean

What a remote call is for: the caller gets what the dispatcher would have given it.

A caller has a channel of its own, and makes one call on it.  `CallMethod` and its callbacks run
over a session: the connect writes the request, the callback of the write waits for the response,
and the client runs the callback of the reply with what it decodes.  The timer may fire in between.

`localCall` is the same call without the network: the dispatcher is handed the request, and its
response is handed to the callback of the reply.  `Calling.replied`: a call that has been answered
in time is this one.
-/
import TinyRpc.ChannelCalls
import TinyRpc.ServerClients

namespace TinyRpc

open Checked Bytes TcpBuffer ProtobufProtocol Runs Framing

variable {M : Type}

/-! ### A call over a session -/

/-- What the caller of a call has: the channel, the controller and the arguments. -/
structure Caller where
  /-- `m_is_init` -/
  isInit : Bool
  /-- `m_closure` is not null -/
  hasClosure : Bool
  controller : RpcController
  args : CallArgs
  /-- `ParseFromString` on the response -/
  parses : List UInt8 → Bool

/-- The call when `CallMethod` comes to its connect, or has returned. -/
def Caller.begun (caller : Caller) : Call :=
  callMethod { Call.start caller.isInit caller.controller with hasClosure := caller.hasClosure }
    caller.args

/-- The call of `caller`, without a network. -/
def localCall (services : ServiceMap M) (caller : Caller) : Call :=
  replyDone caller.parses { caller.begun with stage := .reading }
    (dispatcher services caller.begun.request {}).response

structure RemoteCall where
  call : Call
  session : Session Unit

inductive RemoteEvent
  /-- the connect is over, with the client's error code and text -/
  | connectDone (errorCode : Int32) (errorInfo : List UInt8)
  | timeout
  /-- `on_read` or `on_write` on either side -/
  | transfer (event : SessionEvent Unit)

/-- The callbacks of the call that the client runs in `on_read` and `on_write`. -/
def callbacks (s s' : Session Unit) : SessionEvent Unit → List CallEvent
  | .clientWrite results =>
      (((s.client.onWrite results).map Prod.snd).getD []).map fun _ => .written
  | .clientRead _ _ => (s'.called.drop s.called.length).map fun call => .reply call.2
  | _ => []

/-- A callback that may not run stops the step. -/
def remoteStep (parses : List UInt8 → Bool) (services : Nat → ServiceMap M) :
    Step RemoteCall RemoteEvent
  | s, .connectDone code info =>
      (callStep parses s.call (.connectDone code info)).bind fun call =>
        if code ≠ 0 then some { s with call := call }
        else
          (sessionStep services s.session (.writeMessage call.request ())).map fun session =>
            ⟨call, session⟩
  | s, .timeout => (callStep parses s.call .timeout).map fun call => { s with call := call }
  | _, .transfer (.writeMessage _ _) => none
  | s, .transfer event =>
      (sessionStep services s.session event).bind fun session =>
        (after (callStep parses) s.call (callbacks s.session session event)).map fun call =>
          ⟨call, session⟩

def RemoteCall.start (caller : Caller) : RemoteCall := ⟨caller.begun, Session.start Unit⟩

def RemoteCall.dispatches (s : RemoteCall) : Nat := s.session.dispatches

/-- The request is within the limits, and the reads and writes are orderly. -/
def RemoteOrderly (s : RemoteCall) : RemoteEvent → Prop
  | .connectDone code _ => code = 0 → WithinLimits s.call.request
  | .timeout => True
  | .transfer event => Orderly s.session event

/-! ### The dispatcher at the other end -/

/-- The dispatcher does not look at what decoding adds to a request, -/
theorem dispatcher_delivered (services : ServiceMap M) (request : ProtobufProtocol) :
    dispatcher services (delivered request) {} = dispatcher services request {} := rfl

/-- nor the callback of the reply at what it adds to a response. -/
theorem replyDone_delivered (parses : List UInt8 → Bool) (call : Call) (rsp : ProtobufProtocol) :
    replyDone parses call (delivered rsp) = replyDone parses call rsp := rfl

/-- The response to the only request of a session. -/
theorem remote_single {services : Nat → ServiceMap M} {s : Session Unit}
    {request : ProtobufProtocol} (hpushed : s.pushed = [(request, ())]) :
    s.remote services = [delivered (dispatcher (services 0) request {}).response] := by
  rw [Session.remote, hpushed]
  exact congrArg (fun d => [delivered d.response]) (dispatcher_delivered (services 0) request)

/-! ### How far a call has come -/

/-- A call that is in `stage`, with its timer set or fired, and without a reply. -/
structure Waits (begun call : Call) (stage : CallStage) : Prop where
  stage_eq : call.stage = stage
  request : call.request = begun.request
  hasChannel : call.hasChannel = true
  timer : call.timer = .pending ∨ call.timer = .fired
  inTime : call.timer = .pending → call = { begun with stage := stage }
  late : call.timer = .fired → call.controller.isFailed = true

/-- The stages of a call, with what the client has done for it. -/
inductive RemoteProgress (parses : List UInt8 → Bool) (begun : Call) (s : RemoteCall) : Prop
  /-- there will be no request -/
  | ended : s.session.pushed = [] → s.call.stage = .returned ∨ s.call.stage = .notConnected →
      s.call.timer ≠ .cancelled → s.call.closureRuns = 0 ∨ s.call.controller.isFailed = true →
      RemoteProgress parses begun s
  | connecting : s.session.pushed = [] → Waits begun s.call .connecting →
      RemoteProgress parses begun s
  /-- the request waits, or `on_write` is in its loop for good -/
  | writing : s.session.pushed = [(begun.request, ())] → s.session.called = [] →
      (s.session.client.loops = false → s.session.client.sent = []) →
      Waits begun s.call .writing → RemoteProgress parses begun s
  | reading : s.session.pushed = [(begun.request, ())] →
      s.session.client.sent = [begun.request] → s.session.called = [] →
      Waits begun s.call .reading → RemoteProgress parses begun s
  | answered (rsp : ProtobufProtocol) : s.session.pushed = [(begun.request, ())] →
      s.session.client.sent = [begun.request] → s.session.called = [((), rsp)] →
      s.call.stage = .reading → s.call.timer = .cancelled ∨ s.call.timer = .fired →
      (s.call.timer = .cancelled →
        s.call = replyDone parses { begun with stage := .reading } rsp) →
      (s.call.timer = .fired → s.call.controller.isFailed = true) → RemoteProgress parses begun s

section Stages

variable {parses : List UInt8 → Bool} {begun call : Call} {s : RemoteCall}
  {session : Session Unit} {stage : CallStage}

/-- `CallMethod` has come to its connect, or has returned and nobody will run the closure. -/
theorem Caller.progress (caller : Caller) :
    RemoteProgress caller.parses caller.begun (RemoteCall.start caller) := by
  obtain ⟨-, hruns, -, -, hend⟩ := callMethod_spec
    { Call.start caller.isInit caller.controller with hasClosure := caller.hasClosure } caller.args
  rcases hend with ⟨hreturned, htimer⟩ | ⟨hconnecting, hpending, -⟩
  · refine .ended rfl (.inl hreturned) ?_ (.inl hruns)
    show caller.begun.timer ≠ .cancelled
    rw [show caller.begun.timer = .notArmed from htimer]
    decide
  · have hsame : caller.begun = { caller.begun with stage := .connecting } := by
      rw [← hconnecting]
      rfl
    have hchannel : caller.begun.hasChannel = true := by
      unfold Caller.begun callMethod
      dsimp only
      split
      · rfl
      · split
        · rfl
        · split
          · rfl
          · rfl
    refine .connecting rfl ⟨hconnecting, rfl, hchannel, .inl hpending, fun _ => hsame, fun hf => ?_⟩
    exact absurd (hpending.symm.trans hf) (by decide)

/-- The timer fires. -/
theorem Waits.timeout (h : Waits begun call stage) : Waits begun (timeoutDone call) stage where
  stage_eq := h.stage_eq
  request := h.request
  hasChannel := h.hasChannel
  timer := .inr rfl
  inTime := fun hp => by cases hp
  late := fun _ => rfl

/-- A callback takes the call on. -/
theorem Waits.goOn (h : Waits begun call stage) (stage' : CallStage) :
    Waits begun { call with stage := stage' } stage' where
  stage_eq := rfl
  request := h.request
  hasChannel := h.hasChannel
  timer := h.timer
  inTime := fun hp => by rw [h.inTime hp]
  late := h.late

theorem RemoteProgress.timeout (h : RemoteProgress parses begun s) (ht : s.call.timer = .pending) :
    RemoteProgress parses begun { s with call := timeoutDone s.call } := by
  cases h with
  | ended hpushed hstage _ _ => exact .ended hpushed hstage (fun hc => by cases hc) (.inr rfl)
  | connecting hpushed hw => exact .connecting hpushed hw.timeout
  | writing hpushed hcalled hsent hw => exact .writing hpushed hcalled hsent hw.timeout
  | reading hpushed hsent hcalled hw => exact .reading hpushed hsent hcalled hw.timeout
  | answered rsp _ _ _ _ htimer _ _ =>
      rw [ht] at htimer
      rcases htimer with hc | hf
      · cases hc
      · cases hf

/-- What a transfer leaves as it is. -/
theorem RemoteProgress.congr (h : RemoteProgress parses begun s)
    (hpushed : session.pushed = s.session.pushed)
    (hcalled : session.called = s.session.called)
    (hsent : session.client.sent = s.session.client.sent)
    (hloops : session.client.loops = false → s.session.client.loops = false) :
    RemoteProgress parses begun ⟨s.call, session⟩ := by
  cases h with
  | ended hp hstage htimer htold => exact .ended (hpushed.trans hp) hstage htimer htold
  | connecting hp hw => exact .connecting (hpushed.trans hp) hw
  | writing hp hc hs hw =>
      exact .writing (hpushed.trans hp) (hcalled.trans hc)
        (fun hl => hsent.trans (hs (hloops hl))) hw
  | reading hp hs hc hw => exact .reading (hpushed.trans hp) (hsent.trans hs) (hcalled.trans hc) hw
  | answered rsp hp hs hc hstage htimer hreply hlate =>
      exact .answered rsp (hpushed.trans hp) (hsent.trans hs) (hcalled.trans hc) hstage htimer
        hreply hlate

/-! ### Reads and writes -/

/-- What an `on_write` of a client without requests to write does for it. -/
theorem nothing_written {s : Session Unit} {results : List WriteResult} {client : Endpoint Unit}
    {w : Written Unit} (hclient : s.client.connection.connectionType = .tcpConnectionByClient)
    (hw : s.client.Wrote client results w) (hnone : s.client.connection.writeDones = []) :
    w.called = [] ∧ client.sent = s.client.sent := by
  have hencode : toEncode s.client.connection = [] := by
    unfold toEncode
    split
    · rw [hnone]
      rfl
    · rfl
  refine ⟨?_, by rw [hw.sent, hencode, List.append_nil]⟩
  have hlimits : ∀ call ∈ s.client.connection.writeDones, WithinLimits call.1 := by
    rw [hnone]
    exact fun call hcall => absurd hcall List.not_mem_nil
  rcases writes_of_onWrite hclient hlimits hw.call with ⟨-, rfl⟩ | ⟨-, -, hcalled⟩ |
    ⟨-, -, -, hcalled⟩
  · rfl
  · exact hcalled
  · rw [hnone, List.map_nil] at hcalled
    exact List.map_eq_nil_iff.mp hcalled

/-- Only in `writing` there is a request in the queue. -/
theorem RemoteProgress.waiting (h : RemoteProgress parses begun s)
    {written : List (ProtobufProtocol × Unit)} (hqueued : Queued s.session written)
    (hloops : s.session.client.loops = false)
    (hne : s.session.client.connection.writeDones ≠ []) :
    s.session.pushed = [(begun.request, ())] ∧ s.session.called = [] ∧
      s.session.client.sent = [] ∧ s.session.client.connection.writeDones = [(begun.request, ())] ∧
      Waits begun s.call .writing := by
  have hpushed := hqueued.pushed
  rw [waiting_of_returned hloops] at hpushed
  -- a request that has been written waits no more
  have hsingle : s.session.pushed = [(begun.request, ())] →
      s.session.client.sent = [begun.request] → False := by
    intro hp hs
    have hlength := congrArg List.length hpushed
    have hwritten := congrArg List.length (hqueued.sent.symm.trans hs)
    rw [hp, List.length_append] at hlength
    rw [List.length_map] at hwritten
    rw [hwritten] at hlength
    refine hne (List.length_eq_zero_iff.mp ?_)
    simpa using hlength.symm
  have hempty : s.session.pushed = [] → False := by
    intro hp
    rw [hp] at hpushed
    exact hne (List.append_eq_nil_iff.mp hpushed.symm).2
  cases h with
  | ended hp _ _ _ => exact (hempty hp).elim
  | connecting hp _ => exact (hempty hp).elim
  | writing hp hc hs hw =>
      have hsent := hs hloops
      obtain rfl : written = [] := List.map_eq_nil_iff.mp (hqueued.sent.symm.trans hsent)
      exact ⟨hp, hc, hsent, hpushed.symm.trans hp, hw⟩
  | reading hp hs _ _ => exact (hsingle hp hs).elim
  | answered rsp hp hs _ _ _ _ _ => exact (hsingle hp hs).elim

/-- `on_write` of the client: the callback of the write runs when the request has been written. -/
theorem RemoteProgress.clientWrite {services : Nat → ServiceMap M}
    (h : RemoteProgress parses begun s) (hconv : Conversing services s.session)
    {results : List WriteResult}
    (hs : session ∈ sessionStep services s.session (.clientWrite results)) :
    ∃ call, after (callStep parses) s.call (callbacks s.session session (.clientWrite results)) =
        some call ∧
      RemoteProgress parses begun ⟨call, session⟩ ∧ call.timer = s.call.timer := by
  obtain ⟨⟨client, called⟩, hwrite, rfl⟩ := Option.map_eq_some_iff.mp hs
  obtain ⟨w, hw, rfl⟩ := Endpoint.wrote hwrite
  obtain ⟨written, hqueued⟩ := hconv.queued
  have hcallbacks : ∀ session', callbacks s.session session' (.clientWrite results) =
      w.called.map fun _ => .written := by
    intro session'
    show (((s.session.client.onWrite results).map Prod.snd).getD []).map _ = _
    rw [hwrite]
    rfl
  rw [hcallbacks]
  by_cases hnone : s.session.client.connection.writeDones = []
  · obtain ⟨hcalled, hsent⟩ := nothing_written hconv.clientType hw hnone
    refine ⟨s.call, ?_, h.congr rfl rfl hsent fun _ => hw.returned, rfl⟩
    rw [hcalled]
    rfl
  · obtain ⟨hpushed, hnot, hsent, hdones, hwaits⟩ := h.waiting hqueued hw.returned hnone
    rcases writes_of_onWrite hconv.clientType (hconv.waiting_limits hw.returned) hw.call with
      ⟨hdown, hsame⟩ | ⟨-, hlooping, hcalled⟩ | ⟨hup, -, -, hcalled⟩
    · -- nothing is written on a connection that is not up
      have hencode : toEncode s.session.client.connection = [] := if_neg fun hand => hdown hand.1
      refine ⟨s.call, ?_, h.congr rfl rfl ?_ fun _ => hw.returned, rfl⟩
      · rw [hsame]
        rfl
      · show client.sent = _
        rw [hw.sent, hencode, List.append_nil]
    · refine ⟨s.call, ?_, .writing hpushed hnot (fun hloops => ?_) hwaits, rfl⟩
      · rw [hcalled]
        rfl
      · have hstuck : client.loops = true := by
          rw [hw.loops, hlooping]
          rfl
        exact absurd (hstuck.symm.trans hloops) (by decide)
    · have hencode : toEncode s.session.client.connection = [begun.request] := by
        rw [toEncode, if_pos ⟨hup, hconv.clientType⟩, hdones]
        rfl
      have hone : w.called.length = 1 := by
        have hlength := congrArg List.length hcalled
        rw [List.length_map, List.length_map, hdones] at hlength
        exact hlength
      obtain ⟨call, hcall⟩ := List.length_eq_one_iff.mp hone
      refine ⟨{ s.call with stage := .reading }, ?_, ?_, rfl⟩
      · rw [hcall]
        show (callStep parses s.call .written).bind _ = _
        rw [callStep, if_pos hwaits.stage_eq]
        rfl
      · refine .reading hpushed ?_ hnot (hwaits.goOn .reading)
        show client.sent = _
        rw [hw.sent, hsent, hencode]
        rfl

/-- The callback of the reply does not take a failure back. -/
theorem replyDone_isFailed {rsp : ProtobufProtocol} (h : call.controller.isFailed = true) :
    (replyDone parses call rsp).controller.isFailed = true := by
  unfold replyDone
  dsimp only
  split
  · rfl
  · split
    · rfl
    · unfold Call.notify
      split
      · exact h
      · exact h

/-- The callback of the reply runs; in time, it does what it does in `localCall`. -/
theorem Waits.reply (h : Waits begun call .reading) (rsp : ProtobufProtocol) :
    after (callStep parses) call [.reply rsp] = some (replyDone parses call rsp) ∧
      (replyDone parses call rsp).stage = .reading ∧
      (call.timer = .pending ∧ (replyDone parses call rsp).timer = .cancelled ∧
          replyDone parses call rsp = replyDone parses { begun with stage := .reading } rsp ∨
        call.timer = .fired ∧ (replyDone parses call rsp).timer = .fired ∧
          (replyDone parses call rsp).controller.isFailed = true) := by
  obtain ⟨hstage, htimer, -⟩ :=
    replyExit_cases parses { call.cancelTimer with response := some rsp.pbData } rsp
  refine ⟨?_, hstage.trans h.stage_eq, ?_⟩
  · show (callStep parses call (.reply rsp)).bind _ = _
    rw [callStep, if_pos ⟨h.stage_eq, h.hasChannel⟩]
    rfl
  · rcases h.timer with hp | hf
    · refine .inl ⟨hp, htimer.trans (cancelTimer_of_pending hp), ?_⟩
      rw [h.inTime hp]
    · refine .inr ⟨hf, htimer.trans ?_, replyDone_isFailed (h.late hf)⟩
      show call.cancelTimer.timer = .fired
      rw [cancelTimer_of_not_pending (by rw [hf]; decide)]
      exact hf

/-- `on_read` of the client: the callback of the reply runs when the response has been decoded. -/
theorem RemoteProgress.clientRead {services : Nat → ServiceMap M}
    (h : RemoteProgress parses begun s) (h' : Serving services session)
    {results : List ReadResult} {fuel : Nat}
    (hs : session ∈ sessionStep services s.session (.clientRead results fuel)) :
    ∃ call, after (callStep parses) s.call
        (callbacks s.session session (.clientRead results fuel)) = some call ∧
      RemoteProgress parses begun ⟨call, session⟩ ∧
      (call.timer = .fired → s.call.timer = .fired) := by
  obtain ⟨⟨client, result⟩, hread, rfl⟩ := Option.map_eq_some_iff.mp hs
  have hon := Endpoint.readOn hread
  have hreturned := (Endpoint.onRead_eq_some hread).1
  have hcalled := h'.unmixed.called
  dsimp only at hcalled
  -- nothing is decoded that is new to the call
  have hstays : responseCalls client.connection (result.getD []) = [] →
      ∃ call, after (callStep parses) s.call (((s.session.called ++
            responseCalls client.connection (result.getD [])).drop s.session.called.length).map
              fun call => .reply call.2) = some call ∧
        RemoteProgress parses begun ⟨call,
          { s.session with
            client := client
            called := s.session.called ++ responseCalls client.connection (result.getD []) }⟩ ∧
        (call.timer = .fired → s.call.timer = .fired) := by
    intro hnew
    rw [hnew, List.append_nil, List.drop_length]
    exact ⟨s.call, rfl, h.congr rfl rfl hon.sent fun _ => hreturned, id⟩
  cases h with
  | ended hp _ _ _ =>
      rw [hp] at hcalled
      exact hstays (List.append_eq_nil_iff.mp hcalled).2
  | connecting hp _ =>
      rw [hp] at hcalled
      exact hstays (List.append_eq_nil_iff.mp hcalled).2
  | writing hp hc hsent hw =>
      -- the server cannot have answered what has not been written
      have hids := @Conversing.decoded_ids M Unit services _ h'.conversing []
        (hon.sent.trans (hsent hreturned))
      have hnone : client.decoded = [] :=
        List.map_eq_nil_iff.mp (List.prefix_nil.mp hids)
      rw [hnone, List.zip_nil_right] at hcalled
      exact hstays (List.append_eq_nil_iff.mp hcalled).2
  | reading hp hsent hc hw =>
      rcases hdecoded : client.decoded with - | ⟨rsp, decoded⟩
      · rw [hdecoded, List.zip_nil_right] at hcalled
        exact hstays (List.append_eq_nil_iff.mp hcalled).2
      · have hone : s.session.called ++ responseCalls client.connection (result.getD []) =
            [((), rsp)] := by
          rw [hcalled, hp, hdecoded]
          rfl
        obtain ⟨hrun, hstage, htimer⟩ := @Waits.reply parses begun s.call hw rsp
        refine ⟨replyDone parses s.call rsp, ?_, ?_, ?_⟩
        · show after _ _ ((List.drop _ (_ ++ _)).map _) = _
          rw [hone, hc]
          exact hrun
        · refine .answered rsp hp (hon.sent.trans hsent) hone hstage ?_ ?_ ?_
          · exact htimer.imp (fun ⟨_, hcancelled, _⟩ => hcancelled) fun ⟨_, hfired, _⟩ => hfired
          · intro hcancelled
            rcases htimer with ⟨-, -, hlocal⟩ | ⟨-, hfired, -⟩
            · exact hlocal
            · exact absurd (hfired.symm.trans hcancelled) (by decide)
          · intro hfired
            rcases htimer with ⟨-, hcancelled, -⟩ | ⟨-, -, hfailed⟩
            · exact absurd (hcancelled.symm.trans hfired) (by decide)
            · exact hfailed
        · intro hfired
          rcases htimer with ⟨-, hcancelled, -⟩ | ⟨hlate, -, -⟩
          · exact absurd (hcancelled.symm.trans hfired) (by decide)
          · exact hlate
  | answered rsp hp hsent hc _ _ _ _ =>
      -- the only request has been answered already
      have hlength := congrArg List.length hcalled
      rw [hc, hp, List.length_zip, List.length_append] at hlength
      simp only [List.length_cons, List.length_nil, List.map_cons, List.map_nil] at hlength
      exact hstays (List.length_eq_zero_iff.mp (by omega))

end Stages

/-! ### What every step keeps -/

/-- The session goes on as it should, and the call with it. -/
structure Calling (caller : Caller) (services : Nat → ServiceMap M) (s : RemoteCall) : Prop where
  serving : Serving services s.session
  progress : RemoteProgress caller.parses caller.begun s

section Steps

variable {caller : Caller} {services services' : Nat → ServiceMap M} {s s' : RemoteCall}
  {session : Session Unit} {call : Call} {event : SessionEvent Unit}

theorem Calling.start (caller : Caller) (services : Nat → ServiceMap M) :
    Calling caller services (RemoteCall.start caller) :=
  ⟨Serving.start, caller.progress⟩

theorem remoteStep_transfer {parses : List UInt8 → Bool}
    (hevent : ∀ message done, event ≠ .writeMessage message done)
    (hs : sessionStep services s.session event = some session)
    (hrun : after (callStep parses) s.call (callbacks s.session session event) = some call) :
    remoteStep parses services s (.transfer event) = some ⟨call, session⟩ := by
  cases event with
  | writeMessage message done => exact absurd rfl (hevent message done)
  | clientWrite results | serverRead results fuel | serverWrite results | clientRead results fuel =>
      show (sessionStep services s.session _).bind _ = _
      rw [hs, Option.bind_some, hrun]
      rfl

/-- What the server does with its end. -/
theorem serverRead_frame {results : List ReadResult} {fuel : Nat}
    (hs : session ∈ sessionStep services s.session (.serverRead results fuel)) :
    ∃ server, session = { s.session with server := server } := by
  obtain ⟨⟨server, result⟩, -, hs⟩ := Option.bind_eq_some_iff.mp hs
  cases result with
  | none => exact ⟨server, (Option.some.inj hs).symm⟩
  | some requests =>
      obtain ⟨server', -, rfl⟩ := Option.map_eq_some_iff.mp hs
      exact ⟨server', rfl⟩

/-- **The callbacks run when they may**: what the session does, the call can follow. -/
theorem Calling.transfer (h : Calling caller services s)
    (hevent : ∀ message done, event ≠ .writeMessage message done)
    (hs : sessionStep services s.session event = some session) (h' : Serving services session) :
    ∃ call, remoteStep caller.parses services s (.transfer event) = some ⟨call, session⟩ ∧
      Calling caller services ⟨call, session⟩ ∧ (call.timer = .fired → s.call.timer = .fired) := by
  suffices hcall : ∃ call,
      after (callStep caller.parses) s.call (callbacks s.session session event) = some call ∧
        RemoteProgress caller.parses caller.begun ⟨call, session⟩ ∧
        (call.timer = .fired → s.call.timer = .fired) by
    obtain ⟨call, hrun, hprogress, hfired⟩ := hcall
    exact ⟨call, remoteStep_transfer hevent hs hrun, ⟨h', hprogress⟩, hfired⟩
  cases event with
  | writeMessage message done => exact absurd rfl (hevent message done)
  | clientWrite results =>
      obtain ⟨call, hrun, hprogress, htimer⟩ := h.progress.clientWrite h.serving.conversing hs
      exact ⟨call, hrun, hprogress, fun hfired => htimer.symm.trans hfired⟩
  | serverRead results fuel =>
      obtain ⟨server, rfl⟩ := serverRead_frame hs
      exact ⟨s.call, rfl, h.progress.congr rfl rfl rfl id, id⟩
  | serverWrite results =>
      obtain ⟨⟨server, called⟩, -, rfl⟩ := Option.map_eq_some_iff.mp hs
      exact ⟨s.call, rfl, h.progress.congr rfl rfl rfl id, id⟩
  | clientRead results fuel => exact h.progress.clientRead h' hs

/-- The connect is over; if it has succeeded, the request is put into the queue. -/
theorem Calling.connectDone {code : Int32} {info : List UInt8} (h : Calling caller services s)
    (hlimits : code = 0 → WithinLimits s.call.request)
    (hs : s' ∈ remoteStep caller.parses services s (.connectDone code info)) :
    Calling caller services s' := by
  obtain ⟨call, hcall, hs⟩ := Option.bind_eq_some_iff.mp hs
  obtain ⟨hstage, heq⟩ := Option.mem_ite_none_right.mp hcall
  obtain rfl := Option.some.inj heq
  have hconnecting : s.session.pushed = [] ∧ Waits caller.begun s.call .connecting := by
    cases h.progress with
    | ended _ hended _ _ =>
        rw [hstage] at hended
        rcases hended with hc | hc
        · cases hc
        · cases hc
    | connecting hp hw => exact ⟨hp, hw⟩
    | writing _ _ _ hw => cases hstage.symm.trans hw.stage_eq
    | reading _ _ _ hw => cases hstage.symm.trans hw.stage_eq
    | answered _ _ _ _ hreading _ _ _ => cases hstage.symm.trans hreading
  obtain ⟨hpushed, hwaits⟩ := hconnecting
  by_cases hcode : code = 0
  · subst hcode
    rw [if_neg (not_not_intro rfl)] at hs
    obtain ⟨session, hwrite, rfl⟩ := Option.map_eq_some_iff.mp hs
    have hfresh : FreshIds s.session (.writeMessage s.call.request ()) := by
      show s.call.request.msgId ∉ s.session.msgIds
      rw [Session.msgIds, hpushed]
      exact List.not_mem_nil
    have hserving := Serving.step services s.session (.writeMessage s.call.request ()) session
      h.serving ⟨hlimits rfl, hfresh⟩ hwrite
    refine ⟨hserving, ?_⟩
    obtain ⟨hloops, heq⟩ := Option.mem_ite_none_left.mp hwrite
    obtain rfl := Option.some.inj heq
    obtain ⟨written, hqueued⟩ := h.serving.conversing.queued
    have hnil := hqueued.pushed
    rw [hpushed] at hnil
    refine .writing ?_ ?_ (fun _ => ?_) (hwaits.goOn .writing)
    · show s.session.pushed ++ [(s.call.request, ())] = _
      rw [hpushed, hwaits.request]
      rfl
    · show s.session.called = []
      rw [h.serving.unmixed.called, hpushed]
      rfl
    · show s.session.client.sent = []
      rw [hqueued.sent, (List.append_eq_nil_iff.mp hnil.symm).1]
      rfl
  · rw [if_pos hcode] at hs
    obtain rfl := Option.some.inj hs
    refine ⟨h.serving, .ended hpushed (.inr ?_) ?_ (.inr ?_)⟩
    · show (TinyRpc.connectDone s.call code info).stage = _
      rw [TinyRpc.connectDone, if_pos hcode]
    · show (TinyRpc.connectDone s.call code info).timer ≠ _
      rw [TinyRpc.connectDone, if_pos hcode]
      rcases hwaits.timer with hp | hf
      · exact fun hc => by cases hp.symm.trans hc
      · exact fun hc => by cases hf.symm.trans hc
    · rw [TinyRpc.connectDone, if_pos hcode]
      rfl

theorem Calling.step (caller : Caller) (services : Nat → ServiceMap M) (s : RemoteCall)
    (event : RemoteEvent) (s' : RemoteCall) (h : Calling caller services s)
    (hevent : RemoteOrderly s event) (hs : s' ∈ remoteStep caller.parses services s event) :
    Calling caller services s' := by
  cases event with
  | connectDone code info => exact h.connectDone hevent hs
  | timeout =>
      obtain ⟨call, hcall, rfl⟩ := Option.map_eq_some_iff.mp hs
      obtain ⟨hpending, heq⟩ := Option.mem_ite_none_right.mp hcall
      obtain rfl := Option.some.inj heq
      exact ⟨h.serving, h.progress.timeout hpending⟩
  | transfer event =>
      cases event with
      | writeMessage message done => cases hs
      | clientWrite results | serverRead results fuel | serverWrite results
      | clientRead results fuel =>
          obtain ⟨session, hsession, -⟩ := Option.bind_eq_some_iff.mp hs
          obtain ⟨call, hstep, hcalling, -⟩ :=
            h.transfer (by simp) hsession (Serving.step services s.session _ session h.serving
              (by exact ⟨hevent, trivial⟩) hsession)
          obtain rfl := Option.some.inj (hstep.symm.trans hs)
          exact hcalling

/-- A call that has been answered in time is what the call without a network is. -/
theorem Calling.replied (h : Calling caller services s) (htimer : s.call.timer = .cancelled) :
    0 < s.dispatches ∧ s.call = localCall (services 0) caller := by
  cases h.progress with
  | ended _ _ hnot _ => exact absurd htimer hnot
  | connecting _ hw =>
      rcases hw.timer with hp | hf
      · cases hp.symm.trans htimer
      · cases hf.symm.trans htimer
  | writing _ _ _ hw =>
      rcases hw.timer with hp | hf
      · cases hp.symm.trans htimer
      · cases hf.symm.trans htimer
  | reading _ _ _ hw =>
      rcases hw.timer with hp | hf
      · cases hp.symm.trans htimer
      · cases hf.symm.trans htimer
  | answered rsp hpushed _ hcalled _ _ hreply _ =>
      have hconv := h.serving.conversing
      have hcorrelated := (h.serving.unmixed.correlated hconv).called
      rw [hcalled, hpushed, remote_single hpushed] at hcorrelated
      obtain rfl : rsp = delivered (dispatcher (services 0) caller.begun.request {}).response := by
        simpa using hcorrelated
      refine ⟨?_, (hreply htimer).trans (replyDone_delivered _ _ _)⟩
      -- the response has been decoded, so the request has been
      have hdecoded : s.session.client.decoded ≠ [] := by
        intro hnone
        have hzip := h.serving.unmixed.called
        rw [hnone, List.zip_nil_right, hcalled] at hzip
        cases hzip
      have hlength := hconv.toClient.decoded_isPrefix.length_le
      rw [List.length_map, hconv.answered, length_dispatchAll] at hlength
      exact (List.length_pos_iff.mpr hdecoded).trans_le hlength

/-- A closure that has run on a call that is not marked as failed ran with the reply. -/
theorem Calling.told (h : Calling caller services s) (hrun : 0 < s.call.closureRuns) :
    s.call.controller.isFailed = true ∨ s.call.timer = .cancelled := by
  have hbegun : caller.begun.closureRuns = 0 := (callMethod_spec _ caller.args).2.1
  have hwaits : ∀ {stage}, Waits caller.begun s.call stage → s.call.controller.isFailed = true := by
    intro stage hw
    rcases hw.timer with hp | hf
    · have hzero : s.call.closureRuns = 0 := by
        rw [hw.inTime hp]
        exact hbegun
      exact absurd hzero hrun.ne'
    · exact hw.late hf
  cases h.progress with
  | ended _ _ _ htold => exact .inl (htold.resolve_left hrun.ne')
  | connecting _ hw => exact .inl (hwaits hw)
  | writing _ _ _ hw => exact .inl (hwaits hw)
  | reading _ _ _ hw => exact .inl (hwaits hw)
  | answered _ _ _ _ _ htimer _ hlate => exact htimer.symm.imp hlate id

theorem Calling.congr (caller : Caller) (services services' : Nat → ServiceMap M) (s : RemoteCall)
    (h : Calling caller services s) (hsame : ∀ k < s.dispatches, services k = services' k) :
    Calling caller services' s :=
  ⟨Serving.congr services services' s.session h.serving hsame, h.progress⟩

/-- The server does not forget what it has looked up. -/
theorem dispatches_remoteStep {parses : List UInt8 → Bool} {event : RemoteEvent}
    (hs : s' ∈ remoteStep parses services s event) : s.dispatches ≤ s'.dispatches := by
  cases event with
  | connectDone code info =>
      obtain ⟨call, -, hs⟩ := Option.bind_eq_some_iff.mp hs
      by_cases hcode : code = 0
      · rw [if_neg (not_not_intro hcode)] at hs
        obtain ⟨session, hsession, rfl⟩ := Option.map_eq_some_iff.mp hs
        exact (decoded_sessionStep hsession).length_le
      · rw [if_pos hcode] at hs
        obtain rfl := Option.some.inj hs
        exact Nat.le_refl _
  | timeout =>
      obtain ⟨call, -, rfl⟩ := Option.map_eq_some_iff.mp hs
      exact Nat.le_refl _
  | transfer event =>
      cases event with
      | writeMessage message done => cases hs
      | clientWrite results | serverRead results fuel | serverWrite results
      | clientRead results fuel =>
          obtain ⟨session, hsession, hs⟩ := Option.bind_eq_some_iff.mp hs
          obtain ⟨call, -, rfl⟩ := Option.map_eq_some_iff.mp hs
          exact (decoded_sessionStep hsession).length_le

end Steps

end TinyRpc
