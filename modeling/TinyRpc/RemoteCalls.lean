/-
TinyRpc/RemoteCalls.lean

Remote calls of any number of callers, each with a channel of its own to one server.

`remote_call_local`: however their calls, the reads and writes for them and their timers take turns,
a call that is answered in time leaves its caller what `localCall` leaves with the table that the
request has found; and a caller whose closure has run sees either a failure or that.
`callbacks_find_call_ready`: no callback is ever run that the call is not waiting for.
`remote_call_returns`: a call that fits into the buffers is answered.
-/
import TinyRpc.RemoteCall
import TinyRpc.RoundTrip

namespace TinyRpc

open TcpBuffer ProtobufProtocol Runs

variable {M : Type}

/-! ### Many callers -/

/-- A call with its session, and the table that its request has found. -/
abbrev RemoteCalls (M : Type) := Chosen RemoteCall (ServiceMap M)

def RemoteCalls.start (caller : Caller) : RemoteCalls M := ⟨RemoteCall.start caller, []⟩

/-- A step of the server with all its callers. -/
def remoteCallsStep {ι : Type} [DecidableEq ι] (callers : ι → Caller) :
    Step (ι → RemoteCalls M) (ι × RemoteEvent × (Nat → ServiceMap M)) :=
  each fun i => choosing (remoteStep (callers i).parses) RemoteCall.dispatches

/-- What a caller sees of its call: if the call has been answered in time, what a call without a
network gives with the table that the request has found; and if the closure has run, that or a
failure. -/
structure CallerSees (caller : Caller) (s : RemoteCalls M) : Prop where
  replied : s.state.call.timer = .cancelled →
    ∃ table ∈ s.choices, s.state.call = localCall table caller
  told : 0 < s.state.call.closureRuns → s.state.call.controller.isFailed = true ∨
    ∃ table ∈ s.choices, s.state.call = localCall table caller

theorem Calling.sees {caller : Caller} {s : RemoteCalls M}
    (h : HoldsSoFar (Calling caller) RemoteCall.dispatches s) : CallerSees caller s := by
  have hreplied : s.state.call.timer = .cancelled →
      ∃ table ∈ s.choices, s.state.call = localCall table caller := by
    intro htimer
    have hheld := h.holds fun _ _ => none
    obtain ⟨hpos, hlocal⟩ := hheld.replied htimer
    rw [← h.made] at hpos
    rw [chosenAt_of_lt _ hpos] at hlocal
    exact ⟨_, List.getElem_mem hpos, hlocal⟩
  refine ⟨hreplied, fun hrun => ?_⟩
  have hheld := h.holds fun _ _ => none
  exact (hheld.told hrun).imp id hreplied

theorem Calling.startSoFar (caller : Caller) :
    HoldsSoFar (Calling caller) RemoteCall.dispatches (RemoteCalls.start caller : RemoteCalls M) :=
  ⟨rfl, fun services => Calling.start caller (chosenAt [] services)⟩

theorem Calling.keeps (caller : Caller) (s : RemoteCalls M)
    (event : RemoteEvent × (Nat → ServiceMap M)) (s' : RemoteCalls M)
    (h : HoldsSoFar (Calling caller) RemoteCall.dispatches s)
    (hevent : RemoteOrderly s.state event.1)
    (hs : s' ∈ choosing (remoteStep caller.parses) RemoteCall.dispatches s event) :
    HoldsSoFar (Calling caller) RemoteCall.dispatches s' :=
  choosing_keeps (Calling.congr caller) (fun _ _ _ _ => dispatches_remoteStep)
    (Calling.step caller) s event s' h hevent hs

/-- **A remote call is a local call.**  However many callers call a server, and whatever the
interleaving of their calls, of the reads and writes for them and of their timers: a call that is
answered in time leaves its caller what the dispatcher at hand would have left, and a caller whose
closure has run sees that or a failure. -/
theorem remote_call_local {ι : Type} [DecidableEq ι] (callers : ι → Caller)
    (events : List (ι × RemoteEvent × (Nat → ServiceMap M)))
    (h : Meets (remoteCallsStep callers) (fun s event => RemoteOrderly (s event.1).state event.2.1)
      (fun i => RemoteCalls.start (callers i)) events) :
    Always (remoteCallsStep callers) (fun s => ∀ i, CallerSees (callers i) (s i))
      (fun i => RemoteCalls.start (callers i)) events :=
  always_each (I := fun i => HoldsSoFar (Calling (callers i)) RemoteCall.dispatches)
    (fun _ _ => Calling.sees) (fun i => Calling.keeps (callers i))
    (fun i => Calling.startSoFar (callers i)) h

/-- The connect succeeds, and each `on_write` and `on_read` does all there is to do. -/
def remoteTrip (services : Nat → ServiceMap M) (request : ProtobufProtocol) : List RemoteEvent :=
  .connectDone 0 [] :: (roundTrip services [(request, ())]).tail.map .transfer

/-- The request is within the limits, and the reads and writes are prompt. -/
def RemotePrompt (s : RemoteCall) : RemoteEvent → Prop
  | .connectDone code _ => code = 0 → WithinLimits s.call.request
  | .timeout => True
  | .transfer event => Prompt s.session event

instance decidableRemotePrompt (s : RemoteCall) : ∀ event, Decidable (RemotePrompt s event)
  | .connectDone code _ => inferInstanceAs (Decidable (code = 0 → WithinLimits s.call.request))
  | .timeout => isTrue trivial
  | .transfer event => decidablePrompt s.session event

/-- What is prompt is orderly. -/
theorem Calling.orderly {caller : Caller} {services : Nat → ServiceMap M} {s : RemoteCall}
    (h : Calling caller services s) {event : RemoteEvent} (hprompt : RemotePrompt s event) :
    RemoteOrderly s event := by
  cases event with
  | connectDone code info => exact hprompt
  | timeout => trivial
  | transfer event => exact h.serving.conversing.orderly hprompt

/-- The caller of a method that there is, and one whose method name has no dot. -/
def twoCallers (found : Bool) : Caller where
  isInit := true
  hasClosure := true
  controller := {}
  args := ⟨true, if found then (echoRequest [97]).methodName else [98], [49], some [55]⟩
  parses := fun _ => true

/-- The timer of the second call fires before its connect is over; then both go on, one behind the
other in every stage. -/
def twoCalls : List (Bool × RemoteEvent × (Nat → ServiceMap (List UInt8))) :=
  (false, .timeout, echoServices) ::
    ((remoteTrip echoServices (twoCallers true).begun.request).zip
        (remoteTrip echoServices (twoCallers false).begun.request)).flatMap fun event =>
      [(true, event.1, echoServices), (false, event.2, echoServices)]

theorem twoCalls_prompt :
    Meets (remoteCallsStep twoCallers) (fun s event => RemotePrompt (s event.1).state event.2.1)
      (fun i => RemoteCalls.start (twoCallers i)) twoCalls := by
  decide +kernel

theorem remote_call_local_twoCalls :
    Always (remoteCallsStep twoCallers) (fun s => ∀ i, CallerSees (twoCallers i) (s i))
      (fun i => RemoteCalls.start (twoCallers i)) twoCalls :=
  remote_call_local twoCallers twoCalls (meets_of_meets
    (I := fun s => ∀ i, HoldsSoFar (Calling (twoCallers i)) RemoteCall.dispatches (s i))
    (fun _ event hs hevent => ((hs event.1).holds event.2.2).orderly hevent)
    (each_keeps fun i => Calling.keeps (twoCallers i))
    (fun i => Calling.startSoFar (twoCallers i)) twoCalls_prompt)

/-- **No callback comes at the wrong time**: whatever a call and its session have done, `on_read`
and `on_write` of the client run the callback of the write only while the call waits for it, and
that of the reply only while it waits for it and still has its channel. -/
theorem callbacks_find_call_ready (services : Nat → ServiceMap M) (caller : Caller)
    (events : List RemoteEvent)
    (h : Meets (remoteStep caller.parses services) RemoteOrderly (RemoteCall.start caller) events) :
    Always (remoteStep caller.parses services)
      (fun s => ∀ event session, (∀ message done, event ≠ .writeMessage message done) →
        Orderly s.session event → sessionStep services s.session event = some session →
          ∃ call, remoteStep caller.parses services s (.transfer event) = some ⟨call, session⟩)
      (RemoteCall.start caller) events := by
  refine always_of_meets (I := Calling caller services) ?_ (Calling.step caller services)
    (Calling.start caller services) h
  intro s hs event session hevent horderly hsession
  have hfresh : FreshIds s.session event := by
    cases event with
    | writeMessage message done => exact absurd rfl (hevent message done)
    | clientWrite results | serverRead results fuel | serverWrite results
    | clientRead results fuel => exact trivial
  have hserving := Serving.step services s.session event session hs.serving ⟨horderly, hfresh⟩
    hsession
  obtain ⟨call, hstep, -, -⟩ := hs.transfer hevent hsession hserving
  exact ⟨call, hstep⟩

theorem remoteTrip_prompt :
    Meets (remoteStep (twoCallers true).parses echoServices) RemotePrompt
      (RemoteCall.start (twoCallers true))
      (remoteTrip echoServices (twoCallers true).begun.request) := by
  decide +kernel

theorem callbacks_find_call_ready_remoteTrip :
    Always (remoteStep (twoCallers true).parses echoServices)
      (fun s => ∀ event session, (∀ message done, event ≠ .writeMessage message done) →
        Orderly s.session event → sessionStep echoServices s.session event = some session →
          ∃ call, remoteStep (twoCallers true).parses echoServices s (.transfer event) =
            some ⟨call, session⟩)
      (RemoteCall.start (twoCallers true))
      (remoteTrip echoServices (twoCallers true).begun.request) :=
  callbacks_find_call_ready echoServices (twoCallers true) _ (meets_of_meets
    (I := Calling (twoCallers true) echoServices) (fun _ _ hs hevent => hs.orderly hevent)
    (Calling.step (twoCallers true) echoServices) (Calling.start (twoCallers true) echoServices)
    remoteTrip_prompt)

/-! ### Calls that are answered -/

section Trip

variable {caller : Caller} {services : Nat → ServiceMap M} {s : RemoteCall}

/-- A call whose reply callback has been run has been answered, in time or not. -/
theorem Calling.answered (h : Calling caller services s) (hcalled : s.session.called ≠ []) :
    s.call.timer = .cancelled ∨ s.call.timer = .fired := by
  have hempty : s.session.pushed = [] → False := by
    intro hp
    refine hcalled ?_
    rw [h.serving.unmixed.called, hp]
    rfl
  cases h.progress with
  | ended hp _ _ _ => exact (hempty hp).elim
  | connecting hp _ => exact (hempty hp).elim
  | writing _ hc _ _ => exact absurd hc hcalled
  | reading _ _ hc _ => exact absurd hc hcalled
  | answered _ _ _ _ _ htimer _ _ => exact htimer

/-- A call that comes to its connect has armed its timer. -/
theorem Caller.timer_pending (hbegun : caller.begun.stage = .connecting) :
    caller.begun.timer = .pending := by
  obtain ⟨-, -, -, -, hend⟩ := callMethod_spec
    { Call.start caller.isInit caller.controller with hasClosure := caller.hasClosure } caller.args
  rcases hend with ⟨hreturned, -⟩ | ⟨-, hpending, -⟩
  · cases hreturned.symm.trans hbegun
  · exact hpending

/-- The connect has succeeded, and the request waits. -/
theorem connectDone_queued (hbegun : caller.begun.stage = .connecting)
    (hlimits : WithinLimits caller.begun.request) :
    ∃ call listens, remoteStep caller.parses services (RemoteCall.start caller)
        (.connectDone 0 []) =
          some ⟨call, queuedSession [(caller.begun.request, ())] listens⟩ ∧
      Calling caller services ⟨call, queuedSession [(caller.begun.request, ())] listens⟩ ∧
      call.timer = .pending := by
  have hcall : callStep caller.parses caller.begun (.connectDone 0 []) =
      some { caller.begun with stage := .writing } := if_pos hbegun
  have hs : remoteStep caller.parses services (RemoteCall.start caller) (.connectDone 0 []) =
      some ⟨{ caller.begun with stage := .writing },
        queuedSession [(caller.begun.request, ())] true⟩ := by
    show (callStep caller.parses caller.begun (.connectDone 0 [])).bind _ = _
    rw [hcall]
    rfl
  exact ⟨_, true, hs, (Calling.start caller services).connectDone (fun _ => hlimits) hs,
    Caller.timer_pending hbegun⟩

end Trip

/-- **A call is answered** if its request is within the limits, and its request and its response fit
into the buffers: the round trip goes through, and leaves the caller what the call without a
network leaves. -/
theorem remote_call_returns (services : Nat → ServiceMap M) (caller : Caller)
    (hbegun : caller.begun.stage = .connecting) (hlimits : WithinLimits caller.begun.request)
    (hrequest : caller.begun.request.frameLength < 128)
    (hresponse : (dispatcher (services 0) caller.begun.request {}).response.frameLength < 128) :
    ∃ s, after (remoteStep caller.parses services) (RemoteCall.start caller)
        (remoteTrip services caller.begun.request) = some s ∧
      s.call = localCall (services 0) caller := by
  have hne : [(caller.begun.request, ())] ≠ [] := List.cons_ne_nil _ _
  have hrequests :
      (([(caller.begun.request, ())].map Prod.fst).map frameLength).sum < 128 := hrequest
  have hresponses : ((responses services ([(caller.begun.request, ())].map Prod.fst)).map
      frameLength).sum < 128 := hresponse
  obtain ⟨call₀, listens, hrun₀, h₀, hpending⟩ :=
    @connectDone_queued M caller services hbegun hlimits
  -- the session makes the round trip, and the call follows
  obtain ⟨s₁, hwrite, hs₁, hasked⟩ :=
    clientWrite_asked ⟨h₀.serving.conversing, h₀.serving.unmixed⟩ hne (by omega)
  obtain ⟨call₁, hrun₁, h₁, hfired₁⟩ := h₀.transfer (by simp) hwrite ⟨hs₁.1, hs₁.2⟩
  obtain ⟨s₂, hread, hs₂, hanswered⟩ := hasked.serverRead hs₁ hne hrequests (by omega)
  obtain ⟨call₂, hrun₂, h₂, hfired₂⟩ := h₁.transfer (by simp) hread ⟨hs₂.1, hs₂.2⟩
  obtain ⟨s₃, hwrite', hs₃, hreplied⟩ := hanswered.serverWrite hs₂ hne
  obtain ⟨call₃, hrun₃, h₃, hfired₃⟩ := h₂.transfer (by simp) hwrite' ⟨hs₃.1, hs₃.2⟩
  obtain ⟨s₄, hread', hs₄, hpushed, hsettled⟩ := hreplied.clientRead hs₃ hne hresponses
  obtain ⟨call₄, hrun₄, h₄, hfired₄⟩ := h₃.transfer (by simp) hread' ⟨hs₄.1, hs₄.2⟩
  refine ⟨⟨call₄, s₄⟩, ?_, ?_⟩
  · show (remoteStep caller.parses services _ _).bind _ = _
    rw [hrun₀]
    show (remoteStep caller.parses services _ _).bind _ = _
    rw [hrun₁]
    show (remoteStep caller.parses services _ _).bind _ = _
    rw [hrun₂]
    show (remoteStep caller.parses services _ _).bind _ = _
    rw [hrun₃]
    show (remoteStep caller.parses services _ _).bind _ = _
    rw [hrun₄]
    rfl
  · have hcalled : s₄.called ≠ [] := by
      rw [(hs₄.2.correlated hs₄.1).all hsettled, remote_single hpushed, hpushed]
      exact List.cons_ne_nil _ _
    rcases h₄.answered hcalled with hcancelled | hfired
    · exact (h₄.replied hcancelled).2
    · cases hpending.symm.trans (hfired₁ (hfired₂ (hfired₃ (hfired₄ hfired))))

theorem remote_call_returns_twoCallers :
    ∃ s, after (remoteStep (twoCallers true).parses echoServices)
        (RemoteCall.start (twoCallers true))
        (remoteTrip echoServices (twoCallers true).begun.request) = some s ∧
      s.call = localCall (echoServices 0) (twoCallers true) :=
  remote_call_returns echoServices (twoCallers true) (by decide) (by decide) (by decide +kernel)
    (by decide +kernel)

end TinyRpc
