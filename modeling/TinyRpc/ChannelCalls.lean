/-
TinyRpc/ChannelCalls.lean

Several calls on one channel, at the same time.

A call keeps its request and its controller in its callbacks, but the response
message, the closure and the timer are members of the channel.  The response and
the closure are those of the first `init` (`CallMethod` does not look at its own
`response` and `done`), the timer is that of the last call that has armed one,
and a reply takes them as it finds them.  So it may cancel the timer of another
call, and then the timer of its own call still fires.

`calls_own_replies_iff` says which interleavings keep the calls apart.  Each call
has a controller of its own; `ρ` is the type of the response messages.
-/
import TinyRpc.CallErrors

namespace TinyRpc

open Runs

/-! ### One call: the closure runs at most once -/

/-- What a call is after any events. -/
structure Call.Once (s : Call) : Prop where
  ready : s.stage = .ready → s.timer = .notArmed
  notArmed : s.timer = .notArmed → (s.stage = .ready ∨ s.stage = .returned) ∧ s.closureRuns = 0
  pending : s.timer = .pending → s.closureRuns = 0
  cancelled : s.timer = .cancelled → s.hasChannel = true → s.closureRuns = 0
  fired : s.timer = .fired → s.controller.isCanceled = true
  le : s.closureRuns ≤ 1

variable {parses : List UInt8 → Bool} {s s' : Call}

theorem Call.Once.start (isInit hasClosure : Bool) (controller : RpcController) :
    { Call.start isInit controller with hasClosure := hasClosure }.Once where
  ready := fun _ => rfl
  notArmed := fun _ => ⟨.inl rfl, rfl⟩
  pending := nofun
  cancelled := nofun
  fired := nofun
  le := Nat.zero_le 1

theorem runClosure_le (s : Call) : s.runClosure.closureRuns ≤ s.closureRuns + 1 := by
  unfold Call.runClosure
  split
  · exact Nat.le_refl _
  · exact Nat.le_succ _

theorem Call.Once.callMethod (h : s.Once) (hstage : s.stage = .ready) (args : CallArgs) :
    (callMethod s args).Once := by
  obtain ⟨-, hruns, -, -, hend⟩ := callMethod_spec s args
  have htimer := h.ready hstage
  have hzero : (TinyRpc.callMethod s args).closureRuns = 0 :=
    hruns.trans (h.notArmed htimer).2
  rcases hend with ⟨hret, hkeep⟩ | ⟨hconn, hpending, -⟩
  · have hnot : (TinyRpc.callMethod s args).timer = .notArmed := hkeep.trans htimer
    exact
      { ready := fun _ => hnot
        notArmed := fun _ => ⟨.inr hret, hzero⟩
        pending := fun _ => hzero
        cancelled := fun _ _ => hzero
        fired := fun hf => absurd (hnot.symm.trans hf) nofun
        le := hzero.le.trans (Nat.zero_le 1) }
  · exact
      { ready := fun hr => absurd (hconn.symm.trans hr) nofun
        notArmed := fun hn => absurd (hpending.symm.trans hn) nofun
        pending := fun _ => hzero
        cancelled := fun _ _ => hzero
        fired := fun hf => absurd (hpending.symm.trans hf) nofun
        le := hzero.le.trans (Nat.zero_le 1) }

/-- A callback that leaves the timer and the closure alone. -/
theorem Call.Once.keep (h : s.Once) {stage : CallStage} {controller : RpcController}
    (hstage : s.stage ≠ .ready ∧ s.stage ≠ .returned) (hne : stage ≠ .ready)
    (hcanceled : controller.isCanceled = s.controller.isCanceled) :
    { s with stage := stage, controller := controller }.Once where
  ready := fun hr => absurd hr hne
  notArmed := fun hn => absurd (h.notArmed hn).1 (not_or.mpr hstage)
  pending := h.pending
  cancelled := h.cancelled
  fired := fun hf => hcanceled.trans (h.fired hf)
  le := h.le

theorem Call.Once.connectDone (h : s.Once) (hstage : s.stage = .connecting) (code : Int32)
    (info : List UInt8) : (connectDone s code info).Once := by
  have hne : s.stage ≠ .ready ∧ s.stage ≠ .returned := by
    rw [hstage]
    decide
  unfold TinyRpc.connectDone
  split
  · exact h.keep hne nofun (RpcController.setError_isCancled _ _ _)
  · exact h.keep hne nofun rfl

/-- A call in its reply callback, with the timer cancelled or fired. -/
theorem Call.Once.of_reading (hstage : s.stage = .reading) (hle : s.closureRuns ≤ 1)
    (htimer : s.timer = .cancelled ∧ (s.hasChannel = true → s.closureRuns = 0) ∨
      s.timer = .fired ∧ s.controller.isCanceled = true) : s.Once := by
  have hready : s.stage ≠ .ready := by
    rw [hstage]
    nofun
  rcases htimer with ⟨ht, hzero⟩ | ⟨ht, hcanceled⟩
  · exact
      { ready := fun hr => absurd hr hready
        notArmed := fun hn => absurd (ht.symm.trans hn) nofun
        pending := fun hp => absurd (ht.symm.trans hp) nofun
        cancelled := fun _ => hzero
        fired := fun hf => absurd (ht.symm.trans hf) nofun
        le := hle }
  · exact
      { ready := fun hr => absurd hr hready
        notArmed := fun hn => absurd (ht.symm.trans hn) nofun
        pending := fun hp => absurd (ht.symm.trans hp) nofun
        cancelled := fun hc => absurd (ht.symm.trans hc) nofun
        fired := fun _ => hcanceled
        le := hle }

/-- When the reply callback may run, either nobody has run the closure, and the reply
cancels the timer, or the timer has fired, and the call is cancelled. -/
theorem Call.Once.answerable (h : s.Once) (hstage : s.stage = .reading)
    (hchannel : s.hasChannel = true) :
    s.cancelTimer.timer = .cancelled ∧ s.closureRuns = 0 ∨
      s.cancelTimer.timer = .fired ∧ s.controller.isCanceled = true := by
  cases ht : s.timer with
  | notArmed =>
      rcases (h.notArmed ht).1 with hr | hr
      · exact absurd (hr.symm.trans hstage) (by decide)
      · exact absurd (hr.symm.trans hstage) (by decide)
  | pending => exact .inl ⟨cancelTimer_of_pending ht, h.pending ht⟩
  | cancelled =>
      refine .inl ⟨?_, h.cancelled ht hchannel⟩
      rw [cancelTimer_of_not_pending (by rw [ht]; decide)]
      exact ht
  | fired =>
      refine .inr ⟨?_, h.fired ht⟩
      rw [cancelTimer_of_not_pending (by rw [ht]; decide)]
      exact ht

/-- What the reply callback does once it has cancelled a timer and parsed the response. -/
def replyExit (parses : List UInt8 → Bool) (s : Call) (rsp : ProtobufProtocol) : Call :=
  if parses rsp.pbData = false then s.setError errorFailedSerialize (text "serizlize error")
  else if rsp.errCode ≠ 0 then s.setError rsp.errCode rsp.errInfo
  else s.notify.resetChannel

theorem replyDone_eq (parses : List UInt8 → Bool) (s : Call) (rsp : ProtobufProtocol) :
    replyDone parses s rsp
      = replyExit parses { s.cancelTimer with response := some rsp.pbData } rsp := rfl

/-- The reply callback runs the closure at most once, and not in a cancelled call. -/
theorem replyExit_cases (parses : List UInt8 → Bool) (s : Call) (rsp : ProtobufProtocol) :
    (replyExit parses s rsp).stage = s.stage ∧ (replyExit parses s rsp).timer = s.timer ∧
      (replyExit parses s rsp).controller.isCanceled = s.controller.isCanceled ∧
      (replyExit parses s rsp).closureRuns
        ≤ s.closureRuns + (if s.controller.isCanceled then 0 else 1) ∧
      ((replyExit parses s rsp).closureRuns = s.closureRuns ∨
        (replyExit parses s rsp).hasChannel = false) := by
  unfold replyExit
  split
  · exact ⟨rfl, rfl, rfl, Nat.le_add_right _ _, .inl rfl⟩
  · split
    · exact ⟨rfl, rfl, rfl, Nat.le_add_right _ _, .inl rfl⟩
    · unfold Call.notify
      split
      · exact ⟨rfl, rfl, rfl, Nat.le_refl _, .inr rfl⟩
      · exact ⟨rfl, rfl, rfl, runClosure_le s, .inr rfl⟩

theorem Call.Once.reply (h : s.Once) (hstage : s.stage = .reading)
    (hchannel : s.hasChannel = true) (rsp : ProtobufProtocol) :
    (replyDone parses s rsp).Once := by
  rw [replyDone_eq]
  obtain ⟨hst, htm, hcc, hle, hrun⟩ :=
    replyExit_cases parses { s.cancelTimer with response := some rsp.pbData } rsp
  refine .of_reading (hst.trans hstage) ?_ ?_
  · -- a timer that has fired has cancelled the call, and the closure does not run again
    refine hle.trans ?_
    rcases h.answerable hstage hchannel with ⟨-, hzero⟩ | ⟨-, hcanceled⟩
    · show s.closureRuns + _ ≤ 1
      rw [hzero, Nat.zero_add]
      split <;> decide
    · show s.closureRuns + (if s.controller.isCanceled = true then 0 else 1) ≤ 1
      rw [if_pos hcanceled]
      exact h.le
  · rcases h.answerable hstage hchannel with ⟨ht, hzero⟩ | ⟨ht, hcanceled⟩
    · refine .inl ⟨htm.trans ht, fun hch => ?_⟩
      rcases hrun with heq | hfalse
      · exact heq.trans hzero
      · exact absurd (hfalse.symm.trans hch) nofun
    · exact .inr ⟨htm.trans ht, hcc.trans hcanceled⟩

theorem Call.Once.timeout (h : s.Once) (ht : s.timer = .pending) : (timeoutDone s).Once where
  ready := fun hr => absurd ((h.ready hr).symm.trans ht) nofun
  notArmed := nofun
  pending := nofun
  cancelled := nofun
  fired := fun _ => rfl
  le := by
    refine (runClosure_le _).trans ?_
    show s.closureRuns + 1 ≤ 1
    rw [h.pending ht]

theorem Call.Once.step {event : CallEvent} (h : s.Once) (hs : s' ∈ callStep parses s event) :
    s'.Once := by
  rcases callStep_cases hs with ⟨args, rfl, hstage, rfl⟩ | ⟨code, info, rfl, hstage, rfl⟩ |
    ⟨rfl, hstage, rfl⟩ | ⟨rsp, rfl, hstage, hchannel, rfl⟩ | ⟨rfl, ht, rfl⟩
  · exact h.callMethod hstage args
  · exact h.connectDone hstage code info
  · exact h.keep (by rw [hstage]; decide) nofun rfl
  · exact h.reply hstage hchannel rsp
  · exact h.timeout ht

/-! ### The channel -/

variable {ρ : Type}

/-- A call, and the response message that `CallMethod` was given for it. -/
structure ChannelCall (ρ : Type) where
  call : Call
  response : ρ

/-- What the callbacks of a channel do that its callers notice. -/
inductive Notice (ρ : Type)
  /-- the reply to a call cancels the timer of call `timer` and is parsed into `response` -/
  | reply (i : Nat) (timer : Option Nat) (response : Option ρ)
  | timeout (i : Nat)
  deriving DecidableEq

structure RpcChannel (ρ : Type) where
  isInit : Bool
  /-- `m_response` -/
  response : Option ρ
  /-- `m_closure` is not null -/
  hasClosure : Bool
  /-- `m_timer_evnet`, as the call that it was made for -/
  timerEvent : Option Nat
  /-- the calls, in the order of their `CallMethod`s -/
  calls : List (ChannelCall ρ)
  /-- what has been noticed so far -/
  notices : List (Notice ρ)

namespace RpcChannel

def start (ρ : Type) : RpcChannel ρ where
  isInit := false
  response := none
  hasClosure := false
  timerEvent := none
  calls := []
  notices := []

/-- `init`, which does nothing the second time.  (`m_controller` and `m_request` are left
out: nothing reads them.) -/
def init (s : RpcChannel ρ) (response : ρ) (hasClosure : Bool) : RpcChannel ρ :=
  if s.isInit then s
  else { s with isInit := true, response := some response, hasClosure := hasClosure }

/-- Change one call. -/
def mapCall (s : RpcChannel ρ) (i : Nat) (f : Call → Call) : RpcChannel ρ :=
  { s with calls := s.calls.modify i fun c => { c with call := f c.call } }

/-- `CallMethod`, which makes `m_timer_evnet` its own timer. -/
def callMethod (s : RpcChannel ρ) (controller : RpcController) (response : ρ) (args : CallArgs) :
    RpcChannel ρ :=
  let call :=
    TinyRpc.callMethod { Call.start s.isInit controller with hasClosure := s.hasClosure } args
  { s with
    calls := s.calls ++ [⟨call, response⟩]
    timerEvent := if call.timer = .pending then some s.calls.length else s.timerEvent }

/-- `channel->get_timer_event()->set_cancel(true)` -/
def cancelTimerEvent (s : RpcChannel ρ) : RpcChannel ρ :=
  match s.timerEvent with
  | none => s
  | some i => s.mapCall i Call.cancelTimer

/-- The reply callback of call `i`: the timer and the response are the channel's. -/
def reply (parses : List UInt8 → Bool) (s : RpcChannel ρ) (i : Nat) (rsp : ProtobufProtocol) :
    RpcChannel ρ :=
  let s' := s.cancelTimerEvent.mapCall i fun call =>
    replyExit parses { call with response := some rsp.pbData } rsp
  { s' with notices := s.notices ++ [.reply i s.timerEvent s.response] }

/-- A callback of call `i`, of which `call` is what it does to the call itself. -/
def callback (parses : List UInt8 → Bool) (s : RpcChannel ρ) (i : Nat) (call : Call) :
    CallEvent → RpcChannel ρ
  | .reply rsp => s.reply parses i rsp
  | .timeout => { s.mapCall i fun _ => call with notices := s.notices ++ [.timeout i] }
  | _ => s.mapCall i fun _ => call

end RpcChannel

inductive ChannelEvent (ρ : Type)
  | init (response : ρ) (hasClosure : Bool)
  | callMethod (controller : RpcController) (response : ρ) (args : CallArgs)
  /-- a callback of the call that was started as number `i` -/
  | callback (i : Nat) (event : CallEvent)

/-- What an event does to a channel.  A callback runs when `callStep` lets it. -/
def channelStep (parses : List UInt8 → Bool) : Step (RpcChannel ρ) (ChannelEvent ρ)
  | s, .init response hasClosure => some (s.init response hasClosure)
  | s, .callMethod controller response args => some (s.callMethod controller response args)
  | s, .callback i event =>
      (s.calls[i]?).bind fun c =>
        (callStep parses c.call event).map fun call => s.callback parses i call event

/-! ### Calls that are kept apart -/

/-- The call that is replied to. -/
def Notice.repliesTo : Notice ρ → Option Nat
  | .reply i _ _ => some i
  | .timeout _ => none

/-- The timer of that call does not fire any more. -/
def Notice.Before (earlier later : Notice ρ) : Prop :=
  ∀ i ∈ earlier.repliesTo, later ≠ .timeout i

/-- A reply cancels the timer of its own call, and is parsed into the response of its own
call. -/
def Notice.Own (s : RpcChannel ρ) : Notice ρ → Prop
  | .reply i timer response =>
      timer = some i ∧ response = (s.calls[i]?).map ChannelCall.response
  | .timeout _ => True

/-- Every reply has done so, the closure has run at most once for each call, and no call
that has been replied to has timed out afterwards. -/
def OwnReplies (s : RpcChannel ρ) : Prop :=
  (∀ notice ∈ s.notices, notice.Own s) ∧ (∀ c ∈ s.calls, c.call.closureRuns ≤ 1) ∧
    s.notices.Pairwise Notice.Before

section

variable [DecidableEq ρ]

instance (s : RpcChannel ρ) : DecidablePred (Notice.Own s)
  | .reply _ _ _ => inferInstanceAs (Decidable (_ ∧ _))
  | .timeout _ => inferInstanceAs (Decidable True)

instance : DecidableRel (@Notice.Before ρ) := fun _ _ => inferInstanceAs (Decidable (∀ _ ∈ _, _))

instance : DecidablePred (@OwnReplies ρ) := fun _ => inferInstanceAs (Decidable (_ ∧ _))

end

/-- A reply comes to the last call that has armed a timer on the channel, whose response
message is the one that the channel was initialised with. -/
def ChannelKeeps (s : RpcChannel ρ) : ChannelEvent ρ → Prop
  | .callback i (.reply _) =>
      s.timerEvent = some i ∧ s.response = (s.calls[i]?).map ChannelCall.response
  | _ => True

/-! ### One call of the channel -/

namespace RpcChannel

variable {s s' : RpcChannel ρ} {i j : Nat} {c : ChannelCall ρ} {f g : Call → Call}

theorem mapCall_self (hc : s.calls[i]? = some c) :
    (s.mapCall i f).calls[i]? = some { c with call := f c.call } := by
  simp [mapCall, hc]

theorem mapCall_ne (h : i ≠ j) : (s.mapCall i f).calls[j]? = s.calls[j]? :=
  List.getElem?_modify_ne _ _ h

/-- Calls keep their response messages. -/
theorem mapCall_response (i j : Nat) (f : Call → Call) :
    ((s.mapCall i f).calls[j]?).map ChannelCall.response
      = (s.calls[j]?).map ChannelCall.response := by
  simp only [mapCall, List.getElem?_modify]
  cases s.calls[j]? with
  | none => rfl
  | some c => by_cases h : i = j <;> simp [h]

theorem mapCall_mapCall (s : RpcChannel ρ) (i : Nat) (f g : Call → Call) :
    (s.mapCall i f).mapCall i g = s.mapCall i (g ∘ f) := by
  simp only [mapCall, List.modify_modify_eq]
  rfl

/-- Only what a change makes of the call itself counts. -/
theorem mapCall_congr (hc : s.calls[i]? = some c) (h : f c.call = g c.call) :
    s.mapCall i f = s.mapCall i g := by
  have hcalls : (s.mapCall i f).calls = (s.mapCall i g).calls := by
    apply List.ext_getElem?
    intro j
    by_cases hij : i = j
    · subst hij
      rw [mapCall_self hc, mapCall_self hc, h]
    · rw [mapCall_ne hij, mapCall_ne hij]
  exact congrArg (fun calls => { s with calls := calls }) hcalls

theorem reply_calls_eq (rsp : ProtobufProtocol) :
    (s.reply parses i rsp).calls
      = (s.cancelTimerEvent.mapCall i fun call =>
          replyExit parses { call with response := some rsp.pbData } rsp).calls := rfl

/-- A reply that finds its own timer does to its call what it does to a call alone, and
nothing to any other call. -/
theorem reply_calls (hc : s.calls[i]? = some c) (ht : s.timerEvent = some i)
    (rsp : ProtobufProtocol) :
    (s.reply parses i rsp).calls
      = (s.mapCall i fun _ => replyDone parses c.call rsp).calls := by
  have hcancel : s.cancelTimerEvent = s.mapCall i Call.cancelTimer := by
    rw [cancelTimerEvent, ht]
  rw [reply_calls_eq, hcancel, mapCall_mapCall]
  exact congrArg RpcChannel.calls (mapCall_congr hc (replyDone_eq parses c.call rsp).symm)

theorem reply_response (rsp : ProtobufProtocol) :
    ((s.reply parses i rsp).calls[j]?).map ChannelCall.response
      = (s.calls[j]?).map ChannelCall.response := by
  rw [reply_calls_eq, mapCall_response, cancelTimerEvent]
  cases s.timerEvent with
  | none => rfl
  | some k => exact mapCall_response k j _

/-- A callback that meets the condition is a callback of one call alone. -/
theorem callback_calls {event : CallEvent} {call : Call} (hc : s.calls[i]? = some c)
    (hcall : call ∈ callStep parses c.call event)
    (hkeeps : ChannelKeeps s (.callback i event)) :
    (s.callback parses i call event).calls = (s.mapCall i fun _ => call).calls := by
  cases event with
  | reply rsp =>
      obtain ⟨-, heq⟩ := Option.mem_ite_none_right.mp hcall
      obtain rfl := Option.some.inj heq
      exact reply_calls hc hkeeps.1 rsp
  | callMethod args => rfl
  | connectDone code info => rfl
  | written => rfl
  | timeout => rfl

end RpcChannel

/-- What a callback does to the timer of a call that has been made. -/
theorem callStep_timer {event : CallEvent} (hstage : s.stage ≠ .ready)
    (hs : s' ∈ callStep parses s event) :
    s'.stage ≠ .ready ∧ (s.timer ≠ .pending → s'.timer ≠ .pending) := by
  rcases callStep_cases hs with ⟨args, rfl, hready, rfl⟩ | ⟨code, info, rfl, -, rfl⟩ |
    ⟨rfl, -, rfl⟩ | ⟨rsp, rfl, hreading, -, rfl⟩ | ⟨rfl, -, rfl⟩
  · exact absurd hready hstage
  · unfold connectDone
    split
    · exact ⟨nofun, id⟩
    · exact ⟨nofun, id⟩
  · exact ⟨nofun, id⟩
  · rw [replyDone_eq]
    obtain ⟨hst, htm, -⟩ :=
      replyExit_cases parses { s.cancelTimer with response := some rsp.pbData } rsp
    rw [hst, htm]
    refine ⟨hstage, fun ht => ?_⟩
    show s.cancelTimer.timer ≠ .pending
    rw [cancelTimer_of_not_pending ht]
    exact ht
  · exact ⟨hstage, nofun⟩

/-- A reply leaves no timer pending. -/
theorem replyDone_timer (s : Call) (rsp : ProtobufProtocol) :
    (replyDone parses s rsp).timer ≠ .pending := by
  rw [replyDone_eq, (replyExit_cases parses _ rsp).2.1]
  show s.cancelTimer.timer ≠ .pending
  unfold Call.cancelTimer
  split
  · nofun
  · assumption

/-! ### The invariant -/

namespace RpcChannel

variable {s s' : RpcChannel ρ} {i : Nat} {c : ChannelCall ρ} {call : Call} {notice : Notice ρ}

/-- What a channel keeps while every event meets the condition. -/
structure Sound (s : RpcChannel ρ) : Prop where
  own : ∀ notice ∈ s.notices, notice.Own s
  before : s.notices.Pairwise Notice.Before
  once : ∀ c ∈ s.calls, c.call.Once ∧ c.call.stage ≠ .ready
  answered : ∀ notice ∈ s.notices, ∀ i ∈ notice.repliesTo,
    ∃ c, s.calls[i]? = some c ∧ c.call.timer ≠ .pending

theorem Sound.start : (RpcChannel.start ρ).Sound where
  own := fun _ hn => absurd hn List.not_mem_nil
  before := .nil
  once := fun _ hc => absurd hc List.not_mem_nil
  answered := fun _ hn => absurd hn List.not_mem_nil

theorem Sound.ownReplies (h : s.Sound) : OwnReplies s :=
  ⟨h.own, fun c hc => (h.once c hc).1.le, h.before⟩

/-- A notice is about the response message of the call replied to. -/
theorem own_of_response (h : notice.Own s)
    (hresponse : ∀ i ∈ notice.repliesTo,
      (s'.calls[i]?).map ChannelCall.response = (s.calls[i]?).map ChannelCall.response) :
    notice.Own s' := by
  cases notice with
  | reply i timer response => exact ⟨h.1, h.2.trans (hresponse i rfl).symm⟩
  | timeout i => trivial

theorem Sound.init (h : s.Sound) (response : ρ) (hasClosure : Bool) :
    (s.init response hasClosure).Sound := by
  unfold RpcChannel.init
  split
  · exact h
  · refine ⟨fun notice hn => ?_, h.before, h.once, h.answered⟩
    exact own_of_response (h.own notice hn) fun _ _ => rfl

theorem Sound.callMethod (h : s.Sound) (controller : RpcController) (response : ρ)
    (args : CallArgs) : (s.callMethod controller response args).Sound := by
  have hget : ∀ (i : Nat) (c : ChannelCall ρ), s.calls[i]? = some c →
      (s.callMethod controller response args).calls[i]? = some c := by
    intro i c hc
    exact (List.getElem?_append_left (List.getElem?_eq_some_iff.mp hc).1).trans hc
  refine ⟨?_, h.before, ?_, ?_⟩
  · intro notice hn
    refine own_of_response (h.own notice hn) fun i hi => ?_
    obtain ⟨c, hc, -⟩ := h.answered notice hn i hi
    rw [hget i c hc, hc]
  · intro c hc
    rcases List.mem_append.mp hc with hold | hnew
    · exact h.once c hold
    · obtain rfl := List.mem_singleton.mp hnew
      refine ⟨(Call.Once.start s.isInit s.hasClosure controller).callMethod rfl args, ?_⟩
      obtain ⟨-, -, -, -, hend⟩ :=
        callMethod_spec { Call.start s.isInit controller with hasClosure := s.hasClosure } args
      rcases hend with ⟨hret, -⟩ | ⟨hconn, -⟩
      · rw [hret]
        nofun
      · rw [hconn]
        nofun
  · intro notice hn i hi
    obtain ⟨c, hc, ht⟩ := h.answered notice hn i hi
    exact ⟨c, hget i c hc, ht⟩

/-- A callback keeps what holds of its call, and of every other call. -/
theorem Sound.mapCall (h : s.Sound) {event : CallEvent} (hc : s.calls[i]? = some c)
    (hcall : call ∈ callStep parses c.call event) : (s.mapCall i fun _ => call).Sound := by
  obtain ⟨honce, hstage⟩ := h.once c (List.mem_of_getElem? hc)
  obtain ⟨hstage', htimer⟩ := callStep_timer hstage hcall
  refine ⟨?_, h.before, ?_, ?_⟩
  · intro notice hn
    exact own_of_response (h.own notice hn) fun j _ => mapCall_response i j _
  · intro c' hc'
    obtain ⟨j, hj⟩ := List.mem_iff_getElem?.mp hc'
    -- the call itself, and any other
    by_cases hij : i = j
    · subst hij
      obtain rfl := Option.some.inj ((mapCall_self hc).symm.trans hj)
      exact ⟨honce.step hcall, hstage'⟩
    · rw [mapCall_ne hij] at hj
      exact h.once c' (List.mem_of_getElem? hj)
  · intro notice hn j hj
    obtain ⟨c', hc', ht⟩ := h.answered notice hn j hj
    by_cases hij : i = j
    · subst hij
      obtain rfl := Option.some.inj (hc.symm.trans hc')
      exact ⟨_, mapCall_self hc, htimer ht⟩
    · exact ⟨c', (mapCall_ne hij).trans hc', ht⟩

/-- One more notice. -/
theorem Sound.append (h : s.Sound) (hcalls : s'.calls = s.calls)
    (hnotices : s'.notices = s.notices ++ [notice]) (hown : notice.Own s)
    (hbefore : ∀ earlier ∈ s.notices, earlier.Before notice)
    (hanswered : ∀ i ∈ notice.repliesTo, ∃ c, s.calls[i]? = some c ∧ c.call.timer ≠ .pending) :
    s'.Sound := by
  have hresponse : ∀ i : Nat,
      (s'.calls[i]?).map ChannelCall.response = (s.calls[i]?).map ChannelCall.response :=
    fun i => by rw [hcalls]
  refine ⟨?_, ?_, ?_, ?_⟩
  · rw [hnotices]
    intro notice' hn
    rcases List.mem_append.mp hn with hold | hnew
    · exact own_of_response (h.own notice' hold) fun i _ => hresponse i
    · obtain rfl := List.mem_singleton.mp hnew
      exact own_of_response hown fun i _ => hresponse i
  · rw [hnotices, List.pairwise_append]
    refine ⟨h.before, List.pairwise_singleton _ _, fun earlier hearlier later hlater => ?_⟩
    obtain rfl := List.mem_singleton.mp hlater
    exact hbefore earlier hearlier
  · rw [hcalls]
    exact h.once
  · rw [hnotices, hcalls]
    intro notice' hn
    rcases List.mem_append.mp hn with hold | hnew
    · exact h.answered notice' hold
    · obtain rfl := List.mem_singleton.mp hnew
      exact hanswered

theorem Sound.callback (h : s.Sound) {event : CallEvent} (hc : s.calls[i]? = some c)
    (hcall : call ∈ callStep parses c.call event)
    (hkeeps : ChannelKeeps s (.callback i event)) : (s.callback parses i call event).Sound := by
  have hcalls := callback_calls hc hcall hkeeps
  have hmap := h.mapCall hc hcall
  cases event with
  | callMethod args => exact hmap
  | connectDone code info => exact hmap
  | written => exact hmap
  | reply rsp =>
      obtain ⟨-, heq⟩ := Option.mem_ite_none_right.mp hcall
      obtain rfl := Option.some.inj heq
      -- the reply is about its own call, and leaves it no timer
      refine hmap.append hcalls rfl ⟨hkeeps.1, ?_⟩ ?_ ?_
      · rw [mapCall_response]
        exact hkeeps.2
      · intro earlier _ j _
        nofun
      · intro j hj
        obtain rfl := Option.some.inj hj
        exact ⟨_, mapCall_self hc, replyDone_timer c.call rsp⟩
  | timeout =>
      obtain ⟨hpending, -⟩ := Option.mem_ite_none_right.mp hcall
      refine hmap.append rfl rfl trivial ?_ nofun
      intro earlier hearlier j hj htimeout
      obtain rfl : i = j := Notice.timeout.inj htimeout
      -- a call that has been replied to has no timer pending
      obtain ⟨c', hc', hnot⟩ := h.answered earlier hearlier i hj
      obtain rfl := Option.some.inj (hc.symm.trans hc')
      exact hnot hpending

/-- Every event that meets the condition keeps the calls apart. -/
theorem Sound.step (s : RpcChannel ρ) (event : ChannelEvent ρ) (s' : RpcChannel ρ)
    (h : s.Sound) (hkeeps : ChannelKeeps s event) (hs : s' ∈ channelStep parses s event) :
    s'.Sound := by
  cases event with
  | init response hasClosure =>
      obtain rfl := Option.some.inj hs
      exact h.init response hasClosure
  | callMethod controller response args =>
      obtain rfl := Option.some.inj hs
      exact h.callMethod controller response args
  | callback i event =>
      obtain ⟨c, hc, hmap⟩ := Option.bind_eq_some_iff.mp hs
      obtain ⟨call, hcall, rfl⟩ := Option.map_eq_some_iff.mp hmap
      exact h.callback hc hcall hkeeps

/-- A reply that has cancelled its own timer, and written its own response, has met the
condition. -/
theorem keeps_of_ownReplies (s : RpcChannel ρ) (event : ChannelEvent ρ) (s' : RpcChannel ρ)
    (_ : s.Sound) (hs : s' ∈ channelStep parses s event) (hown : OwnReplies s') :
    ChannelKeeps s event := by
  cases event with
  | init response hasClosure => trivial
  | callMethod controller response args => trivial
  | callback i event =>
      obtain ⟨c, hc, hmap⟩ := Option.bind_eq_some_iff.mp hs
      obtain ⟨call, hcall, rfl⟩ := Option.map_eq_some_iff.mp hmap
      cases event with
      | callMethod args => trivial
      | connectDone code info => trivial
      | written => trivial
      | reply rsp =>
          have hnotice : Notice.reply i s.timerEvent s.response
              ∈ (s.reply parses i rsp).notices :=
            List.mem_append_right _ (List.mem_singleton_self _)
          obtain ⟨htimer, hresponse⟩ := hown.1 _ hnotice
          exact ⟨htimer, hresponse.trans (reply_response rsp)⟩
      | timeout => trivial

end RpcChannel

/-- **Exactly when the calls of a channel are kept apart**: over any interleaving of
calls, every reply cancels the timer of its own call and is parsed into the response of
its own call, the closure runs at most once for each call, and no call times out after its
reply, if and only if every reply meets the condition. -/
theorem calls_own_replies_iff (parses : List UInt8 → Bool) (events : List (ChannelEvent ρ)) :
    Always (channelStep parses) OwnReplies (RpcChannel.start ρ) events ↔
      Meets (channelStep parses) ChannelKeeps (RpcChannel.start ρ) events :=
  always_iff_meets (fun _ h => h.ownReplies) RpcChannel.Sound.step
    RpcChannel.keeps_of_ownReplies RpcChannel.Sound.start

/-- A second call is started while the first waits for its reply. -/
def overlappingCalls : List (ChannelEvent Nat) :=
  [.init 0 true, .callMethod {} 0 goodArgs, .callback 0 (.connectDone 0 []),
    .callback 0 .written, .callMethod {} 1 goodArgs, .callback 0 (.reply shortRequest),
    .callback 0 .timeout]

/-- The reply to the first call cancels the timer of the second; then the first call times
out, and its closure runs again. -/
theorem overlapping_calls_mixed :
    ¬ Always (channelStep fun _ => true) OwnReplies (RpcChannel.start Nat) overlappingCalls ∧
    (after (channelStep fun _ => true) (RpcChannel.start Nat) overlappingCalls).map
        RpcChannel.notices = some [.reply 0 (some 1) (some 0), .timeout 0] ∧
    (after (channelStep fun _ => true) (RpcChannel.start Nat) overlappingCalls).map
        (fun s => s.calls.map fun c => c.call.closureRuns) = some [2, 0] := by
  decide +kernel

end TinyRpc
