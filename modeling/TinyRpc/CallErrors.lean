/-
TinyRpc/CallErrors.lean

What the caller sees of one call.

Three callbacks write the same controller: the one after the connect, the one of
the reply, and the timer's.  None of them looks whether another has recorded a
failure before, or whether the closure has run.  A trace keeps the failures in
the order in which they are recorded, and what the caller sees when the closure
runs.  `first_error_kept_iff` says which orders of the callbacks leave the caller
with the first failure, and with a report that does not change behind it.
-/
import TinyRpc.RpcChannel

namespace TinyRpc

open RpcController Runs

/-! ### The failures of a call -/

/-- An error code and its text. -/
abbrev Failure := Int32 × List UInt8

/-- The error that the controller holds. -/
def Call.failure (s : Call) : Failure := (s.controller.errorCode, s.controller.errorInfo)

/-- The failure that the timer records. -/
def timeoutFailure (s : Call) : Failure :=
  (errorRpcCallTimeout, text ("rpc call timeout" ++ toString s.controller.timeoutMs.toInt))

/-- The failure that the reply callback records. -/
def replyFailure (parses : List UInt8 → Bool) (rsp : ProtobufProtocol) : Option Failure :=
  if parses rsp.pbData = false then some (errorFailedSerialize, text "serizlize error")
  else if rsp.errCode ≠ 0 then some (rsp.errCode, rsp.errInfo)
  else none

/-- The failure that `CallMethod` itself records. -/
def callFailure (s : Call) (args : CallArgs) : Option Failure :=
  if args.isRpcController = false then none
  else if s.isInit = false then some (errorRpcChannelNotInit, text "RpcChannel not init")
  else if args.serialized = none then some (errorFailedSerialize, text "failed to serizlize")
  else none

/-- The failure that an event records, if it records one. -/
def recordedFailure (parses : List UInt8 → Bool) (s : Call) : CallEvent → Option Failure
  | .callMethod args => callFailure s args
  | .connectDone code info => if code ≠ 0 then some (code, info) else none
  | .written => none
  | .reply rsp => replyFailure parses rsp
  | .timeout => some (timeoutFailure s)

/-! ### What the caller sees -/

/-- The error fields of the controller and the response message. -/
structure Report where
  errorCode : Int32
  errorInfo : List UInt8
  isFailed : Bool
  response : Option (List UInt8)
  deriving DecidableEq

def Call.report (s : Call) : Report where
  errorCode := s.controller.errorCode
  errorInfo := s.controller.errorInfo
  isFailed := s.controller.isFailed
  response := s.response

structure CallTrace where
  call : Call
  /-- the failures recorded so far, in their order -/
  failures : List Failure
  /-- what the caller saw when the closure ran -/
  seen : Option Report

def CallTrace.start (isInit : Bool) (controller : RpcController) : CallTrace where
  call := Call.start isInit controller
  failures := []
  seen := none

/-- The trace after an event that has left the call as `call`. -/
def CallTrace.next (parses : List UInt8 → Bool) (t : CallTrace) (event : CallEvent)
    (call : Call) : CallTrace where
  call := call
  failures := t.failures ++ (recordedFailure parses t.call event).toList
  seen :=
    if t.call.closureRuns < call.closureRuns then t.seen <|> some call.report else t.seen

def traceStep (parses : List UInt8 → Bool) : Step CallTrace CallEvent := fun t event =>
  (callStep parses t.call event).map (t.next parses event)

/-- The caller has seen the first failure recorded, and nothing has changed since. -/
def ErrorKept (t : CallTrace) : Prop :=
  ∀ seen ∈ t.seen,
    (∀ failure ∈ t.failures.head?, (seen.errorCode, seen.errorInfo) = failure) ∧
      t.call.report = seen

instance : DecidablePred ErrorKept := fun _ => inferInstanceAs (Decidable (∀ _ ∈ _, _))

/-- A call that has failed already, or that has timed out, is left alone: the timer fires
on no earlier failure and a connect fails after no timeout, unless with the very same code
and text, and no reply comes after the timeout.  (A good reply may come after replies with
an error; then the last of them has the error of the first.) -/
def FirstErrorStands (parses : List UInt8 → Bool) (t : CallTrace) : CallEvent → Prop
  | .connectDone code info => t.call.timer = .fired → code ≠ 0 → (code, info) = t.call.failure
  | .reply rsp =>
      t.call.timer ≠ .fired ∧
        (replyFailure parses rsp = none → t.call.controller.isCanceled = false →
          t.failures.getLast? = t.failures.head?)
  | .timeout => ∀ failure ∈ t.failures.head?, failure = timeoutFailure t.call
  | _ => True

variable {parses : List UInt8 → Bool} {s s' : Call} {t t' : CallTrace}

/-! ### What an event records -/

/-- `CallMethod` returns with the failure that it records, or has recorded none and arms the
timer. -/
theorem callMethod_spec (s : Call) (args : CallArgs) :
    (callMethod s args).failure = (callFailure s args).getD s.failure ∧
      (callMethod s args).closureRuns = s.closureRuns ∧
      (callMethod s args).hasClosure = s.hasClosure ∧
      (callMethod s args).response = s.response ∧
      ((callMethod s args).stage = .returned ∧ (callMethod s args).timer = s.timer ∨
        (callMethod s args).stage = .connecting ∧ (callMethod s args).timer = .pending ∧
          callFailure s args = none) := by
  unfold callMethod callFailure
  split
  · exact ⟨rfl, rfl, rfl, rfl, .inl ⟨rfl, rfl⟩⟩
  · dsimp only
    split
    · rename_i hinit
      rw [if_pos (by exact hinit)]
      exact ⟨rfl, rfl, rfl, rfl, .inl ⟨rfl, rfl⟩⟩
    · rename_i hinit
      rw [if_neg (by exact hinit)]
      split
      · rename_i hpb
        rw [if_pos hpb]
        exact ⟨rfl, rfl, rfl, rfl, .inl ⟨rfl, rfl⟩⟩
      · rename_i pbData hpb
        rw [hpb, if_neg nofun]
        exact ⟨rfl, rfl, rfl, rfl, .inr ⟨rfl, rfl, rfl⟩⟩

theorem replyFailure_eq_none {rsp : ProtobufProtocol} :
    replyFailure parses rsp = none ↔ parses rsp.pbData = true ∧ rsp.errCode = 0 := by
  unfold replyFailure
  split
  · simp_all
  · split <;> simp_all

/-- A reply with a failure records it and returns. -/
theorem replyDone_of_failure {rsp : ProtobufProtocol} {failure : Failure}
    (h : replyFailure parses rsp = some failure) :
    replyDone parses s rsp
      = { s.cancelTimer with
          response := some rsp.pbData
          controller := s.controller.setError failure.1 failure.2 } := by
  unfold replyFailure at h
  unfold replyDone
  split at h
  · rename_i hparse
    obtain rfl := Option.some.inj h
    rw [if_pos hparse]
    rfl
  · rename_i hparse
    split at h
    · rename_i hcode
      obtain rfl := Option.some.inj h
      rw [if_neg hparse, if_pos hcode]
      rfl
    · exact absurd h nofun

/-- What an event records is what it leaves in the controller. -/
theorem callStep_failure {event : CallEvent} (hclosure : s.hasClosure = true)
    (hs : s' ∈ callStep parses s event) :
    s'.failure = (recordedFailure parses s event).getD s.failure := by
  rcases callStep_cases hs with ⟨args, rfl, -, rfl⟩ | ⟨code, info, rfl, -, rfl⟩ |
    ⟨rfl, -, rfl⟩ | ⟨rsp, rfl, -, -, rfl⟩ | ⟨rfl, -, rfl⟩
  · exact (callMethod_spec s args).1
  · by_cases hcode : code = 0
    · simp [recordedFailure, connectDone, hcode, Call.failure]
    · simp [recordedFailure, connectDone, hcode, Call.failure, Call.setError, setError]
  · rfl
  · cases hrec : replyFailure parses rsp with
    | some failure =>
        rw [replyDone_of_failure hrec]
        show failure = (replyFailure parses rsp).getD s.failure
        rw [hrec]
        rfl
    | none =>
        rw [replyDone_of_ok (replyFailure_eq_none.mp hrec) hclosure]
        show s.failure = (replyFailure parses rsp).getD s.failure
        rw [hrec]
        rfl
  · rfl

/-! ### How far a call has come -/

/-- The phases of a call whose events all meet the condition. -/
inductive CallTrace.Phase (t : CallTrace) : Prop
  | ready (stage : t.call.stage = .ready) (timer : t.call.timer = .notArmed)
      (failures : t.failures = []) (seen : t.seen = none) (response : t.call.response = none)
  /-- `CallMethod` has returned early -/
  | returned (stage : t.call.stage = .returned) (timer : t.call.timer = .notArmed)
      (seen : t.seen = none)
  /-- no callback has recorded a failure yet -/
  | waiting (stage : t.call.stage ≠ .ready) (timer : t.call.timer = .pending)
      (failures : t.failures = []) (seen : t.seen = none) (response : t.call.response = none)
  /-- the connect has failed, and the timer is still to fire -/
  | notConnected (stage : t.call.stage = .notConnected) (timer : t.call.timer = .pending)
      (failures : t.failures = [t.call.failure]) (seen : t.seen = none)
      (response : t.call.response = none)
  | timedOut (stage : t.call.stage ≠ .ready) (timer : t.call.timer = .fired)
      (failures : t.failures.head? = some t.call.failure) (seen : t.seen = some t.call.report)
      (failed : t.call.controller.isFailed = true) (response : t.call.response = none)
  /-- only replies with a failure have come -/
  | failing (stage : t.call.stage = .reading) (timer : t.call.timer = .cancelled)
      (failures : t.failures.getLast? = some t.call.failure) (seen : t.seen = none)
  /-- a good reply has come: no callback is left -/
  | replied (stage : t.call.stage = .reading) (timer : t.call.timer = .cancelled)
      (channel : t.call.hasChannel = false) (kept : ErrorKept t)

structure CallTrace.Sound (t : CallTrace) : Prop where
  closure : t.call.hasClosure = true
  phase : t.Phase

theorem CallTrace.Sound.start (isInit : Bool) (controller : RpcController) :
    (CallTrace.start isInit controller).Sound where
  closure := rfl
  phase := .ready rfl rfl rfl rfl rfl

theorem errorKept_of_none (h : t.seen = none) : ErrorKept t := by
  intro seen hseen
  rw [h] at hseen
  exact absurd hseen nofun

/-- What the caller is shown by a trace that has seen the present report. -/
theorem errorKept_of_report (h : t.seen = some t.call.report) :
    ErrorKept t ↔ ∀ failure ∈ t.failures.head?, t.call.failure = failure := by
  constructor
  · intro hkept
    exact (hkept _ h).1
  · intro hfirst seen hseen
    obtain rfl := Option.some.inj (h.symm.trans hseen)
    exact ⟨hfirst, rfl⟩

theorem CallTrace.Sound.errorKept (h : t.Sound) : ErrorKept t := by
  cases h.phase with
  | ready _ _ _ seen _ => exact errorKept_of_none seen
  | returned _ _ seen => exact errorKept_of_none seen
  | waiting _ _ _ seen _ => exact errorKept_of_none seen
  | notConnected _ _ _ seen _ => exact errorKept_of_none seen
  | timedOut _ _ failures seen _ _ =>
      refine (errorKept_of_report seen).mpr ?_
      intro failure hfailure
      exact Option.some.inj (failures.symm.trans hfailure)
  | failing _ _ _ seen => exact errorKept_of_none seen
  | replied _ _ _ kept => exact kept

/-! ### One event at a time -/

/-- An event that does not run the closure leaves what the caller has seen; -/
theorem next_of_quiet {event : CallEvent} {call : Call}
    (h : call.closureRuns = t.call.closureRuns) :
    t.next parses event call
      = ⟨call, t.failures ++ (recordedFailure parses t.call event).toList, t.seen⟩ := by
  simp [CallTrace.next, h]

/-- one that runs it for the first time shows the caller the report. -/
theorem next_of_run {event : CallEvent} {call : Call} (hseen : t.seen = none)
    (h : t.call.closureRuns < call.closureRuns) :
    t.next parses event call
      = ⟨call, t.failures ++ (recordedFailure parses t.call event).toList,
          some call.report⟩ := by
  simp [CallTrace.next, h, hseen]

theorem CallTrace.Phase.callMethod (h : t.Phase) (hstage : t.call.stage = .ready)
    (args : CallArgs) :
    (t.next parses (.callMethod args) (callMethod t.call args)).Phase := by
  obtain ⟨-, hruns, -, hresponse, hend⟩ := callMethod_spec t.call args
  rw [next_of_quiet hruns]
  cases h with
  | ready _ timer failures seen response =>
      rcases hend with ⟨hret, htimer⟩ | ⟨hconn, htimer, hnone⟩
      · exact .returned hret (htimer.trans timer) seen
      · refine .waiting ?_ htimer ?_ seen (hresponse.trans response)
        · show (TinyRpc.callMethod t.call args).stage ≠ .ready
          rw [hconn]
          nofun
        · simp [recordedFailure, hnone, failures]
  | returned stage _ _ => exact absurd (stage.symm.trans hstage) nofun
  | waiting stage _ _ _ _ => exact absurd hstage stage
  | notConnected stage _ _ _ _ => exact absurd (stage.symm.trans hstage) nofun
  | timedOut stage _ _ _ _ _ => exact absurd hstage stage
  | failing stage _ _ _ => exact absurd (stage.symm.trans hstage) nofun
  | replied stage _ _ _ => exact absurd (stage.symm.trans hstage) nofun

/-- While the connect or the write is under way, a call is waiting or has timed out. -/
theorem CallTrace.Phase.busy (h : t.Phase)
    (hstage : t.call.stage = .connecting ∨ t.call.stage = .writing) :
    t.call.timer = .pending ∧ t.failures = [] ∧ t.seen = none ∧ t.call.response = none ∨
      t.call.timer = .fired ∧ t.failures.head? = some t.call.failure ∧
        t.seen = some t.call.report ∧ t.call.controller.isFailed = true ∧
        t.call.response = none := by
  -- a phase that fixes another stage is not the present one
  have hnot : ∀ stage, t.call.stage = stage → stage = .connecting ∨ stage = .writing := by
    rintro stage rfl
    exact hstage
  cases h with
  | ready stage _ _ _ _ => exact absurd (hnot _ stage) (by decide)
  | returned stage _ _ => exact absurd (hnot _ stage) (by decide)
  | waiting _ timer failures seen response => exact .inl ⟨timer, failures, seen, response⟩
  | notConnected stage _ _ _ _ => exact absurd (hnot _ stage) (by decide)
  | timedOut _ timer failures seen failed response =>
      exact .inr ⟨timer, failures, seen, failed, response⟩
  | failing stage _ _ _ => exact absurd (hnot _ stage) (by decide)
  | replied stage _ _ _ => exact absurd (hnot _ stage) (by decide)

/-- A callback that records nothing and moves the call on keeps the phase. -/
theorem CallTrace.Phase.move (h : t.Phase) {event : CallEvent} {stage : CallStage}
    (hstage : t.call.stage = .connecting ∨ t.call.stage = .writing)
    (hne : stage ≠ .ready) (hnone : recordedFailure parses t.call event = none) :
    (t.next parses event { t.call with stage := stage }).Phase := by
  rw [next_of_quiet (by rfl), hnone]
  rcases h.busy hstage with ⟨timer, failures, seen, response⟩ |
    ⟨timer, failures, seen, failed, response⟩
  · refine .waiting hne timer ?_ seen response
    exact (List.append_nil _).trans failures
  · refine .timedOut hne timer ?_ seen failed response
    exact (congrArg List.head? (List.append_nil _)).trans failures

theorem CallTrace.Phase.connectDone (h : t.Phase) (hstage : t.call.stage = .connecting)
    {code : Int32} {info : List UInt8}
    (hstands : FirstErrorStands parses t (.connectDone code info)) :
    (t.next parses (.connectDone code info) (connectDone t.call code info)).Phase := by
  unfold TinyRpc.connectDone
  split
  · rename_i hcode
    have hrec : recordedFailure parses t.call (.connectDone code info) = some (code, info) :=
      if_pos hcode
    rw [next_of_quiet (by rfl), hrec]
    rcases h.busy (.inl hstage) with ⟨timer, failures, seen, response⟩ |
      ⟨timer, failures, seen, failed, response⟩
    · refine .notConnected rfl timer ?_ seen response
      rw [failures]
      rfl
    · -- the failure is the one that the caller has seen already
      obtain ⟨rfl, rfl⟩ := Prod.mk.inj (hstands timer hcode)
      refine .timedOut nofun timer ?_ ?_ rfl response
      · show (t.failures ++ _).head? = some t.call.failure
        rw [List.head?_append, failures]
        rfl
      · show t.seen = some ⟨_, _, true, _⟩
        rw [seen, Call.report, failed]
        rfl
  · rename_i hcode
    exact h.move (.inl hstage) nofun (if_neg hcode)

/-- While the timer is pending, the caller has seen nothing. -/
theorem CallTrace.Phase.pending (h : t.Phase) (htimer : t.call.timer = .pending) :
    t.call.stage ≠ .ready ∧ t.seen = none ∧ t.call.response = none := by
  cases h with
  | ready _ timer _ _ _ => exact absurd (timer.symm.trans htimer) nofun
  | returned _ timer _ => exact absurd (timer.symm.trans htimer) nofun
  | waiting stage _ _ seen response => exact ⟨stage, seen, response⟩
  | notConnected stage _ _ seen response =>
      refine ⟨?_, seen, response⟩
      rw [stage]
      nofun
  | timedOut _ timer _ _ _ _ => exact absurd (timer.symm.trans htimer) nofun
  | failing _ timer _ _ => exact absurd (timer.symm.trans htimer) nofun
  | replied _ timer _ _ => exact absurd (timer.symm.trans htimer) nofun

/-- The timer shows the caller its own failure. -/
theorem next_timeout (hclosure : t.call.hasClosure = true) (hseen : t.seen = none) :
    t.next parses .timeout (timeoutDone t.call)
      = ⟨timeoutDone t.call, t.failures ++ [timeoutFailure t.call],
          some (timeoutDone t.call).report⟩ := by
  refine next_of_run hseen ?_
  obtain ⟨info, heq⟩ := timeoutDone_eq hclosure
  rw [heq]
  exact Nat.lt_succ_self _

theorem CallTrace.Phase.timeout (h : t.Phase) (hclosure : t.call.hasClosure = true)
    (htimer : t.call.timer = .pending) (hstands : FirstErrorStands parses t .timeout) :
    (t.next parses .timeout (timeoutDone t.call)).Phase := by
  obtain ⟨hstage, hseen, hresponse⟩ := h.pending htimer
  rw [next_timeout hclosure hseen]
  refine .timedOut hstage rfl ?_ rfl rfl hresponse
  show (t.failures ++ [timeoutFailure t.call]).head? = some (timeoutFailure t.call)
  rw [List.head?_append]
  -- a failure recorded earlier is the timer's, by the condition
  cases hhead : t.failures.head? with
  | none => rfl
  | some failure => exact congrArg some (hstands failure hhead)

/-- While the reply callback has its channel and the timer has not fired, the caller has
seen nothing, and the controller holds the last failure. -/
theorem CallTrace.Phase.unanswered (h : t.Phase) (hstage : t.call.stage = .reading)
    (hchannel : t.call.hasChannel = true) (hfired : t.call.timer ≠ .fired) :
    t.seen = none ∧ t.call.cancelTimer.timer = .cancelled ∧
      ∀ failure ∈ t.failures.getLast?, t.call.failure = failure := by
  cases h with
  | ready stage _ _ _ _ => exact absurd (stage.symm.trans hstage) (by decide)
  | returned stage _ _ => exact absurd (stage.symm.trans hstage) (by decide)
  | waiting _ timer failures seen _ =>
      refine ⟨seen, cancelTimer_of_pending timer, ?_⟩
      intro failure hfailure
      rw [failures] at hfailure
      exact absurd hfailure (by simp)
  | notConnected stage _ _ _ _ => exact absurd (stage.symm.trans hstage) (by decide)
  | timedOut _ timer _ _ _ _ => exact absurd timer hfired
  | failing _ timer failures seen =>
      refine ⟨seen, ?_, ?_⟩
      · rw [cancelTimer_of_not_pending (by rw [timer]; decide)]
        exact timer
      · intro failure hfailure
        exact Option.some.inj (failures.symm.trans hfailure)
  | replied _ _ channel _ => exact absurd (channel.symm.trans hchannel) (by decide)

theorem CallTrace.Phase.reply (h : t.Phase) (hclosure : t.call.hasClosure = true)
    (hstage : t.call.stage = .reading) (hchannel : t.call.hasChannel = true)
    {rsp : ProtobufProtocol} (hstands : FirstErrorStands parses t (.reply rsp)) :
    (t.next parses (.reply rsp) (replyDone parses t.call rsp)).Phase := by
  obtain ⟨hfired, hlast⟩ := hstands
  obtain ⟨hseen, htimer, hheld⟩ := h.unanswered hstage hchannel hfired
  cases hrec : replyFailure parses rsp with
  | some failure =>
      rw [replyDone_of_failure hrec, next_of_quiet (by rfl)]
      refine .failing hstage htimer ?_ hseen
      show (t.failures ++ (replyFailure parses rsp).toList).getLast? = some failure
      rw [hrec]
      exact List.getLast?_concat
  | none =>
      rw [replyDone_of_ok (replyFailure_eq_none.mp hrec) hclosure]
      -- the closure runs, unless the caller has cancelled the call from the start
      by_cases hcanceled : t.call.controller.isCanceled = true
      · rw [if_pos hcanceled, next_of_quiet (by rfl)]
        exact .replied hstage htimer rfl (errorKept_of_none hseen)
      · rw [if_neg hcanceled, next_of_run hseen (Nat.lt_succ_self _)]
        refine .replied hstage htimer rfl ((errorKept_of_report rfl).mpr ?_)
        show ∀ failure ∈ (t.failures ++ (replyFailure parses rsp).toList).head?,
          t.call.failure = failure
        rw [hrec]
        show ∀ failure ∈ (t.failures ++ []).head?, t.call.failure = failure
        rw [List.append_nil, ← hlast hrec (Bool.of_not_eq_true hcanceled)]
        exact hheld

/-! ### Runs -/

theorem callStep_hasClosure {event : CallEvent} (hclosure : s.hasClosure = true)
    (hs : s' ∈ callStep parses s event) : s'.hasClosure = true := by
  rcases callStep_cases hs with ⟨args, rfl, -, rfl⟩ | ⟨code, info, rfl, -, rfl⟩ |
    ⟨rfl, -, rfl⟩ | ⟨rsp, rfl, -, -, rfl⟩ | ⟨rfl, -, rfl⟩
  · rw [(callMethod_spec s args).2.2.1, hclosure]
  · unfold connectDone
    split
    · exact hclosure
    · exact hclosure
  · exact hclosure
  · cases hrec : replyFailure parses rsp with
    | some failure =>
        rw [replyDone_of_failure hrec]
        exact hclosure
    | none =>
        rw [replyDone_of_ok (replyFailure_eq_none.mp hrec) hclosure]
        exact hclosure
  · obtain ⟨info, heq⟩ := timeoutDone_eq hclosure
    rw [heq]
    exact hclosure

/-- Every event that meets the condition leads to the next phase. -/
theorem CallTrace.Sound.step (t : CallTrace) (event : CallEvent) (t' : CallTrace)
    (h : t.Sound) (hstands : FirstErrorStands parses t event)
    (ht : t' ∈ traceStep parses t event) : t'.Sound := by
  obtain ⟨s', hs, rfl⟩ := Option.map_eq_some_iff.mp ht
  refine ⟨callStep_hasClosure h.closure hs, ?_⟩
  rcases callStep_cases hs with ⟨args, rfl, hstage, rfl⟩ | ⟨code, info, rfl, hstage, rfl⟩ |
    ⟨rfl, hstage, rfl⟩ | ⟨rsp, rfl, hstage, hchannel, rfl⟩ | ⟨rfl, htimer, rfl⟩
  · exact h.phase.callMethod hstage args
  · exact h.phase.connectDone hstage hstands
  · exact h.phase.move (.inr hstage) nofun rfl
  · exact h.phase.reply h.closure hstage hchannel hstands
  · exact h.phase.timeout h.closure htimer hstands

theorem replyDone_response (rsp : ProtobufProtocol) (hclosure : s.hasClosure = true) :
    (replyDone parses s rsp).response = some rsp.pbData := by
  cases hrec : replyFailure parses rsp with
  | some failure => rw [replyDone_of_failure hrec]
  | none => rw [replyDone_of_ok (replyFailure_eq_none.mp hrec) hclosure]

/-- What the caller has seen stays what it was. -/
theorem next_seen {event : CallEvent} {call : Call} {seen : Report} (h : t.seen = some seen) :
    (t.next parses event call).seen = some seen := by
  show (if _ then t.seen <|> some call.report else t.seen) = some seen
  rw [h]
  exact ite_self _

/-- What the caller has seen is the report, as long as it is kept. -/
theorem report_of_kept {event : CallEvent} {call : Call} (hseen : t.seen = some t.call.report)
    (hkept : ErrorKept (t.next parses event call)) : call.report = t.call.report :=
  (hkept _ (next_seen hseen)).2

/-- After the timeout the caller has seen the report, and there was no response. -/
theorem CallTrace.Phase.fired (h : t.Phase) (hfired : t.call.timer = .fired) :
    t.seen = some t.call.report ∧ t.call.response = none := by
  cases h with
  | ready _ timer _ _ _ => exact absurd (timer.symm.trans hfired) nofun
  | returned _ timer _ => exact absurd (timer.symm.trans hfired) nofun
  | waiting _ timer _ _ _ => exact absurd (timer.symm.trans hfired) nofun
  | notConnected _ timer _ _ _ => exact absurd (timer.symm.trans hfired) nofun
  | timedOut _ _ _ seen _ response => exact ⟨seen, response⟩
  | failing _ timer _ _ => exact absurd (timer.symm.trans hfired) nofun
  | replied _ timer _ _ => exact absurd (timer.symm.trans hfired) nofun

/-- A reply after the timeout writes the response behind the caller's back. -/
theorem CallTrace.Phase.not_fired (h : t.Phase) (hclosure : t.call.hasClosure = true)
    {rsp : ProtobufProtocol}
    (hkept : ErrorKept (t.next parses (.reply rsp) (replyDone parses t.call rsp))) :
    t.call.timer ≠ .fired := by
  intro hfired
  obtain ⟨hseen, hnone⟩ := h.fired hfired
  have hresponse : (replyDone parses t.call rsp).response = t.call.response :=
    congrArg Report.response (report_of_kept hseen hkept)
  rw [replyDone_response rsp hclosure, hnone] at hresponse
  exact absurd hresponse nofun

/-- A list whose first and last element are one value, if it has any. -/
theorem getLast?_eq_head? {α : Type} {l : List α} {a : α} (hhead : ∀ b ∈ l.head?, a = b)
    (hlast : ∀ b ∈ l.getLast?, a = b) : l.getLast? = l.head? := by
  cases hh : l.head? with
  | none =>
      rw [List.head?_eq_none_iff.mp hh]
      rfl
  | some b =>
      obtain ⟨c, hc⟩ : ∃ c, l.getLast? = some c := by
        cases l with
        | nil => exact absurd hh nofun
        | cons x l => exact ⟨_, List.getLast?_cons⟩
      rw [hc, ← hlast c hc, hhead b hh]

/-- An event that leaves the caller with the first failure has met the condition. -/
theorem firstErrorStands_of_kept (t : CallTrace) (event : CallEvent) (t' : CallTrace)
    (h : t.Sound) (ht : t' ∈ traceStep parses t event) (hkept : ErrorKept t') :
    FirstErrorStands parses t event := by
  obtain ⟨s', hs, rfl⟩ := Option.map_eq_some_iff.mp ht
  rcases callStep_cases hs with ⟨args, rfl, -, -⟩ | ⟨code, info, rfl, -, rfl⟩ |
    ⟨rfl, -, -⟩ | ⟨rsp, rfl, hstage, hchannel, rfl⟩ | ⟨rfl, htimer, rfl⟩
  · trivial
  · -- the caller has seen the timeout, so the failure must be the same
    intro hfired hcode
    have hreport := report_of_kept (h.phase.fired hfired).1 hkept
    rw [connectDone, if_pos hcode] at hreport
    exact Prod.ext (congrArg Report.errorCode hreport) (congrArg Report.errorInfo hreport)
  · trivial
  · have hfired := h.phase.not_fired h.closure hkept
    refine ⟨hfired, ?_⟩
    intro hrec hcanceled
    obtain ⟨hseen, -, hheld⟩ := h.phase.unanswered hstage hchannel hfired
    rw [replyDone_of_ok (replyFailure_eq_none.mp hrec) h.closure, hcanceled,
      next_of_run hseen (Nat.lt_succ_self _)] at hkept
    have hfirst := (errorKept_of_report rfl).mp hkept
    rw [show recordedFailure parses t.call (.reply rsp) = none from hrec] at hfirst
    refine getLast?_eq_head? (a := t.call.failure) ?_ hheld
    intro failure hfailure
    exact hfirst failure (by simpa using hfailure)
  · obtain ⟨-, hseen, -⟩ := h.phase.pending htimer
    rw [next_timeout h.closure hseen] at hkept
    have hfirst := (errorKept_of_report rfl).mp hkept
    intro failure hfailure
    refine (hfirst failure ?_).symm
    rw [List.head?_append, hfailure]
    rfl

/-- **Exactly when the caller keeps the first failure**: over any run of one call, what
the caller sees when the closure runs holds the first failure recorded, and nothing of it
changes afterwards, if and only if every event of the run meets the condition. -/
theorem first_error_kept_iff (parses : List UInt8 → Bool) (isInit : Bool)
    (controller : RpcController) (events : List CallEvent) :
    Always (traceStep parses) ErrorKept (CallTrace.start isInit controller) events ↔
      Meets (traceStep parses) (FirstErrorStands parses) (CallTrace.start isInit controller)
        events :=
  always_iff_meets (fun _ h => h.errorKept) CallTrace.Sound.step firstErrorStands_of_kept
    (CallTrace.Sound.start isInit controller)

/-- A timeout after a refused connect; a connect that is refused after the timeout; a reply
after the timeout; a good reply after two replies with different errors. -/
theorem first_error_lost :
    ¬ Always (traceStep fun _ => true) ErrorKept (CallTrace.start true {})
      [.callMethod goodArgs, .connectDone errorPeerClosed [], .timeout] ∧
    ¬ Always (traceStep fun _ => true) ErrorKept (CallTrace.start true {})
      [.callMethod goodArgs, .timeout, .connectDone errorPeerClosed []] ∧
    ¬ Always (traceStep fun _ => true) ErrorKept (CallTrace.start true {})
      [.callMethod goodArgs, .connectDone 0 [], .written, .timeout, .reply shortRequest] ∧
    ¬ Always (traceStep fun _ => true) ErrorKept (CallTrace.start true {})
      [.callMethod goodArgs, .connectDone 0 [], .written,
        .reply { shortRequest with errCode := errorServiceNotFound },
        .reply { shortRequest with errCode := errorMethodNotFound }, .reply shortRequest] := by
  decide +kernel

end TinyRpc
