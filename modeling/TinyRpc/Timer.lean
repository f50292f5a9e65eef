/-
TinyRpc/Timer.lean

The timer of an event loop: a multimap of pending events under their arrival
times, and a timerfd that is armed for the first of them.

`ι` is the type of the events, which several parties share by pointer; `events`
gives the fields each of them has at the moment.  The clock is read many times
over, so every function takes what its readings of `get_now_ms` gave.  Times are
integers: that a sum of an `int64_t` time and an interval overflows is left out.
-/
import Mathlib.Data.Int.Order.Basic
import TinyRpc.Base.Multimap
import Mathlib.Logic.Function.Basic

namespace TinyRpc

/-- `TimerEvent`.  Of the task only whether there is one is kept. -/
structure TimerEvent where
  arriveTime : Int
  interval : Int
  isRepeat : Bool := false
  isCancel : Bool := false
  hasTask : Bool := true
  deriving DecidableEq

namespace TimerEvent

/-- `TimerEvent(interval, repeat, task)`. -/
def create (interval : Int) (isRepeat hasTask : Bool) (now : Int) : TimerEvent where
  arriveTime := now + interval
  interval := interval
  isRepeat := isRepeat
  hasTask := hasTask

def setCancel (e : TimerEvent) (value : Bool) : TimerEvent := { e with isCancel := value }

def resetArriveTime (e : TimerEvent) (now : Int) : TimerEvent :=
  { e with arriveTime := now + e.interval }

end TimerEvent

/-- The events, by what points at them. -/
abbrev Events (ι : Type) := ι → TimerEvent

structure Timer (ι : Type) where
  /-- `m_pending_events` -/
  pending : Multimap Int ι
  /-- when the timerfd, as it was last set, expires -/
  armedFor : Option Int

/-- The `it_value` of an `itimerspec`. -/
structure Timespec where
  sec : Int
  nsec : Int
  deriving DecidableEq

/-- Milliseconds in seconds and nanoseconds. -/
def Timespec.ofMillis (interval : Int) : Timespec :=
  ⟨interval.tdiv 1000, interval.tmod 1000 * 1000000⟩

/-- `timerfd_settime` without a repetition: when, in milliseconds, the timerfd is going to
expire.  A zero disarms it. -/
def timerfdSettime (now : Int) (value : Timespec) : Option Int :=
  if value = ⟨0, 0⟩ then none else some (now + (value.sec * 1000 + value.nsec / 1000000))

/-- No positive interval is split into a zero. -/
theorem timerfdSettime_ofMillis {interval : Int} (h : 0 < interval) (now : Int) :
    timerfdSettime now (.ofMillis interval) = some (now + interval) := by
  have hsplit : interval.tdiv 1000 * 1000 + interval.tmod 1000 = interval :=
    Int.tdiv_mul_add_tmod interval 1000
  have hne : Timespec.ofMillis interval ≠ ⟨0, 0⟩ := by
    intro hzero
    simp only [Timespec.ofMillis, Timespec.mk.injEq] at hzero
    omega
  have hnsec : interval.tmod 1000 * 1000000 / 1000000 = interval.tmod 1000 :=
    Int.mul_ediv_cancel _ (by decide)
  rw [timerfdSettime, if_neg hne]
  show some (now + (interval.tdiv 1000 * 1000 + interval.tmod 1000 * 1000000 / 1000000)) = _
  rw [hnsec, hsplit]

/-- What `std::unique_lock` throws. -/
inductive LockError
  /-- `lock` on a lock that is already owned -/
  | resourceDeadlock
  deriving DecidableEq

variable {ι : Type} [DecidableEq ι]

namespace Timer

/-- `Timer()`. -/
def create : Timer ι := ⟨Multimap.empty, none⟩

/-- `inteval` of `reset_arrive_time`: up to the event, or 100 ms if it is due. -/
def interval (e : TimerEvent) (now : Int) : Int :=
  if now < e.arriveTime then e.arriveTime - now else 100

theorem interval_pos (e : TimerEvent) (now : Int) : 0 < interval e now := by
  unfold interval
  split
  · rename_i h
    exact Int.sub_pos_of_lt h
  · decide

/-- `reset_arrive_time`: arm the timerfd for the first event. -/
def resetArriveTime (events : Events ι) (t : Timer ι) (now : Int) : Timer ι :=
  match t.pending.entries with
  | [] => t
  | (_, first) :: _ =>
      { t with armedFor := timerfdSettime now (.ofMillis (interval (events first) now)) }

omit [DecidableEq ι] in
/-- When the timerfd expires then: `inteval` is positive, and so it is not disarmed. -/
theorem resetArriveTime_of_cons {events : Events ι} {t : Timer ι} {first : Int × ι}
    {rest : List (Int × ι)} (h : t.pending.entries = first :: rest) (now : Int) :
    t.resetArriveTime events now =
      { t with armedFor := some (now + interval (events first.2) now) } := by
  unfold resetArriveTime
  rw [h]
  dsimp only
  rw [timerfdSettime_ofMillis (interval_pos _ now)]

/-- Whether `add_time_event` arms the timerfd: there is no event yet, or the new one is
earlier than the first. -/
def isResetTimerfd (events : Events ι) (t : Timer ι) (event : ι) : Bool :=
  match t.pending.entries with
  | [] => true
  | (_, first) :: _ => (events event).arriveTime < (events first).arriveTime

omit [DecidableEq ι] in
theorem isResetTimerfd_eq_false {events : Events ι} {t : Timer ι} {event : ι}
    (h : t.isResetTimerfd events event = false) :
    ∃ first ∈ t.pending.entries, (events first.2).arriveTime ≤ (events event).arriveTime := by
  unfold isResetTimerfd at h
  split at h
  · cases h
  · rename_i key first rest hentries
    refine ⟨(key, first), ?_, not_lt.mp (of_decide_eq_false h)⟩
    rw [hentries]
    exact List.mem_cons_self

/-- The timer with the event put in, before the timerfd is armed. -/
def insert (events : Events ι) (t : Timer ι) (event : ι) : Timer ι :=
  { t with pending := t.pending.emplace (events event).arriveTime event }

/-- `add_time_event`. -/
def addTimeEvent (events : Events ι) (t : Timer ι) (event : ι) (now : Int) : Timer ι :=
  if t.isResetTimerfd events event then (t.insert events event).resetArriveTime events now
  else t.insert events event

/-- `delete_time_event`: the events and the timer after it, and what it ends with.  It
locks the lock that it already owns, and so never returns. -/
def deleteTimeEvent (events : Events ι) (t : Timer ι) (event : ι) :
    Events ι × Timer ι × Except LockError Unit :=
  (Function.update events event ((events event).setCancel true),
    { t with pending := t.pending.erase (events event).arriveTime event },
    .error .resourceDeadlock)

/-- The locked part of `on_timer`: the events that are due and not cancelled (`temp`),
their tasks with their arrival times (`tasks`), and the timer without what was due. -/
def collect (events : Events ι) (t : Timer ι) (now : Int) : List ι × List (Int × ι) × Timer ι :=
  let due := (t.pending.upTo now).filter fun entry => !(events entry.2).isCancel
  (due.map Prod.snd, due.map fun entry => ((events entry.2).arriveTime, entry.2),
    { t with pending := t.pending.after now })

/-- What `on_timer` does with an event of `temp`: a repeating one is added again. -/
def readd (events : Events ι) (t : Timer ι) (event : ι) (resetNow addNow : Int) :
    Events ι × Timer ι :=
  if (events event).isRepeat then
    let events := Function.update events event ((events event).resetArriveTime resetNow)
    (events, t.addTimeEvent events event addNow)
  else (events, t)

theorem readd_of_repeat {events : Events ι} {t : Timer ι} {event : ι}
    (h : (events event).isRepeat = true) (resetNow addNow : Int) :
    t.readd events event resetNow addNow =
      let events := Function.update events event ((events event).resetArriveTime resetNow)
      (events, t.addTimeEvent events event addNow) :=
  if_pos h

theorem readd_of_once {events : Events ι} {t : Timer ι} {event : ι}
    (h : (events event).isRepeat = false) (resetNow addNow : Int) :
    t.readd events event resetNow addNow = (events, t) :=
  if_neg (Bool.eq_false_iff.mp h)

end Timer

end TinyRpc
