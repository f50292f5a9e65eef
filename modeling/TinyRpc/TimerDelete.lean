/-
TinyRpc/TimerDelete.lean

A whole call of `delete_time_event`, with its `std::unique_lock`.

The scan finds the entry of the event among those under its arrival time, and takes out
that one alone (`deleteCall_eq`).  But then the lock, which owns the mutex, is locked once
more where it should be unlocked; it throws, and although the unwinding releases the
mutex, the call never returns: `deletes_never`.
-/
import TinyRpc.TimerKeys

namespace TinyRpc

/-- A `std::unique_lock`, and whether its mutex is locked. -/
structure UniqueLock where
  owns : Bool
  mutexLocked : Bool

namespace UniqueLock

/-- The constructor waits until the mutex is free, and locks it. -/
def construct : UniqueLock := ⟨true, true⟩

/-- `lock()`. -/
def lock (l : UniqueLock) : Except LockError UniqueLock :=
  if l.owns then .error .resourceDeadlock else .ok ⟨true, true⟩

/-- The destructor, after which the mutex is locked or free. -/
def destroy (l : UniqueLock) : Bool := if l.owns then false else l.mutexLocked

end UniqueLock

variable {ι : Type} [DecidableEq ι]

/-- What a call of `delete_time_event` leaves. -/
structure DeleteCall (ι : Type) where
  events : Events ι
  timer : Timer ι
  mutexLocked : Bool
  /-- how the call ends -/
  result : Except LockError Unit

/-- `delete_time_event`, with its scan and its lock. -/
def deleteCall (events : Events ι) (t : Timer ι) (event : ι) : DeleteCall ι :=
  let events := Function.update events event ((events event).setCancel true)
  let uniqueLock := UniqueLock.construct
  let first := t.pending.lowerBound (events event).arriveTime
  let last := t.pending.upperBound (events event).arriveTime
  let it := t.pending.findFrom event first last
  let pending := if it ≠ last then t.pending.eraseAt it else t.pending
  let timer := { t with pending := pending }
  match uniqueLock.lock with
  -- the lock is destroyed on the way out
  | .error e => ⟨events, timer, uniqueLock.destroy, .error e⟩
  | .ok uniqueLock => ⟨events, timer, uniqueLock.destroy, .ok ()⟩

/-- The call returns, with the mutex released; the event is cancelled; its entry, if there is one,
is taken out, and all other entries stay. -/
structure Deletes (events : Events ι) (t : Timer ι) (event : ι) : Prop where
  returns : (deleteCall events t event).result = .ok ()
  released : (deleteCall events t event).mutexLocked = false
  cancelled : ((deleteCall events t event).events event).isCancel = true
  removed : (deleteCall events t event).timer.pending.entries =
    t.pending.entries.erase ((events event).arriveTime, event)

variable {events : Events ι} {t : Timer ι} {event : ι}

/-- **All but the end is right**: the event is cancelled, its entry, and no other, is taken out,
and the mutex is released; and then the call throws. -/
theorem deleteCall_eq :
    deleteCall events t event =
      { events := (t.deleteTimeEvent events event).1
        timer := (t.deleteTimeEvent events event).2.1
        mutexLocked := false
        result := (t.deleteTimeEvent events event).2.2 } := by
  have htime : (Function.update events event ((events event).setCancel true) event).arriveTime =
      (events event).arriveTime := arriveTime_setCancel events event event true
  unfold deleteCall Timer.deleteTimeEvent
  dsimp only
  rw [htime, Multimap.eraseAt_findFrom]
  rfl

/-- **`delete_time_event` never returns**, whatever is pending. -/
theorem deletes_never (events : Events ι) (t : Timer ι) (event : ι) : ¬ Deletes events t event := by
  intro h
  have hthrows : (deleteCall events t event).result = .error .resourceDeadlock := rfl
  exact absurd (hthrows.symm.trans h.returns) nofun

/-- A timer with one event. -/
def oneEvent : Timer Unit := Timer.create.addTimeEvent everyTen () 0

theorem oneEvent_not_deleted : Timer.Keyed everyTen oneEvent ∧ ¬ Deletes everyTen oneEvent () := by
  refine ⟨fun entry hentry => ?_, fun h => ?_⟩
  · rcases Timer.mem_addTimeEvent.mp hentry with rfl | hnone
    · rfl
    · exact absurd hnone List.not_mem_nil
  · have hthrows : (deleteCall everyTen oneEvent ()).result = .error .resourceDeadlock := rfl
    exact absurd (hthrows.symm.trans h.returns) nofun

end TinyRpc
