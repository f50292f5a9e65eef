/-
TinyRpc/TimerCancel.lean

Runs of a timer, and what cancelling an event does.

`on_timer` works in stages: under the lock it collects what is due and not
cancelled; then it adds the repeating events again, one by one; then it arms the
timerfd; then it runs the collected tasks, one by one.  Between any two of these
steps other threads, and after the first task the tasks themselves, may cancel
events, take a cancellation back, and add and delete events.

The flag of an event is read in the first stage only, and a collected task is a
copy of the function.  So a cancellation counts if it comes before an event is
collected, and is too late after that: `cancelled_not_started`.
-/
import TinyRpc.Timer
import TinyRpc.Base.Runs

namespace TinyRpc

open Runs

/-- Where a run of `on_timer` stands. -/
inductive TimerPhase (ι : Type)
  /-- `on_timer` is not running -/
  | idle
  /-- what is left of `temp`, and the tasks collected -/
  | readding (temp : List ι) (tasks : List (Int × ι))
  /-- the tasks that are left -/
  | running (tasks : List (Int × ι))
  deriving DecidableEq

/-- The events, the timer, the stage of `on_timer`, and the callbacks started so far,
each with the flag its event had at that moment. -/
structure TimerRun (ι : Type) where
  events : Events ι
  timer : Timer ι
  phase : TimerPhase ι
  started : List (ι × Bool)

inductive TimerStep (ι : Type)
  | addTimeEvent (event : ι) (now : Int)
  | setCancel (event : ι) (value : Bool)
  | deleteTimeEvent (event : ι)
  /-- `on_timer` up to the end of its locked part -/
  | collect (now : Int)
  /-- the next event of `temp` -/
  | readd (resetNow addNow : Int)
  /-- `reset_arrive_time` at the end of `temp` -/
  | rearm (now : Int)
  /-- the next task starts, or `on_timer` returns -/
  | nextTask

variable {ι : Type} [DecidableEq ι]

def timerStep : Step (TimerRun ι) (TimerStep ι)
  | s, .addTimeEvent event now =>
      some { s with timer := s.timer.addTimeEvent s.events event now }
  | s, .setCancel event value =>
      some { s with events := Function.update s.events event ((s.events event).setCancel value) }
  | s, .deleteTimeEvent event =>
      -- whoever has called it has to deal with what it throws
      let (events, timer, _) := s.timer.deleteTimeEvent s.events event
      some { s with events := events, timer := timer }
  | s, .collect now =>
      match s.phase with
      | .idle =>
          let (temp, tasks, timer) := s.timer.collect s.events now
          some { s with timer := timer, phase := .readding temp tasks }
      | _ => none
  | s, .readd resetNow addNow =>
      match s.phase with
      | .readding (event :: temp) tasks =>
          let (events, timer) := s.timer.readd s.events event resetNow addNow
          some { s with events := events, timer := timer, phase := .readding temp tasks }
      | _ => none
  | s, .rearm now =>
      match s.phase with
      | .readding [] tasks =>
          some { s with timer := s.timer.resetArriveTime s.events now, phase := .running tasks }
      | _ => none
  | s, .nextTask =>
      match s.phase with
      | .running [] => some { s with phase := .idle }
      | .running ((_, event) :: tasks) =>
          let e := s.events event
          let started := if e.hasTask then [(event, e.isCancel)] else []
          some { s with phase := .running tasks, started := s.started ++ started }
      | _ => none

/-! ### The stages of `on_timer` -/

section Stages

variable {s s' : TimerRun ι} {now resetNow addNow : Int}

theorem timerStep_collect (hs : s' ∈ timerStep s (.collect now)) :
    s.phase = .idle ∧
      s' = { s with
        timer := (s.timer.collect s.events now).2.2
        phase := .readding (s.timer.collect s.events now).1
          (s.timer.collect s.events now).2.1 } := by
  rw [timerStep] at hs
  split at hs
  · rename_i hphase
    exact ⟨hphase, (Option.some.inj hs).symm⟩
  · cases hs

theorem timerStep_readd (hs : s' ∈ timerStep s (.readd resetNow addNow)) :
    ∃ event temp tasks, s.phase = .readding (event :: temp) tasks ∧
      s' = { s with
        events := (s.timer.readd s.events event resetNow addNow).1
        timer := (s.timer.readd s.events event resetNow addNow).2
        phase := .readding temp tasks } := by
  rw [timerStep] at hs
  split at hs
  · rename_i event temp tasks hphase
    exact ⟨event, temp, tasks, hphase, (Option.some.inj hs).symm⟩
  · cases hs

theorem timerStep_rearm (hs : s' ∈ timerStep s (.rearm now)) :
    ∃ tasks, s.phase = .readding [] tasks ∧
      s' = { s with
        timer := s.timer.resetArriveTime s.events now
        phase := .running tasks } := by
  rw [timerStep] at hs
  split at hs
  · rename_i tasks hphase
    exact ⟨tasks, hphase, (Option.some.inj hs).symm⟩
  · cases hs

/-- Starting a task leaves the events and the timer alone. -/
theorem timerStep_nextTask (hs : s' ∈ timerStep s .nextTask) :
    s'.events = s.events ∧ s'.timer = s.timer ∧ (∃ tasks, s.phase = .running tasks) ∧
      (s'.phase = .idle ∨ ∃ tasks, s'.phase = .running tasks) := by
  rw [timerStep] at hs
  split at hs
  · rename_i hphase
    obtain rfl := Option.some.inj hs
    exact ⟨rfl, rfl, ⟨_, hphase⟩, Or.inl rfl⟩
  · rename_i time event tasks hphase
    obtain rfl := Option.some.inj hs
    exact ⟨rfl, rfl, ⟨_, hphase⟩, Or.inr ⟨tasks, rfl⟩⟩
  · cases hs

end Stages

/-- The events of the tasks that have been collected and not started. -/
def TimerRun.collected (s : TimerRun ι) : List ι :=
  match s.phase with
  | .idle => []
  | .readding _ tasks => tasks.map Prod.snd
  | .running tasks => tasks.map Prod.snd

/-- A timer before its first event. -/
def TimerRun.start (events : Events ι) : TimerRun ι := ⟨events, Timer.create, .idle, []⟩

/-- No callback has been started whose event was cancelled at that moment. -/
def NoneStartedCancelled (s : TimerRun ι) : Prop := ∀ started ∈ s.started, started.2 = false

instance : DecidablePred (@NoneStartedCancelled ι) := fun s =>
  inferInstanceAs (Decidable (∀ started ∈ s.started, started.2 = false))

/-- A task of the event has been collected, and is still to be started. -/
def TimerRun.Awaits (s : TimerRun ι) (event : ι) : Prop :=
  event ∈ s.collected ∧ (s.events event).hasTask = true

instance (s : TimerRun ι) (event : ι) : Decidable (s.Awaits event) :=
  inferInstanceAs (Decidable (_ ∧ _))

/-- An event is cancelled only while no task of it has been collected and not started. -/
def CancelsInTime (s : TimerRun ι) : TimerStep ι → Prop
  | .setCancel event value => value = true → ¬ s.Awaits event
  | .deleteTimeEvent event => ¬ s.Awaits event
  | _ => True

instance decidableCancelsInTime :
    ∀ (s : TimerRun ι) (step : TimerStep ι), Decidable (CancelsInTime s step)
  | _, .setCancel _ _ => inferInstanceAs (Decidable (_ = _ → _))
  | s, .deleteTimeEvent event => inferInstanceAs (Decidable (¬ s.Awaits event))
  | _, .addTimeEvent _ _ => inferInstanceAs (Decidable True)
  | _, .collect _ => inferInstanceAs (Decidable True)
  | _, .readd _ _ => inferInstanceAs (Decidable True)
  | _, .rearm _ => inferInstanceAs (Decidable True)
  | _, .nextTask => inferInstanceAs (Decidable True)

/-! ### What cancelling in time keeps -/

/-- What has been collected is not cancelled. -/
structure CollectedLive (s : TimerRun ι) : Prop where
  live : ∀ event, s.Awaits event → (s.events event).isCancel = false
  started : NoneStartedCancelled s

omit [DecidableEq ι] in
theorem Timer.collect_live {events : Events ι} {t : Timer ι} {now : Int} {event : ι}
    (h : event ∈ (t.collect events now).2.1.map Prod.snd) : (events event).isCancel = false := by
  simp only [Timer.collect, List.map_map, List.mem_map, List.mem_filter, Function.comp] at h
  obtain ⟨entry, ⟨-, hlive⟩, rfl⟩ := h
  simpa using hlive

/-- Adding an event again changes its arrival time only. -/
theorem Timer.readd_flags {events : Events ι} {t : Timer ι} {event e : ι}
    {resetNow addNow : Int} :
    ((t.readd events event resetNow addNow).1 e).isCancel = (events e).isCancel ∧
      ((t.readd events event resetNow addNow).1 e).hasTask = (events e).hasTask := by
  unfold Timer.readd
  split
  · dsimp only
    by_cases he : e = event
    · subst he
      rw [Function.update_self]
      exact ⟨rfl, rfl⟩
    · rw [Function.update_of_ne he]
      exact ⟨rfl, rfl⟩
  · exact ⟨rfl, rfl⟩

/-- Setting the flag of an event that no task waits for leaves the others alone. -/
theorem CollectedLive.update {s : TimerRun ι} (h : CollectedLive s) {event : ι} {value : Bool}
    (hev : value = true → ¬ s.Awaits event) (timer : Timer ι) :
    CollectedLive
      { s with
        events := Function.update s.events event ((s.events event).setCancel value)
        timer := timer } := by
  refine ⟨fun other hother => ?_, h.started⟩
  obtain ⟨hmem, htask⟩ := hother
  simp only at htask ⊢
  by_cases heq : other = event
  · subst heq
    rw [Function.update_self] at htask ⊢
    exact Bool.eq_false_iff.mpr fun hcancel => hev hcancel ⟨hmem, htask⟩
  · rw [Function.update_of_ne heq] at htask ⊢
    exact h.live other ⟨hmem, htask⟩

omit [DecidableEq ι] in
/-- The next task to start is one of those collected. -/
theorem CollectedLive.nextTask {s : TimerRun ι} (h : CollectedLive s) {time : Int} {event : ι}
    {tasks : List (Int × ι)} (hphase : s.phase = .running ((time, event) :: tasks)) :
    CollectedLive
      { s with
        phase := .running tasks
        started := s.started ++
          if (s.events event).hasTask then [(event, (s.events event).isCancel)] else [] } := by
  have hcollected : s.collected = event :: tasks.map Prod.snd := by
    simp [TimerRun.collected, hphase]
  refine ⟨fun e he => h.live e ⟨?_, he.2⟩, fun p hp => ?_⟩
  · rw [hcollected]
    exact List.mem_cons_of_mem event he.1
  · rcases List.mem_append.mp hp with hold | hnew
    · exact h.started p hold
    · split at hnew
      · rename_i htask
        rw [List.mem_singleton.mp hnew]
        have hmem : event ∈ s.collected := by
          rw [hcollected]
          exact List.mem_cons_self
        exact h.live event ⟨hmem, htask⟩
      · exact absurd hnew List.not_mem_nil

theorem CollectedLive.step (s : TimerRun ι) (step : TimerStep ι) (s' : TimerRun ι)
    (h : CollectedLive s) (hc : CancelsInTime s step) (hs : s' ∈ timerStep s step) :
    CollectedLive s' := by
  cases step with
  | addTimeEvent event now =>
      obtain rfl := Option.some.inj hs
      exact ⟨h.live, h.started⟩
  | setCancel event value =>
      obtain rfl := Option.some.inj hs
      exact h.update hc s.timer
  | deleteTimeEvent event =>
      obtain rfl := Option.some.inj hs
      exact h.update (fun _ => hc) _
  | collect now =>
      obtain ⟨-, rfl⟩ := timerStep_collect hs
      exact ⟨fun event hevent => Timer.collect_live hevent.1, h.started⟩
  | readd resetNow addNow =>
      obtain ⟨event, temp, tasks, hphase, rfl⟩ := timerStep_readd hs
      refine ⟨fun e he => ?_, h.started⟩
      obtain ⟨hcancel, htask⟩ :=
        @Timer.readd_flags ι _ s.events s.timer event e resetNow addNow
      have hawaits : s.Awaits e := by
        refine ⟨?_, htask.symm.trans he.2⟩
        rw [TimerRun.collected, hphase]
        exact he.1
      exact hcancel.trans (h.live e hawaits)
  | rearm now =>
      obtain ⟨tasks, hphase, rfl⟩ := timerStep_rearm hs
      refine ⟨fun e he => h.live e ⟨?_, he.2⟩, h.started⟩
      rw [TimerRun.collected, hphase]
      exact he.1
  | nextTask =>
      rw [timerStep] at hs
      split at hs
      · obtain rfl := Option.some.inj hs
        exact ⟨fun e he => absurd he.1 List.not_mem_nil, h.started⟩
      · rename_i time event tasks hphase
        obtain rfl := Option.some.inj hs
        exact h.nextTask hphase
      · cases hs

omit [DecidableEq ι] in
theorem CollectedLive.start (events : Events ι) : CollectedLive (TimerRun.start events) where
  live := fun _ he => absurd he.1 List.not_mem_nil
  started := fun _ hp => absurd hp List.not_mem_nil

/-- **A cancelled event is not started**, in every run in which events are cancelled only
while none of their tasks has been collected and not started. -/
theorem cancelled_not_started (events : Events ι) (steps : List (TimerStep ι))
    (h : Meets timerStep CancelsInTime (TimerRun.start events) steps) :
    Always timerStep NoneStartedCancelled (TimerRun.start events) steps :=
  always_of_meets (fun _ h => h.started) CollectedLive.step (CollectedLive.start events) h

/-! ### Too late -/

/-- Two events that fall due together. -/
def dueTogether : Events Bool := fun _ => TimerEvent.create 10 false true 0

/-- The callback of the first event cancels the second. -/
def cancelledByTask : List (TimerStep Bool) :=
  [.addTimeEvent false 0, .addTimeEvent true 0, .collect 10, .readd 10 10, .readd 10 10,
    .rearm 10, .nextTask, .setCancel true true, .nextTask]

/-- The callback of the second event is started all the same. -/
theorem cancelled_started :
    ¬ Always timerStep NoneStartedCancelled (TimerRun.start dueTogether) cancelledByTask := by
  decide +kernel

/-- The same cancellation before the tick. -/
theorem cancelled_not_started_before_tick :
    Always timerStep NoneStartedCancelled (TimerRun.start dueTogether)
      [.addTimeEvent false 0, .addTimeEvent true 0, .setCancel true true, .collect 10,
        .readd 10 10, .rearm 10, .nextTask, .nextTask] :=
  cancelled_not_started dueTogether _ (by decide +kernel)

end TinyRpc
