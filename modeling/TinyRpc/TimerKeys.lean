/-
TinyRpc/TimerKeys.lean

The keys of the pending events, over any number of timers that share their events.

A key is the arrival time that the event had when it was put in.  An event keeps
its arrival time until a tick adds it again, and the entry that the tick found is
taken out by then.  If the event is pending somewhere else, though, in another
timer or a second time in the same one, the entry there stays under the old
arrival time, and `delete_time_event` looks for it under the new one.

`keyed_iff_meets` says in exactly which runs all keys are right throughout.
-/
import TinyRpc.TimerCancel

namespace TinyRpc

open Runs

variable {ι : Type} [DecidableEq ι]

namespace Timer

/-- Every entry stands under the arrival time that its event has. -/
def Keyed (events : Events ι) (t : Timer ι) : Prop :=
  ∀ entry ∈ t.pending.entries, entry.1 = (events entry.2).arriveTime

/-- There is an entry of the event. -/
def Pends (t : Timer ι) (event : ι) : Prop := ∃ entry ∈ t.pending.entries, entry.2 = event

omit [DecidableEq ι] in
/-- Arming the timerfd leaves the entries alone. -/
@[simp]
theorem resetArriveTime_pending (events : Events ι) (t : Timer ι) (now : Int) :
    (t.resetArriveTime events now).pending = t.pending := by
  unfold resetArriveTime
  split <;> rfl

omit [DecidableEq ι] in
@[simp]
theorem addTimeEvent_pending (events : Events ι) (t : Timer ι) (event : ι) (now : Int) :
    (t.addTimeEvent events event now).pending =
      t.pending.emplace (events event).arriveTime event := by
  unfold addTimeEvent
  split
  · exact resetArriveTime_pending events _ now
  · rfl

omit [DecidableEq ι] in
theorem mem_addTimeEvent {events : Events ι} {t : Timer ι} {event : ι} {now : Int}
    {entry : Int × ι} :
    entry ∈ (t.addTimeEvent events event now).pending.entries ↔
      entry = ((events event).arriveTime, event) ∨ entry ∈ t.pending.entries := by
  rw [addTimeEvent_pending]
  exact Multimap.mem_insertEntry

omit [DecidableEq ι] in
/-- Under right keys, going through the entries is going through the arrival times. -/
theorem Keyed.inOrder {events : Events ι} {t : Timer ι} (h : t.Keyed events) :
    t.pending.entries.Pairwise fun p q => (events p.2).arriveTime ≤ (events q.2).arriveTime := by
  refine t.pending.sorted.imp_of_mem fun {p q} hp hq hle => ?_
  rw [← h p hp, ← h q hq]
  exact hle

/-- Under right keys, `delete_time_event` takes out an entry of any pending event. -/
theorem Keyed.deletes {events : Events ι} {t : Timer ι} (h : t.Keyed events) {event : ι}
    (hev : t.Pends event) :
    t.pending.entries.length =
      (t.deleteTimeEvent events event).2.1.pending.entries.length + 1 := by
  obtain ⟨entry, hentry, rfl⟩ := hev
  have hmem : ((events entry.2).arriveTime, entry.2) ∈ t.pending.entries := by
    rw [← h entry hentry]
    exact hentry
  show _ = (t.pending.entries.erase _).length + 1
  rw [List.length_erase_of_mem hmem]
  exact (Nat.succ_pred_eq_of_pos (List.length_pos_of_mem hmem)).symm

end Timer

/-! ### Any number of timers -/

variable {κ : Type} [DecidableEq κ]

/-- Timers that share their events, and where `on_timer` of each of them stands. -/
structure Timers (κ ι : Type) where
  events : Events ι
  timer : κ → Timer ι
  phase : κ → TimerPhase ι

namespace Timers

/-- What timer `k` sees.  Nothing is kept of the callbacks that have been started. -/
def run (s : Timers κ ι) (k : κ) : TimerRun ι := ⟨s.events, s.timer k, s.phase k, []⟩

/-- What timer `k` makes of it. -/
def set (s : Timers κ ι) (k : κ) (r : TimerRun ι) : Timers κ ι where
  events := r.events
  timer := Function.update s.timer k r.timer
  phase := Function.update s.phase k r.phase

omit [DecidableEq ι] in
theorem set_timer_self (s : Timers κ ι) (k : κ) (r : TimerRun ι) :
    (s.set k r).timer k = r.timer :=
  Function.update_self ..

omit [DecidableEq ι] in
theorem set_timer_of_ne (s : Timers κ ι) {k k' : κ} (h : k' ≠ k) (r : TimerRun ι) :
    (s.set k r).timer k' = s.timer k' :=
  Function.update_of_ne h ..

/-- Every entry of every timer stands under the arrival time of its event. -/
def Keyed (s : Timers κ ι) : Prop := ∀ k, (s.timer k).Keyed s.events

/-- Timers before their first event. -/
def start (events : Events ι) : Timers κ ι := ⟨events, fun _ => Timer.create, fun _ => .idle⟩

end Timers

/-- A step of one of the timers. -/
def timersStep : Step (Timers κ ι) (κ × TimerStep ι)
  | s, (k, step) => (timerStep (s.run k) step).map (s.set k)

/-- The event that a step gives a new arrival time, and the arrival time. -/
def TimerRun.resets (r : TimerRun ι) : TimerStep ι → Option (ι × Int)
  | .readd resetNow _ =>
      match r.phase with
      | .readding (event :: _) _ =>
          if (r.events event).isRepeat then
            some (event, ((r.events event).resetArriveTime resetNow).arriveTime)
          else none
      | _ => none
  | _ => none

/-- An event gets a new arrival time only while it is not pending in any timer (or if the
new one is the old one). -/
def ResetsUnshared (s : Timers κ ι) : κ × TimerStep ι → Prop
  | (k, step) => ∀ reset ∈ (s.run k).resets step, ∀ k', (s.timer k').Pends reset.1 →
      reset.2 = (s.events reset.1).arriveTime

/-! ### What a step of a timer does to the entries and to the arrival times -/

/-- An entry is either an old one or stands under the arrival time of its event. -/
theorem mem_timerStep {r r' : TimerRun ι} {step : TimerStep ι} (hr : r' ∈ timerStep r step)
    {entry : Int × ι} (hentry : entry ∈ r'.timer.pending.entries) :
    entry ∈ r.timer.pending.entries ∨ entry.1 = (r'.events entry.2).arriveTime := by
  cases step with
  | addTimeEvent event now =>
      obtain rfl := Option.some.inj hr
      rcases Timer.mem_addTimeEvent.mp hentry with rfl | hold
      · exact Or.inr rfl
      · exact Or.inl hold
  | setCancel event value =>
      obtain rfl := Option.some.inj hr
      exact Or.inl hentry
  | deleteTimeEvent event =>
      obtain rfl := Option.some.inj hr
      exact Or.inl (List.mem_of_mem_erase hentry)
  | collect now =>
      obtain ⟨-, rfl⟩ := timerStep_collect hr
      exact Or.inl (List.dropWhile_subset _ hentry)
  | readd resetNow addNow =>
      obtain ⟨event, temp, tasks, hphase, rfl⟩ := timerStep_readd hr
      rcases hrepeat : (r.events event).isRepeat with - | -
      · rw [Timer.readd_of_once hrepeat] at hentry ⊢
        exact Or.inl hentry
      · rw [Timer.readd_of_repeat hrepeat] at hentry ⊢
        rcases Timer.mem_addTimeEvent.mp hentry with rfl | hold
        · exact Or.inr rfl
        · exact Or.inl hold
  | rearm now =>
      obtain ⟨tasks, hphase, rfl⟩ := timerStep_rearm hr
      rw [Timer.resetArriveTime_pending] at hentry
      exact Or.inl hentry
  | nextTask =>
      obtain ⟨-, htimer, -⟩ := timerStep_nextTask hr
      rw [htimer] at hentry
      exact Or.inl hentry

/-- The event that a step resets has the new arrival time, and what was pending still is. -/
theorem timerStep_of_resets {r r' : TimerRun ι} {step : TimerStep ι} {event : ι} {time : Int}
    (hr : r' ∈ timerStep r step) (hreset : (event, time) ∈ r.resets step) :
    (r'.events event).arriveTime = time ∧
      ∀ entry ∈ r.timer.pending.entries, entry ∈ r'.timer.pending.entries := by
  cases step with
  | readd resetNow addNow =>
      obtain ⟨first, temp, tasks, hphase, rfl⟩ := timerStep_readd hr
      simp only [TimerRun.resets, hphase] at hreset
      obtain ⟨hrepeat, heq⟩ := Option.mem_ite_none_right.mp hreset
      obtain ⟨rfl, rfl⟩ := Prod.mk.inj (Option.some.inj heq)
      rw [Timer.readd_of_repeat hrepeat]
      refine ⟨?_, fun entry hentry => Timer.mem_addTimeEvent.mpr (Or.inr hentry)⟩
      dsimp only
      rw [Function.update_self]
  | _ => exact absurd hreset (Option.not_mem_none _)

/-- Cancelling an event changes no arrival time. -/
theorem arriveTime_setCancel (events : Events ι) (event other : ι) (value : Bool) :
    (Function.update events other ((events other).setCancel value) event).arriveTime =
      (events event).arriveTime := by
  by_cases heq : event = other
  · subst heq
    rw [Function.update_self]
    rfl
  · rw [Function.update_of_ne heq]

/-- Every other event keeps its arrival time. -/
theorem timerStep_of_not_resets {r r' : TimerRun ι} {step : TimerStep ι} {event : ι}
    (hr : r' ∈ timerStep r step) (hreset : ∀ time, (event, time) ∉ r.resets step) :
    (r'.events event).arriveTime = (r.events event).arriveTime := by
  cases step with
  | addTimeEvent other now =>
      obtain rfl := Option.some.inj hr
      rfl
  | setCancel other value =>
      obtain rfl := Option.some.inj hr
      exact arriveTime_setCancel r.events event other value
  | deleteTimeEvent other =>
      obtain rfl := Option.some.inj hr
      exact arriveTime_setCancel r.events event other true
  | collect now =>
      obtain ⟨-, rfl⟩ := timerStep_collect hr
      rfl
  | readd resetNow addNow =>
      obtain ⟨first, temp, tasks, hphase, rfl⟩ := timerStep_readd hr
      rcases hrepeat : (r.events first).isRepeat with - | -
      · rw [Timer.readd_of_once hrepeat]
      · rw [Timer.readd_of_repeat hrepeat]
        have hne : event ≠ first := by
          rintro rfl
          refine hreset ((r.events event).resetArriveTime resetNow).arriveTime ?_
          simp only [TimerRun.resets, hphase]
          exact Option.mem_ite_none_right.mpr ⟨hrepeat, rfl⟩
        dsimp only
        rw [Function.update_of_ne hne]
  | rearm now =>
      obtain ⟨tasks, hphase, rfl⟩ := timerStep_rearm hr
      rfl
  | nextTask =>
      obtain ⟨hevents, -⟩ := timerStep_nextTask hr
      rw [hevents]

/-- Under right keys, entries that are old or right stay right, unless an event that has one
of the old entries gets a new arrival time. -/
theorem Timer.Keyed.mono {r r' : TimerRun ι} {step : TimerStep ι} (hr : r' ∈ timerStep r step)
    {t t' : Timer ι} (h : t.Keyed r.events)
    (hmem : ∀ entry ∈ t'.pending.entries,
      entry ∈ t.pending.entries ∨ entry.1 = (r'.events entry.2).arriveTime)
    (hc : ∀ reset ∈ r.resets step, t.Pends reset.1 → reset.2 = (r.events reset.1).arriveTime) :
    t'.Keyed r'.events := by
  intro entry hentry
  rcases hmem entry hentry with hold | hnew
  · rw [h entry hold]
    by_cases hreset : ∃ time, (entry.2, time) ∈ r.resets step
    · -- the event gets a new arrival time while it is pending, so the new one is the old one
      obtain ⟨time, htime⟩ := hreset
      have hsame := hc _ htime ⟨entry, hold, rfl⟩
      rw [(timerStep_of_resets hr htime).1]
      exact hsame.symm
    · exact (timerStep_of_not_resets hr (not_exists.mp hreset)).symm
  · exact hnew

/-! ### The keys of every timer -/

theorem Timers.mem_set {s : Timers κ ι} {k : κ} {r : TimerRun ι} {step : TimerStep ι}
    (hr : r ∈ timerStep (s.run k) step) (k' : κ) {entry : Int × ι}
    (hentry : entry ∈ ((s.set k r).timer k').pending.entries) :
    entry ∈ (s.timer k').pending.entries ∨ entry.1 = (r.events entry.2).arriveTime := by
  by_cases heq : k' = k
  · subst heq
    rw [s.set_timer_self] at hentry
    exact mem_timerStep hr hentry
  · rw [s.set_timer_of_ne heq] at hentry
    exact Or.inl hentry

theorem Timers.Keyed.step (s : Timers κ ι) (event : κ × TimerStep ι) (s' : Timers κ ι)
    (h : s.Keyed) (hc : ResetsUnshared s event) (hs : s' ∈ timersStep s event) : s'.Keyed := by
  obtain ⟨k, step⟩ := event
  obtain ⟨r, hr, rfl⟩ := Option.map_eq_some_iff.mp hs
  intro k'
  exact (h k').mono hr (fun entry => Timers.mem_set hr k') fun reset hreset => hc reset hreset k'

/-- An entry whose event is reset stays where it was. -/
theorem Timers.Keyed.resetsUnshared (s : Timers κ ι) (event : κ × TimerStep ι) (s' : Timers κ ι)
    (h : s.Keyed) (hs : s' ∈ timersStep s event) (h' : s'.Keyed) : ResetsUnshared s event := by
  obtain ⟨k, step⟩ := event
  obtain ⟨r, hr, rfl⟩ := Option.map_eq_some_iff.mp hs
  rintro ⟨event, time⟩ hreset k' ⟨entry, hentry, rfl⟩
  obtain ⟨htime, hkept⟩ := timerStep_of_resets hr hreset
  have hstays : entry ∈ ((s.set k r).timer k').pending.entries := by
    by_cases heq : k' = k
    · subst heq
      rw [s.set_timer_self]
      exact hkept entry hentry
    · rw [s.set_timer_of_ne heq]
      exact hentry
  calc time = (r.events entry.2).arriveTime := htime.symm
    _ = entry.1 := (h' k' entry hstays).symm
    _ = (s.events entry.2).arriveTime := h k' entry hentry

omit [DecidableEq ι] [DecidableEq κ] in
theorem Timers.Keyed.start (events : Events ι) : (Timers.start events : Timers κ ι).Keyed :=
  fun _ _ hentry => absurd hentry List.not_mem_nil

/-- **The keys are right throughout** a run of any number of timers if and only if no event
gets a new arrival time while it is pending somewhere. -/
theorem keyed_iff_meets (events : Events ι) (steps : List (κ × TimerStep ι)) :
    Always timersStep Timers.Keyed (Timers.start events) steps ↔
      Meets timersStep ResetsUnshared (Timers.start events) steps :=
  always_iff_meets (fun _ h => h) Timers.Keyed.step Timers.Keyed.resetsUnshared
    (Timers.Keyed.start events)

/-! ### A repeating event in two timers -/

instance : DecidablePred (@Timers.Keyed ι Bool) := fun s =>
  inferInstanceAs (Decidable (∀ k : Bool, ∀ entry ∈ (s.timer k).pending.entries,
    entry.1 = (s.events entry.2).arriveTime))

/-- Every 10 ms. -/
def everyTen : Events Unit := fun _ => TimerEvent.create 10 true true 0

/-- Both timers are given the event, and the first one ticks. -/
def sharedByTwo : List (Bool × TimerStep Unit) :=
  [(false, .addTimeEvent () 0), (true, .addTimeEvent () 0), (false, .collect 10),
    (false, .readd 10 10)]

/-- The second timer has it under 10, and it arrives at 20. -/
theorem not_keyed_shared :
    ¬ Always timersStep Timers.Keyed (Timers.start everyTen) sharedByTwo := by
  decide +kernel

end TinyRpc
