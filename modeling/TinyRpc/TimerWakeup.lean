/-
TinyRpc/TimerWakeup.lean

That no wake-up of a timer is lost.

The timerfd fires once.  It is armed when an event is put in that becomes the first
one, and again at the end of the locked part of each tick, which has read away the
expiry that led to it.  So whenever `on_timer` is not in its locked part, an expiry
is on its way, or has come and has not been read yet, for the event that is due
next: at its arrival time, or 100 ms after the arming if it was due by then.

What this rests on is that the first entry is the earliest event, that is, on the
keys (`Timer.Keyed`).  They are right if no event is pending twice at a time.
-/
import Mathlib.Order.MinMax
import TinyRpc.TimerKeys

namespace TinyRpc

open Runs

variable {ι : Type} [DecidableEq ι]

namespace Timer

/-- What the reads at the start of `on_timer` leave of the timerfd: an expiry that has come
is gone. -/
def drain (t : Timer ι) (now : Int) : Timer ι :=
  { t with armedFor := t.armedFor.filter fun expiry => decide (now < expiry) }

/-- If there is an event, the timerfd expires, or has expired, no later than the earliest
one arrives, or than 100 ms after it was armed. -/
def Wakes (events : Events ι) (t : Timer ι) (armedAt : Option Int) : Prop :=
  t.pending.entries ≠ [] →
    ∃ expiry ∈ t.armedFor, ∃ since ∈ armedAt, ∀ entry ∈ t.pending.entries,
      expiry ≤ max (events entry.2).arriveTime (since + 100)

omit [DecidableEq ι] in
/-- Arming for the first event is arming for the earliest one. -/
theorem Keyed.resetArriveTime_wakes {events : Events ι} {t : Timer ι} (h : t.Keyed events)
    (now : Int) :
    (t.resetArriveTime events now).Wakes events (some now) := by
  intro hne
  rw [resetArriveTime_pending] at hne ⊢
  have horder := h.inOrder
  obtain ⟨first, rest, hentries⟩ := List.exists_cons_of_ne_nil hne
  rw [resetArriveTime_of_cons hentries]
  rw [hentries] at horder ⊢
  refine ⟨_, rfl, now, rfl, fun entry hentry => ?_⟩
  have hfirst : (events first.2).arriveTime ≤ (events entry.2).arriveTime := by
    rcases List.mem_cons.mp hentry with rfl | hrest
    · exact Int.le_refl _
    · exact (List.pairwise_cons.mp horder).1 entry hrest
  unfold interval
  split
  · apply le_max_of_le_left
    omega
  · exact le_max_right _ _

omit [DecidableEq ι] in
theorem Keyed.insert {events : Events ι} {t : Timer ι} (h : t.Keyed events) (event : ι) :
    (t.insert events event).Keyed events := by
  intro entry hentry
  rcases Multimap.mem_insertEntry.mp hentry with rfl | hold
  · rfl
  · exact h entry hold

omit [DecidableEq ι] in
/-- An event that does not become the first is not earlier than the first. -/
theorem Wakes.insert {events : Events ι} {t : Timer ι} {armedAt : Option Int}
    (h : t.Wakes events armedAt) {event : ι} (hev : t.isResetTimerfd events event = false) :
    (t.insert events event).Wakes events armedAt := by
  obtain ⟨first, hfirst, hle⟩ := isResetTimerfd_eq_false hev
  obtain ⟨expiry, hexpiry, since, hsince, hall⟩ := h (List.ne_nil_of_mem hfirst)
  refine fun _ => ⟨expiry, hexpiry, since, hsince, fun entry hentry => ?_⟩
  rcases Multimap.mem_insertEntry.mp hentry with rfl | hold
  · exact (hall first hfirst).trans (max_le_max hle (Int.le_refl _))
  · exact hall entry hold

omit [DecidableEq ι] in
theorem Wakes.addTimeEvent {events : Events ι} {t : Timer ι} {armedAt : Option Int}
    (hkeyed : t.Keyed events) (h : t.Wakes events armedAt) (event : ι) (now : Int) :
    (t.addTimeEvent events event now).Wakes events
      (if t.isResetTimerfd events event then some now else armedAt) := by
  rw [Timer.addTimeEvent]
  rcases hreset : t.isResetTimerfd events event with - | -
  · exact h.insert hreset
  · exact (hkeyed.insert event).resetArriveTime_wakes now

omit [DecidableEq ι] in
/-- Taking events out, without touching the timerfd, leaves every other one its wake-up. -/
theorem Wakes.mono {events events' : Events ι} {t t' : Timer ι} {armedAt : Option Int}
    (h : t.Wakes events armedAt) (harmed : t'.armedFor = t.armedFor)
    (hsub : ∀ entry ∈ t'.pending.entries, entry ∈ t.pending.entries)
    (harrive : ∀ event, (events' event).arriveTime = (events event).arriveTime) :
    t'.Wakes events' armedAt := by
  intro hne
  obtain ⟨entry, hentry⟩ := List.exists_mem_of_ne_nil _ hne
  obtain ⟨expiry, hexpiry, since, hsince, hall⟩ := h (List.ne_nil_of_mem (hsub entry hentry))
  rw [harmed]
  refine ⟨expiry, hexpiry, since, hsince, fun entry hentry => ?_⟩
  rw [harrive]
  exact hall entry (hsub entry hentry)

end Timer

/-! ### Runs -/

/-- A timer, and when its timerfd was last armed. -/
structure TimerWatch (ι : Type) where
  run : TimerRun ι
  armedAt : Option Int

inductive WatchStep (ι : Type)
  /-- `on_timer` up to the end of its locked part: the reads are over at `readNow` -/
  | onTimer (readNow now : Int)
  /-- any other step -/
  | other (step : TimerStep ι)

/-- When a step arms the timerfd, if it does. -/
def TimerRun.arms (r : TimerRun ι) : TimerStep ι → Option Int
  | .addTimeEvent event now => if r.timer.isResetTimerfd r.events event then some now else none
  | .readd resetNow addNow =>
      match r.phase with
      | .readding (event :: _) _ =>
          let events :=
            Function.update r.events event ((r.events event).resetArriveTime resetNow)
          if (r.events event).isRepeat && r.timer.isResetTimerfd events event then some addNow
          else none
      | _ => none
  | .rearm now => if r.timer.pending.entries.isEmpty then none else some now
  | _ => none

def watchStep : Step (TimerWatch ι) (WatchStep ι)
  | s, .onTimer readNow now =>
      let drained := { s.run with timer := s.run.timer.drain readNow }
      (timerStep drained (.collect now)).map fun r => { s with run := r }
  | _, .other (.collect _) => none
  | s, .other step => (timerStep s.run step).map fun r => ⟨r, (s.run.arms step).or s.armedAt⟩

theorem watchStep_other {s s' : TimerWatch ι} {step : TimerStep ι}
    (hs : s' ∈ watchStep s (.other step)) :
    ∃ r ∈ timerStep s.run step, s' = ⟨r, (s.run.arms step).or s.armedAt⟩ := by
  cases step with
  | collect now => cases hs
  | _ =>
      simp only [watchStep] at hs
      obtain ⟨r, hr, heq⟩ := Option.map_eq_some_iff.mp hs
      exact ⟨r, hr, heq.symm⟩

/-- A timer that has never been armed. -/
def TimerWatch.start (events : Events ι) : TimerWatch ι := ⟨TimerRun.start events, none⟩

/-- No event is pending twice. -/
def PendsOnce (s : TimerWatch ι) : Prop := (s.run.timer.pending.entries.map Prod.snd).Nodup

instance : DecidablePred (@PendsOnce ι) := fun s =>
  inferInstanceAs (Decidable (s.run.timer.pending.entries.map Prod.snd).Nodup)

/-- `on_timer` has collected what is due, and has not armed the timerfd yet. -/
def TimerPhase.IsReadding : TimerPhase ι → Prop
  | .readding _ _ => True
  | _ => False

/-- Between operations, in callbacks too, the timerfd is going to wake the timer up in time. -/
def WakesInTime (s : TimerWatch ι) : Prop :=
  ¬ s.run.phase.IsReadding → s.run.timer.Wakes s.run.events s.armedAt

/-- The keys are right, and no wake-up is missing. -/
structure WakeInvariant (s : TimerWatch ι) : Prop where
  keyed : s.run.timer.Keyed s.run.events
  wakes : WakesInTime s

/-- An event that is put in again, and is then pending once, has not been pending before. -/
theorem not_pends_of_resets {r r' : TimerRun ι} {step : TimerStep ι} (hr : r' ∈ timerStep r step)
    (hone : (r'.timer.pending.entries.map Prod.snd).Nodup) {reset : ι × Int}
    (hreset : reset ∈ r.resets step) : ¬ r.timer.Pends reset.1 := by
  cases step with
  | readd resetNow addNow =>
      obtain ⟨event, temp, tasks, hphase, rfl⟩ := timerStep_readd hr
      simp only [TimerRun.resets, hphase] at hreset
      obtain ⟨hrepeat, heq⟩ := Option.mem_ite_none_right.mp hreset
      obtain rfl := Option.some.inj heq
      rw [Timer.readd_of_repeat hrepeat] at hone
      simp only [Timer.addTimeEvent_pending] at hone
      have hnodup := ((Multimap.perm_insertEntry ..).map Prod.snd).nodup_iff.mp hone
      intro hpends
      exact (List.nodup_cons.mp hnodup).1 (List.mem_map.mpr hpends)
  | _ => exact absurd hreset (Option.not_mem_none _)

theorem keyed_timerStep {r r' : TimerRun ι} {step : TimerStep ι} (hr : r' ∈ timerStep r step)
    (hone : (r'.timer.pending.entries.map Prod.snd).Nodup) (h : r.timer.Keyed r.events) :
    r'.timer.Keyed r'.events :=
  h.mono hr (fun _ => mem_timerStep hr) fun _ hreset hpends =>
    absurd hpends (not_pends_of_resets hr hone hreset)

/-- A step that is not the beginning of a tick leaves no wake-up missing. -/
theorem wakes_timerStep {r r' : TimerRun ι} {step : TimerStep ι} {armedAt : Option Int}
    (hr : r' ∈ timerStep r step) (hkeyed : r.timer.Keyed r.events)
    (h : ¬ r.phase.IsReadding → r.timer.Wakes r.events armedAt)
    (hphase' : ¬ r'.phase.IsReadding) :
    r'.timer.Wakes r'.events ((r.arms step).or armedAt) := by
  have hsame : ∀ event, (∀ time, (event, time) ∉ r.resets step) →
      (r'.events event).arriveTime = (r.events event).arriveTime :=
    fun _ => timerStep_of_not_resets hr
  cases step with
  | addTimeEvent event now =>
      obtain rfl := Option.some.inj hr
      have hwakes := Timer.Wakes.addTimeEvent hkeyed (h hphase') event now
      rcases hreset : r.timer.isResetTimerfd r.events event with - | -
      · simpa [TimerRun.arms, hreset] using hwakes
      · simpa [TimerRun.arms, hreset] using hwakes
  | setCancel event value =>
      obtain rfl := Option.some.inj hr
      exact (h hphase').mono rfl (fun _ hentry => hentry) fun other =>
        hsame other fun _ => Option.not_mem_none _
  | deleteTimeEvent event =>
      obtain rfl := Option.some.inj hr
      exact (h hphase').mono rfl (fun _ hentry => List.mem_of_mem_erase hentry) fun other =>
        hsame other fun _ => Option.not_mem_none _
  | collect now =>
      obtain ⟨-, rfl⟩ := timerStep_collect hr
      exact absurd trivial hphase'
  | readd resetNow addNow =>
      obtain ⟨event, temp, tasks, hphase, rfl⟩ := timerStep_readd hr
      exact absurd trivial hphase'
  | rearm now =>
      obtain ⟨tasks, hphase, rfl⟩ := timerStep_rearm hr
      rcases hentries : r.timer.pending.entries with - | ⟨first, rest⟩
      · intro hne
        rw [Timer.resetArriveTime_pending] at hne
        exact absurd hentries hne
      · have harms : r.arms (.rearm now) = some now := by
          simp [TimerRun.arms, hentries]
        rw [harms]
        exact hkeyed.resetArriveTime_wakes now
  | nextTask =>
      obtain ⟨hevents, htimer, ⟨tasks, hphase⟩, -⟩ := timerStep_nextTask hr
      rw [hevents, htimer]
      refine h ?_
      rw [hphase]
      exact id

theorem WakeInvariant.step (s : TimerWatch ι) (event : WatchStep ι) (s' : TimerWatch ι)
    (h : WakeInvariant s) (hone : PendsOnce s') (hs : s' ∈ watchStep s event) :
    WakeInvariant s' := by
  cases event with
  | onTimer readNow now =>
      obtain ⟨r, hr, rfl⟩ := Option.map_eq_some_iff.mp hs
      refine ⟨keyed_timerStep hr hone h.keyed, fun hphase => ?_⟩
      obtain ⟨-, rfl⟩ := timerStep_collect hr
      exact absurd trivial hphase
  | other step =>
      obtain ⟨r, hr, rfl⟩ := watchStep_other hs
      exact ⟨keyed_timerStep hr hone h.keyed, wakes_timerStep hr h.keyed h.wakes⟩

omit [DecidableEq ι] in
theorem WakeInvariant.start (events : Events ι) : WakeInvariant (TimerWatch.start events) where
  keyed := fun _ hentry => absurd hentry List.not_mem_nil
  wakes := fun _ hne => absurd rfl hne

/-- **No wake-up is lost** in a run in which no event is pending twice at a time. -/
theorem wakes_in_time (events : Events ι) (steps : List (WatchStep ι))
    (h : Always watchStep PendsOnce (TimerWatch.start events) steps) :
    Always watchStep WakesInTime (TimerWatch.start events) steps :=
  always_of_always (fun _ h => h.wakes) WakeInvariant.step (WakeInvariant.start events) h

/-- Two repeating events; a callback of the first tick cancels the second event, and puts it
in again. -/
theorem wakes_in_time_tick :
    Always watchStep WakesInTime
      (TimerWatch.start fun slow : Bool => TimerEvent.create (if slow then 30 else 10) true true 0)
      [.other (.addTimeEvent true 0), .other (.addTimeEvent false 0), .onTimer 10 11,
        .other (.readd 11 11), .other (.rearm 12), .other (.deleteTimeEvent true),
        .other (.setCancel true false), .other (.addTimeEvent true 12), .other .nextTask,
        .other .nextTask] :=
  wakes_in_time _ _ (by decide +kernel)

end TinyRpc
