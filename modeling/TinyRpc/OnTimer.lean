/-
TinyRpc/OnTimer.lean

One whole call of `on_timer`, which nothing interferes with.

The stages of the call fit together: what is collected is what the range erase takes out
(`collect_eq`); every repeating event among it is put in again, wherever its new arrival
time belongs (`after_readdSteps`); and the tasks, which have been copied, run in the order
of the entries (`after_runTasks`).  `on_timer_ticks` is the whole call.
-/
import TinyRpc.TimerKeys

namespace TinyRpc

open Runs

variable {ι : Type}

/-! ### The call -/

/-- The steps of `on_timer` that go through the `n` events of `temp`; `clock k` is the first
reading of the clock that is left. -/
def readdSteps (clock : Nat → Int) : Nat → Nat → List (TimerStep ι)
  | _, 0 => []
  | k, n + 1 => .readd (clock k) (clock (k + 1)) :: readdSteps clock (k + 2) n

/-- The steps of a call of `on_timer` that collects `n` events.  A reading that a step has no
use for is skipped. -/
def onTimerSteps (clock : Nat → Int) (n : Nat) : List (TimerStep ι) :=
  .collect (clock 0) ::
    (readdSteps clock 1 n ++ .rearm (clock (2 * n + 1)) :: List.replicate (n + 1) .nextTask)

namespace TimerRun

/-- The entries of the events that arrive by `now` and are not cancelled. -/
def due (s : TimerRun ι) (now : Int) : List (Int × ι) :=
  s.timer.pending.entries.filter fun entry =>
    (s.events entry.2).arriveTime ≤ now ∧ (s.events entry.2).isCancel = false

/-- Of these, the entries of the repeating events. -/
def repeating (s : TimerRun ι) (now : Int) : List (Int × ι) :=
  (s.due now).filter fun entry => (s.events entry.2).isRepeat

/-- The entries of the events that arrive after `now`. -/
def later (s : TimerRun ι) (now : Int) : List (Int × ι) :=
  s.timer.pending.entries.filter fun entry => now < (s.events entry.2).arriveTime

/-- No event is pending twice. -/
def EachOnce (s : TimerRun ι) : Prop := (s.timer.pending.entries.map Prod.snd).Nodup

end TimerRun

/-- What a call of `on_timer` leaves: it has returned; it has called the tasks of the due events,
none of them cancelled, in the order of their entries, which is the order of their arrival
times, and each once; and the pending events are the later ones and the repeating ones, each
under its new arrival time. -/
structure Ticked (clock : Nat → Int) (s s' : TimerRun ι) : Prop where
  idle : s'.phase = .idle
  started : s'.started = s.started ++
    ((s.due (clock 0)).filter fun entry => (s.events entry.2).hasTask).map
      fun entry => (entry.2, false)
  inOrder : (s.due (clock 0)).Pairwise fun p q =>
    (s.events p.2).arriveTime ≤ (s.events q.2).arriveTime
  once : ((s.due (clock 0)).map Prod.snd).Nodup
  pending : s'.timer.pending.entries.Perm
    (s.later (clock 0) ++
      (s.repeating (clock 0)).map fun entry => ((s'.events entry.2).arriveTime, entry.2))
  readded : ∀ entry ∈ s.repeating (clock 0), ∃ k, 0 < k ∧
    (s'.events entry.2).arriveTime = clock k + (s.events entry.2).interval

/-! ### The locked part -/

section Collect

variable {s : TimerRun ι} {now : Int}

/-- Under right keys, what is collected is what is due. -/
theorem due_eq_filter (h : s.timer.Keyed s.events) (now : Int) :
    (s.timer.pending.upTo now).filter (fun entry => !(s.events entry.2).isCancel) =
      s.due now := by
  rw [Multimap.upTo_eq_filter, List.filter_filter, TimerRun.due]
  refine List.filter_congr fun entry hentry => ?_
  rw [h entry hentry]
  simp [Bool.and_comm]

/-- Under right keys, what is left is what arrives later. -/
theorem later_eq_after (h : s.timer.Keyed s.events) (now : Int) :
    (s.timer.pending.after now).entries = s.later now := by
  rw [Multimap.after_eq_filter, TimerRun.later]
  refine List.filter_congr fun entry hentry => ?_
  rw [h entry hentry]

/-- The state after the locked part. -/
def TimerRun.afterCollect (s : TimerRun ι) (now : Int) : TimerRun ι :=
  { s with
    timer := { s.timer with pending := s.timer.pending.after now }
    phase := .readding ((s.due now).map Prod.snd)
      ((s.due now).map fun entry => ((s.events entry.2).arriveTime, entry.2)) }

theorem timerStep_of_idle [DecidableEq ι] (hphase : s.phase = .idle)
    (h : s.timer.Keyed s.events) (now : Int) :
    timerStep s (.collect now) = some (s.afterCollect now) := by
  simp only [timerStep, hphase, Timer.collect, due_eq_filter h]
  rfl

end Collect

variable [DecidableEq ι] {s : TimerRun ι}

/-! ### Adding the repeating events again -/

/-- What the loop over `temp` leaves. -/
structure Readded (clock : Nat → Int) (k : Nat) (temp : List ι) (tasks : List (Int × ι))
    (s s' : TimerRun ι) : Prop where
  phase : s'.phase = .readding [] tasks
  started : s'.started = s.started
  others : ∀ event ∉ temp, s'.events event = s.events event
  flags : ∀ event, (s'.events event).isCancel = (s.events event).isCancel ∧
    (s'.events event).hasTask = (s.events event).hasTask
  pending : s'.timer.pending.entries.Perm
    (s.timer.pending.entries ++ (temp.filter fun event => (s.events event).isRepeat).map
      fun event => ((s'.events event).arriveTime, event))
  readded : ∀ event ∈ temp, (s.events event).isRepeat = true → ∃ j, k ≤ j ∧
    (s'.events event).arriveTime = clock j + (s.events event).interval

theorem timerStep_of_readding {event : ι} {temp : List ι} {tasks : List (Int × ι)}
    (hphase : s.phase = .readding (event :: temp) tasks) (resetNow addNow : Int) :
    timerStep s (.readd resetNow addNow) = some
      { s with
        events := (s.timer.readd s.events event resetNow addNow).1
        timer := (s.timer.readd s.events event resetNow addNow).2
        phase := .readding temp tasks } := by
  simp only [timerStep, hphase]

section Cons

variable {clock : Nat → Int} {k : Nat} {event : ι} {temp : List ι} {tasks : List (Int × ι)}
  {s' : TimerRun ι}

omit [DecidableEq ι] in
/-- An event that does not repeat is not added again. -/
theorem Readded.cons_once (hrepeat : (s.events event).isRepeat = false)
    (h : Readded clock (k + 2) temp tasks { s with phase := .readding temp tasks } s') :
    Readded clock k (event :: temp) tasks s s' := by
  obtain ⟨hphase, hstarted, hothers, hflags, hpending, hreadded⟩ := h
  refine ⟨hphase, hstarted, fun e he => hothers e fun hmem => he (List.mem_cons_of_mem _ hmem),
    hflags, ?_, fun e he hrep => ?_⟩
  · rwa [List.filter_cons_of_neg (by rw [hrepeat]; decide)]
  · rcases List.mem_cons.mp he with rfl | hmem
    · exact absurd (hrepeat.symm.trans hrep) (by decide)
    · obtain ⟨j, hj, htime⟩ := hreadded e hmem hrep
      exact ⟨j, by omega, htime⟩

/-- One that does has a new arrival time, and an entry under it. -/
theorem Readded.cons_repeat {timer : Timer ι} (hevent : event ∉ temp)
    (hrepeat : (s.events event).isRepeat = true)
    (htimer : timer.pending =
      s.timer.pending.emplace ((s.events event).resetArriveTime (clock k)).arriveTime event)
    (h : Readded clock (k + 2) temp tasks
      { s with
        events :=
          Function.update s.events event ((s.events event).resetArriveTime (clock k))
        timer := timer
        phase := .readding temp tasks } s') :
    Readded clock k (event :: temp) tasks s s' := by
  obtain ⟨hphase, hstarted, hothers, hflags, hpending, hreadded⟩ := h
  have hself := hothers event hevent
  have hother : ∀ e, e ≠ event → Function.update s.events event
      ((s.events event).resetArriveTime (clock k)) e = s.events e :=
    fun e he => Function.update_of_ne he _ _
  have hrest : ∀ e ∈ temp, e ≠ event := fun e he => ne_of_mem_of_not_mem he hevent
  dsimp only at hself hothers hflags hpending hreadded
  rw [Function.update_self] at hself
  refine ⟨hphase, hstarted, fun e he => ?_, fun e => ?_, ?_, fun e he hrep => ?_⟩
  · have hne : e ≠ event := fun heq => he (heq ▸ List.mem_cons_self)
    rw [hothers e fun hmem => he (List.mem_cons_of_mem _ hmem), hother e hne]
  · rw [(hflags e).1, (hflags e).2]
    by_cases he : e = event
    · subst he
      rw [Function.update_self]
      exact ⟨rfl, rfl⟩
    · rw [hother e he]
      exact ⟨rfl, rfl⟩
  · have hfilter : (temp.filter fun e => (Function.update s.events event
        ((s.events event).resetArriveTime (clock k)) e).isRepeat) =
        temp.filter fun e => (s.events e).isRepeat :=
      List.filter_congr fun e he => by rw [hother e (hrest e he)]
    have hcons : ((event :: temp).filter fun e => (s.events e).isRepeat) =
        event :: temp.filter fun e => (s.events e).isRepeat := List.filter_cons_of_pos hrepeat
    have hinsert := Multimap.perm_insertEntry
      ((s.events event).resetArriveTime (clock k)).arriveTime event s.timer.pending.entries
    rw [hfilter, htimer] at hpending
    rw [hcons, List.map_cons, hself]
    exact (hpending.trans (hinsert.append_right _)).trans List.perm_middle.symm
  · rcases List.mem_cons.mp he with rfl | hmem
    · rw [hself]
      exact ⟨k, le_rfl, rfl⟩
    · have hne := hother e (hrest e hmem)
      obtain ⟨j, hj, htime⟩ := hreadded e hmem (by rwa [hne])
      rw [hne] at htime
      exact ⟨j, by omega, htime⟩

/-- The first event of `temp`, and then the rest. -/
theorem Readded.cons (hevent : event ∉ temp)
    (h : Readded clock (k + 2) temp tasks
      { s with
        events := (s.timer.readd s.events event (clock k) (clock (k + 1))).1
        timer := (s.timer.readd s.events event (clock k) (clock (k + 1))).2
        phase := .readding temp tasks } s') :
    Readded clock k (event :: temp) tasks s s' := by
  rcases hrepeat : (s.events event).isRepeat with - | -
  · rw [Timer.readd_of_once hrepeat] at h
    exact h.cons_once hrepeat
  · rw [Timer.readd_of_repeat hrepeat] at h
    refine h.cons_repeat hevent hrepeat ?_
    rw [Timer.addTimeEvent_pending, Function.update_self]

end Cons

theorem after_readdSteps {temp : List ι} {tasks : List (Int × ι)} (clock : Nat → Int) (k : Nat)
    (htemp : temp.Nodup) (hphase : s.phase = .readding temp tasks) :
    ∃ s', after timerStep s (readdSteps clock k temp.length) = some s' ∧
      Readded clock k temp tasks s s' := by
  induction temp generalizing s k with
  | nil =>
      refine ⟨s, rfl, hphase, rfl, fun _ _ => rfl, fun _ => ⟨rfl, rfl⟩, ?_, nofun⟩
      rw [List.filter_nil, List.map_nil, List.append_nil]
  | cons event temp ih =>
      obtain ⟨hevent, hrest⟩ := List.nodup_cons.mp htemp
      obtain ⟨s', hs', hreadded⟩ := ih
        (s := { s with
          events := (s.timer.readd s.events event (clock k) (clock (k + 1))).1
          timer := (s.timer.readd s.events event (clock k) (clock (k + 1))).2
          phase := .readding temp tasks }) (k + 2) hrest rfl
      refine ⟨s', ?_, hreadded.cons hevent⟩
      rw [List.length_cons, readdSteps, after, timerStep_of_readding hphase]
      exact hs'

/-! ### Running the tasks -/

theorem after_runTasks {tasks : List (Int × ι)} (hphase : s.phase = .running tasks) :
    after timerStep s (List.replicate (tasks.length + 1) .nextTask) = some
      { s with
        phase := .idle
        started := s.started ++ (tasks.filter fun task => (s.events task.2).hasTask).map
          fun task => (task.2, (s.events task.2).isCancel) } := by
  induction tasks generalizing s with
  | nil =>
      simp only [List.length_nil, List.replicate, after, timerStep, hphase]
      simp
  | cons task tasks ih =>
      obtain ⟨time, event⟩ := task
      rw [List.length_cons, List.replicate_succ, after]
      simp only [timerStep, hphase, Option.bind_some]
      rw [ih rfl]
      by_cases htask : (s.events event).hasTask
      · simp [htask]
      · simp [htask]

/-! ### The whole call -/

omit [DecidableEq ι] in
/-- What is due is in the order of the entries. -/
theorem due_inOrder (h : s.timer.Keyed s.events) (now : Int) :
    (s.due now).Pairwise fun p q => (s.events p.2).arriveTime ≤ (s.events q.2).arriveTime :=
  h.inOrder.sublist List.filter_sublist

omit [DecidableEq ι] in
theorem EachOnce.due (h : s.EachOnce) (now : Int) : ((s.due now).map Prod.snd).Nodup :=
  h.sublist (List.filter_sublist.map Prod.snd)

/-- Arming the timerfd again, and then running the tasks. -/
theorem after_rearm {tasks : List (Int × ι)} (hphase : s.phase = .readding [] tasks) (now : Int) :
    after timerStep s (.rearm now :: List.replicate (tasks.length + 1) .nextTask) = some
      { s with
        timer := s.timer.resetArriveTime s.events now
        phase := .idle
        started := s.started ++ (tasks.filter fun task => (s.events task.2).hasTask).map
          fun task => (task.2, (s.events task.2).isCancel) } := by
  have hrearm : timerStep s (.rearm now) = some
      { s with timer := s.timer.resetArriveTime s.events now, phase := .running tasks } := by
    simp only [timerStep, hphase]
  rw [after, hrearm]
  exact after_runTasks rfl

omit [DecidableEq ι] in
/-- The tasks started are those of the due events that have one. -/
theorem started_eq {s' : TimerRun ι} {now : Int}
    (hflags : ∀ event, (s'.events event).isCancel = (s.events event).isCancel ∧
      (s'.events event).hasTask = (s.events event).hasTask) :
    ((((s.due now).map fun entry => ((s.events entry.2).arriveTime, entry.2)).filter
        fun task => (s'.events task.2).hasTask).map
        fun task => (task.2, (s'.events task.2).isCancel)) =
      ((s.due now).filter fun entry => (s.events entry.2).hasTask).map
        fun entry => (entry.2, false) := by
  have hlive : ∀ entry ∈ s.due now, (s.events entry.2).isCancel = false := fun entry hentry =>
    (of_decide_eq_true (List.mem_filter.mp hentry).2).2
  rw [List.filter_map, List.map_map]
  simp only [Function.comp_def, hflags]
  refine List.map_congr_left fun entry hentry => ?_
  rw [hlive entry (List.mem_filter.mp hentry).1]

/-- **A call of `on_timer`** that nothing interferes with runs the tasks of the events that are due
and not cancelled, in the order of their arrival times, and leaves the later events and the
repeating ones pending, these under their new arrival times. -/
theorem on_timer_ticks (clock : Nat → Int) (hidle : s.phase = .idle)
    (hkeyed : s.timer.Keyed s.events) (honce : s.EachOnce) :
    ∃ s', after timerStep s (onTimerSteps clock (s.due (clock 0)).length) = some s' ∧
      Ticked clock s s' := by
  have hdue := EachOnce.due honce (clock 0)
  obtain ⟨s₂, hs₂, hreadded⟩ := after_readdSteps (s := s.afterCollect (clock 0)) clock 1 hdue rfl
  obtain ⟨hphase, hstarted, -, hflags, hpending, htimes⟩ := hreadded
  have hlast := after_rearm hphase (clock (2 * (s.due (clock 0)).length + 1))
  rw [List.length_map] at hs₂ hlast
  have hrun : after timerStep s (onTimerSteps clock (s.due (clock 0)).length) =
      after timerStep s₂ (.rearm (clock (2 * (s.due (clock 0)).length + 1)) ::
        List.replicate ((s.due (clock 0)).length + 1) .nextTask) := by
    rw [onTimerSteps, after, timerStep_of_idle hidle hkeyed, Option.bind_some, after_append, hs₂]
    rfl
  refine ⟨_, hrun.trans hlast, rfl, ?_, due_inOrder hkeyed _, hdue, ?_, ?_⟩
  · show s₂.started ++ _ = _
    rw [hstarted]
    exact congrArg (s.started ++ ·) (started_eq hflags)
  · show (s₂.timer.resetArriveTime s₂.events _).pending.entries.Perm _
    rw [Timer.resetArriveTime_pending, ← later_eq_after hkeyed, TimerRun.repeating]
    rw [List.filter_map, List.map_map] at hpending
    exact hpending
  · rintro entry hentry
    obtain ⟨hmem, hrepeat⟩ := List.mem_filter.mp hentry
    obtain ⟨k, hk, htime⟩ := htimes entry.2 (List.mem_map_of_mem hmem) hrepeat
    exact ⟨k, hk, htime⟩

/-- Two events that fall due together, of which the second repeats. -/
def onceAndAgain : Events Bool := fun again => TimerEvent.create 10 again true 0

/-- Both are pending. -/
def onceAndAgainPending : TimerRun Bool where
  events := onceAndAgain
  timer := (Timer.create.addTimeEvent onceAndAgain false 0).addTimeEvent onceAndAgain true 0
  phase := .idle
  started := []

theorem on_timer_ticks_onceAndAgain :
    ∃ s', after timerStep onceAndAgainPending
        (onTimerSteps (fun k => 10 + k) (onceAndAgainPending.due (10 + (0 : Nat))).length) =
          some s' ∧
      Ticked (fun k => 10 + k) onceAndAgainPending s' := by
  have hentries : onceAndAgainPending.timer.pending.entries = [(10, false), (10, true)] := by
    decide
  refine on_timer_ticks (fun k => 10 + k) rfl (fun entry hentry => ?_) ?_
  · rw [hentries] at hentry
    have hten : ∀ e, (onceAndAgain e).arriveTime = 10 := by decide
    have hkey : ∀ p ∈ [((10 : Int), false), (10, true)], p.1 = 10 := by decide
    exact (hkey entry hentry).trans (hten entry.2).symm
  · unfold TimerRun.EachOnce
    rw [hentries]
    decide

end TinyRpc
