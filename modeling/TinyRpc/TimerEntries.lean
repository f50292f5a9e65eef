/-
TinyRpc/TimerEntries.lean

What becomes of the events that are added to a timer.

Every call of `add_time_event` makes one entry, and so does `on_timer` for a repeating event that
it has collected.  An entry is pending until it is deleted or `on_timer` takes it out; then it
is dropped if its event is cancelled, and otherwise its task is collected and later called.
`timer_eachOnce` says that there is no other way: no entry is lost, and none is used twice.

For the users of a timer there are two consequences.  The callback of an event that does not
repeat is called at most as often as the event has been added, `once_per_add`.  A repeating event
stays with the timer until it is cancelled or deleted, `repeating_stays`.
-/
import TinyRpc.Base.Fifo
import TinyRpc.TimerKeys

namespace TinyRpc

open Runs Fifo

variable {ι : Type} [DecidableEq ι]

namespace TimerRun

/-- The events with an entry, once for each. -/
def pendingEvents (s : TimerRun ι) : List ι := s.timer.pending.entries.map Prod.snd

/-- The events collected that are still to be added again, if they repeat. -/
def temp (s : TimerRun ι) : List ι :=
  match s.phase with
  | .readding temp _ => temp
  | _ => []

/-- The entries that `on_timer` drops as it collects. -/
def dropped (s : TimerRun ι) (now : Int) : List (Int × ι) :=
  (s.timer.pending.upTo now).filter fun entry => (s.events entry.2).isCancel

/-- The event that is added again. -/
def readded (s : TimerRun ι) : List ι :=
  (s.temp.take 1).filter fun event => (s.events event).isRepeat

end TimerRun

/-- An entry is held while it is pending, and while its task waits for its call. -/
def timerPorts : Ports (TimerRun ι) (TimerStep ι) ι where
  holds s := s.pendingEvents ++ s.collected
  puts
    | _, .addTimeEvent event _ => [event]
    | s, .readd _ _ => s.readded
    | _, _ => []
  takes
    | s, .deleteTimeEvent event =>
        if ((s.events event).arriveTime, event) ∈ s.timer.pending.entries then [event] else []
    | s, .collect now => (s.dropped now).map Prod.snd
    | s, .nextTask => s.collected.take 1
    | _, _ => []

/-! ### Every step keeps the entries -/

section Entries

variable {s s' : TimerRun ι} {step : TimerStep ι}

omit [DecidableEq ι] in
/-- One more entry. -/
theorem perm_addTimeEvent (events : Events ι) (t : Timer ι) (event : ι) (now : Int) :
    ((t.addTimeEvent events event now).pending.entries.map Prod.snd).Perm
      (event :: t.pending.entries.map Prod.snd) := by
  rw [Timer.addTimeEvent_pending]
  exact (Multimap.perm_insertEntry _ event t.pending.entries).map Prod.snd

omit [DecidableEq ι] in
/-- `on_timer` takes out the entries up to now, which it drops or collects. -/
theorem perm_collect (s : TimerRun ι) (now : Int) :
    s.pendingEvents.Perm
      ((s.dropped now).map Prod.snd ++
        ((s.timer.pending.after now).entries.map Prod.snd ++
          ((s.timer.pending.upTo now).filter fun entry =>
            !(s.events entry.2).isCancel).map Prod.snd)) := by
  have hsplit : s.timer.pending.entries =
      s.timer.pending.upTo now ++ (s.timer.pending.after now).entries :=
    (List.takeWhile_append_dropWhile (p := fun entry : Int × ι => decide (entry.1 ≤ now))).symm
  have hcut : ((s.timer.pending.upTo now).map Prod.snd).Perm
      ((s.dropped now).map Prod.snd ++
        ((s.timer.pending.upTo now).filter fun entry =>
          !(s.events entry.2).isCancel).map Prod.snd) := by
    rw [← List.map_append]
    exact (List.filter_append_perm
      (fun entry : Int × ι => (s.events entry.2).isCancel) _).symm.map _
  rw [TimerRun.pendingEvents, hsplit, List.map_append]
  refine (hcut.append_right _).trans ?_
  rw [List.append_assoc]
  exact List.perm_append_comm.append_left _

theorem perm_delete (events : Events ι) (t : Timer ι) (event : ι) :
    (t.pending.entries.map Prod.snd).Perm
      ((if ((events event).arriveTime, event) ∈ t.pending.entries then [event] else []) ++
        (t.pending.erase (events event).arriveTime event).entries.map Prod.snd) := by
  show (t.pending.entries.map Prod.snd).Perm (_ ++ (t.pending.entries.erase _).map Prod.snd)
  split
  · rename_i hmem
    exact (List.perm_cons_erase hmem).map Prod.snd
  · rename_i hmem
    rw [List.erase_of_not_mem hmem]
    exact List.Perm.refl _

theorem keeps_timerStep (s : TimerRun ι) (step : TimerStep ι) (s' : TimerRun ι)
    (hs : s' ∈ timerStep s step) :
    (timerPorts.holds s ++ timerPorts.puts s step).Perm
      (timerPorts.takes s step ++ timerPorts.holds s') := by
  cases step with
  | addTimeEvent event now =>
      obtain rfl := Option.some.inj hs
      show (s.pendingEvents ++ s.collected ++ [event]).Perm
        ((s.timer.addTimeEvent s.events event now).pending.entries.map Prod.snd ++ s.collected)
      refine List.perm_append_comm.trans ?_
      exact ((perm_addTimeEvent s.events s.timer event now).symm).append_right s.collected
  | setCancel event value =>
      obtain rfl := Option.some.inj hs
      show (s.pendingEvents ++ s.collected ++ []).Perm (s.pendingEvents ++ s.collected)
      rw [List.append_nil]
  | deleteTimeEvent event =>
      obtain rfl := Option.some.inj hs
      show (s.pendingEvents ++ s.collected ++ []).Perm
        ((if _ then [event] else []) ++
          ((s.timer.pending.erase _ event).entries.map Prod.snd ++ s.collected))
      rw [List.append_nil, ← List.append_assoc]
      exact (perm_delete s.events s.timer event).append_right s.collected
  | collect now =>
      obtain ⟨hphase, rfl⟩ := timerStep_collect hs
      have hnone : s.collected = [] := by rw [TimerRun.collected, hphase]
      show (s.pendingEvents ++ s.collected ++ []).Perm
        ((s.dropped now).map Prod.snd ++
          ((s.timer.pending.after now).entries.map Prod.snd ++ (List.map _ _).map Prod.snd))
      rw [hnone, List.append_nil, List.append_nil, List.map_map]
      exact perm_collect s now
  | readd resetNow addNow =>
      obtain ⟨event, temp, tasks, hphase, rfl⟩ := timerStep_readd hs
      have htemp : s.temp = event :: temp := by rw [TimerRun.temp, hphase]
      have hcollected : s.collected = tasks.map Prod.snd := by rw [TimerRun.collected, hphase]
      show (s.pendingEvents ++ s.collected ++ s.readded).Perm
        ((s.timer.readd s.events event resetNow addNow).2.pending.entries.map Prod.snd ++
          tasks.map Prod.snd)
      rw [TimerRun.readded, htemp, hcollected]
      by_cases hrepeat : (s.events event).isRepeat = true
      · rw [Timer.readd_of_repeat hrepeat, List.take_succ_cons, List.take_zero,
          List.filter_singleton, hrepeat, cond_true]
        refine List.perm_append_comm.trans ?_
        exact ((perm_addTimeEvent _ s.timer event addNow).symm).append_right (tasks.map Prod.snd)
      · rw [Timer.readd_of_once (Bool.eq_false_iff.mpr hrepeat), List.take_succ_cons,
          List.take_zero, List.filter_singleton, Bool.eq_false_iff.mpr hrepeat, cond_false,
          List.append_nil]
        exact List.Perm.refl _
  | rearm now =>
      obtain ⟨tasks, hphase, rfl⟩ := timerStep_rearm hs
      have hcollected : s.collected = tasks.map Prod.snd := by rw [TimerRun.collected, hphase]
      show (s.pendingEvents ++ s.collected ++ []).Perm
        ((s.timer.resetArriveTime s.events now).pending.entries.map Prod.snd ++
          tasks.map Prod.snd)
      rw [Timer.resetArriveTime_pending, hcollected, List.append_nil]
      exact List.Perm.refl _
  | nextTask =>
      rw [timerStep] at hs
      split at hs
      · rename_i hphase
        obtain rfl := Option.some.inj hs
        have hnone : s.collected = [] := by rw [TimerRun.collected, hphase]; rfl
        show (s.pendingEvents ++ s.collected ++ []).Perm (s.collected.take 1 ++ (_ ++ []))
        rw [hnone, List.append_nil]
        exact List.Perm.refl _
      · rename_i time event tasks hphase
        obtain rfl := Option.some.inj hs
        have hcollected : s.collected = event :: tasks.map Prod.snd := by
          rw [TimerRun.collected, hphase]
          rfl
        show (s.pendingEvents ++ s.collected ++ []).Perm
          (s.collected.take 1 ++ (s.pendingEvents ++ tasks.map Prod.snd))
        rw [hcollected, List.append_nil, List.take_succ_cons, List.take_zero]
        exact List.perm_middle
      · cases hs

/-! ### What a step does to an event and to the calls -/

/-- An event keeps repeating or not, and only those who cancel or delete it change its flag. -/
theorem event_timerStep (hs : s' ∈ timerStep s step) (e : ι) :
    (s'.events e).isRepeat = (s.events e).isRepeat ∧
      ((s'.events e).isCancel = (s.events e).isCancel ∨
        step = .setCancel e (s'.events e).isCancel ∨ step = .deleteTimeEvent e) := by
  cases step with
  | addTimeEvent event now =>
      obtain rfl := Option.some.inj hs
      exact ⟨rfl, .inl rfl⟩
  | setCancel event value =>
      obtain rfl := Option.some.inj hs
      dsimp only
      by_cases he : e = event
      · subst he
        rw [Function.update_self]
        exact ⟨rfl, .inr (.inl rfl)⟩
      · rw [Function.update_of_ne he]
        exact ⟨rfl, .inl rfl⟩
  | deleteTimeEvent event =>
      obtain rfl := Option.some.inj hs
      dsimp only [Timer.deleteTimeEvent]
      by_cases he : e = event
      · subst he
        rw [Function.update_self]
        exact ⟨rfl, .inr (.inr rfl)⟩
      · rw [Function.update_of_ne he]
        exact ⟨rfl, .inl rfl⟩
  | collect now =>
      obtain ⟨-, rfl⟩ := timerStep_collect hs
      exact ⟨rfl, .inl rfl⟩
  | readd resetNow addNow =>
      obtain ⟨event, temp, tasks, hphase, rfl⟩ := timerStep_readd hs
      refine ⟨?_, .inl Timer.readd_flags.1⟩
      show ((s.timer.readd s.events event resetNow addNow).1 e).isRepeat = _
      unfold Timer.readd
      split
      · dsimp only
        by_cases he : e = event
        · subst he
          rw [Function.update_self]
          rfl
        · rw [Function.update_of_ne he]
      · rfl
  | rearm now =>
      obtain ⟨tasks, hphase, rfl⟩ := timerStep_rearm hs
      exact ⟨rfl, .inl rfl⟩
  | nextTask =>
      obtain ⟨hevents, -⟩ := timerStep_nextTask hs
      rw [hevents]
      exact ⟨rfl, .inl rfl⟩

/-- A callback that starts is that of an entry taken out. -/
theorem started_timerStep (hs : s' ∈ timerStep s step) :
    ∃ new, s'.started = s.started ++ new ∧
      (new.map Prod.fst).Sublist (timerPorts.takes s step) := by
  have hsame : s'.started = s.started → ∃ new, s'.started = s.started ++ new ∧
      (new.map Prod.fst).Sublist (timerPorts.takes s step) :=
    fun heq => ⟨[], heq.trans (List.append_nil _).symm, List.nil_sublist _⟩
  cases step with
  | addTimeEvent event now =>
      obtain rfl := Option.some.inj hs
      exact hsame rfl
  | setCancel event value =>
      obtain rfl := Option.some.inj hs
      exact hsame rfl
  | deleteTimeEvent event =>
      obtain rfl := Option.some.inj hs
      exact hsame rfl
  | collect now =>
      obtain ⟨-, rfl⟩ := timerStep_collect hs
      exact hsame rfl
  | readd resetNow addNow =>
      obtain ⟨event, temp, tasks, hphase, rfl⟩ := timerStep_readd hs
      exact hsame rfl
  | rearm now =>
      obtain ⟨tasks, hphase, rfl⟩ := timerStep_rearm hs
      exact hsame rfl
  | nextTask =>
      rw [timerStep] at hs
      split at hs
      · obtain rfl := Option.some.inj hs
        exact hsame rfl
      · rename_i time event tasks hphase
        obtain rfl := Option.some.inj hs
        refine ⟨_, rfl, ?_⟩
        have htakes : timerPorts.takes s .nextTask = [event] := by
          show s.collected.take 1 = _
          rw [TimerRun.collected, hphase]
          rfl
        rw [htakes]
        split
        · exact List.Sublist.refl _
        · exact List.nil_sublist _
      · cases hs

end Entries

/-- **Every entry is used once**: what has been added, by the users and by `on_timer`, is, in some
order, what is pending, what has been collected and waits for its call, what has been called, and
what has been dropped or deleted, in every run. -/
theorem timer_eachOnce (events : Events ι) (steps : List (TimerStep ι)) :
    Always (timerPorts.loggedStep timerStep) timerPorts.EachOnce
      ⟨TimerRun.start events, [], []⟩ steps := by
  have hstart : timerPorts.EachOnce ⟨TimerRun.start events, [], []⟩ := List.Perm.refl _
  exact Ports.always_eachOnce keeps_timerStep hstart steps

/-! ### Events that do not repeat -/

/-- How many of the steps are calls of `add_time_event` for the event. -/
def addCalls (e : ι) (steps : List (TimerStep ι)) : Nat :=
  steps.countP fun
    | .addTimeEvent event _ => event = e
    | _ => false

/-- How often the callback of the event has been called, and how many entries it has. -/
def TimerRun.uses (s : TimerRun ι) (e : ι) : Nat :=
  (s.started.map Prod.fst).count e + (timerPorts.holds s).count e

/-- For an event that does not repeat, only `add_time_event` makes entries. -/
theorem count_puts {s : TimerRun ι} {e : ι} (honce : (s.events e).isRepeat = false)
    (step : TimerStep ι) : (timerPorts.puts s step).count e = addCalls e [step] := by
  cases step with
  | addTimeEvent event now =>
      simp [timerPorts, addCalls, List.count_singleton, List.countP_singleton]
  | readd resetNow addNow =>
      show s.readded.count e = 0
      refine List.count_eq_zero.mpr fun hmem => ?_
      have hrepeat := (List.mem_filter.mp hmem).2
      rw [honce] at hrepeat
      cases hrepeat
  | _ => rfl

theorem uses_timerStep {s s' : TimerRun ι} {step : TimerStep ι} {e : ι}
    (honce : (s.events e).isRepeat = false) (hs : s' ∈ timerStep s step) :
    s'.uses e ≤ s.uses e + addCalls e [step] := by
  obtain ⟨new, hstarted, hnew⟩ := started_timerStep hs
  have hkeeps := (keeps_timerStep s step s' hs).count_eq e
  have hle := hnew.count_le e
  rw [List.count_append, List.count_append, count_puts honce] at hkeeps
  rw [TimerRun.uses, TimerRun.uses, hstarted, List.map_append, List.count_append]
  omega

theorem uses_after {s s' : TimerRun ι} {steps : List (TimerStep ι)} {e : ι}
    (honce : (s.events e).isRepeat = false) (hs : after timerStep s steps = some s') :
    s'.uses e ≤ s.uses e + addCalls e steps := by
  induction steps generalizing s with
  | nil =>
      obtain rfl := Option.some.inj hs
      exact Nat.le_refl _
  | cons step steps ih =>
      obtain ⟨s₁, hs₁, hrest⟩ := Option.bind_eq_some_iff.mp hs
      have honce₁ : (s₁.events e).isRepeat = false := (event_timerStep hs₁ e).1.trans honce
      have hadds : addCalls e ([step] ++ steps) = addCalls e [step] + addCalls e steps :=
        List.countP_append
      calc s'.uses e ≤ s₁.uses e + addCalls e steps := ih honce₁ hrest
        _ ≤ s.uses e + addCalls e [step] + addCalls e steps :=
            Nat.add_le_add_right (uses_timerStep honce hs₁) _
        _ = s.uses e + addCalls e ([step] ++ steps) := by rw [hadds, Nat.add_assoc]

/-- **The callback of an event that does not repeat is called at most once for each time that it
has been added**, whoever cancels it, deletes it or adds it again in between: its calls, and its
entries that wait for theirs, are not more than the calls of `add_time_event`. -/
theorem once_per_add {events : Events ι} {e : ι} (honce : (events e).isRepeat = false)
    {steps : List (TimerStep ι)} {s : TimerRun ι}
    (hs : after timerStep (TimerRun.start events) steps = some s) :
    (s.started.map Prod.fst).count e + (timerPorts.holds s).count e ≤ addCalls e steps := by
  have huses := uses_after honce hs
  rwa [show (TimerRun.start events).uses e = 0 from rfl, Nat.zero_add] at huses

/-- Two additions of an event, of which one has been called, and one is still pending. -/
def addedTwice : List (TimerStep Bool) :=
  [.addTimeEvent true 0, .collect 10, .readd 0 0, .rearm 10, .nextTask, .addTimeEvent true 11]

theorem once_per_add_addedTwice :
    ∃ s, after timerStep (TimerRun.start dueTogether) addedTwice = some s ∧
      (s.started.map Prod.fst).count true + (timerPorts.holds s).count true ≤
        addCalls true addedTwice := by
  obtain ⟨s, hs⟩ : ∃ s, after timerStep (TimerRun.start dueTogether) addedTwice = some s := ⟨_, rfl⟩
  exact ⟨s, hs, once_per_add rfl hs⟩

/-! ### Events that repeat -/

/-- Nobody cancels or deletes the event. -/
def LeavesAlone (e : ι) (step : TimerStep ι) : Prop :=
  step ≠ .setCancel e true ∧ step ≠ .deleteTimeEvent e

/-- A repeating event that is not cancelled is pending, or about to be added again. -/
structure Recurs (e : ι) (s : TimerRun ι) : Prop where
  repeats : (s.events e).isRepeat = true
  live : (s.events e).isCancel = false
  there : s.timer.Pends e ∨ e ∈ s.temp

omit [DecidableEq ι] in
/-- An entry that `on_timer` leaves, or takes out to collect it. -/
theorem Timer.Pends.collect {events : Events ι} {t : Timer ι} {e : ι} (h : t.Pends e)
    (hlive : (events e).isCancel = false) (now : Int) :
    (t.collect events now).2.2.Pends e ∨ e ∈ (t.collect events now).1 := by
  obtain ⟨entry, hmem, rfl⟩ := h
  have hsplit : entry ∈ t.pending.upTo now ++ (t.pending.after now).entries := by
    rwa [show t.pending.upTo now ++ (t.pending.after now).entries = t.pending.entries from
      List.takeWhile_append_dropWhile]
  rcases List.mem_append.mp hsplit with hdue | hlater
  · right
    refine List.mem_map.mpr ⟨entry, List.mem_filter.mpr ⟨hdue, ?_⟩, rfl⟩
    rw [hlive]
    rfl
  · exact .inl ⟨entry, hlater, rfl⟩

omit [DecidableEq ι] in
theorem Recurs.pends {e : ι} {s : TimerRun ι} (h : Recurs e s) (htemp : s.temp = []) :
    s.timer.Pends e :=
  h.there.resolve_right fun hmem => List.not_mem_nil (htemp ▸ hmem)

theorem Recurs.step {e : ι} (s : TimerRun ι) (step : TimerStep ι) (s' : TimerRun ι)
    (h : Recurs e s) (hc : LeavesAlone e step) (hs : s' ∈ timerStep s step) : Recurs e s' := by
  obtain ⟨hrepeat, hflag⟩ := event_timerStep hs e
  refine ⟨hrepeat.trans h.repeats, ?_, ?_⟩
  · rcases hflag with hsame | hcancel | hdelete
    · exact hsame.trans h.live
    · refine Bool.eq_false_iff.mpr fun htrue => hc.1 ?_
      rwa [htrue] at hcancel
    · exact absurd hdelete hc.2
  · cases step with
    | addTimeEvent event now =>
        obtain rfl := Option.some.inj hs
        refine h.there.imp_left ?_
        rintro ⟨entry, hmem, hentry⟩
        exact ⟨entry, Timer.mem_addTimeEvent.mpr (.inr hmem), hentry⟩
    | setCancel event value =>
        obtain rfl := Option.some.inj hs
        exact h.there
    | deleteTimeEvent event =>
        obtain rfl := Option.some.inj hs
        refine h.there.imp_left ?_
        rintro ⟨entry, hmem, rfl⟩
        have hne : entry ≠ ((s.events event).arriveTime, event) := by
          rintro rfl
          exact hc.2 rfl
        exact ⟨entry, (List.mem_erase_of_ne hne).mpr hmem, rfl⟩
    | collect now =>
        obtain ⟨hphase, rfl⟩ := timerStep_collect hs
        have hpends := h.pends (by rw [TimerRun.temp, hphase])
        exact hpends.collect h.live now
    | readd resetNow addNow =>
        obtain ⟨event, temp, tasks, hphase, rfl⟩ := timerStep_readd hs
        have htemp : s.temp = event :: temp := by rw [TimerRun.temp, hphase]
        have hkept : s.timer.Pends e →
            (s.timer.readd s.events event resetNow addNow).2.Pends e := by
          rintro ⟨entry, hmem, hentry⟩
          unfold Timer.readd
          split
          · exact ⟨entry, Timer.mem_addTimeEvent.mpr (.inr hmem), hentry⟩
          · exact ⟨entry, hmem, hentry⟩
        rcases h.there with hpends | hmem
        · exact .inl (hkept hpends)
        · rw [htemp] at hmem
          rcases List.mem_cons.mp hmem with rfl | hlater
          · left
            show (s.timer.readd s.events e resetNow addNow).2.Pends e
            rw [Timer.readd_of_repeat h.repeats]
            exact ⟨_, Timer.mem_addTimeEvent.mpr (.inl rfl), rfl⟩
          · exact .inr hlater
    | rearm now =>
        obtain ⟨tasks, hphase, rfl⟩ := timerStep_rearm hs
        have hpends := h.pends (by rw [TimerRun.temp, hphase])
        left
        show (s.timer.resetArriveTime s.events now).Pends e
        rwa [Timer.Pends, Timer.resetArriveTime_pending]
    | nextTask =>
        obtain ⟨-, htimer, ⟨tasks, hphase⟩, -⟩ := timerStep_nextTask hs
        have hpends := h.pends (by rw [TimerRun.temp, hphase])
        left
        rwa [htimer]

/-- **A repeating event stays with the timer** until somebody cancels or deletes it: whatever else
happens in between, it is pending, or `on_timer` has just collected it and is going to add it
again. -/
theorem repeating_stays {s : TimerRun ι} {e : ι} (hs : Recurs e s) (steps : List (TimerStep ι))
    (h : Meets timerStep (fun _ step => LeavesAlone e step) s steps) :
    Always timerStep (Recurs e) s steps :=
  always_of_meets (fun _ h => h) Recurs.step hs h

/-- An event that has been added, and arrives every 10 ms. -/
def everyTenPending : TimerRun Unit :=
  { TimerRun.start everyTen with timer := Timer.create.addTimeEvent everyTen () 0 }

theorem repeating_stays_everyTen :
    Always timerStep (Recurs ()) everyTenPending [.collect 10, .readd 10 10, .rearm 10] :=
  repeating_stays ⟨rfl, rfl, .inl ⟨(10, ()), List.mem_singleton_self _, rfl⟩⟩ _
    fun _ _ => ⟨⟨nofun, nofun⟩, fun _ _ => ⟨⟨nofun, nofun⟩, fun _ _ => ⟨⟨nofun, nofun⟩, trivial⟩⟩⟩

end TinyRpc
