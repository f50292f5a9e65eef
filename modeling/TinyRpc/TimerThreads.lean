/-
TinyRpc/TimerThreads.lean

Several threads in `add_time_event` of one timer.

A call puts its event in under the lock.  If it has to arm the timerfd, it then
copies the pending events, again under the lock, and arms the timerfd for the
first event of the copy after the lock has been given back.  By then the copy may
be stale: another thread may have put in an earlier event, and may even have armed
the timerfd for it.

`armedForEarliest_iff_meets` says in exactly which interleavings the timerfd is
right whenever no call is under way: those in which the last call to arm it does so
from a copy whose first event is still the earliest, and before that event arrives.
-/
import TinyRpc.TimerWakeup

namespace TinyRpc

open Runs

variable {ι θ : Type} [DecidableEq θ]

/-- Where a call of `add_time_event` stands that has to arm the timerfd. -/
inductive AddCall (ι : Type)
  /-- the event has been put in -/
  | inserted
  /-- `temp` of `reset_arrive_time` -/
  | copied (temp : Multimap Int ι)

/-- A timer, and the call that each thread is in, if any. -/
structure TimerThreads (θ ι : Type) where
  timer : Timer ι
  call : θ → Option (AddCall ι)

inductive AddStep (ι : Type)
  /-- the locked part of `add_time_event`, with an event that arrives later than now -/
  | insert (event : ι) (now : Int)
  /-- the locked part of `reset_arrive_time` -/
  | copy
  /-- the rest of it: the clock is read, and the timerfd is armed -/
  | arm (now : Int)

/-- A step of one of the threads. -/
def addStep (events : Events ι) : Step (TimerThreads θ ι) (θ × AddStep ι)
  | s, (k, .insert event now) =>
      match s.call k with
      | some _ => none
      | none =>
          if now < (events event).arriveTime then
            let call := if s.timer.isResetTimerfd events event then some .inserted else none
            some ⟨s.timer.insert events event, Function.update s.call k call⟩
          else none
  | s, (k, .copy) =>
      match s.call k with
      | some .inserted =>
          some { s with call := Function.update s.call k (some (.copied s.timer.pending)) }
      | _ => none
  | s, (k, .arm now) =>
      match s.call k with
      | some (.copied temp) =>
          let armed := ({ s.timer with pending := temp } : Timer ι).resetArriveTime events now
          some ⟨{ s.timer with armedFor := armed.armedFor }, Function.update s.call k none⟩
      | _ => none

/-- No call is under way. -/
def TimerThreads.Quiet (s : TimerThreads θ ι) : Prop := ∀ k, (s.call k).isNone

/-- When no call is under way, the timerfd is armed for no later than the earliest event. -/
def ArmedForEarliest (events : Events ι) (s : TimerThreads θ ι) : Prop :=
  s.Quiet → s.timer.pending.entries ≠ [] →
    ∃ expiry ∈ s.timer.armedFor, ∀ entry ∈ s.timer.pending.entries,
      expiry ≤ (events entry.2).arriveTime

/-- The timerfd is armed by the only call under way, if at all, from a copy whose first event
is still the earliest, and is still to come. -/
def ArmsFresh (events : Events ι) (s : TimerThreads θ ι) : θ × AddStep ι → Prop
  | (k, .arm now) =>
      ∀ temp, s.call k = some (.copied temp) → (∀ k', k' ≠ k → (s.call k').isNone) →
        ∀ first ∈ temp.entries.head?, now < (events first.2).arriveTime ∧
          ∀ entry ∈ s.timer.pending.entries,
            (events first.2).arriveTime ≤ (events entry.2).arriveTime
  | _ => True

/-- A timer before its first event. -/
def TimerThreads.start : TimerThreads θ ι := ⟨Timer.create, fun _ => none⟩

/-- `reset_arrive_time` changes the timerfd only. -/
theorem Timer.resetArriveTime_armedFor (events : Events ι) (t : Timer ι) (now : Int) :
    t.resetArriveTime events now =
      ⟨t.pending, (t.resetArriveTime events now).armedFor⟩ := by
  unfold Timer.resetArriveTime
  split <;> rfl

/-- The steps of one call. -/
def addCall (events : Events ι) (s : TimerThreads θ ι) (k : θ) (event : ι) (now : Int) :
    List (θ × AddStep ι) :=
  if s.timer.isResetTimerfd events event then
    [(k, .insert event now), (k, .copy), (k, .arm now)]
  else [(k, .insert event now)]

/-- A call that nobody interrupts is `add_time_event` of one thread. -/
theorem after_addCall {events : Events ι} {s : TimerThreads θ ι} {k : θ} {event : ι} {now : Int}
    (hcall : s.call k = none) (hfuture : now < (events event).arriveTime) :
    after (addStep events) s (addCall events s k event now) =
      some ⟨s.timer.addTimeEvent events event now, Function.update s.call k none⟩ := by
  rw [Timer.addTimeEvent, addCall]
  rcases hreset : s.timer.isResetTimerfd events event with - | -
  · simp [after, addStep, hcall, hfuture, hreset]
  · rw [Timer.resetArriveTime_armedFor]
    simp [after, addStep, hcall, hfuture, hreset]

/-! ### What holds in every interleaving -/

/-- A call that has to arm the timerfd finds an event to arm it for. -/
def AddCall.Founded (t : Timer ι) : AddCall ι → Prop
  | .inserted => t.pending.entries ≠ []
  | .copied temp => temp.entries ≠ [] ∧ ∀ entry ∈ temp.entries, entry ∈ t.pending.entries

structure AddInvariant (events : Events ι) (s : TimerThreads θ ι) : Prop where
  keyed : s.timer.Keyed events
  founded : ∀ k, ∀ call ∈ s.call k, call.Founded s.timer
  armed : ArmedForEarliest events s

theorem AddCall.Founded.mono {t t' : Timer ι} {call : AddCall ι} (h : call.Founded t)
    (hsub : ∀ entry ∈ t.pending.entries, entry ∈ t'.pending.entries) : call.Founded t' := by
  cases call with
  | inserted =>
      obtain ⟨entry, hentry⟩ := List.exists_mem_of_ne_nil _ h
      exact List.ne_nil_of_mem (hsub entry hentry)
  | copied temp => exact ⟨h.1, fun entry hentry => hsub entry (h.2 entry hentry)⟩

/-- One thread moves on, and the others stay where they are. -/
theorem founded_update {s : TimerThreads θ ι} {t : Timer ι} {k : θ} {next : Option (AddCall ι)}
    (h : ∀ k, ∀ call ∈ s.call k, call.Founded s.timer)
    (hsub : ∀ entry ∈ s.timer.pending.entries, entry ∈ t.pending.entries)
    (hnext : ∀ call ∈ next, call.Founded t) :
    ∀ k', ∀ call ∈ Function.update s.call k next k', call.Founded t :=
  (Function.forall_update_iff s.call fun _ next => ∀ call ∈ next, AddCall.Founded t call).mpr
    ⟨hnext, fun k' _ call hcall => (h k' call hcall).mono hsub⟩

section Steps

variable {events : Events ι} {s s' : TimerThreads θ ι} {k : θ} {now : Int}

theorem addStep_insert {event : ι} (hs : s' ∈ addStep events s (k, .insert event now)) :
    s.call k = none ∧
      s' = ⟨s.timer.insert events event, Function.update s.call k
        (if s.timer.isResetTimerfd events event then some .inserted else none)⟩ := by
  rw [addStep] at hs
  split at hs
  · cases hs
  · rename_i hcall
    exact ⟨hcall, (Option.some.inj (Option.mem_ite_none_right.mp hs).2).symm⟩

theorem addStep_copy (hs : s' ∈ addStep events s (k, .copy)) :
    s.call k = some .inserted ∧
      s' = { s with call := Function.update s.call k (some (.copied s.timer.pending)) } := by
  rw [addStep] at hs
  split at hs
  · rename_i hcall
    exact ⟨hcall, (Option.some.inj hs).symm⟩
  · cases hs

theorem addStep_arm (hs : s' ∈ addStep events s (k, .arm now)) :
    ∃ temp, s.call k = some (.copied temp) ∧
      s' = ⟨{ s.timer with
        armedFor :=
          (({ s.timer with pending := temp } : Timer ι).resetArriveTime events now).armedFor },
        Function.update s.call k none⟩ := by
  rw [addStep] at hs
  split at hs
  · rename_i temp hcall
    exact ⟨temp, hcall, (Option.some.inj hs).symm⟩
  · cases hs

/-- No call is under way after a step of `k` if `k` is out of its call and nobody else is in
one. -/
theorem quiet_update {t : Timer ι} {next : Option (AddCall ι)} :
    (⟨t, Function.update s.call k next⟩ : TimerThreads θ ι).Quiet ↔
      next.isNone ∧ ∀ k', k' ≠ k → (s.call k').isNone :=
  Function.forall_update_iff s.call fun _ (call : Option (AddCall ι)) => call.isNone = true

/-- Arming from a copy is arming for the first event of it. -/
theorem armed_of_copy {t : Timer ι} {temp : Multimap Int ι} {first : Int × ι}
    (hfirst : first ∈ temp.entries.head?) :
    (({ t with pending := temp } : Timer ι).resetArriveTime events now).armedFor =
      some (now + Timer.interval (events first.2) now) := by
  obtain ⟨rest, hentries⟩ := List.head?_eq_some_iff.mp hfirst
  rw [Timer.resetArriveTime_of_cons hentries]

end Steps

omit [DecidableEq θ] in
/-- An event that is put in without arming is not earlier than the first. -/
theorem ArmedForEarliest.insert {events : Events ι} {s : TimerThreads θ ι}
    (h : ArmedForEarliest events s) (hquiet : s.Quiet) {event : ι}
    (hev : s.timer.isResetTimerfd events event = false) :
    ∃ expiry ∈ (s.timer.insert events event).armedFor,
      ∀ entry ∈ (s.timer.insert events event).pending.entries,
        expiry ≤ (events entry.2).arriveTime := by
  obtain ⟨first, hfirst, hle⟩ := Timer.isResetTimerfd_eq_false hev
  obtain ⟨expiry, hexpiry, hall⟩ := h hquiet (List.ne_nil_of_mem hfirst)
  refine ⟨expiry, hexpiry, fun entry hentry => ?_⟩
  rcases Multimap.mem_insertEntry.mp hentry with rfl | hold
  · exact (hall first hfirst).trans hle
  · exact hall entry hold

theorem AddInvariant.step (events : Events ι) (s : TimerThreads θ ι) (event : θ × AddStep ι)
    (s' : TimerThreads θ ι) (h : AddInvariant events s) (hc : ArmsFresh events s event)
    (hs : s' ∈ addStep events s event) : AddInvariant events s' := by
  obtain ⟨k, step⟩ := event
  cases step with
  | insert event now =>
      obtain ⟨hcall, rfl⟩ := addStep_insert hs
      have hsub : ∀ entry ∈ s.timer.pending.entries,
          entry ∈ (s.timer.insert events event).pending.entries :=
        fun entry hentry => Multimap.mem_insertEntry.mpr (Or.inr hentry)
      have hmem : ((events event).arriveTime, event) ∈
          (s.timer.insert events event).pending.entries :=
        Multimap.mem_insertEntry.mpr (Or.inl rfl)
      refine ⟨h.keyed.insert event, founded_update h.founded hsub fun call hnext => ?_,
        fun hquiet _ => ?_⟩
      · obtain ⟨-, heq⟩ := Option.mem_ite_none_right.mp hnext
        obtain rfl := Option.some.inj heq
        exact List.ne_nil_of_mem hmem
      · obtain ⟨hnone, hothers⟩ := quiet_update.mp hquiet
        rcases hreset : s.timer.isResetTimerfd events event with - | -
        · refine h.armed.insert (fun k' => ?_) hreset
          by_cases heq : k' = k
          · subst heq
            rw [hcall]
            rfl
          · exact hothers k' heq
        · rw [hreset] at hnone
          cases hnone
  | copy =>
      obtain ⟨hcall, rfl⟩ := addStep_copy hs
      refine ⟨h.keyed, founded_update h.founded (fun _ hentry => hentry) fun call hnext => ?_,
        fun hquiet => ?_⟩
      · obtain rfl := Option.some.inj hnext
        exact ⟨h.founded k _ hcall, fun _ hentry => hentry⟩
      · cases (quiet_update.mp hquiet).1
  | arm now =>
      obtain ⟨temp, hcall, rfl⟩ := addStep_arm hs
      refine ⟨h.keyed, founded_update h.founded (fun _ hentry => hentry) fun call hnext =>
        absurd hnext (Option.not_mem_none _), fun hquiet _ => ?_⟩
      obtain ⟨first, hfirst⟩ :=
        Option.isSome_iff_exists.mp (List.isSome_head?.mpr (h.founded k _ hcall).1)
      obtain ⟨hfuture, hearliest⟩ := hc temp hcall (quiet_update.mp hquiet).2 first hfirst
      refine ⟨_, armed_of_copy hfirst, fun entry hentry => ?_⟩
      rw [Timer.interval, if_pos hfuture]
      have hle := hearliest entry hentry
      omega

/-- A timerfd that is right after the last call was armed from a fresh copy. -/
theorem AddInvariant.armsFresh (events : Events ι) (s : TimerThreads θ ι)
    (event : θ × AddStep ι) (s' : TimerThreads θ ι) (h : AddInvariant events s)
    (hs : s' ∈ addStep events s event) (h' : ArmedForEarliest events s') :
    ArmsFresh events s event := by
  obtain ⟨k, step⟩ := event
  cases step with
  | insert event now => trivial
  | copy => trivial
  | arm now =>
      intro temp hcall hothers first hfirst
      obtain ⟨temp', hcall', rfl⟩ := addStep_arm hs
      obtain rfl : temp = temp' := by
        rw [hcall] at hcall'
        exact AddCall.copied.inj (Option.some.inj hcall')
      have hpending : first ∈ s.timer.pending.entries :=
        (h.founded k _ hcall).2 first (List.mem_of_mem_head? hfirst)
      obtain ⟨expiry, hexpiry, hall⟩ :=
        h' (quiet_update.mpr ⟨rfl, hothers⟩) (List.ne_nil_of_mem hpending)
      obtain rfl := Option.some.inj ((armed_of_copy hfirst).symm.trans hexpiry)
      -- the event of the copy is pending, so the timerfd is not armed for a later time
      have hself : now + Timer.interval (events first.2) now ≤ (events first.2).arriveTime :=
        hall first hpending
      have hfuture : now < (events first.2).arriveTime := by
        have hpos := Timer.interval_pos (events first.2) now
        omega
      refine ⟨hfuture, fun entry hentry => ?_⟩
      have hle : now + Timer.interval (events first.2) now ≤ (events entry.2).arriveTime :=
        hall entry hentry
      rw [Timer.interval, if_pos hfuture] at hle
      omega

omit [DecidableEq θ] in
theorem AddInvariant.start (events : Events ι) :
    AddInvariant events (TimerThreads.start : TimerThreads θ ι) where
  keyed := fun _ hentry => absurd hentry List.not_mem_nil
  founded := fun _ _ hcall => absurd hcall (Option.not_mem_none _)
  armed := fun _ hne => absurd rfl hne

/-- **The timerfd is armed for the earliest event** whenever no call is under way, if and only
if every call that is the last to arm it does so from a fresh copy. -/
theorem armedForEarliest_iff_meets (events : Events ι) (steps : List (θ × AddStep ι)) :
    Always (addStep events) (ArmedForEarliest events) TimerThreads.start steps ↔
      Meets (addStep events) (ArmsFresh events) TimerThreads.start steps :=
  always_iff_meets (fun _ h => h.armed) (AddInvariant.step events) (AddInvariant.armsFresh events)
    (AddInvariant.start events)

/-! ### A stale copy -/

instance (events : Events ι) : DecidablePred (@ArmedForEarliest ι Bool events) := fun s =>
  inferInstanceAs (Decidable ((∀ k : Bool, (s.call k).isNone) → s.timer.pending.entries ≠ [] →
    ∃ expiry ∈ s.timer.armedFor, ∀ entry ∈ s.timer.pending.entries,
      expiry ≤ (events entry.2).arriveTime))

/-- The event `true` is the earlier one. -/
def tenAndTwenty : Events Bool := fun early =>
  TimerEvent.create (if early then 10 else 20) false true 0

/-- The first thread copies the events before the second one puts its own in, and arms the
timerfd after it. -/
def staleCopy : List (Bool × AddStep Bool) :=
  [(false, .insert false 0), (false, .copy), (true, .insert true 0), (true, .copy),
    (true, .arm 0), (false, .arm 0)]

/-- The timerfd is armed for 20, and an event is due at 10. -/
theorem not_armedForEarliest_stale :
    ¬ Always (addStep tenAndTwenty) (ArmedForEarliest tenAndTwenty) TimerThreads.start
      staleCopy := by
  decide +kernel

end TinyRpc
