/-
TinyRpc/EventLoop.lean

The event loop and the threads that hand it work: `loop` on its own thread, and
`add_task(task, true)` and `stop()` on any number of others.

A step is a locked section up to the next step inside it, a read or a write of
the wake-up eventfd, a look at the stop flag, or a return of `epoll_wait`.  A
thread that posts a task holds the lock from its push to its write, so at most
one is between the two; of the threads in `stop` only their number matters.

The eventfd is not emptied when `epoll_wait` reports it but by a task, which runs
after the next swap of the queue.  What is posted in between is announced by a
write that this task swallows: `no_lost_wakeup` says that this is the only way to
lose a wake-up, and `blocks_after_drain` that it does lose one.
-/
import TinyRpc.Base.Runs

namespace TinyRpc

open Runs

/-- A task of the queue: one posted with a wake-up, a handler of an fd or another task of
the loop's own thread, or the handler of the wake-up eventfd. -/
inductive Task (τ : Type)
  | posted (task : τ)
  | handler (task : τ)
  | drain
  deriving DecidableEq

namespace Task

variable {τ : Type}

def IsPosted : Task τ → Prop
  | .posted _ => True
  | _ => False

instance : DecidablePred (@IsPosted τ)
  | .posted _ => inferInstanceAs (Decidable True)
  | .handler _ => inferInstanceAs (Decidable False)
  | .drain => inferInstanceAs (Decidable False)

end Task

/-- Where the loop's thread is. -/
inductive LoopPhase (τ : Type)
  /-- at the condition of the `while` -/
  | check
  /-- before the locked swap -/
  | swapping
  /-- in the tasks swapped out, with those that are left -/
  | running (tempTasks : List (Task τ))
  /-- in the handler of the eventfd, with the tasks that are left -/
  | draining (tempTasks : List (Task τ))
  /-- in `epoll_wait` -/
  | waiting
  /-- adding the handlers of the events reported, with those that are left -/
  | queueing (handlers : List (Task τ))
  | stopped
  deriving DecidableEq

structure EventLoop (τ : Type) where
  phase : LoopPhase τ
  /-- `m_pending_tasks` -/
  pendingTasks : List (Task τ)
  /-- the counter of `m_wakeup_fd` -/
  wakeup : Nat
  /-- `m_stop_flag` -/
  stopFlag : Bool
  /-- a thread in `add_task(task, true)` has pushed its task, and holds the lock -/
  posting : Bool
  /-- how many threads in `stop` have set the flag, and not written yet -/
  stopping : Nat
  /-- a call of `stop` has returned -/
  stopReturned : Bool
  deriving DecidableEq

inductive LoopStep (τ : Type)
  /-- `add_task(task, true)` locks and pushes -/
  | push (task : τ)
  /-- it writes to the eventfd, unlocks and returns -/
  | wake
  /-- `stop()` sets the flag -/
  | setStopFlag
  /-- it writes to the eventfd and returns -/
  | stopWake
  /-- `while (!m_stop_flag)` -/
  | check
  | swap
  /-- the next task starts, or `epoll_wait` is called -/
  | nextTask
  /-- a task that runs calls `add_task(task)` -/
  | addTask (task : τ)
  /-- a read of the eventfd; `errno` is `EAGAIN` after it, or is not -/
  | read (errnoIsEagain : Bool)
  /-- `epoll_wait` returns with the handlers of what is ready, in the order of the events -/
  | epollReturns (handlers : List (Task τ))
  /-- `add_task` of the next handler, or the end of the loop's body -/
  | queueHandler
  deriving DecidableEq

variable {τ : Type}

/-- `epoll_wait` reports only what is ready: no posted task, and the eventfd, once at
most, only if it is readable. -/
def Ready (s : EventLoop τ) (handlers : List (Task τ)) : Prop :=
  (∀ h ∈ handlers, ¬ h.IsPosted) ∧
    (handlers.filter fun h => h matches .drain).length ≤ if 0 < s.wakeup then 1 else 0

instance (s : EventLoop τ) (handlers : List (Task τ)) : Decidable (Ready s handlers) :=
  inferInstanceAs (Decidable (_ ∧ _))

/-- `wakeup`: a write of eight bytes, `'a'` and seven zeros. -/
def EventLoop.wakeUp (s : EventLoop τ) : EventLoop τ := { s with wakeup := s.wakeup + 97 }

def loopStep : Step (EventLoop τ) (LoopStep τ)
  | s, .push task =>
      if s.posting then none
      else some { s with pendingTasks := s.pendingTasks ++ [.posted task], posting := true }
  | s, .wake => if s.posting then some { s.wakeUp with posting := false } else none
  | s, .setStopFlag => some { s with stopFlag := true, stopping := s.stopping + 1 }
  | s, .stopWake =>
      if 0 < s.stopping then
        some { s.wakeUp with stopping := s.stopping - 1, stopReturned := true }
      else none
  | s, .check =>
      match s.phase with
      | .check => some { s with phase := if s.stopFlag then .stopped else .swapping }
      | _ => none
  | s, .swap =>
      match s.phase, s.posting with
      | .swapping, false =>
          some { s with phase := .running s.pendingTasks, pendingTasks := [] }
      | _, _ => none
  | s, .nextTask =>
      match s.phase with
      | .running [] => some { s with phase := .waiting }
      | .running (.drain :: tempTasks) => some { s with phase := .draining tempTasks }
      | .running (_ :: tempTasks) => some { s with phase := .running tempTasks }
      | _ => none
  | s, .addTask task =>
      match s.phase, s.posting with
      | .running _, false => some { s with pendingTasks := s.pendingTasks ++ [.handler task] }
      | _, _ => none
  | s, .read errnoIsEagain =>
      match s.phase with
      | .draining tempTasks =>
          if 0 < s.wakeup ∧ errnoIsEagain = false then some { s with wakeup := 0 }
          -- the read has failed with `EAGAIN`, or has left an old `EAGAIN` in `errno`
          else some { s with wakeup := 0, phase := .running tempTasks }
      | _ => none
  | s, .epollReturns handlers =>
      match s.phase with
      | .waiting => if Ready s handlers then some { s with phase := .queueing handlers } else none
      | _ => none
  | s, .queueHandler =>
      match s.phase, s.posting with
      | .queueing (h :: handlers), false =>
          some { s with phase := .queueing handlers, pendingTasks := s.pendingTasks ++ [h] }
      | .queueing [], _ => some { s with phase := .check }
      | _, _ => none

/-- A loop that is about to start, with its eventfd empty. -/
def EventLoop.start (τ : Type) : EventLoop τ := ⟨.check, [], 0, false, false, 0, false⟩

/-! ### The property -/

/-- The pending tasks whose `add_task` has unlocked: while a thread is between its push
and its write, the last one is its own. -/
def EventLoop.unlockedTasks (s : EventLoop τ) : List (Task τ) :=
  if s.posting then s.pendingTasks.dropLast else s.pendingTasks

/-- There is something to wake up for: a pending task whose `add_task(task, true)` has
returned, or a `stop` that has returned. -/
def EventLoop.Called (s : EventLoop τ) : Prop :=
  (∃ task ∈ s.unlockedTasks, task.IsPosted) ∨ s.stopReturned = true

instance (s : EventLoop τ) : Decidable s.Called := inferInstanceAs (Decidable (_ ∨ _))

/-- In `epoll_wait` there is nothing to wake up for, or the eventfd is readable. -/
def NoLostWakeup (s : EventLoop τ) : Prop := s.phase = .waiting → s.Called → 0 < s.wakeup

instance [DecidableEq τ] : DecidablePred (@NoLostWakeup τ) := fun s =>
  inferInstanceAs (Decidable (s.phase = .waiting → s.Called → 0 < s.wakeup))

/-- The task that empties the eventfd finds it readable only while there is nothing to
wake up for. -/
def DrainsQuietly (s : EventLoop τ) (step : LoopStep τ) : Prop :=
  (step matches .read _) = true → 0 < s.wakeup → ¬ s.Called

instance (s : EventLoop τ) (step : LoopStep τ) : Decidable (DrainsQuietly s step) :=
  inferInstanceAs (Decidable (_ → _ → ¬ s.Called))

/-! ### What a step can do -/

/-- The steps that can happen in `s`, and where they lead. -/
inductive LoopMove (s : EventLoop τ) : LoopStep τ → EventLoop τ → Prop
  | push (task : τ) : s.posting = false →
      LoopMove s (.push task)
        { s with pendingTasks := s.pendingTasks ++ [.posted task], posting := true }
  | wake : s.posting = true → LoopMove s .wake { s.wakeUp with posting := false }
  | setStopFlag :
      LoopMove s .setStopFlag { s with stopFlag := true, stopping := s.stopping + 1 }
  | stopWake : 0 < s.stopping →
      LoopMove s .stopWake { s.wakeUp with stopping := s.stopping - 1, stopReturned := true }
  | check : s.phase = .check →
      LoopMove s .check { s with phase := if s.stopFlag then .stopped else .swapping }
  | swap : s.phase = .swapping → s.posting = false →
      LoopMove s .swap { s with phase := .running s.pendingTasks, pendingTasks := [] }
  | wait : s.phase = .running [] → LoopMove s .nextTask { s with phase := .waiting }
  | drain {tempTasks : List (Task τ)} : s.phase = .running (.drain :: tempTasks) →
      LoopMove s .nextTask { s with phase := .draining tempTasks }
  | run {task : Task τ} {tempTasks : List (Task τ)} : s.phase = .running (task :: tempTasks) →
      task ≠ .drain → LoopMove s .nextTask { s with phase := .running tempTasks }
  | addTask {tempTasks : List (Task τ)} (task : τ) : s.phase = .running tempTasks →
      s.posting = false →
      LoopMove s (.addTask task) { s with pendingTasks := s.pendingTasks ++ [.handler task] }
  | readOn {tempTasks : List (Task τ)} : s.phase = .draining tempTasks → 0 < s.wakeup →
      LoopMove s (.read false) { s with wakeup := 0 }
  | readLast {tempTasks : List (Task τ)} (errnoIsEagain : Bool) :
      s.phase = .draining tempTasks → (0 < s.wakeup → errnoIsEagain = true) →
      LoopMove s (.read errnoIsEagain) { s with wakeup := 0, phase := .running tempTasks }
  | epollReturns {handlers : List (Task τ)} : s.phase = .waiting → Ready s handlers →
      LoopMove s (.epollReturns handlers) { s with phase := .queueing handlers }
  | queue {handler : Task τ} {handlers : List (Task τ)} :
      s.phase = .queueing (handler :: handlers) → s.posting = false →
      LoopMove s .queueHandler
        { s with phase := .queueing handlers, pendingTasks := s.pendingTasks ++ [handler] }
  | queued : s.phase = .queueing [] → LoopMove s .queueHandler { s with phase := .check }

theorem loopMove_of_loopStep {s s' : EventLoop τ} {step : LoopStep τ}
    (hs : s' ∈ loopStep s step) : LoopMove s step s' := by
  cases step with
  | push task =>
      rw [loopStep] at hs
      split at hs
      · cases hs
      · rename_i hfree
        obtain rfl := Option.some.inj hs
        exact .push task (Bool.eq_false_iff.mpr hfree)
  | wake =>
      obtain ⟨hposting, heq⟩ := Option.mem_ite_none_right.mp hs
      obtain rfl := Option.some.inj heq
      exact .wake hposting
  | setStopFlag =>
      obtain rfl := Option.some.inj hs
      exact .setStopFlag
  | stopWake =>
      obtain ⟨hstopping, heq⟩ := Option.mem_ite_none_right.mp hs
      obtain rfl := Option.some.inj heq
      exact .stopWake hstopping
  | check =>
      rw [loopStep] at hs
      split at hs
      · rename_i hphase
        obtain rfl := Option.some.inj hs
        exact .check hphase
      · cases hs
  | swap =>
      rw [loopStep] at hs
      split at hs
      · rename_i hphase hfree
        obtain rfl := Option.some.inj hs
        exact .swap hphase hfree
      · cases hs
  | nextTask =>
      rw [loopStep] at hs
      split at hs
      · rename_i hphase
        obtain rfl := Option.some.inj hs
        exact .wait hphase
      · rename_i tempTasks hphase
        obtain rfl := Option.some.inj hs
        exact .drain hphase
      · rename_i task tempTasks hnot hphase
        obtain rfl := Option.some.inj hs
        exact .run hphase hnot
      · cases hs
  | addTask task =>
      rw [loopStep] at hs
      split at hs
      · rename_i tempTasks hphase hfree
        obtain rfl := Option.some.inj hs
        exact .addTask task hphase hfree
      · cases hs
  | read errnoIsEagain =>
      rw [loopStep] at hs
      split at hs
      · rename_i tempTasks hphase
        split at hs
        · rename_i hread
          obtain ⟨hpos, rfl⟩ := hread
          obtain rfl := Option.some.inj hs
          exact .readOn hphase hpos
        · rename_i hread
          obtain rfl := Option.some.inj hs
          exact .readLast errnoIsEagain hphase fun hpos =>
            eq_true_of_ne_false fun herrno => hread ⟨hpos, herrno⟩
      · cases hs
  | epollReturns handlers =>
      rw [loopStep] at hs
      split at hs
      · rename_i hphase
        obtain ⟨hready, heq⟩ := Option.mem_ite_none_right.mp hs
        obtain rfl := Option.some.inj heq
        exact .epollReturns hphase hready
      · cases hs
  | queueHandler =>
      rw [loopStep] at hs
      split at hs
      · rename_i handler handlers hphase hfree
        obtain rfl := Option.some.inj hs
        exact .queue hphase hfree
      · rename_i hphase
        obtain rfl := Option.some.inj hs
        exact .queued hphase
      · cases hs

/-! ### Every step keeps the signal -/

/-- The handlers that `epoll_wait` has reported and that are still to be added. -/
def EventLoop.reported (s : EventLoop τ) : List (Task τ) :=
  match s.phase with
  | .queueing handlers => handlers
  | _ => []

/-- Whatever there is to wake up for has left its mark in the eventfd. -/
structure Signalled (s : EventLoop τ) : Prop where
  signal : s.Called → 0 < s.wakeup
  reported : ∀ h ∈ s.reported, ¬ h.IsPosted

theorem Signalled.start (τ : Type) : Signalled (EventLoop.start τ) where
  signal := by
    rintro (⟨task, hmem, -⟩ | hstop)
    · exact absurd hmem List.not_mem_nil
    · cases hstop
  reported := fun _ hmem => absurd hmem List.not_mem_nil

variable {s s' : EventLoop τ}

/-- A push behind a lock that is still held makes no difference. -/
theorem Signalled.push (h : Signalled s) (hfree : s.posting = false) (task : τ) :
    Signalled
      { s with pendingTasks := s.pendingTasks ++ [.posted task], posting := true } := by
  refine ⟨?_, h.reported⟩
  rintro (⟨t, hmem, hposted⟩ | hstop)
  · have hold : t ∈ s.unlockedTasks := by
      simpa [EventLoop.unlockedTasks, hfree] using hmem
    exact h.signal (.inl ⟨t, hold, hposted⟩)
  · exact h.signal (.inr hstop)

/-- Tasks that nobody has posted make no difference. -/
theorem Signalled.add (h : Signalled s) (hfree : s.posting = false) {task : Task τ}
    (htask : ¬ task.IsPosted) {phase : LoopPhase τ}
    (hphase : ∀ t ∈ ({ s with phase := phase } : EventLoop τ).reported, ¬ t.IsPosted) :
    Signalled { s with phase := phase, pendingTasks := s.pendingTasks ++ [task] } := by
  refine ⟨?_, hphase⟩
  rintro (⟨t, hmem, hposted⟩ | hstop)
  · have hmem : t ∈ s.pendingTasks ∨ t = task := by
      simpa [EventLoop.unlockedTasks, hfree] using hmem
    rcases hmem with hold | rfl
    · have hunlocked : t ∈ s.unlockedTasks := by simpa [EventLoop.unlockedTasks, hfree] using hold
      exact h.signal (.inl ⟨t, hunlocked, hposted⟩)
    · exact absurd hposted htask
  · exact h.signal (.inr hstop)

/-- A move of the loop that touches neither the queue nor the eventfd. -/
theorem Signalled.move (h : Signalled s) {phase : LoopPhase τ}
    (hphase : ∀ t ∈ ({ s with phase := phase } : EventLoop τ).reported, ¬ t.IsPosted) :
    Signalled { s with phase := phase } := ⟨h.signal, hphase⟩

theorem not_posted_nil : ∀ t ∈ ([] : List (Task τ)), ¬ t.IsPosted :=
  fun _ hmem => absurd hmem List.not_mem_nil

theorem Signalled.swap (h : Signalled s) (hfree : s.posting = false) :
    Signalled { s with phase := .running s.pendingTasks, pendingTasks := [] } := by
  refine ⟨?_, not_posted_nil⟩
  rintro (⟨t, hmem, -⟩ | hstop)
  · simp [EventLoop.unlockedTasks, hfree] at hmem
  · exact h.signal (.inr hstop)

/-- A read while there is nothing to wake up for, or from an empty eventfd. -/
theorem Signalled.read (h : Signalled s) (hquiet : 0 < s.wakeup → ¬ s.Called)
    {phase : LoopPhase τ}
    (hphase : ∀ t ∈ ({ s with phase := phase } : EventLoop τ).reported, ¬ t.IsPosted) :
    Signalled { s with wakeup := 0, phase := phase } := by
  refine ⟨fun hcalled => ?_, hphase⟩
  have hpos : 0 < s.wakeup := h.signal hcalled
  exact absurd hcalled (hquiet hpos)

theorem Signalled.step (s : EventLoop τ) (step : LoopStep τ) (s' : EventLoop τ)
    (h : Signalled s) (hquiet : DrainsQuietly s step) (hs : s' ∈ loopStep s step) :
    Signalled s' := by
  cases loopMove_of_loopStep hs with
  | push task hfree => exact h.push hfree task
  | wake hposting => exact ⟨fun _ => Nat.succ_pos _, h.reported⟩
  | setStopFlag => exact ⟨h.signal, h.reported⟩
  | stopWake hstopping => exact ⟨fun _ => Nat.succ_pos _, h.reported⟩
  | check hphase =>
      apply h.move
      split
      · exact not_posted_nil
      · exact not_posted_nil
  | swap hphase hfree => exact h.swap hfree
  | wait hphase => exact h.move not_posted_nil
  | drain hphase => exact h.move not_posted_nil
  | run hphase hne => exact h.move not_posted_nil
  | addTask task hphase hfree => exact h.add hfree id h.reported
  | readOn hphase hpos => exact h.read (hquiet rfl) h.reported
  | readLast errnoIsEagain hphase hlast => exact h.read (hquiet rfl) not_posted_nil
  | epollReturns hphase hready => exact h.move hready.1
  | queue hphase hfree =>
      have hreported := h.reported
      simp only [EventLoop.reported, hphase] at hreported
      obtain ⟨hfirst, hrest⟩ := List.forall_mem_cons.mp hreported
      exact h.add hfree hfirst hrest
  | queued hphase => exact h.move not_posted_nil

/-- **No wake-up is lost** in a run in which the eventfd, whenever its task finds it
readable, is emptied only while there is nothing to wake up for. -/
theorem no_lost_wakeup (steps : List (LoopStep τ))
    (h : Meets loopStep DrainsQuietly (EventLoop.start τ) steps) :
    Always loopStep NoLostWakeup (EventLoop.start τ) steps :=
  always_of_meets (fun _ h _ => h.signal) Signalled.step (Signalled.start τ) h

/-! ### A read too many -/

/-- The loop runs what is left of its batch and calls `epoll_wait`. -/
theorem after_nextTasks {tempTasks : List (Task τ)} (hphase : s.phase = .running tempTasks)
    (hdrain : .drain ∉ tempTasks) :
    after loopStep s (List.replicate (tempTasks.length + 1) .nextTask)
      = some { s with phase := .waiting } := by
  induction tempTasks generalizing s with
  | nil =>
      show (loopStep s .nextTask).bind _ = _
      simp only [loopStep, hphase]
      rfl
  | cons task tempTasks ih =>
      obtain ⟨hne, hrest⟩ := not_or.mp (List.mem_cons.not.mp hdrain)
      have hstep : loopStep s .nextTask = some { s with phase := .running tempTasks } := by
        cases task with
        | posted t => simp only [loopStep, hphase]
        | handler t => simp only [loopStep, hphase]
        | drain => exact absurd rfl hne
      rw [List.length_cons, List.replicate_succ, after, hstep, Option.bind_some]
      exact @ih { s with phase := .running tempTasks } rfl hrest

/-- **Every other read loses the wake-up**: if the loop then runs what is left of its batch,
it blocks with something to wake up for and an empty eventfd. -/
theorem blocks_after_drain {tempTasks : List (Task τ)} (hphase : s.phase = .draining tempTasks)
    (hdrain : .drain ∉ tempTasks) (hcalled : s.Called) :
    ∃ s', after loopStep s
        (.read true :: List.replicate (tempTasks.length + 1) .nextTask) = some s' ∧
      s'.phase = .waiting ∧ s'.Called ∧ s'.wakeup = 0 := by
  have hread : loopStep s (.read true)
      = some { s with wakeup := 0, phase := .running tempTasks } := by
    simp [loopStep, hphase]
  refine ⟨{ s with wakeup := 0, phase := .waiting }, ?_, rfl, hcalled, rfl⟩
  rw [after, hread, Option.bind_some]
  exact @after_nextTasks τ { s with wakeup := 0, phase := .running tempTasks } tempTasks rfl hdrain

/-- A task is posted, and wakes the loop up; another one is posted between the swap and
the read that empties the eventfd. -/
def lostTask : List (LoopStep Bool) :=
  [.check, .swap, .nextTask, .push false, .wake, .epollReturns [.drain], .queueHandler,
    .queueHandler, .check, .swap, .nextTask, .push true, .wake, .nextTask, .read false,
    .read true, .nextTask]

/-- `stop` returns just before that read. -/
def lostStop : List (LoopStep Bool) :=
  [.check, .swap, .nextTask, .push false, .wake, .epollReturns [.drain], .queueHandler,
    .queueHandler, .check, .swap, .nextTask, .setStopFlag, .stopWake, .nextTask, .read false,
    .read true, .nextTask]

/-- The loop blocks with the second task pending, and with `stop` unheard. -/
theorem wakeup_lost :
    ¬ Always loopStep NoLostWakeup (EventLoop.start Bool) lostTask ∧
      ¬ Always loopStep NoLostWakeup (EventLoop.start Bool) lostStop := by
  decide +kernel

/-- The second task is posted after the read, and `stop` is called while the loop waits. -/
theorem no_lost_wakeup_later_post :
    Always loopStep NoLostWakeup (EventLoop.start Bool)
      [.check, .swap, .nextTask, .push false, .wake, .epollReturns [.drain], .queueHandler,
        .queueHandler, .check, .swap, .nextTask, .nextTask, .read false, .read true, .push true,
        .wake, .nextTask, .setStopFlag, .stopWake, .epollReturns [.drain], .queueHandler,
        .queueHandler, .check] :=
  no_lost_wakeup _ (by decide +kernel)

end TinyRpc
