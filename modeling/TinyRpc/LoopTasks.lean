/-
TinyRpc/LoopTasks.lean

The order of the tasks of an event loop.

The loop swaps the queue out under the lock and runs the batch without it, while
other threads and the tasks themselves go on adding to the queue; what `epoll_wait`
reports is added after the batch.  Whatever the interleaving, the tasks that have
been taken out, the rest of the batch and the queue are, one after the other, the
tasks that have been added: `tasks_in_order`.

`stop` does not wait for the queue.  The loop looks at its flag before it swaps, and so leaves
behind whatever is in the queue by then: `stopped_runs_no_more`.
-/
import TinyRpc.Base.Fifo
import TinyRpc.EventLoop

namespace TinyRpc

open Runs Fifo

variable {τ : Type}

/-- The tasks swapped out that are still to be run. -/
def EventLoop.batch (s : EventLoop τ) : List (Task τ) :=
  match s.phase with
  | .running tempTasks => tempTasks
  | .draining tempTasks => tempTasks
  | _ => []

inductive TaskStep (τ : Type)
  | loop (step : LoopStep τ)
  /-- `add_task(task)` of another thread, which does not wake the loop up -/
  | addTask (task : τ)

def taskStep : Step (EventLoop τ) (TaskStep τ)
  | s, .loop step => loopStep s step
  | s, .addTask task =>
      if s.posting then none
      else some { s with pendingTasks := s.pendingTasks ++ [.handler task] }

/-- The loop holds the rest of its batch and the queue.  Every `push` to the queue puts a task
in, and every task that the loop turns to is taken out. -/
def taskPorts : Ports (EventLoop τ) (TaskStep τ) (Task τ) where
  holds s := s.batch ++ s.pendingTasks
  puts
    | _, .loop (.push task) => [.posted task]
    | _, .loop (.addTask task) => [.handler task]
    | s, .loop .queueHandler => s.reported.head?.toList
    | _, .addTask task => [.handler task]
    | _, _ => []
  takes
    | s, .loop .nextTask => s.batch.head?.toList
    | _, _ => []

/-- The tasks that have been called: an empty function is taken out and skipped. -/
def executed (callable : Task τ → Bool) (l : Logged (EventLoop τ) (Task τ)) : List (Task τ) :=
  l.taken.filter callable

/-- What has been taken out, the rest of the batch and the queue are what has been added; and
so, of the functions that are not empty, are what has been called, the rest of the batch and
the queue. -/
def TasksInOrder (callable : Task τ → Bool) (l : Logged (EventLoop τ) (Task τ)) : Prop :=
  l.taken ++ l.state.batch ++ l.state.pendingTasks = l.put ∧
    executed callable l ++ l.state.batch.filter callable ++ l.state.pendingTasks.filter callable =
      l.put.filter callable

/-- A loop that is about to start, before the first task. -/
def EventLoop.logged (τ : Type) : Logged (EventLoop τ) (Task τ) := ⟨EventLoop.start τ, [], []⟩

/-! ### Every step conserves the tasks -/

theorem conserves_loopStep {s s' : EventLoop τ} {step : LoopStep τ} (hs : s' ∈ loopStep s step) :
    taskPorts.holds s ++ taskPorts.puts s (.loop step) =
      taskPorts.takes s (.loop step) ++ taskPorts.holds s' := by
  cases loopMove_of_loopStep hs with
  | push task hfree => exact List.append_assoc ..
  | wake hposting => exact List.append_nil _
  | setStopFlag => exact List.append_nil _
  | stopWake hstopping => exact List.append_nil _
  | check hphase =>
      rcases hstop : s.stopFlag with - | - <;> simp [taskPorts, EventLoop.batch, hphase]
  | swap hphase hfree => simp [taskPorts, EventLoop.batch, hphase]
  | wait hphase => simp [taskPorts, EventLoop.batch, hphase]
  | drain hphase => simp [taskPorts, EventLoop.batch, hphase]
  | run hphase hne => simp [taskPorts, EventLoop.batch, hphase]
  | addTask task hphase hfree => exact List.append_assoc ..
  | readOn hphase hpos => exact List.append_nil _
  | readLast errnoIsEagain hphase hlast => simp [taskPorts, EventLoop.batch, hphase]
  | epollReturns hphase hready => simp [taskPorts, EventLoop.batch, hphase]
  | queue hphase hfree => simp [taskPorts, EventLoop.batch, EventLoop.reported, hphase]
  | queued hphase => simp [taskPorts, EventLoop.batch, EventLoop.reported, hphase]

theorem conserves_taskStep (l : Logged (EventLoop τ) (Task τ)) (step : TaskStep τ) :
    taskPorts.Conserves taskStep l step := by
  intro s' hs'
  cases step with
  | loop step => exact conserves_loopStep hs'
  | addTask task =>
      rw [taskStep] at hs'
      split at hs'
      · cases hs'
      · obtain rfl := Option.some.inj hs'
        exact List.append_assoc ..

/-- **The tasks run in the order in which they were added**, none of them twice, and none is
dropped, in every run of the loop with any number of threads. -/
theorem tasks_in_order (callable : Task τ → Bool) (steps : List (TaskStep τ)) :
    Always (taskPorts.loggedStep taskStep) (TasksInOrder callable) (EventLoop.logged τ) steps := by
  have hstart : taskPorts.InOrder (EventLoop.logged τ) := rfl
  refine (Ports.always_inOrder conserves_taskStep hstart steps).imp fun l h => ?_
  have hput : l.taken ++ l.state.batch ++ l.state.pendingTasks = l.put := by
    rw [List.append_assoc]
    exact h
  refine ⟨hput, ?_⟩
  rw [executed, ← List.filter_append, ← List.filter_append, hput]

/-! ### After `stop` -/

/-- The loop is not to swap again: of the tasks that had been added it runs those of the batch in
hand, and the others stay in the queue. -/
structure RunsNoMore (l₀ l : Logged (EventLoop τ) (Task τ)) : Prop where
  stopFlag : l.state.stopFlag = true
  passed : l.state.phase ≠ .swapping
  taken : l.taken ++ l.state.batch = l₀.taken ++ l₀.state.batch
  pending : l₀.state.pendingTasks <+: l.state.pendingTasks

section Move

variable {s s' : EventLoop τ} {step : LoopStep τ}

/-- Only the swap changes the batch other than by taking from it, and empties the queue. -/
theorem LoopMove.keeps (h : LoopMove s step s') (hswap : step ≠ .swap) :
    taskPorts.takes s (.loop step) ++ s'.batch = s.batch ∧ s.pendingTasks <+: s'.pendingTasks := by
  cases h with
  | push task hfree => exact ⟨rfl, List.prefix_append _ _⟩
  | wake hposting => exact ⟨rfl, List.prefix_rfl⟩
  | setStopFlag => exact ⟨rfl, List.prefix_rfl⟩
  | stopWake hstopping => exact ⟨rfl, List.prefix_rfl⟩
  | check hphase =>
      refine ⟨?_, List.prefix_rfl⟩
      rcases hstop : s.stopFlag with - | - <;> simp [taskPorts, EventLoop.batch, hphase]
  | swap hphase hfree => exact absurd rfl hswap
  | wait hphase => exact ⟨by simp [taskPorts, EventLoop.batch, hphase], List.prefix_rfl⟩
  | drain hphase => exact ⟨by simp [taskPorts, EventLoop.batch, hphase], List.prefix_rfl⟩
  | run hphase hne => exact ⟨by simp [taskPorts, EventLoop.batch, hphase], List.prefix_rfl⟩
  | addTask task hphase hfree => exact ⟨rfl, List.prefix_append _ _⟩
  | readOn hphase hpos => exact ⟨rfl, List.prefix_rfl⟩
  | readLast errnoIsEagain hphase hlast =>
      exact ⟨by simp [taskPorts, EventLoop.batch, hphase], List.prefix_rfl⟩
  | epollReturns hphase hready =>
      exact ⟨by simp [taskPorts, EventLoop.batch, hphase], List.prefix_rfl⟩
  | queue hphase hfree =>
      exact ⟨by simp [taskPorts, EventLoop.batch, hphase], List.prefix_append _ _⟩
  | queued hphase => exact ⟨by simp [taskPorts, EventLoop.batch, hphase], List.prefix_rfl⟩

/-- A loop whose flag is set, and that is past its swap, does not come to another one. -/
theorem LoopMove.passed (h : LoopMove s step s') (hstop : s.stopFlag = true)
    (hpassed : s.phase ≠ .swapping) : s'.stopFlag = true ∧ s'.phase ≠ .swapping := by
  cases h with
  | push task hfree => exact ⟨hstop, hpassed⟩
  | wake hposting => exact ⟨hstop, hpassed⟩
  | setStopFlag => exact ⟨rfl, hpassed⟩
  | stopWake hstopping => exact ⟨hstop, hpassed⟩
  | check hphase => exact ⟨hstop, by simp [hstop]⟩
  | swap hphase hfree => exact absurd hphase hpassed
  | wait hphase => exact ⟨hstop, by simp⟩
  | drain hphase => exact ⟨hstop, by simp⟩
  | run hphase hne => exact ⟨hstop, by simp⟩
  | addTask task hphase hfree => exact ⟨hstop, hpassed⟩
  | readOn hphase hpos => exact ⟨hstop, hpassed⟩
  | readLast errnoIsEagain hphase hlast => exact ⟨hstop, by simp⟩
  | epollReturns hphase hready => exact ⟨hstop, by simp⟩
  | queue hphase hfree => exact ⟨hstop, by simp⟩
  | queued hphase => exact ⟨hstop, by simp⟩

end Move

theorem RunsNoMore.step (l₀ l : Logged (EventLoop τ) (Task τ)) (step : TaskStep τ)
    (l' : Logged (EventLoop τ) (Task τ)) (h : RunsNoMore l₀ l)
    (hl' : l' ∈ taskPorts.loggedStep taskStep l step) : RunsNoMore l₀ l' := by
  obtain ⟨hstop, hpassed, htaken, hpending⟩ := h
  obtain ⟨s, hs, rfl⟩ := Option.map_eq_some_iff.mp hl'
  cases step with
  | loop step =>
      have hmove := loopMove_of_loopStep hs
      have hswap : step ≠ .swap := by
        rintro rfl
        cases hmove with
        | swap hphase hfree => exact hpassed hphase
      obtain ⟨hbatch, hgrows⟩ := hmove.keeps hswap
      obtain ⟨hstop', hpassed'⟩ := hmove.passed hstop hpassed
      refine ⟨hstop', hpassed', ?_, hpending.trans hgrows⟩
      rw [List.append_assoc, hbatch, htaken]
  | addTask task =>
      obtain ⟨hfree, hs⟩ := Option.mem_ite_none_left.mp hs
      obtain rfl := Option.some.inj hs
      refine ⟨hstop, hpassed, ?_, hpending.trans (List.prefix_append _ _)⟩
      exact (congrArg (· ++ _) (List.append_nil _)).trans htaken

/-- **After `stop` the queue is left behind**: once the flag is set and the loop is not just about
to swap, no task that is in the queue, or comes into it later, is ever run, whatever the threads go
on to do. -/
theorem stopped_runs_no_more (l : Logged (EventLoop τ) (Task τ)) (hstop : l.state.stopFlag = true)
    (hpassed : l.state.phase ≠ .swapping) (steps : List (TaskStep τ)) :
    Always (taskPorts.loggedStep taskStep) (RunsNoMore l) l steps :=
  always_of_step (RunsNoMore.step l) ⟨hstop, hpassed, rfl, List.prefix_rfl⟩ steps

/-- A loop that waits, with one task in the queue, when `stop` sets the flag. -/
def stoppedWaiting : EventLoop Bool :=
  { EventLoop.start Bool with
    phase := .waiting, pendingTasks := [.posted true], wakeup := 97, stopFlag := true }

theorem stopped_runs_no_more_waiting :
    Always (taskPorts.loggedStep taskStep) (RunsNoMore ⟨stoppedWaiting, [.posted true], []⟩)
      ⟨stoppedWaiting, [.posted true], []⟩
      [.addTask false, .loop (.epollReturns [.drain]), .loop .queueHandler, .loop .queueHandler,
        .loop .check] :=
  stopped_runs_no_more _ rfl (by simp [stoppedWaiting]) _

end TinyRpc
