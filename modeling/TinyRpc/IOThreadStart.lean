/-
TinyRpc/IOThreadStart.lean

The life of an IO thread: the thread that owns the `IOThread`, and `Main` on the thread that it
creates.

The two meet at two semaphores.  The constructor waits at the first one until `Main` has made the
event loop; `Main` waits at the second one until somebody calls `start`.  The destructor stops the
loop and waits for the thread to end.

`ioThread_starts` is what the semaphores are for: whoever has constructed the object finds the
loop there, the loop does not run before `start`, and no `start` is lost.  `destroyed_twice` is
about the end: `Main` keeps the object in a `shared_ptr` of its own, and so runs the
destructor, too, as it returns.
-/
import TinyRpc.LoopTasks

namespace TinyRpc

open Runs

/-- Where `Main` is. -/
inductive MainPhase
  /-- after `pthread_create` -/
  | created
  /-- the event loop has been made -/
  | made
  /-- at `sem_wait(&m_start_semphore)` -/
  | waiting
  | looping
  /-- `thread_ptr` goes out of scope; in `stop` -/
  | stopping
  | ended
  deriving DecidableEq

/-- Where the thread is that owns the `IOThread`. -/
inductive OwnerPhase
  /-- at `sem_wait(&m_init_semphore)` -/
  | constructing
  | constructed
  /-- in `join()` -/
  | joining
  /-- in the destructor, in `stop` -/
  | stopping
  /-- in the destructor, at `pthread_join` -/
  | destroying
  | destroyed
  deriving DecidableEq

structure IOThreadRun (τ : Type) where
  owner : OwnerPhase
  main : MainPhase
  initSemphore : Nat
  startSemphore : Nat
  eventLoop : Option (EventLoop τ)
  /-- `none` is -1 -/
  threadId : Option Nat
  /-- how many times `start` has been called -/
  starts : Nat
  /-- how many times the destructor has been entered -/
  destructions : Nat

inductive IOThreadStep (τ : Type)
  /-- `Main` makes the event loop and notes its thread id -/
  | make (threadId : Nat)
  /-- `sem_post(&m_init_semphore)` -/
  | postInit
  /-- `sem_wait(&m_init_semphore)` returns, and so does the constructor -/
  | construct
  | start
  /-- `sem_wait(&m_start_semphore)` returns -/
  | waitStart
  /-- a step of the loop, or of a thread that calls its `add_task` or `stop` -/
  | loop (step : TaskStep τ)
  /-- `loop` has returned, and `Main` enters the destructor -/
  | mainStop
  /-- `stop` writes; the thread does not join itself, and ends -/
  | mainEnd
  | join
  /-- `pthread_join` of `join()` returns -/
  | joined
  /-- the owner enters the destructor -/
  | stop
  /-- `stop` writes -/
  | stopWake
  /-- `pthread_join` of the destructor returns -/
  | destroy

variable {τ : Type}

/-- A step of the loop's own thread. -/
def TaskStep.isOwn : TaskStep τ → Bool
  | .loop (.push _) => false
  | .loop .wake => false
  | .loop .setStopFlag => false
  | .loop .stopWake => false
  | .loop _ => true
  | .addTask _ => false

namespace IOThreadRun

/-- The constructor before its `sem_wait`. -/
def start (τ : Type) : IOThreadRun τ := ⟨.constructing, .created, 0, 0, none, none, 0, 0⟩

/-- Only a thread that is in `loop` takes steps of its own in it; the others get the loop from an
object that has been constructed. -/
def MayStep (s : IOThreadRun τ) (step : TaskStep τ) : Prop :=
  if step.isOwn then s.main = .looping else s.owner ≠ .constructing

instance (s : IOThreadRun τ) (step : TaskStep τ) : Decidable (s.MayStep step) := by
  unfold MayStep
  infer_instance

/-- A step of the event loop. -/
def onLoop (s : IOThreadRun τ) (step : TaskStep τ) : Option (IOThreadRun τ) :=
  s.eventLoop.bind fun eventLoop =>
    (taskStep eventLoop step).map fun eventLoop => { s with eventLoop := some eventLoop }

end IOThreadRun

def ioThreadStep : Step (IOThreadRun τ) (IOThreadStep τ)
  | s, .make threadId =>
      if s.main = .created then
        some
          { s with
            main := .made
            eventLoop := some (EventLoop.start τ)
            threadId := some threadId }
      else none
  | s, .postInit =>
      if s.main = .made then
        some { s with main := .waiting, initSemphore := s.initSemphore + 1 }
      else none
  | s, .construct =>
      if s.owner = .constructing ∧ 0 < s.initSemphore then
        some { s with owner := .constructed, initSemphore := s.initSemphore - 1 }
      else none
  | s, .start =>
      if s.owner = .constructed then
        some { s with startSemphore := s.startSemphore + 1, starts := s.starts + 1 }
      else none
  | s, .waitStart =>
      if s.main = .waiting ∧ 0 < s.startSemphore then
        some { s with main := .looping, startSemphore := s.startSemphore - 1 }
      else none
  | s, .loop step => if s.MayStep step then s.onLoop step else none
  | s, .mainStop =>
      if s.main = .looping ∧ s.eventLoop.any fun eventLoop => eventLoop.phase matches .stopped then
        { s with main := .stopping, destructions := s.destructions + 1 }.onLoop (.loop .setStopFlag)
      else none
  | s, .mainEnd =>
      if s.main = .stopping then { s with main := .ended }.onLoop (.loop .stopWake) else none
  | s, .join => if s.owner = .constructed then some { s with owner := .joining } else none
  | s, .joined =>
      if s.owner = .joining ∧ s.main = .ended then some { s with owner := .constructed } else none
  | s, .stop =>
      if s.owner = .constructed then
        { s with owner := .stopping, destructions := s.destructions + 1 }.onLoop
          (.loop .setStopFlag)
      else none
  | s, .stopWake =>
      if s.owner = .stopping then { s with owner := .destroying }.onLoop (.loop .stopWake)
      else none
  | s, .destroy =>
      if s.owner = .destroying ∧ s.main = .ended then some { s with owner := .destroyed } else none

/-! ### The properties -/

def MainPhase.IsStarted : MainPhase → Prop
  | .looping => True
  | .stopping => True
  | .ended => True
  | _ => False

/-- The loop is there for whoever has constructed the object; before `start` it does nothing; and
a `start` reaches `Main` even if it comes before `Main` waits. -/
structure Handshake (s : IOThreadRun τ) : Prop where
  there : s.owner ≠ .constructing → s.eventLoop.isSome ∧ s.threadId.isSome
  starts : s.main.IsStarted → 0 < s.starts
  idle : ¬ s.main.IsStarted → ∀ eventLoop ∈ s.eventLoop, eventLoop.phase = .check
  notLost : s.main = .waiting → 0 < s.starts → 0 < s.startSemphore

/-- Who comes to the end of the destructor has waited for a thread that has been started, and that
has run the destructor as well. -/
def DestroyedTwice (s : IOThreadRun τ) : Prop :=
  s.owner = .destroyed → 0 < s.starts ∧ s.destructions = 2

/-! ### What a step can do -/

/-- The steps that can happen in `s`, and where they lead. -/
inductive IOThreadMove (s : IOThreadRun τ) : IOThreadStep τ → IOThreadRun τ → Prop
  | make (threadId : Nat) : s.main = .created →
      IOThreadMove s (.make threadId)
        { s with
          main := .made
          eventLoop := some (EventLoop.start τ)
          threadId := some threadId }
  | postInit : s.main = .made →
      IOThreadMove s .postInit { s with main := .waiting, initSemphore := s.initSemphore + 1 }
  | construct : s.owner = .constructing → 0 < s.initSemphore →
      IOThreadMove s .construct
        { s with owner := .constructed, initSemphore := s.initSemphore - 1 }
  | start : s.owner = .constructed →
      IOThreadMove s .start
        { s with startSemphore := s.startSemphore + 1, starts := s.starts + 1 }
  | waitStart : s.main = .waiting → 0 < s.startSemphore →
      IOThreadMove s .waitStart { s with main := .looping, startSemphore := s.startSemphore - 1 }
  | loop {step : TaskStep τ} {eventLoop eventLoop' : EventLoop τ} : s.MayStep step →
      s.eventLoop = some eventLoop → eventLoop' ∈ taskStep eventLoop step →
      IOThreadMove s (.loop step) { s with eventLoop := some eventLoop' }
  | mainStop {eventLoop eventLoop' : EventLoop τ} : s.main = .looping →
      s.eventLoop = some eventLoop → eventLoop' ∈ taskStep eventLoop (.loop .setStopFlag) →
      IOThreadMove s .mainStop
        { s with
          main := .stopping
          destructions := s.destructions + 1
          eventLoop := some eventLoop' }
  | mainEnd {eventLoop eventLoop' : EventLoop τ} : s.main = .stopping →
      s.eventLoop = some eventLoop → eventLoop' ∈ taskStep eventLoop (.loop .stopWake) →
      IOThreadMove s .mainEnd { s with main := .ended, eventLoop := some eventLoop' }
  | join : s.owner = .constructed → IOThreadMove s .join { s with owner := .joining }
  | joined : s.owner = .joining → s.main = .ended →
      IOThreadMove s .joined { s with owner := .constructed }
  | stop {eventLoop eventLoop' : EventLoop τ} : s.owner = .constructed →
      s.eventLoop = some eventLoop → eventLoop' ∈ taskStep eventLoop (.loop .setStopFlag) →
      IOThreadMove s .stop
        { s with
          owner := .stopping
          destructions := s.destructions + 1
          eventLoop := some eventLoop' }
  | stopWake {eventLoop eventLoop' : EventLoop τ} : s.owner = .stopping →
      s.eventLoop = some eventLoop → eventLoop' ∈ taskStep eventLoop (.loop .stopWake) →
      IOThreadMove s .stopWake { s with owner := .destroying, eventLoop := some eventLoop' }
  | destroy : s.owner = .destroying → s.main = .ended →
      IOThreadMove s .destroy { s with owner := .destroyed }

section Steps

variable {s s' : IOThreadRun τ} {step : IOThreadStep τ}

theorem onLoop_eq_some {loopStep : TaskStep τ} (hs : s.onLoop loopStep = some s') :
    ∃ eventLoop eventLoop', s.eventLoop = some eventLoop ∧
      eventLoop' ∈ taskStep eventLoop loopStep ∧ s' = { s with eventLoop := some eventLoop' } := by
  obtain ⟨eventLoop, hloop, hs⟩ := Option.bind_eq_some_iff.mp hs
  obtain ⟨eventLoop', hstep, rfl⟩ := Option.map_eq_some_iff.mp hs
  exact ⟨eventLoop, eventLoop', hloop, hstep, rfl⟩

theorem ioThreadMove_of_ioThreadStep (hs : s' ∈ ioThreadStep s step) :
    IOThreadMove s step s' := by
  cases step with
  | make threadId =>
      obtain ⟨hmain, heq⟩ := Option.mem_ite_none_right.mp hs
      obtain rfl := Option.some.inj heq
      exact .make threadId hmain
  | postInit =>
      obtain ⟨hmain, heq⟩ := Option.mem_ite_none_right.mp hs
      obtain rfl := Option.some.inj heq
      exact .postInit hmain
  | construct =>
      obtain ⟨⟨howner, hpos⟩, heq⟩ := Option.mem_ite_none_right.mp hs
      obtain rfl := Option.some.inj heq
      exact .construct howner hpos
  | start =>
      obtain ⟨howner, heq⟩ := Option.mem_ite_none_right.mp hs
      obtain rfl := Option.some.inj heq
      exact .start howner
  | waitStart =>
      obtain ⟨⟨hmain, hpos⟩, heq⟩ := Option.mem_ite_none_right.mp hs
      obtain rfl := Option.some.inj heq
      exact .waitStart hmain hpos
  | loop step =>
      obtain ⟨hmay, heq⟩ := Option.mem_ite_none_right.mp hs
      obtain ⟨eventLoop, eventLoop', hloop, hstep, rfl⟩ := onLoop_eq_some heq
      exact .loop hmay hloop hstep
  | mainStop =>
      obtain ⟨⟨hmain, -⟩, heq⟩ := Option.mem_ite_none_right.mp hs
      obtain ⟨eventLoop, eventLoop', hloop, hstep, rfl⟩ := onLoop_eq_some heq
      exact .mainStop hmain hloop hstep
  | mainEnd =>
      obtain ⟨hmain, heq⟩ := Option.mem_ite_none_right.mp hs
      obtain ⟨eventLoop, eventLoop', hloop, hstep, rfl⟩ := onLoop_eq_some heq
      exact .mainEnd hmain hloop hstep
  | join =>
      obtain ⟨howner, heq⟩ := Option.mem_ite_none_right.mp hs
      obtain rfl := Option.some.inj heq
      exact .join howner
  | joined =>
      obtain ⟨⟨howner, hmain⟩, heq⟩ := Option.mem_ite_none_right.mp hs
      obtain rfl := Option.some.inj heq
      exact .joined howner hmain
  | stop =>
      obtain ⟨howner, heq⟩ := Option.mem_ite_none_right.mp hs
      obtain ⟨eventLoop, eventLoop', hloop, hstep, rfl⟩ := onLoop_eq_some heq
      exact .stop howner hloop hstep
  | stopWake =>
      obtain ⟨howner, heq⟩ := Option.mem_ite_none_right.mp hs
      obtain ⟨eventLoop, eventLoop', hloop, hstep, rfl⟩ := onLoop_eq_some heq
      exact .stopWake howner hloop hstep
  | destroy =>
      obtain ⟨⟨howner, hmain⟩, heq⟩ := Option.mem_ite_none_right.mp hs
      obtain rfl := Option.some.inj heq
      exact .destroy howner hmain

/-- What other threads do to a loop leaves it where it is. -/
theorem phase_of_other {eventLoop eventLoop' : EventLoop τ} {step : TaskStep τ}
    (hother : step.isOwn = false) (hs : eventLoop' ∈ taskStep eventLoop step) :
    eventLoop'.phase = eventLoop.phase := by
  cases step with
  | loop step =>
      cases loopMove_of_loopStep hs with
      | push task hfree => rfl
      | wake hposting => rfl
      | setStopFlag => rfl
      | stopWake hstopping => rfl
      | _ => cases hother
  | addTask task =>
      obtain ⟨-, heq⟩ := Option.mem_ite_none_left.mp hs
      obtain rfl := Option.some.inj heq
      rfl

end Steps

/-! ### The semaphores count -/

/-- How often `Main` has posted the first semaphore. -/
def MainPhase.inits : MainPhase → Nat
  | .created => 0
  | .made => 0
  | _ => 1

/-- How often `Main` has come past the second. -/
def MainPhase.begun : MainPhase → Nat
  | .looping => 1
  | .stopping => 1
  | .ended => 1
  | _ => 0

/-- How often `Main` has entered the destructor. -/
def MainPhase.destroys : MainPhase → Nat
  | .stopping => 1
  | .ended => 1
  | _ => 0

/-- How often the owner has come past the first semaphore. -/
def OwnerPhase.inits : OwnerPhase → Nat
  | .constructing => 0
  | _ => 1

/-- How often the owner has entered the destructor. -/
def OwnerPhase.destroys : OwnerPhase → Nat
  | .stopping => 1
  | .destroying => 1
  | .destroyed => 1
  | _ => 0

theorem MainPhase.isStarted_iff {main : MainPhase} : main.IsStarted ↔ main.begun = 1 := by
  cases main <;> simp [MainPhase.IsStarted, MainPhase.begun]

/-- What has been posted has been waited for or is in the semaphore. -/
structure Counted (s : IOThreadRun τ) : Prop where
  initSemphore : s.initSemphore + s.owner.inits = s.main.inits
  startSemphore : s.startSemphore + s.main.begun = s.starts
  destructions : s.destructions = s.owner.destroys + s.main.destroys
  made : s.main ≠ .created → s.eventLoop.isSome ∧ s.threadId.isSome
  idle : s.main.begun = 0 → ∀ eventLoop ∈ s.eventLoop, eventLoop.phase = .check
  ended : s.owner = .destroyed → s.main = .ended

variable {s : IOThreadRun τ}

theorem Counted.start (τ : Type) : Counted (IOThreadRun.start τ) :=
  ⟨rfl, rfl, rfl, fun h => absurd rfl h, fun _ _ h => (Option.not_mem_none _ h).elim, nofun⟩

/-- A step of the loop. -/
theorem Counted.loop (h : Counted s) {step : TaskStep τ}
    {eventLoop eventLoop' : EventLoop τ} (hmay : s.MayStep step)
    (hloop : s.eventLoop = some eventLoop) (hs : eventLoop' ∈ taskStep eventLoop step) :
    Counted { s with eventLoop := some eventLoop' } := by
  refine ⟨h.initSemphore, h.startSemphore, h.destructions,
    fun hmain => ⟨rfl, (h.made hmain).2⟩, ?_, h.ended⟩
  intro hbegun e he
  obtain rfl := Option.some.inj he
  rw [IOThreadRun.MayStep] at hmay
  split at hmay
  · rw [hmay] at hbegun
    cases hbegun
  · rename_i hother
    rw [phase_of_other (Bool.eq_false_iff.mpr hother) hs]
    exact h.idle hbegun eventLoop hloop

/-- While `Main` has not ended, the owner is not done with the destructor. -/
theorem Counted.owner_ne (h : Counted s) (hmain : s.main ≠ .ended) :
    s.owner ≠ .destroyed := fun howner => hmain (h.ended howner)

theorem Counted.step (s : IOThreadRun τ) (step : IOThreadStep τ) (s' : IOThreadRun τ)
    (h : Counted s) (hs : s' ∈ ioThreadStep s step) : Counted s' := by
  have hinit := h.initSemphore
  have hstart := h.startSemphore
  have hdestructions := h.destructions
  cases ioThreadMove_of_ioThreadStep hs with
  | make threadId hmain =>
      have howner := h.owner_ne (by simp [hmain])
      rw [hmain] at hinit hstart hdestructions
      refine ⟨hinit, hstart, hdestructions, fun _ => ⟨rfl, rfl⟩, ?_, fun hd => absurd hd howner⟩
      intro _ e he
      obtain rfl := Option.some.inj he
      rfl
  | postInit hmain =>
      have howner := h.owner_ne (by simp [hmain])
      have hmade := h.made (by simp [hmain])
      have hidle := h.idle (by rw [hmain]; rfl)
      rw [hmain] at hinit hstart hdestructions
      refine ⟨?_, hstart, hdestructions, fun _ => hmade, fun _ => hidle, fun hd => absurd hd howner⟩
      show s.initSemphore + 1 + s.owner.inits = 1
      rw [Nat.add_right_comm, hinit]
      rfl
  | construct howner hpos =>
      rw [howner] at hinit hdestructions
      refine ⟨?_, hstart, hdestructions, h.made, h.idle, nofun⟩
      show s.initSemphore - 1 + 1 = s.main.inits
      rw [Nat.sub_add_cancel hpos]
      exact hinit
  | start howner =>
      refine ⟨hinit, ?_, hdestructions, h.made, h.idle, h.ended⟩
      show s.startSemphore + 1 + s.main.begun = s.starts + 1
      rw [Nat.add_right_comm, hstart]
  | waitStart hmain hpos =>
      have howner := h.owner_ne (by simp [hmain])
      have hmade := h.made (by simp [hmain])
      rw [hmain] at hinit hstart hdestructions
      refine ⟨hinit, ?_, hdestructions, fun _ => hmade, nofun, fun hd => absurd hd howner⟩
      show s.startSemphore - 1 + 1 = s.starts
      rw [Nat.sub_add_cancel hpos]
      exact hstart
  | loop hmay hloop hstep => exact h.loop hmay hloop hstep
  | mainStop hmain hloop hstep =>
      have howner := h.owner_ne (by simp [hmain])
      have hmade := h.made (by simp [hmain])
      rw [hmain] at hinit hstart hdestructions
      refine ⟨hinit, hstart, ?_, fun _ => ⟨rfl, hmade.2⟩, nofun, fun hd => absurd hd howner⟩
      exact congrArg (· + 1) hdestructions
  | mainEnd hmain hloop hstep =>
      have hmade := h.made (by simp [hmain])
      rw [hmain] at hinit hstart hdestructions
      exact ⟨hinit, hstart, hdestructions, fun _ => ⟨rfl, hmade.2⟩, nofun, fun _ => rfl⟩
  | join howner =>
      rw [howner] at hinit hdestructions
      exact ⟨hinit, hstart, hdestructions, h.made, h.idle, nofun⟩
  | joined howner hmain =>
      rw [howner] at hinit hdestructions
      exact ⟨hinit, hstart, hdestructions, h.made, h.idle, nofun⟩
  | stop howner hloop hstep =>
      rw [howner] at hinit hdestructions
      refine ⟨hinit, hstart, ?_, fun hmain => ⟨rfl, (h.made hmain).2⟩, ?_, nofun⟩
      · show s.destructions + 1 = 1 + s.main.destroys
        rw [hdestructions, Nat.add_comm]
        exact congrArg (1 + ·) (Nat.zero_add _)
      · intro hbegun e he
        obtain rfl := Option.some.inj he
        rw [phase_of_other rfl hstep]
        exact h.idle hbegun _ hloop
  | stopWake howner hloop hstep =>
      rw [howner] at hinit hdestructions
      refine ⟨hinit, hstart, hdestructions, fun hmain => ⟨rfl, (h.made hmain).2⟩, ?_, nofun⟩
      intro hbegun e he
      obtain rfl := Option.some.inj he
      rw [phase_of_other rfl hstep]
      exact h.idle hbegun _ hloop
  | destroy howner hmain =>
      rw [howner] at hinit hdestructions
      exact ⟨hinit, hstart, hdestructions, h.made, h.idle, fun _ => hmain⟩

/-- The owner that has come past the first semaphore has seen it posted. -/
theorem Counted.main_ne (h : Counted s) (howner : s.owner ≠ .constructing) :
    s.main ≠ .created := by
  intro hmain
  have hinit := h.initSemphore
  rw [hmain] at hinit
  cases hphase : s.owner <;> simp_all [MainPhase.inits, OwnerPhase.inits]

theorem Counted.handshake (h : Counted s) : Handshake s where
  there howner := h.made (h.main_ne howner)
  starts hstarted := by
    have hstart := h.startSemphore
    rw [MainPhase.isStarted_iff.mp hstarted] at hstart
    rw [← hstart]
    exact Nat.succ_pos _
  idle hnot := by
    refine h.idle ?_
    cases hmain : s.main <;> simp_all [MainPhase.IsStarted, MainPhase.begun]
  notLost hmain hpos := by
    have hstart := h.startSemphore
    rw [hmain] at hstart
    rw [← hstart] at hpos
    exact hpos

theorem Counted.destroyedTwice (h : Counted s) : DestroyedTwice s := by
  intro howner
  have hended := h.ended howner
  have hstart := h.startSemphore
  have hdestructions := h.destructions
  rw [hended] at hstart hdestructions
  rw [howner] at hdestructions
  refine ⟨?_, hdestructions⟩
  rw [← hstart]
  exact Nat.succ_pos _

/-- **The two semaphores do their work**: in every run, whoever has constructed an IO thread finds
its event loop and its thread id there; the loop takes no step of its own before `start` has been
called; and a `start` that comes before `Main` waits for it is not lost. -/
theorem ioThread_starts (steps : List (IOThreadStep τ)) :
    Always ioThreadStep Handshake (IOThreadRun.start τ) steps :=
  (always_of_step Counted.step (Counted.start τ) steps).imp fun _ h => h.handshake

/-- **Nobody comes to the end of the destructor alone**: it waits for ever if the thread has never
been started, and otherwise `Main` has run it, too, on the same object. -/
theorem destroyed_twice (steps : List (IOThreadStep τ)) :
    Always ioThreadStep DestroyedTwice (IOThreadRun.start τ) steps :=
  (always_of_step Counted.step (Counted.start τ) steps).imp fun _ h => h.destroyedTwice

/-- A thread that is started, waits, and is destroyed. -/
example : (after ioThreadStep (IOThreadRun.start Bool)
    [.make 7, .postInit, .construct, .start, .waitStart, .loop (.loop .check), .loop (.loop .swap),
      .loop (.loop .nextTask), .stop, .stopWake, .loop (.loop (.epollReturns [])),
      .loop (.loop .queueHandler), .loop (.loop .check), .mainStop, .mainEnd, .destroy]).map
      (fun s => (s.owner, s.destructions)) = some (.destroyed, 2) := rfl

/-! ### The loop of the thread -/

/-- The loop of the thread, once it has been made, is `eventLoop`. -/
structure Drives (s : IOThreadRun τ) (eventLoop : EventLoop τ) : Prop where
  loop : s.eventLoop.getD (EventLoop.start τ) = eventLoop
  notMade : s.main = .created → s.eventLoop = none

/-- A step that makes a step of the loop. -/
theorem Drives.onLoop {eventLoop eventLoop₁ eventLoop' : EventLoop τ} {s' : IOThreadRun τ}
    (h : Drives s eventLoop) {loopStep : TaskStep τ} (hloop : s.eventLoop = some eventLoop₁)
    (hs : eventLoop' ∈ taskStep eventLoop₁ loopStep) (hloop' : s'.eventLoop = some eventLoop')
    (hmain : s'.main = .created → s.main = .created) :
    ∃ steps eventLoop', after taskStep eventLoop steps = some eventLoop' ∧
      Drives s' eventLoop' := by
  obtain rfl : eventLoop₁ = eventLoop := by
    rw [← h.loop, hloop]
    rfl
  refine ⟨[loopStep], eventLoop', ?_, ?_, fun hcreated => ?_⟩
  · show (taskStep eventLoop₁ loopStep).bind _ = _
    rw [hs]
    rfl
  · rw [hloop']
    rfl
  · have hnone := h.notMade (hmain hcreated)
    rw [hloop] at hnone
    cases hnone

theorem Drives.step (s : IOThreadRun τ) (step : IOThreadStep τ) (s' : IOThreadRun τ)
    (eventLoop : EventLoop τ) (h : Drives s eventLoop) (hs : s' ∈ ioThreadStep s step) :
    ∃ steps eventLoop', after taskStep eventLoop steps = some eventLoop' ∧
      Drives s' eventLoop' := by
  cases ioThreadMove_of_ioThreadStep hs with
  | make threadId hmain =>
      refine ⟨[], eventLoop, rfl, ?_, nofun⟩
      rw [← h.loop, h.notMade hmain]
      rfl
  | postInit hmain => exact ⟨[], eventLoop, rfl, h.loop, nofun⟩
  | construct howner hpos => exact ⟨[], eventLoop, rfl, h.loop, h.notMade⟩
  | start howner => exact ⟨[], eventLoop, rfl, h.loop, h.notMade⟩
  | waitStart hmain hpos => exact ⟨[], eventLoop, rfl, h.loop, nofun⟩
  | loop hmay hloop hstep => exact h.onLoop hloop hstep rfl id
  | mainStop hmain hloop hstep => exact h.onLoop hloop hstep rfl nofun
  | mainEnd hmain hloop hstep => exact h.onLoop hloop hstep rfl nofun
  | join howner => exact ⟨[], eventLoop, rfl, h.loop, h.notMade⟩
  | joined howner hmain => exact ⟨[], eventLoop, rfl, h.loop, h.notMade⟩
  | stop howner hloop hstep => exact h.onLoop hloop hstep rfl id
  | stopWake howner hloop hstep => exact h.onLoop hloop hstep rfl id
  | destroy howner hmain => exact ⟨[], eventLoop, rfl, h.loop, h.notMade⟩

/-- **What holds of every run of an event loop holds of the loop of an IO thread**, too: neither
the constructor nor the destructor does anything to it that is not one of its steps. -/
theorem ioThread_runs_loop (steps : List (IOThreadStep τ)) :
    Always ioThreadStep
      (fun s => ∀ eventLoop ∈ s.eventLoop,
        ∃ loopSteps, after taskStep (EventLoop.start τ) loopSteps = some eventLoop)
      (IOThreadRun.start τ) steps := by
  have hstart : Drives (IOThreadRun.start τ) (EventLoop.start τ) := ⟨rfl, fun _ => rfl⟩
  refine (always_simulates Drives.step hstart steps).imp fun s h eventLoop hloop => ?_
  obtain ⟨loopSteps, e, hafter, hdrives⟩ := h
  obtain rfl : eventLoop = e := by
    rw [← hdrives.loop, hloop]
    rfl
  exact ⟨loopSteps, hafter⟩

end TinyRpc
