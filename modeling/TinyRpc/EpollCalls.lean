/-
TinyRpc/EpollCalls.lean

`add_epoll_event` and `delete_epoll_event` of one event loop, from any thread.

The loop's own thread changes the epoll instance at once.  Another thread posts a task for it,
which the loop runs in its turn.  So a call of the loop's own thread may be carried out before
calls that were made earlier and are still in the queue; in the end the fd is watched
although it has been deleted, or is not although it has been added.

`epollCalls_inOrder_iff`: the calls for each fd are carried out in the order in which they are
made in exactly the runs in which the loop's own thread finds no other request for the same fd
in the queue.  `watched_as_called` is what this is good for: the kernel watches the fds whose
last call has added them.  That an fd is closed, which takes it off the kernel's list without
a call, is not among the steps.
-/
import TinyRpc.ListenFds
import TinyRpc.LoopTasks

namespace TinyRpc

open Runs Fifo

/-- What a call asks for; the `FdEvent` is told by its fd. -/
inductive EpollRequest (φ : Type)
  | addEpollEvent (fd : φ)
  | deleteEpollEvent (fd : φ)
  deriving DecidableEq

def EpollRequest.fd {φ : Type} : EpollRequest φ → φ
  | .addEpollEvent fd => fd
  | .deleteEpollEvent fd => fd

variable {φ ε : Type} [DecidableEq φ]

/-- An event loop with its epoll instance.  Tasks posted for other reasons are `none`. -/
structure EpollLoop (φ ε : Type) where
  eventLoop : EventLoop (Option (EpollRequest φ))
  fds : ListenFds φ ε
  /-- what `get_epoll_event` of the `FdEvent` of each fd returns -/
  events : φ → ε

/-- The call of `add_to_epoll` or `delete_from_epoll` that a request comes to. -/
def EpollRequest.call (events : φ → ε) (succeeds : Bool) : EpollRequest φ → EpollCall φ ε
  | .addEpollEvent fd => .addEpollEvent fd (events fd) succeeds
  | .deleteEpollEvent fd => .deleteEpollEvent fd succeeds

namespace EventLoop

/-- The request whose task the loop runs in a step. -/
def request (s : EventLoop (Option (EpollRequest φ))) :
    TaskStep (Option (EpollRequest φ)) → Option (EpollRequest φ)
  | .loop .nextTask =>
      match s.batch with
      | .posted request :: _ => request
      | _ => none
  | _ => none

/-- The loop's own thread may make calls: before and after `loop`, in a task, and at an
`EPOLLERR`. -/
def MayCall {τ : Type} (s : EventLoop τ) : Prop :=
  match s.phase with
  | .check => True
  | .running _ => True
  | .queueing _ => True
  | .stopped => True
  | _ => False

instance {τ : Type} (s : EventLoop τ) : Decidable s.MayCall := by
  unfold MayCall
  split <;> infer_instance

end EventLoop

inductive EpollLoopStep (φ ε : Type)
  /-- a step of the loop or of another thread; a call of another thread is the push of its
  request, and `succeeds` is for the `epoll_ctl` of a request that the loop runs -/
  | loop (step : TaskStep (Option (EpollRequest φ))) (succeeds : Bool)
  /-- a call of the loop's own thread -/
  | call (request : EpollRequest φ) (succeeds : Bool)
  /-- `listen` or `cancel` of the `FdEvent` -/
  | setEvent (fd : φ) (event : ε)

def epollLoopStep : Step (EpollLoop φ ε) (EpollLoopStep φ ε)
  | s, .loop step succeeds =>
      (taskStep s.eventLoop step).bind fun eventLoop =>
        match s.eventLoop.request step with
        | some request =>
            (epollStep s.fds (request.call s.events succeeds)).map fun fds =>
              { s with eventLoop := eventLoop, fds := fds }
        | none => some { s with eventLoop := eventLoop }
  | s, .call request succeeds =>
      if s.eventLoop.MayCall then
        (epollStep s.fds (request.call s.events succeeds)).map fun fds => { s with fds := fds }
      else none
  | s, .setEvent fd event => some { s with events := Function.update s.events fd event }

/-- The requests among the tasks. -/
def requests (tasks : List (Task (Option (EpollRequest φ)))) : List (EpollRequest φ) :=
  tasks.filterMap fun
    | .posted request => request
    | _ => none

/-- The requests that wait for the loop. -/
def EpollLoop.waiting (s : EpollLoop φ ε) : List (EpollRequest φ) :=
  requests (taskPorts.holds s.eventLoop)

/-- A call puts its request in; a request is taken out when it is carried out. -/
def epollPorts : Ports (EpollLoop φ ε) (EpollLoopStep φ ε) (EpollRequest φ) where
  holds s := s.waiting
  puts
    | s, .loop step _ => requests (taskPorts.puts s.eventLoop step)
    | _, .call request _ => [request]
    | _, .setEvent _ _ => []
  takes
    | s, .loop step _ => (s.eventLoop.request step).toList
    | _, .call request _ => [request]
    | _, .setEvent _ _ => []

/-- A loop that is about to start, with an empty epoll instance. -/
def EpollLoop.start (events : φ → ε) : EpollLoop φ ε :=
  ⟨EventLoop.start _, ListenFds.start, events⟩

def EpollLoop.logged (events : φ → ε) : Logged (EpollLoop φ ε) (EpollRequest φ) :=
  ⟨EpollLoop.start events, [], []⟩

/-- The loop's own thread calls only when all requests that wait for the same fd ask for the
same. -/
def CallsSettled (l : Logged (EpollLoop φ ε) (EpollRequest φ)) : EpollLoopStep φ ε → Prop
  | .call request _ => ∀ r ∈ l.state.waiting, r.fd = request.fd → r = request
  | _ => True

/-- Every `ADD` and every `DEL` succeeds. -/
def CallsSucceed (l : Logged (EpollLoop φ ε) (EpollRequest φ)) : EpollLoopStep φ ε → Prop
  | .loop step succeeds =>
      ∀ request ∈ l.state.eventLoop.request step,
        ChangesSucceed l.state.fds (request.call l.state.events succeeds)
  | .call request succeeds => ChangesSucceed l.state.fds (request.call l.state.events succeeds)
  | .setEvent _ _ => True

/-- The last of the requests for the fd adds it. -/
def AddedLast (requests : List (EpollRequest φ)) (fd : φ) : Prop :=
  (requests.filter (EpollRequest.fd · = fd)).getLast? = some (.addEpollEvent fd)

/-- Of the fds for which no request waits, the kernel watches exactly those that the last call
has added. -/
def WatchedAsCalled (l : Logged (EpollLoop φ ε) (EpollRequest φ)) : Prop :=
  ∀ fd, (∀ request ∈ l.state.waiting, request.fd ≠ fd) →
    ((l.state.fds.interest fd).isSome ↔ AddedLast l.put fd)

/-! ### What a step can do -/

section Steps

variable {s s' : EpollLoop φ ε} {step : TaskStep (Option (EpollRequest φ))} {succeeds : Bool}

omit [DecidableEq φ] in
theorem requests_append (tasks tasks' : List (Task (Option (EpollRequest φ)))) :
    requests (tasks ++ tasks') = requests tasks ++ requests tasks' :=
  List.filterMap_append ..

omit [DecidableEq φ] in
/-- The loop carries out the request that it takes. -/
theorem requests_takes (s : EventLoop (Option (EpollRequest φ)))
    (step : TaskStep (Option (EpollRequest φ))) :
    requests (taskPorts.takes s step) = (s.request step).toList := by
  unfold EventLoop.request
  split
  · show requests s.batch.head?.toList = _
    rcases s.batch with - | ⟨task, tempTasks⟩
    · rfl
    · rcases task with (- | request) | task | -
      · rfl
      · rfl
      · rfl
      · rfl
  · rename_i hother
    show requests (taskPorts.takes s step) = []
    unfold taskPorts
    dsimp only
    split
    · exact (hother rfl).elim
    · rfl

/-- What a step does to the loop, to the epoll instance and to what the `FdEvent`s return. -/
inductive EpollMove (s : EpollLoop φ ε) : EpollLoopStep φ ε → EpollLoop φ ε → Prop
  | run {step : TaskStep (Option (EpollRequest φ))} {succeeds : Bool}
      {eventLoop : EventLoop (Option (EpollRequest φ))} {request : EpollRequest φ}
      {fds : ListenFds φ ε} : eventLoop ∈ taskStep s.eventLoop step →
      s.eventLoop.request step = some request →
      fds ∈ epollStep s.fds (request.call s.events succeeds) →
      EpollMove s (.loop step succeeds) { s with eventLoop := eventLoop, fds := fds }
  | loop {step : TaskStep (Option (EpollRequest φ))} {succeeds : Bool}
      {eventLoop : EventLoop (Option (EpollRequest φ))} :
      eventLoop ∈ taskStep s.eventLoop step → s.eventLoop.request step = none →
      EpollMove s (.loop step succeeds) { s with eventLoop := eventLoop }
  | call {request : EpollRequest φ} {succeeds : Bool} {fds : ListenFds φ ε} :
      s.eventLoop.MayCall → fds ∈ epollStep s.fds (request.call s.events succeeds) →
      EpollMove s (.call request succeeds) { s with fds := fds }
  | setEvent (fd : φ) (event : ε) :
      EpollMove s (.setEvent fd event)
        { s with events := Function.update s.events fd event }

theorem epollMove_of_epollLoopStep {event : EpollLoopStep φ ε} (hs : s' ∈ epollLoopStep s event) :
    EpollMove s event s' := by
  cases event with
  | loop step succeeds =>
      obtain ⟨eventLoop, hstep, hs⟩ := Option.bind_eq_some_iff.mp hs
      split at hs
      · rename_i request hrequest
        obtain ⟨fds, hfds, rfl⟩ := Option.map_eq_some_iff.mp hs
        exact .run hstep hrequest hfds
      · rename_i hrequest
        obtain rfl := Option.some.inj hs
        exact .loop hstep hrequest
  | call request succeeds =>
      obtain ⟨hmay, hs⟩ := Option.mem_ite_none_right.mp hs
      obtain ⟨fds, hfds, rfl⟩ := Option.map_eq_some_iff.mp hs
      exact .call hmay hfds
  | setEvent fd event =>
      obtain rfl := Option.some.inj hs
      exact .setEvent fd event

end Steps

/-! ### The order of the calls -/

/-- The loop and the threads that post keep all requests in order. -/
theorem conserves_loop (l : Logged (EpollLoop φ ε) (EpollRequest φ))
    (step : TaskStep (Option (EpollRequest φ))) (succeeds : Bool) :
    epollPorts.Conserves epollLoopStep l (.loop step succeeds) := by
  intro s' hs'
  have hloop : s'.eventLoop ∈ taskStep l.state.eventLoop step := by
    cases epollMove_of_epollLoopStep hs' with
    | run hstep _ _ => exact hstep
    | loop hstep _ => exact hstep
  have htasks := conserves_taskStep ⟨l.state.eventLoop, [], []⟩ step _ hloop
  show requests _ ++ requests _ = (l.state.eventLoop.request step).toList ++ requests _
  rw [← requests_takes, ← requests_append, ← requests_append]
  exact congrArg requests htasks

/-- A call of the loop's own thread passes all requests that wait. -/
theorem conservesPer_iff (l : Logged (EpollLoop φ ε) (EpollRequest φ))
    (event : EpollLoopStep φ ε) (s : EpollLoop φ ε) (hs : s ∈ epollLoopStep l.state event) :
    epollPorts.ConservesPer EpollRequest.fd l.state event s ↔ CallsSettled l event := by
  cases event with
  | loop step succeeds =>
      exact iff_of_true ((conserves_loop l step succeeds).per hs) trivial
  | call request succeeds =>
      cases epollMove_of_epollLoopStep hs with
      | call hmay hfds => exact Ports.overtakes_iff
  | setEvent fd event =>
      cases epollMove_of_epollLoopStep hs with
      | setEvent => exact iff_of_true (fun k => congrArg _ (List.append_nil _)) trivial

theorem inOrderPer_logged (events : φ → ε) :
    epollPorts.InOrderPer EpollRequest.fd (EpollLoop.logged events) :=
  fun _ => rfl

/-- **The calls for each fd are carried out in the order in which they are made**, throughout a
run, if and only if the loop's own thread calls only when all requests that wait for the same fd
ask for the same. -/
theorem epollCalls_inOrder_iff (events : φ → ε) (steps : List (EpollLoopStep φ ε)) :
    Always (epollPorts.loggedStep epollLoopStep) (epollPorts.InOrderPer EpollRequest.fd)
        (EpollLoop.logged events) steps ↔
      Meets (epollPorts.loggedStep epollLoopStep) CallsSettled (EpollLoop.logged events) steps :=
  Ports.inOrderPer_iff conservesPer_iff (inOrderPer_logged events) steps

/-! ### What the kernel watches -/

section Watched

variable {l : Logged (EpollLoop φ ε) (EpollRequest φ)}

/-- The kernel watches the fds that have been added last, of the requests carried out. -/
structure Watching (l : Logged (EpollLoop φ ε) (EpollRequest φ)) : Prop where
  mirrors : l.state.fds.Mirrors
  listens : ∀ fd, fd ∈ l.state.fds.listenFds ↔ AddedLast l.taken fd
  inOrder : epollPorts.InOrderPer EpollRequest.fd l

/-- One more request carried out. -/
theorem addedLast_concat {taken : List (EpollRequest φ)}
    (request : EpollRequest φ) (fd : φ) :
    AddedLast (taken ++ [request]) fd ↔
      if request.fd = fd then request = .addEpollEvent fd else AddedLast taken fd := by
  unfold AddedLast
  rw [List.filter_append, List.filter_singleton]
  by_cases hfd : request.fd = fd
  · rw [decide_eq_true hfd, cond_true, List.getLast?_concat, if_pos hfd, Option.some.injEq]
  · rw [decide_eq_false hfd, cond_false, List.append_nil, if_neg hfd]

theorem listenFds_call {s s' : ListenFds φ ε} {events : φ → ε} {succeeds : Bool}
    {request : EpollRequest φ} (hs : s' ∈ epollStep s (request.call events succeeds)) (fd : φ) :
    fd ∈ s'.listenFds ↔
      if request.fd = fd then request = .addEpollEvent fd else fd ∈ s.listenFds := by
  cases request with
  | addEpollEvent own =>
      obtain ⟨interest, -, rfl⟩ := Option.map_eq_some_iff.mp hs
      show fd ∈ insert own s.listenFds ↔ if own = fd then _ else _
      rw [Finset.mem_insert]
      by_cases hfd : own = fd
      · simp [hfd]
      · simp [hfd, Ne.symm hfd]
  | deleteEpollEvent own =>
      show _ ↔ if own = fd then _ else _
      rcases ListenFds.deleteFromEpoll_cases hs with ⟨-, interest, -, rfl⟩ | ⟨hnot, rfl⟩
      · by_cases hfd : own = fd
        · simp [hfd]
        · simp [hfd, Ne.symm hfd]
      · by_cases hfd : own = fd
        · subst hfd
          simp [hnot]
        · simp [hfd]

theorem Watching.carryOut {fds : ListenFds φ ε} {request : EpollRequest φ} {succeeds : Bool}
    (h : Watching l) (hfds : fds ∈ epollStep l.state.fds (request.call l.state.events succeeds))
    (hsucceeds : ChangesSucceed l.state.fds (request.call l.state.events succeeds)) :
    fds.Mirrors ∧ ∀ fd, fd ∈ fds.listenFds ↔ AddedLast (l.taken ++ [request]) fd := by
  refine ⟨ListenFds.Mirrors.step _ _ _ h.mirrors hsucceeds hfds, fun fd => ?_⟩
  rw [listenFds_call hfds, addedLast_concat, h.listens fd]

theorem Watching.step (l : Logged (EpollLoop φ ε) (EpollRequest φ)) (event : EpollLoopStep φ ε)
    (l' : Logged (EpollLoop φ ε) (EpollRequest φ)) (h : Watching l)
    (hc : CallsSettled l event ∧ CallsSucceed l event)
    (hl' : l' ∈ epollPorts.loggedStep epollLoopStep l event) : Watching l' := by
  obtain ⟨hsettled, hsucceed⟩ := hc
  obtain ⟨s', hs', rfl⟩ := Option.map_eq_some_iff.mp hl'
  have hinOrder := h.inOrder.iff.mpr ((conservesPer_iff l event s' hs').mpr hsettled)
  cases epollMove_of_epollLoopStep hs' with
  | run hstep hrequest hfds =>
      obtain ⟨hmirrors, hlistens⟩ := h.carryOut hfds (hsucceed _ hrequest)
      refine ⟨hmirrors, fun fd => ?_, hinOrder⟩
      show _ ↔ AddedLast (l.taken ++ (l.state.eventLoop.request _).toList) fd
      rw [hrequest]
      exact hlistens fd
  | loop hstep hrequest =>
      refine ⟨h.mirrors, fun fd => ?_, hinOrder⟩
      show _ ↔ AddedLast (l.taken ++ (l.state.eventLoop.request _).toList) fd
      rw [hrequest, Option.toList_none, List.append_nil]
      exact h.listens fd
  | call hmay hfds =>
      obtain ⟨hmirrors, hlistens⟩ := h.carryOut hfds hsucceed
      exact ⟨hmirrors, hlistens, hinOrder⟩
  | setEvent fd event =>
      refine ⟨h.mirrors, fun fd => ?_, hinOrder⟩
      show _ ↔ AddedLast (l.taken ++ []) fd
      rw [List.append_nil]
      exact h.listens fd

theorem Watching.start (events : φ → ε) : Watching (EpollLoop.logged events) where
  mirrors _ := by simp [EpollLoop.logged, EpollLoop.start, ListenFds.start]
  listens _ := by simp [EpollLoop.logged, EpollLoop.start, ListenFds.start, AddedLast]
  inOrder := inOrderPer_logged events

/-- With no request for the fd left, the last that is carried out is the last that has come. -/
theorem Watching.watchedAsCalled (h : Watching l) : WatchedAsCalled l := by
  intro fd hnone
  have hempty : (epollPorts.holds l.state).filter (EpollRequest.fd · = fd) = [] := by
    refine List.filter_eq_nil_iff.mpr fun request hmem hfd => ?_
    exact hnone request hmem (of_decide_eq_true hfd)
  have hput := h.inOrder fd
  rw [List.filter_append, hempty, List.append_nil] at hput
  rw [← h.mirrors fd, h.listens fd, AddedLast, AddedLast, hput]

end Watched

/-- **The kernel watches what the last call says**: as long as the loop's own thread does not
overtake other requests for the same fd and no `ADD` and no `DEL` fails, an fd for which no
request waits is watched if and only if the last call for it, from whatever thread, has been
`add_epoll_event`. -/
theorem watched_as_called (events : φ → ε) (steps : List (EpollLoopStep φ ε))
    (h : Meets (epollPorts.loggedStep epollLoopStep)
      (fun l step => CallsSettled l step ∧ CallsSucceed l step) (EpollLoop.logged events) steps) :
    Always (epollPorts.loggedStep epollLoopStep) WatchedAsCalled (EpollLoop.logged events) steps :=
  always_of_meets (fun _ h => h.watchedAsCalled) Watching.step (Watching.start events) h

instance decidableCallsSettled (l : Logged (EpollLoop φ ε) (EpollRequest φ)) :
    ∀ step, Decidable (CallsSettled l step)
  | .loop _ _ => isTrue trivial
  | .call request _ =>
      inferInstanceAs (Decidable (∀ r ∈ l.state.waiting, r.fd = request.fd → r = request))
  | .setEvent _ _ => isTrue trivial

instance decidableChangesSucceed (s : ListenFds φ ε) : ∀ call, Decidable (ChangesSucceed s call)
  | .addEpollEvent fd _ succeeds =>
      inferInstanceAs (Decidable (fd ∉ s.listenFds → succeeds = true))
  | .deleteEpollEvent fd succeeds =>
      inferInstanceAs (Decidable (fd ∈ s.listenFds → succeeds = true))

instance decidableCallsSucceed (l : Logged (EpollLoop φ ε) (EpollRequest φ)) :
    ∀ step, Decidable (CallsSucceed l step)
  | .loop step succeeds =>
      inferInstanceAs (Decidable (∀ request ∈ l.state.eventLoop.request step,
        ChangesSucceed l.state.fds (request.call l.state.events succeeds)))
  | .call request succeeds =>
      inferInstanceAs (Decidable (ChangesSucceed l.state.fds
        (request.call l.state.events succeeds)))
  | .setEvent _ _ => isTrue trivial

/-- Another thread has an fd added; the loop runs its task; a task of the loop deletes it. -/
def addedAndDeleted : List (EpollLoopStep Nat Nat) :=
  [.loop (.loop (.push (some (.addEpollEvent 5)))) false, .loop (.loop .wake) false,
    .loop (.loop .check) false, .loop (.loop .swap) false, .setEvent 5 1,
    .loop (.loop .nextTask) true, .call (.deleteEpollEvent 5) true]

theorem watched_as_called_addedAndDeleted :
    Always (epollPorts.loggedStep epollLoopStep) WatchedAsCalled
      (EpollLoop.logged fun _ : Nat => 0) addedAndDeleted :=
  watched_as_called _ addedAndDeleted (by decide +kernel)

/-- A deletion by the loop's own thread that comes before the task: the fd is watched in the
end. -/
example : ¬ Meets (epollPorts.loggedStep epollLoopStep) CallsSettled
    (EpollLoop.logged fun _ : Nat => 0)
    [.loop (.loop (.push (some (.addEpollEvent 5)))) false,
      .call (.deleteEpollEvent 5) true] := by
  decide +kernel

end TinyRpc
