/-
TinyRpc/CurrentEventloop.lean

The event loop of a thread, as the users of `Get_Current_Eventloop` are given it.

The thread keeps a `unique_ptr` to its loop, and `Get_Current_Eventloop` returns it
by moving it out.  So the thread never keeps a loop: each call finds none, creates
one and gives it away.  What one user registers is on a loop that no other user
runs: `loops_differ`.

`sameLoop_iff`: all calls yield the same loop only if there is at most one.
-/
import TinyRpc.Base.Runs

namespace TinyRpc

open Runs

/-- The users of `Get_Current_Eventloop`: `Logger::init` and two constructors. -/
inductive LoopUser
  | loggerInit
  | tcpServer
  | tcpClient
  deriving DecidableEq

/-- A thread; loops are named by how many were created before them. -/
structure LoopThread where
  /-- `thread_current_eventloop` -/
  current : Option Nat
  created : Nat
  /-- the users so far, and the loops that they were given -/
  yielded : List (LoopUser × Nat)
  deriving DecidableEq

namespace LoopThread

/-- A thread before its first call. -/
def start : LoopThread := ⟨none, 0, []⟩

/-- `thread_current_eventloop = std::make_unique<EventLoop>()`, if it is null. -/
def ensure (s : LoopThread) : LoopThread :=
  match s.current with
  | some _ => s
  | none => { s with current := some s.created, created := s.created + 1 }

/-- `Get_Current_Eventloop`: what is returned is moved out. -/
def getCurrentEventloop (s : LoopThread) : Option Nat × LoopThread :=
  (s.ensure.current, { s.ensure with current := none })

end LoopThread

def getStep : Step LoopThread LoopUser := fun s user =>
  let (loop, s) := s.getCurrentEventloop
  loop.map fun loop => { s with yielded := s.yielded ++ [(user, loop)] }

/-- All users have been given the same loop. -/
def SameLoop (s : LoopThread) : Prop := ∀ p ∈ s.yielded, ∀ q ∈ s.yielded, p.2 = q.2

instance : DecidablePred SameLoop := fun s =>
  inferInstanceAs (Decidable (∀ p ∈ s.yielded, ∀ q ∈ s.yielded, p.2 = q.2))

/-- The thread keeps no loop, and those that it has given away are different. -/
structure GivenAway (s : LoopThread) : Prop where
  current : s.current = none
  old : ∀ p ∈ s.yielded, p.2 < s.created
  differ : (s.yielded.map Prod.snd).Nodup

/-- A call creates a loop. -/
theorem getStep_of_none {s : LoopThread} (h : s.current = none) (user : LoopUser) :
    getStep s user =
      some ⟨none, s.created + 1, s.yielded ++ [(user, s.created)]⟩ := by
  simp [getStep, LoopThread.getCurrentEventloop, LoopThread.ensure, h]

theorem GivenAway.step (s : LoopThread) (user : LoopUser) (s' : LoopThread) (h : GivenAway s)
    (hs : s' ∈ getStep s user) : GivenAway s' := by
  rw [getStep_of_none h.current] at hs
  obtain rfl := Option.some.inj hs
  refine ⟨rfl, fun p hp => ?_, ?_⟩
  · rcases List.mem_append.mp hp with hold | hnew
    · exact Nat.lt_succ_of_lt (h.old p hold)
    · rw [List.mem_singleton.mp hnew]
      exact Nat.lt_succ_self s.created
  · show ((s.yielded ++ [_]).map Prod.snd).Nodup
    rw [List.map_append, List.map_singleton]
    apply List.nodup_append.mpr
    refine ⟨h.differ, List.pairwise_singleton _ _, fun loop hloop loop' hloop' => ?_⟩
    obtain ⟨p, hp, rfl⟩ := List.mem_map.mp hloop
    rw [List.mem_singleton.mp hloop']
    exact Nat.ne_of_lt (h.old p hp)

theorem GivenAway.start : GivenAway LoopThread.start where
  current := rfl
  old := fun _ hp => absurd hp List.not_mem_nil
  differ := List.nodup_nil

/-- **No two calls yield the same loop.** -/
theorem loops_differ (calls : List LoopUser) :
    Always getStep (fun s => (s.yielded.map Prod.snd).Nodup) LoopThread.start calls :=
  (always_of_step GivenAway.step GivenAway.start calls).imp fun _ h => h.differ

/-- **All calls yield the same loop** if and only if there is one at most. -/
theorem sameLoop_iff (calls : List LoopUser) :
    Always getStep SameLoop LoopThread.start calls ↔ calls.length ≤ 1 := by
  match calls with
  | [] => simp [Always, SameLoop, LoopThread.start]
  | [user] =>
      simp [Always, getStep_of_none, SameLoop, LoopThread.start]
  | first :: second :: rest =>
      have hlong : ¬ (first :: second :: rest).length ≤ 1 := by simp
      refine iff_of_false (fun h => ?_) hlong
      -- after the second call there are two loops
      have hfirst := h.2 _ (getStep_of_none rfl first)
      have hsecond := hfirst.2 _ (getStep_of_none rfl second)
      have hsame := hsecond.head (first, 0) (by simp [LoopThread.start]) (second, 1)
        (by simp [LoopThread.start])
      cases hsame

/-- The logger is initialised, and a server is created. -/
theorem not_sameLoop_server :
    ¬ Always getStep SameLoop LoopThread.start [.loggerInit, .tcpServer] := by
  decide

end TinyRpc
