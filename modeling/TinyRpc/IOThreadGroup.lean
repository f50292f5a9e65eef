/-
TinyRpc/IOThreadGroup.lean

The IO threads of a server, and the connections that `on_accept` assigns to them.

`get_io_thread` takes the first of the threads whose task queues are shortest:
`firstLeast_getIoThread`.  A new connection adds one task to the queue of its thread, and the
loop of the thread soon takes it out.  So an accept that finds all queues drained
always goes to the first thread, whatever the threads have been given before.

`balanced_iff_meets`: with drained queues, the numbers of connections stay at most one
apart in exactly the runs in which there is one thread, or no accept but the first.
-/
import TinyRpc.LoopTasks

namespace TinyRpc

open Runs

variable {τ : Type}

structure IOThread (τ : Type) where
  /-- `m_event_loop` -/
  eventLoop : EventLoop τ
  /-- how many connections have been assigned to the thread -/
  connections : Nat
  deriving DecidableEq

/-- `m_io_thread_groups` -/
abbrev IOThreadGroup (τ : Type) := List (IOThread τ)

def EventLoop.getPendingTasksSize (s : EventLoop τ) : Nat := s.pendingTasks.length

def IOThread.getEventloopTaskSize (t : IOThread τ) : Nat := t.eventLoop.getPendingTasksSize

namespace IOThreadGroup

/-- The loop of `get_io_thread` from the thread `i` on. -/
def leastFrom (ansIdx numberFd i : Nat) : List Nat → Nat
  | [] => ansIdx
  | size :: sizes =>
      if size < numberFd then leastFrom i size (i + 1) sizes
      else leastFrom ansIdx numberFd (i + 1) sizes

/-- `none` is `m_io_thread_groups[0]` of a group without threads. -/
def getIoThread (g : IOThreadGroup τ) : Option Nat :=
  match g.map IOThread.getEventloopTaskSize with
  | [] => none
  | size :: sizes => some (leastFrom 0 size 1 sizes)

/-- How many connections each thread has been assigned. -/
def connections (g : IOThreadGroup τ) : List Nat := g.map IOThread.connections

/-- The group of `size` threads that are about to start. -/
def start (τ : Type) (size : Nat) : IOThreadGroup τ :=
  List.replicate size ⟨EventLoop.start τ, 0⟩

end IOThreadGroup

open IOThreadGroup

/-- `add_task(task, true)` of another thread, from its lock to its return. -/
def EventLoop.addTask (s : EventLoop τ) (task : τ) : Option (EventLoop τ) :=
  (loopStep s (.push task)).bind fun s => loopStep s .wake

inductive GroupEvent (τ : Type)
  /-- `on_accept`; `listen_read` of the new connection posts `task` -/
  | accept (task : τ)
  /-- anything else that happens to the queue of a thread -/
  | loop (i : Nat) (step : TaskStep τ)

def groupStep : Step (IOThreadGroup τ) (GroupEvent τ)
  | g, .accept task =>
      (getIoThread g).bind fun i => g[i]?.bind fun t =>
        (t.eventLoop.addTask task).map fun eventLoop =>
          g.set i { eventLoop := eventLoop, connections := t.connections + 1 }
  | g, .loop i step =>
      g[i]?.bind fun t => (taskStep t.eventLoop step).map fun eventLoop =>
        g.set i { t with eventLoop := eventLoop }

/-- Any two threads have been assigned the same number of connections, or one more. -/
def Balanced (g : IOThreadGroup τ) : Prop :=
  ∀ m ∈ g.connections, ∀ n ∈ g.connections, m ≤ n + 1

/-- An accept finds the queues of all threads drained. -/
def FindsDrained (g : IOThreadGroup τ) : GroupEvent τ → Prop
  | .accept _ => ∀ t ∈ g, t.eventLoop.pendingTasks = []
  | .loop .. => True

/-- There is one thread at most, or the accept is the first. -/
def OneThreadOrFirst (g : IOThreadGroup τ) : GroupEvent τ → Prop
  | .accept _ => g.length ≤ 1 ∨ ∀ n ∈ g.connections, n = 0
  | .loop .. => True

instance : DecidablePred (@Balanced τ) := fun g =>
  inferInstanceAs (Decidable (∀ m ∈ g.connections, ∀ n ∈ g.connections, m ≤ n + 1))

instance [DecidableEq τ] (g : IOThreadGroup τ) : (event : GroupEvent τ) →
    Decidable (FindsDrained g event)
  | .accept _ => inferInstanceAs (Decidable (∀ t ∈ g, t.eventLoop.pendingTasks = []))
  | .loop .. => inferInstanceAs (Decidable True)

/-! ### The thread that is elected -/

/-- `k` is the first place of the least of the sizes, which is `size`. -/
structure FirstLeast (sizes : List Nat) (k size : Nat) : Prop where
  at_eq : sizes[k]? = some size
  least : ∀ s ∈ sizes, size ≤ s
  first : ∀ j < k, ∀ s ∈ sizes[j]?, size < s

/-- One more size, which takes the place of the least if it is less. -/
theorem FirstLeast.concat {sizes : List Nat} {k size : Nat} (h : FirstLeast sizes k size)
    (s : Nat) :
    FirstLeast (sizes ++ [s]) (if s < size then sizes.length else k)
      (if s < size then s else size) := by
  have hk : k < sizes.length := (List.getElem?_eq_some_iff.mp h.at_eq).1
  split
  · rename_i hlt
    refine ⟨List.getElem?_concat_length, fun s' hs' => ?_, fun j hj s' hs' => ?_⟩
    · rcases List.mem_append.mp hs' with hmem | hmem
      · exact Nat.le_of_lt (Nat.lt_of_lt_of_le hlt (h.least s' hmem))
      · exact Nat.le_of_eq (List.mem_singleton.mp hmem).symm
    · rw [List.getElem?_append_left hj] at hs'
      exact Nat.lt_of_lt_of_le hlt (h.least s' (List.mem_of_getElem? hs'))
  · rename_i hge
    refine ⟨?_, fun s' hs' => ?_, fun j hj s' hs' => ?_⟩
    · rw [List.getElem?_append_left hk]
      exact h.at_eq
    · rcases List.mem_append.mp hs' with hmem | hmem
      · exact h.least s' hmem
      · rw [List.mem_singleton.mp hmem]
        exact Nat.le_of_not_lt hge
    · rw [List.getElem?_append_left (Nat.lt_trans hj hk)] at hs'
      exact h.first j hj s' hs'

/-- The loop goes on from the least of the sizes so far to the least of all. -/
theorem firstLeast_leastFrom {sizes rest : List Nat} {k size : Nat}
    (h : FirstLeast sizes k size) :
    ∃ least, FirstLeast (sizes ++ rest) (leastFrom k size sizes.length rest) least := by
  induction rest generalizing sizes k size with
  | nil => exact ⟨size, by rwa [List.append_nil]⟩
  | cons s rest ih =>
      obtain ⟨least, hleast⟩ := ih (h.concat s)
      rw [List.append_assoc, List.length_append, List.length_singleton] at hleast
      refine ⟨least, ?_⟩
      rw [leastFrom]
      split <;> rename_i hs
      · rwa [if_pos hs, if_pos hs] at hleast
      · rwa [if_neg hs, if_neg hs] at hleast

/-- **`get_io_thread` takes the first of the threads with the fewest pending tasks.** -/
theorem firstLeast_getIoThread {g : IOThreadGroup τ} {i : Nat} (h : getIoThread g = some i) :
    ∃ size, FirstLeast (g.map IOThread.getEventloopTaskSize) i size := by
  unfold getIoThread at h
  split at h
  · cases h
  · rename_i size sizes heq
    obtain rfl := Option.some.inj h
    have hone : FirstLeast [size] 0 size := by
      refine ⟨rfl, fun s hs => ?_, fun j hj => absurd hj j.not_lt_zero⟩
      exact Nat.le_of_eq (List.mem_singleton.mp hs).symm
    rw [heq]
    exact firstLeast_leastFrom hone

/-- If no thread has anything to do, the first one is taken. -/
theorem getIoThread_of_drained {g : IOThreadGroup τ} {i : Nat}
    (hdrained : ∀ t ∈ g, t.eventLoop.pendingTasks = []) (h : getIoThread g = some i) :
    i = 0 := by
  obtain ⟨size, hleast⟩ := firstLeast_getIoThread h
  by_contra hi
  have hlen : i < g.length := by
    simpa using (List.getElem?_eq_some_iff.mp hleast.at_eq).1
  -- the first thread would have more than the least, and it has nothing
  have hzero : (g.map IOThread.getEventloopTaskSize)[0]? = some 0 := by
    have h0 : 0 < g.length := by omega
    have hpending := hdrained g[0] (List.getElem_mem h0)
    simp [h0, IOThread.getEventloopTaskSize, EventLoop.getPendingTasksSize, hpending]
  exact absurd (hleast.first 0 (Nat.pos_of_ne_zero hi) 0 hzero) (Nat.not_lt_zero size)

/-! ### What a step does to the numbers of connections -/

variable {g g' : IOThreadGroup τ}

theorem connections_set (i : Nat) (t : IOThread τ) :
    connections (g.set i t) = (connections g).set i t.connections := List.map_set

/-- The loops assign nothing. -/
theorem connections_of_loop {i : Nat} {step : TaskStep τ} (h : g' ∈ groupStep g (.loop i step)) :
    g'.connections = g.connections := by
  obtain ⟨t, ht, h⟩ := Option.bind_eq_some_iff.mp h
  obtain ⟨eventLoop, -, rfl⟩ := Option.map_eq_some_iff.mp h
  obtain ⟨hi, rfl⟩ := List.getElem?_eq_some_iff.mp ht
  rw [connections_set, connections, ← List.getElem_map IOThread.connections]
  · exact List.set_getElem_self _
  · rwa [List.length_map]

/-- With drained queues, the first thread is assigned the connection. -/
theorem connections_of_accept {task : τ} (hdrained : FindsDrained g (.accept task))
    (h : g' ∈ groupStep g (.accept task)) :
    ∃ n ns, g.connections = n :: ns ∧ g'.connections = (n + 1) :: ns := by
  obtain ⟨i, hi, h⟩ := Option.bind_eq_some_iff.mp h
  obtain ⟨t, ht, h⟩ := Option.bind_eq_some_iff.mp h
  obtain ⟨eventLoop, -, rfl⟩ := Option.map_eq_some_iff.mp h
  obtain rfl : i = 0 := getIoThread_of_drained hdrained hi
  cases g with
  | nil => cases ht
  | cons t' ts =>
      obtain rfl := Option.some.inj ht
      exact ⟨t'.connections, connections ts, rfl, rfl⟩

/-! ### The balance -/

/-- The threads are balanced, and only the first has been assigned anything. -/
structure OnlyFirst (g : IOThreadGroup τ) : Prop where
  balanced : Balanced g
  rest : ∀ n ∈ g.connections.tail, n = 0

theorem onlyFirst_congr (h : g'.connections = g.connections) (hg : OnlyFirst g) :
    OnlyFirst g' := by
  obtain ⟨hbalanced, hrest⟩ := hg
  refine ⟨?_, by rwa [h]⟩
  unfold Balanced
  rwa [h]

theorem onlyFirst_start (size : Nat) : OnlyFirst (start τ size) := by
  have hzero : ∀ n ∈ (start τ size).connections, n = 0 := by
    intro n hn
    obtain ⟨t, ht, rfl⟩ := List.mem_map.mp hn
    rw [List.eq_of_mem_replicate ht]
  refine ⟨fun m hm n _ => ?_, fun n hn => hzero n (List.mem_of_mem_tail hn)⟩
  rw [hzero m hm]
  exact Nat.zero_le _

/-- What an accept that finds drained queues does to such a group. -/
theorem OnlyFirst.accept {task : τ} (h : OnlyFirst g) (hdrained : FindsDrained g (.accept task))
    (hs : g' ∈ groupStep g (.accept task)) :
    ∃ n ns, g.connections = n :: ns ∧ g'.connections = (n + 1) :: ns ∧ ∀ m ∈ ns, m = 0 := by
  obtain ⟨n, ns, hg, hg'⟩ := connections_of_accept hdrained hs
  have hrest := h.rest
  rw [hg] at hrest
  exact ⟨n, ns, hg, hg', hrest⟩

/-- The condition keeps the balance. -/
theorem onlyFirst_of_accept {n : Nat} {ns : List Nat} (hg : g.connections = n :: ns)
    (hg' : g'.connections = (n + 1) :: ns) (hrest : ∀ m ∈ ns, m = 0)
    (h : g.length ≤ 1 ∨ ∀ m ∈ g.connections, m = 0) : OnlyFirst g' := by
  have hlen : g.length = ns.length + 1 := by
    rw [← List.length_cons, ← hg, connections, List.length_map]
  refine ⟨fun m hm k hk => ?_, by rwa [hg']⟩
  rw [hg'] at hm hk
  rcases h with hone | hzero
  · -- the first thread is the only one
    obtain rfl : ns = [] := List.length_eq_zero_iff.mp (by omega)
    rw [List.mem_singleton.mp hm, List.mem_singleton.mp hk]
    exact Nat.le_succ _
  · rw [hg] at hzero
    have hn : n = 0 := hzero n List.mem_cons_self
    have hm1 : m ≤ 1 := by
      rcases List.mem_cons.mp hm with rfl | hmem
      · exact Nat.le_of_eq (congrArg (· + 1) hn)
      · rw [hrest m hmem]
        exact Nat.zero_le 1
    omega

/-- With two threads, the second connection of the first breaks the balance. -/
theorem oneThreadOrFirst_of_balanced {n : Nat} {ns : List Nat} (hg : g.connections = n :: ns)
    (hg' : g'.connections = (n + 1) :: ns) (hrest : ∀ m ∈ ns, m = 0) (h : Balanced g') :
    g.length ≤ 1 ∨ ∀ m ∈ g.connections, m = 0 := by
  have hlen : g.length = ns.length + 1 := by
    rw [← List.length_cons, ← hg, connections, List.length_map]
  cases ns with
  | nil => exact .inl (Nat.le_of_eq hlen)
  | cons m ms =>
      right
      have hle : n + 1 ≤ m + 1 := h (n + 1) (by simp [hg']) m (by simp [hg'])
      have hm : m = 0 := hrest m List.mem_cons_self
      intro k hk
      rw [hg] at hk
      rcases List.mem_cons.mp hk with rfl | hmem
      · omega
      · exact hrest k hmem

/-- **With drained queues the threads stay balanced** in exactly the runs in which there is one
thread at most, or no accept but the first. -/
theorem balanced_iff_meets (size : Nat) (events : List (GroupEvent τ))
    (hdrained : Meets groupStep FindsDrained (start τ size) events) :
    Always groupStep Balanced (start τ size) events ↔
      Meets groupStep OneThreadOrFirst (start τ size) events := by
  refine always_iff_meets_of_meets (fun g h => h.balanced) ?_ ?_ (onlyFirst_start size) hdrained
  · intro g event g' h hfinds hmeets hs
    cases event with
    | accept task =>
        obtain ⟨n, ns, hg, hg', hrest⟩ := h.accept hfinds hs
        exact onlyFirst_of_accept hg hg' hrest hmeets
    | loop i step => exact onlyFirst_congr (connections_of_loop hs) h
  · intro g event g' h hfinds hs hbalanced
    cases event with
    | accept task =>
        obtain ⟨n, ns, hg, hg', hrest⟩ := h.accept hfinds hs
        exact oneThreadOrFirst_of_balanced hg hg' hrest hbalanced
    | loop => trivial

/-- Two connections; the first thread turns to the task of the one before the other comes. -/
def twoAccepts : List (GroupEvent Nat) :=
  [.accept 1, .loop 0 (.loop .check), .loop 0 (.loop .swap), .accept 2]

theorem findsDrained_twoAccepts : Meets groupStep FindsDrained (start Nat 4) twoAccepts := by
  decide

theorem balanced_iff_meets_twoAccepts :
    Always groupStep Balanced (start Nat 4) twoAccepts ↔
      Meets groupStep OneThreadOrFirst (start Nat 4) twoAccepts :=
  balanced_iff_meets 4 twoAccepts findsDrained_twoAccepts

/-- The second connection goes to the first thread, too. -/
theorem not_balanced_drained :
    ¬ ∀ size (events : List (GroupEvent Nat)),
      Meets groupStep FindsDrained (start Nat size) events →
        Always groupStep Balanced (start Nat size) events := by
  intro h
  exact absurd (h 4 twoAccepts findsDrained_twoAccepts) (by decide)

end TinyRpc
