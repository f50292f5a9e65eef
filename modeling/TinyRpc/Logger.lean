/-
TinyRpc/Logger.lean

The lines of a logger on their way to the asynchronous logger.

`push_log` puts a line into the buffer.  Two routines hand the buffer over as a
batch: `log` swaps it with an empty vector, and `sync_loop`, which a timer calls,
with a copy of itself.  After that swap the lines are still in the buffer, and go
out again with every later batch: `after_syncLoops`.

`linesInOrder_iff_meets`: every line is handed over once and in order in exactly
the runs in which `sync_loop` finds the buffer empty.
-/
import TinyRpc.Base.Fifo

namespace TinyRpc

open Runs Fifo

structure Logger where
  /-- `m_buffer` -/
  buffer : List String
  deriving DecidableEq

namespace Logger

def pushLog (s : Logger) (message : String) : Logger := ⟨s.buffer ++ [message]⟩

/-- `m_buffer.swap(tmp_vec)`: the logger after it, and the batches that `push_log_buffer` of
the asynchronous logger is given, which is the vector if it is not empty. -/
def swapOut (s : Logger) (tmpVec : List String) : Logger × List (List String) :=
  (⟨tmpVec⟩, if s.buffer.isEmpty then [] else [s.buffer])

/-- `sync_loop`: what is swapped is a copy of the buffer. -/
def syncLoop (s : Logger) : Logger × List (List String) := s.swapOut s.buffer

/-- `log`: what is swapped is an empty vector. -/
def log (s : Logger) : Logger × List (List String) := s.swapOut []

end Logger

inductive LoggerCall
  | pushLog (message : String)
  | syncLoop
  | log
  deriving DecidableEq

/-- The logger after a call, and the batches handed over in it. -/
def Logger.call (s : Logger) : LoggerCall → Logger × List (List String)
  | .pushLog message => (s.pushLog message, [])
  | .syncLoop => s.syncLoop
  | .log => s.log

def loggerStep : Step Logger LoggerCall := fun s call => some (s.call call).1

/-- The buffer holds the lines; `push_log` puts one in, and a batch takes its lines out. -/
def linePorts : Ports Logger LoggerCall String where
  holds s := s.buffer
  puts
    | _, .pushLog message => [message]
    | _, _ => []
  takes s call := (s.call call).2.flatten

/-- `sync_loop` is called only while the buffer is empty. -/
def SyncsEmpty (l : Logged Logger String) : LoggerCall → Prop
  | .syncLoop => l.state.buffer = []
  | _ => True

/-- A logger before its first line. -/
def Logger.logged : Logged Logger String := ⟨⟨[]⟩, [], []⟩

/-! ### What becomes of the lines -/

/-- The batches of a swap are the buffer: an empty one is not handed over, and has no line. -/
theorem Logger.flatten_swapOut (s : Logger) (tmpVec : List String) :
    (s.swapOut tmpVec).2.flatten = s.buffer := by
  unfold swapOut
  rcases h : s.buffer with - | ⟨line, lines⟩
  · rfl
  · simp

theorem conserves_iff (l : Logged Logger String) (call : LoggerCall) :
    linePorts.Conserves loggerStep l call ↔ SyncsEmpty l call := by
  have hlines : linePorts.Conserves loggerStep l call ↔
      l.state.buffer ++ linePorts.puts l.state call =
        (l.state.call call).2.flatten ++ (l.state.call call).1.buffer := by
    simp [Ports.Conserves, loggerStep, linePorts]
  rw [hlines]
  cases call with
  | pushLog message => simp [linePorts, SyncsEmpty, Logger.call, Logger.pushLog]
  | syncLoop =>
      show _ = (l.state.swapOut l.state.buffer).2.flatten ++ l.state.buffer ↔ _
      rw [Logger.flatten_swapOut]
      simp [linePorts, SyncsEmpty]
  | log =>
      show _ = (l.state.swapOut []).2.flatten ++ [] ↔ _
      rw [Logger.flatten_swapOut]
      simp [linePorts, SyncsEmpty]

/-- **Every line is handed over once and in order**: the batches, one after the other, and
then the buffer are what has been pushed, throughout a run, if and only if `sync_loop` is
called only while the buffer is empty. -/
theorem linesInOrder_iff_meets (calls : List LoggerCall) :
    Always (linePorts.loggedStep loggerStep) linePorts.InOrder Logger.logged calls ↔
      Meets (linePorts.loggedStep loggerStep) SyncsEmpty Logger.logged calls := by
  have hstart : linePorts.InOrder Logger.logged := rfl
  exact (Ports.inOrder_iff_conserves hstart calls).trans (meets_congr conserves_iff)

/-- A line, and the timer. -/
theorem lines_repeated :
    ¬ Always (linePorts.loggedStep loggerStep) linePorts.InOrder Logger.logged
      [.pushLog "line", .syncLoop] := by
  decide +kernel

/-- **Every call of `sync_loop` hands the whole buffer over again.** -/
theorem after_syncLoops (l : Logged Logger String) (n : Nat) :
    after (linePorts.loggedStep loggerStep) l (List.replicate n .syncLoop) =
      some { l with taken := l.taken ++ (List.replicate n l.state.buffer).flatten } := by
  induction n generalizing l with
  | zero => simp [after]
  | succ n ih =>
      have hstep : linePorts.loggedStep loggerStep l .syncLoop =
          some { l with taken := l.taken ++ l.state.buffer } := by
        have htaken : linePorts.takes l.state .syncLoop = l.state.buffer :=
          l.state.flatten_swapOut l.state.buffer
        show some (⟨l.state, l.put ++ [], l.taken ++ linePorts.takes l.state .syncLoop⟩ :
          Logged Logger String) = _
        rw [htaken, List.append_nil]
      rw [List.replicate_succ, after, hstep, Option.bind_some, ih]
      simp [List.replicate_succ]

end TinyRpc
