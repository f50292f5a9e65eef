/-
TinyRpc/LogPipeline.lean

The way of a line from `INFO_LOG` to the file.

The macros push lines into the buffer of the logger, if its level lets them through.
`sync_loop` and `log` swap the buffer out and then put it, as a batch, into the queue of the
asynchronous logger; the thread of the asynchronous logger takes the batches out of the
queue one by one and writes them to its files.  In between it logs a line of its own, each
time that it looks at the queue.

A step is one operation on the buffer or on the queue, or one look at the stop flag.  `m_mutex`
keeps `sync_loop`, `log` and `stop` apart, and so nothing but a push comes between the copy and
the swap of `sync_loop`.  That two operations do not overlap is taken for granted here; the
locks do not see to it (`TinyRpc/BufferLocks.lean`, `TinyRpc/ScopeMutex.lean`).

`lines_written_iff`: the lines get to the files once and in order in exactly the runs in
which every copy that `sync_loop` swaps in is empty, among the runs in which no batch overtakes
another.  `no_line_lost`: however the steps interleave, no line is lost on the way.
`batches_repeat`: a program that only calls `sync_loop` writes, with each batch, all lines
from the first one on, as long as nothing is logged between a copy and its swap.
`stopped_writes_nothing`: after `stop` no batch is taken out of the queue any more, whatever
it holds, unless the thread has just looked at the flag.
-/
import TinyRpc.AsyncLogger
import TinyRpc.Logger

namespace TinyRpc

open Runs Fifo

/-! ### Levels -/

inductive LogLevel
  | unknown
  | debug
  | info
  | error
  deriving DecidableEq

namespace LogLevel

/-- The values of the enumerators. -/
def value : LogLevel → Int
  | unknown => -1
  | debug => 1
  | info => 2
  | error => 3

/-- The condition of the macros: a logger of this level takes a line of the other one. -/
def lets (setLevel level : LogLevel) : Bool := setLevel.value ≤ level.value

/-- `string_to_loglevel`. -/
def ofString (logLevel : String) : LogLevel :=
  if logLevel = "Debug" then debug
  else if logLevel = "Info" then info
  else if logLevel = "Error" then error
  else unknown

end LogLevel

/-! ### The threads -/

/-- Where the thread of the asynchronous logger stands in `Loop`. -/
inductive LogPhase
  /-- at the head of the outer loop -/
  | checking
  /-- past the first look at `m_stop_flag`, before the line of its own -/
  | announcing
  /-- in the inner loop, with or without a batch to take -/
  | waiting
  /-- past the second look at `m_stop_flag`, with a batch to take -/
  | taking
  /-- a batch has been taken out, and is to be written -/
  | writing (batch : List String)
  | ended
  deriving DecidableEq

structure LogPipeline where
  setLevel : LogLevel
  logger : Logger
  /-- `tmp_vec` of a `sync_loop` that has the mutex, from its copy to its swap -/
  tmpVec : Option (List String)
  /-- the batches that have been swapped out, on the way to `push_log_buffer` -/
  handing : List (List String)
  /-- `m_buffer` of the asynchronous logger -/
  queue : List (List String)
  stopFlag : Bool
  phase : LogPhase
  files : LogRun

/-- What the threads do. -/
inductive LogAct
  /-- `DEBUG_LOG`, `INFO_LOG` or `ERROR_LOG`, with the line that it formats -/
  | logLine (level : LogLevel) (line : String)
  /-- `sync_loop` gets the mutex and copies the buffer -/
  | syncCopy
  /-- `sync_loop` swaps the copy in and unlocks -/
  | syncSwap
  | log
  /-- the batch at the place goes into the queue -/
  | pushLogBuffer (i : Nat)
  | stop
  /-- the first look at the flag, at the head of the outer loop -/
  | check
  /-- `INFO_LOG`, with the line that it formats -/
  | infoLog (line : String)
  /-- the queue is not empty any more, and the flag is looked at again -/
  | wake
  /-- the front of the queue is taken out; what is pushed meanwhile goes behind it -/
  | take
  /-- the batch in hand is written, on the date -/
  | write (date : List UInt8)

namespace LogPipeline

/-- The macros: `push_log`, if the level of the logger lets the line through. -/
def logLine (s : LogPipeline) (level : LogLevel) (line : String) : LogPipeline :=
  if s.setLevel.lets level then { s with logger := s.logger.pushLog line } else s

/-- The logger after a swap, and the batches that it has given. -/
def swapped (s : LogPipeline) (next : Logger × List (List String)) : LogPipeline :=
  { s with logger := next.1, handing := s.handing ++ next.2 }

/-- `INIT_GLOBAL_LOGGER`, and the thread of the asynchronous logger at its loop. -/
def start (logLevel : String) (files : LogRun) : LogPipeline where
  setLevel := .ofString logLevel
  logger := ⟨[]⟩
  tmpVec := none
  handing := []
  queue := []
  stopFlag := false
  phase := .checking
  files := files

/-- The batch that has been taken out of the queue and not been written. -/
def inHand (s : LogPipeline) : List String :=
  match s.phase with
  | .writing batch => batch
  | _ => []

end LogPipeline

def logPipeStep : Step LogPipeline LogAct
  | s, .logLine level line => some (s.logLine level line)
  | s, .syncCopy =>
      if s.tmpVec = none then some { s with tmpVec := some s.logger.buffer } else none
  | s, .syncSwap =>
      s.tmpVec.map fun tmpVec => { s.swapped (s.logger.swapOut tmpVec) with tmpVec := none }
  | s, .log => if s.tmpVec = none then some (s.swapped s.logger.log) else none
  | s, .pushLogBuffer i =>
      s.handing[i]?.map fun batch =>
        { s with handing := s.handing.eraseIdx i, queue := s.queue ++ [batch] }
  | s, .stop => if s.tmpVec = none then some { s with stopFlag := true } else none
  | s, .check =>
      if s.phase = .checking then
        some { s with phase := if s.stopFlag then .ended else .announcing }
      else none
  | s, .infoLog line =>
      if s.phase = .announcing then some { s.logLine .info line with phase := .waiting } else none
  | s, .wake =>
      if s.phase = .waiting ∧ s.queue ≠ [] then
        some { s with phase := if s.stopFlag then .ended else .taking }
      else none
  | s, .take =>
      match s.phase, s.queue with
      | .taking, batch :: queue => some { s with queue := queue, phase := .writing batch }
      | _, _ => none
  | s, .write date =>
      match s.phase with
      | .writing batch =>
          (logStep s.files ⟨date, batch.map text⟩).map fun files =>
            { s with files := files, phase := if s.stopFlag then .ended else .checking }
      | _ => none

/-- The pipeline holds the lines of the batch in hand, the queue, the batches on the way and the
buffer, in this order.  A macro puts a line in, if the level lets it through, and the thread of
the asynchronous logger takes the lines of its batch out when it writes them. -/
def logPorts : Ports LogPipeline LogAct String where
  holds s := s.inHand ++ s.queue.flatten ++ s.handing.flatten ++ s.logger.buffer
  puts
    | s, .logLine level line => if s.setLevel.lets level then [line] else []
    | s, .infoLog line => if s.setLevel.lets .info then [line] else []
    | _, _ => []
  takes
    | s, .write _ => s.inHand
    | _, _ => []

/-- No batch overtakes another on its way into the queue. -/
def HandsInOrder (_ : Logged LogPipeline String) : LogAct → Prop
  | .pushLogBuffer i => i = 0
  | _ => True

/-- What `sync_loop` swaps in is empty: the buffer was, when it was copied. -/
def SyncsOnEmpty (l : Logged LogPipeline String) : LogAct → Prop
  | .syncSwap => ∀ tmpVec ∈ l.state.tmpVec, tmpVec = []
  | _ => True

/-! ### What a step does -/

/-- The steps of the pipeline, with what each needs and leaves. -/
inductive LogMove (s : LogPipeline) : LogAct → LogPipeline → Prop
  | logLine (level : LogLevel) (line : String) :
      LogMove s (.logLine level line) (s.logLine level line)
  | syncCopy : s.tmpVec = none → LogMove s .syncCopy { s with tmpVec := some s.logger.buffer }
  | syncSwap {tmpVec : List String} : s.tmpVec = some tmpVec →
      LogMove s .syncSwap { s.swapped (s.logger.swapOut tmpVec) with tmpVec := none }
  | log : s.tmpVec = none → LogMove s .log (s.swapped s.logger.log)
  | pushLogBuffer {i : Nat} {batch : List String} : s.handing[i]? = some batch →
      LogMove s (.pushLogBuffer i)
        { s with handing := s.handing.eraseIdx i, queue := s.queue ++ [batch] }
  | stop : s.tmpVec = none → LogMove s .stop { s with stopFlag := true }
  | check : s.phase = .checking →
      LogMove s .check { s with phase := if s.stopFlag then .ended else .announcing }
  | infoLog {line : String} : s.phase = .announcing →
      LogMove s (.infoLog line) { s.logLine .info line with phase := .waiting }
  | wake : s.phase = .waiting → s.queue ≠ [] →
      LogMove s .wake { s with phase := if s.stopFlag then .ended else .taking }
  | take {batch : List String} {queue : List (List String)} : s.phase = .taking →
      s.queue = batch :: queue →
      LogMove s .take { s with queue := queue, phase := .writing batch }
  | write {date : List UInt8} {batch : List String} {files : LogRun} : s.phase = .writing batch →
      logStep s.files ⟨date, batch.map text⟩ = some files →
      LogMove s (.write date)
        { s with files := files, phase := if s.stopFlag then .ended else .checking }

variable {s s' : LogPipeline} {act : LogAct}

theorem logMove_of_logPipeStep (h : s' ∈ logPipeStep s act) : LogMove s act s' := by
  cases act with
  | logLine level line =>
      obtain rfl := Option.some.inj h
      exact .logLine level line
  | syncCopy =>
      obtain ⟨hnone, h⟩ := Option.mem_ite_none_right.mp h
      obtain rfl := Option.some.inj h
      exact .syncCopy hnone
  | syncSwap =>
      obtain ⟨tmpVec, htmp, rfl⟩ := Option.map_eq_some_iff.mp h
      exact .syncSwap htmp
  | log =>
      obtain ⟨hnone, h⟩ := Option.mem_ite_none_right.mp h
      obtain rfl := Option.some.inj h
      exact .log hnone
  | pushLogBuffer i =>
      obtain ⟨batch, hbatch, rfl⟩ := Option.map_eq_some_iff.mp h
      exact .pushLogBuffer hbatch
  | stop =>
      obtain ⟨hnone, h⟩ := Option.mem_ite_none_right.mp h
      obtain rfl := Option.some.inj h
      exact .stop hnone
  | check =>
      obtain ⟨hphase, h⟩ := Option.mem_ite_none_right.mp h
      obtain rfl := Option.some.inj h
      exact .check hphase
  | infoLog line =>
      obtain ⟨hphase, h⟩ := Option.mem_ite_none_right.mp h
      obtain rfl := Option.some.inj h
      exact .infoLog hphase
  | wake =>
      obtain ⟨⟨hphase, hqueue⟩, h⟩ := Option.mem_ite_none_right.mp h
      obtain rfl := Option.some.inj h
      exact .wake hphase hqueue
  | take =>
      simp only [logPipeStep] at h
      split at h
      · rename_i batch queue hphase hqueue
        obtain rfl := Option.some.inj h
        exact .take hphase hqueue
      · cases h
  | write date =>
      simp only [logPipeStep] at h
      split at h
      · rename_i batch hphase
        obtain ⟨files, hfiles, rfl⟩ := Option.map_eq_some_iff.mp h
        exact .write hphase hfiles
      · cases h

/-- What the macros leave alone. -/
theorem logLine_frame (level : LogLevel) (line : String) :
    (s.logLine level line).files = s.files ∧ (s.logLine level line).queue = s.queue ∧
      (s.logLine level line).handing = s.handing ∧ (s.logLine level line).phase = s.phase ∧
      (s.logLine level line).stopFlag = s.stopFlag := by
  unfold LogPipeline.logLine
  split
  · exact ⟨rfl, rfl, rfl, rfl, rfl⟩
  · exact ⟨rfl, rfl, rfl, rfl, rfl⟩

/-! ### The lines -/

/-- After a swap the lines are on their way, and what has been swapped in is in the buffer. -/
theorem holds_swapOut (tmpVec : List String) :
    logPorts.holds (s.swapped (s.logger.swapOut tmpVec)) = logPorts.holds s ++ tmpVec := by
  show s.inHand ++ s.queue.flatten ++ (s.handing ++ (s.logger.swapOut tmpVec).2).flatten ++
      tmpVec = _
  rw [List.flatten_append, Logger.flatten_swapOut, ← List.append_assoc]
  rfl

theorem buffer_logLine (level : LogLevel) (line : String) :
    (s.logLine level line).logger.buffer =
      s.logger.buffer ++ if s.setLevel.lets level then [line] else [] := by
  unfold LogPipeline.logLine
  split
  · rfl
  · exact (List.append_nil _).symm

theorem holds_logLine (level : LogLevel) (line : String) :
    logPorts.holds (s.logLine level line) =
      logPorts.holds s ++ if s.setLevel.lets level then [line] else [] := by
  obtain ⟨-, hqueue, hhanding, hphase, -⟩ := @logLine_frame s level line
  have hhand : (s.logLine level line).inHand = s.inHand := by
    unfold LogPipeline.inHand
    rw [hphase]
  show (s.logLine level line).inHand ++ (s.logLine level line).queue.flatten ++
    (s.logLine level line).handing.flatten ++ (s.logLine level line).logger.buffer = _
  rw [hhand, hqueue, hhanding, buffer_logLine, ← List.append_assoc]
  rfl

/-- A batch that goes into the queue leaves the others as they are. -/
theorem perm_eraseIdx {handing : List (List String)} {i : Nat} {batch : List String}
    (h : handing[i]? = some batch) :
    (batch ++ (handing.eraseIdx i).flatten).Perm handing.flatten := by
  induction handing generalizing i with
  | nil => cases h
  | cons first handing ih =>
      cases i with
      | zero =>
          obtain rfl := Option.some.inj h
          exact .refl _
      | succ i =>
          show (batch ++ (first ++ (handing.eraseIdx i).flatten)).Perm (first ++ handing.flatten)
          refine List.Perm.trans ?_ ((ih h).append_left first)
          rw [← List.append_assoc, ← List.append_assoc]
          exact List.perm_append_comm.append_right _

theorem perm_pushLogBuffer {i : Nat} {batch : List String} (h : s.handing[i]? = some batch) :
    (logPorts.holds s).Perm (logPorts.holds
      { s with handing := s.handing.eraseIdx i, queue := s.queue ++ [batch] }) := by
  show (s.inHand ++ s.queue.flatten ++ s.handing.flatten ++ s.logger.buffer).Perm
    (s.inHand ++ (s.queue ++ [batch]).flatten ++ (s.handing.eraseIdx i).flatten ++ s.logger.buffer)
  rw [List.flatten_append, List.flatten_singleton, ← List.append_assoc s.inHand,
    List.append_assoc _ batch]
  exact ((perm_eraseIdx h).symm.append_left _).append_right _

theorem handing_eq_cons {batch : List String} (h : s.handing[0]? = some batch) :
    ∃ rest, s.handing = batch :: rest := by
  rw [← List.head?_eq_getElem?] at h
  exact List.head?_eq_some_iff.mp h

/-- The batch that is first on the way keeps its place in front of the others. -/
theorem holds_pushLogBuffer {batch : List String} (h : s.handing[0]? = some batch) :
    logPorts.holds s = logPorts.holds
      { s with handing := s.handing.eraseIdx 0, queue := s.queue ++ [batch] } := by
  obtain ⟨rest, hrest⟩ := handing_eq_cons h
  show s.inHand ++ s.queue.flatten ++ s.handing.flatten ++ s.logger.buffer =
    s.inHand ++ (s.queue ++ [batch]).flatten ++ (s.handing.eraseIdx 0).flatten ++ s.logger.buffer
  rw [hrest, List.flatten_append, List.flatten_singleton, List.flatten_cons]
  simp only [List.append_assoc, List.eraseIdx_cons_zero]

/-- **Every other step conserves the lines.** -/
theorem conserves_of_move (h : LogMove s act s') (hsync : act ≠ .syncSwap)
    (hhand : ∀ i, act ≠ .pushLogBuffer i) :
    logPorts.holds s ++ logPorts.puts s act = logPorts.takes s act ++ logPorts.holds s' := by
  cases h with
  | logLine level line => exact (holds_logLine level line).symm
  | syncCopy hnone => exact List.append_nil _
  | syncSwap htmp => exact absurd rfl hsync
  | log hnone => exact (holds_swapOut []).symm
  | pushLogBuffer hbatch => exact absurd rfl (hhand _)
  | stop hnone => exact List.append_nil _
  | check hphase =>
      rcases hstop : s.stopFlag with - | - <;> simp [logPorts, LogPipeline.inHand, hphase]
  | infoLog hphase =>
      rename_i line
      obtain ⟨-, hqueue, hhanding, -, -⟩ := @logLine_frame s .info line
      simp [logPorts, LogPipeline.inHand, hphase, hqueue, hhanding, buffer_logLine]
  | wake hphase hqueue =>
      rcases hstop : s.stopFlag with - | - <;> simp [logPorts, LogPipeline.inHand, hphase]
  | take hphase hqueue =>
      simp [logPorts, LogPipeline.inHand, hphase, hqueue]
  | write hphase hfiles =>
      rcases hstop : s.stopFlag with - | - <;> simp [logPorts, LogPipeline.inHand, hphase]

/-- Over a step in which no batch overtakes another, the lines are conserved exactly if what
`sync_loop` swaps in is empty. -/
theorem logConserves_iff (l : Logged LogPipeline String) (act : LogAct)
    (hhand : HandsInOrder l act) :
    logPorts.Conserves logPipeStep l act ↔ SyncsOnEmpty l act := by
  by_cases hsync : act = .syncSwap
  · subst hsync
    constructor
    · intro h tmpVec htmp
      have hlines := h _ (Option.map_eq_some_iff.mpr ⟨tmpVec, htmp, rfl⟩)
      have hkept : logPorts.holds l.state ++ [] = logPorts.holds l.state ++ tmpVec :=
        hlines.trans (@holds_swapOut l.state tmpVec)
      exact (List.append_cancel_left hkept).symm
    · intro h s' hs'
      obtain ⟨tmpVec, htmp, rfl⟩ := Option.map_eq_some_iff.mp hs'
      obtain rfl : tmpVec = [] := h tmpVec htmp
      exact (holds_swapOut []).symm
  · have hsyncs : SyncsOnEmpty l act := by
      cases act with
      | syncSwap => exact absurd rfl hsync
      | _ => trivial
    refine iff_of_true (fun s' hs' => ?_) hsyncs
    have hmove := logMove_of_logPipeStep hs'
    by_cases hpush : ∃ i, act = .pushLogBuffer i
    · obtain ⟨i, rfl⟩ := hpush
      obtain rfl : i = 0 := hhand
      cases hmove with
      | pushLogBuffer hbatch => exact (List.append_nil _).trans (holds_pushLogBuffer hbatch)
    · exact conserves_of_move hmove hsync fun i hi => hpush ⟨i, hi⟩

theorem logPorts_start (logLevel : String) (files : LogRun) :
    logPorts.InOrder ⟨LogPipeline.start logLevel files, [], []⟩ := rfl

/-- **The lines get to the files once and in order**: what has been written, and then what the
pipeline holds, is what has been logged, throughout a run in which no batch overtakes another, if
and only if what `sync_loop` swaps in is always empty. -/
theorem lines_written_iff (logLevel : String) (files : LogRun) (acts : List LogAct)
    (hhand : Meets (logPorts.loggedStep logPipeStep) HandsInOrder
      ⟨LogPipeline.start logLevel files, [], []⟩ acts) :
    Always (logPorts.loggedStep logPipeStep) logPorts.InOrder
        ⟨LogPipeline.start logLevel files, [], []⟩ acts ↔
      Meets (logPorts.loggedStep logPipeStep) SyncsOnEmpty
        ⟨LogPipeline.start logLevel files, [], []⟩ acts :=
  Ports.inOrder_iff_of_meets logConserves_iff (logPorts_start logLevel files) hhand

/-- No file, and a limit of 100 bytes. -/
def emptyDisk : LogRun := LogRun.start [] [] 100 fun _ => []

/-- A line that comes between the copy of an empty buffer and its swap, and two that are handed
over together. -/
def twoLines : List LogAct :=
  [.syncCopy, .logLine .error "first", .syncSwap, .pushLogBuffer 0, .logLine .info "second",
    .check, .infoLog "third", .log, .pushLogBuffer 0, .wake, .take, .write [49], .check,
    .infoLog "fourth", .wake, .take, .write [49]]

instance decidableHandsInOrder (l : Logged LogPipeline String) :
    ∀ act, Decidable (HandsInOrder l act)
  | .pushLogBuffer i => inferInstanceAs (Decidable (i = 0))
  | .logLine _ _ => isTrue trivial
  | .syncCopy => isTrue trivial
  | .syncSwap => isTrue trivial
  | .log => isTrue trivial
  | .stop => isTrue trivial
  | .check => isTrue trivial
  | .infoLog _ => isTrue trivial
  | .wake => isTrue trivial
  | .take => isTrue trivial
  | .write _ => isTrue trivial

theorem lines_written_iff_twoLines :
    Always (logPorts.loggedStep logPipeStep) logPorts.InOrder
        ⟨LogPipeline.start "Info" emptyDisk, [], []⟩ twoLines ↔
      Meets (logPorts.loggedStep logPipeStep) SyncsOnEmpty
        ⟨LogPipeline.start "Info" emptyDisk, [], []⟩ twoLines :=
  lines_written_iff "Info" emptyDisk twoLines (by decide +kernel)

/-- **No line is lost**: however the steps interleave, every line that has been logged has been
written or is still held, as often as it has been logged. -/
theorem no_line_lost (logLevel : String) (files : LogRun) (acts : List LogAct) :
    Always (logPorts.loggedStep logPipeStep) logPorts.NothingLost
      ⟨LogPipeline.start logLevel files, [], []⟩ acts := by
  have hstart : logPorts.NothingLost ⟨LogPipeline.start logLevel files, [], []⟩ :=
    List.Subperm.refl _
  refine Ports.always_nothingLost (fun s act s' hs' => ?_) hstart acts
  have hmove := logMove_of_logPipeStep hs'
  by_cases hsync : act = .syncSwap
  · subst hsync
    cases hmove with
    | @syncSwap tmpVec htmp =>
        -- what has been copied is in the buffer again
        show (logPorts.holds s ++ []).Subperm
          (logPorts.holds (s.swapped (s.logger.swapOut tmpVec)))
        rw [holds_swapOut, List.append_nil]
        exact (List.sublist_append_left _ _).subperm
  · by_cases hpush : ∃ i, act = .pushLogBuffer i
    · obtain ⟨i, rfl⟩ := hpush
      cases hmove with
      | pushLogBuffer hbatch =>
          refine List.Perm.subperm ?_
          exact (List.append_nil _).symm ▸ perm_pushLogBuffer hbatch
    · rw [conserves_of_move hmove hsync fun i hi => hpush ⟨i, hi⟩]

/-! ### The files -/

/-- The bytes of a batch. -/
def LogBatch.bytes (batch : LogBatch) : List UInt8 := batch.lines.flatMap (· ++ [10])

/-- Every file has what it had on `disk`, and then the batches that are `filed` under its name,
whole and in order; each of these is in a file of its date. -/
structure Filed (disk : Disk) (files : LogRun) (filed : List (LogFile × LogBatch)) : Prop where
  inStep : InStep files.logger
  dates : ∀ p ∈ filed, p.1.date = p.2.date
  contents : ∀ name, files.disk name = disk name ++
    (filed.filter fun p => files.logger.logFileName p.1 = name).flatMap fun p => p.2.bytes

section Files

variable {disk : Disk} {files files' : LogRun} {filed : List (LogFile × LogBatch)}
  {batch : LogBatch}

/-- One time round `Loop`, the batch goes behind what one file of its date has. -/
theorem logStep_fwrite (h : InStep files.logger) (hs : logStep files batch = some files') :
    ∃ file : LogFile, file.date = batch.date ∧ InStep files'.logger ∧
      files'.logger.logFileName = files.logger.logFileName ∧
      files'.disk = files.logger.fwrite files.disk file batch.lines := by
  by_cases hunder : UnderLimit files batch
  · rw [logStep_of_underLimit h hunder] at hs
    obtain rfl := Option.some.inj hs
    exact ⟨files.logger.fileOf batch.date, h.fileOf_date, h.opened, rfl, rfl⟩
  · rw [logStep_of_not_underLimit h hunder] at hs
    obtain rfl := Option.some.inj hs
    exact ⟨⟨batch.date, files.logger.numberOf batch.date⟩, rfl, inStep_roll _ _, rfl, rfl⟩

theorem Filed.logStep (h : Filed disk files filed) (hs : logStep files batch = some files') :
    ∃ file, Filed disk files' (filed ++ [(file, batch)]) := by
  obtain ⟨file, hdate, hinStep, hname, hdisk⟩ := logStep_fwrite h.inStep hs
  refine ⟨file, hinStep, fun p hp => ?_, fun name => ?_⟩
  · rcases List.mem_append.mp hp with hold | hnew
    · exact h.dates p hold
    · rw [List.mem_singleton.mp hnew]
      exact hdate
  · rw [hname, hdisk, List.filter_append, List.flatMap_append, ← List.append_assoc, ← h.contents]
    by_cases hfile : files.logger.logFileName file = name
    · subst hfile
      rw [AsyncLogger.fwrite, Function.update_self]
      simp [LogBatch.bytes]
    · rw [AsyncLogger.fwrite, Function.update_of_ne (Ne.symm hfile)]
      simp [hfile]

end Files

/-- The batches that have not been written, the oldest first. -/
def LogPipeline.batches (s : LogPipeline) : List (List String) :=
  (match s.phase with
    | .writing batch => [batch]
    | _ => []) ++ s.queue ++ s.handing

theorem batches_swapped (next : Logger × List (List String)) :
    (s.swapped next).batches = s.batches ++ next.2 := (List.append_assoc _ _ _).symm

/-- The buffer has all lines that have been logged, and each batch, written or not, begins with the
lines of the batch before it. -/
def WholeHistory (l : Logged LogPipeline String) : Prop :=
  l.state.logger.buffer = l.put ∧ ∃ written, l.taken = written.flatten ∧
    (written ++ l.state.batches).Pairwise (· <+: ·) ∧
    ∀ batch ∈ written ++ l.state.batches, batch <+: l.put

/-- No batch overtakes another, and nobody calls `log`. -/
def OnlySyncs (_ : Logged LogPipeline String) : LogAct → Prop
  | .pushLogBuffer i => i = 0
  | .log => False
  | _ => True

/-- What `sync_loop` swaps in is what it swaps out: nothing has been logged since its copy. -/
def SwapsSame (l : Logged LogPipeline String) : LogAct → Prop
  | .syncSwap => ∀ tmpVec ∈ l.state.tmpVec, tmpVec = l.state.logger.buffer
  | _ => True

/-- The buffer only grows, and the batches stay in their order, or a new one comes behind them that
has all lines. -/
theorem WholeHistory.move {l : Logged LogPipeline String} (h : WholeHistory l)
    (hbuffer : s'.logger.buffer = l.put ++ logPorts.puts l.state act)
    (hbatches : s'.batches = l.state.batches ∨ s'.batches = l.state.batches ++ [l.put])
    (htakes : logPorts.takes l.state act = []) :
    WholeHistory
      ⟨s', l.put ++ logPorts.puts l.state act, l.taken ++ logPorts.takes l.state act⟩ := by
  obtain ⟨-, written, htaken, hgrows, hpre⟩ := h
  have hlonger : ∀ batch ∈ written ++ l.state.batches,
      batch <+: l.put ++ logPorts.puts l.state act :=
    fun batch hbatch => (hpre batch hbatch).trans (List.prefix_append _ _)
  refine ⟨hbuffer, written, ?_, ?_, ?_⟩
  · show l.taken ++ logPorts.takes l.state act = _
    rw [htakes, List.append_nil, htaken]
  · rcases hbatches with hsame | hnew
    · show (written ++ s'.batches).Pairwise _
      rwa [hsame]
    · show (written ++ s'.batches).Pairwise _
      rw [hnew, ← List.append_assoc, List.pairwise_append]
      refine ⟨hgrows, List.pairwise_singleton _ _, fun batch hbatch last hlast => ?_⟩
      rw [List.mem_singleton.mp hlast]
      exact hpre batch hbatch
  · rcases hbatches with hsame | hnew
    · show ∀ batch ∈ written ++ s'.batches, _
      rwa [hsame]
    · show ∀ batch ∈ written ++ s'.batches, _
      rw [hnew, ← List.append_assoc]
      intro batch hbatch
      rcases List.mem_append.mp hbatch with hold | hlast
      · exact hlonger batch hold
      · rw [List.mem_singleton.mp hlast]
        exact List.prefix_append _ _

/-- A batch that is written takes its lines out. -/
theorem WholeHistory.write {l : Logged LogPipeline String} (h : WholeHistory l)
    {batch : List String} {date : List UInt8} {files : LogRun} {phase : LogPhase}
    (hphase : l.state.phase = .writing batch) (hnext : ∀ batch, phase ≠ .writing batch) :
    WholeHistory ⟨{ l.state with files := files, phase := phase },
      l.put ++ logPorts.puts l.state (.write date),
      l.taken ++ logPorts.takes l.state (.write date)⟩ := by
  obtain ⟨hbuffer, written, htaken, hgrows, hpre⟩ := h
  have htakes : logPorts.takes l.state (.write date) = batch := by
    show l.state.inHand = batch
    rw [LogPipeline.inHand, hphase]
  have hbatches : l.state.batches =
      [batch] ++ { l.state with files := files, phase := phase }.batches := by
    have hnone : { l.state with files := files, phase := phase }.batches =
        l.state.queue ++ l.state.handing := by
      cases phase with
      | writing batch' => exact absurd rfl (hnext batch')
      | _ => rfl
    rw [hnone, LogPipeline.batches, hphase]
    exact List.append_assoc ..
  rw [hbatches, ← List.append_assoc] at hgrows hpre
  refine ⟨hbuffer.trans (List.append_nil _).symm, written ++ [batch], ?_, hgrows, ?_⟩
  · show l.taken ++ logPorts.takes l.state (.write date) = _
    rw [htakes, htaken, List.flatten_append, List.flatten_singleton]
  · show ∀ b ∈ _, b <+: l.put ++ []
    rw [List.append_nil]
    exact hpre

theorem WholeHistory.step (l : Logged LogPipeline String) (act : LogAct)
    (l' : Logged LogPipeline String) (h : WholeHistory l) (hact : OnlySyncs l act)
    (hswaps : SwapsSame l act) (hl' : l' ∈ logPorts.loggedStep logPipeStep l act) :
    WholeHistory l' := by
  obtain ⟨s', hs', rfl⟩ := Option.map_eq_some_iff.mp hl'
  have hbuffer := h.1
  have hsame : l.state.logger.buffer = l.put ++ [] := hbuffer.trans (List.append_nil _).symm
  cases logMove_of_logPipeStep hs' with
  | logLine level line =>
      obtain ⟨-, hqueue, hhanding, hphase, -⟩ := @logLine_frame l.state level line
      refine h.move ?_ (.inl ?_) rfl
      · rw [buffer_logLine, hbuffer]
        rfl
      · rw [LogPipeline.batches, hqueue, hhanding, hphase]
        rfl
  | syncCopy hnone => exact h.move hsame (.inl rfl) rfl
  | @syncSwap tmpVec htmp =>
      obtain rfl : tmpVec = l.state.logger.buffer := hswaps tmpVec htmp
      refine h.move hsame ?_ rfl
      have hbatches := @batches_swapped l.state (l.state.logger.swapOut l.state.logger.buffer)
      by_cases hempty : l.state.logger.buffer.isEmpty = true
      · exact .inl (hbatches.trans (by rw [Logger.swapOut, if_pos hempty, List.append_nil]))
      · exact .inr (hbatches.trans (by rw [Logger.swapOut, if_neg hempty, hbuffer]))
  | log hnone => exact hact.elim
  | @pushLogBuffer i batch hbatch =>
      obtain rfl : i = 0 := hact
      refine h.move hsame (.inl ?_) rfl
      obtain ⟨rest, hrest⟩ := handing_eq_cons hbatch
      show _ ++ (l.state.queue ++ [batch]) ++ l.state.handing.eraseIdx 0 =
        _ ++ l.state.queue ++ l.state.handing
      rw [hrest]
      simp only [List.append_assoc, List.singleton_append, List.eraseIdx_cons_zero]
  | stop hnone => exact h.move hsame (.inl rfl) rfl
  | check hphase =>
      refine h.move hsame (.inl ?_) rfl
      rcases hstop : l.state.stopFlag with - | - <;> simp [LogPipeline.batches, hphase]
  | @infoLog line hphase =>
      obtain ⟨-, hqueue, hhanding, -, -⟩ := @logLine_frame l.state .info line
      refine h.move ?_ (.inl ?_) rfl
      · show (l.state.logLine .info line).logger.buffer = _
        rw [buffer_logLine, hbuffer]
        rfl
      · simp [LogPipeline.batches, hphase, hqueue, hhanding]
  | wake hphase hqueue =>
      refine h.move hsame (.inl ?_) rfl
      rcases hstop : l.state.stopFlag with - | - <;> simp [LogPipeline.batches, hphase]
  | take hphase hqueue =>
      exact h.move hsame (.inl (by simp [LogPipeline.batches, hphase, hqueue])) rfl
  | write hphase hfiles =>
      refine h.write hphase fun batch => ?_
      split
      · exact nofun
      · exact nofun

/-- A line that has been logged since the copy is not in the buffer after the swap. -/
theorem WholeHistory.swapsSame (l : Logged LogPipeline String) (act : LogAct)
    (l' : Logged LogPipeline String) (h : WholeHistory l)
    (hl' : l' ∈ logPorts.loggedStep logPipeStep l act) (h' : WholeHistory l') :
    SwapsSame l act := by
  cases act with
  | syncSwap =>
      intro tmpVec htmp
      obtain ⟨s', hs', rfl⟩ := Option.map_eq_some_iff.mp hl'
      obtain ⟨tmpVec', htmp', rfl⟩ := Option.map_eq_some_iff.mp hs'
      obtain rfl : tmpVec = tmpVec' := Option.some.inj (htmp.symm.trans htmp')
      have hleft : tmpVec = l.put ++ [] := h'.1
      rw [hleft, List.append_nil, h.1]
  | _ => trivial

/-- **Every batch is the whole history**: in a program that hands its lines over with `sync_loop`
only, a line is written again with every batch that is taken after the first one that has it,
throughout a run, if and only if nothing is logged between a copy and its swap. -/
theorem batches_repeat (logLevel : String) (files : LogRun) (acts : List LogAct)
    (h : Meets (logPorts.loggedStep logPipeStep) OnlySyncs
      ⟨LogPipeline.start logLevel files, [], []⟩ acts) :
    Always (logPorts.loggedStep logPipeStep) WholeHistory
        ⟨LogPipeline.start logLevel files, [], []⟩ acts ↔
      Meets (logPorts.loggedStep logPipeStep) SwapsSame
        ⟨LogPipeline.start logLevel files, [], []⟩ acts :=
  always_iff_meets_of_meets (fun _ h => h) WholeHistory.step
    (fun l act l' h _ => h.swapsSame l act l') ⟨rfl, [], rfl, .nil, nofun⟩ h

instance decidableOnlySyncs (l : Logged LogPipeline String) : ∀ act, Decidable (OnlySyncs l act)
  | .pushLogBuffer i => inferInstanceAs (Decidable (i = 0))
  | .log => isFalse id
  | .logLine _ _ => isTrue trivial
  | .syncCopy => isTrue trivial
  | .syncSwap => isTrue trivial
  | .stop => isTrue trivial
  | .check => isTrue trivial
  | .infoLog _ => isTrue trivial
  | .wake => isTrue trivial
  | .take => isTrue trivial
  | .write _ => isTrue trivial

/-- Two lines, each followed by the timer. -/
def twoSyncs : List LogAct :=
  [.logLine .error "first", .syncCopy, .syncSwap, .pushLogBuffer 0, .check, .infoLog "second",
    .syncCopy, .syncSwap, .pushLogBuffer 0, .wake, .take, .write [49]]

theorem batches_repeat_twoSyncs :
    Always (logPorts.loggedStep logPipeStep) WholeHistory
        ⟨LogPipeline.start "Info" emptyDisk, [], []⟩ twoSyncs ↔
      Meets (logPorts.loggedStep logPipeStep) SwapsSame
        ⟨LogPipeline.start "Info" emptyDisk, [], []⟩ twoSyncs :=
  batches_repeat "Info" emptyDisk twoSyncs (by decide +kernel)

/-! ### Stopping -/

/-- Once the flag is set, no batch leaves the queue, and the files are as they were or have got the
batch that was in hand; the thread stands where it stood, has come to wait, or has ended; and where
it waited, it waits until there is a batch. -/
structure StoppedSince (s s' : LogPipeline) : Prop where
  stopFlag : s'.stopFlag = true
  queue : s.queue <+: s'.queue
  files : (s'.files = s.files ∧
      (s'.phase = s.phase ∨ s'.phase = .waiting ∨ s'.phase = .ended)) ∨
    s'.phase = .ended ∧ ∃ batch date, s.phase = .writing batch ∧
      logStep s.files ⟨date, batch.map text⟩ = some s'.files
  waits : s.phase = .waiting → s'.queue = [] → s'.phase = .waiting

/-- Until it has ended, the thread has written nothing, and stands where it stood or waits. -/
theorem StoppedSince.stood {s₀ : LogPipeline} (h : StoppedSince s₀ s) (hphase : s.phase ≠ .ended) :
    s.files = s₀.files ∧ (s.phase = s₀.phase ∨ s.phase = .waiting) := by
  rcases h.files with ⟨hsame, hstood | hwaits | hended⟩ | ⟨hended, -⟩
  · exact ⟨hsame, .inl hstood⟩
  · exact ⟨hsame, .inr hwaits⟩
  · exact absurd hended hphase
  · exact absurd hended hphase

/-- A thread that neither waits nor has ended stands where it stood. -/
theorem StoppedSince.phase_eq {s₀ : LogPipeline} {phase : LogPhase} (h : StoppedSince s₀ s)
    (hphase : s.phase = phase) (hended : phase ≠ .ended) (hwaits : phase ≠ .waiting) :
    s.files = s₀.files ∧ s₀.phase = phase := by
  obtain ⟨hsame, hstood | hwaiting⟩ := h.stood (hphase ▸ hended)
  · exact ⟨hsame, hstood.symm.trans hphase⟩
  · exact absurd (hphase.symm.trans hwaiting) hwaits

theorem StoppedSince.move {s₀ : LogPipeline} (h : StoppedSince s₀ s) (hlooks : s₀.phase ≠ .taking)
    (hmove : LogMove s act s') : StoppedSince s₀ s' := by
  obtain ⟨hflag, hqueue₀, hfiles₀, hwaits⟩ := id h
  cases hmove with
  | logLine level line =>
      obtain ⟨hfiles, hqueue, -, hphase, hstop⟩ := @logLine_frame s level line
      refine ⟨hstop.trans hflag, hqueue ▸ hqueue₀, ?_, ?_⟩
      · rw [hfiles, hphase]
        exact hfiles₀
      · rw [hqueue, hphase]
        exact hwaits
  | syncCopy hnone => exact ⟨hflag, hqueue₀, hfiles₀, hwaits⟩
  | syncSwap htmp => exact ⟨hflag, hqueue₀, hfiles₀, hwaits⟩
  | log hnone => exact ⟨hflag, hqueue₀, hfiles₀, hwaits⟩
  | pushLogBuffer hbatch =>
      refine ⟨hflag, hqueue₀.trans (List.prefix_append _ _), hfiles₀, fun _ hnil => ?_⟩
      exact absurd hnil (List.append_ne_nil_of_right_ne_nil _ (List.cons_ne_nil _ _))
  | stop hnone => exact ⟨rfl, hqueue₀, hfiles₀, hwaits⟩
  | check hphase =>
      obtain ⟨hsame, hstood⟩ := h.phase_eq hphase nofun nofun
      refine ⟨hflag, hqueue₀, .inl ⟨hsame, .inr (.inr (if_pos hflag))⟩, fun hwaited => ?_⟩
      rw [hstood] at hwaited
      cases hwaited
  | @infoLog line hphase =>
      obtain ⟨hfiles, hqueue, -, -, hstop⟩ := @logLine_frame s .info line
      obtain ⟨hsame, -⟩ := h.phase_eq hphase nofun nofun
      exact ⟨hstop.trans hflag, hqueue ▸ hqueue₀, .inl ⟨hfiles.trans hsame, .inr (.inl rfl)⟩,
        fun _ _ => rfl⟩
  | wake hphase hqueue =>
      obtain ⟨hsame, -⟩ := h.stood (by rw [hphase]; exact nofun)
      exact ⟨hflag, hqueue₀, .inl ⟨hsame, .inr (.inr (if_pos hflag))⟩,
        fun _ hnil => absurd hnil hqueue⟩
  | take hphase hqueue => exact absurd (h.phase_eq hphase nofun nofun).2 hlooks
  | @write date batch files hphase hfiles =>
      obtain ⟨hsame, hstood⟩ := h.phase_eq hphase nofun nofun
      refine ⟨hflag, hqueue₀, .inr ⟨if_pos hflag, batch, date, hstood, hsame ▸ hfiles⟩,
        fun hwaited => ?_⟩
      rw [hstood] at hwaited
      cases hwaited

/-- **After `stop` nothing leaves the queue**: whatever the threads go on to do, the batches in the
queue are not written, unless the thread has looked at the flag just before; the files get the batch
that was in hand, if there was one, and no other; and a thread that waits at an empty queue goes on
waiting until a batch comes. -/
theorem stopped_writes_nothing (s : LogPipeline) (hstop : s.stopFlag = true)
    (hlooks : s.phase ≠ .taking) (acts : List LogAct) :
    Always logPipeStep (StoppedSince s) s acts :=
  always_of_step (fun _ _ _ h hs => h.move hlooks (logMove_of_logPipeStep hs))
    ⟨hstop, List.prefix_rfl, .inl ⟨rfl, .inl rfl⟩, fun hphase _ => hphase⟩ acts

theorem stopped_writes_nothing_waiting :
    Always logPipeStep
      (StoppedSince
        { LogPipeline.start "Info" emptyDisk with
          stopFlag := true, phase := .waiting, queue := [["first"]] })
      { LogPipeline.start "Info" emptyDisk with
        stopFlag := true, phase := .waiting, queue := [["first"]] }
      [.logLine .error "second", .syncCopy, .syncSwap, .pushLogBuffer 0, .wake] :=
  stopped_writes_nothing _ rfl (fun h => by cases h) _

end TinyRpc
