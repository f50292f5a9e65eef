/-
TinyRpc/AsyncLogger.lean

The files that the asynchronous logger writes its batches to.

A file is told by its date and its number.  A batch of a new date goes to the file 0 of
that date; a batch that finds its file over the limit should go to the next file.  But
the number of that file is taken from `m_number` before it is counted up, and `m_number`
is still the number of the file that is open.  So the first roll of a date opens the same
file again, over the limit as it is.

`rolled_iff_meets`: no batch is written to a file over the limit, and no roll is wrong, in
exactly the runs in which no batch finds its file over the limit, that is, without rolls.
`rolls_same_or_next`: in every run, no roll passes a file over.

`m_number` is an `int`, and counted without a bound here: the overflow that 2^31 rolls on
one date come to is left out.
-/
import TinyRpc.Base.Decimal
import TinyRpc.Base.Runs
import TinyRpc.RpcController
import Mathlib.Logic.Function.Basic

namespace TinyRpc

open Decimal Runs

/-- A file of the logger. -/
structure LogFile where
  date : List UInt8
  number : Nat
  deriving DecidableEq

structure AsyncLogger where
  filePath : List UInt8
  fileName : List UInt8
  fileMaxSize : Int
  /-- `m_date` -/
  date : List UInt8 := []
  /-- `m_file_handler`, by the file that it stands for -/
  fileHandler : Option LogFile := none
  reopenFlag : Bool := false
  /-- `m_number`, without the bound of an `int` -/
  number : Nat := 0

/-- What is in the files, by their names; one that is not there is empty. -/
abbrev Disk := List UInt8 → List UInt8

namespace AsyncLogger

/-- `log_file_name`. -/
def logFileName (l : AsyncLogger) (file : LogFile) : List UInt8 :=
  l.filePath ++ l.fileName ++ text "_" ++ file.date ++ text "_log." ++ numeral file.number

/-- `ftell` of the file. -/
def ftell (l : AsyncLogger) (disk : Disk) (file : LogFile) : Int :=
  (disk (l.logFileName file)).length

/-- The date of the batch is looked at, and whether a file is open. -/
def turnTo (l : AsyncLogger) (date : List UInt8) : AsyncLogger :=
  let l := if date ≠ l.date then { l with number := 0, reopenFlag := true, date := date } else l
  if l.fileHandler = none then { l with reopenFlag := true } else l

/-- `if (m_reopen_flag)`: the logger after it, and the file that is open then.  The flag is set
where no file is open. -/
def reopen (l : AsyncLogger) (date : List UInt8) : AsyncLogger × LogFile :=
  match l.reopenFlag, l.fileHandler with
  | false, some file => (l, file)
  | _, _ =>
      let file := ⟨date, l.number⟩
      ({ l with fileHandler := some file, reopenFlag := false }, file)

/-- The roll: the name of the next file has the number that was there before. -/
def roll (l : AsyncLogger) (date : List UInt8) : AsyncLogger × LogFile :=
  let file := ⟨date, l.number⟩
  ({ l with number := l.number + 1, fileHandler := some file, reopenFlag := false }, file)

/-- The file with the lines behind what it has. -/
def fwrite (l : AsyncLogger) (disk : Disk) (file : LogFile) (lines : List (List UInt8)) : Disk :=
  Function.update disk (l.logFileName file)
    (disk (l.logFileName file) ++ lines.flatMap (· ++ [10]))

end AsyncLogger

/-! ### Runs of the loop -/

structure LogBatch where
  /-- the date on which the loop takes the batch out -/
  date : List UInt8
  lines : List (List UInt8)

structure LogRun where
  logger : AsyncLogger
  disk : Disk
  /-- how long the file of each batch was before the batch -/
  found : List Int
  /-- the files that a roll has left, and those that it has moved to -/
  rolls : List (LogFile × LogFile)

/-- The loop that has not begun. -/
def LogRun.start (filePath fileName : List UInt8) (fileMaxSize : Int) (disk : Disk) : LogRun :=
  ⟨{ filePath := filePath, fileName := fileName, fileMaxSize := fileMaxSize }, disk, [], []⟩

/-- One time round `Loop`. -/
def logStep : Step LogRun LogBatch := fun s batch =>
  let (l, file) := (s.logger.turnTo batch.date).reopen batch.date
  if l.ftell s.disk file > l.fileMaxSize then
    let (l, next) := l.roll batch.date
    some
      { logger := l
        disk := l.fwrite s.disk next batch.lines
        found := l.ftell s.disk next :: s.found
        rolls := (file, next) :: s.rolls }
  else
    some
      { logger := l
        disk := l.fwrite s.disk file batch.lines
        found := l.ftell s.disk file :: s.found
        rolls := s.rolls }

/-- No batch has found its file over the limit, and every roll has moved to the next file of the
date. -/
structure Rolled (s : LogRun) : Prop where
  found : ∀ size ∈ s.found, size ≤ s.logger.fileMaxSize
  next : ∀ left next, (left, next) ∈ s.rolls →
    next.date = left.date ∧ next.number = left.number + 1

/-- The file that a batch of the date goes to: the one that is open, or the file 0 of a new
date. -/
def AsyncLogger.fileOf (l : AsyncLogger) (date : List UInt8) : LogFile :=
  if date = l.date then l.fileHandler.getD ⟨date, l.number⟩ else ⟨date, 0⟩

/-- The batch finds its file within the limit. -/
def UnderLimit (s : LogRun) (batch : LogBatch) : Prop :=
  s.logger.ftell s.disk (s.logger.fileOf batch.date) ≤ s.logger.fileMaxSize

/-! ### One time round -/

section Round

variable {l : AsyncLogger} {date : List UInt8}

/-- The file that is open is of the date of the logger, and has its number, or the one before. -/
structure InStep (l : AsyncLogger) : Prop where
  noReopen : l.reopenFlag = false
  date : ∀ file ∈ l.fileHandler, file.date = l.date
  number : ∀ file ∈ l.fileHandler, file.number = l.number ∨ file.number + 1 = l.number

/-- The number that a batch of the date finds. -/
def AsyncLogger.numberOf (l : AsyncLogger) (date : List UInt8) : Nat :=
  if date = l.date then l.number else 0

/-- The logger with the file of the date open. -/
def AsyncLogger.opened (l : AsyncLogger) (date : List UInt8) : AsyncLogger :=
  { l with
    date := date, number := l.numberOf date, fileHandler := some (l.fileOf date)
    reopenFlag := false }

/-- The file of the date is open when the size is looked at. -/
theorem InStep.reopen_turnTo (h : InStep l) (date : List UInt8) :
    (l.turnTo date).reopen date = (l.opened date, l.fileOf date) := by
  obtain ⟨filePath, fileName, fileMaxSize, lastDate, fileHandler, reopenFlag, number⟩ := l
  obtain rfl : reopenFlag = false := h.noReopen
  unfold AsyncLogger.turnTo AsyncLogger.reopen AsyncLogger.opened AsyncLogger.fileOf
    AsyncLogger.numberOf
  by_cases hdate : date = lastDate
  · subst hdate
    cases fileHandler with
    | none => simp
    | some file => simp
  · cases fileHandler with
    | none => simp [hdate]
    | some file => simp [hdate]

/-- A batch goes to the file that has the number it finds, or to the one that is open. -/
theorem fileOf_cases (l : AsyncLogger) (date : List UInt8) :
    l.fileOf date = ⟨date, l.numberOf date⟩ ∨
      date = l.date ∧ l.numberOf date = l.number ∧ l.fileOf date ∈ l.fileHandler := by
  unfold AsyncLogger.fileOf AsyncLogger.numberOf
  split
  · rename_i hdate
    cases hfile : l.fileHandler with
    | none => exact .inl rfl
    | some file => exact .inr ⟨hdate, rfl, rfl⟩
  · exact .inl rfl

theorem InStep.fileOf_date (h : InStep l) : (l.fileOf date).date = date := by
  rcases fileOf_cases l date with heq | ⟨hdate, -, hfile⟩
  · rw [heq]
  · exact (h.date _ hfile).trans hdate.symm

/-- The file that a batch goes to has the number that the batch finds, or the one before. -/
theorem InStep.fileOf_number (h : InStep l) :
    (l.fileOf date).number = l.numberOf date ∨ (l.fileOf date).number + 1 = l.numberOf date := by
  rcases fileOf_cases l date with heq | ⟨-, hnumber, hfile⟩
  · left
    rw [heq]
  · rw [hnumber]
    exact h.number _ hfile

theorem InStep.opened (h : InStep l) : InStep (l.opened date) := by
  refine ⟨rfl, fun file hfile => ?_, fun file hfile => ?_⟩
  · obtain rfl := Option.some.inj hfile
    exact h.fileOf_date
  · obtain rfl := Option.some.inj hfile
    exact h.fileOf_number

/-- The roll goes to the file that has the number found. -/
theorem inStep_roll (l : AsyncLogger) (date : List UInt8) :
    InStep ((l.opened date).roll date).1 := by
  refine ⟨rfl, fun file hfile => ?_, fun file hfile => ?_⟩
  · obtain rfl := Option.some.inj hfile
    rfl
  · obtain rfl := Option.some.inj hfile
    exact .inr rfl

end Round

variable {s s' : LogRun} {batch : LogBatch}

/-- A batch that finds its file within the limit is written to it. -/
theorem logStep_of_underLimit (h : InStep s.logger) (hunder : UnderLimit s batch) :
    logStep s batch = some
      { logger := s.logger.opened batch.date
        disk := s.logger.fwrite s.disk (s.logger.fileOf batch.date) batch.lines
        found := s.logger.ftell s.disk (s.logger.fileOf batch.date) :: s.found
        rolls := s.rolls } := by
  unfold logStep
  rw [h.reopen_turnTo]
  exact if_neg (Int.not_lt.mpr hunder)

/-- Any other batch goes to the file that has the number found. -/
theorem logStep_of_not_underLimit (h : InStep s.logger) (hover : ¬ UnderLimit s batch) :
    logStep s batch = some
      { logger := ((s.logger.opened batch.date).roll batch.date).1
        disk := s.logger.fwrite s.disk ⟨batch.date, s.logger.numberOf batch.date⟩ batch.lines
        found := s.logger.ftell s.disk ⟨batch.date, s.logger.numberOf batch.date⟩ :: s.found
        rolls := (s.logger.fileOf batch.date, ⟨batch.date, s.logger.numberOf batch.date⟩) ::
          s.rolls } := by
  unfold logStep
  rw [h.reopen_turnTo]
  exact if_pos (Int.not_le.mp hover)

theorem inStep_start (filePath fileName : List UInt8) (fileMaxSize : Int) (disk : Disk) :
    InStep (LogRun.start filePath fileName fileMaxSize disk).logger := ⟨rfl, nofun, nofun⟩

/-- **No roll passes a file over**: each goes to the file that it leaves, or to the next one of the
date. -/
theorem rolls_same_or_next (filePath fileName : List UInt8) (fileMaxSize : Int) (disk : Disk)
    (batches : List LogBatch) :
    Always logStep (fun s => ∀ left next, (left, next) ∈ s.rolls →
        next.date = left.date ∧ (next.number = left.number ∨ next.number = left.number + 1))
      (LogRun.start filePath fileName fileMaxSize disk) batches := by
  have hkept : Always logStep (fun s => InStep s.logger ∧ ∀ left next, (left, next) ∈ s.rolls →
        next.date = left.date ∧ (next.number = left.number ∨ next.number = left.number + 1))
      (LogRun.start filePath fileName fileMaxSize disk) batches := by
    refine always_of_step ?_ ⟨inStep_start .., nofun⟩ batches
    rintro s batch s' ⟨h, hrolls⟩ hs'
    by_cases hunder : UnderLimit s batch
    · rw [logStep_of_underLimit h hunder] at hs'
      obtain rfl := Option.some.inj hs'
      exact ⟨h.opened, hrolls⟩
    · rw [logStep_of_not_underLimit h hunder] at hs'
      obtain rfl := Option.some.inj hs'
      refine ⟨inStep_roll _ _, fun left next hmem => ?_⟩
      rcases List.mem_cons.mp hmem with heq | hold
      · obtain ⟨rfl, rfl⟩ := Prod.mk.inj heq
        exact ⟨h.fileOf_date.symm, h.fileOf_number.imp Eq.symm Eq.symm⟩
      · exact hrolls left next hold
  exact hkept.imp fun _ h => h.2

/-! ### Runs without rolls -/

/-- The file that is open has the number of the logger. -/
structure Unrolled (s : LogRun) : Prop where
  rolled : Rolled s
  inStep : InStep s.logger
  number : ∀ file ∈ s.logger.fileHandler, file.number = s.logger.number

theorem Unrolled.fileOf_number (h : Unrolled s) (date : List UInt8) :
    (s.logger.fileOf date).number = s.logger.numberOf date := by
  rcases fileOf_cases s.logger date with heq | ⟨-, hnumber, hfile⟩
  · rw [heq]
  · rw [hnumber]
    exact h.number _ hfile

theorem Unrolled.step (h : Unrolled s) (hunder : UnderLimit s batch)
    (hs' : s' ∈ logStep s batch) : Unrolled s' := by
  rw [logStep_of_underLimit h.inStep hunder] at hs'
  obtain rfl := Option.some.inj hs'
  refine ⟨⟨fun size hmem => ?_, h.rolled.next⟩, h.inStep.opened, fun file hfile => ?_⟩
  · rcases List.mem_cons.mp hmem with rfl | hold
    · exact hunder
    · exact h.rolled.found size hold
  · obtain rfl := Option.some.inj hfile
    exact h.fileOf_number batch.date

/-- A roll goes to the file that it leaves. -/
theorem Unrolled.underLimit (h : Unrolled s) (hs' : s' ∈ logStep s batch) (hrolled : Rolled s') :
    UnderLimit s batch := by
  by_contra hover
  rw [logStep_of_not_underLimit h.inStep hover] at hs'
  obtain rfl := Option.some.inj hs'
  have hnext : s.logger.numberOf batch.date = (s.logger.fileOf batch.date).number + 1 :=
    (hrolled.next _ _ List.mem_cons_self).2
  rw [h.fileOf_number] at hnext
  exact absurd hnext.symm (Nat.succ_ne_self _)

theorem unrolled_start (filePath fileName : List UInt8) (fileMaxSize : Int) (disk : Disk) :
    Unrolled (LogRun.start filePath fileName fileMaxSize disk) :=
  ⟨⟨nofun, nofun⟩, inStep_start .., nofun⟩

/-- **The batches go to files within the limit, and each roll to the next file,** in exactly the
runs in which every batch finds its file within the limit. -/
theorem rolled_iff_meets (filePath fileName : List UInt8) (fileMaxSize : Int) (disk : Disk)
    (batches : List LogBatch) :
    Always logStep Rolled (LogRun.start filePath fileName fileMaxSize disk) batches ↔
      Meets logStep UnderLimit (LogRun.start filePath fileName fileMaxSize disk) batches :=
  always_iff_meets (fun _ h => h.rolled) (fun _ _ _ h => h.step) (fun _ _ _ h => h.underLimit)
    (unrolled_start filePath fileName fileMaxSize disk)

/-- Two batches of one line on one date. -/
def twoBatches : List LogBatch := [⟨[49], [[65]]⟩, ⟨[49], [[66]]⟩]

/-- Over a limit of one byte, the second one is written to the file of the first. -/
theorem not_rolled_twoBatches :
    ¬ ∀ (filePath fileName : List UInt8) (fileMaxSize : Int) (disk : Disk)
      (batches : List LogBatch),
      Always logStep Rolled (LogRun.start filePath fileName fileMaxSize disk) batches := by
  intro h
  have hrun := ((h [] [] 1 (fun _ => []) twoBatches).2 _ rfl).2 _ rfl
  have hnext := (hrun.next ⟨[49], 0⟩ ⟨[49], 0⟩ (by decide)).2
  exact absurd hnext (by decide)

end TinyRpc
