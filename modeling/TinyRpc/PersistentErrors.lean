/-
TinyRpc/PersistentErrors.lean

Sockets on which every call fails from some point on, always with the same `errno`.

The loops of `on_read` and `on_write` know one error only.  After `EAGAIN` they are left;
any other `errno`, of a connection reset or a closed fd, takes them round again, to the
same call and the same error.  Both have a branch behind them for a loop that was left with
the work not done, but an error never gets there.

`loops_end_iff`: the loops end exactly if the error is `EAGAIN` or a call before it has
ended them, or there was nothing to write.
-/
import TinyRpc.OnRead
import TinyRpc.OnWrite

namespace TinyRpc

open Checked TcpBuffer

/-- `EAGAIN`, of Linux. -/
def eagain : Int := 11

/-- A call of `::read` that returns `-1` and sets `errno`. -/
def ReadResult.ofErrno (errno : Int) : ReadResult := if errno = eagain then .again else .error

/-- A call of `::write` that returns `-1` and sets `errno`. -/
def WriteResult.ofErrno (errno : Int) : WriteResult := if errno = eagain then .again else .error

/-- The loop of `on_read` ends on a socket that gives the results of `before` and then fails
with `errno` for ever. -/
def ReadLoopEnds (inBuffer : TcpBuffer) (before : List ReadResult) (errno : Int) : Prop :=
  ∃ calls out,
    readLoop (before ++ List.replicate calls (.ofErrno errno)) inBuffer = .ok (some out)

/-- The loop of `on_write` ends on such a socket. -/
def WriteLoopEnds (outBuffer : TcpBuffer) (before : List WriteResult) (errno : Int) : Prop :=
  ∃ calls, (writeLoop outBuffer (before ++ List.replicate calls (.ofErrno errno))).2 ≠ .looping

/-- The results after which the loop of `on_read`, asking for `readCount` bytes, is left. -/
def ReadResult.Ends (readCount : Nat) : ReadResult → Prop
  | .data bytes => bytes.length < readCount
  | .eof => True
  | .again => True
  | .error => False

/-- The results after which the loop of `on_write`, offering `size` bytes, is left. -/
def WriteResult.Ends (size : Nat) : WriteResult → Prop
  | .accepted count => size ≤ count
  | .again => True
  | .error => False

theorem ReadResult.ends_ofErrno {readCount : Nat} {errno : Int} :
    (ReadResult.ofErrno errno).Ends readCount ↔ errno = eagain := by
  unfold ReadResult.ofErrno
  split
  · rename_i h
    exact ⟨fun _ => h, fun _ => trivial⟩
  · rename_i h
    exact ⟨False.elim, fun h' => h h'⟩

theorem WriteResult.ends_ofErrno {size : Nat} {errno : Int} :
    (WriteResult.ofErrno errno).Ends size ↔ errno = eagain := by
  unfold WriteResult.ofErrno
  split
  · rename_i h
    exact ⟨fun _ => h, fun _ => trivial⟩
  · rename_i h
    exact ⟨False.elim, fun h' => h h'⟩

/-- A result among the first ones of such a socket. -/
theorem exists_mem_persistent {α : Type} {P : α → Prop} {before : List α} {a : α} :
    (∃ calls, ∃ r ∈ before ++ List.replicate calls a, P r) ↔ P a ∨ ∃ r ∈ before, P r := by
  constructor
  · rintro ⟨calls, r, hr, hP⟩
    rcases List.mem_append.mp hr with hmem | hmem
    · exact .inr ⟨r, hmem, hP⟩
    · exact .inl (List.eq_of_mem_replicate hmem ▸ hP)
  · rintro (ha | ⟨r, hr, hP⟩)
    · exact ⟨1, a, List.mem_append_right _ List.mem_cons_self, ha⟩
    · exact ⟨0, r, List.mem_append_left _ hr, hP⟩

/-! ### The loop of `on_read` -/

section Read

variable {b : TcpBuffer} {r : ReadResult} {results : List ReadResult}

theorem readLoop_of_ends (hspare : b.writeIndex < b.size) (h : r.Ends b.canWriteBytesNum) :
    ∃ out, readLoop (r :: results) b = .ok (some out) := by
  rw [readLoop, growIfFull_of_spare hspare, ok_bind]
  cases r with
  | data bytes => exact ⟨_, if_pos h⟩
  | eof => exact ⟨_, rfl⟩
  | again => exact ⟨_, rfl⟩
  | error => exact h.elim

/-- After any other result the loop asks for as many bytes once more: a read that got all it
asked for does not move the write index. -/
theorem readLoop_of_not_ends (hspare : b.writeIndex < b.size) (h : ¬ r.Ends b.canWriteBytesNum)
    (results : List ReadResult) :
    ∃ b' : TcpBuffer, b'.writeIndex < b'.size ∧ b'.canWriteBytesNum = b.canWriteBytesNum ∧
      readLoop (r :: results) b = readLoop results b' := by
  rw [readLoop, growIfFull_of_spare hspare, ok_bind]
  cases r with
  | data bytes =>
      have hfull : b.readIn bytes = b.fill bytes := by
        apply readIn_full
        have hlen := Nat.le_of_not_lt h
        rw [canWriteBytesNum] at hlen
        omega
      refine ⟨b.readIn bytes, readIn_spare hspare, ?_, if_neg h⟩
      rw [hfull, canWriteBytesNum, size_fill]
      rfl
  | eof => exact absurd trivial h
  | again => exact absurd trivial h
  | error => exact ⟨b, hspare, rfl, rfl⟩

theorem readLoop_ends_iff (hspare : b.writeIndex < b.size) :
    (∃ out, readLoop results b = .ok (some out)) ↔ ∃ r ∈ results, r.Ends b.canWriteBytesNum := by
  induction results generalizing b with
  | nil => simp [readLoop]
  | cons r results ih =>
      by_cases h : r.Ends b.canWriteBytesNum
      · exact ⟨fun _ => ⟨r, List.mem_cons_self, h⟩, fun _ => readLoop_of_ends hspare h⟩
      · obtain ⟨b', hspare', hroom, hloop⟩ := readLoop_of_not_ends hspare h results
        rw [hloop, ih hspare', hroom]
        simp [h]

theorem readLoopEnds_iff {before : List ReadResult} {errno : Int}
    (hspare : b.writeIndex < b.size) :
    ReadLoopEnds b before errno ↔
      errno = eagain ∨ ∃ r ∈ before, r.Ends b.canWriteBytesNum := by
  unfold ReadLoopEnds
  simp only [readLoop_ends_iff hspare]
  rw [exists_mem_persistent, ReadResult.ends_ofErrno]

end Read

/-! ### The loop of `on_write` -/

section Write

variable {out : TcpBuffer}

theorem writeLoop_ends_iff {results : List WriteResult} (h₀ : out.canReadBytesNum ≠ 0) :
    (writeLoop out results).2 ≠ .looping ↔ ∃ r ∈ results, r.Ends out.canReadBytesNum := by
  induction results with
  | nil =>
      have hloop : writeLoop out [] = ([], .looping) := if_neg h₀
      rw [hloop]
      simp
  | cons r results ih =>
      cases r with
      | accepted count =>
          by_cases hall : out.canReadBytesNum ≤ count
          · rw [writeLoop_all h₀ hall]
            exact ⟨fun _ => ⟨_, List.mem_cons_self, hall⟩, fun _ => nofun⟩
          · rw [writeLoop_part h₀ (Nat.not_le.mp hall), ih]
            simp [WriteResult.Ends, hall]
      | again =>
          rw [writeLoop_again h₀]
          exact ⟨fun _ => ⟨_, List.mem_cons_self, trivial⟩, fun _ => nofun⟩
      | error =>
          rw [writeLoop_error h₀, ih]
          simp [WriteResult.Ends]

theorem writeLoopEnds_iff {before : List WriteResult} {errno : Int} :
    WriteLoopEnds out before errno ↔
      out.canReadBytesNum = 0 ∨ errno = eagain ∨
        ∃ r ∈ before, r.Ends out.canReadBytesNum := by
  unfold WriteLoopEnds
  by_cases h₀ : out.canReadBytesNum = 0
  · simp [writeLoop_empty h₀, h₀]
  · simp only [writeLoop_ends_iff h₀]
    rw [exists_mem_persistent, WriteResult.ends_ofErrno]
    simp [h₀]

end Write

variable {b : TcpBuffer}

/-- **The loops end on a socket that fails for good** if and only if it fails with `EAGAIN`, or
one of the calls before has ended the loop, or there is nothing to write. -/
theorem loops_end_iff (h : InBuffer b) (out : TcpBuffer) (reads : List ReadResult)
    (writes : List WriteResult) (errno : Int) :
    (ReadLoopEnds b reads errno ↔
      errno = eagain ∨ ∃ r ∈ reads, r.Ends b.canWriteBytesNum) ∧
    (WriteLoopEnds out writes errno ↔
      out.canReadBytesNum = 0 ∨ errno = eagain ∨
        ∃ r ∈ writes, r.Ends out.canReadBytesNum) :=
  ⟨readLoopEnds_iff h.spare, writeLoopEnds_iff⟩

/-- The input buffer of a new connection. -/
def newInBuffer : TcpBuffer := TcpBuffer.ofSize 128 bufferSize_lt

theorem inBuffer_newInBuffer : InBuffer newInBuffer := .start bufferSize_lt (by decide)

/-- An output buffer with one byte to send. -/
def oneByteOut : TcpBuffer := ⟨[104, 0], 0, 1, by decide, by decide, by decide⟩

/-- A full read, and then nothing to read for the time being; a partial write, and then no
room. -/
theorem loops_end_iff_eagain :
    (ReadLoopEnds newInBuffer [.data (List.replicate 128 7)] eagain ↔
      eagain = eagain ∨ ∃ r ∈ [ReadResult.data (List.replicate 128 7)],
        r.Ends newInBuffer.canWriteBytesNum) ∧
    (WriteLoopEnds oneByteOut [.accepted 0] eagain ↔
      oneByteOut.canReadBytesNum = 0 ∨ eagain = eagain ∨
        ∃ r ∈ [WriteResult.accepted 0], r.Ends oneByteOut.canReadBytesNum) :=
  loops_end_iff inBuffer_newInBuffer oneByteOut _ _ eagain

/-- On a connection that has been reset (`ECONNRESET`) neither loop ends. -/
theorem loops_do_not_end :
    InBuffer newInBuffer ∧ ¬ ReadLoopEnds newInBuffer [] 104 ∧
      ¬ WriteLoopEnds oneByteOut [] 104 := by
  refine ⟨inBuffer_newInBuffer, fun hread => ?_, fun hwrite => ?_⟩
  · rcases (readLoopEnds_iff inBuffer_newInBuffer.spare).mp hread with herrno | ⟨r, hr, -⟩
    · exact absurd herrno (by decide)
    · exact List.not_mem_nil hr
  · rcases writeLoopEnds_iff.mp hwrite with hempty | herrno | ⟨r, hr, -⟩
    · exact absurd hempty (by decide)
    · exact absurd herrno (by decide)
    · exact List.not_mem_nil hr

end TinyRpc
