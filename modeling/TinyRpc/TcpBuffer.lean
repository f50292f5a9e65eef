/-
TinyRpc/TcpBuffer.lean

The byte buffer of a connection: a vector with a read index and a write index,
`0 ≤ m_read_index ≤ m_write_index ≤ m_buffer.size()`.

The three bounds are fields, so a `TcpBuffer` that violates them cannot be
built; the fourth, that the size fits in an `int`, holds because the vector is
only ever created with an `int` size.  `m_size` is set by the constructor and
read by nobody, and is left out.

What the buffer is for is `readable`: the bytes between the two indices.  Each
operation below comes with the lemma that says what it does to them:

* `adjustBuffer` moves them to the front and changes none of them;
* `resizeBuffer` keeps them where the new size holds them;
* `writeToBuffer` appends to them;
* `adjustReadIndex` drops some of them, or refuses to move;
* `readFromBuffer` hands over the first of them and drops these.
-/
import TinyRpc.Base.Bytes

namespace TinyRpc

open Checked Bytes

@[ext] structure TcpBuffer where
  /-- `m_buffer` -/
  buffer : List UInt8
  /-- `m_read_index` -/
  readIndex : Nat
  /-- `m_write_index` -/
  writeIndex : Nat
  read_le_write : readIndex ≤ writeIndex
  write_le_size : writeIndex ≤ buffer.length
  size_lt : buffer.length < 2147483648
  deriving DecidableEq

namespace TcpBuffer

/-- `TcpBuffer(int size)`. -/
def ofSize (size : Nat) (h : size < 2147483648) : TcpBuffer where
  buffer := List.replicate size 0
  readIndex := 0
  writeIndex := 0
  read_le_write := le_rfl
  write_le_size := Nat.zero_le _
  size_lt := by rwa [List.length_replicate]

variable (b : TcpBuffer)

/-- `m_buffer.size()`. -/
def size : Nat := b.buffer.length

def canReadBytesNum : Nat := b.writeIndex - b.readIndex

def canWriteBytesNum : Nat := b.size - b.writeIndex

/-- The bytes from index `j` up to the write index. -/
def bytesFrom (j : Nat) : List UInt8 := (b.buffer.take b.writeIndex).drop j

/-- The readable bytes, `m_buffer[m_read_index .. m_write_index)`. -/
def readable : List UInt8 := b.bytesFrom b.readIndex

theorem length_bytesFrom (j : Nat) : (b.bytesFrom j).length = b.writeIndex - j := by
  have h := b.write_le_size
  simp [bytesFrom, Nat.min_eq_left h]

theorem bytesFrom_add (j k : Nat) : b.bytesFrom (j + k) = (b.bytesFrom j).drop k := by
  rw [bytesFrom, bytesFrom, List.drop_drop]

theorem length_readable : b.readable.length = b.canReadBytesNum := b.length_bytesFrom _

theorem length_readable_le : b.readable.length ≤ b.size := by
  have h := b.write_le_size
  rw [length_readable, canReadBytesNum, size]
  omega

/-- From the read index on come the readable bytes and then the rest of the vector. -/
theorem drop_readIndex :
    b.buffer.drop b.readIndex = b.readable ++ b.buffer.drop b.writeIndex := by
  have h := b.read_le_write
  have hsplit := congrArg (List.drop b.readIndex)
    (List.take_append_drop b.writeIndex b.buffer).symm
  rwa [List.drop_append_of_le_length (by have := b.write_le_size; simp; omega)] at hsplit

/-- A byte of the readable part, by its place in the vector. -/
theorem getElem?_readable (i : Nat) (h : b.readIndex + i < b.writeIndex) :
    b.readable[i]? = b.buffer[b.readIndex + i]? := by
  rw [readable, bytesFrom, List.getElem?_drop, List.getElem?_take_of_lt h]

/-! ### Moving the readable bytes to the front -/

/-- `adjust_buffer`: once a third of the vector has been read, move the readable
bytes to the front of a vector of the same size. -/
def adjustBuffer : TcpBuffer :=
  if b.readIndex < b.size / 3 then b
  else
    { buffer := b.readable ++ List.replicate (b.size - b.canReadBytesNum) 0
      readIndex := 0
      writeIndex := b.canReadBytesNum
      read_le_write := Nat.zero_le _
      write_le_size := by simp [length_readable]
      size_lt := by
        have h₁ := b.length_readable_le
        have h₂ := b.size_lt
        rw [List.length_append, List.length_replicate, ← length_readable]
        rw [size] at h₁ ⊢
        omega }

theorem size_adjustBuffer : b.adjustBuffer.size = b.size := by
  have h := b.length_readable_le
  rw [length_readable] at h
  unfold adjustBuffer
  split
  · rfl
  · rw [size, List.length_append, List.length_replicate, length_readable]
    omega

theorem readable_adjustBuffer : b.adjustBuffer.readable = b.readable := by
  unfold adjustBuffer
  split
  · rfl
  · show ((b.readable ++ _).take b.canReadBytesNum).drop 0 = b.readable
    rw [List.drop_zero, ← length_readable, List.take_left]

theorem writeIndex_adjustBuffer_le : b.adjustBuffer.writeIndex ≤ b.writeIndex := by
  unfold adjustBuffer
  split
  · exact le_rfl
  · exact Nat.sub_le _ _

/-! ### Resizing -/

/-- `resize_buffer`: a new vector with as many of the readable bytes as it holds. -/
def resizeBuffer (newSize : Int) : Except Fault TcpBuffer :=
  if h : 0 ≤ newSize ∧ newSize < 2147483648 then
    let count := min newSize.toNat b.canReadBytesNum
    .ok
      { buffer := b.readable.take count ++ List.replicate (newSize.toNat - count) 0
        readIndex := 0
        writeIndex := count
        read_le_write := Nat.zero_le _
        write_le_size := by
          simp only [List.length_append, List.length_take, length_readable]
          omega
        size_lt := by
          simp only [List.length_append, List.length_take, List.length_replicate,
            length_readable]
          omega }
  else .error .badLength

/-- Growing the buffer changes no readable byte. -/
theorem resizeBuffer_spec {n : Nat} (hn : n < 2147483648) (h : b.canReadBytesNum ≤ n) :
    ∃ b', b.resizeBuffer n = .ok b' ∧ b'.readable = b.readable ∧ b'.size = n ∧
      b'.writeIndex = b.canReadBytesNum := by
  have hlen := b.length_readable
  refine ⟨_, dif_pos ⟨by omega, by omega⟩, ?_, ?_, ?_⟩
  · simp only [readable, bytesFrom, List.drop_zero, Int.toNat_natCast, Nat.min_eq_right h]
    rw [← bytesFrom, ← readable, ← hlen, List.take_length, List.take_left]
  · simp only [size, Int.toNat_natCast, Nat.min_eq_right h, List.length_append,
      List.length_take, List.length_replicate, hlen]
    omega
  · simp only [Int.toNat_natCast, Nat.min_eq_right h]

/-! ### Appending -/

/-- A copy of `bytes` to the write index, which moves past them. -/
def append (bytes : List UInt8) (h : b.writeIndex + bytes.length ≤ b.size) : TcpBuffer where
  buffer := overwrite b.buffer b.writeIndex bytes
  readIndex := b.readIndex
  writeIndex := b.writeIndex + bytes.length
  read_le_write := Nat.le_add_right_of_le b.read_le_write
  write_le_size := by rwa [length_overwrite h]
  size_lt := by rw [length_overwrite h]; exact b.size_lt

variable {b} in
theorem readable_append {bytes : List UInt8} (h : b.writeIndex + bytes.length ≤ b.size) :
    (b.append bytes h).readable = b.readable ++ bytes := by
  have hw := b.write_le_size
  show ((overwrite _ _ _).take (b.writeIndex + bytes.length)).drop b.readIndex = _
  rw [take_overwrite_add hw, List.drop_append_of_le_length]
  · rfl
  · have := b.read_le_write
    simp only [List.length_take]
    omega

/-- What `::read` at the write index leaves in the vector: as many of `bytes` as there
is room for.  No index moves. -/
def fill (bytes : List UInt8) : TcpBuffer :=
  { b with
    buffer := overwrite b.buffer b.writeIndex (bytes.take b.canWriteBytesNum)
    write_le_size := by
      have hw := b.write_le_size
      rw [length_overwrite]
      · exact hw
      · rw [List.length_take, canWriteBytesNum, size]
        omega
    size_lt := by
      have hw := b.write_le_size
      rw [length_overwrite]
      · exact b.size_lt
      · rw [List.length_take, canWriteBytesNum, size]
        omega }

/-- The part of `write_to_buffer` that makes room: the new size is
`static_cast<int>(1.5 * (m_write_index + size))`. -/
def makeRoom (size : Nat) : Except Fault TcpBuffer :=
  if b.canWriteBytesNum < size then do
    let n ← int (b.writeIndex + size)
    let newSize ← int (n * 3 / 2)
    b.resizeBuffer newSize
  else .ok b

/-- `write_to_buffer`. -/
def writeToBuffer (bytes : List UInt8) : Except Fault TcpBuffer := do
  let b' ← b.makeRoom bytes.length
  if h : b'.writeIndex + bytes.length ≤ b'.size then .ok (b'.append bytes h)
  else .error .outOfRange

variable {b} {b' : TcpBuffer} {bytes : List UInt8}

/-- Making room changes no readable byte, and leaves the room asked for. -/
theorem makeRoom_spec {n : Nat} (h : b.makeRoom n = .ok b') :
    b'.readable = b.readable ∧ b'.writeIndex + n ≤ b'.size := by
  have hr := b.read_le_write
  have hw := b.write_le_size
  unfold makeRoom at h
  split at h
  · simp only [int_bind_eq_ok] at h
    obtain ⟨h₁, h₂, h⟩ := h
    unfold FitsInt at h₁ h₂
    -- the new size is at least the write index and `n`, so it holds the readable bytes too
    have hsize : ((b.writeIndex : Int) + n) * 3 / 2
        = (((b.writeIndex + n) * 3 / 2 : Nat) : Int) := by omega
    obtain ⟨b₁, hb₁, hread, hsz, hwr⟩ := b.resizeBuffer_spec
      (n := (b.writeIndex + n) * 3 / 2) (by omega) (by rw [canReadBytesNum]; omega)
    rw [hsize, hb₁] at h
    obtain rfl := Except.ok.inj h
    refine ⟨hread, ?_⟩
    rw [hwr, hsz, canReadBytesNum]
    omega
  · rename_i hroom
    obtain rfl := Except.ok.inj h
    refine ⟨rfl, ?_⟩
    rw [canWriteBytesNum] at hroom
    rw [size] at hroom ⊢
    omega

/-- Making room for fewer than `2^30` bytes in all succeeds, and no index moves up. -/
theorem makeRoom_ok {n : Nat} (h : b.writeIndex + n < 1073741824) :
    ∃ b', b.makeRoom n = .ok b' ∧ b'.writeIndex ≤ b.writeIndex := by
  unfold makeRoom
  split
  · have hsum : FitsInt ((b.writeIndex : Int) + n) := by unfold FitsInt; omega
    have hsize : ((b.writeIndex : Int) + n) * 3 / 2
        = (((b.writeIndex + n) * 3 / 2 : Nat) : Int) := by omega
    have hfit : FitsInt (((b.writeIndex + n) * 3 / 2 : Nat) : Int) := by unfold FitsInt; omega
    obtain ⟨b', hb', -, -, hwr⟩ := b.resizeBuffer_spec
      (n := (b.writeIndex + n) * 3 / 2) (by omega) (by rw [canReadBytesNum]; omega)
    refine ⟨b', ?_, ?_⟩
    · rw [int_of_fits hsum, ok_bind, hsize, int_of_fits hfit, ok_bind, hb']
    · rw [hwr]
      exact Nat.sub_le _ _
  · exact ⟨b, rfl, le_rfl⟩

/-- `write_to_buffer` succeeds as long as the bytes stay below `2^30` in all. -/
theorem writeToBuffer_ok (h : b.writeIndex + bytes.length < 1073741824) :
    ∃ b', b.writeToBuffer bytes = .ok b' ∧ b'.writeIndex ≤ b.writeIndex + bytes.length := by
  obtain ⟨b₁, hb₁, hle⟩ := makeRoom_ok h
  have hroom := (makeRoom_spec hb₁).2
  refine ⟨b₁.append bytes hroom, ?_, ?_⟩
  · rw [writeToBuffer, hb₁, ok_bind, dif_pos hroom]
  · exact Nat.add_le_add_right hle _

/-- **`write_to_buffer` appends exactly its bytes** to the readable ones. -/
theorem readable_writeToBuffer (h : b.writeToBuffer bytes = .ok b') :
    b'.readable = b.readable ++ bytes := by
  obtain ⟨b₁, hb₁, h⟩ := bind_eq_ok.mp h
  obtain ⟨hread, hroom⟩ := makeRoom_spec hb₁
  rw [dif_pos hroom] at h
  obtain rfl := Except.ok.inj h
  rw [readable_append, hread]

/-! ### Moving the indices -/

/-- The buffer with its read index at `j`. -/
def withReadIndex (b : TcpBuffer) (j : Nat) (h : j ≤ b.writeIndex) : TcpBuffer :=
  { b with readIndex := j, read_le_write := h }

theorem readable_withReadIndex {j : Nat} (h : j ≤ b.writeIndex) :
    (b.withReadIndex j h).readable = b.bytesFrom j := rfl

/-- `adjust_read_index`.  The comparison is made on `size_t`, so a negative sum is
refused as well.  A read index past the write index would leave the buffer
without a readable region; it is a fault, and no caller comes to it. -/
def adjustReadIndex (b : TcpBuffer) (size : Int) : Except Fault TcpBuffer := do
  let j ← int (b.readIndex + size)
  -- refused: the move would leave the vector, or reach its end
  if j < 0 ∨ (b.size : Int) ≤ j then .ok b
  else if h : j.toNat ≤ b.writeIndex then
    .ok (b.withReadIndex j.toNat h).adjustBuffer
  else .error .outOfRange

/-- `adjust_write_index`. -/
def adjustWriteIndex (b : TcpBuffer) (size : Nat) : TcpBuffer :=
  if h : b.writeIndex + size < b.size then
    adjustBuffer
      { b with
        writeIndex := b.writeIndex + size
        read_le_write := Nat.le_add_right_of_le b.read_le_write
        write_le_size := h.le }
  else b

/-- A move to an index `j` inside the vector makes the bytes from `j` on the readable
ones. -/
theorem adjustReadIndex_moved {k : Int} {j : Nat} (hj : b.readIndex + k = j)
    (hw : j ≤ b.writeIndex) (hs : j < b.size) :
    ∃ b', b.adjustReadIndex k = .ok b' ∧ b'.readable = b.bytesFrom j ∧
      b'.size = b.size ∧ b'.writeIndex ≤ b.writeIndex := by
  have hlt := b.size_lt
  rw [← size] at hlt
  have hfit : FitsInt ((b.readIndex : Int) + k) := by unfold FitsInt; omega
  refine ⟨(b.withReadIndex j hw).adjustBuffer, ?_, ?_, size_adjustBuffer _,
    writeIndex_adjustBuffer_le _⟩
  · rw [adjustReadIndex, int_of_fits hfit, ok_bind, if_neg (by omega), hj,
      dif_pos (by rwa [Int.toNat_natCast])]
    simp only [Int.toNat_natCast]
  · rw [readable_adjustBuffer, readable_withReadIndex]

/-- A move that would leave the vector, at either end, is refused. -/
theorem adjustReadIndex_refused {k : Int} (hfit : FitsInt (b.readIndex + k))
    (h : (b.readIndex : Int) + k < 0 ∨ (b.size : Int) ≤ b.readIndex + k) :
    b.adjustReadIndex k = .ok b := by
  rw [adjustReadIndex, int_of_fits hfit, ok_bind, if_pos h]

/-- Whatever it does, `adjust_read_index` keeps the size and adds no bytes. -/
theorem adjustReadIndex_frame {k : Int} (h : b.adjustReadIndex k = .ok b') :
    b'.size = b.size ∧ b'.writeIndex ≤ b.writeIndex := by
  rw [adjustReadIndex, int_bind_eq_ok] at h
  obtain ⟨-, h⟩ := h
  split at h
  · obtain rfl := Except.ok.inj h
    exact ⟨rfl, le_rfl⟩
  · split at h
    · obtain rfl := Except.ok.inj h
      exact ⟨size_adjustBuffer _, writeIndex_adjustBuffer_le _⟩
    · cases h

/-- `read_from_buffer`: what `re` holds afterwards, and the buffer.  With nothing to read,
`re` stays as it is. -/
def readFromBuffer (b : TcpBuffer) (re : List UInt8) (size : Int) :
    Except Fault (TcpBuffer × List UInt8) :=
  if b.canReadBytesNum = 0 then .ok (b, re)
  else
    let readSize := min size b.canReadBytesNum
    if h : 0 ≤ readSize then
      .ok ((b.withReadIndex (b.readIndex + readSize.toNat) (by
        have hw := b.read_le_write
        simp only [readSize, canReadBytesNum] at h ⊢
        omega)).adjustBuffer, b.readable.take readSize.toNat)
    -- the vector of the bytes read is created with a negative size
    else .error .badLength

/-- **`read_from_buffer` removes the first bytes** and hands over exactly these. -/
theorem readFromBuffer_spec (b : TcpBuffer) (k : Nat) :
    ∃ b', b.readFromBuffer [] k = .ok (b', b.readable.take k) ∧
      b'.readable = b.readable.drop k := by
  have hlen := b.length_readable
  by_cases hzero : b.canReadBytesNum = 0
  · have hnil : b.readable = [] := List.eq_nil_of_length_eq_zero (hlen.trans hzero)
    refine ⟨b, ?_, ?_⟩
    · rw [readFromBuffer, if_pos hzero, hnil, List.take_nil]
    · rw [hnil, List.drop_nil]
  · have hmin : min (k : Int) b.canReadBytesNum = ((min k b.canReadBytesNum : Nat) : Int) := by
      omega
    have htake : b.readable.take (min k b.canReadBytesNum) = b.readable.take k := by
      rw [← hlen, ← List.take_take, List.take_length]
    simp only [readFromBuffer, if_neg hzero, hmin, Int.natCast_nonneg, Int.toNat_natCast,
      dif_pos, htake]
    refine ⟨_, rfl, ?_⟩
    rw [readable_adjustBuffer, readable_withReadIndex, bytesFrom_add, ← readable]
    apply List.drop_eq_drop_iff.mpr
    rw [hlen]
    omega

/-- A move forward of the write index makes the bytes it passes readable, unless it
would reach the end of the vector. -/
theorem readable_adjustWriteIndex {k : Nat} (h : b.writeIndex + k < b.size) :
    (b.adjustWriteIndex k).readable
      = (b.buffer.take (b.writeIndex + k)).drop b.readIndex := by
  rw [adjustWriteIndex, dif_pos h, readable_adjustBuffer]
  rfl

theorem adjustWriteIndex_refused {k : Nat} (h : b.size ≤ b.writeIndex + k) :
    b.adjustWriteIndex k = b := dif_neg (Nat.not_lt.mpr h)

theorem size_adjustWriteIndex (b : TcpBuffer) (k : Nat) :
    (b.adjustWriteIndex k).size = b.size := by
  unfold adjustWriteIndex
  split
  · exact size_adjustBuffer _
  · rfl

/-- A buffer with a spare byte keeps one: the move that would use it up is refused. -/
theorem adjustWriteIndex_lt {k : Nat} (h : b.writeIndex < b.size) :
    (b.adjustWriteIndex k).writeIndex < (b.adjustWriteIndex k).size := by
  rw [size_adjustWriteIndex]
  unfold adjustWriteIndex
  split
  · rename_i hlt
    exact (writeIndex_adjustBuffer_le _).trans_lt hlt
  · exact h

/-! ### Reading from a socket -/

/-- A `::read` to the write index that returns `bytes`, and the `adjust_write_index` that
follows it. -/
def readIn (b : TcpBuffer) (bytes : List UInt8) : TcpBuffer :=
  (b.fill bytes).adjustWriteIndex bytes.length

/-- A read below the write index changes no readable byte. -/
theorem readable_fill : (b.fill bytes).readable = b.readable := by
  show ((overwrite _ _ _).take b.writeIndex).drop b.readIndex = _
  rw [take_overwrite le_rfl b.write_le_size]
  rfl

theorem size_fill : (b.fill bytes).size = b.size := by
  have hw := b.write_le_size
  apply length_overwrite
  rw [List.length_take, canWriteBytesNum, size]
  omega

/-- A read that leaves a byte of the vector is an `append`. -/
theorem readIn_of_lt (h : b.writeIndex + bytes.length < b.size) :
    b.readIn bytes = (b.append bytes h.le).adjustBuffer := by
  have htake : bytes.take b.canWriteBytesNum = bytes := by
    apply List.take_of_length_le
    rw [canWriteBytesNum]
    omega
  have hlt : (b.fill bytes).writeIndex + bytes.length < (b.fill bytes).size := by
    rwa [size_fill]
  rw [readIn, adjustWriteIndex, dif_pos hlt]
  simp only [fill, append, htake]

theorem readable_readIn (h : b.writeIndex + bytes.length < b.size) :
    (b.readIn bytes).readable = b.readable ++ bytes := by
  rw [readIn_of_lt h, readable_adjustBuffer, readable_append]

/-- **A read up to the last byte of the vector is lost**: the write index stays. -/
theorem readIn_full (h : b.size ≤ b.writeIndex + bytes.length) :
    b.readIn bytes = b.fill bytes := by
  apply adjustWriteIndex_refused
  rw [size_fill]
  exact h

/-- A buffer with a spare byte keeps one, whatever is read. -/
theorem readIn_spare (h : b.writeIndex < b.size) :
    (b.readIn bytes).writeIndex < (b.readIn bytes).size := by
  apply adjustWriteIndex_lt
  rw [size_fill]
  exact h

end TcpBuffer

end TinyRpc
