/-
TinyRpc/MoveIndices.lean

`adjust_write_index` and `adjust_read_index`, for all sizes within their bounds.

Both compare the new index with the size of the vector, and refuse it when the two are
equal.  That is no place past the end but the end itself, where `write_to_buffer` and
`read_from_buffer` do leave an index.  So the last byte of the vector cannot be made
readable together with all before it, and once it is readable it cannot be removed
together with all before it.
-/
import TinyRpc.TcpBuffer

namespace TinyRpc

open Checked Bytes

namespace TcpBuffer

variable {b : TcpBuffer} {k : Nat}

/-- `adjust_write_index(k)` makes exactly the next `k` bytes of the vector readable. -/
def MakesReadable (b : TcpBuffer) (k : Nat) : Prop :=
  (b.adjustWriteIndex k).readable = b.readable ++ (b.buffer.drop b.writeIndex).take k ∧
    (b.adjustWriteIndex k).size = b.size

/-- `adjust_read_index(k)` removes exactly the first `k` readable bytes. -/
def Removes (b : TcpBuffer) (k : Nat) : Prop :=
  ∃ b', b.adjustReadIndex k = .ok b' ∧ b'.readable = b.readable.drop k ∧ b'.size = b.size

/-- The bytes up to an index past the write index. -/
theorem drop_take_writeIndex_add (b : TcpBuffer) (k : Nat) :
    (b.buffer.take (b.writeIndex + k)).drop b.readIndex =
      b.readable ++ (b.buffer.drop b.writeIndex).take k := by
  have hr := b.read_le_write
  have hw := b.write_le_size
  rw [List.take_add, List.drop_append_of_le_length]
  · rfl
  · rw [List.length_take, Nat.min_eq_left hw]
    exact hr

theorem makesReadable_of_lt (h : k < b.canWriteBytesNum) : MakesReadable b k := by
  have hlt : b.writeIndex + k < b.size := by
    rw [canWriteBytesNum] at h
    omega
  refine ⟨?_, size_adjustWriteIndex b k⟩
  rw [readable_adjustWriteIndex hlt, drop_take_writeIndex_add]

/-- All the room there is cannot be made readable, if there is any. -/
theorem makesReadable_iff (h : k ≤ b.canWriteBytesNum) :
    MakesReadable b k ↔ k < b.canWriteBytesNum ∨ k = 0 := by
  have hw := b.write_le_size
  rw [canWriteBytesNum, size] at h
  rcases Nat.lt_or_ge k b.canWriteBytesNum with hlt | hge
  · exact ⟨fun _ => .inl hlt, fun _ => makesReadable_of_lt hlt⟩
  · -- the move to the end of the vector is refused
    have hend : b.adjustWriteIndex k = b := by
      apply adjustWriteIndex_refused
      rw [canWriteBytesNum, size] at hge
      rw [size]
      omega
    constructor
    · rintro ⟨hread, -⟩
      have hlen := congrArg List.length hread
      rw [hend, List.length_append, List.length_take, List.length_drop] at hlen
      exact .inr (by omega)
    · rintro (hlt | rfl)
      · exact absurd hlt (Nat.not_lt.mpr hge)
      · rw [MakesReadable, hend, List.take_zero, List.append_nil]
        exact ⟨rfl, rfl⟩

theorem removes_of_lt (h : k ≤ b.canReadBytesNum) (hlt : b.readIndex + k < b.size) :
    Removes b k := by
  have hr := b.read_le_write
  have hw : b.readIndex + k ≤ b.writeIndex := by
    rw [canReadBytesNum] at h
    omega
  obtain ⟨b', hb', hread, hsize, -⟩ := adjustReadIndex_moved (k := k) (by omega) hw hlt
  refine ⟨b', hb', ?_, hsize⟩
  rw [hread, bytesFrom_add]
  rfl

/-- All the readable bytes cannot be removed, if there are any, once they reach the end of the
vector. -/
theorem removes_iff (h : k ≤ b.canReadBytesNum) :
    Removes b k ↔ b.readIndex + k < b.size ∨ k = 0 := by
  have hr := b.read_le_write
  have hw := b.write_le_size
  have hsize := b.size_lt
  have hlen := b.length_readable
  rcases Nat.lt_or_ge (b.readIndex + k) b.size with hlt | hge
  · exact ⟨fun _ => .inl hlt, fun _ => removes_of_lt h hlt⟩
  · -- the move to the end of the vector is refused
    have hend : b.adjustReadIndex k = .ok b := by
      rw [canReadBytesNum] at h
      rw [size] at hge
      apply adjustReadIndex_refused
      · unfold FitsInt
        omega
      · rw [size]
        omega
    constructor
    · rintro ⟨b', hb', hread, -⟩
      obtain rfl : b = b' := Except.ok.inj (hend.symm.trans hb')
      have hdrop := congrArg List.length hread
      rw [List.length_drop] at hdrop
      exact .inr (by omega)
    · rintro (hlt | rfl)
      · exact absurd hlt (Nat.not_lt.mpr hge)
      · exact ⟨b, hend, rfl, rfl⟩

/-- **The indices move as asked**, unless the move would take them to the end of the vector. -/
theorem indices_move_iff (b : TcpBuffer) {written read : Nat}
    (hwritten : written ≤ b.canWriteBytesNum) (hread : read ≤ b.canReadBytesNum) :
    (MakesReadable b written ↔ written < b.canWriteBytesNum ∨ written = 0) ∧
      (Removes b read ↔ b.readIndex + read < b.size ∨ read = 0) :=
  ⟨makesReadable_iff hwritten, removes_iff hread⟩

/-- Three bytes, of which the second is readable. -/
def middleByte : TcpBuffer := ⟨[1, 2, 3], 1, 2, by decide, by decide, by decide⟩

theorem indices_move_iff_middleByte :
    (MakesReadable middleByte 1 ↔ 1 < middleByte.canWriteBytesNum ∨ 1 = 0) ∧
      (Removes middleByte 1 ↔ middleByte.readIndex + 1 < middleByte.size ∨ 1 = 0) :=
  indices_move_iff middleByte (by decide) (by decide)

/-- Three bytes, of which the last is readable. -/
def lastByte : TcpBuffer := ⟨[1, 2, 3], 2, 3, by decide, by decide, by decide⟩

/-- The room that is left, one byte, cannot be made readable, and the last byte cannot be
removed. -/
theorem indices_not_moved :
    (1 ≤ middleByte.canWriteBytesNum ∧ ¬ MakesReadable middleByte 1) ∧
      (1 ≤ lastByte.canReadBytesNum ∧ ¬ Removes lastByte 1) := by
  refine ⟨⟨by decide, fun hmade => ?_⟩, ⟨by decide, fun hremoved => ?_⟩⟩
  · exact absurd ((makesReadable_iff (by decide)).mp hmade) (by decide)
  · exact absurd ((removes_iff (by decide)).mp hremoved) (by decide)

end TcpBuffer

end TinyRpc
