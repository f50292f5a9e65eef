/-
TinyRpc/ByteQueue.lean

What a `TcpBuffer` is for: a queue of bytes.

A `QueueOp` puts elements at the end of a queue, takes some from its front, or
leaves it alone; the replies to a run and what the queue holds after it are, put
together, all that was put in (`runSpec_queue`).  A `BufferOp` is one call of the
buffer's interface, and `refines_queue` says what the call does to the queue of
the readable bytes: growing, copying and compacting are not to be seen.

The sizes are bounded, as the `int`s of the source ask for: a buffer of `2^29`
bytes or more may grow past what an `int` holds.
-/
import TinyRpc.Base.Refine
import TinyRpc.TcpBuffer

namespace TinyRpc

open Checked Bytes Refine

/-! ### A queue -/

/-- What can be done to a queue. -/
inductive QueueOp (α : Type) where
  | put (xs : List α)
  | take (k : Nat)
  | keep

/-- The queue after the operation, and what has been taken from it. -/
def queueStep {α : Type} (q : List α) : QueueOp α → List α × List α
  | .put xs => (q ++ xs, [])
  | .take k => (q.drop k, q.take k)
  | .keep => (q, [])

/-- What the operation puts in. -/
def QueueOp.input {α : Type} : QueueOp α → List α
  | .put xs => xs
  | _ => []

/-- **First in, first out**: what has been taken and what is left are what was there and
what was put in, in that order. -/
theorem runSpec_queue {α : Type} (q : List α) (ops : List (QueueOp α)) :
    (runSpec queueStep q ops).2.flatten ++ (runSpec queueStep q ops).1
      = q ++ (ops.map QueueOp.input).flatten := by
  induction ops generalizing q with
  | nil => simp [runSpec]
  | cons op ops ih =>
      show ((queueStep q op).2 :: (runSpec queueStep (queueStep q op).1 ops).2).flatten
        ++ (runSpec queueStep (queueStep q op).1 ops).1 = _
      rw [List.flatten_cons, List.append_assoc, ih]
      rcases op with xs | k | _ <;> simp [queueStep, QueueOp.input, ← List.append_assoc]

/-! ### The calls of the buffer's interface -/

/-- A call of the buffer's interface. -/
inductive BufferOp where
  | writeToBuffer (bytes : List UInt8)
  /-- `read_from_buffer(re, size)`, with nothing in `re` -/
  | readFromBuffer (size : Int)
  | resizeBuffer (newSize : Int)
  | adjustBuffer

/-- The buffer after the call, and what the call has handed over. -/
def bufferStep (b : TcpBuffer) : BufferOp → Except Fault (TcpBuffer × List UInt8)
  | .writeToBuffer bytes => do
    let b' ← b.writeToBuffer bytes
    .ok (b', [])
  | .readFromBuffer size => b.readFromBuffer [] size
  | .resizeBuffer newSize => do
    let b' ← b.resizeBuffer newSize
    .ok (b', [])
  | .adjustBuffer => .ok (b.adjustBuffer, [])

/-- What a call does to the queue of the readable bytes. -/
def BufferOp.label : BufferOp → QueueOp UInt8
  | .writeToBuffer bytes => .put bytes
  | .readFromBuffer size => .take size.toNat
  | .resizeBuffer _ => .keep
  | .adjustBuffer => .keep

/-- The size a call asks for: no negative one, less than `2^29`, and never one
that the readable bytes do not fit in. -/
def BufferOp.Allowed (b : TcpBuffer) : BufferOp → Prop
  | .writeToBuffer bytes => bytes.length < 536870912
  | .readFromBuffer size => 0 ≤ size ∧ size < 536870912
  | .resizeBuffer newSize => (b.canReadBytesNum : Int) ≤ newSize ∧ newSize < 536870912
  | .adjustBuffer => True

instance decidableAllowed (b : TcpBuffer) : DecidablePred (BufferOp.Allowed b)
  | .writeToBuffer bytes => inferInstanceAs (Decidable (bytes.length < 536870912))
  | .readFromBuffer size => inferInstanceAs (Decidable (0 ≤ size ∧ size < 536870912))
  | .resizeBuffer newSize =>
      inferInstanceAs (Decidable ((b.canReadBytesNum : Int) ≤ newSize ∧ newSize < 536870912))
  | .adjustBuffer => inferInstanceAs (Decidable True)

/-- The buffer and the call stay below `2^29`. -/
def Below (b : TcpBuffer) (op : BufferOp) : Prop := b.size < 536870912 ∧ op.Allowed b

instance decidableBelow (b : TcpBuffer) (op : BufferOp) : Decidable (Below b op) :=
  inferInstanceAs (Decidable (b.size < 536870912 ∧ op.Allowed b))

/-- **Each call does to the readable bytes what it does to a queue.** -/
theorem refines_queue :
    Refines bufferStep queueStep TcpBuffer.readable BufferOp.label Below where
  step b op h := by
    obtain ⟨hsize, hop⟩ := h
    rcases op with bytes | size | newSize | _
    · have hw := b.write_le_size
      rw [TcpBuffer.size] at hsize
      simp only [BufferOp.Allowed] at hop
      have hlt : b.writeIndex + bytes.length < 1073741824 := by omega
      obtain ⟨b', hb', -⟩ := TcpBuffer.writeToBuffer_ok hlt
      refine ⟨b', ?_, TcpBuffer.readable_writeToBuffer hb'⟩
      rw [bufferStep, hb', ok_bind]
      rfl
    · obtain ⟨k, rfl⟩ := Int.eq_ofNat_of_zero_le hop.1
      exact b.readFromBuffer_spec k
    · obtain ⟨hread, hlt⟩ := hop
      obtain ⟨n, rfl⟩ := Int.eq_ofNat_of_zero_le
        (Int.le_trans (Int.natCast_nonneg b.canReadBytesNum) hread)
      obtain ⟨b', hb', hreadable, -, -⟩ :=
        b.resizeBuffer_spec (n := n) (by omega) (by omega)
      refine ⟨b', ?_, hreadable⟩
      rw [bufferStep, hb', ok_bind]
      rfl
    · exact ⟨b.adjustBuffer, rfl, b.readable_adjustBuffer⟩

theorem readable_ofSize (n : Nat) (hn : n < 2147483648) : (TcpBuffer.ofSize n hn).readable = [] :=
  List.drop_eq_nil_of_le (List.length_take_le _ _)

/-- **A `TcpBuffer` is a queue of bytes**: at every point of a run within the bounds, no
call has failed, the indices are in order, and what has been handed over and what is
readable are those of the queue. -/
theorem tcpBuffer_refines_queue (n : Nat) (hn : n < 2147483648) (ops calls : List BufferOp)
    (h : Guarded bufferStep Below (TcpBuffer.ofSize n hn) ops) (hcalls : calls <+: ops) :
    ∃ b replies, run bufferStep (TcpBuffer.ofSize n hn) calls = .ok (b, replies) ∧
      0 ≤ b.readIndex ∧ b.readIndex ≤ b.writeIndex ∧ b.writeIndex ≤ b.size ∧
      runSpec queueStep [] (calls.map BufferOp.label) = (b.readable, replies) := by
  obtain ⟨later, rfl⟩ := hcalls
  obtain ⟨b, replies, hrun, hspec⟩ := refines_queue.run h.of_append
  rw [readable_ofSize] at hspec
  exact ⟨b, replies, hrun, Nat.zero_le _, b.read_le_write, b.write_le_size, hspec⟩

/-- A buffer of one byte that grows, hands over two bytes of three, compacts, takes two more
and is cut down to what it holds. -/
def growingCalls : List BufferOp :=
  [.writeToBuffer [1, 2, 3], .readFromBuffer 2, .adjustBuffer, .writeToBuffer [4, 5],
    .resizeBuffer 3, .readFromBuffer 9]

theorem tcpBuffer_refines_queue_growingCalls :
    ∃ b replies, run bufferStep (TcpBuffer.ofSize 1 (by decide)) growingCalls
        = .ok (b, replies) ∧
      0 ≤ b.readIndex ∧ b.readIndex ≤ b.writeIndex ∧ b.writeIndex ≤ b.size ∧
      runSpec queueStep [] (growingCalls.map BufferOp.label) = (b.readable, replies) :=
  tcpBuffer_refines_queue 1 (by decide) growingCalls growingCalls (by decide +kernel)
    (List.prefix_refl _)

/-- **No byte is lost, doubled or moved**: the bytes handed over and then the readable ones
are the bytes written. -/
theorem handedOver_append_readable {b b' : TcpBuffer} {calls : List BufferOp}
    {replies : List (List UInt8)} (h : Guarded bufferStep Below b calls)
    (hrun : run bufferStep b calls = .ok (b', replies)) :
    replies.flatten ++ b'.readable
      = b.readable ++ (calls.map fun call => call.label.input).flatten := by
  obtain ⟨b₁, replies₁, hrun₁, hspec⟩ := refines_queue.run h
  obtain ⟨rfl, rfl⟩ := Prod.mk.inj (Except.ok.inj (hrun.symm.trans hrun₁))
  have hqueue := runSpec_queue b.readable (calls.map BufferOp.label)
  rwa [hspec, List.map_map] at hqueue

end TinyRpc
