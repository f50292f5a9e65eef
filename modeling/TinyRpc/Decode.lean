/-
TinyRpc/Decode.lean

`ProtobufCoder::decode`.  One pass of its `while (true)` loop copies the buffer,
scans the copy for a start byte whose length field points at an end byte,
consumes the frame with a *relative* `adjust_read_index`, and parses the fields
of the copy.  The scan is a `search`, the loop a `Loop.run`.

Every access to the copy is one of the checked readers of `Base/Bytes.lean`, and
every index is an `int`.  The second half of this file says, in terms of the
bytes alone, when the body of the scan goes on (`Harmless`), when it breaks
(`Delimited`), and when it stays in range (`HeaderInRange`), so that the
theorems about decoding never look into the scan again.
-/
import TinyRpc.Protocol
import TinyRpc.Base.Search
import TinyRpc.Base.Loop

namespace TinyRpc

open Checked Bytes NetOrder Search TcpBuffer

/-! ### The scan -/

/-- What the scan has found: `start_index`, `end_index` and `pk_len`. -/
structure Frame where
  start : Nat
  stop : Nat
  pkLen : Int32
  deriving DecidableEq

/-- The body of the scan once index `i` holds a start byte with a byte after it. -/
def headerAt (tmp : List UInt8) (writeIndex i : Nat) : Except Fault (Option Frame) := do
  -- the four bytes are read whether or not they have arrived
  let pkLen ← int32At tmp (i + 1)
  let past ← int (i + pkLen.toInt)
  let j ← int (past - 1)
  -- the end is still to come: `continue`
  if writeIndex ≤ j then .ok none
  else do
    let e ← byteAt tmp j
    if e = sEnd then .ok (some ⟨i, j.toNat, pkLen⟩) else .ok none

/-- The body of the scan at index `i` of the copy `tmp`. -/
def scanAt (tmp : List UInt8) (writeIndex i : Nat) : Except Fault (Option Frame) := do
  let c ← byteAt tmp i
  if c = sStart ∧ i + 1 < writeIndex then headerAt tmp writeIndex i else .ok none

/-- The scan of one pass, from the read index to the write index. -/
def scan (b : TcpBuffer) : Except Fault (Option Frame) :=
  search (scanAt b.buffer b.writeIndex) b.canReadBytesNum b.readIndex

/-- `buffer->adjust_read_index(end_index - start_index + 1)`. -/
def consume (b : TcpBuffer) (f : Frame) : Except Fault TcpBuffer :=
  b.adjustReadIndex (f.stop - f.start + 1)

/-! ### The fields -/

/-- One length-prefixed string of a frame: its length at `&tmp[index]`, a copy of it
into an array of `cap` bytes and a NUL, and the index after it. -/
def lenField (tmp : List UInt8) (index cap : Int) :
    Except Fault (Int32 × List UInt8 × Int) := do
  let len ← int32At tmp index
  let start ← int (index + 4)
  -- `memcpy` takes the length as it stands in the frame
  let bytes ← copyAt tmp start len.toInt cap
  let next ← int (start + len.toInt)
  .ok (len, bytes, next)

/-- `std::string(&tmp[index], len)`. -/
def stringAt (tmp : List UInt8) (index len : Int) : Except Fault (List UInt8) := do
  let _ ← check (0 ≤ len) .badLength ()
  copyAt tmp index len len

/-- The fields of a frame.  `none` is one of the four `continue`s. -/
def parseFields (tmp : List UInt8) (f : Frame) : Except Fault (Option ProtobufProtocol) := do
  let msgIdLenIndex ← int (f.start + 5)
  if f.stop ≤ msgIdLenIndex then .ok none
  else do
    let (msgIdLen, msgId, methodNameLenIndex) ← lenField tmp msgIdLenIndex 99
    if f.stop ≤ methodNameLenIndex then .ok none
    else do
      let (methodNameLen, methodName, errCodeIndex) ← lenField tmp methodNameLenIndex 511
      if f.stop ≤ errCodeIndex then .ok none
      else do
        let errCode ← int32At tmp errCodeIndex
        let errInfoLenIndex ← int (errCodeIndex + 4)
        if f.stop ≤ errInfoLenIndex then .ok none
        else do
          let (errInfoLen, errInfo, pbDataIndex) ← lenField tmp errInfoLenIndex 511
          let pbDataLen ← int (f.pkLen.toInt - methodNameLen.toInt - msgIdLen.toInt
            - errInfoLen.toInt - 2 - 24)
          let pbData ← stringAt tmp pbDataIndex pbDataLen
          .ok (some
            { pkLen := f.pkLen
              msgIdLen := msgIdLen
              msgId := cString msgId
              methodNameLen := methodNameLen
              methodName := cString methodName
              errCode := errCode
              errInfoLen := errInfoLen
              errInfo := cString errInfo
              pbData := pbData
              parseSuccess := true })

/-! ### The loop -/

/-- One pass of the loop: return, or consume a frame and put out what it holds. -/
def decodePass : Loop.Body Fault TcpBuffer ProtobufProtocol := fun b => do
  match ← scan b with
  | none => .ok none
  | some f => do
      -- the frame is consumed before it is parsed; the parser works on the copy
      let b' ← consume b f
      let message ← parseFields b.buffer f
      .ok (some (b', message.toList))

/-- `decode`, for at most `fuel` passes. -/
def decode (fuel : Nat) (b : TcpBuffer) :
    Option (Except Fault (TcpBuffer × List ProtobufProtocol)) :=
  Loop.run decodePass fuel b

/-! ### The scan, in terms of the bytes -/

/-- `pk_len` of a frame that starts at index `i`. -/
def pkLenAt (b : TcpBuffer) (i : Nat) : Int32 := netAt b.buffer (i + 1)

/-- The index of the last byte of a frame that starts at index `i`. -/
def endAt (b : TcpBuffer) (i : Nat) : Int := i + (pkLenAt b i).toInt - 1

/-- Index `i` holds a start byte, and it is not the last readable one. -/
def IsStart (b : TcpBuffer) (i : Nat) : Prop :=
  b.buffer.getD i 0 = sStart ∧ i + 1 < b.writeIndex

/-- The length field after index `i` lies in the vector, and what it says is an index
of the vector or one past the readable bytes, and fits in an `int`. -/
def HeaderInRange (b : TcpBuffer) (i : Nat) : Prop :=
  i + 5 ≤ b.size ∧ 0 ≤ endAt b i ∧ endAt b i + 1 ≤ 2147483647

/-- The length field after index `i` points at a readable end byte. -/
def EndsAt (b : TcpBuffer) (i : Nat) : Prop :=
  endAt b i < b.writeIndex ∧ b.buffer.getD (endAt b i).toNat 0 = sEnd

/-- The scan goes on at index `i`. -/
def Harmless (b : TcpBuffer) (i : Nat) : Prop :=
  IsStart b i → HeaderInRange b i ∧ ¬ EndsAt b i

/-- The scan breaks at index `i`. -/
def Delimited (b : TcpBuffer) (i : Nat) : Prop :=
  IsStart b i ∧ HeaderInRange b i ∧ EndsAt b i

instance (b : TcpBuffer) (i : Nat) : Decidable (IsStart b i) :=
  inferInstanceAs (Decidable (_ ∧ _))

instance (b : TcpBuffer) (i : Nat) : Decidable (HeaderInRange b i) :=
  inferInstanceAs (Decidable (_ ∧ _))

instance (b : TcpBuffer) (i : Nat) : Decidable (EndsAt b i) :=
  inferInstanceAs (Decidable (_ ∧ _))

instance (b : TcpBuffer) (i : Nat) : Decidable (Harmless b i) :=
  inferInstanceAs (Decidable (_ → _))

instance (b : TcpBuffer) (i : Nat) : Decidable (Delimited b i) :=
  inferInstanceAs (Decidable (_ ∧ _))

/-- What the scan breaks with at index `i`. -/
def frameAt (b : TcpBuffer) (i : Nat) : Frame := ⟨i, (endAt b i).toNat, pkLenAt b i⟩

variable {b : TcpBuffer} {i : Nat}

theorem safe_headerAt :
    Safe (headerAt b.buffer b.writeIndex i) ↔ HeaderInRange b i := by
  have hw := b.write_le_size
  have hlo := (pkLenAt b i).le_toInt
  have hto : ((i : Int) + 1).toNat = i + 1 := by omega
  simp only [headerAt, int32At, byteAt, safe_check_bind, safe_int_bind, safe_ite, safe_ok,
    HeaderInRange, endAt, pkLenAt, size, FitsInt, implies_true, true_and, and_true, hto]
    at hlo ⊢
  omega

theorem headerAt_eq (h : HeaderInRange b i) :
    headerAt b.buffer b.writeIndex i
      = .ok (if EndsAt b i then some (frameAt b i) else none) := by
  have hw := b.write_le_size
  have hlo := (pkLenAt b i).le_toInt
  obtain ⟨h₁, h₂, h₃⟩ := h
  have hto : ((i : Int) + 1).toNat = i + 1 := by omega
  have hread : int32At b.buffer (i + 1) = .ok (pkLenAt b i) := by
    rw [int32At, check_of_pos (by rw [size] at h₁; omega), hto, pkLenAt]
  have hpast : int (i + (pkLenAt b i).toInt) = .ok (i + (pkLenAt b i).toInt) :=
    int_of_fits (by unfold FitsInt; rw [endAt] at h₂ h₃; omega)
  have hend : int (i + (pkLenAt b i).toInt - 1) = .ok (endAt b i) :=
    int_of_fits (by unfold FitsInt; rw [endAt] at h₂ h₃; omega)
  rw [headerAt, hread, ok_bind, hpast, ok_bind, hend, ok_bind]
  by_cases hge : (b.writeIndex : Int) ≤ endAt b i
  · have hnot : ¬ EndsAt b i := fun he => absurd he.1 (by omega)
    rw [if_pos hge, if_neg hnot]
  · have hbyte : byteAt b.buffer (endAt b i) = .ok (b.buffer.getD (endAt b i).toNat 0) :=
      check_of_pos (by omega)
    rw [if_neg hge, hbyte, ok_bind]
    by_cases he : b.buffer.getD (endAt b i).toNat 0 = sEnd
    · have hends : EndsAt b i := ⟨by omega, he⟩
      rw [if_pos he, if_pos hends, frameAt]
    · have hnot : ¬ EndsAt b i := fun hends => he hends.2
      rw [if_neg he, if_neg hnot]

theorem scanAt_unfold (hi : i < b.writeIndex) :
    scanAt b.buffer b.writeIndex i
      = if IsStart b i then headerAt b.buffer b.writeIndex i else .ok none := by
  have hw := b.write_le_size
  have hb : byteAt b.buffer i = .ok (b.buffer.getD i 0) := by
    rw [byteAt, check_of_pos (by omega), Int.toNat_natCast]
  rw [scanAt, hb, ok_bind]
  rfl

/-- The body of the scan stays in range exactly where its header does. -/
theorem safe_scanAt (hi : i < b.writeIndex) :
    Safe (scanAt b.buffer b.writeIndex i) ↔ (IsStart b i → HeaderInRange b i) := by
  rw [scanAt_unfold hi, safe_ite, safe_headerAt]
  simp

theorem scanAt_eq (hi : i < b.writeIndex) (h : IsStart b i → HeaderInRange b i) :
    scanAt b.buffer b.writeIndex i
      = .ok (if Delimited b i then some (frameAt b i) else none) := by
  rw [scanAt_unfold hi]
  by_cases hs : IsStart b i
  · have hiff : Delimited b i ↔ EndsAt b i := ⟨fun hd => hd.2.2, fun he => ⟨hs, h hs, he⟩⟩
    rw [if_pos hs, headerAt_eq (h hs)]
    simp only [hiff]
  · have hnot : ¬ Delimited b i := fun hd => hs hd.1
    rw [if_neg hs, if_neg hnot]

theorem scanAt_eq_none (hi : i < b.writeIndex) :
    scanAt b.buffer b.writeIndex i = .ok none ↔ Harmless b i := by
  constructor
  · intro h hs
    have hr := (safe_scanAt hi).mp ⟨_, h⟩
    refine ⟨hr hs, fun he => ?_⟩
    rw [scanAt_eq hi hr, if_pos ⟨hs, hr hs, he⟩] at h
    cases h
  · intro h
    rw [scanAt_eq hi fun hs => (h hs).1, if_neg fun hd => (h hd.1).2 hd.2.2]

theorem scanAt_eq_some (hi : i < b.writeIndex) {f : Frame} :
    scanAt b.buffer b.writeIndex i = .ok (some f) ↔ Delimited b i ∧ f = frameAt b i := by
  constructor
  · intro h
    rw [scanAt_eq hi ((safe_scanAt hi).mp ⟨_, h⟩)] at h
    split at h
    · rename_i hd
      exact ⟨hd, by simpa using h.symm⟩
    · cases h
  · rintro ⟨hd, rfl⟩
    rw [scanAt_eq hi fun _ => hd.2.1, if_pos hd]

/-! ### What a scan finds -/

/-- The scan goes on at every index from the read index up to `i`. -/
def HarmlessUpTo (b : TcpBuffer) (i : Nat) : Prop :=
  ∀ k, b.readIndex ≤ k → k < i → Harmless b k

/-- No readable byte looks like the start of a complete frame. -/
def Quiet (b : TcpBuffer) : Prop := HarmlessUpTo b b.writeIndex

/-- The scan breaks at index `i`. -/
def FirstFrame (b : TcpBuffer) (i : Nat) : Prop :=
  b.readIndex ≤ i ∧ i < b.writeIndex ∧ Delimited b i ∧ HarmlessUpTo b i

/-- Every length field the scan comes to is in range. -/
def ScanInRange (b : TcpBuffer) : Prop :=
  ∀ i, b.readIndex ≤ i → i < b.writeIndex → HarmlessUpTo b i → IsStart b i → HeaderInRange b i

theorem scan_end : b.readIndex + b.canReadBytesNum = b.writeIndex := by
  have h := b.read_le_write
  rw [canReadBytesNum]
  omega

theorem passes_scanAt (hi : i ≤ b.writeIndex) :
    Passes (scanAt b.buffer b.writeIndex) b.readIndex i ↔ HarmlessUpTo b i := by
  refine forall_congr' fun k => forall_congr' fun _ => forall_congr' fun hk => ?_
  exact scanAt_eq_none (hk.trans_le hi)

/-- The scan runs to its end exactly when nothing looks like a frame. -/
theorem scan_eq_none : scan b = .ok none ↔ Quiet b := by
  rw [scan, search_eq_none, scan_end, passes_scanAt le_rfl, Quiet]

/-- The scan finds the first delimited frame. -/
theorem scan_eq_some {f : Frame} :
    scan b = .ok (some f) ↔ ∃ i, FirstFrame b i ∧ f = frameAt b i := by
  rw [scan, search_eq_some, scan_end]
  constructor
  · rintro ⟨i, hr, hw, hf, hp⟩
    obtain ⟨hd, rfl⟩ := (scanAt_eq_some hw).mp hf
    exact ⟨i, ⟨hr, hw, hd, (passes_scanAt hw.le).mp hp⟩, rfl⟩
  · rintro ⟨i, ⟨hr, hw, hd, hp⟩, rfl⟩
    exact ⟨i, hr, hw, (scanAt_eq_some hw).mpr ⟨hd, rfl⟩, (passes_scanAt hw.le).mpr hp⟩

theorem safe_scan : Safe (scan b) ↔ ScanInRange b := by
  rw [scan, safe_search, scan_end]
  refine forall_congr' fun i => forall_congr' fun _ => forall_congr' fun hw => ?_
  rw [passes_scanAt hw.le, safe_scanAt hw]

/-- There is one first frame. -/
theorem FirstFrame.unique {i j : Nat} (hi : FirstFrame b i) (hj : FirstFrame b j) : i = j := by
  have hlt : ∀ {k l : Nat}, FirstFrame b k → FirstFrame b l → ¬ k < l := by
    intro k l hk hl hkl
    exact (hl.2.2.2 k hk.1 hkl hk.2.2.1.1).2 hk.2.2.1.2.2
  exact Nat.le_antisymm (Nat.not_lt.mp (hlt hj hi)) (Nat.not_lt.mp (hlt hi hj))

end TinyRpc
