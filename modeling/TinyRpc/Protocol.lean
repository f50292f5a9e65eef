/-
TinyRpc/Protocol.lean

The message of the wire protocol and its encoder:

    start byte - pk_len - msg_id_len - msg_id - method_name_len - method_name -
    err_code - err_info_len - err_info - pb_data - check_sum - end byte

with all integers four bytes in network order and `pk_len` counting the whole
frame, start and end byte included.

`encodeProtubuf` follows the source statement by statement: the block it
allocates has `pk_len` bytes, a 32-bit value, and every copy goes through a
cursor that must stay inside the block.  `frame` is the layout as a plain byte
string; `encodeProtubuf_eq` says that the two agree on every message whose frame
is shorter than `2 ^ 31` bytes.
-/
import TinyRpc.TcpBuffer
import Mathlib.Algebra.GroupWithZero.Nat

namespace TinyRpc

open Checked Bytes NetOrder

/-- `s_start`. -/
def sStart : UInt8 := 0x02

/-- `s_end`. -/
def sEnd : UInt8 := 0x03

/-- `ProtobufProtocol`, with `m_msg_id` of its base class. -/
structure ProtobufProtocol where
  msgId : List UInt8 := []
  pkLen : Int32 := 0
  msgIdLen : Int32 := 0
  methodNameLen : Int32 := 0
  methodName : List UInt8 := []
  errInfoLen : Int32 := 0
  errCode : Int32 := 0
  errInfo : List UInt8 := []
  pbData : List UInt8 := []
  checkSum : Int32 := 0
  parseSuccess : Bool := false
  deriving DecidableEq

namespace ProtobufProtocol

/-- The `msg_id` given to a message that has none: `"123456789"`. -/
def defaultMsgId : List UInt8 := [49, 50, 51, 52, 53, 54, 55, 56, 57]

/-- The message with the `msg_id` it is sent under. -/
def withMsgId (m : ProtobufProtocol) : ProtobufProtocol :=
  if m.msgId = [] then { m with msgId := defaultMsgId } else m

/-- `2 + 24` and the lengths of the four strings. -/
def frameLength (m : ProtobufProtocol) : Nat :=
  2 + 24 + m.msgId.length + m.methodName.length + m.errInfo.length + m.pbData.length

/-- The message with the length fields the encoder leaves in it. -/
def stamped (m : ProtobufProtocol) : ProtobufProtocol :=
  { m with
    pkLen := Int32.ofNat m.frameLength
    msgIdLen := Int32.ofNat m.msgId.length
    methodNameLen := Int32.ofNat m.methodName.length
    errInfoLen := Int32.ofNat m.errInfo.length
    parseSuccess := true }

/-- The writes of the encoder in order, with the copies `msgId`, `methodName` and
`errInfo` it made of the three strings. -/
def layout (m : ProtobufProtocol) (msgId methodName errInfo : List UInt8) : List UInt8 :=
  [sStart] ++ (netBytes (Int32.ofNat m.frameLength) ++
    (netBytes (Int32.ofNat m.msgId.length) ++ (msgId ++
    (netBytes (Int32.ofNat m.methodName.length) ++ (methodName ++
    (netBytes m.errCode ++
    (netBytes (Int32.ofNat m.errInfo.length) ++ (errInfo ++
    (m.pbData ++ (netBytes 1 ++ [sEnd]))))))))))

/-- The frame of a message as a plain byte string. -/
def frame (m : ProtobufProtocol) : List UInt8 := m.layout m.msgId m.methodName m.errInfo

theorem length_frame (m : ProtobufProtocol) : m.frame.length = m.frameLength := by
  simp only [frame, layout, frameLength, List.length_append, List.length_singleton, length_netBytes]
  omega

theorem frame_ne_nil (m : ProtobufProtocol) : m.frame ≠ [] := List.cons_ne_nil _ _

end ProtobufProtocol

open ProtobufProtocol

/-! ### The encoder -/

/-- `memcpy(tmp, &s[0], len)` with the `int` length of `s`. -/
def copyString (s : List UInt8) : Except Fault (List UInt8) :=
  check (0 ≤ (Int32.ofNat s.length).toInt) .badCopy
    (s.take (Int32.ofNat s.length).toInt.toNat)

/-- `encode_protubuf`: the message with its length fields set, and the block of
`pk_len` bytes. -/
def encodeProtubuf (message : ProtobufProtocol) :
    Except Fault (ProtobufProtocol × List UInt8) := do
  let m := message.withMsgId
  let pkLen := Int32.ofNat m.frameLength
  -- `malloc` takes a `size_t`: a negative `pk_len` is more than it can give
  let _ ← check (0 ≤ pkLen.toInt) .badLength ()
  let msgId ← copyString m.msgId
  let methodName ← copyString m.methodName
  let errInfo ← copyString m.errInfo
  let buf := m.layout msgId methodName errInfo
  -- the cursor must not run past the block
  let _ ← check (buf.length ≤ pkLen.toInt) .outOfRange ()
  .ok (m.stamped, buf)

/-- `if (len != 0 && buf != nullptr) out_buffer->write_to_buffer(buf, len)`. -/
def putFrame (len : Int32) (buf : List UInt8) (outBuffer : TcpBuffer) :
    Except Fault TcpBuffer :=
  if len ≠ 0 then outBuffer.writeToBuffer buf else .ok outBuffer

/-- `encode`: write the frames of `messages` to the buffer, one after the other. -/
def encode : List ProtobufProtocol → TcpBuffer →
    Except Fault (List ProtobufProtocol × TcpBuffer)
  | [], outBuffer => .ok ([], outBuffer)
  | message :: messages, outBuffer => do
      let (m, buf) ← encodeProtubuf message
      let outBuffer ← putFrame m.pkLen buf outBuffer
      let (ms, outBuffer) ← encode messages outBuffer
      .ok (m :: ms, outBuffer)

/-! ### What the encoder produces -/

theorem toInt_ofNat_length {s : List UInt8} (h : s.length < 2147483648) :
    (Int32.ofNat s.length).toInt = s.length := Int32.toInt_ofNat_of_lt h

theorem copyString_eq {s : List UInt8} (h : s.length < 2147483648) :
    copyString s = .ok s := by
  rw [copyString, toInt_ofNat_length h, check_of_pos (Int.natCast_nonneg _), Int.toNat_natCast,
    List.take_length]

/-- **The encoder writes the frame**, on every message whose frame is shorter than
`2 ^ 31` bytes. -/
theorem encodeProtubuf_eq {m : ProtobufProtocol}
    (h : m.withMsgId.frameLength < 2147483648) :
    encodeProtubuf m = .ok (m.withMsgId.stamped, m.withMsgId.frame) := by
  have hpk : (Int32.ofNat m.withMsgId.frameLength).toInt = m.withMsgId.frameLength :=
    Int32.toInt_ofNat_of_lt h
  have hle := h
  unfold frameLength at hle
  rw [encodeProtubuf, hpk, check_of_pos (Int.natCast_nonneg _), ok_bind,
    copyString_eq (by omega), ok_bind, copyString_eq (by omega), ok_bind,
    copyString_eq (by omega), ok_bind]
  refine check_bind_eq_ok.mpr ⟨?_, rfl⟩
  exact Int.ofNat_le.mpr (length_frame m.withMsgId).le

/-- Where the encoder ends with the fixed-size strings short, the frame fits in an `int`. -/
theorem frameLength_of_encodeProtubuf {m m' : ProtobufProtocol} {buf : List UInt8}
    (h : encodeProtubuf m = .ok (m', buf))
    (h₁ : m.withMsgId.msgId.length < 2147483648)
    (h₂ : m.withMsgId.methodName.length < 2147483648)
    (h₃ : m.withMsgId.errInfo.length < 2147483648) :
    m.withMsgId.frameLength < 2147483648 := by
  rw [encodeProtubuf, copyString_eq h₁, copyString_eq h₂, copyString_eq h₃] at h
  simp only [check_bind_eq_ok, ok_bind] at h
  obtain ⟨-, hlen, -⟩ := h
  have hlt := (Int32.ofNat m.withMsgId.frameLength).toInt_lt
  rw [← frame, length_frame] at hlen
  omega

/-- `f` is the frame the encoder produces for `m`. -/
def Encodes (m : ProtobufProtocol) (f : List UInt8) : Prop :=
  ∃ m', encodeProtubuf m = .ok (m', f)

/-- A block the encoder ends with is not empty, and neither is the length it reports. -/
theorem pkLen_ne_zero {m m' : ProtobufProtocol} {f : List UInt8}
    (h : encodeProtubuf m = .ok (m', f)) : m'.pkLen ≠ 0 := by
  simp only [encodeProtubuf, copyString, check_bind_eq_ok, Except.ok.injEq, Prod.mk.injEq] at h
  obtain ⟨-, -, -, -, hlen, rfl, -⟩ := h
  intro hzero
  have hpk : Int32.ofNat m.withMsgId.frameLength = 0 := hzero
  rw [hpk, layout, List.singleton_append, List.length_cons] at hlen
  have h0 : (0 : Int32).toInt = 0 := rfl
  omega

/-- **`encode` appends the frames of its messages** to the readable bytes, in order. -/
theorem encode_readable {ms ms' : List ProtobufProtocol} {out out' : TcpBuffer}
    (h : encode ms out = .ok (ms', out')) :
    ∃ frames, List.Forall₂ Encodes ms frames ∧
      out'.readable = out.readable ++ frames.flatten := by
  induction ms generalizing ms' out with
  | nil =>
      simp only [encode, Except.ok.injEq, Prod.mk.injEq] at h
      obtain ⟨-, rfl⟩ := h
      exact ⟨[], .nil, by simp⟩
  | cons m ms ih =>
      rw [encode] at h
      obtain ⟨⟨m₁, buf⟩, henc, h⟩ := bind_eq_ok.mp h
      obtain ⟨out₁, hwrite, h⟩ := bind_eq_ok.mp h
      rw [putFrame, if_pos (pkLen_ne_zero henc)] at hwrite
      obtain ⟨⟨ms₂, out₂⟩, hrest, h⟩ := bind_eq_ok.mp h
      simp only [Except.ok.injEq, Prod.mk.injEq] at h
      obtain ⟨-, rfl⟩ := h
      obtain ⟨frames, hall, hread⟩ := ih hrest
      refine ⟨buf :: frames, .cons ⟨m₁, henc⟩ hall, ?_⟩
      rw [hread, TcpBuffer.readable_writeToBuffer hwrite, List.flatten_cons, List.append_assoc]

/-- `encode` works on each of its messages. -/
theorem length_of_encode {ms ms' : List ProtobufProtocol} {out out' : TcpBuffer}
    (h : encode ms out = .ok (ms', out')) : ms'.length = ms.length := by
  induction ms generalizing ms' out out' with
  | nil =>
      simp only [encode, Except.ok.injEq, Prod.mk.injEq] at h
      rw [← h.1]
  | cons m ms ih =>
      rw [encode] at h
      obtain ⟨⟨m₁, buf⟩, -, h⟩ := bind_eq_ok.mp h
      obtain ⟨out₁, -, h⟩ := bind_eq_ok.mp h
      obtain ⟨⟨ms₂, out₂⟩, hrest, h⟩ := bind_eq_ok.mp h
      simp only [Except.ok.injEq, Prod.mk.injEq] at h
      rw [← h.1, List.length_cons, List.length_cons, ih hrest]

/-- `encode` succeeds as long as the frames and what is in front of them stay below `2^30`
bytes in all. -/
theorem encode_ok {ms : List ProtobufProtocol} {out : TcpBuffer}
    (h : out.writeIndex + (ms.map fun m => m.withMsgId.frameLength).sum < 1073741824) :
    ∃ ms' out', encode ms out = .ok (ms', out') := by
  induction ms generalizing out with
  | nil => exact ⟨[], out, rfl⟩
  | cons m ms ih =>
      rw [List.map_cons, List.sum_cons] at h
      have henc : encodeProtubuf m = .ok (m.withMsgId.stamped, m.withMsgId.frame) :=
        encodeProtubuf_eq (by omega)
      have hlen := length_frame m.withMsgId
      have hlt : out.writeIndex + m.withMsgId.frame.length < 1073741824 := by omega
      obtain ⟨out₁, hwrite, hle⟩ := TcpBuffer.writeToBuffer_ok hlt
      obtain ⟨ms₂, out₂, hrest⟩ := @ih out₁ (by omega)
      refine ⟨m.withMsgId.stamped :: ms₂, out₂, ?_⟩
      rw [encode, henc, ok_bind]
      dsimp only
      rw [putFrame, if_pos (pkLen_ne_zero henc), hwrite, ok_bind, hrest, ok_bind]

/-- A message with a `msg_id` of one byte and nothing else. -/
def shortRequest : ProtobufProtocol := { msgId := [49] }

end TinyRpc
