/-
TinyRpc/EncodeBlock.lean

The block that `encode_protubuf` allocates, and what it writes into it.

`pk_len` is a sum of `size_t`s in an `int`.  The block has as many bytes as that `int`
says, as a `size_t`; the cursor moves on by the lengths of the strings.  The two are the
same, and `pk_len` is the length of the frame, exactly for the messages whose frame is
shorter than `2 ^ 31` bytes: `block_exact_iff`.  For longer ones `malloc` is asked for
more than there is, or, past `2 ^ 32`, for a block that the frame runs out of:
`safe_encodeProtubuf_iff`.
-/
import TinyRpc.Protocol

namespace TinyRpc

open Checked Bytes ProtobufProtocol

/-- `pk_len` of `encode_protubuf`. -/
def encodedPkLen (m : ProtobufProtocol) : Int32 := Int32.ofNat m.withMsgId.frameLength

/-- How many bytes `malloc(len)` is asked for: an `int` as a `size_t`. -/
def mallocSize (len : Int32) : Nat := (len.toInt % 18446744073709551616).toNat

/-- What the cursor of `encode_protubuf` leaves behind it, end byte included. -/
def writtenBlock (m : ProtobufProtocol) : Except Fault (List UInt8) := do
  let msgId ← copyString m.withMsgId.msgId
  let methodName ← copyString m.withMsgId.methodName
  let errInfo ← copyString m.withMsgId.errInfo
  .ok (m.withMsgId.layout msgId methodName errInfo)

/-- `pk_len` is the length of the frame. -/
def PkLenExact (m : ProtobufProtocol) : Prop :=
  (encodedPkLen m).toInt = m.withMsgId.frameLength

/-- The block has exactly as many bytes as the cursor covers. -/
def BlockExact (m : ProtobufProtocol) : Prop :=
  ∃ buf, writtenBlock m = .ok buf ∧ buf.length = mallocSize (encodedPkLen m)

/-- No string is longer than an `int` can say. -/
structure StringsFit (m : ProtobufProtocol) : Prop where
  msgId : m.msgId.length < 2147483648
  methodName : m.methodName.length < 2147483648
  errInfo : m.errInfo.length < 2147483648
  pbData : m.pbData.length ≤ 2147483647

variable {m : ProtobufProtocol}

/-- The encoder makes the block, writes it, and ends if the cursor has stayed inside. -/
theorem encodeProtubuf_eq_writtenBlock (m : ProtobufProtocol) :
    encodeProtubuf m = (do
      let _ ← check (0 ≤ (encodedPkLen m).toInt) .badLength ()
      let buf ← writtenBlock m
      let _ ← check (buf.length ≤ (encodedPkLen m).toInt) .outOfRange ()
      .ok (m.withMsgId.stamped, buf)) := by
  simp only [writtenBlock, bind_assoc]
  rfl

theorem StringsFit.withMsgId (h : StringsFit m) : StringsFit m.withMsgId := by
  unfold ProtobufProtocol.withMsgId
  split
  · have hid : defaultMsgId.length < 2147483648 := by decide
    exact ⟨hid, h.methodName, h.errInfo, h.pbData⟩
  · exact h

/-- Where no string is too long, every one of them is written whole. -/
theorem StringsFit.writtenBlock_eq (h : StringsFit m) :
    writtenBlock m = .ok m.withMsgId.frame := by
  have hm := h.withMsgId
  rw [writtenBlock, copyString_eq hm.msgId, ok_bind, copyString_eq hm.methodName, ok_bind,
    copyString_eq hm.errInfo, ok_bind]
  rfl

/-- The frame is shorter than `2 ^ 34` bytes, so no `size_t` overflows. -/
theorem StringsFit.frameLength_lt (h : StringsFit m) :
    m.withMsgId.frameLength < 17179869184 := by
  obtain ⟨hid, hname, hinfo, hdata⟩ := h.withMsgId
  unfold frameLength
  omega

theorem encodedPkLen_toInt :
    (encodedPkLen m).toInt = (m.withMsgId.frameLength : Int).bmod 4294967296 := Int32.toInt_ofNat

/-- `pk_len` wraps around at `2 ^ 31`. -/
theorem pkLenExact_iff : PkLenExact m ↔ m.withMsgId.frameLength < 2147483648 := by
  constructor
  · intro h
    have hlt := (encodedPkLen m).toInt_lt
    rw [h] at hlt
    exact Int.ofNat_lt.mp hlt
  · intro h
    exact Int32.toInt_ofNat_of_lt h

/-- A negative `pk_len` asks for far more than the frame has, and one that is not negative is
the length of the frame, or less by multiples of `2 ^ 32`. -/
theorem StringsFit.blockExact_iff (h : StringsFit m) :
    BlockExact m ↔ m.withMsgId.frameLength < 2147483648 := by
  have hlt := h.frameLength_lt
  have hpk := @encodedPkLen_toInt m
  unfold BlockExact mallocSize
  rw [h.writtenBlock_eq]
  simp only [Except.ok.injEq, exists_eq_left', length_frame, hpk]
  rw [Int.bmod_def]
  omega

/-- **The block is as long as what is written into it**, and `pk_len` is that length, if and
only if the frame is shorter than `2 ^ 31` bytes. -/
theorem block_exact_iff (h : StringsFit m) :
    PkLenExact m ∧ BlockExact m ↔ m.withMsgId.frameLength < 2147483648 := by
  rw [pkLenExact_iff, h.blockExact_iff, and_self_iff]

/-- The encoder stays within its block for exactly these messages. -/
theorem StringsFit.safe_encodeProtubuf_iff (h : StringsFit m) :
    Safe (encodeProtubuf m) ↔ m.withMsgId.frameLength < 2147483648 := by
  constructor
  · rintro ⟨⟨m', buf⟩, henc⟩
    exact frameLength_of_encodeProtubuf henc h.withMsgId.msgId h.withMsgId.methodName
      h.withMsgId.errInfo
  · intro hlt
    exact ⟨_, encodeProtubuf_eq hlt⟩

theorem stringsFit_shortRequest : StringsFit shortRequest := by
  constructor <;> decide

theorem block_exact_shortRequest : PkLenExact shortRequest ∧ BlockExact shortRequest :=
  (block_exact_iff stringsFit_shortRequest).mpr (by decide)

/-- A request with a payload of `n` bytes. -/
def payloadRequest (n : Nat) : ProtobufProtocol :=
  { shortRequest with pbData := List.replicate n 0 }

theorem frameLength_payloadRequest (n : Nat) :
    (payloadRequest n).withMsgId.frameLength = 27 + n := by
  have hid : (payloadRequest n).withMsgId = payloadRequest n :=
    if_neg (List.cons_ne_nil _ _)
  rw [hid, frameLength, payloadRequest, List.length_replicate]
  rfl

/-- With the longest payload that protobuf serialises to, `pk_len` is negative. -/
theorem block_not_exact_longest :
    ¬ ∀ m, StringsFit m → PkLenExact m ∧ BlockExact m := by
  intro h
  have hfit : StringsFit (payloadRequest 2147483647) := by
    refine ⟨by decide, by decide, by decide, ?_⟩
    rw [payloadRequest, List.length_replicate]
  have hlt := pkLenExact_iff.mp (h _ hfit).1
  rw [frameLength_payloadRequest] at hlt
  omega

end TinyRpc
