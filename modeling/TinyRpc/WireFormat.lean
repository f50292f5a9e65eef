/-
TinyRpc/WireFormat.lean

The wire format is unambiguous: a stream that goes on with a frame tells the message,
and where the frame ends.

Four of the five variable parts of a frame have their lengths in front of them.  The
last one, `pb_data`, has none: its length is what the others leave of `pk_len`.  No
length is bounded but by the `int` that the whole frame must fit in, and the start and
end bytes play no part.
-/
import TinyRpc.Protocol

namespace TinyRpc

open NetOrder SelfDelimiting ProtobufProtocol

/-- What a frame says of its message. -/
structure SameContents (m m' : ProtobufProtocol) : Prop where
  msgId : m.msgId = m'.msgId
  methodName : m.methodName = m'.methodName
  errCode : m.errCode = m'.errCode
  errInfo : m.errInfo = m'.errInfo
  pbData : m.pbData = m'.pbData

/-- Both frames fit in an `int`. -/
def BothFit (m m' : ProtobufProtocol) : Prop :=
  m.frameLength < 2147483648 ∧ m'.frameLength < 2147483648

/-- The frame, with each string and its length taken together. -/
theorem frame_eq_pieces (m : ProtobufProtocol) :
    m.frame = [sStart] ++ (netBytes (Int32.ofNat m.frameLength) ++ (netString m.msgId ++
      (netString m.methodName ++ (netBytes m.errCode ++ (netString m.errInfo ++
      (m.pbData ++ (netBytes 1 ++ [sEnd]))))))) := by
  simp only [frame, layout, netString, List.append_assoc]

/-- No string of a frame that fits in an `int` is too long for one. -/
theorem BothFit.length_lt {m m' : ProtobufProtocol} (h : BothFit m m') :
    (m.msgId.length < 2147483648 ∧ m'.msgId.length < 2147483648) ∧
      (m.methodName.length < 2147483648 ∧ m'.methodName.length < 2147483648) ∧
      (m.errInfo.length < 2147483648 ∧ m'.errInfo.length < 2147483648) := by
  obtain ⟨hm, hm'⟩ := h
  unfold frameLength at hm hm'
  omega

/-- **A frame tells what it says of its message**, piece by piece. -/
theorem tells_frame :
    Tells BothFit frame fun m =>
      ((), m.frameLength, m.msgId, m.methodName, m.errCode, m.errInfo, m.pbData, ()) := by
  rw [funext frame_eq_pieces]
  apply Tells.append (Tells.const [sStart])
  apply Tells.append (tells_netLength frameLength fun _ _ ⟨hfit, _⟩ => hfit)
  apply Tells.append (tells_netString msgId fun _ _ ⟨⟨hfit, _⟩, _⟩ => hfit.length_lt.1)
  apply Tells.append (tells_netString methodName fun _ _ ⟨⟨⟨hfit, _⟩, _⟩, _⟩ =>
    hfit.length_lt.2.1)
  apply Tells.append (tells_netBytes errCode)
  apply Tells.append (tells_netString errInfo fun _ _ ⟨⟨⟨⟨⟨hfit, _⟩, _⟩, _⟩, _⟩, _⟩ =>
    hfit.length_lt.2.2)
  -- what the other lengths leave of `pk_len` is the length of `pb_data`
  apply Tells.append (Tells.bytes fun m m' h => ?_) (Tells.const (netBytes 1 ++ [sEnd]))
  obtain ⟨⟨⟨⟨⟨⟨-, -⟩, hlen⟩, hid⟩, hname⟩, -⟩, hinfo⟩ := h
  unfold frameLength at hlen
  rw [hid, hname, hinfo] at hlen
  omega

variable {m₁ m₂ m₁' m₂' : ProtobufProtocol} {f₁ f₂ t₁ t₂ : List UInt8}

/-- **The wire format is unambiguous**: two streams that go on with the frames of two messages
are different, or the messages have the same contents and the streams go on alike. -/
theorem frames_unambiguous (hid₁ : m₁.msgId ≠ []) (hid₂ : m₂.msgId ≠ [])
    (hfit₁ : m₁.frameLength < 2147483648) (hfit₂ : m₂.frameLength < 2147483648)
    (henc₁ : encodeProtubuf m₁ = .ok (m₁', f₁)) (henc₂ : encodeProtubuf m₂ = .ok (m₂', f₂))
    (h : f₁ ++ t₁ = f₂ ++ t₂) : SameContents m₁ m₂ ∧ t₁ = t₂ := by
  have hsent : ∀ {m m' : ProtobufProtocol} {f : List UInt8}, m.msgId ≠ [] →
      m.frameLength < 2147483648 → encodeProtubuf m = .ok (m', f) → f = m.frame := by
    intro m m' f hid hfit henc
    have hm : m.withMsgId = m := if_neg hid
    rw [← hm] at hfit
    rw [encodeProtubuf_eq hfit, hm] at henc
    exact (congrArg Prod.snd (Except.ok.inj henc)).symm
  obtain rfl := hsent hid₁ hfit₁ henc₁
  obtain rfl := hsent hid₂ hfit₂ henc₂
  obtain ⟨htold, ht⟩ := tells_frame m₁ m₂ ⟨hfit₁, hfit₂⟩ t₁ t₂ h
  simp only [Prod.mk.injEq] at htold
  obtain ⟨-, -, hid, hname, hcode, hinfo, hdata, -⟩ := htold
  exact ⟨⟨hid, hname, hcode, hinfo, hdata⟩, ht⟩

/-- A message with all five parts, and marker bytes among its data. -/
def fullMessage : ProtobufProtocol where
  msgId := [49, 50]
  methodName := [97, 46, 98]
  errCode := 7
  errInfo := [110, 111]
  pbData := [sStart, 52, sEnd]

/-- One frame, of two messages that differ in what the frame does not say. -/
theorem frames_unambiguous_fullMessage :
    SameContents fullMessage { fullMessage with checkSum := 7, parseSuccess := true } ∧
      [sStart, sEnd] = [sStart, sEnd] :=
  frames_unambiguous (by decide) (by decide) (by decide) (by decide)
    (encodeProtubuf_eq (by decide)) (encodeProtubuf_eq (by decide)) rfl

end TinyRpc
