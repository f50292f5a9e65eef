/-
TinyRpc/DecodeBatch.lean

`decode` undoes `encode` on whole batches.

A frame that stands at the read index is what the scan finds first, whatever
bytes follow it and whatever its strings contain; with a spare byte behind the
write index the consume step takes out exactly that frame; and the parser, which
still works on the old copy, gives back the message.  `decodePass_of_frame` is
this for one pass, `decode_frames` carries it over a batch, and `decode_encode`
is the round trip.
-/
import TinyRpc.DecodeSafety

namespace TinyRpc

open Checked Bytes NetOrder TcpBuffer ProtobufProtocol

/-! ### Messages that survive the trip -/

/-- The limits of the decoder: the arrays its three strings go through, and their NUL. -/
structure WithinLimits (m : ProtobufProtocol) : Prop where
  msgId_ne_nil : m.msgId ≠ []
  msgId_length : m.msgId.length ≤ 99
  methodName_length : m.methodName.length ≤ 511
  errInfo_length : m.errInfo.length ≤ 511
  msgId_nul : 0 ∉ m.msgId
  methodName_nul : 0 ∉ m.methodName
  errInfo_nul : 0 ∉ m.errInfo

/-- The message the other side gets: the four strings and the error code of `m`, and the
length fields of its frame. -/
def delivered (m : ProtobufProtocol) : ProtobufProtocol := { m.stamped with checkSum := 0 }

variable {m : ProtobufProtocol} {f rest : List UInt8}

theorem WithinLimits.withMsgId (h : WithinLimits m) : m.withMsgId = m := if_neg h.msgId_ne_nil

/-- Within the limits, what the encoder produces is the frame. -/
theorem WithinLimits.encodes (h : WithinLimits m) (henc : Encodes m f) : f = m.frame := by
  have h₁ := h.msgId_length
  have h₂ := h.methodName_length
  have h₃ := h.errInfo_length
  obtain ⟨m', henc⟩ := henc
  have hlen := frameLength_of_encodeProtubuf henc (by rw [h.withMsgId]; omega)
    (by rw [h.withMsgId]; omega) (by rw [h.withMsgId]; omega)
  rw [encodeProtubuf_eq hlen, h.withMsgId] at henc
  exact (congrArg Prod.snd (Except.ok.inj henc)).symm

theorem frames_of_encodes {ms : List ProtobufProtocol} {frames : List (List UInt8)}
    (hms : ∀ m ∈ ms, WithinLimits m) (h : List.Forall₂ Encodes ms frames) :
    frames = ms.map frame := by
  induction h with
  | nil => rfl
  | cons henc _ ih =>
      rw [List.map_cons, ← (hms _ List.mem_cons_self).encodes henc,
        ← ih fun m hm => hms m (List.mem_cons_of_mem _ hm)]

/-! ### The frame at the read index -/

variable {b : TcpBuffer}

theorem drop_of_readable (h : b.readable = f ++ rest) :
    b.buffer.drop b.readIndex = f ++ (rest ++ b.buffer.drop b.writeIndex) := by
  rw [drop_readIndex, h, List.append_assoc]

theorem length_of_readable (h : b.readable = f ++ rest) :
    b.readIndex + f.length ≤ b.writeIndex := by
  have hlen := congrArg List.length h
  have hr := b.read_le_write
  rw [length_readable, canReadBytesNum, List.length_append] at hlen
  omega

/-- A frame is its first byte, its length, and the rest up to the end byte. -/
theorem frame_eq (m : ProtobufProtocol) :
    ∃ body, m.frame = [sStart] ++ (netBytes (Int32.ofNat m.frameLength) ++ (body ++ [sEnd])) ∧
      body.length + 6 = m.frameLength := by
  refine ⟨netBytes (Int32.ofNat m.msgId.length) ++ (m.msgId ++
    (netBytes (Int32.ofNat m.methodName.length) ++ (m.methodName ++
    (netBytes m.errCode ++
    (netBytes (Int32.ofNat m.errInfo.length) ++ (m.errInfo ++
    (m.pbData ++ netBytes 1))))))), ?_, ?_⟩
  · simp only [frame, layout, List.append_assoc]
  · simp only [frameLength, List.length_append, length_netBytes]
    omega

/-- The scan finds a frame that stands at the read index. -/
theorem firstFrame_of_readable (h : b.readable = m.frame ++ rest) :
    FirstFrame b b.readIndex ∧ pkLenAt b b.readIndex = Int32.ofNat m.frameLength ∧
      (pkLenAt b b.readIndex).toInt = m.frameLength := by
  have hle := length_of_readable h
  have hdrop := drop_of_readable h
  have hsize := b.size_lt
  have hw := b.write_le_size
  obtain ⟨body, hframe, hbody⟩ := frame_eq m
  rw [length_frame] at hle
  rw [hframe] at hdrop
  simp only [List.append_assoc] at hdrop
  -- behind the start byte stands the real length, and it leads to the end byte
  have hafter := drop_add_length hdrop
  have hpk : pkLenAt b b.readIndex = Int32.ofNat m.frameLength := netAt_of_drop hafter
  have hpkInt : (pkLenAt b b.readIndex).toInt = m.frameLength := by
    rw [hpk]
    exact Int32.toInt_ofNat_of_lt (by omega)
  have hlast : b.buffer.drop (b.readIndex + 1 + 4 + body.length)
      = sEnd :: (rest ++ b.buffer.drop b.writeIndex) :=
    drop_add_length (drop_add_length hafter)
  have hend : endAt b b.readIndex = ((b.readIndex + 1 + 4 + body.length : Nat) : Int) := by
    rw [endAt, hpkInt]
    omega
  refine ⟨⟨le_rfl, by omega, ⟨⟨getD_of_drop hdrop, by omega⟩, ?_, ?_, ?_⟩, ?_⟩, hpk, hpkInt⟩
  · rw [HeaderInRange, hend, size]
    omega
  · rw [hend]
    omega
  · rw [hend, Int.toNat_natCast]
    exact getD_of_drop hlast
  · exact fun k hk hlt => absurd hk (by omega)

/-! ### The fields of the frame -/

theorem lenField_of_drop {v s : List UInt8} {k : Nat} (index cap : Int)
    (hv : v.length < 2147483648) (hindex : index = k) (hk : k ≤ v.length)
    (h : v.drop k = netBytes (Int32.ofNat s.length) ++ (s ++ rest)) (hcap : s.length ≤ cap) :
    lenField v index cap
      = .ok (Int32.ofNat s.length, s, ((k + 4 + s.length : Nat) : Int)) := by
  subst hindex
  have hk₄ := add_length_le h hk
  have hafter := drop_add_length h
  rw [length_netBytes] at hk₄ hafter
  have hks := add_length_le hafter hk₄
  have hlen : (Int32.ofNat s.length).toInt = s.length := Int32.toInt_ofNat_of_lt (by omega)
  have hfit₁ : FitsInt ((k : Int) + 4) := by unfold FitsInt; omega
  have hfit₂ : FitsInt ((k : Int) + 4 + s.length) := by unfold FitsInt; omega
  have hcopy : copyAt v ((k : Int) + 4) s.length cap = .ok s :=
    copyAt_of_drop (k := k + 4) hk₄ hafter hcap
  rw [lenField, int32At_of_drop hk h, ok_bind, int_of_fits hfit₁, ok_bind, hlen, hcopy, ok_bind,
    int_of_fits hfit₂, ok_bind]
  rfl

theorem stringAt_of_drop {v s : List UInt8} {k : Nat} (hk : k ≤ v.length)
    (h : v.drop k = s ++ rest) : stringAt v k s.length = .ok s := by
  rw [stringAt, check_of_pos (Int.natCast_nonneg _), ok_bind]
  exact copyAt_of_drop hk h (Int.le_refl _)

/-- Where the fields of the frame of `m` stand in a vector that holds it at index `k`. -/
structure FieldsAt (v : List UInt8) (k : Nat) (m : ProtobufProtocol) : Prop where
  msgId : ∃ r, v.drop (k + 5) = netBytes (Int32.ofNat m.msgId.length) ++ (m.msgId ++ r)
  methodName : ∃ r, v.drop (k + 5 + 4 + m.msgId.length)
    = netBytes (Int32.ofNat m.methodName.length) ++ (m.methodName ++ r)
  errCode : ∃ r, v.drop (k + 5 + 4 + m.msgId.length + 4 + m.methodName.length)
    = netBytes m.errCode ++ r
  errInfo : ∃ r, v.drop (k + 5 + 4 + m.msgId.length + 4 + m.methodName.length + 4)
    = netBytes (Int32.ofNat m.errInfo.length) ++ (m.errInfo ++ r)
  pbData : ∃ r, v.drop (k + 5 + 4 + m.msgId.length + 4 + m.methodName.length + 4 + 4
    + m.errInfo.length) = m.pbData ++ r

/-- Each field stands behind the one before it. -/
theorem fieldsAt_of_drop {v : List UInt8} {k : Nat} (h : v.drop k = m.frame ++ rest) :
    FieldsAt v k m := by
  simp only [frame, layout, List.append_assoc] at h
  have hmsgId := drop_add_length (drop_add_length h)
  have hmethodName := drop_add_length (drop_add_length hmsgId)
  have herrCode := drop_add_length (drop_add_length hmethodName)
  have herrInfo := drop_add_length herrCode
  have hpbData := drop_add_length (drop_add_length herrInfo)
  simp only [length_netBytes, List.length_singleton]
    at hmsgId hmethodName herrCode herrInfo hpbData
  exact ⟨⟨_, hmsgId⟩, ⟨_, hmethodName⟩, ⟨_, herrCode⟩, ⟨_, herrInfo⟩, ⟨_, hpbData⟩⟩

/-- What the four other lengths leave of `pk_len` is the length of the payload. -/
theorem pbDataLen_eq (h : m.frameLength < 2147483648) :
    (Int32.ofNat m.frameLength).toInt - (Int32.ofNat m.methodName.length).toInt
      - (Int32.ofNat m.msgId.length).toInt - (Int32.ofNat m.errInfo.length).toInt - 2 - 24
      = m.pbData.length := by
  have hlen : m.frameLength = 26 + m.msgId.length + m.methodName.length + m.errInfo.length
      + m.pbData.length := rfl
  rw [Int32.toInt_ofNat_of_lt h, Int32.toInt_ofNat_of_lt (by omega),
    Int32.toInt_ofNat_of_lt (by omega), Int32.toInt_ofNat_of_lt (by omega)]
  omega

/-- The parser gives back the message of a frame that stands at the read index. -/
theorem parseFields_of_readable (hm : WithinLimits m) (h : b.readable = m.frame ++ rest) :
    parseFields b.buffer (frameAt b b.readIndex) = .ok (some (delivered m)) := by
  obtain ⟨hfirst, hpk, hpkInt⟩ := firstFrame_of_readable h
  have hle := length_of_readable h
  rw [length_frame] at hle
  have hv := b.size_lt
  have hw := b.write_le_size
  have hstop := frameAt_stop hfirst
  rw [endAt, hpkInt] at hstop
  have hlen : m.frameLength = 26 + m.msgId.length + m.methodName.length + m.errInfo.length
      + m.pbData.length := rfl
  obtain ⟨⟨_, hmsgId⟩, ⟨_, hmethodName⟩, ⟨_, herrCode⟩, ⟨_, herrInfo⟩, ⟨_, hpbData⟩⟩ :=
    fieldsAt_of_drop (drop_of_readable h)
  -- what each reader gives back
  have h₁ := lenField_of_drop (b.readIndex + 5) 99 hv rfl (by omega) hmsgId
    (by have := hm.msgId_length; omega)
  have h₂ := lenField_of_drop _ 511 hv rfl (by omega) hmethodName
    (by have := hm.methodName_length; omega)
  have h₃ := int32At_of_drop (by omega) herrCode
  have h₄ := lenField_of_drop
    (((b.readIndex + 5 + 4 + m.msgId.length + 4 + m.methodName.length : Nat) : Int) + 4)
    511 hv rfl (by omega) herrInfo (by have := hm.errInfo_length; omega)
  have h₅ := stringAt_of_drop (by omega) hpbData
  -- the `int`s in between
  have hfit₁ : FitsInt ((b.readIndex : Int) + 5) := by unfold FitsInt; omega
  have hfit₃ : FitsInt (((b.readIndex + 5 + 4 + m.msgId.length + 4
      + m.methodName.length : Nat) : Int) + 4) := by unfold FitsInt; omega
  have hfit₅ : FitsInt (m.pbData.length : Int) := by unfold FitsInt; omega
  have hstart : ((frameAt b b.readIndex).start : Int) = b.readIndex := rfl
  have hpkLen : (frameAt b b.readIndex).pkLen = Int32.ofNat m.frameLength := hpk
  -- no field starts at or behind the end byte, so the parser takes none of its exits
  rw [parseFields, hstart, int_of_fits hfit₁, ok_bind, if_neg (by omega), h₁, ok_bind]
  dsimp only
  rw [if_neg (by omega), h₂, ok_bind]
  dsimp only
  rw [if_neg (by omega), h₃, ok_bind, int_of_fits hfit₃, ok_bind, if_neg (by omega), h₄, ok_bind]
  dsimp only
  rw [hpkLen, pbDataLen_eq (by omega), int_of_fits hfit₅, ok_bind, h₅, ok_bind,
    cString_of_not_mem hm.msgId_nul, cString_of_not_mem hm.methodName_nul,
    cString_of_not_mem hm.errInfo_nul]
  rfl

/-! ### One pass, and the batch -/

/-- One pass takes the frame at the read index out of the readable bytes, and puts out
its message.  A spare byte behind the write index is what lets the read index move. -/
theorem decodePass_of_frame (hm : WithinLimits m) (h : b.readable = m.frame ++ rest)
    (hspare : b.writeIndex < b.size) :
    ∃ b', decodePass b = .ok (some (b', [delivered m])) ∧ b'.readable = rest ∧
      b'.writeIndex < b'.size := by
  obtain ⟨hfirst, -, hlen⟩ := firstFrame_of_readable h
  have hparse := parseFields_of_readable hm h
  have hend := hfirst.2.2.1.2.2.1
  -- the frame ends before the write index, and the spare byte stands behind that
  have hplace : FrameInPlace b b.readIndex := .inl ⟨rfl, by omega⟩
  obtain ⟨b', hcon, hread⟩ := (consumesFrame_iff hfirst).mpr hplace
  have hpass : decodePass b = .ok (some (b', [delivered m])) :=
    decodePass_eq_some.mpr ⟨b.readIndex, some (delivered m), hfirst, hcon, hparse, rfl⟩
  have hframe := decodePass_frame hpass
  refine ⟨b', hpass, ?_, by omega⟩
  have hpos : 0 < (pkLenAt b b.readIndex).toInt := by
    have h26 : 26 ≤ m.frameLength := by unfold frameLength; omega
    omega
  rw [hread, frameAt_stop_add_one hfirst hpos, hlen, Int.toNat_natCast, bytesFrom_add,
    ← readable, h, ← length_frame, List.drop_left]

/-- The passes over the frames of `ms` put out `ms`, and come to a buffer whose readable
bytes are those behind the frames. -/
theorem decode_frames {ms : List ProtobufProtocol} (hms : ∀ m ∈ ms, WithinLimits m)
    (h : b.readable = (ms.map frame).flatten ++ rest) (hspare : b.writeIndex < b.size) :
    ∃ t, Loop.Visits decodePass b t ∧ t.readable = rest ∧ t.writeIndex < t.size ∧
      ∀ t' out, Loop.Returns decodePass t t' out →
        Loop.Returns decodePass b t' (ms.map delivered ++ out) := by
  induction ms generalizing b with
  | nil => exact ⟨b, .refl b, h, hspare, fun t' out hret => hret⟩
  | cons m ms ih =>
      rw [List.map_cons, List.flatten_cons, List.append_assoc] at h
      obtain ⟨b₁, hpass, hread, hspare₁⟩ :=
        decodePass_of_frame (hms m List.mem_cons_self) h hspare
      obtain ⟨t, hvisits, htread, htspare, hreturns⟩ :=
        ih (fun m' hm' => hms m' (List.mem_cons_of_mem m hm')) hread hspare₁
      refine ⟨t, .head hpass hvisits, htread, htspare, fun t' out hret => ?_⟩
      rw [List.map_cons, List.cons_append]
      exact .again hpass (hreturns t' out hret)

/-- Where nothing is readable, the scan has nothing to look at. -/
theorem quiet_of_readable_nil (h : b.readable = []) : Quiet b := by
  have hlen := congrArg List.length h
  rw [length_readable, canReadBytesNum, List.length_nil] at hlen
  intro i hr hw
  omega

/-- **Decode undoes encode.**  From a buffer whose readable bytes are the frames `encode`
produces for `ms`, with a spare byte behind them, `decode` returns `ms` and leaves no
readable byte. -/
theorem decode_encode {ms : List ProtobufProtocol} {frames : List (List UInt8)}
    (hms : ∀ m ∈ ms, WithinLimits m) (henc : List.Forall₂ Encodes ms frames)
    (b : TcpBuffer) (hread : b.readable = frames.flatten) (hspare : b.writeIndex < b.size) :
    ∃ b', Loop.Returns decodePass b b' (ms.map delivered) ∧ b'.readable = [] := by
  have hframes : b.readable = (ms.map frame).flatten ++ [] := by
    rw [List.append_nil, hread, frames_of_encodes hms henc]
  obtain ⟨t, -, htread, -, hreturns⟩ := decode_frames hms hframes hspare
  have hdone : Loop.Returns decodePass t t [] :=
    .done (decodePass_eq_none.mpr (quiet_of_readable_nil htread))
  refine ⟨t, ?_, htread⟩
  have hall := hreturns t [] hdone
  rwa [List.append_nil] at hall

/-- Two requests behind five stale bytes, with a spare byte. -/
def twoRequestsBuffer : TcpBuffer where
  buffer := [2, 3, 2, 3, 2] ++ shortRequest.frame ++ shortRequest.frame ++ [3]
  readIndex := 5
  writeIndex := 59
  read_le_write := by decide
  write_le_size := by decide
  size_lt := by decide

theorem withinLimits_shortRequest : WithinLimits shortRequest := by
  constructor <;> decide

theorem encodes_shortRequest : Encodes shortRequest shortRequest.frame :=
  ⟨shortRequest.stamped, encodeProtubuf_eq (by decide)⟩

theorem decode_encode_twoRequests :
    ∃ b', Loop.Returns decodePass twoRequestsBuffer b'
      [delivered shortRequest, delivered shortRequest] ∧ b'.readable = [] :=
  @decode_encode [shortRequest, shortRequest] [shortRequest.frame, shortRequest.frame]
    (by simp [withinLimits_shortRequest])
    (.cons encodes_shortRequest (.cons encodes_shortRequest .nil))
    twoRequestsBuffer (by decide) (by decide)

end TinyRpc
