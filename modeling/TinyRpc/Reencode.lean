/-
TinyRpc/Reencode.lean

`encode_protubuf` after `decode`.

A frame that `decode` makes a message of is laid out as the encoder lays one out: the
lengths in it are not negative and lie within `pk_len`, and what they leave is
`pb_data`, up to the four bytes in front of the end byte (`frameBytes_eq`).  So the message
is encoded to the same bytes again, but for the check sum, which the decoder does not
look at.

There is one exception by design: a frame may come without a `msg_id`, and the encoder
sends no such frame.
-/
import TinyRpc.DecodeBatch
import TinyRpc.WireFormat

namespace TinyRpc

open Checked Bytes NetOrder TcpBuffer ProtobufProtocol

/-! ### What a frame states -/

/-- The bytes of the string whose length field is at `&v[index]`. -/
def fieldBytes (v : List UInt8) (index : Int) : List UInt8 :=
  (v.drop (index + 4).toNat).take (fieldLen v index).toNat

/-- The places of the fields of the frame at index `i`. -/
structure FieldPlaces where
  msgIdLen : Int
  methodNameLen : Int
  errCode : Int
  errInfoLen : Int
  pbData : Int

def fieldPlaces (v : List UInt8) (i : Nat) : FieldPlaces where
  msgIdLen := i + 5
  methodNameLen := fieldEnd v (i + 5)
  errCode := fieldEnd v (fieldEnd v (i + 5))
  errInfoLen := fieldEnd v (fieldEnd v (i + 5)) + 4
  pbData := fieldEnd v (fieldEnd v (fieldEnd v (i + 5)) + 4)

/-- How many bytes the other fields of the frame at index `i` leave for `pb_data`. -/
def pbDataLen (b : TcpBuffer) (i : Nat) : Int :=
  let p := fieldPlaces b.buffer i
  (pkLenAt b i).toInt - fieldLen b.buffer p.methodNameLen - fieldLen b.buffer p.msgIdLen
    - fieldLen b.buffer p.errInfoLen - 2 - 24

/-- The message of the frame at index `i`, with all the bytes that its lengths count. -/
def stated (b : TcpBuffer) (i : Nat) : ProtobufProtocol :=
  let p := fieldPlaces b.buffer i
  { msgId := fieldBytes b.buffer p.msgIdLen
    methodName := fieldBytes b.buffer p.methodNameLen
    errCode := netAt b.buffer p.errCode.toNat
    errInfo := fieldBytes b.buffer p.errInfoLen
    pbData := (b.buffer.drop p.pbData.toNat).take (pbDataLen b i).toNat }

/-- The bytes of the frame at index `i`. -/
def frameBytes (b : TcpBuffer) (i : Nat) : List UInt8 :=
  (b.buffer.drop i).take (pkLenAt b i).toInt.toNat

/-- The frame up to its check sum. -/
def frameFields (m : ProtobufProtocol) : List UInt8 :=
  [sStart] ++ (netBytes (Int32.ofNat m.frameLength) ++ (netString m.msgId ++
    (netString m.methodName ++ (netBytes m.errCode ++ (netString m.errInfo ++ m.pbData)))))

/-- Two frames that differ in their check sums at most. -/
def SameButCheckSum (f f' : List UInt8) : Prop :=
  ∃ fields check check', check.length = 4 ∧ check'.length = 4 ∧
    f = fields ++ (check ++ [sEnd]) ∧ f' = fields ++ (check' ++ [sEnd])

/-- The encoder turns the message into the frame `f` again, check sum excepted. -/
def Reencodes (m : ProtobufProtocol) (f : List UInt8) : Prop :=
  ∃ m' f', encodeProtubuf m = .ok (m', f') ∧ SameButCheckSum f f'

/-- No string that the decoder passes through an array holds a NUL. -/
structure NulFree (m : ProtobufProtocol) : Prop where
  msgId : 0 ∉ m.msgId
  methodName : 0 ∉ m.methodName
  errInfo : 0 ∉ m.errInfo

/-- The strings are as long as the frame says. -/
structure FullLengths (m : ProtobufProtocol) : Prop where
  msgId : (m.msgId.length : Int) = m.msgIdLen.toInt
  methodName : (m.methodName.length : Int) = m.methodNameLen.toInt
  errInfo : (m.errInfo.length : Int) = m.errInfoLen.toInt

theorem frame_eq_fields (m : ProtobufProtocol) :
    m.frame = frameFields m ++ (netBytes 1 ++ [sEnd]) := by
  rw [frame_eq_pieces, frameFields]
  simp only [List.append_assoc]

theorem length_frameFields (m : ProtobufProtocol) : (frameFields m).length + 5 = m.frameLength := by
  have hlen := congrArg List.length (frame_eq_fields m)
  rw [length_frame, List.length_append, List.length_append, length_netBytes,
    List.length_singleton] at hlen
  exact hlen.symm

theorem SameButCheckSum.length_eq {f f' : List UInt8} (h : SameButCheckSum f f') :
    f.length = f'.length := by
  obtain ⟨fields, check, check', hcheck, hcheck', rfl, rfl⟩ := h
  rw [List.length_append, List.length_append, List.length_append, List.length_append, hcheck,
    hcheck']

/-! ### One length-prefixed string -/

section Field

variable {v : List UInt8} {index cap : Int}

theorem FieldInRange.length_fieldBytes (h : FieldInRange v index cap) :
    ((fieldBytes v index).length : Int) = fieldLen v index := by
  obtain ⟨h₀, h₄, hlen, -, hend⟩ := h
  unfold fieldEnd at hend
  rw [fieldBytes, List.length_take, List.length_drop]
  omega

theorem FieldInRange.fieldEnd_nonneg (h : FieldInRange v index cap) : 0 ≤ fieldEnd v index := by
  obtain ⟨h₀, -, hlen, -, -⟩ := h
  unfold fieldEnd
  omega

/-- The length field says the length of the string. -/
theorem FieldInRange.netAt_eq (h : FieldInRange v index cap) :
    netAt v index.toNat = Int32.ofNat (fieldBytes v index).length := by
  have hlen := h.length_fieldBytes
  have hlt := (netAt v index.toNat).toInt_lt
  have hfield : (netAt v index.toNat).toInt = fieldLen v index := rfl
  apply Int32.toInt_inj.mp
  rw [Int32.toInt_ofNat_of_lt (by omega), hlen]
  rfl

/-- The length and the string, and what comes behind them. -/
theorem FieldInRange.drop_eq (h : FieldInRange v index cap) :
    v.drop index.toNat =
      netString (fieldBytes v index) ++ v.drop (fieldEnd v index).toNat := by
  obtain ⟨h₀, h₄, hlen, -, hend⟩ := id h
  have hstart : index.toNat + 4 = (index + 4).toNat := by omega
  have hstop : (index + 4).toNat + (fieldLen v index).toNat = (fieldEnd v index).toNat := by
    unfold fieldEnd
    omega
  rw [drop_eq_netBytes_netAt (by omega), h.netAt_eq, netString, List.append_assoc, hstart,
    ← hstop, ← List.drop_drop]
  exact congrArg (_ ++ ·) (List.take_append_drop _ _).symm

theorem lenField_bind_eq_ok {α : Type} (hv : v.length < 2147483648)
    {f : Int32 × List UInt8 × Int → Except Fault α} {a : α} :
    (lenField v index cap >>= f) = .ok a ↔
      FieldInRange v index cap ∧
        f (netAt v index.toNat, fieldBytes v index, fieldEnd v index) = .ok a := by
  rw [bind_eq_ok]
  constructor
  · rintro ⟨r, hr, h⟩
    obtain ⟨hin, rfl⟩ := (lenField_eq_ok hv).mp hr
    exact ⟨hin, h⟩
  · rintro ⟨hin, h⟩
    exact ⟨_, (lenField_eq_ok hv).mpr ⟨hin, rfl⟩, h⟩

end Field

/-! ### The frames that `decode` makes messages of -/

variable {b b' : TcpBuffer} {i : Nat} {m : ProtobufProtocol}

/-- The fields of the frame lie where they should, and `m` is what the parser makes of them. -/
structure Accepted (b : TcpBuffer) (i : Nat) (m : ProtobufProtocol) : Prop where
  first : FirstFrame b i
  msgIdLen : FieldInRange b.buffer (fieldPlaces b.buffer i).msgIdLen 99
  methodNameLen : FieldInRange b.buffer (fieldPlaces b.buffer i).methodNameLen 511
  errCode : (fieldPlaces b.buffer i).errCode + 4 ≤ b.buffer.length
  errInfoLen : FieldInRange b.buffer (fieldPlaces b.buffer i).errInfoLen 511
  pbData : 0 ≤ pbDataLen b i
  message : m =
    { pkLen := pkLenAt b i
      msgIdLen := netAt b.buffer (fieldPlaces b.buffer i).msgIdLen.toNat
      msgId := cString (stated b i).msgId
      methodNameLen := netAt b.buffer (fieldPlaces b.buffer i).methodNameLen.toNat
      methodName := cString (stated b i).methodName
      errCode := (stated b i).errCode
      errInfoLen := netAt b.buffer (fieldPlaces b.buffer i).errInfoLen.toNat
      errInfo := cString (stated b i).errInfo
      pbData := (stated b i).pbData
      parseSuccess := true }

/-- One of the `continue`s of the parser puts out no message. -/
theorem continue_eq_some {p : Prop} [Decidable p]
    {x : Except Fault (Option ProtobufProtocol)} :
    (if p then .ok none else x) = .ok (some m) ↔ ¬ p ∧ x = .ok (some m) := by
  split <;> simp_all

theorem accepted_of_parseFields (hfirst : FirstFrame b i)
    (h : parseFields b.buffer (frameAt b i) = .ok (some m)) : Accepted b i m := by
  have hv := b.size_lt
  simp only [parseFields, int_bind_eq_ok, continue_eq_some, lenField_bind_eq_ok hv, int32At,
    check_bind_eq_ok, stringAt, copyAt, bind_assoc] at h
  obtain ⟨-, -, hid, -, hname, -, ⟨-, hcode⟩, -, -, hinfo, -, hdata, -, ⟨-, -⟩, hm⟩ := h
  obtain rfl := Option.some.inj (Except.ok.inj hm)
  exact ⟨hfirst, hid, hname, hcode, hinfo, hdata, rfl⟩

/-- `pb_data` ends four bytes before the end byte. -/
theorem pbData_add_pbDataLen (b : TcpBuffer) (i : Nat) :
    (fieldPlaces b.buffer i).pbData + pbDataLen b i = i + (pkLenAt b i).toInt - 5 := by
  have h₁ := fieldEnd.eq_1 b.buffer (i + 5)
  have h₂ := fieldEnd.eq_1 b.buffer (fieldEnd b.buffer (i + 5))
  have h₃ := fieldEnd.eq_1 b.buffer (fieldEnd b.buffer (fieldEnd b.buffer (i + 5)) + 4)
  simp only [fieldPlaces, pbDataLen]
  omega

/-- The end byte is the last of the `pk_len` bytes, and lies in the vector. -/
theorem Accepted.endAt_lt (h : Accepted b i m) :
    0 ≤ (i : Int) + (pkLenAt b i).toInt - 1 ∧
      (i : Int) + (pkLenAt b i).toInt - 1 < b.buffer.length := by
  have hw := b.write_le_size
  have hlo := h.first.2.2.1.2.1.2.1
  have hhi := h.first.2.2.1.2.2.1
  unfold endAt at hlo hhi
  omega

/-- The lengths of the strings, counted in `pk_len`. -/
theorem Accepted.lengths (h : Accepted b i m) :
    ((stated b i).msgId.length : Int) = fieldLen b.buffer (fieldPlaces b.buffer i).msgIdLen ∧
      ((stated b i).methodName.length : Int) =
        fieldLen b.buffer (fieldPlaces b.buffer i).methodNameLen ∧
      ((stated b i).errInfo.length : Int) =
        fieldLen b.buffer (fieldPlaces b.buffer i).errInfoLen ∧
      ((stated b i).pbData.length : Int) = pbDataLen b i := by
  refine ⟨h.msgIdLen.length_fieldBytes, h.methodNameLen.length_fieldBytes,
    h.errInfoLen.length_fieldBytes, ?_⟩
  have hsum := pbData_add_pbDataLen b i
  obtain ⟨-, hend⟩ := h.endAt_lt
  have hdata := h.pbData
  have hplace : 0 ≤ (fieldPlaces b.buffer i).pbData := h.errInfoLen.fieldEnd_nonneg
  rw [stated, List.length_take, List.length_drop]
  omega

theorem Accepted.frameLength_stated (h : Accepted b i m) :
    ((stated b i).frameLength : Int) = (pkLenAt b i).toInt := by
  obtain ⟨hid, hname, hinfo, hdata⟩ := h.lengths
  have hlen : pbDataLen b i = (pkLenAt b i).toInt -
      fieldLen b.buffer (fieldPlaces b.buffer i).methodNameLen -
      fieldLen b.buffer (fieldPlaces b.buffer i).msgIdLen -
      fieldLen b.buffer (fieldPlaces b.buffer i).errInfoLen - 2 - 24 := rfl
  unfold frameLength
  omega

/-- The strings and the error code, one behind the other, up to `pb_data`. -/
theorem Accepted.drop_eq (h : Accepted b i m) :
    b.buffer.drop (i + 5) = netString (stated b i).msgId ++ (netString (stated b i).methodName ++
      (netBytes (stated b i).errCode ++ (netString (stated b i).errInfo ++
      b.buffer.drop (fieldPlaces b.buffer i).pbData.toNat))) := by
  have hplace : 0 ≤ (fieldPlaces b.buffer i).errCode := h.methodNameLen.fieldEnd_nonneg
  have hinfoPlace : (fieldPlaces b.buffer i).errInfoLen =
      (fieldPlaces b.buffer i).errCode + 4 := rfl
  have hcode := h.errCode
  have hcodeDrop := drop_eq_netBytes_netAt (l := b.buffer)
    (k := (fieldPlaces b.buffer i).errCode.toNat) (by omega)
  have hnext : (fieldPlaces b.buffer i).errCode.toNat + 4 =
      (fieldPlaces b.buffer i).errInfoLen.toNat := by omega
  have hfirst : i + 5 = (fieldPlaces b.buffer i).msgIdLen.toNat := by
    simp only [fieldPlaces]
    omega
  rw [hnext, h.errInfoLen.drop_eq] at hcodeDrop
  rw [hfirst, h.msgIdLen.drop_eq]
  refine congrArg (_ ++ ·) (h.methodNameLen.drop_eq.trans ?_)
  exact congrArg (_ ++ ·) hcodeDrop

/-- The start byte and the length. -/
theorem Accepted.drop_start (h : Accepted b i m) :
    b.buffer.drop i =
      [sStart] ++ (netBytes (Int32.ofNat (stated b i).frameLength) ++ b.buffer.drop (i + 5)) := by
  obtain ⟨hstart, -⟩ := h.first.2.2.1.1
  obtain ⟨hheader, -, -⟩ := h.first.2.2.1.2.1
  have hlength := h.frameLength_stated
  have hlt := (pkLenAt b i).toInt_lt
  rw [size] at hheader
  have hpk : netAt b.buffer (i + 1) = Int32.ofNat (stated b i).frameLength := by
    apply Int32.toInt_inj.mp
    rw [Int32.toInt_ofNat_of_lt (by omega), hlength]
    rfl
  rw [drop_of_getD (by omega) hstart, drop_eq_netBytes_netAt (by omega), hpk]
  rfl

/-- `pb_data`, the check sum and the end byte. -/
theorem Accepted.drop_pbData (h : Accepted b i m) :
    ∃ check rest : List UInt8, check.length = 4 ∧
      b.buffer.drop (fieldPlaces b.buffer i).pbData.toNat =
        (stated b i).pbData ++ (check ++ ([sEnd] ++ rest)) := by
  obtain ⟨hlo, hhi⟩ := h.endAt_lt
  have hsum := pbData_add_pbDataLen b i
  have hdata := h.pbData
  have hplace : 0 ≤ (fieldPlaces b.buffer i).pbData := h.errInfoLen.fieldEnd_nonneg
  obtain ⟨-, hend⟩ := h.first.2.2.1.2.2
  obtain ⟨last, hlast⟩ : ∃ last : Nat, (last : Int) = i + (pkLenAt b i).toInt - 1 :=
    ⟨_, Int.toNat_of_nonneg hlo⟩
  rw [endAt, ← hlast, Int.toNat_natCast] at hend
  have hcheck : (fieldPlaces b.buffer i).pbData.toNat + (pbDataLen b i).toNat = last - 4 := by
    omega
  refine ⟨(b.buffer.drop (last - 4)).take 4, b.buffer.drop (last + 1), ?_, ?_⟩
  · rw [List.length_take, List.length_drop]
    omega
  · have hfour : last - 4 + 4 = last := by omega
    have hlastDrop : b.buffer.drop (last - 4 + 4) = [sEnd] ++ b.buffer.drop (last + 1) := by
      rw [hfour]
      exact drop_of_getD (by omega) hend
    rw [← hlastDrop, ← List.drop_drop, List.take_append_drop, ← hcheck, ← List.drop_drop]
    exact (List.take_append_drop _ _).symm

/-- **A frame that `decode` makes a message of is the message it states**, laid out as the encoder
does, with a check sum of its own. -/
theorem Accepted.frameBytes_eq (h : Accepted b i m) :
    ∃ check : List UInt8, check.length = 4 ∧
      frameBytes b i = frameFields (stated b i) ++ (check ++ [sEnd]) := by
  obtain ⟨check, rest, hcheck, hdata⟩ := h.drop_pbData
  have hlength := h.frameLength_stated
  have hfields := length_frameFields (stated b i)
  have hdrop : b.buffer.drop i = frameFields (stated b i) ++ (check ++ [sEnd]) ++ rest := by
    rw [h.drop_start, h.drop_eq, hdata]
    simp only [frameFields, List.append_assoc]
  refine ⟨check, hcheck, ?_⟩
  rw [frameBytes, hdrop]
  apply List.take_left'
  rw [List.length_append, List.length_append, hcheck, List.length_singleton]
  omega

/-! ### The message encoded again -/

/-- Without a NUL no string is cut short. -/
theorem Accepted.sameContents (h : Accepted b i m) (hnul : NulFree (stated b i)) :
    SameContents m (stated b i) := by
  rw [h.message]
  exact ⟨cString_of_not_mem hnul.msgId, cString_of_not_mem hnul.methodName, rfl,
    cString_of_not_mem hnul.errInfo, rfl⟩

theorem Accepted.fullLengths (h : Accepted b i m) (hnul : NulFree (stated b i)) :
    FullLengths m := by
  obtain ⟨hid, hname, hinfo, -⟩ := h.lengths
  have hsame := h.sameContents hnul
  constructor
  · rw [hsame.msgId, hid, h.message]
    rfl
  · rw [hsame.methodName, hname, h.message]
    rfl
  · rw [hsame.errInfo, hinfo, h.message]
    rfl

theorem SameContents.frameFields_eq {m' : ProtobufProtocol} (h : SameContents m m') :
    frameFields m = frameFields m' := by
  unfold frameFields frameLength
  rw [h.msgId, h.methodName, h.errCode, h.errInfo, h.pbData]

theorem SameContents.frameLength_eq {m' : ProtobufProtocol} (h : SameContents m m') :
    m.frameLength = m'.frameLength := by
  unfold frameLength
  rw [h.msgId, h.methodName, h.errInfo, h.pbData]

/-- A message with a `msg_id` is encoded to its frame. -/
theorem Accepted.reencodes_of_ne_nil (h : Accepted b i m) (hsame : SameContents m (stated b i))
    (hid : m.msgId ≠ []) : Reencodes m (frameBytes b i) := by
  have hlt := (pkLenAt b i).toInt_lt
  have hlength := h.frameLength_stated
  have hm : m.withMsgId = m := if_neg hid
  have hfit : m.withMsgId.frameLength < 2147483648 := by
    rw [hm, hsame.frameLength_eq]
    omega
  obtain ⟨check, hcheck, hbytes⟩ := h.frameBytes_eq
  refine ⟨_, _, encodeProtubuf_eq hfit, frameFields (stated b i), check, netBytes 1, hcheck, rfl,
    hbytes, ?_⟩
  rw [hm, frame_eq_fields, hsame.frameFields_eq]

/-- A message without one is encoded to a frame that is longer. -/
theorem Accepted.not_reencodes_of_nil (h : Accepted b i m) (hsame : SameContents m (stated b i))
    (hid : m.msgId = []) : ¬ Reencodes m (frameBytes b i) := by
  rintro ⟨m', f', henc, hsum⟩
  have hm : m.withMsgId = { m with msgId := defaultMsgId } := if_pos hid
  obtain ⟨-, hname, hinfo, -⟩ := h.lengths
  have hcapName := h.methodNameLen.2.2.2.1
  have hcapInfo := h.errInfoLen.2.2.2.1
  have hdefault : defaultMsgId.length = 9 := rfl
  have hfit : m.withMsgId.frameLength < 2147483648 := by
    apply frameLength_of_encodeProtubuf henc
    · rw [hm]
      exact Nat.lt_of_le_of_lt (Nat.le_of_eq hdefault) (by decide)
    · rw [hm, hsame.methodName]
      omega
    · rw [hm, hsame.errInfo]
      omega
  rw [encodeProtubuf_eq hfit] at henc
  obtain ⟨-, rfl⟩ := Prod.mk.inj (Except.ok.inj henc)
  obtain ⟨check, hcheck, hbytes⟩ := h.frameBytes_eq
  have hlen := hsum.length_eq
  have hfields := length_frameFields (stated b i)
  rw [hbytes, length_frame, List.length_append, List.length_append, hcheck,
    List.length_singleton, hfields, ← hsame.frameLength_eq, hm] at hlen
  simp only [frameLength, hid, hdefault, List.length_nil] at hlen
  omega

theorem accepted_of_decodePass (hfirst : FirstFrame b i)
    (hpass : decodePass b = .ok (some (b', [m]))) : Accepted b i m := by
  obtain ⟨i', message, hfirst', -, hparse, hout⟩ := decodePass_eq_some.mp hpass
  obtain rfl : i = i' := hfirst.unique hfirst'
  cases message with
  | none => cases hout
  | some message =>
      obtain rfl : m = message := List.head_eq_of_cons_eq hout
      exact accepted_of_parseFields hfirst hparse

/-- **Encoding undoes decoding**: the message that `decode` makes of a frame has the full strings
that the frame states, and is encoded to the bytes of the frame again, check sum excepted, if and
only if the frame has a `msg_id`. -/
theorem reencodes_iff (hfirst : FirstFrame b i) (hpass : decodePass b = .ok (some (b', [m])))
    (hnul : NulFree (stated b i)) :
    SameContents m (stated b i) ∧ FullLengths m ∧
      (Reencodes m (frameBytes b i) ↔ m.msgId ≠ []) := by
  have h := accepted_of_decodePass hfirst hpass
  have hsame := h.sameContents hnul
  refine ⟨hsame, h.fullLengths hnul, fun hre hid => ?_, h.reencodes_of_ne_nil hsame⟩
  exact h.not_reencodes_of_nil hsame hid hre

/-- A buffer with a frame and one byte more. -/
def frameBuffer (m : ProtobufProtocol) (h : m.frame.length < 2147483647) : TcpBuffer where
  buffer := m.frame ++ [0]
  readIndex := 0
  writeIndex := m.frame.length
  read_le_write := Nat.zero_le _
  write_le_size := by simp
  size_lt := by
    rw [List.length_append, List.length_singleton]
    omega

theorem firstFrame_frameBuffer (m : ProtobufProtocol) (h : m.frame.length < 2147483647) :
    FirstFrame (frameBuffer m h) 0 := by
  have hread : (frameBuffer m h).readable = m.frame ++ [] := by
    rw [List.append_nil]
    exact List.take_left
  exact (firstFrame_of_readable hread).1

theorem reencodes_iff_shortRequest :
    SameContents (delivered shortRequest) (stated (frameBuffer shortRequest (by decide)) 0) ∧
      FullLengths (delivered shortRequest) ∧
      (Reencodes (delivered shortRequest) (frameBytes (frameBuffer shortRequest (by decide)) 0) ↔
        (delivered shortRequest).msgId ≠ []) := by
  have hpass : decodePass (frameBuffer shortRequest (by decide)) =
      .ok (some (TcpBuffer.ofSize 28 (by decide), [delivered shortRequest])) := by
    decide +kernel
  exact reencodes_iff (firstFrame_frameBuffer _ _) hpass ⟨by decide, by decide, by decide⟩

/-- A frame without a `msg_id` comes back longer. -/
theorem not_reencoded_without_msgId :
    ¬ ∀ b b' i m, FirstFrame b i → decodePass b = .ok (some (b', [m])) →
      Reencodes m (frameBytes b i) := by
  intro h
  have hfirst := firstFrame_frameBuffer {} (by decide)
  have hpass : decodePass (frameBuffer {} (by decide)) =
      .ok (some (TcpBuffer.ofSize 27 (by decide), [delivered {}])) := by
    decide +kernel
  have haccepted := accepted_of_decodePass hfirst hpass
  have hsame := haccepted.sameContents ⟨by decide, by decide, by decide⟩
  exact haccepted.not_reencodes_of_nil hsame rfl (h _ _ _ _ hfirst hpass)

end TinyRpc
