/-
TinyRpc/MalformedFrames.lean

What a delimited frame whose inner lengths do not fit does to `decode`.

The parser leaves such a frame with a `continue` when a field would start at or
behind the end byte.  But it has used the length of the field before by then, as
the size of a copy, and it never looks at the last length that way.  So a
malformed frame is passed over only where the lengths used up to the `continue`
happened to be harmless (`SkippedInRange`), and where the consume step can move
behind it; then `decode` goes on with what comes after as though the frame had
never been there (`isolated_iff`).  In all other cases it faults, or does not get
past the frame.  Never does a malformed frame make a message.
-/
import TinyRpc.DecodeBatch

namespace TinyRpc

open Checked Bytes NetOrder TcpBuffer

/-! ### Malformed frames -/

/-- The lengths of the frame at index `i`, read in turn, fit: each is not negative, and
together they leave room in `pk_len` for what is not a string. -/
def LengthsFit (b : TcpBuffer) (i : Nat) : Prop :=
  let v := b.buffer
  let p₁ : Int := i + 5
  let p₂ := fieldEnd v p₁
  let p₃ := fieldEnd v p₂
  let p₄ := p₃ + 4
  let room := (pkLenAt b i).toInt - 26
  (0 ≤ fieldLen v p₁ ∧ fieldLen v p₁ ≤ room) ∧
    (0 ≤ fieldLen v p₂ ∧ fieldLen v p₁ + fieldLen v p₂ ≤ room) ∧
      0 ≤ fieldLen v p₄ ∧ fieldLen v p₁ + fieldLen v p₂ + fieldLen v p₄ ≤ room

/-- A frame at the read index, well delimited, with lengths that do not fit. -/
structure MalformedFrame (b : TcpBuffer) : Prop where
  start : b.buffer.getD b.readIndex 0 = sStart
  length : 26 ≤ (pkLenAt b b.readIndex).toInt
  ends : EndsAt b b.readIndex
  unfit : ¬ LengthsFit b b.readIndex

/-- The parser comes to one of its `continue`s with every length up to there in range:
the string before it is too long for the frame, but not for its array and the vector. -/
def SkippedInRange (b : TcpBuffer) (i : Nat) : Prop :=
  let v := b.buffer
  let p₁ : Int := i + 5
  let p₂ := fieldEnd v p₁
  let p₃ := fieldEnd v p₂
  FieldInRange v p₁ 99 ∧
    (endAt b i ≤ p₂ ∨ FieldInRange v p₂ 511 ∧
      (endAt b i ≤ p₃ ∨ p₃ + 4 ≤ v.length ∧ endAt b i ≤ p₃ + 4))

/-- What is readable behind the frame at the read index. -/
def behindFrame (b : TcpBuffer) : List UInt8 :=
  b.readable.drop (pkLenAt b b.readIndex).toInt.toNat

/-- `decode` does with `b` what it does with a buffer that holds only what is behind the
frame: no fault of its own, no message, no other message changed. -/
def Isolated (b : TcpBuffer) : Prop :=
  ∃ b', b'.readable = behindFrame b ∧ b'.size = b.size ∧ b'.writeIndex ≤ b.writeIndex ∧
    ∀ fuel, decode (fuel + 1) b = decode fuel b'

instance (b : TcpBuffer) (i : Nat) : Decidable (LengthsFit b i) :=
  inferInstanceAs (Decidable (_ ∧ _))

instance (v : List UInt8) (index cap : Int) : Decidable (FieldInRange v index cap) :=
  inferInstanceAs (Decidable (_ ∧ _))

instance (b : TcpBuffer) (i : Nat) : Decidable (SkippedInRange b i) :=
  inferInstanceAs (Decidable (_ ∧ (_ ∨ _ ∧ (_ ∨ _ ∧ _))))

variable {b : TcpBuffer}

/-- The scan stops at a malformed frame at the read index. -/
theorem MalformedFrame.firstFrame (h : MalformedFrame b) : FirstFrame b b.readIndex := by
  obtain ⟨hstart, hlen, hends, -⟩ := h
  have hlast := hends.1
  have hw := b.write_le_size
  have hsize := b.size_lt
  rw [endAt] at hlast
  refine ⟨le_rfl, by omega, ⟨⟨hstart, by omega⟩, ?_, hends⟩, ?_⟩
  · rw [HeaderInRange, endAt, size]
    omega
  · exact fun k hk hlt => absurd hlt (Nat.not_lt.mpr hk)

/-! ### The parser on a malformed frame -/

/-- For a malformed frame, staying in range is coming to a `continue` in time: a parser
that reads all fields in range has read lengths that fit. -/
theorem MalformedFrame.fieldsInRange_iff (h : MalformedFrame b) :
    FieldsInRange b b.readIndex ↔ SkippedInRange b b.readIndex := by
  obtain ⟨-, hlen, -, hunfit⟩ := h
  have hp₁ : ((b.readIndex : Int) + 5) < endAt b b.readIndex := by
    rw [endAt]
    omega
  constructor
  · intro hr
    have h₁ := (hr hp₁).1
    refine ⟨h₁, ?_⟩
    by_cases hp₂ : fieldEnd b.buffer (b.readIndex + 5) < endAt b b.readIndex
    · obtain ⟨h₂, hrest⟩ := (hr hp₁).2 hp₂
      refine .inr ⟨h₂, ?_⟩
      by_cases hp₃ : fieldEnd b.buffer (fieldEnd b.buffer (b.readIndex + 5))
          < endAt b b.readIndex
      · obtain ⟨hsize, hlast⟩ := hrest hp₃
        refine .inr ⟨hsize, Int.not_lt.mp fun hp₄ => hunfit ?_⟩
        -- the last string is read as well, and `pb_data` after it
        obtain ⟨h₄, hsum⟩ := hlast hp₄
        obtain ⟨-, -, hn₁, -, -⟩ := h₁
        obtain ⟨-, -, hn₂, -, -⟩ := h₂
        obtain ⟨-, -, hn₄, -, -⟩ := h₄
        exact ⟨⟨hn₁, by omega⟩, ⟨hn₂, by omega⟩, hn₄, hsum⟩
      · exact .inl (Int.not_lt.mp hp₃)
    · exact .inl (Int.not_lt.mp hp₂)
  · rintro ⟨h₁, hskip⟩ -
    refine ⟨h₁, fun hp₂ => ?_⟩
    rcases hskip with hend | ⟨h₂, hskip⟩
    · exact absurd hp₂ (Int.not_lt.mpr hend)
    · refine ⟨h₂, fun hp₃ => ?_⟩
      rcases hskip with hend | ⟨hsize, hend⟩
      · exact absurd hp₃ (Int.not_lt.mpr hend)
      · exact ⟨hsize, fun hp₄ => absurd hp₄ (Int.not_lt.mpr hend)⟩

/-- A frame that is skipped makes no message. -/
theorem parseFields_of_skipped {i : Nat} (h : FirstFrame b i) (hs : SkippedInRange b i) :
    parseFields b.buffer (frameAt b i) = .ok none := by
  have hv := b.size_lt
  have hsize := h.2.2.1.2.1.1
  have hstop := frameAt_stop h
  have hstart : ((frameAt b i).start : Int) = i := rfl
  rw [size] at hsize
  have hfit : FitsInt ((i : Int) + 5) := by unfold FitsInt; omega
  obtain ⟨h₁, hskip⟩ := hs
  rw [parseFields, hstop, hstart, int_of_fits hfit, ok_bind]
  by_cases hp₁ : endAt b i ≤ i + 5
  · rw [if_pos hp₁]
  rw [if_neg hp₁, (lenField_eq_ok hv).mpr ⟨h₁, rfl⟩, ok_bind]
  dsimp only
  by_cases hp₂ : endAt b i ≤ fieldEnd b.buffer (i + 5)
  · rw [if_pos hp₂]
  rw [if_neg hp₂]
  obtain ⟨h₂, hskip⟩ := hskip.resolve_left hp₂
  rw [(lenField_eq_ok hv).mpr ⟨h₂, rfl⟩, ok_bind]
  dsimp only
  by_cases hp₃ : endAt b i ≤ fieldEnd b.buffer (fieldEnd b.buffer (i + 5))
  · rw [if_pos hp₃]
  rw [if_neg hp₃]
  obtain ⟨hin, hend⟩ := hskip.resolve_left hp₃
  -- the error code is read, and the length after it would start too late
  obtain ⟨hnonneg₂, -, hlen₂, -, -⟩ := h₂
  have hpos : 0 ≤ fieldEnd b.buffer (fieldEnd b.buffer (i + 5)) := by
    rw [fieldEnd]
    omega
  have hfit₃ : FitsInt (fieldEnd b.buffer (fieldEnd b.buffer (i + 5)) + 4) := by
    unfold FitsInt
    omega
  rw [int32At, check_of_pos ⟨hpos, hin⟩, ok_bind, int_of_fits hfit₃, ok_bind, if_pos hend]

/-- **A malformed frame never makes a message**: the parser faults on it or skips it. -/
theorem MalformedFrame.no_message (h : MalformedFrame b) {message : Option ProtobufProtocol}
    (hm : parseFields b.buffer (frameAt b b.readIndex) = .ok message) : message = none := by
  have hrange := (safe_parseFields h.firstFrame).mp ⟨message, hm⟩
  have hskip := h.fieldsInRange_iff.mp hrange
  exact Except.ok.inj (hm.symm.trans (parseFields_of_skipped h.firstFrame hskip))

/-! ### The pass and the loop -/

/-- A pass over a malformed frame that is skipped: it puts out nothing, and leaves what is
behind the frame if the read index can be moved there, else everything. -/
theorem MalformedFrame.pass_of_skipped (h : MalformedFrame b)
    (hs : SkippedInRange b b.readIndex) :
    ∃ b', decodePass b = .ok (some (b', [])) ∧ b'.size = b.size ∧
      b'.writeIndex ≤ b.writeIndex ∧
      (if endAt b b.readIndex + 1 < b.size then b'.readable = behindFrame b else b' = b) := by
  have hfirst := h.firstFrame
  have hlen := h.length
  obtain ⟨b', hcon, hsize, hwrite, hcase⟩ := consume_cases hfirst
  refine ⟨b', ?_, hsize, hwrite, ?_⟩
  · exact decodePass_eq_some.mpr
      ⟨b.readIndex, none, hfirst, hcon, parseFields_of_skipped hfirst hs, rfl⟩
  · rw [endAt]
    split
    · obtain ⟨h₀, -, hread⟩ := hcase.resolve_right fun hout => by omega
      have hto : ((b.readIndex : Int) + (pkLenAt b b.readIndex).toInt).toNat
          = b.readIndex + (pkLenAt b b.readIndex).toInt.toNat := by omega
      rw [hread, hto, bytesFrom_add, behindFrame, readable]
    · exact (hcase.resolve_left fun hin => by omega).2

/-- **Exactly which malformed frames are isolated**: those the parser skips in range, and
that do not end at the last byte of the vector. -/
theorem MalformedFrame.isolated_iff (h : MalformedFrame b) :
    Isolated b ↔ SkippedInRange b b.readIndex ∧ endAt b b.readIndex + 1 < b.size := by
  constructor
  · rintro ⟨b', hread, -, -, hdecode⟩
    have hsafe : Safe (decodePass b) := by
      rw [safe_iff_forall_error]
      intro e he
      -- a fault in the first pass would be one of no pass at all
      have hone := hdecode 0
      rw [decode, Loop.run_succ_error he] at hone
      cases hone
    have hskip := h.fieldsInRange_iff.mp ((safe_decodePass.mp hsafe).2 _ h.firstFrame)
    refine ⟨hskip, Classical.byContradiction fun hlast => ?_⟩
    obtain ⟨b₁, hpass, -, -, hstay⟩ := h.pass_of_skipped hskip
    rw [if_neg hlast] at hstay
    subst hstay
    -- the frame ends the readable bytes, so `decode` returns without it and hangs with it
    have hnil : b'.readable = [] := by
      have hw := b₁.write_le_size
      have hlen := h.length
      rw [hread, behindFrame]
      apply List.drop_eq_nil_of_le
      rw [length_readable, canReadBytesNum]
      rw [endAt, size] at hlast
      omega
    have hreturn := hdecode 1
    rw [decode, Loop.hangs_of_fixed hpass, decode,
      Loop.run_succ_done (decodePass_eq_none.mpr (quiet_of_readable_nil hnil))] at hreturn
    cases hreturn
  · rintro ⟨hskip, hend⟩
    obtain ⟨b', hpass, hsize, hwrite, hread⟩ := h.pass_of_skipped hskip
    rw [if_pos hend] at hread
    exact ⟨b', hread, hsize, hwrite, fun fuel => Loop.run_succ_silent hpass fuel⟩

/-- What isolation means for a batch behind the frame, with a spare byte: `decode` raises
no exception and returns the batch. -/
theorem Isolated.batch (h : Isolated b) {ms : List ProtobufProtocol}
    {frames : List (List UInt8)} (hms : ∀ m ∈ ms, WithinLimits m)
    (henc : List.Forall₂ Encodes ms frames) (hrest : behindFrame b = frames.flatten)
    (hspare : b.writeIndex < b.size) :
    Loop.NoFault decodePass b ∧
      ∃ t, Loop.Returns decodePass b t (ms.map delivered) ∧ t.readable = [] := by
  obtain ⟨b', hread, hsize, hwrite, hdecode⟩ := h
  obtain ⟨t, ⟨fuel, hfuel⟩, hnil⟩ := decode_encode hms henc b' (hread.trans hrest) (by omega)
  have hret : Loop.Returns decodePass b t (ms.map delivered) :=
    ⟨fuel + 1, (hdecode fuel).trans hfuel⟩
  exact ⟨hret.noFault, t, hret, hnil⟩

/-- **Malformed frames are isolated exactly when they are skipped in range** and leave
the read index room to move.  With a batch of frames behind it and a spare byte behind
that, `decode` raises no exception and returns the batch exactly when the malformed frame
is skipped in range. -/
theorem malformed_frame_isolated_iff (b : TcpBuffer) (h : MalformedFrame b) :
    (Isolated b ↔ SkippedInRange b b.readIndex ∧ endAt b b.readIndex + 1 < b.size) ∧
    ∀ (ms : List ProtobufProtocol) (frames : List (List UInt8)),
      (∀ m ∈ ms, WithinLimits m) → List.Forall₂ Encodes ms frames →
        behindFrame b = frames.flatten → b.writeIndex < b.size →
          ((Loop.NoFault decodePass b ∧ ∃ t, Loop.Returns decodePass b t (ms.map delivered)) ↔
            SkippedInRange b b.readIndex) := by
  refine ⟨h.isolated_iff, fun ms frames hms henc hrest hspare => ⟨?_, fun hskip => ?_⟩⟩
  · rintro ⟨hsafe, -⟩
    have hpass := (decode_noFault b).mp hsafe b (.refl b)
    exact h.fieldsInRange_iff.mp (hpass.2 _ h.firstFrame)
  · have hend := h.ends.1
    have hisolated := h.isolated_iff.mpr ⟨hskip, by omega⟩
    obtain ⟨hsafe, t, hret, -⟩ := hisolated.batch hms henc hrest hspare
    exact ⟨hsafe, t, hret⟩

/-- A frame of 26 bytes with `n` as the length of `msg_id`, the frame of a request and a
spare byte. -/
def malformedBuffer (n : Int32) : TcpBuffer where
  buffer := [sStart, 0, 0, 0, 26] ++ netBytes n ++ List.replicate 16 0 ++ [sEnd]
    ++ shortRequest.frame ++ [0]
  readIndex := 0
  writeIndex := 53
  read_le_write := Nat.zero_le 53
  write_le_size := by
    simp [length_netBytes, ProtobufProtocol.length_frame, ProtobufProtocol.frameLength,
      shortRequest]
  size_lt := by
    simp [length_netBytes, ProtobufProtocol.length_frame, ProtobufProtocol.frameLength,
      shortRequest]

/-- A `msg_id` of 17 bytes would reach the end byte, and is passed over. -/
theorem malformedBuffer_isolated :
    Loop.NoFault decodePass (malformedBuffer 17) ∧
      ∃ t, Loop.Returns decodePass (malformedBuffer 17) t [delivered shortRequest] :=
  ((malformed_frame_isolated_iff (malformedBuffer 17)
    ⟨by decide, by decide, by decide, by decide⟩).2 [shortRequest] [shortRequest.frame]
    (by simp [withinLimits_shortRequest]) (.cons encodes_shortRequest .nil)
    (by decide) (by decide)).mpr (by decide)

/-- A `msg_id` of length `-1` is copied all the same: `decode` raises an exception, and
the request behind the frame is not delivered. -/
theorem malformedBuffer_faults :
    decode 1 (malformedBuffer (-1)) = some (.error .badCopy) ∧
      ¬ ∀ (b : TcpBuffer) (ms : List ProtobufProtocol) (frames : List (List UInt8)),
        MalformedFrame b → (∀ m ∈ ms, WithinLimits m) → List.Forall₂ Encodes ms frames →
          behindFrame b = frames.flatten → b.writeIndex < b.size →
            Loop.NoFault decodePass b ∧ ∃ t, Loop.Returns decodePass b t (ms.map delivered) := by
  have hfault : decode 1 (malformedBuffer (-1)) = some (.error .badCopy) := by decide +kernel
  refine ⟨hfault, fun h => ?_⟩
  have hall := h (malformedBuffer (-1)) [shortRequest] [shortRequest.frame]
    ⟨by decide, by decide, by decide, by decide⟩ (by simp [withinLimits_shortRequest])
    (.cons encodes_shortRequest .nil) (by decide) (by decide)
  exact hall.1 1 .badCopy hfault

end TinyRpc
