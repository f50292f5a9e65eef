/-
TinyRpc/DecodeSafety.lean

When `decode` stays in range.  The length fields of a frame are used before they
are checked, so a pass is safe only for bytes that satisfy, at the frame the scan
accepts, the bounds that no branch of the code tests: the copies fit in their
arrays and in the buffer, and the three strings leave `pb_data` a length that is
not negative.

`safe_parseFields` reads the condition off the parser; `decode_noFault` puts it
together with the condition on the scan and carries it over the loop.  With the
progress of its passes, `decode` then returns: `decode_returns`.
-/
import TinyRpc.DecodeConsume

namespace TinyRpc

open Checked Bytes NetOrder TcpBuffer

/-! ### One length-prefixed string -/

/-- The length of the string whose length field is at `&v[index]`. -/
def fieldLen (v : List UInt8) (index : Int) : Int := (netAt v index.toNat).toInt

/-- The index after the string whose length field is at `&v[index]`. -/
def fieldEnd (v : List UInt8) (index : Int) : Int := index + 4 + fieldLen v index

/-- The length field and the string lie in the vector, and the string fits in an array
of `cap` bytes and a NUL. -/
def FieldInRange (v : List UInt8) (index cap : Int) : Prop :=
  0 ≤ index ∧ index + 4 ≤ v.length ∧ 0 ≤ fieldLen v index ∧ fieldLen v index ≤ cap ∧
    fieldEnd v index ≤ v.length

variable {v : List UInt8} {index cap : Int}

theorem lenField_eq_ok (hv : v.length < 2147483648) {r : Int32 × List UInt8 × Int} :
    lenField v index cap = .ok r ↔
      FieldInRange v index cap ∧
        r = (netAt v index.toNat,
          (v.drop (index + 4).toNat).take (fieldLen v index).toNat, fieldEnd v index) := by
  have hr : ∀ {a b : Int32 × List UInt8 × Int}, a = b ↔ b = a := eq_comm
  simp only [lenField, int32At, copyAt, check_bind_eq_ok, int_bind_eq_ok, bind_assoc,
    Except.ok.injEq, FieldInRange, fieldLen, fieldEnd, FitsInt]
  rw [hr]
  constructor
  · rintro ⟨h₁, -, h₂, h₃, -, rfl⟩
    exact ⟨by omega, rfl⟩
  · rintro ⟨h, rfl⟩
    exact ⟨by omega, by omega, by omega, by omega, by omega, rfl⟩

theorem safe_lenField_bind {α : Type} (hv : v.length < 2147483648)
    {f : Int32 × List UInt8 × Int → Except Fault α} :
    Safe (lenField v index cap >>= f) ↔
      FieldInRange v index cap ∧
        Safe (f (netAt v index.toNat,
          (v.drop (index + 4).toNat).take (fieldLen v index).toNat, fieldEnd v index)) := by
  rw [safe_bind]
  constructor
  · rintro ⟨r, hr, hs⟩
    obtain ⟨hin, rfl⟩ := (lenField_eq_ok hv).mp hr
    exact ⟨hin, hs⟩
  · rintro ⟨hin, hs⟩
    exact ⟨_, (lenField_eq_ok hv).mpr ⟨hin, rfl⟩, hs⟩

theorem safe_stringAt_bind {α : Type} {len : Int} {f : List UInt8 → Except Fault α} :
    Safe (stringAt v index len >>= f) ↔
      0 ≤ len ∧ 0 ≤ index ∧ index + len ≤ v.length ∧
        Safe (f ((v.drop index.toNat).take len.toNat)) := by
  simp only [stringAt, copyAt, bind_assoc, safe_check_bind]
  constructor
  · rintro ⟨h₁, -, h₂, hs⟩
    exact ⟨h₁, h₂.1, h₂.2, hs⟩
  · rintro ⟨h₁, h₂, h₃, hs⟩
    exact ⟨h₁, ⟨h₁, Int.le_refl _⟩, ⟨h₂, h₃⟩, hs⟩

/-! ### The fields of a frame -/

/-- The fields of the frame at index `i` stay in range: `p₁` to `p₄` are the indices of
the four length and error code fields, each looked at only if it stands before the
end byte. -/
def FieldsInRange (b : TcpBuffer) (i : Nat) : Prop :=
  let v := b.buffer
  let p₁ : Int := i + 5
  let p₂ := fieldEnd v p₁
  let p₃ := fieldEnd v p₂
  let p₄ := p₃ + 4
  p₁ < endAt b i → FieldInRange v p₁ 99 ∧
    (p₂ < endAt b i → FieldInRange v p₂ 511 ∧
      (p₃ < endAt b i → p₃ + 4 ≤ v.length ∧
        (p₄ < endAt b i → FieldInRange v p₄ 511 ∧
          fieldLen v p₁ + fieldLen v p₂ + fieldLen v p₄ ≤ (pkLenAt b i).toInt - 26)))

variable {b : TcpBuffer} {i : Nat}

/-- The arithmetic behind the last two fields: `pb_data` ends four bytes before the end
byte, so it is in range as soon as its length is not negative. -/
theorem pbData_bounds {i p₂ p₃ p₅ n₁ n₂ n₄ pkLen stop size : Int} {F : Prop}
    (hi : 0 ≤ i) (hstop : i + pkLen - 1 < size) (hsize : size < 2147483648)
    (hpk : FitsInt pkLen) (hp₂ : p₂ = i + 5 + 4 + n₁) (hn₁ : 0 ≤ n₁) (hc₁ : n₁ ≤ 99)
    (hp₃ : p₃ = p₂ + 4 + n₂) (hn₂ : 0 ≤ n₂) (hc₂ : n₂ ≤ 511)
    (hF : F → 0 ≤ n₄ ∧ n₄ ≤ 511 ∧ p₅ = p₃ + 4 + 4 + n₄) :
    ((0 ≤ p₃ ∧ p₃ + 4 ≤ size) ∧ FitsInt (p₃ + 4) ∧
        (p₃ + 4 < stop → F ∧ FitsInt (pkLen - n₂ - n₁ - n₄ - 2 - 24) ∧
          0 ≤ pkLen - n₂ - n₁ - n₄ - 2 - 24 ∧ 0 ≤ p₅ ∧
          p₅ + (pkLen - n₂ - n₁ - n₄ - 2 - 24) ≤ size)) ↔
      p₃ + 4 ≤ size ∧ (p₃ + 4 < stop → F ∧ n₁ + n₂ + n₄ ≤ pkLen - 26) := by
  unfold FitsInt at *
  constructor
  · rintro ⟨⟨-, h₃⟩, -, hrest⟩
    refine ⟨h₃, fun h₄ => ?_⟩
    obtain ⟨hf, -, hpb, -⟩ := hrest h₄
    exact ⟨hf, by omega⟩
  · rintro ⟨h₃, hrest⟩
    refine ⟨⟨by omega, h₃⟩, by omega, fun h₄ => ?_⟩
    obtain ⟨hf, hpb⟩ := hrest h₄
    obtain ⟨hn₄, hc₄, hp₅⟩ := hF hf
    exact ⟨hf, by omega, by omega, by omega, by omega⟩

theorem safe_parseFields (h : FirstFrame b i) :
    Safe (parseFields b.buffer (frameAt b i)) ↔ FieldsInRange b i := by
  have hv := b.size_lt
  have hi := h.2.2.1.2.1.1
  have hend := h.2.2.1.2.2.1
  have hw := b.write_le_size
  have hstop := frameAt_stop h
  have hpk := fitsInt_toInt (pkLenAt b i)
  rw [size] at hi
  have hp₁ : FitsInt ((i : Int) + 5) := by unfold FitsInt; omega
  have hstart : (frameAt b i).start = i := rfl
  have hlen : (frameAt b i).pkLen = pkLenAt b i := rfl
  simp only [parseFields, FieldsInRange, hstop, hstart, hlen, safe_int_bind, safe_ite, safe_ok,
    safe_lenField_bind hv, int32At, safe_check_bind, safe_stringAt_bind, hp₁, implies_true,
    true_and, and_true, Int.not_le]
  rw [endAt] at hend
  -- field by field: what a field is checked for gives the bounds the next one needs
  refine forall_congr' fun _ => and_congr_right fun h₁ => forall_congr' fun _ =>
    and_congr_right fun h₂ => forall_congr' fun _ => ?_
  have hlen' : ∀ x : Int, (netAt b.buffer x.toNat).toInt = fieldLen b.buffer x := fun _ => rfl
  simp only [hlen']
  -- with three lengths that are not negative, `pb_data` cannot end behind the end byte
  obtain ⟨-, -, hn₁, hc₁, -⟩ := h₁
  obtain ⟨-, -, hn₂, hc₂, -⟩ := h₂
  have hstop' : (i : Int) + (pkLenAt b i).toInt - 1 < b.buffer.length := by omega
  exact pbData_bounds (Int.natCast_nonneg i) hstop' (by omega) hpk rfl hn₁ hc₁ rfl hn₂ hc₂
    fun h₄ => ⟨h₄.2.2.1, h₄.2.2.2.1, rfl⟩

/-! ### One pass, and the loop -/

/-- Every access of one pass is in range. -/
def PassInRange (b : TcpBuffer) : Prop :=
  ScanInRange b ∧ ∀ i, FirstFrame b i → FieldsInRange b i

theorem safe_decodePass : Safe (decodePass b) ↔ PassInRange b := by
  rw [decodePass, safe_bind]
  constructor
  · rintro ⟨r, hscan, hs⟩
    refine ⟨safe_scan.mp ⟨r, hscan⟩, fun i hfirst => ?_⟩
    obtain rfl : r = some (frameAt b i) :=
      Except.ok.inj (hscan.symm.trans (scan_eq_some.mpr ⟨i, hfirst, rfl⟩))
    obtain ⟨b', -, hs⟩ := safe_bind.mp hs
    obtain ⟨message, hm, -⟩ := safe_bind.mp hs
    exact (safe_parseFields hfirst).mp ⟨message, hm⟩
  · rintro ⟨hrange, hfields⟩
    obtain ⟨r, hscan⟩ := safe_scan.mpr hrange
    refine ⟨r, hscan, ?_⟩
    cases r with
    | none => exact safe_ok _
    | some f =>
        obtain ⟨i, hfirst, rfl⟩ := scan_eq_some.mp hscan
        obtain ⟨b', hb', -⟩ := consume_cases hfirst
        obtain ⟨message, hm⟩ := (safe_parseFields hfirst).mpr (hfields i hfirst)
        exact safe_bind.mpr ⟨b', hb', safe_bind.mpr ⟨message, hm, safe_ok _⟩⟩

/-- **Exactly when `decode` stays in range**: every access, copy length, index and
`pb_data` length of the whole loop is in range if and only if the bytes each of its
passes starts from satisfy `PassInRange`. -/
theorem decode_noFault (b : TcpBuffer) :
    Loop.NoFault decodePass b ↔ ∀ t, Loop.Visits decodePass b t → PassInRange t := by
  rw [Loop.noFault_iff]
  exact forall_congr' fun t => forall_congr' fun _ => safe_decodePass

/-- **When `decode` returns**: it stays in range, and leaves fewer bytes with every pass. -/
theorem decode_returns {b : TcpBuffer}
    (h : ∀ t, Loop.Visits decodePass b t → Advances t ∧ PassInRange t) :
    ∃ b' messages, Loop.Returns decodePass b b' messages := by
  have hsafe : Loop.NoFault decodePass b :=
    Loop.noFault_iff.mpr fun t hv => safe_decodePass.mpr (h t hv).2
  have hends : ¬ Loop.Hangs decodePass b := decode_ends fun t hv => (h t hv).1
  exact hsafe.returns hends

/-- A start byte and a negative length: the end byte would stand before the vector. -/
def negativeLengthBuffer : TcpBuffer where
  buffer := [sStart, 0xff, 0xff, 0xff, 0xff]
  readIndex := 0
  writeIndex := 5
  read_le_write := by decide
  write_le_size := by decide
  size_lt := by decide

/-- A frame that is well delimited, with a `msg_id` of 100 bytes. -/
def longMsgIdBuffer : TcpBuffer where
  buffer := [sStart, 0, 0, 0, 126, 0, 0, 0, 100] ++ List.replicate 116 49 ++ [sEnd, 0]
  readIndex := 0
  writeIndex := 126
  read_le_write := by decide
  write_le_size := by decide +kernel
  size_lt := by decide +kernel

/-- `decode` reads outside the one, and copies past the end of `msg_id` on the other. -/
theorem decode_faults :
    decode 1 negativeLengthBuffer = some (.error .outOfRange) ∧
      decode 1 longMsgIdBuffer = some (.error .badCopy) ∧
      ¬ ∀ b, Loop.NoFault decodePass b := by
  have hneg : decode 1 negativeLengthBuffer = some (.error .outOfRange) := by decide +kernel
  refine ⟨hneg, by decide +kernel, fun h => ?_⟩
  exact h negativeLengthBuffer 1 .outOfRange hneg

end TinyRpc
