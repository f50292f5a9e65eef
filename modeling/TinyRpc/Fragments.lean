/-
TinyRpc/Fragments.lean

A stream of frames that arrives in chunks, with a call of `decode` after each.

Between two calls the buffer holds a pending part of the next frame, and
`decode` must leave it alone.  It does if nothing in that part looks like a
frame (`Quiet`); but the scan reads the length of a frame before the length has
arrived, and it goes on inside a frame that is not complete, so it may find a
frame that is none.  `fragments_deliver` is what holds of every run whose calls
come to quiet buffers only; `quiet_of_clean` says which pending parts are quiet
whatever stands behind them in the vector.
-/
import TinyRpc.DecodeBatch
import TinyRpc.Base.Framing

namespace TinyRpc

open Checked Bytes NetOrder TcpBuffer ProtobufProtocol Framing

/-! ### Feeding chunks -/

/-- `chunk` goes behind the readable bytes of `b`, and a byte stays spare: it is written
by `write_to_buffer`, or read to the write index, which `adjust_write_index` then moves. -/
inductive Append (b : TcpBuffer) (chunk : List UInt8) : TcpBuffer → Prop
  | write {b' : TcpBuffer} :
      b.writeToBuffer chunk = .ok b' → b'.writeIndex < b'.size → Append b chunk b'
  | read :
      b.writeIndex + chunk.length < b.size →
      Append b chunk (b.readIn chunk)

/-- Each of the chunks is put into `b` and `decode` is called: every call returns, and
together they put out `out`.  This is asked of the runs in which every state that a call
comes to satisfies `C`. -/
def Delivers (C : TcpBuffer → Prop) :
    TcpBuffer → List (List UInt8) → List ProtobufProtocol → Prop
  | _, [], out => out = []
  | b, chunk :: chunks, out =>
      ∀ b₁, Append b chunk b₁ → (∀ t, Loop.Visits decodePass b₁ t → C t) →
        ∃ b₂ out₁ out₂, Loop.Returns decodePass b₁ b₂ out₁ ∧ Delivers C b₂ chunks out₂ ∧
          out = out₁ ++ out₂

/-- The readable bytes are a part of the frame of one of `ms`, and not all of it. -/
def Incomplete (ms : List ProtobufProtocol) (b : TcpBuffer) : Prop :=
  ∃ m ∈ ms, ∃ q, m.frame = b.readable ++ q ∧ q ≠ []

/-- No incomplete frame looks like a complete one. -/
def Steady (ms : List ProtobufProtocol) (b : TcpBuffer) : Prop := Incomplete ms b → Quiet b

variable {b b' : TcpBuffer} {chunk : List UInt8} {ms ms' : List ProtobufProtocol}

theorem Append.readable (h : Append b chunk b') : b'.readable = b.readable ++ chunk := by
  cases h with
  | write hw _ => exact readable_writeToBuffer hw
  | read hlt => exact readable_readIn hlt

theorem Append.spare (h : Append b chunk b') : b'.writeIndex < b'.size := by
  cases h with
  | write _ hs => exact hs
  | read hlt => exact readIn_spare (by omega)

/-- A steady buffer that holds a pending part is quiet. -/
theorem Steady.quiet (h : Steady ms b) (hsub : ms' ⊆ ms)
    (hp : Pending (ms'.map frame) b.readable) : Quiet b := by
  generalize hfs : ms'.map frame = fs at hp
  generalize hread : b.readable = p at hp
  cases hp with
  | nil => exact quiet_of_readable_nil hread
  | @part f p q fs hf hq =>
      obtain ⟨m, ms₁, rfl, hm, -⟩ := List.map_eq_cons_iff.mp hfs
      exact h ⟨m, hsub List.mem_cons_self, q, by rw [hm, hf, hread], hq⟩

/-- One call of `decode`: it puts out the messages whose frames have arrived, and leaves
the pending part. -/
theorem decode_whole (hms : ∀ m ∈ ms', WithinLimits m) (hsub : ms' ⊆ ms) {y : List UInt8}
    (hread : b.readable ++ y = (ms'.map frame).flatten) (hspare : b.writeIndex < b.size)
    (hsteady : ∀ t, Loop.Visits decodePass b t → Steady ms t) :
    ∃ t ms₁ ms₂, ms' = ms₁ ++ ms₂ ∧ Loop.Returns decodePass b t (ms₁.map delivered) ∧
      t.readable ++ y = (ms₂.map frame).flatten ∧ Pending (ms₂.map frame) t.readable := by
  obtain ⟨fs₁, fs₂, p, hfs, hx, hy, hpend⟩ := exists_split hread
  obtain ⟨ms₁, ms₂, rfl, rfl, rfl⟩ := List.map_eq_append_iff.mp hfs
  have hms₁ : ∀ m ∈ ms₁, WithinLimits m := fun m hm => hms m (List.mem_append_left _ hm)
  obtain ⟨t, hvisits, rfl, -, hreturns⟩ := decode_frames hms₁ hx hspare
  have hquiet : Quiet t :=
    (hsteady t hvisits).quiet (fun m hm => hsub (List.mem_append_right _ hm)) hpend
  have hret := hreturns t [] (.done (decodePass_eq_none.mpr hquiet))
  rw [List.append_nil] at hret
  exact ⟨t, ms₁, ms₂, rfl, hret, hy, hpend⟩

/-- The run: between two calls the buffer holds a pending part of what is to come. -/
theorem delivers_of_pending {chunks : List (List UInt8)} (hms : ∀ m ∈ ms', WithinLimits m)
    (hsub : ms' ⊆ ms) (hread : b.readable ++ chunks.flatten = (ms'.map frame).flatten)
    (hpend : Pending (ms'.map frame) b.readable) :
    Delivers (Steady ms) b chunks (ms'.map delivered) := by
  induction chunks generalizing b ms' with
  | nil =>
      rw [List.flatten_nil, List.append_nil] at hread
      have hne : [] ∉ ms'.map frame := by
        intro h
        obtain ⟨m, -, hm⟩ := List.mem_map.mp h
        exact frame_ne_nil m hm
      -- nothing is to come, so nothing is pending
      have hnil : ms' = [] := List.map_eq_nil_iff.mp (hpend.eq_nil hread hne)
      show ms'.map delivered = []
      rw [hnil, List.map_nil]
  | cons chunk chunks ih =>
      intro b₁ happ hsteady
      rw [List.flatten_cons, ← List.append_assoc, ← happ.readable] at hread
      obtain ⟨t, ms₁, ms₂, rfl, hret, hrest, hpend'⟩ :=
        decode_whole hms hsub hread happ.spare hsteady
      have hall := ih (fun m hm => hms m (List.mem_append_right _ hm))
        (fun m hm => hsub (List.mem_append_right _ hm)) hrest hpend'
      exact ⟨t, ms₁.map delivered, ms₂.map delivered, hret, hall, List.map_append⟩

/-- **Fragments deliver the whole.**  However the frames of `ms` are cut into chunks and
the chunks are put into an empty buffer, in every run whose calls of `decode` come to
steady buffers only, all calls return and together they put out `ms`. -/
theorem fragments_deliver {frames chunks : List (List UInt8)}
    (hms : ∀ m ∈ ms, WithinLimits m) (henc : List.Forall₂ Encodes ms frames)
    (hcut : chunks.flatten = frames.flatten) (b : TcpBuffer) (hempty : b.readable = []) :
    Delivers (Steady ms) b chunks (ms.map delivered) := by
  refine delivers_of_pending hms (List.Subset.refl ms) ?_ ?_
  · rw [hempty, List.nil_append, hcut, frames_of_encodes hms henc]
  · rw [hempty]
    exact .nil _

/-! ### Which pending parts are quiet -/

/-- The only start byte of the readable ones is the first. -/
theorem isStart_of_clean {i : Nat} (hclean : sStart ∉ b.readable.tail) (hr : b.readIndex ≤ i)
    (hs : IsStart b i) : i = b.readIndex := by
  have hw := hs.2
  have hsize := b.write_le_size
  rcases Nat.eq_or_lt_of_le hr with heq | hlt
  · exact heq.symm
  · refine absurd ?_ hclean
    have hbyte : b.buffer[i]? = some sStart := by
      have hi : i < b.buffer.length := by omega
      have hget := hs.1
      rw [List.getD_eq_getElem?_getD, List.getElem?_eq_getElem hi, Option.getD_some] at hget
      rw [List.getElem?_eq_getElem hi, hget]
    have hread := b.getElem?_readable (i - b.readIndex) (by omega)
    rw [Nat.add_sub_cancel' hr, hbyte] at hread
    obtain ⟨k, hk⟩ : ∃ k, i - b.readIndex = k + 1 := ⟨i - b.readIndex - 1, by omega⟩
    rw [hk, ← List.getElem?_tail] at hread
    exact List.mem_of_getElem? hread

/-- Once the five header bytes of a frame are there, the scan sees its real length. -/
theorem pkLenAt_of_header {m : ProtobufProtocol} {q : List UInt8}
    (hframe : m.frame = b.readable ++ q) (hlen : 5 ≤ b.readable.length) :
    pkLenAt b b.readIndex = Int32.ofNat m.frameLength := by
  obtain ⟨body, hbody, -⟩ := frame_eq m
  have htake : b.readable.take 5 = [sStart] ++ netBytes (Int32.ofNat m.frameLength) := by
    have h5 : ([sStart] ++ netBytes (Int32.ofNat m.frameLength)).length = 5 := by
      rw [List.length_append, length_netBytes, List.length_singleton]
    rw [← List.take_append_of_le_length hlen, ← hframe, hbody, ← List.append_assoc, ← h5,
      List.take_left]
  have hdrop := b.drop_readIndex
  rw [← List.take_append_drop 5 b.readable, htake] at hdrop
  simp only [List.append_assoc] at hdrop
  exact netAt_of_drop (drop_add_length hdrop)

/-- **A part of a frame is quiet** if it is shorter than two bytes or has all five header
bytes, and if no byte of it but the first is a start byte. -/
theorem quiet_of_clean {m : ProtobufProtocol} {q : List UInt8}
    (hframe : m.frame = b.readable ++ q) (hq : q ≠ [])
    (hlen : b.readable.length ≤ 1 ∨ 5 ≤ b.readable.length)
    (hclean : sStart ∉ b.readable.tail) (hfit : b.readIndex + m.frameLength < 2147483648) :
    Quiet b := by
  intro i hr hw hs
  obtain rfl := isStart_of_clean hclean hr hs
  have hread := b.length_readable
  rw [canReadBytesNum] at hread
  have hs₂ := hs.2
  have hsize := b.write_le_size
  have h5 : 5 ≤ b.readable.length := by omega
  -- the frame goes on behind the write index
  have hpart := congrArg List.length hframe
  rw [length_frame, List.length_append] at hpart
  have hqpos : 0 < q.length := List.length_pos_iff.mpr hq
  have hpk : (pkLenAt b b.readIndex).toInt = m.frameLength := by
    rw [pkLenAt_of_header hframe h5]
    exact Int32.toInt_ofNat_of_lt (by omega)
  have hend : endAt b b.readIndex = b.readIndex + m.frameLength - 1 := by rw [endAt, hpk]
  constructor
  · -- five bytes are readable, so the length field lies in the vector
    show b.readIndex + 5 ≤ b.buffer.length ∧ _
    omega
  · intro hends
    have hlt := hends.1
    omega

theorem Delivers.mono {C C' : TcpBuffer → Prop} (hC : ∀ t, C' t → C t)
    {chunks : List (List UInt8)} {out : List ProtobufProtocol} (h : Delivers C b chunks out) :
    Delivers C' b chunks out := by
  induction chunks generalizing b out with
  | nil => exact h
  | cons chunk chunks ih =>
      intro b₁ happ hvisits
      obtain ⟨b₂, out₁, out₂, hret, hrest, hout⟩ :=
        h b₁ happ fun t ht => hC t (hvisits t ht)
      exact ⟨b₂, out₁, out₂, hret, ih hrest, hout⟩

/-- The buffer does not hold two to four bytes of a frame of one of `ms`, and a whole one
would end inside an `int`. -/
def OffHeader (ms : List ProtobufProtocol) (b : TcpBuffer) : Prop :=
  (b.readable.length ≤ 1 ∨ 5 ≤ b.readable.length) ∧
    ∀ m ∈ ms, b.readIndex + m.frameLength < 2147483648

/-- For messages whose frames have no start byte but the first, it is enough that no call
ends with two to four bytes of a frame in the buffer. -/
theorem clean_fragments_deliver {chunks : List (List UInt8)}
    (hms : ∀ m ∈ ms, WithinLimits m) (hclean : ∀ m ∈ ms, sStart ∉ m.frame.tail)
    (hcut : chunks.flatten = (ms.map frame).flatten) (hempty : b.readable = []) :
    Delivers (OffHeader ms) b chunks (ms.map delivered) := by
  have hall : Delivers (Steady ms) b chunks (ms.map delivered) := by
    refine delivers_of_pending hms (List.Subset.refl ms) ?_ ?_
    · rw [hempty, List.nil_append, hcut]
    · rw [hempty]
      exact .nil _
  refine hall.mono fun t ⟨hlen, hfit⟩ ⟨m, hm, q, hframe, hq⟩ => ?_
  refine quiet_of_clean hframe hq hlen (fun hmem => hclean m hm ?_) (hfit m hm)
  have htail : t.readable ≠ [] := by
    intro hnil
    rw [hnil] at hmem
    exact absurd hmem List.not_mem_nil
  rw [hframe, List.tail_append_of_ne_nil htail]
  exact List.mem_append_left q hmem

/-- Two requests, cut behind the length bytes of the first and inside the second. -/
theorem clean_fragments_deliver_shortRequests :
    Delivers (OffHeader [shortRequest, shortRequest]) (TcpBuffer.ofSize 64 (by decide))
      [shortRequest.frame.take 5, shortRequest.frame.drop 5 ++ shortRequest.frame.take 9,
        shortRequest.frame.drop 9] [delivered shortRequest, delivered shortRequest] :=
  @clean_fragments_deliver _ [shortRequest, shortRequest] _ (by simp [withinLimits_shortRequest])
    (by decide) (by decide) (by decide)

/-! ### Cuts that are not quiet -/

/-- A request whose payload is a whole frame. -/
def nestedRequest : ProtobufProtocol := { msgId := [50], pbData := shortRequest.frame }

/-- An input buffer on which nothing has been read. -/
def freshBuffer : TcpBuffer := TcpBuffer.ofSize 64 (by decide)

/-- What is left of the frame after `decode` has taken the nested one for a message. -/
def nestedRest : TcpBuffer where
  buffer := shortRequest.frame.drop 5 ++ List.replicate 42 0
  readIndex := 0
  writeIndex := 22
  read_le_write := by decide
  write_le_size := by decide
  size_lt := by decide

/-- With the frame cut behind the nested one, `decode` delivers the nested one instead. -/
theorem nestedRequest_misread :
    decode 2 (freshBuffer.readIn (nestedRequest.frame.take 49))
      = some (.ok (nestedRest, [delivered shortRequest])) := by
  decide +kernel

theorem withinLimits_nestedRequest : WithinLimits nestedRequest := by
  constructor <;> decide

/-- Not every way of cutting delivers the messages; and of a frame cut inside its length
bytes, the scan reads a length that makes it look before the vector. -/
theorem fragments_lost :
    decode 1 (freshBuffer.readIn (shortRequest.frame.take 2))
      = some (.error .outOfRange) ∧
    ¬ ∀ (ms : List ProtobufProtocol) (frames chunks : List (List UInt8)) (b : TcpBuffer),
      (∀ m ∈ ms, WithinLimits m) → List.Forall₂ Encodes ms frames →
        chunks.flatten = frames.flatten → b.readable = [] →
          Delivers (fun _ => True) b chunks (ms.map delivered) := by
  refine ⟨by decide +kernel, fun h => ?_⟩
  have henc : Encodes nestedRequest nestedRequest.frame :=
    ⟨nestedRequest.stamped, encodeProtubuf_eq (by decide)⟩
  have hall := h [nestedRequest] [nestedRequest.frame]
    [nestedRequest.frame.take 49, nestedRequest.frame.drop 49] freshBuffer
    (by simp [withinLimits_nestedRequest]) (.cons henc .nil) (by decide) (by decide)
  obtain ⟨b₂, out₁, out₂, hret, -, hout⟩ := hall _ (.read (by decide)) fun t _ => trivial
  obtain ⟨-, rfl⟩ := hret.unique ⟨2, nestedRequest_misread⟩
  have hhead := (List.cons.inj hout).1
  exact absurd hhead (by decide)

/-- A frame cut behind its `msg_id` length. -/
theorem fragments_deliver_shortRequest :
    Delivers (Steady [shortRequest]) freshBuffer
      [shortRequest.frame.take 9, shortRequest.frame.drop 9] [delivered shortRequest] :=
  @fragments_deliver [shortRequest] [shortRequest.frame] _ (by simp [withinLimits_shortRequest])
    (.cons encodes_shortRequest .nil) (by decide) freshBuffer (by decide)

end TinyRpc
