/-
TinyRpc/DecodeConsume.lean

What one pass of `decode` takes out of the buffer.

The pass finds a frame at the indices `start .. end` and then moves the read
index by `end - start + 1`: by the *length* of the frame, from wherever the read
index stands, and only if the new index is inside the vector.  So the pass takes
out exactly the frame only when the frame stands at the read index and does not
end at the last byte of the vector; and it makes progress at all only when the
length it was given is positive.

* `pass_progress`: when a pass returns or leaves fewer readable bytes, and what
  follows for the whole loop;
* `frame_consumed_once`: when the readable bytes after a pass are those behind
  the frame it accepted, and what follows for the frames accepted over a run of
  arrivals and passes.
-/
import TinyRpc.Decode
import Mathlib.Logic.Relation

namespace TinyRpc

open Checked Bytes NetOrder TcpBuffer

variable {b b' : TcpBuffer} {i : Nat}

/-! ### The consume step -/

theorem frameAt_length (h : FirstFrame b i) :
    ((frameAt b i).stop : Int) - (frameAt b i).start + 1 = (pkLenAt b i).toInt := by
  have hend := h.2.2.1.2.1.2.1
  show ((endAt b i).toNat : Int) - i + 1 = _
  rw [Int.toNat_of_nonneg hend, endAt]
  omega

theorem frameAt_stop (h : FirstFrame b i) : ((frameAt b i).stop : Int) = endAt b i :=
  Int.toNat_of_nonneg h.2.2.1.2.1.2.1

/-- Behind a frame of positive length come the bytes `pk_len` after its start. -/
theorem frameAt_stop_add_one (h : FirstFrame b i) (hlen : 0 < (pkLenAt b i).toInt) :
    (frameAt b i).stop + 1 = i + (pkLenAt b i).toInt.toNat := by
  have hstop := frameAt_stop h
  rw [endAt] at hstop
  generalize (frameAt b i).stop = j at *
  generalize (pkLenAt b i).toInt = n at *
  omega

/-- The two things the consume step can do: move the read index by the length of the
frame, or refuse to. -/
theorem consume_cases (h : FirstFrame b i) :
    ∃ b', consume b (frameAt b i) = .ok b' ∧ b'.size = b.size ∧
      b'.writeIndex ≤ b.writeIndex ∧
      ((0 ≤ b.readIndex + (pkLenAt b i).toInt ∧ b.readIndex + (pkLenAt b i).toInt < b.size ∧
          b'.readable = b.bytesFrom (b.readIndex + (pkLenAt b i).toInt).toNat) ∨
        ((b.readIndex + (pkLenAt b i).toInt < 0 ∨
          b.size ≤ b.readIndex + (pkLenAt b i).toInt) ∧ b' = b)) := by
  obtain ⟨hr, hw, ⟨hs, hh, he⟩, -⟩ := id h
  have hend := he.1
  have hlo := (pkLenAt b i).le_toInt
  have hhi := hh.2.2
  rw [endAt] at hend hhi
  rw [consume, frameAt_length h]
  -- the frame ends among the readable bytes, so a move inside the vector stays below the
  -- write index
  by_cases hin : 0 ≤ b.readIndex + (pkLenAt b i).toInt ∧
      b.readIndex + (pkLenAt b i).toInt < b.size
  · obtain ⟨b', hb', hread, hsize, hwrite⟩ := adjustReadIndex_moved (b := b)
      (k := (pkLenAt b i).toInt) (j := (b.readIndex + (pkLenAt b i).toInt).toNat)
      (by omega) (by omega) (by omega)
    exact ⟨b', hb', hsize, hwrite, .inl ⟨hin.1, hin.2, hread⟩⟩
  · have hfit : FitsInt (b.readIndex + (pkLenAt b i).toInt) := by unfold FitsInt; omega
    have hout : b.readIndex + (pkLenAt b i).toInt < 0 ∨
        b.size ≤ b.readIndex + (pkLenAt b i).toInt := by omega
    exact ⟨b, adjustReadIndex_refused hfit hout, rfl, le_rfl, .inr ⟨hout, rfl⟩⟩

/-- A pass that goes round: its frame, its consume step and the message it puts out. -/
theorem decodePass_eq_some {out : List ProtobufProtocol} :
    decodePass b = .ok (some (b', out)) ↔
      ∃ i message, FirstFrame b i ∧ consume b (frameAt b i) = .ok b' ∧
        parseFields b.buffer (frameAt b i) = .ok message ∧ out = message.toList := by
  rw [decodePass, bind_eq_ok]
  constructor
  · rintro ⟨r, hscan, h⟩
    cases r with
    | none => cases h
    | some f =>
        obtain ⟨i, hfirst, rfl⟩ := scan_eq_some.mp hscan
        obtain ⟨b₁, hb₁, h⟩ := bind_eq_ok.mp h
        obtain ⟨message, hm, h⟩ := bind_eq_ok.mp h
        simp only [Except.ok.injEq, Option.some.injEq, Prod.mk.injEq] at h
        obtain ⟨rfl, rfl⟩ := h
        exact ⟨i, message, hfirst, hb₁, hm, rfl⟩
  · rintro ⟨i, message, hfirst, hb', hm, rfl⟩
    refine ⟨some (frameAt b i), scan_eq_some.mpr ⟨i, hfirst, rfl⟩, ?_⟩
    show (consume b (frameAt b i) >>= _) = _
    rw [hb', ok_bind, hm, ok_bind]

theorem decodePass_eq_none : decodePass b = .ok none ↔ Quiet b := by
  rw [decodePass, bind_eq_ok, ← scan_eq_none]
  constructor
  · rintro ⟨r, hscan, h⟩
    cases r with
    | none => exact hscan
    | some f =>
        obtain ⟨b₁, -, h⟩ := bind_eq_ok.mp h
        obtain ⟨message, -, h⟩ := bind_eq_ok.mp h
        cases h
  · intro h
    exact ⟨none, h, rfl⟩

/-- Passes keep the size of the vector, and a spare byte behind the write index. -/
theorem decodePass_frame {out : List ProtobufProtocol}
    (h : decodePass b = .ok (some (b', out))) :
    b'.size = b.size ∧ b'.writeIndex ≤ b.writeIndex := by
  obtain ⟨i, -, -, hc, -⟩ := decodePass_eq_some.mp h
  exact adjustReadIndex_frame hc

/-! ### Progress -/

/-- The scan of one pass from `b` finds nothing, or its consume step takes bytes out of the
readable ones. -/
def PassProgresses (b : TcpBuffer) : Prop :=
  scan b = .ok none ∨
    ∃ f b', scan b = .ok (some f) ∧ consume b f = .ok b' ∧
      b'.canReadBytesNum < b.canReadBytesNum

/-- The scan stays in range, and the length field of the first delimited frame is
positive and, counted from the read index, ends inside the vector. -/
def Advances (b : TcpBuffer) : Prop :=
  ScanInRange b ∧ ∀ i, FirstFrame b i →
    0 < (pkLenAt b i).toInt ∧ b.readIndex + (pkLenAt b i).toInt < b.size

/-- Where the consume step moves the read index, it takes as many bytes out of the
readable ones as it moves. -/
theorem canReadBytesNum_of_moved {k : Int} (h : b'.readable = b.bytesFrom (b.readIndex + k).toNat)
    (hk : 0 ≤ b.readIndex + k ∧ b.readIndex + k ≤ b.writeIndex) :
    (b'.canReadBytesNum : Int) = b.canReadBytesNum - k := by
  have hlen := congrArg List.length h
  have hr := b.read_le_write
  rw [length_readable, length_bytesFrom] at hlen
  rw [hlen, canReadBytesNum]
  omega

/-- The consume step takes bytes out exactly when the length of the frame is positive and,
counted from the read index, ends inside the vector. -/
theorem consume_lt_iff (h : FirstFrame b i) (hc : consume b (frameAt b i) = .ok b') :
    b'.canReadBytesNum < b.canReadBytesNum ↔
      0 < (pkLenAt b i).toInt ∧ b.readIndex + (pkLenAt b i).toInt < b.size := by
  obtain ⟨b₁, hb₁, -, -, hcase⟩ := consume_cases h
  obtain rfl : b' = b₁ := Except.ok.inj (hc.symm.trans hb₁)
  have hri := h.1
  have hend := h.2.2.1.2.2.1
  rw [endAt] at hend
  rcases hcase with ⟨h₀, hsize, hread⟩ | ⟨hout, rfl⟩
  · have hnum := canReadBytesNum_of_moved hread ⟨h₀, by omega⟩
    omega
  · refine ⟨fun hlt => absurd hlt (lt_irrefl _), fun hin => ?_⟩
    omega

theorem passProgresses_iff : PassProgresses b ↔ Advances b := by
  constructor
  · rintro (hnone | ⟨f, b', hsome, hc, hlt⟩)
    · refine ⟨safe_scan.mp ⟨_, hnone⟩, fun i hfirst => ?_⟩
      have hsome := scan_eq_some.mpr ⟨i, hfirst, rfl⟩
      rw [hnone] at hsome
      cases hsome
    · refine ⟨safe_scan.mp ⟨_, hsome⟩, fun i hfirst => ?_⟩
      obtain ⟨j, hj, rfl⟩ := scan_eq_some.mp hsome
      obtain rfl := hfirst.unique hj
      exact (consume_lt_iff hfirst hc).mp hlt
  · rintro ⟨hrange, hadv⟩
    obtain ⟨r, hr⟩ := safe_scan.mpr hrange
    rcases r with - | f
    · exact .inl hr
    · obtain ⟨i, hfirst, rfl⟩ := scan_eq_some.mp hr
      obtain ⟨b', hb', -⟩ := consume_cases hfirst
      exact .inr ⟨_, b', hr, hb', (consume_lt_iff hfirst hb').mpr (hadv i hfirst)⟩

/-- A pass that goes round from such bytes leaves fewer of them. -/
theorem decodePass_lt {out : List ProtobufProtocol} (h : Advances b)
    (hp : decodePass b = .ok (some (b', out))) : b'.canReadBytesNum < b.canReadBytesNum := by
  obtain ⟨i, message, hfirst, hc, -⟩ := decodePass_eq_some.mp hp
  exact (consume_lt_iff hfirst hc).mpr (h.2 i hfirst)

/-- The loop comes to an end, if all its passes start from such bytes. -/
theorem decode_ends (h : ∀ t, Loop.Visits decodePass b t → Advances t) :
    ¬ Loop.Hangs decodePass b :=
  Loop.not_hangs_of_measure canReadBytesNum fun _ _ _ hv hp => decodePass_lt (h _ hv) hp

/-- **Progress of one pass, and of the loop.**  A pass returns or makes the number of
readable bytes smaller exactly when the bytes before it satisfy `Advances`; a
`decode` whose every pass starts from such bytes does not go round for ever. -/
theorem pass_progress (b : TcpBuffer) :
    (PassProgresses b ↔ Advances b) ∧
      ((∀ t, Loop.Visits decodePass b t → Advances t) → ¬ Loop.Hangs decodePass b) :=
  ⟨passProgresses_iff, decode_ends⟩

/-- The frame of a request, with a spare byte. -/
def requestBuffer : TcpBuffer where
  buffer := shortRequest.frame ++ [0]
  readIndex := 0
  writeIndex := 27
  read_le_write := by decide
  write_le_size := by decide
  size_lt := by decide

/-- One pass takes the frame out, and the next one returns. -/
theorem pass_progress_request :
    PassProgresses requestBuffer ∧ ¬ Loop.Hangs decodePass requestBuffer := by
  have hpass : (decodePass requestBuffer).toOption.map (Option.map Prod.fst)
      = some (some (TcpBuffer.ofSize 28 (by decide))) := by decide +kernel
  have hdone : decodePass (TcpBuffer.ofSize 28 (by decide)) = .ok none := by decide +kernel
  have hfirst : PassProgresses requestBuffer :=
    .inr ⟨⟨0, 26, 27⟩, TcpBuffer.ofSize 28 (by decide), by decide +kernel, by decide +kernel,
      by decide +kernel⟩
  have hlast : PassProgresses (TcpBuffer.ofSize 28 (by decide)) := .inl (by decide +kernel)
  refine ⟨hfirst, (pass_progress requestBuffer).2 fun t hv => ?_⟩
  cases hv with
  | refl => exact (pass_progress _).1.mp hfirst
  | head hp hv =>
      rw [hp] at hpass
      obtain rfl := Option.some.inj (Option.some.inj hpass)
      cases hv with
      | refl => exact (pass_progress _).1.mp hlast
      | head hp' hv =>
          rw [hdone] at hp'
          cases hp'

/-- An end byte, a start byte and the length `0`: the frame ends before it starts. -/
def emptyFrameBuffer : TcpBuffer where
  buffer := [sEnd, sStart, 0, 0, 0, 0]
  readIndex := 0
  writeIndex := 6
  read_le_write := by decide
  write_le_size := by decide
  size_lt := by decide

/-- `decode` consumes nothing of it, and does not come to an end. -/
theorem emptyFrameBuffer_hangs :
    ¬ ∀ b : TcpBuffer, PassProgresses b ∧ ¬ Loop.Hangs decodePass b := by
  intro h
  have hpass : decodePass emptyFrameBuffer = .ok (some (emptyFrameBuffer, [])) := by decide +kernel
  exact (h emptyFrameBuffer).2 (Loop.hangs_of_fixed hpass)

/-! ### Consuming exactly the frame -/

/-- The readable bytes after the pass that accepts the frame at index `i` are those
behind the frame. -/
def ConsumesFrame (b : TcpBuffer) (i : Nat) : Prop :=
  ∃ b', consume b (frameAt b i) = .ok b' ∧
    b'.readable = b.bytesFrom ((frameAt b i).stop + 1)

/-- The frame starts at the read index and does not end at the last byte of the vector.
(The second case is a move refused at the lower end: a frame of negative length that
ends just before the read index.) -/
def FrameInPlace (b : TcpBuffer) (i : Nat) : Prop :=
  (i = b.readIndex ∧ endAt b i + 1 < b.size) ∨
    (endAt b i + 1 = b.readIndex ∧ 2 * b.readIndex < i)

theorem bytesFrom_inj {j k : Nat} (hj : j ≤ b.writeIndex) (hk : k ≤ b.writeIndex) :
    b.bytesFrom j = b.bytesFrom k ↔ j = k := by
  refine ⟨fun h => ?_, fun h => by rw [h]⟩
  have hlen := congrArg List.length h
  rw [length_bytesFrom, length_bytesFrom] at hlen
  omega

theorem consumesFrame_iff (h : FirstFrame b i) : ConsumesFrame b i ↔ FrameInPlace b i := by
  obtain ⟨b', hb', -, -, hcase⟩ := consume_cases h
  have hstop := frameAt_stop h
  have hri := h.1
  have hiw := h.2.1
  have hend := h.2.2.1.2.2.1
  have hw := b.write_le_size
  have hr := b.read_le_write
  have hiff : ConsumesFrame b i ↔ b'.readable = b.bytesFrom ((frameAt b i).stop + 1) := by
    constructor
    · rintro ⟨b₁, hb₁, hread⟩
      rw [Except.ok.inj (hb'.symm.trans hb₁)]
      exact hread
    · exact fun hread => ⟨b', hb', hread⟩
  rw [hiff, FrameInPlace]
  -- equal bytes from two indices up to the write index: the indices are equal
  rw [endAt] at *
  rcases hcase with ⟨h0, hs, hread⟩ | ⟨hout, rfl⟩
  · rw [hread, bytesFrom_inj (by omega) (by omega)]
    omega
  · rw [readable, bytesFrom_inj (by omega) (by omega)]
    rw [size] at *
    omega

/-! ### Runs of arrivals and passes -/

/-- A buffer, the stream of all bytes that have become readable in it, the position of
the read index in that stream, and the stream positions (first and last byte) of the
frames accepted so far, the latest first. -/
structure History where
  buf : TcpBuffer
  stream : List UInt8
  pos : Int
  accepted : List (Int × Int)

/-- The history that starts with the readable bytes of a buffer. -/
def History.start (b : TcpBuffer) : History := ⟨b, b.readable, 0, []⟩

/-- More bytes become readable. -/
def History.Arrive (h h' : History) : Prop :=
  ∃ b' bytes, b'.readable = h.buf.readable ++ bytes ∧
    h' = { h with buf := b', stream := h.stream ++ bytes }

/-- A pass accepts a frame.  The read index passes as many bytes of the stream as the
readable region loses. -/
def History.Accept (h h' : History) : Prop :=
  ∃ f b', scan h.buf = .ok (some f) ∧ consume h.buf f = .ok b' ∧
    h' =
      { h with
        buf := b'
        pos := h.pos + h.buf.canReadBytesNum - b'.canReadBytesNum
        accepted :=
          (h.pos + f.start - h.buf.readIndex, h.pos + f.stop - h.buf.readIndex) :: h.accepted }

/-- The frame the next pass would accept stands at the read index, is not empty, and
does not end at the last byte of the vector. -/
def Aligned (b : TcpBuffer) : Prop :=
  ∀ i, FirstFrame b i → i = b.readIndex ∧ 0 < (pkLenAt b i).toInt ∧ endAt b i + 1 < b.size

/-- The accepted frames follow one another in the stream, each consumed up to its last
byte before the next one starts, and the readable bytes are those behind the last. -/
structure ConsumedOnce (h : History) : Prop where
  disjoint : h.accepted.Pairwise fun later earlier => earlier.2 < later.1
  nonempty : ∀ p ∈ h.accepted, 0 ≤ p.1 ∧ p.1 ≤ p.2 ∧ p.2 < h.pos
  rest : 0 ≤ h.pos ∧ h.pos.toNat ≤ h.stream.length ∧
    h.buf.readable = h.stream.drop h.pos.toNat

theorem ConsumedOnce.start (b : TcpBuffer) : ConsumedOnce (History.start b) where
  disjoint := .nil
  nonempty := fun _ hp => absurd hp List.not_mem_nil
  rest := ⟨Int.le_refl 0, Nat.zero_le _, rfl⟩

theorem ConsumedOnce.arrive {h h' : History} (hc : ConsumedOnce h) (hs : h.Arrive h') :
    ConsumedOnce h' := by
  obtain ⟨hdis, hne, hpos, hle, hrest⟩ := hc
  obtain ⟨b', bytes, hread, rfl⟩ := hs
  refine ⟨hdis, hne, hpos, ?_, ?_⟩
  · simp only [List.length_append]
    omega
  · show b'.readable = (h.stream ++ bytes).drop h.pos.toNat
    rw [List.drop_append_of_le_length hle, ← hrest, hread]

/-- A pass from an aligned buffer takes the `pk_len` bytes of its frame out of the
readable ones, and leaves those behind the frame. -/
theorem consume_of_aligned (hfirst : FirstFrame b b.readIndex) (hal : Aligned b)
    (hc : consume b (frameAt b b.readIndex) = .ok b') :
    (b.canReadBytesNum : Int) - b'.canReadBytesNum = (pkLenAt b b.readIndex).toInt ∧
      b'.readable = b.readable.drop (pkLenAt b b.readIndex).toInt.toNat := by
  obtain ⟨-, hlen, hend⟩ := hal b.readIndex hfirst
  obtain ⟨b₁, hb₁, hread⟩ := (consumesFrame_iff hfirst).mpr (.inl ⟨rfl, hend⟩)
  obtain rfl : b' = b₁ := Except.ok.inj (hc.symm.trans hb₁)
  rw [frameAt_stop_add_one hfirst hlen] at hread
  refine ⟨?_, ?_⟩
  · have hends := hfirst.2.2.1.2.2.1
    rw [endAt] at hends
    have hnum := @canReadBytesNum_of_moved b b' (pkLenAt b b.readIndex).toInt
      (by rw [hread]; congr 1; omega) (by omega)
    omega
  · rw [hread, bytesFrom_add, readable]

theorem ConsumedOnce.accept {h h' : History} (hc : ConsumedOnce h) (hal : Aligned h.buf)
    (hs : h.Accept h') : ConsumedOnce h' := by
  obtain ⟨hdis, hne, hpos, hle, hrest⟩ := hc
  obtain ⟨f, b', hscan, hcon, rfl⟩ := hs
  obtain ⟨i, hfirst, rfl⟩ := scan_eq_some.mp hscan
  obtain ⟨rfl, hlen, -⟩ := hal i hfirst
  obtain ⟨hnum, hread⟩ := consume_of_aligned hfirst hal hcon
  generalize hn : (pkLenAt h.buf h.buf.readIndex).toInt = n at *
  -- in the stream, the frame occupies the `n` bytes from `h.pos` on
  have hmove : h.pos + h.buf.canReadBytesNum - b'.canReadBytesNum = h.pos + n := by omega
  have hstart : h.pos + (frameAt h.buf h.buf.readIndex).start - h.buf.readIndex = h.pos := by
    show h.pos + (h.buf.readIndex : Int) - h.buf.readIndex = h.pos
    omega
  have hstop : h.pos + (frameAt h.buf h.buf.readIndex).stop - h.buf.readIndex
      = h.pos + n - 1 := by
    rw [frameAt_stop hfirst, endAt, hn]
    omega
  rw [hmove, hstart, hstop]
  have htotal := congrArg List.length hrest
  rw [length_readable, List.length_drop] at htotal
  refine ⟨?_, ?_, ?_, ?_, ?_⟩
  · exact List.pairwise_cons.mpr ⟨fun p hp => (hne p hp).2.2, hdis⟩
  · intro p hp
    rcases List.mem_cons.mp hp with rfl | hp
    · show 0 ≤ h.pos ∧ h.pos ≤ h.pos + n - 1 ∧ h.pos + n - 1 < h.pos + n
      omega
    · have hold := hne p hp
      exact ⟨hold.1, hold.2.1, Int.lt_trans hold.2.2 (Int.lt_add_of_pos_right h.pos hlen)⟩
  · show 0 ≤ h.pos + n
    omega
  · show (h.pos + n).toNat ≤ h.stream.length
    omega
  · show b'.readable = h.stream.drop (h.pos + n).toNat
    rw [hread, hrest, List.drop_drop, Int.toNat_add hpos (Int.le_of_lt hlen)]

/-- **Each frame is consumed once.**  A pass that accepts a frame leaves exactly the
bytes behind it readable if and only if the frame is `FrameInPlace`; over any run of
arrivals and passes in which each pass starts from an `Aligned` buffer, no two accepted
frames share a byte of the stream. -/
theorem frame_consumed_once (b : TcpBuffer) :
    (∀ i, FirstFrame b i → scan b = .ok (some (frameAt b i)) ∧
      (ConsumesFrame b i ↔ FrameInPlace b i)) ∧
    ∀ h, Relation.ReflTransGen (fun h h' => h.Arrive h' ∨ Aligned h.buf ∧ h.Accept h')
      (History.start b) h → ConsumedOnce h := by
  refine ⟨fun i hfirst => ⟨scan_eq_some.mpr ⟨i, hfirst, rfl⟩, consumesFrame_iff hfirst⟩, ?_⟩
  intro h hrun
  induction hrun with
  | refl => exact ConsumedOnce.start b
  | tail _ hstep ih =>
      rcases hstep with hs | ⟨hal, hs⟩
      · exact ih.arrive hs
      · exact ih.accept hal hs

/-- The scan tells whether the buffer is aligned. -/
theorem aligned_of_scan {f : Frame} (hscan : scan b = .ok (some f)) (hstart : f.start = b.readIndex)
    (hlen : 0 < f.pkLen.toInt) (hstop : f.stop + 1 < b.size) : Aligned b := by
  obtain ⟨j, hj, rfl⟩ := scan_eq_some.mp hscan
  intro i hi
  obtain rfl := hi.unique hj
  have hend := frameAt_stop hi
  exact ⟨hstart, hlen, by omega⟩

/-- Two requests, with a spare byte. -/
def twoRequests : TcpBuffer where
  buffer := shortRequest.frame ++ { shortRequest with msgId := [50] }.frame ++ [0]
  readIndex := 0
  writeIndex := 54
  read_le_write := by decide
  write_le_size := by decide
  size_lt := by decide

/-- What is left of them when the first has been consumed. -/
def oneRequestLeft : TcpBuffer where
  buffer := { shortRequest with msgId := [50] }.frame ++ List.replicate 28 0
  readIndex := 0
  writeIndex := 27
  read_le_write := by decide
  write_le_size := by decide
  size_lt := by decide

/-- Two passes accept the frames one after the other, and consume both. -/
theorem frame_consumed_once_twoRequests :
    ConsumedOnce ⟨TcpBuffer.ofSize 55 (by decide), twoRequests.readable, 54,
      [(27, 53), (0, 26)]⟩ := by
  have hscan : scan twoRequests = .ok (some ⟨0, 26, 27⟩) := by decide +kernel
  have hscan' : scan oneRequestLeft = .ok (some ⟨0, 26, 27⟩) := by decide +kernel
  have hal : Aligned twoRequests := aligned_of_scan hscan rfl (by decide) (by decide)
  have hal' : Aligned oneRequestLeft := aligned_of_scan hscan' rfl (by decide) (by decide)
  apply (frame_consumed_once twoRequests).2
  refine .tail (.single (.inr ⟨hal, ⟨0, 26, 27⟩, oneRequestLeft, hscan, ?_, rfl⟩))
    (.inr ⟨hal', ⟨0, 26, 27⟩, TcpBuffer.ofSize 55 (by decide), hscan', ?_, ?_⟩)
  · decide +kernel
  · decide +kernel
  · rfl

/-- As many bytes of noise as the frame of the request has, and then the frame. -/
def noisyBuffer : TcpBuffer where
  buffer := List.replicate 27 0 ++ shortRequest.frame ++ [0]
  readIndex := 0
  writeIndex := 54
  read_le_write := by decide
  write_le_size := by decide
  size_lt := by decide

/-- The pass that accepts the frame consumes the noise instead, and the request is
delivered again by the next pass. -/
theorem noisyBuffer_delivers_twice :
    (∃ b', Loop.Returns decodePass noisyBuffer b'
      [{ shortRequest.stamped with checkSum := 0 },
        { shortRequest.stamped with checkSum := 0 }]) ∧
    ¬ ∀ b i, FirstFrame b i → ConsumesFrame b i := by
  refine ⟨⟨TcpBuffer.ofSize 55 (by decide), 3, by decide +kernel⟩, fun h => ?_⟩
  have hscan : scan noisyBuffer = .ok (some ⟨27, 53, 27⟩) := by decide +kernel
  obtain ⟨i, hfirst, hf⟩ := scan_eq_some.mp hscan
  have hi : i = 27 := (congrArg Frame.start hf).symm
  have hend : endAt noisyBuffer 27 = 53 := by decide +kernel
  rcases (consumesFrame_iff hfirst).mp (h _ i hfirst) with ⟨hr, -⟩ | ⟨hr, -⟩
  · rw [hi] at hr
    exact absurd hr (by decide)
  · rw [hi, hend] at hr
    exact absurd hr (by decide)

end TinyRpc
