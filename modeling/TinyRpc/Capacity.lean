/-
TinyRpc/Capacity.lean

How much an input buffer takes.

`on_read` would double a buffer that is full, but no buffer ever is: the write index is
never moved to the end of the vector, so there is always room for one more byte.  The
vector keeps the size that the connection was given, a frame that `decode` accepts lies in
front of the write index, and so the frame is shorter than the vector.  That holds of every
run, however the reads and writes go and whatever they bring: no request and no response of
128 bytes or more gets through (`session_capacity`).
-/
import TinyRpc.Session

namespace TinyRpc

open Checked Bytes NetOrder TcpBuffer ProtobufProtocol Runs

variable {M κ : Type}

/-! ### One call -/

section Call

variable {b b' : TcpBuffer} {results : List ReadResult} {bytes : List UInt8}

theorem size_readIn : (b.readIn bytes).size = b.size :=
  (size_adjustWriteIndex _ _).trans size_fill

/-- The loop of `on_read` never comes to a buffer that is full, so it never makes one larger. -/
theorem size_readLoop {exit : ReadExit} (hspare : b.writeIndex < b.size)
    (hscript : ReadScript b results) (hloop : readLoop results b = .ok (some (b', exit))) :
    b'.size = b.size ∧ b'.writeIndex < b'.size := by
  induction hscript with
  | eof =>
      rw [(LoopKeeps.eof hspare).loop] at hloop
      obtain ⟨rfl, -⟩ := Prod.mk.inj (Option.some.inj (Except.ok.inj hloop))
      exact ⟨rfl, hspare⟩
  | again =>
      rw [(LoopKeeps.again hspare).loop] at hloop
      obtain ⟨rfl, -⟩ := Prod.mk.inj (Option.some.inj (Except.ok.inj hloop))
      exact ⟨rfl, hspare⟩
  | short hgrow _ hlt =>
      obtain rfl := eq_of_growIfFull hspare hgrow
      rw [(LoopKeeps.short hspare hlt).loop] at hloop
      obtain ⟨rfl, -⟩ := Prod.mk.inj (Option.some.inj (Except.ok.inj hloop))
      exact ⟨size_readIn, readIn_spare hspare⟩
  | @full b b₁ bytes results hgrow _ heq _ ih =>
      obtain rfl := eq_of_growIfFull hspare hgrow
      rw [readLoop, hgrow, ok_bind] at hloop
      have hrest := ih (readIn_spare hspare) ((if_neg (Nat.not_lt.mpr heq.ge)).symm.trans hloop)
      exact ⟨hrest.1.trans size_readIn, hrest.2⟩
  | error hgrow _ ih =>
      obtain rfl := eq_of_growIfFull hspare hgrow
      rw [readLoop, hgrow, ok_bind] at hloop
      exact ih hspare hloop

/-- The message of a frame has the length of the frame in its `pk_len`. -/
theorem pkLen_of_parseFields {tmp : List UInt8} {f : Frame} {m : ProtobufProtocol}
    (h : parseFields tmp f = .ok (some m)) : m.pkLen = f.pkLen := by
  have hnone : ∀ {i : Int} {x : Except Fault (Option ProtobufProtocol)},
      (if f.stop ≤ i then .ok none else x) = .ok (some m) → x = .ok (some m) := by
    intro i x hx
    split at hx
    · cases hx
    · exact hx
  rw [parseFields] at h
  obtain ⟨_, -, h⟩ := bind_eq_ok.mp h
  obtain ⟨⟨_, _, _⟩, -, h⟩ := bind_eq_ok.mp (hnone h)
  obtain ⟨⟨_, _, _⟩, -, h⟩ := bind_eq_ok.mp (hnone h)
  obtain ⟨_, -, h⟩ := bind_eq_ok.mp (hnone h)
  obtain ⟨_, -, h⟩ := bind_eq_ok.mp h
  obtain ⟨⟨_, _, _⟩, -, h⟩ := bind_eq_ok.mp (hnone h)
  obtain ⟨_, -, h⟩ := bind_eq_ok.mp h
  obtain ⟨_, -, h⟩ := bind_eq_ok.mp h
  obtain rfl := Option.some.inj (Except.ok.inj h)
  rfl

/-- A pass keeps the vector and its spare byte, and the frame that it takes out is shorter than the
vector. -/
theorem decodePass_capped {out : List ProtobufProtocol} {n : Nat}
    (hb : b.size = n ∧ b.writeIndex < b.size) (h : decodePass b = .ok (some (b', out))) :
    (b'.size = n ∧ b'.writeIndex < b'.size) ∧ ∀ m ∈ out, m.pkLen.toInt < n := by
  obtain ⟨hsize, hspare⟩ := hb
  have hframe := decodePass_frame h
  refine ⟨⟨hframe.1.trans hsize, by omega⟩, fun m hm => ?_⟩
  obtain ⟨i, message, hfirst, -, hparse, rfl⟩ := decodePass_eq_some.mp h
  obtain rfl := Option.mem_toList.mp hm
  have hpk := pkLen_of_parseFields hparse
  have hend := hfirst.2.2.1.2.2.1
  rw [hpk]
  show (pkLenAt b i).toInt < n
  rw [endAt] at hend
  omega

/-- `decode` too. -/
theorem decode_capped {out : List ProtobufProtocol} {n : Nat} (hsize : b.size = n)
    (hspare : b.writeIndex < b.size) (h : Loop.Returns decodePass b b' out) :
    b'.size = n ∧ b'.writeIndex < b'.size ∧ ∀ m ∈ out, m.pkLen.toInt < n := by
  have hkept := h.visits.invariant
    (fun {_ _ _} hs hp => (decodePass_capped (n := n) hs hp).1) ⟨hsize, hspare⟩
  exact ⟨hkept.1, hkept.2, h.outputs (fun {_ _ _} hs hp => decodePass_capped hs hp) ⟨hsize, hspare⟩⟩

end Call

/-! ### Runs -/

/-- The kernel gives each read what it may. -/
def Scripted (s : Session κ) : SessionEvent κ → Prop
  | .serverRead results _ => ReadScript s.server.connection.inBuffer results
  | .clientRead results _ => ReadScript s.client.connection.inBuffer results
  | _ => True

/-- The input buffer has `n` bytes, one of them spare, and every message that has come out of it was
in a frame of fewer. -/
structure CappedEnd (n : Nat) (e : Endpoint κ) : Prop where
  size : e.connection.inBuffer.size = n
  spare : e.connection.inBuffer.writeIndex < e.connection.inBuffer.size
  decoded : ∀ m ∈ e.decoded, m.pkLen.toInt < n

/-- The same of both ends of a conversation, whose buffers have 128 bytes. -/
structure Capped (s : Session κ) : Prop where
  server : CappedEnd 128 s.server
  client : CappedEnd 128 s.client

section Runs

variable {services : Nat → ServiceMap M} {s s' : Session κ} {e e' : Endpoint κ} {n : Nat}

theorem CappedEnd.congr (h : CappedEnd n e)
    (hin : e'.connection.inBuffer = e.connection.inBuffer) (hdecoded : e'.decoded = e.decoded) :
    CappedEnd n e' := by
  refine ⟨hin ▸ h.size, hin ▸ h.spare, hdecoded ▸ h.decoded⟩

/-- A call of `on_read`, whatever it reads. -/
theorem CappedEnd.onRead {accepted : List UInt8} {results : List ReadResult} {fuel : Nat}
    {r : Option (List ProtobufProtocol)} (h : CappedEnd n e)
    (hscript : ReadScript e.connection.inBuffer results)
    (hs : e.onRead accepted results fuel = some (e', r)) : CappedEnd n e' := by
  obtain ⟨-, -, c, ⟨hcall, -, rfl⟩ | ⟨handed, inBuffer, result, hcall, hret, -, rfl⟩⟩ :=
    Endpoint.onRead_eq_some hs
  · rcases onRead_cases hcall with ⟨-, rfl, -⟩ | ⟨-, b, hloop, rfl, -⟩ | ⟨-, b, -, -, hsome⟩
    · exact h.congr rfl rfl
    · obtain ⟨hsize, hspare⟩ := size_readLoop h.spare hscript hloop
      have hin : ({ e.connection with inBuffer := b }.clear).inBuffer = b :=
        TcpConnection.clear_inBuffer _
      refine ⟨?_, ?_, h.decoded⟩
      · show ({ e.connection with inBuffer := b }.clear).inBuffer.size = n
        rw [hin, hsize, h.size]
      · show ({ e.connection with inBuffer := b }.clear).inBuffer.writeIndex <
          ({ e.connection with inBuffer := b }.clear).inBuffer.size
        rwa [hin]
    · cases hsome
  · rcases onRead_cases hcall with ⟨-, -, hnone⟩ | ⟨-, b, -, -, hnone⟩ | ⟨-, b, hloop, rfl, -⟩
    · cases hnone
    · cases hnone
    · obtain ⟨hsize, hspare⟩ := size_readLoop h.spare hscript hloop
      obtain ⟨hsize', hspare', hresult⟩ := decode_capped (hsize.trans h.size) hspare hret
      refine ⟨hsize', hspare', fun m hm => ?_⟩
      rcases List.mem_append.mp hm with hold | hnew
      · exact h.decoded m hold
      · exact hresult m hnew

/-- A call of `on_write` does not touch the input buffer. -/
theorem CappedEnd.onWrite {results : List WriteResult} {w : Written κ} (h : CappedEnd n e)
    (hw : e.Wrote e' results w) : CappedEnd n e' := by
  refine h.congr ?_ hw.decoded
  rw [hw.connection_eq]
  exact (onWrite_frame hw.call).1

theorem Capped.step (s : Session κ) (event : SessionEvent κ) (s' : Session κ) (h : Capped s)
    (hscript : Scripted s event) (hs : s' ∈ sessionStep services s event) : Capped s' := by
  cases event with
  | writeMessage message done =>
      obtain ⟨-, heq⟩ := Option.mem_ite_none_left.mp hs
      obtain rfl := Option.some.inj heq
      exact ⟨h.server, h.client.congr rfl rfl⟩
  | clientWrite results =>
      obtain ⟨⟨client, called⟩, hwrite, rfl⟩ := Option.map_eq_some_iff.mp hs
      obtain ⟨w, hw, -⟩ := Endpoint.wrote hwrite
      exact ⟨h.server, (h.client.onWrite hw).congr (readMessages_eq called).1 rfl⟩
  | serverRead results fuel =>
      obtain ⟨⟨server, result⟩, hread, hs⟩ := Option.bind_eq_some_iff.mp hs
      have hserver := h.server.onRead hscript hread
      cases result with
      | none =>
          obtain rfl := Option.some.inj hs
          exact ⟨hserver, h.client⟩
      | some requests =>
          obtain ⟨server', hreply, rfl⟩ := Option.map_eq_some_iff.mp hs
          have hreplied := Endpoint.replied hreply
          exact ⟨hserver.congr hreplied.inBuffer hreplied.decoded, h.client⟩
  | serverWrite results =>
      obtain ⟨⟨server, called⟩, hwrite, rfl⟩ := Option.map_eq_some_iff.mp hs
      obtain ⟨w, hw, -⟩ := Endpoint.wrote hwrite
      exact ⟨h.server.onWrite hw, h.client⟩
  | clientRead results fuel =>
      obtain ⟨⟨client, result⟩, hread, rfl⟩ := Option.map_eq_some_iff.mp hs
      exact ⟨h.server, h.client.onRead hscript hread⟩

end Runs

theorem CappedEnd.start {c : TcpConnection κ}
    (hin : c.inBuffer = TcpBuffer.ofSize 128 bufferSize_lt) :
    CappedEnd 128 (Endpoint.start c) := by
  refine ⟨?_, ?_, nofun⟩
  · show c.inBuffer.size = 128
    rw [hin]
    exact List.length_replicate
  · show c.inBuffer.writeIndex < c.inBuffer.size
    rw [hin]
    exact fresh_spare

/-- **Nothing of 128 bytes gets through.**  Whatever the two sides write and read, and however the
calls interleave, the input buffers keep the 128 bytes that they start with, and neither side ever
decodes a message whose frame has 128 bytes or more. -/
theorem session_capacity (services : Nat → ServiceMap M) (events : List (SessionEvent κ))
    (h : Meets (sessionStep services) Scripted (Session.start κ) events) :
    Always (sessionStep services) Capped (Session.start κ) events :=
  always_of_meets (fun _ h => h) Capped.step ⟨.start rfl, .start rfl⟩ h

theorem Prompt.scripted {s : Session κ} {event : SessionEvent κ} (h : Prompt s event) :
    Scripted s event := by
  cases event with
  | writeMessage message done => trivial
  | clientWrite results => trivial
  | serverRead results fuel => exact ReadsAll.script h
  | serverWrite results => trivial
  | clientRead results fuel => exact ReadsAll.script h

theorem session_capacity_roundTrip :
    Always (sessionStep echoServices) Capped (Session.start Nat)
      (roundTrip echoServices mixedCalls) :=
  session_capacity echoServices _
    (meets_of_meets (fun _ _ _ hevent => hevent.scripted) Capped.step ⟨.start rfl, .start rfl⟩
      roundTrip_prompt)

end TinyRpc
