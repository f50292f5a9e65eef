/-
TinyRpc/Endpoint.lean

One end of a connection, with what has passed through it: the messages that it has
encoded, the bytes that it has read from its socket, and the messages that it has
decoded.

`Sends` says what an end keeps as the sending side, and `Receives` what it keeps as the
receiving side of a stream of frames.  Each of the two is kept by its half of the
connection, `on_write` and `on_read`, and does not look at the other half; so a
conversation between two ends is two of each (`TinyRpc/Session.lean`).
-/
import TinyRpc.Excute
import TinyRpc.Fragments
import TinyRpc.OnRead
import TinyRpc.WireFormat

namespace TinyRpc

open Checked Bytes TcpBuffer ProtobufProtocol Framing

variable {κ : Type}

structure Endpoint (κ : Type) where
  out : Outgoing κ
  /-- `on_write` is in its loop for good -/
  loops : Bool
  /-- the messages encoded -/
  sent : List ProtobufProtocol
  /-- the bytes read from the socket -/
  read : List UInt8
  /-- the messages decoded -/
  decoded : List ProtobufProtocol

/-- The bytes that a call of `on_read` reads: it does not read on a connection that is not up. -/
def bytesRead (c : TcpConnection κ) (results : List ReadResult) : List UInt8 :=
  if c.state = .connected then received results else []

namespace Endpoint

/-- An end on which nothing has happened. -/
def start (c : TcpConnection κ) : Endpoint κ := ⟨Outgoing.start c, false, [], [], []⟩

abbrev connection (e : Endpoint κ) : TcpConnection κ := e.out.connection

def setConnection (e : Endpoint κ) (c : TcpConnection κ) : Endpoint κ :=
  { e with out := { e.out with connection := c } }

/-- `on_write`: the end after it, and the callbacks it has run, with their messages. -/
def onWrite (e : Endpoint κ) (results : List WriteResult) :
    Option (Endpoint κ × List (ProtobufProtocol × κ)) :=
  if e.loops then none
  else
    (TinyRpc.onWrite e.connection results).toOption.map fun w =>
      ({ e with
          out :=
            { connection := w.connection
              accepted := e.out.accepted ++ w.sent
              encoded := e.out.encoded ++ encodedBytes (toEncode e.connection)
              cancelled := w.exit = .writeAll }
          loops := w.exit = .looping
          sent := e.sent ++ toEncode e.connection },
        w.called)

/-- `on_read`, and the `decode` of `excute`, for at most `fuel` passes: the end after it, and
the messages that `excute` goes on with, if it is called.  The socket gives the bytes that the
peer's socket has accepted, in order. -/
def onRead (e : Endpoint κ) (accepted : List UInt8) (results : List ReadResult) (fuel : Nat) :
    Option (Endpoint κ × Option (List ProtobufProtocol)) :=
  if e.loops ∨ ¬ e.read ++ bytesRead e.connection results <+: accepted then none
  else
    let e' := { e with read := e.read ++ bytesRead e.connection results }
    match TinyRpc.onRead e.connection results with
    | .ok (some (c, none)) => some (e'.setConnection c, none)
    | .ok (some (c, some _)) =>
        match decode fuel c.inBuffer with
        | some (.ok (inBuffer, result)) =>
            some ({ e'.setConnection { c with inBuffer := inBuffer } with
              decoded := e.decoded ++ result }, some result)
        | _ => none
    | _ => none

end Endpoint

namespace Endpoint

/-- `TcpClient::write_message`: the message waits, and `OUT_EVENT` is listened for. -/
def writeMessage (e : Endpoint κ) (message : ProtobufProtocol) (done : κ) : Endpoint κ :=
  { e with
    out :=
      { e.out with
        connection := (e.connection.pushSendMessage message done).listenWrite
        cancelled := false } }

/-- The end of `excute` on a server. -/
def reply (e : Endpoint κ) (replies : List ProtobufProtocol) : Option (Endpoint κ) :=
  (TinyRpc.reply e.connection replies).toOption.map fun c =>
    { e with
      out :=
        { e.out with
          connection := c
          encoded := e.out.encoded ++ encodedBytes replies
          cancelled := false }
      sent := e.sent ++ replies }

end Endpoint

/-! ### The sending side -/

/-- The messages are within the limits, the bytes encoded are their frames, and the output
buffer and the socket stand as `Unsent` says. -/
structure Sends (e : Endpoint κ) : Prop where
  limits : ∀ m ∈ e.sent, WithinLimits m
  bytes : e.out.encoded = (e.sent.map frame).flatten
  unsent : Unsent e.out

theorem Sends.start {c : TcpConnection κ} (hempty : c.outBuffer.readable = []) :
    Sends (Endpoint.start c) where
  limits := nofun
  bytes := hempty
  unsent := Unsent.start c

/-- What is encoded of messages within the limits is their frames. -/
theorem encodedBytes_eq {ms ms' : List ProtobufProtocol} {out out' : TcpBuffer}
    (hms : ∀ m ∈ ms, WithinLimits m) (h : encode ms out = .ok (ms', out')) :
    encodedBytes ms = (ms.map frame).flatten := by
  obtain ⟨frames, henc, -⟩ := encode_readable h
  rw [encodedBytes_of_encodes henc, frames_of_encodes hms henc]

/-- The call of `encode` that an `on_write` makes. -/
theorem encode_of_onWrite {c : TcpConnection κ} {results : List WriteResult} {w : Written κ}
    (h : onWrite c results = .ok w) :
    toEncode c = [] ∨ ∃ r, encode (toEncode c) c.outBuffer = .ok r := by
  by_cases hc : c.state = .connected
  · rw [onWrite, if_neg (not_not_intro hc)] at h
    obtain ⟨r, henc, -⟩ := bind_eq_ok.mp h
    exact .inr ⟨r, henc⟩
  · exact .inl (if_neg fun hand => hc hand.1)

/-- `e'` is what a call of `on_write` on `e` leaves, if it goes as `w` says. -/
structure Endpoint.Wrote (e e' : Endpoint κ) (results : List WriteResult) (w : Written κ) :
    Prop where
  returned : e.loops = false
  call : TinyRpc.onWrite e.connection results = .ok w
  out : e'.out =
    { connection := w.connection
      accepted := e.out.accepted ++ w.sent
      encoded := e.out.encoded ++ encodedBytes (toEncode e.connection)
      cancelled := w.exit = .writeAll }
  loops : e'.loops = decide (w.exit = .looping)
  sent : e'.sent = e.sent ++ toEncode e.connection
  read : e'.read = e.read
  decoded : e'.decoded = e.decoded

theorem Endpoint.wrote {e e' : Endpoint κ} {results : List WriteResult}
    {called : List (ProtobufProtocol × κ)} (h : e.onWrite results = some (e', called)) :
    ∃ w, e.Wrote e' results w ∧ called = w.called := by
  obtain ⟨hloops, h⟩ := Option.mem_ite_none_left.mp h
  obtain ⟨w, hw, heq⟩ := Option.map_eq_some_iff.mp h
  obtain ⟨rfl, rfl⟩ := Prod.mk.inj heq
  exact ⟨w, ⟨Bool.eq_false_iff.mpr hloops, toOption_eq_some.mp hw, rfl, rfl, rfl, rfl, rfl⟩, rfl⟩

theorem Endpoint.Wrote.connection_eq {e e' : Endpoint κ} {results : List WriteResult}
    {w : Written κ} (hw : e.Wrote e' results w) : e'.connection = w.connection :=
  congrArg Outgoing.connection hw.out

/-- **`on_write` keeps the sending side**, as long as the socket accepts bytes in one call. -/
theorem Sends.onWrite {e e' : Endpoint κ} {results : List WriteResult} {w : Written κ}
    (h : Sends e) (honce : AcceptsOnce e.out (.onWrite results))
    (hms : ∀ m ∈ toEncode e.connection, WithinLimits m) (hw : e.Wrote e' results w) :
    Sends e' := by
  refine ⟨fun m hm => ?_, ?_, hw.out ▸ h.unsent.onWrite honce hw.call⟩
  · rw [hw.sent] at hm
    rcases List.mem_append.mp hm with hold | hnew
    · exact h.limits m hold
    · exact hms m hnew
  · have hnew : encodedBytes (toEncode e.connection) =
        ((toEncode e.connection).map frame).flatten := by
      rcases encode_of_onWrite hw.call with hnil | ⟨r, henc⟩
      · rw [hnil]
        rfl
      · exact encodedBytes_eq hms henc
    rw [hw.out, hw.sent]
    show e.out.encoded ++ _ = _
    rw [h.bytes, hnew, List.map_append, List.flatten_append]

/-- `e'` has replied, and is otherwise what `e` is. -/
structure Endpoint.Replied (e e' : Endpoint κ) (replies : List ProtobufProtocol) : Prop where
  sent : e'.sent = e.sent ++ replies
  read : e'.read = e.read
  decoded : e'.decoded = e.decoded
  inBuffer : e'.connection.inBuffer = e.connection.inBuffer
  connectionType : e'.connection.connectionType = e.connection.connectionType

theorem Endpoint.replied {e e' : Endpoint κ} {replies : List ProtobufProtocol}
    (h : e.reply replies = some e') : e.Replied e' replies := by
  obtain ⟨c, hc, rfl⟩ := Option.map_eq_some_iff.mp h
  obtain ⟨⟨messages, out⟩, -, heq⟩ := bind_eq_ok.mp (toOption_eq_some.mp hc)
  obtain rfl := Except.ok.inj heq
  exact ⟨rfl, rfl, rfl, rfl, rfl⟩

/-- **The replies of `excute` keep the sending side.** -/
theorem Sends.reply {e e' : Endpoint κ} {replies : List ProtobufProtocol} (h : Sends e)
    (hms : ∀ m ∈ replies, WithinLimits m) (hs : e.reply replies = some e') : Sends e' := by
  obtain ⟨c, hc, rfl⟩ := Option.map_eq_some_iff.mp hs
  have hc := toOption_eq_some.mp hc
  obtain ⟨⟨messages, out⟩, henc, -⟩ := bind_eq_ok.mp hc
  refine ⟨fun m hm => ?_, ?_, h.unsent.reply hc⟩
  · rcases List.mem_append.mp hm with hold | hnew
    · exact h.limits m hold
    · exact hms m hnew
  · show e.out.encoded ++ _ = _
    rw [h.bytes, encodedBytes_eq hms henc, List.map_append, List.flatten_append]

/-- A change of the connection that leaves the output buffer alone. -/
theorem Sends.setConnection {e : Endpoint κ} {c : TcpConnection κ} (h : Sends e)
    (hc : c.outBuffer = e.connection.outBuffer) : Sends (e.setConnection c) where
  limits := h.limits
  bytes := h.bytes
  unsent := ⟨(congrArg readable hc).trans h.unsent.readable, h.unsent.sent⟩

theorem Sends.writeMessage {e : Endpoint κ} (h : Sends e) (message : ProtobufProtocol)
    (done : κ) : Sends (e.writeMessage message done) where
  limits := h.limits
  bytes := h.bytes
  unsent := ⟨h.unsent.readable, h.unsent.sent.1, nofun⟩

/-- What the socket has accepted is the beginning of the frames. -/
theorem Sends.accepted {e : Endpoint κ} (h : Sends e) :
    e.out.accepted <+: (e.sent.map frame).flatten :=
  h.bytes ▸ h.unsent.sent.1

/-! ### The receiving side -/

/-- Of a stream of the frames of `ms`, those of the messages decoded have been taken out, the input
buffer holds what has been read of the others, and a byte of it is spare. -/
structure Receives (e : Endpoint κ) (ms : List ProtobufProtocol) : Prop where
  spare : e.connection.inBuffer.writeIndex < e.connection.inBuffer.size
  stands : ∃ taken coming, (ms.map frame).flatten = e.read ++ coming ∧
    e.decoded = taken.map delivered ∧
    Transit frame ms taken e.connection.inBuffer.readable coming

/-- The kernel gives a call of `on_read` what it may, no read fills the buffer, and `decode` then
comes to no buffer in which an incomplete frame looks like a complete one. -/
structure Calm (c : TcpConnection κ) (ms : List ProtobufProtocol) (results : List ReadResult) :
    Prop where
  script : ReadScript c.inBuffer results
  short : AllShort c.inBuffer.canWriteBytesNum results
  steady : ∀ c' handed, onRead c results = .ok (some (c', some handed)) →
    ∀ t, Loop.Visits decodePass c'.inBuffer t → Steady ms t

variable {ms taken : List ProtobufProtocol} {chunk coming : List UInt8} {b b₁ : TcpBuffer}

theorem Receives.start {c : TcpConnection κ} (hempty : c.inBuffer.readable = [])
    (hspare : c.inBuffer.writeIndex < c.inBuffer.size) : Receives (Endpoint.start c) [] where
  spare := hspare
  stands := by
    refine ⟨[], [], rfl, rfl, ?_⟩
    show Transit frame [] [] c.inBuffer.readable []
    rw [hempty]
    exact .start frame

/-- `decode` takes out the frames that have arrived. -/
theorem decode_transit (hms : ∀ m ∈ ms, WithinLimits m)
    (h : Transit frame ms taken b.readable (chunk ++ coming))
    (hread : b₁.readable = b.readable ++ chunk) (hspare : b₁.writeIndex < b₁.size)
    (hsteady : ∀ t, Loop.Visits decodePass b₁ t → Steady ms t) :
    ∃ t new, Loop.Returns decodePass b₁ t (new.map delivered) ∧
      Transit frame ms (taken ++ new) t.readable coming := by
  obtain ⟨left, rfl, hbytes, -⟩ := h
  rw [← List.append_assoc, ← hread] at hbytes
  obtain ⟨t, new, left, rfl, hret, hrest, hpend⟩ :=
    decode_whole (fun m hm => hms m (List.mem_append_right _ hm))
      (fun m hm => List.mem_append_right _ hm) hbytes hspare hsteady
  exact ⟨t, new, hret, left, (List.append_assoc ..).symm, hrest, hpend⟩

/-- What an end has decoded is, in order, the beginning of what is sent to it. -/
theorem Receives.decoded_isPrefix {e : Endpoint κ} (h : Receives e ms) :
    e.decoded <+: ms.map delivered := by
  obtain ⟨taken, coming, -, hdecoded, htransit⟩ := h.stands
  rw [hdecoded]
  exact htransit.isPrefix.map delivered

/-- **An end that has read everything has decoded everything.** -/
theorem Receives.all {e : Endpoint κ} (h : Receives e ms)
    (hread : e.read = (ms.map frame).flatten) : e.decoded = ms.map delivered := by
  obtain ⟨taken, coming, hbytes, hdecoded, htransit⟩ := h.stands
  rw [hread] at hbytes
  obtain rfl : coming = [] := List.self_eq_append_right.mp hbytes
  rw [hdecoded, (htransit.all frame_ne_nil).1]

/-- More messages are sent to the end. -/
theorem Receives.send {e : Endpoint κ} (h : Receives e ms) (more : List ProtobufProtocol) :
    Receives e (ms ++ more) := by
  obtain ⟨hspare, taken, coming, hbytes, hdecoded, htransit⟩ := h
  refine ⟨hspare, taken, coming ++ (more.map frame).flatten, ?_, hdecoded, htransit.send more⟩
  rw [List.map_append, List.flatten_append, hbytes, List.append_assoc]

/-- Only the input buffer, and what has been read and decoded, matters to the receiving side. -/
theorem Receives.congr {κ' : Type} {e : Endpoint κ} {e' : Endpoint κ'} (h : Receives e ms)
    (hin : e'.connection.inBuffer = e.connection.inBuffer) (hread : e'.read = e.read)
    (hdecoded : e'.decoded = e.decoded) : Receives e' ms where
  spare := hin ▸ h.spare
  stands := by
    rw [hin, hread, hdecoded]
    exact h.stands

/-- The ways in which a call of `on_read` goes: `excute` is not called, or it is, and decodes. -/
theorem Endpoint.onRead_eq_some {e e' : Endpoint κ} {accepted : List UInt8}
    {results : List ReadResult} {fuel : Nat} {r : Option (List ProtobufProtocol)}
    (h : e.onRead accepted results fuel = some (e', r)) :
    e.loops = false ∧ e.read ++ bytesRead e.connection results <+: accepted ∧
      ∃ c, (TinyRpc.onRead e.connection results = .ok (some (c, none)) ∧ r = none ∧
          e' = { e with read := e.read ++ bytesRead e.connection results }.setConnection c) ∨
        ∃ handed inBuffer result,
          TinyRpc.onRead e.connection results = .ok (some (c, some handed)) ∧
          Loop.Returns decodePass c.inBuffer inBuffer result ∧ r = some result ∧
          e' = { { e with read := e.read ++ bytesRead e.connection results }.setConnection
            { c with inBuffer := inBuffer } with decoded := e.decoded ++ result } := by
  obtain ⟨hcond, h⟩ := Option.mem_ite_none_left.mp h
  rw [not_or, not_not] at hcond
  refine ⟨Bool.eq_false_iff.mpr hcond.1, hcond.2, ?_⟩
  dsimp only at h
  split at h
  · rename_i c hread
    obtain ⟨rfl, rfl⟩ := Prod.mk.inj (Option.some.inj h)
    exact ⟨c, .inl ⟨hread, rfl, rfl⟩⟩
  · rename_i c handed hread
    split at h
    · rename_i inBuffer result hdecode
      obtain ⟨rfl, rfl⟩ := Prod.mk.inj (Option.some.inj h)
      exact ⟨c, .inr ⟨handed, inBuffer, result, hread, ⟨fuel, hdecode⟩, rfl, rfl⟩⟩
    · cases h
  · cases h

/-- The input buffer after the loop of a calm call. -/
theorem Calm.readLoop {c : TcpConnection κ} {results : List ReadResult} (h : Calm c ms results)
    (hspare : c.inBuffer.writeIndex < c.inBuffer.size) {exit : ReadExit}
    (hloop : readLoop results c.inBuffer = .ok (some (b, exit))) :
    b.readable = c.inBuffer.readable ++ received results ∧ b.writeIndex < b.size ∧
      (exit = .close → received results = []) := by
  obtain ⟨b', exit', hkeeps⟩ := readLoop_spec hspare h.script
  obtain ⟨rfl, rfl⟩ := Prod.mk.inj (Option.some.inj (Except.ok.inj (hloop.symm.trans hkeeps.loop)))
  have hall := (hkeeps.readable_iff hspare).mpr h.short
  refine ⟨hall, hkeeps.spare, fun hclose => ?_⟩
  -- nothing was kept, so nothing was read
  have hkept := hkeeps.readable
  rw [hkeeps.kept_eq_nil hclose, List.append_nil, hall] at hkept
  exact List.self_eq_append_right.mp hkept.symm

/-- What `on_read` leaves alone. -/
theorem onRead_eq {c c' : TcpConnection κ} {results : List ReadResult}
    {handed : Option (List UInt8)} (h : onRead c results = .ok (some (c', handed))) :
    c'.outBuffer = c.outBuffer ∧ c'.connectionType = c.connectionType ∧
      c'.writeDones = c.writeDones ∧ c'.readDones = c.readDones := by
  rcases onRead_cases h with ⟨-, rfl, -⟩ | ⟨-, b, -, rfl, -⟩ | ⟨-, b, -, rfl, -⟩
  · exact ⟨rfl, rfl, rfl, rfl⟩
  · unfold TcpConnection.clear
    split
    · exact ⟨rfl, rfl, rfl, rfl⟩
    · exact ⟨rfl, rfl, rfl, rfl⟩
  · exact ⟨rfl, rfl, rfl, rfl⟩

/-- `e'` is what a call of `on_read` on `e` leaves that ends with the messages of `r`: the sending
side and the callbacks are those of `e`. -/
structure Endpoint.ReadOn (e e' : Endpoint κ) (r : Option (List ProtobufProtocol)) : Prop where
  sent : e'.sent = e.sent
  accepted : e'.out.accepted = e.out.accepted
  encoded : e'.out.encoded = e.out.encoded
  cancelled : e'.out.cancelled = e.out.cancelled
  loops : e'.loops = e.loops
  decoded : e'.decoded = e.decoded ++ r.getD []
  outBuffer : e'.connection.outBuffer = e.connection.outBuffer
  connectionType : e'.connection.connectionType = e.connection.connectionType
  writeDones : e'.connection.writeDones = e.connection.writeDones
  readDones : e'.connection.readDones = e.connection.readDones

theorem Endpoint.readOn {e e' : Endpoint κ} {accepted : List UInt8} {results : List ReadResult}
    {fuel : Nat} {r : Option (List ProtobufProtocol)}
    (h : e.onRead accepted results fuel = some (e', r)) : e.ReadOn e' r := by
  obtain ⟨-, -, c, ⟨hcall, rfl, rfl⟩ | ⟨handed, inBuffer, result, hcall, -, rfl, rfl⟩⟩ :=
    Endpoint.onRead_eq_some h
  · obtain ⟨hout, htype, hwrite, hread⟩ := onRead_eq hcall
    exact ⟨rfl, rfl, rfl, rfl, rfl, (List.append_nil _).symm, hout, htype, hwrite, hread⟩
  · obtain ⟨hout, htype, hwrite, hread⟩ := onRead_eq hcall
    exact ⟨rfl, rfl, rfl, rfl, rfl, rfl, hout, htype, hwrite, hread⟩

theorem Sends.onRead {e e' : Endpoint κ} {r : Option (List ProtobufProtocol)} (h : Sends e)
    (hs : e.ReadOn e' r) : Sends e' where
  limits := hs.sent ▸ h.limits
  bytes := by
    rw [hs.encoded, hs.sent]
    exact h.bytes
  unsent := by
    refine ⟨?_, ?_, ?_⟩
    · rw [hs.outBuffer, hs.encoded]
      exact h.unsent.readable
    · rw [hs.accepted, hs.encoded]
      exact h.unsent.sent.1
    · rw [hs.cancelled, hs.accepted, hs.encoded]
      exact h.unsent.sent.2

/-- **A calm `on_read` keeps the receiving side.** -/
theorem Receives.onRead {e e' : Endpoint κ} {accepted : List UInt8} {results : List ReadResult}
    {fuel : Nat} {r : Option (List ProtobufProtocol)} (h : Receives e ms)
    (hms : ∀ m ∈ ms, WithinLimits m) (haccepted : accepted <+: (ms.map frame).flatten)
    (hcalm : e.connection.state = .connected → Calm e.connection ms results)
    (hs : e.onRead accepted results fuel = some (e', r)) : Receives e' ms := by
  obtain ⟨-, hread, c, hcall⟩ := Endpoint.onRead_eq_some hs
  obtain ⟨hspare, taken, coming, hbytes, hdecoded, htransit⟩ := h
  obtain ⟨behind, hbehind⟩ := hread.trans haccepted
  rw [List.append_assoc, hbytes, List.append_cancel_left_eq] at hbehind
  rw [← hbehind, ← List.append_assoc] at hbytes
  subst hbehind
  rcases hcall with ⟨hcall, -, rfl⟩ | ⟨handed, inBuffer, result, hcall, hret, -, rfl⟩
  · rcases onRead_cases hcall with ⟨hnot, rfl, -⟩ | ⟨hc, b, hloop, rfl, -⟩ | ⟨-, b, -, -, hsome⟩
    · -- nothing is read on a connection that is not up
      have hnil : bytesRead e.connection results = [] := if_neg hnot
      rw [hnil] at htransit
      exact ⟨hspare, taken, behind, hbytes, hdecoded, htransit⟩
    · obtain ⟨hreadable, hspare', hclose⟩ := (hcalm hc).readLoop hspare hloop
      have hnil : bytesRead e.connection results = [] := (if_pos hc).trans (hclose rfl)
      have hin : ({ e.connection with inBuffer := b }.clear).inBuffer = b :=
        TcpConnection.clear_inBuffer _
      rw [hclose rfl, List.append_nil] at hreadable
      rw [hnil] at htransit
      refine ⟨?_, taken, behind, hbytes, hdecoded, ?_⟩
      · show ({ e.connection with inBuffer := b }.clear).inBuffer.writeIndex <
          ({ e.connection with inBuffer := b }.clear).inBuffer.size
        rwa [hin]
      · show Transit frame ms taken ({ e.connection with inBuffer := b }.clear).inBuffer.readable _
        rw [hin, hreadable]
        exact htransit
    · cases hsome
  · rcases onRead_cases hcall with ⟨-, -, hnone⟩ | ⟨-, b, -, -, hnone⟩ | ⟨hc, b, hloop, rfl, hsome⟩
    · cases hnone
    · cases hnone
    · obtain ⟨hreadable, hspare', -⟩ := (hcalm hc).readLoop hspare hloop
      rw [bytesRead, if_pos hc] at htransit hbytes
      obtain ⟨t, new, hret', htransit'⟩ :=
        decode_transit hms htransit hreadable hspare' ((hcalm hc).steady _ _ hcall)
      obtain ⟨rfl, rfl⟩ := hret.unique hret'
      refine ⟨spare_of_returns hspare' hret, taken ++ new, behind, ?_, ?_, htransit'⟩
      · show (ms.map frame).flatten = e.read ++ bytesRead e.connection results ++ behind
        rw [bytesRead, if_pos hc]
        exact hbytes
      · show e.decoded ++ new.map delivered = _
        rw [hdecoded, List.map_append]

/-! ### Reads that end with a frame -/

/-- Whole frames are not a part of one frame. -/
theorem Incomplete.eq_nil {left : List ProtobufProtocol}
    (hfit : ∀ m ∈ ms, m.frameLength < 2147483648) (hsub : left ⊆ ms)
    (hread : b.readable = (left.map frame).flatten) (h : Incomplete ms b) : left = [] := by
  obtain ⟨m, hm, q, hframe, hq⟩ := h
  rcases left with - | ⟨m', left⟩
  · rfl
  · rw [hread, List.map_cons, List.flatten_cons, List.append_assoc] at hframe
    have hm' := hsub List.mem_cons_self
    -- both frames say how long they are
    obtain ⟨-, hrest⟩ := tells_frame m m' ⟨hfit m hm, hfit m' hm'⟩ [] _
      ((List.append_nil _).trans hframe)
    exact absurd (List.append_eq_nil_iff.mp hrest.symm).2 hq

/-- **`decode` is not misled by whole frames**: it takes them out one by one, and no buffer that it
comes to holds an incomplete one. -/
theorem steady_of_whole {left : List ProtobufProtocol} (hms : ∀ m ∈ ms, WithinLimits m)
    (hfit : ∀ m ∈ ms, m.frameLength < 2147483648) (hsub : left ⊆ ms)
    (hread : b.readable = (left.map frame).flatten) (hspare : b.writeIndex < b.size)
    {t : TcpBuffer} (ht : Loop.Visits decodePass b t) : Steady ms t := by
  have hwhole : ∃ left ⊆ ms, t.readable = (left.map frame).flatten ∧ t.writeIndex < t.size := by
    refine ht.invariant (I := fun t => ∃ left ⊆ ms, t.readable = (left.map frame).flatten ∧
      t.writeIndex < t.size) ?_ ⟨left, hsub, hread, hspare⟩
    rintro t t' out ⟨left, hsub, hread, hspare⟩ hpass
    rcases left with - | ⟨m, left⟩
    · rw [decodePass_eq_none.mpr (quiet_of_readable_nil hread)] at hpass
      cases hpass
    · obtain ⟨t₁, hpass₁, hread₁, hspare₁⟩ :=
        decodePass_of_frame (hms m (hsub List.mem_cons_self)) hread hspare
      rw [hpass₁] at hpass
      obtain ⟨rfl, -⟩ := Prod.mk.inj (Option.some.inj (Except.ok.inj hpass))
      exact ⟨left, fun m' hm' => hsub (List.mem_cons_of_mem m hm'), hread₁, hspare₁⟩
  obtain ⟨left, hsub, hread, -⟩ := hwhole
  intro hpart
  obtain rfl := hpart.eq_nil hfit hsub hread
  exact quiet_of_readable_nil hread

/-- The call of `on_read` reads once, and all that has been sent and not been read; and no frame is
too long for an `int`. -/
def ReadsAll (e : Endpoint κ) (ms : List ProtobufProtocol) : List ReadResult → Prop
  | [.data bytes] =>
      0 < bytes.length ∧ bytes.length < e.connection.inBuffer.canWriteBytesNum ∧
        e.read ++ bytes = (ms.map frame).flatten ∧ ∀ m ∈ ms, m.frameLength < 2147483648
  | _ => False

instance decidableReadsAll (e : Endpoint κ) (ms : List ProtobufProtocol) :
    ∀ results, Decidable (ReadsAll e ms results)
  | [.data bytes] =>
      inferInstanceAs (Decidable (0 < bytes.length ∧
        bytes.length < e.connection.inBuffer.canWriteBytesNum ∧
        e.read ++ bytes = (ms.map frame).flatten ∧ ∀ m ∈ ms, m.frameLength < 2147483648))
  | [] => isFalse id
  | [.eof] => isFalse id
  | [.again] => isFalse id
  | [.error] => isFalse id
  | .data _ :: _ :: _ => isFalse id
  | .eof :: _ :: _ => isFalse id
  | .again :: _ :: _ => isFalse id
  | .error :: _ :: _ => isFalse id

theorem ReadsAll.eq_data {e : Endpoint κ} {results : List ReadResult} (h : ReadsAll e ms results) :
    ∃ bytes, results = [.data bytes] := by
  unfold ReadsAll at h
  split at h
  · exact ⟨_, rfl⟩
  · cases h

theorem ReadsAll.script {e : Endpoint κ} {results : List ReadResult} (h : ReadsAll e ms results) :
    ReadScript e.connection.inBuffer results := by
  obtain ⟨bytes, rfl⟩ := h.eq_data
  obtain ⟨hpos, hlt, -⟩ := h
  exact .short (if_neg (by omega)) hpos hlt

/-- What a call that reads all leaves in the input buffer: the frames of the messages that have not
been decoded. -/
theorem Receives.whole {e : Endpoint κ} {bytes : List UInt8} (h : Receives e ms)
    (hall : e.read ++ bytes = (ms.map frame).flatten) :
    ∃ taken left, ms = taken ++ left ∧ e.decoded = taken.map delivered ∧
      e.connection.inBuffer.readable ++ bytes = (left.map frame).flatten := by
  obtain ⟨-, taken, coming, hbytes, hdecoded, left, rfl, hheld, -⟩ := h
  rw [← hall, List.append_cancel_left_eq] at hbytes
  exact ⟨taken, left, rfl, hdecoded, hbytes ▸ hheld⟩

theorem readLoop_data {bytes : List UInt8} (hlt : bytes.length < b.canWriteBytesNum) :
    readLoop [.data bytes] b = .ok (some (b.readIn bytes, .readAll)) := by
  have hroom : ¬ b.canWriteBytesNum = 0 := by omega
  rw [readLoop, growIfFull, if_neg hroom, ok_bind]
  exact if_pos hlt

/-- **A call that reads all is calm.** -/
theorem Receives.calm {e : Endpoint κ} {results : List ReadResult} (h : Receives e ms)
    (hms : ∀ m ∈ ms, WithinLimits m) (hall : ReadsAll e ms results) :
    Calm e.connection ms results := by
  have hspare := h.spare
  have hscript := hall.script
  obtain ⟨bytes, rfl⟩ := hall.eq_data
  obtain ⟨-, hlt, hread, hfit⟩ := hall
  refine ⟨hscript, ?_, fun c' handed hcall t ht => ?_⟩
  · intro bytes' hmem
    obtain rfl := ReadResult.data.inj (List.mem_singleton.mp hmem)
    exact hlt
  · obtain ⟨taken, left, rfl, -, hheld⟩ := h.whole hread
    rcases onRead_cases hcall with ⟨-, -, hnone⟩ | ⟨-, b, -, -, hnone⟩ | ⟨-, b, hloop, rfl, -⟩
    · cases hnone
    · cases hnone
    · rw [readLoop_data hlt] at hloop
      obtain ⟨rfl, -⟩ := Prod.mk.inj (Option.some.inj (Except.ok.inj hloop))
      have hroom' : e.connection.inBuffer.writeIndex + bytes.length <
          e.connection.inBuffer.size := by
        rw [canWriteBytesNum] at hlt
        omega
      refine steady_of_whole hms hfit (List.subset_append_right taken left) ?_
        (readIn_spare hspare) ht
      rw [← hheld]
      exact readable_readIn hroom'

end TinyRpc
