/-
TinyRpc/Resends.lean

What a conversation does when its sockets accept bytes more than once.

`on_write` sends the output buffer from its first byte and never takes anything out of it.
So each call that the socket lets through sends all messages of the connection again, the
old ones in front of the new ones: a round.  The peer decodes the rounds one behind the
other, a server dispatches each request once for every round since it was written, and
answers it as often: `session_repeats`.  It holds however the calls of the two sides
interleave, as long as no socket accepts a part of what it is given.
-/
import TinyRpc.Session

namespace TinyRpc

open Checked Bytes TcpBuffer ProtobufProtocol Runs Framing

variable {M κ : Type}

/-! ### The rounds of one side -/

/-- No call of `::write` accepts a part of the `n` bytes. -/
def WholeOrNothing (n : Nat) (results : List WriteResult) : Prop :=
  ∀ r ∈ results, r.count = 0 ∨ n ≤ r.count

/-- The messages encoded are within the limits, all of them are in the output buffer, and the socket
has accepted `rounds`: each has the messages of the one before it, and then more. -/
structure Resends (e : Endpoint κ) (rounds : List (List ProtobufProtocol)) : Prop where
  limits : ∀ m ∈ e.sent, WithinLimits m
  bytes : e.out.encoded = (e.sent.map frame).flatten
  readable : e.connection.outBuffer.readable = e.out.encoded
  accepted : e.out.accepted = (rounds.flatten.map frame).flatten
  grows : rounds.Pairwise (· <+: ·)
  isPrefix : ∀ round ∈ rounds, round <+: e.sent

/-- What a call of `on_write` adds to the rounds. -/
def newRound (e e' : Endpoint κ) : List (List ProtobufProtocol) :=
  if e'.out.accepted = e.out.accepted then [] else [e'.sent]

section Side

variable {e e' : Endpoint κ} {rounds : List (List ProtobufProtocol)} {out : TcpBuffer}
  {results : List WriteResult} {w : Written κ}

/-- The loop of `on_write` sends everything or nothing. -/
theorem writeLoop_whole (h : WholeOrNothing out.readable.length results) :
    (writeLoop out results).1 = [] ∨ (writeLoop out results).1 = out.readable := by
  by_cases h₀ : out.canReadBytesNum = 0
  · rw [writeLoop_empty h₀]
    exact .inl rfl
  induction results with
  | nil =>
      have hloop : writeLoop out [] = ([], .looping) := if_neg h₀
      rw [hloop]
      exact .inl rfl
  | cons r results ih =>
      have hrest : WholeOrNothing out.readable.length results :=
        fun r hr => h r (List.mem_cons_of_mem _ hr)
      cases r with
      | again =>
          rw [writeLoop_again h₀]
          exact .inl rfl
      | error =>
          rw [writeLoop_error h₀]
          exact ih hrest
      | accepted count =>
          rcases h _ List.mem_cons_self with hnone | hall
          · obtain rfl : count = 0 := hnone
            rw [writeLoop_part h₀ (Nat.pos_of_ne_zero h₀), List.take_zero, List.nil_append]
            exact ih hrest
          · have hall : out.canReadBytesNum ≤ count := (length_readable out).symm.trans_le hall
            rw [writeLoop_all h₀ hall]
            exact .inr rfl

theorem Resends.start {c : TcpConnection κ} (hempty : c.outBuffer.readable = []) :
    Resends (Endpoint.start c) [] where
  limits := nofun
  bytes := hempty
  readable := rfl
  accepted := rfl
  grows := .nil
  isPrefix := nofun

/-- The messages of the rounds are within the limits. -/
theorem Resends.rounds_limits (h : Resends e rounds) : ∀ m ∈ rounds.flatten, WithinLimits m := by
  intro m hm
  obtain ⟨round, hround, hm⟩ := List.mem_flatten.mp hm
  exact h.limits m ((h.isPrefix round hround).subset hm)

/-- More messages, encoded behind the others. -/
theorem Resends.encode (h : Resends e rounds) {ms : List ProtobufProtocol}
    (hms : ∀ m ∈ ms, WithinLimits m) (hsent : e'.sent = e.sent ++ ms)
    (hencoded : e'.out.encoded = e.out.encoded ++ (ms.map frame).flatten)
    (hreadable : e'.connection.outBuffer.readable = e'.out.encoded)
    (haccepted : e'.out.accepted = e.out.accepted) : Resends e' rounds where
  limits m hm := by
    rw [hsent] at hm
    rcases List.mem_append.mp hm with hold | hnew
    · exact h.limits m hold
    · exact hms m hnew
  bytes := by rw [hencoded, hsent, h.bytes, List.map_append, List.flatten_append]
  readable := hreadable
  accepted := haccepted.trans h.accepted
  grows := h.grows
  isPrefix round hround := by
    rw [hsent]
    exact (h.isPrefix round hround).trans (List.prefix_append _ _)

/-- The socket accepts the output buffer once more. -/
theorem Resends.round (h : Resends e rounds) (hsent : e'.sent = e.sent)
    (hencoded : e'.out.encoded = e.out.encoded)
    (hreadable : e'.connection.outBuffer.readable = e'.out.encoded)
    (haccepted : e'.out.accepted = e.out.accepted ++ e.out.encoded) :
    Resends e' (rounds ++ [e.sent]) where
  limits := hsent ▸ h.limits
  bytes := by rw [hencoded, hsent, h.bytes]
  readable := hreadable
  accepted := by
    rw [haccepted, h.accepted, h.bytes, List.flatten_append, List.flatten_singleton,
      List.map_append, List.flatten_append]
  grows := by
    refine List.pairwise_append.mpr ⟨h.grows, List.pairwise_singleton _ _, ?_⟩
    intro round hround last hlast
    obtain rfl := List.mem_singleton.mp hlast
    exact h.isPrefix round hround
  isPrefix round hround := by
    rw [hsent]
    rcases List.mem_append.mp hround with hold | hnew
    · exact h.isPrefix round hold
    · obtain rfl := List.mem_singleton.mp hnew
      exact List.prefix_rfl

/-- What `on_write` does to the buffers, connected or not. -/
theorem onWrite_sends {c : TcpConnection κ} (h : onWrite c results = .ok w) :
    w.connection.outBuffer.readable = c.outBuffer.readable ++ encodedBytes (toEncode c) ∧
      (w.sent = [] ∨ w.sent = (writeLoop w.connection.outBuffer results).1) := by
  by_cases hc : c.state = .connected
  · obtain ⟨hread, hloop⟩ := onWrite_connected hc h
    exact ⟨hread, .inr (congrArg Prod.fst hloop).symm⟩
  · have hnone : toEncode c = [] := if_neg fun hand => hc hand.1
    rw [onWrite_disconnected hc] at h
    obtain rfl := Except.ok.inj h
    rw [hnone]
    exact ⟨(List.append_nil _).symm, .inl rfl⟩

/-- **A call of `on_write` sends a round or nothing.** -/
theorem Resends.onWrite (h : Resends e rounds)
    (hms : ∀ m ∈ toEncode e.connection, WithinLimits m)
    (hwhole : WholeOrNothing (e.out.encoded ++ encodedBytes (toEncode e.connection)).length results)
    (hw : e.Wrote e' results w) : Resends e' (rounds ++ newRound e e') := by
  obtain ⟨hread, hsent⟩ := onWrite_sends hw.call
  rw [← h.readable, ← hread] at hwhole
  have hnew : encodedBytes (toEncode e.connection) =
      ((toEncode e.connection).map frame).flatten := by
    rcases encode_of_onWrite hw.call with hnil | ⟨r, henc⟩
    · rw [hnil]
      rfl
    · exact encodedBytes_eq hms henc
  have hencoded : e'.out.encoded =
      e.out.encoded ++ ((toEncode e.connection).map frame).flatten := by
    rw [hw.out, ← hnew]
  have hreadable : e'.connection.outBuffer.readable = e'.out.encoded := by
    rw [hencoded, ← h.readable, ← hnew, ← hread, hw.connection_eq]
  have haccepted : e'.out.accepted = e.out.accepted ++ w.sent := congrArg Outgoing.accepted hw.out
  by_cases hnone : w.sent = []
  · rw [hnone, List.append_nil] at haccepted
    rw [newRound, if_pos haccepted, List.append_nil]
    exact h.encode hms hw.sent hencoded hreadable haccepted
  · have hround : newRound e e' = [e'.sent] := by
      refine if_neg fun hsame => hnone ?_
      rw [haccepted] at hsame
      exact List.self_eq_append_right.mp hsame.symm
    have hall : w.sent = w.connection.outBuffer.readable := by
      rcases hsent with hnil | hloop
      · exact absurd hnil hnone
      · rcases writeLoop_whole hwhole with hnil | hall
        · exact absurd (hloop.trans hnil) hnone
        · exact hloop.trans hall
    -- the messages that waited are encoded first, and then everything is sent
    have hencode : Resends { e' with out := { e'.out with accepted := e.out.accepted } } rounds :=
      h.encode hms hw.sent hencoded hreadable rfl
    rw [hround]
    refine hencode.round rfl rfl hreadable ?_
    show e'.out.accepted = e.out.accepted ++ e'.out.encoded
    rw [haccepted, hall, ← hreadable, hw.connection_eq]

theorem Resends.reply {replies : List ProtobufProtocol} (h : Resends e rounds)
    (hms : ∀ m ∈ replies, WithinLimits m) (hs : e.reply replies = some e') :
    Resends e' rounds := by
  obtain ⟨c, hc, rfl⟩ := Option.map_eq_some_iff.mp hs
  obtain ⟨⟨messages, out⟩, henc, hout⟩ := bind_eq_ok.mp (toOption_eq_some.mp hc)
  obtain rfl := Except.ok.inj hout
  have hbytes := encodedBytes_eq hms henc
  refine h.encode hms rfl ?_ ?_ rfl
  · show e.out.encoded ++ encodedBytes replies = _
    rw [hbytes]
  · show out.readable = e.out.encoded ++ encodedBytes replies
    rw [readable_encode henc, h.readable]

theorem Resends.onRead {r : Option (List ProtobufProtocol)} (h : Resends e rounds)
    (hs : e.ReadOn e' r) : Resends e' rounds where
  limits := hs.sent ▸ h.limits
  bytes := by rw [hs.encoded, hs.sent, h.bytes]
  readable := by rw [hs.outBuffer, hs.encoded, h.readable]
  accepted := hs.accepted.trans h.accepted
  grows := h.grows
  isPrefix := hs.sent ▸ h.isPrefix

theorem Resends.congr (h : Resends e rounds) (hsent : e'.sent = e.sent)
    (haccepted : e'.out.accepted = e.out.accepted) (hencoded : e'.out.encoded = e.out.encoded)
    (hout : e'.connection.outBuffer = e.connection.outBuffer) : Resends e' rounds where
  limits := hsent ▸ h.limits
  bytes := by rw [hencoded, hsent, h.bytes]
  readable := by rw [hout, hencoded, h.readable]
  accepted := haccepted.trans h.accepted
  grows := h.grows
  isPrefix := hsent ▸ h.isPrefix

end Side

/-! ### Both sides -/

/-- A conversation, with the rounds of requests and of responses that its sockets have accepted. -/
structure Rounds (κ : Type) where
  session : Session κ
  requests : List (List ProtobufProtocol)
  responses : List (List ProtobufProtocol)

def roundStep (services : Nat → ServiceMap M) : Step (Rounds κ) (SessionEvent κ) := fun r event =>
  (sessionStep services r.session event).map fun s =>
    { session := s
      requests := r.requests ++ newRound r.session.client s.client
      responses := r.responses ++ newRound r.session.server s.server }

def Rounds.start (κ : Type) : Rounds κ := ⟨Session.start κ, [], []⟩

/-- The requests are within the limits, no socket accepts a part of what it is given, and the reads
are calm. -/
def Whole (r : Rounds κ) : SessionEvent κ → Prop
  | .writeMessage message _ => WithinLimits message
  | .clientWrite results =>
      WholeOrNothing (r.session.client.out.encoded ++
        encodedBytes (toEncode r.session.client.connection)).length results
  | .serverRead results _ =>
      r.session.server.connection.state = .connected →
        Calm r.session.server.connection r.requests.flatten results
  | .serverWrite results =>
      WholeOrNothing (r.session.server.out.encoded ++
        encodedBytes (toEncode r.session.server.connection)).length results
  | .clientRead results _ =>
      r.session.client.connection.state = .connected →
        Calm r.session.client.connection r.responses.flatten results

/-- Each round has all messages of the round before it; the server has dispatched the requests of
the first rounds, each as often as it comes in them, and answered as often; and the client has got
the responses of the first rounds. -/
structure Repeats (services : Nat → ServiceMap M) (r : Rounds κ) : Prop where
  requests_grow : r.requests.Pairwise (· <+: ·)
  dispatched : r.session.server.decoded <+: r.requests.flatten.map delivered
  answered : r.session.server.sent = dispatchAll services 0 r.session.server.decoded
  responses_grow : r.responses.Pairwise (· <+: ·)
  received : r.session.client.decoded <+: r.responses.flatten.map delivered
  all_dispatched : r.session.server.read = r.session.client.out.accepted →
    r.session.server.decoded = r.requests.flatten.map delivered
  all_received : r.session.client.read = r.session.server.out.accepted →
    r.session.client.decoded = r.responses.flatten.map delivered

/-- What every step keeps. -/
structure Sending (services : Nat → ServiceMap M) (r : Rounds κ) : Prop where
  clientType : r.session.client.connection.connectionType = .tcpConnectionByClient
  serverType : r.session.server.connection.connectionType = .tcpConnectionByServer
  waiting : r.session.client.loops = false →
    ∀ call ∈ r.session.client.connection.writeDones, WithinLimits call.1
  client : Resends r.session.client r.requests
  server : Resends r.session.server r.responses
  toServer : Receives r.session.server r.requests.flatten
  toClient : Receives r.session.client r.responses.flatten
  answered : r.session.server.sent = dispatchAll services 0 r.session.server.decoded

section Runs

variable {services : Nat → ServiceMap M} {r r' : Rounds κ}

theorem Sending.start : Sending services (Rounds.start κ) where
  clientType := rfl
  serverType := rfl
  waiting _ := nofun
  client := Resends.start (readable_ofSize 128 bufferSize_lt)
  server := Resends.start (readable_ofSize 128 bufferSize_lt)
  toServer := Receives.start (readable_ofSize 128 bufferSize_lt) fresh_spare
  toClient := Receives.start (readable_ofSize 128 bufferSize_lt) fresh_spare
  answered := rfl

theorem Sending.repeats (h : Sending services r) : Repeats services r where
  requests_grow := h.client.grows
  dispatched := h.toServer.decoded_isPrefix
  answered := h.answered
  responses_grow := h.server.grows
  received := h.toClient.decoded_isPrefix
  all_dispatched hread := h.toServer.all (hread.trans h.client.accepted)
  all_received hread := h.toClient.all (hread.trans h.server.accepted)

/-- A side whose socket accepts nothing has no new round. -/
theorem newRound_of_eq {κ' : Type} {e e' : Endpoint κ'} (h : e'.out.accepted = e.out.accepted) :
    newRound e e' = [] := if_pos h

/-- What waits in the queue of a client after an `on_write`. -/
theorem writeDones_of_onWrite {c : TcpConnection κ} {results : List WriteResult} {w : Written κ}
    (hc : c.connectionType = .tcpConnectionByClient)
    (hlimits : ∀ call ∈ c.writeDones, WithinLimits call.1) (h : onWrite c results = .ok w)
    (hexit : w.exit ≠ .looping) : ∀ call ∈ w.connection.writeDones, WithinLimits call.1 := by
  rcases writes_of_onWrite hc hlimits h with ⟨-, rfl⟩ | ⟨-, hloops, -⟩ | ⟨-, -, hnil, -⟩
  · exact hlimits
  · exact absurd hloops hexit
  · rw [hnil]
    exact nofun

theorem Sending.clientWrite (h : Sending services r) {results : List WriteResult}
    (hwhole : Whole r (.clientWrite results))
    (hs : r' ∈ roundStep services r (.clientWrite results)) : Sending services r' := by
  obtain ⟨s, hstep, rfl⟩ := Option.map_eq_some_iff.mp hs
  obtain ⟨⟨client, called⟩, hwrite, rfl⟩ := Option.map_eq_some_iff.mp hstep
  obtain ⟨w, hw, rfl⟩ := Endpoint.wrote hwrite
  have hlimits := h.waiting hw.returned
  have hms : ∀ m ∈ toEncode r.session.client.connection, WithinLimits m := by
    intro m hm
    unfold toEncode at hm
    split at hm
    · obtain ⟨call, hcall, rfl⟩ := List.mem_map.mp hm
      exact hlimits call hcall
    · exact absurd hm List.not_mem_nil
  have hrounds := h.client.onWrite hms hwhole hw
  obtain ⟨hin, htype, -⟩ := onWrite_frame hw.call
  obtain ⟨hin', hout', htype', hwrite'⟩ := @readMessages_eq κ w.connection w.called
  dsimp only
  rw [hw.connection_eq]
  refine ⟨htype'.trans (htype.trans h.clientType), h.serverType, fun hloops => ?_,
    hrounds.congr rfl rfl rfl
      (hout'.trans (congrArg TcpConnection.outBuffer hw.connection_eq.symm)), ?_, ?_, ?_,
    h.answered⟩
  · have hexit : w.exit ≠ .looping := by
      intro hexit
      have hloops' := hloops.symm.trans hw.loops
      rw [hexit] at hloops'
      cases hloops'
    show ∀ call ∈ (w.connection.readMessages w.called).writeDones, WithinLimits call.1
    rw [hwrite']
    exact writeDones_of_onWrite h.clientType hlimits hw.call hexit
  · rw [newRound_of_eq rfl, List.append_nil]
    exact h.server
  · rw [List.flatten_append]
    exact h.toServer.send _
  · rw [newRound_of_eq rfl, List.append_nil]
    exact h.toClient.congr (hin'.trans hin) hw.read hw.decoded

theorem Sending.serverWrite (h : Sending services r) {results : List WriteResult}
    (hwhole : Whole r (.serverWrite results))
    (hs : r' ∈ roundStep services r (.serverWrite results)) : Sending services r' := by
  obtain ⟨s, hstep, rfl⟩ := Option.map_eq_some_iff.mp hs
  obtain ⟨⟨server, called⟩, hwrite, rfl⟩ := Option.map_eq_some_iff.mp hstep
  obtain ⟨w, hw, -⟩ := Endpoint.wrote hwrite
  have hnone : toEncode r.session.server.connection = [] := by
    refine if_neg fun hclient => ?_
    have htype := h.serverType.symm.trans hclient.2
    cases htype
  have hrounds := h.server.onWrite (by rw [hnone]; exact nofun) hwhole hw
  obtain ⟨hin, htype, -⟩ := onWrite_frame hw.call
  have hsent := hw.sent
  rw [hnone, List.append_nil] at hsent
  refine ⟨h.clientType, ?_, h.waiting, ?_, hrounds, ?_, ?_, ?_⟩
  · show server.connection.connectionType = _
    rw [hw.connection_eq, htype]
    exact h.serverType
  · rw [newRound_of_eq rfl, List.append_nil]
    exact h.client
  · rw [newRound_of_eq rfl, List.append_nil]
    exact h.toServer.congr ((congrArg TcpConnection.inBuffer hw.connection_eq).trans hin) hw.read
      hw.decoded
  · rw [List.flatten_append]
    exact h.toClient.send _
  · show server.sent = dispatchAll services 0 server.decoded
    rw [hsent, hw.decoded]
    exact h.answered

theorem Sending.serverRead (h : Sending services r) {results : List ReadResult} {fuel : Nat}
    (hcalm : Whole r (.serverRead results fuel))
    (hs : r' ∈ roundStep services r (.serverRead results fuel)) : Sending services r' := by
  obtain ⟨s, hstep, rfl⟩ := Option.map_eq_some_iff.mp hs
  obtain ⟨⟨server, result⟩, hread, hstep⟩ := Option.bind_eq_some_iff.mp hstep
  have hon := Endpoint.readOn hread
  have hlimits := h.client.rounds_limits
  have hreceives := h.toServer.onRead hlimits (h.client.accepted ▸ List.prefix_rfl) hcalm hread
  have hserver := h.server.onRead hon
  cases result with
  | none =>
      obtain rfl := Option.some.inj hstep
      have hdecoded := hon.decoded.trans (List.append_nil _)
      refine ⟨h.clientType, hon.connectionType.trans h.serverType, h.waiting, ?_, ?_, ?_, ?_, ?_⟩
      · rw [newRound_of_eq rfl, List.append_nil]
        exact h.client
      · rw [newRound_of_eq hon.accepted, List.append_nil]
        exact hserver
      · rw [newRound_of_eq rfl, List.append_nil]
        exact hreceives
      · rw [newRound_of_eq hon.accepted, List.append_nil]
        exact h.toClient
      · show server.sent = dispatchAll services 0 server.decoded
        rw [hon.sent, hdecoded]
        exact h.answered
  | some requests =>
      obtain ⟨server', hreply, rfl⟩ := Option.map_eq_some_iff.mp hstep
      have hreplied := Endpoint.replied hreply
      have hdecoded : server.decoded = r.session.server.decoded ++ requests := hon.decoded
      have hrequests : ∀ m ∈ requests, WithinLimits m := by
        intro m hm
        have hmem : m ∈ server.decoded := hdecoded ▸ List.mem_append_right _ hm
        obtain ⟨m', hm', rfl⟩ := List.mem_map.mp (hreceives.decoded_isPrefix.subset hmem)
        exact withinLimits_delivered (hlimits m' hm')
      have haccepted : server'.out.accepted = r.session.server.out.accepted := by
        obtain ⟨c, -, rfl⟩ := Option.map_eq_some_iff.mp hreply
        exact hon.accepted
      refine ⟨h.clientType, hreplied.connectionType.trans (hon.connectionType.trans h.serverType),
        h.waiting, ?_, ?_, ?_, ?_, ?_⟩
      · rw [newRound_of_eq rfl, List.append_nil]
        exact h.client
      · rw [newRound_of_eq haccepted, List.append_nil]
        exact hserver.reply (dispatchAll_withinLimits hrequests) hreply
      · rw [newRound_of_eq rfl, List.append_nil]
        exact hreceives.congr hreplied.inBuffer hreplied.read hreplied.decoded
      · rw [newRound_of_eq haccepted, List.append_nil]
        exact h.toClient
      · show server'.sent = dispatchAll services 0 server'.decoded
        rw [hreplied.sent, hon.sent, hreplied.decoded, hdecoded, dispatchAll_append, h.answered,
          Nat.zero_add]

theorem Sending.clientRead (h : Sending services r) {results : List ReadResult} {fuel : Nat}
    (hcalm : Whole r (.clientRead results fuel))
    (hs : r' ∈ roundStep services r (.clientRead results fuel)) : Sending services r' := by
  obtain ⟨s, hstep, rfl⟩ := Option.map_eq_some_iff.mp hs
  obtain ⟨⟨client, result⟩, hread, rfl⟩ := Option.map_eq_some_iff.mp hstep
  have hon := Endpoint.readOn hread
  have hreceives := h.toClient.onRead h.server.rounds_limits
    (h.server.accepted ▸ List.prefix_rfl) hcalm hread
  refine ⟨hon.connectionType.trans h.clientType, h.serverType, fun hloops => ?_, ?_, ?_, ?_, ?_,
    h.answered⟩
  · show ∀ call ∈ client.connection.writeDones, WithinLimits call.1
    rw [hon.writeDones]
    exact h.waiting (hon.loops.symm.trans hloops)
  · rw [newRound_of_eq hon.accepted, List.append_nil]
    exact h.client.onRead hon
  · rw [newRound_of_eq rfl, List.append_nil]
    exact h.server
  · rw [newRound_of_eq hon.accepted, List.append_nil]
    exact h.toServer
  · rw [newRound_of_eq rfl, List.append_nil]
    exact hreceives

theorem Sending.step (r : Rounds κ) (event : SessionEvent κ) (r' : Rounds κ)
    (h : Sending services r) (hwhole : Whole r event) (hs : r' ∈ roundStep services r event) :
    Sending services r' := by
  cases event with
  | writeMessage message done =>
      obtain ⟨s, hstep, rfl⟩ := Option.map_eq_some_iff.mp hs
      obtain ⟨hloops, heq⟩ := Option.mem_ite_none_left.mp hstep
      obtain rfl := Option.some.inj heq
      have hnone : newRound r.session.client (r.session.client.writeMessage message done) = [] :=
        newRound_of_eq rfl
      have hnone' : newRound r.session.server r.session.server = [] := newRound_of_eq rfl
      dsimp only
      rw [hnone, hnone', List.append_nil, List.append_nil]
      refine ⟨h.clientType, h.serverType, fun _ call hcall => ?_, h.client.congr rfl rfl rfl rfl,
        h.server, h.toServer, h.toClient.congr rfl rfl rfl, h.answered⟩
      rcases List.mem_append.mp hcall with hold | hnew
      · exact h.waiting (Bool.eq_false_iff.mpr hloops) call hold
      · obtain rfl := List.mem_singleton.mp hnew
        exact hwhole
  | clientWrite results => exact h.clientWrite hwhole hs
  | serverRead results fuel => exact h.serverRead hwhole hs
  | serverWrite results => exact h.serverWrite hwhole hs
  | clientRead results fuel => exact h.clientRead hwhole hs

end Runs

/-- A step of a conversation in which each read takes all that the other side's socket has
accepted. -/
def PromptWhole (r : Rounds κ) : SessionEvent κ → Prop
  | .serverRead results _ => ReadsAll r.session.server r.requests.flatten results
  | .clientRead results _ => ReadsAll r.session.client r.responses.flatten results
  | .writeMessage message _ => WithinLimits message
  | .clientWrite results =>
      WholeOrNothing (r.session.client.out.encoded ++
        encodedBytes (toEncode r.session.client.connection)).length results
  | .serverWrite results =>
      WholeOrNothing (r.session.server.out.encoded ++
        encodedBytes (toEncode r.session.server.connection)).length results

instance decidableWholeOrNothing (n : Nat) (results : List WriteResult) :
    Decidable (WholeOrNothing n results) :=
  inferInstanceAs (Decidable (∀ r ∈ results, r.count = 0 ∨ n ≤ r.count))

instance decidablePromptWhole (r : Rounds κ) : ∀ event, Decidable (PromptWhole r event)
  | .serverRead results _ =>
      inferInstanceAs (Decidable (ReadsAll r.session.server r.requests.flatten results))
  | .clientRead results _ =>
      inferInstanceAs (Decidable (ReadsAll r.session.client r.responses.flatten results))
  | .writeMessage message _ => inferInstanceAs (Decidable (WithinLimits message))
  | .clientWrite results =>
      inferInstanceAs (Decidable (WholeOrNothing (r.session.client.out.encoded ++
        encodedBytes (toEncode r.session.client.connection)).length results))
  | .serverWrite results =>
      inferInstanceAs (Decidable (WholeOrNothing (r.session.server.out.encoded ++
        encodedBytes (toEncode r.session.server.connection)).length results))

theorem Sending.whole {services : Nat → ServiceMap M} {r : Rounds κ} (h : Sending services r)
    {event : SessionEvent κ} (hprompt : PromptWhole r event) : Whole r event := by
  cases event with
  | writeMessage message done => exact hprompt
  | clientWrite results => exact hprompt
  | serverRead results fuel => exact fun _ => h.toServer.calm h.client.rounds_limits hprompt
  | serverWrite results => exact hprompt
  | clientRead results fuel => exact fun _ => h.toClient.calm h.server.rounds_limits hprompt

/-- A request is written and read; then another one is. -/
def secondRequest : List (SessionEvent Nat) :=
  let first := echoRequest [97]
  let second := { shortRequest with msgId := [50] }
  let answered := ((responses echoServices [first, first, second]).map frame).flatten
  [.writeMessage first 1, .clientWrite [.accepted 30], .serverRead [.data first.frame] 2,
    .writeMessage second 2, .clientWrite [.accepted 57],
    .serverRead [.data (first.frame ++ second.frame)] 3,
    .serverWrite [.accepted answered.length], .clientRead [.data answered] 4]

theorem secondRequest_promptWhole :
    Meets (roundStep echoServices) PromptWhole (Rounds.start Nat) secondRequest := by
  decide +kernel

/-- The server dispatches the first request twice. -/
example : (after (roundStep echoServices) (Rounds.start Nat) secondRequest).map
    (fun r => r.session.server.decoded.map msgId) = some [[49], [49], [50]] := by
  decide +kernel

end TinyRpc
