/-
TinyRpc/WriteDones.lean

The callbacks of a client's `on_write`, one at a time.

`on_write` walks `m_write_dones` twice: first to encode every message that waits,
and, after its loop of `::write`s, to run every callback; then it clears the
queue.  A callback is user code and may push a message of its own.  The second
walk asks for the size of the queue again at each step, so it comes to such a
message too: its callback runs although nothing has encoded the message, and the
`clear` at the end takes it out of the queue.

`writeStep` has a state between any two callbacks.  What was pushed, encoded and
called is kept in three lists, in the order in which it happened; `HandledOnce`
compares them.  As long as no callback pushes, it holds in every state, and every
`on_write` that comes to its end has encoded and called all that was pushed:
`handled_once`.
-/
import TinyRpc.OnWrite

namespace TinyRpc

open Checked Bytes TcpBuffer Runs

/-- Where a client's event loop is. -/
inductive WritePhase
  /-- not in `on_write` -/
  | idle
  /-- in the callback at `index` of `m_write_dones` -/
  | calling (index : Nat)
  /-- in the loop of `::write`s, for good -/
  | looping
  deriving DecidableEq

/-- A connection, the bytes its output buffer held at the start, and what has happened
to its messages: the messages pushed with their callbacks, the messages encoded, and
the callbacks run with the messages they were given, each the earliest first. -/
structure Queueing (κ : Type) where
  connection : TcpConnection κ
  phase : WritePhase
  base : List UInt8
  pushed : List (ProtobufProtocol × κ)
  encoded : List ProtobufProtocol
  called : List (ProtobufProtocol × κ)

inductive WriteEvent (κ : Type)
  /-- `push_send_message`, from outside `on_write` or from the callback that is running -/
  | push (message : ProtobufProtocol) (done : κ)
  /-- `on_write` up to its first callback -/
  | onWrite (results : List WriteResult)
  | callbackReturns
  /-- the peer closes the connection -/
  | clear

variable {κ : Type}

/-! ### The steps -/

/-- The second walk of `on_write` from index `i` on: the next callback starts, or the
queue is cleared. -/
def walkFrom (s : Queueing κ) (i : Nat) : Queueing κ :=
  match s.connection.writeDones[i]? with
  | some entry => { s with phase := .calling i, called := s.called ++ [entry] }
  | none => { s with phase := .idle, connection := { s.connection with writeDones := [] } }

/-- A server has no second walk. -/
def walk (s : Queueing κ) : Queueing κ :=
  if s.connection.connectionType = .tcpConnectionByClient then walkFrom s 0 else s

/-- The first walk: the messages that wait are encoded, which fills in their length
fields. -/
def encodeWaiting (s : Queueing κ) : Except Fault (Queueing κ) := do
  let c := s.connection
  let (messages, outBuffer) ← encode (toEncode c) c.outBuffer
  let writeDones :=
    if c.connectionType = .tcpConnectionByClient then messages.zip (c.writeDones.map Prod.snd)
    else c.writeDones
  .ok
    { s with
      connection := { c with outBuffer := outBuffer, writeDones := writeDones }
      encoded := s.encoded ++ toEncode c }

/-- `on_write` up to its first callback. -/
def startWrite (s : Queueing κ) (results : List WriteResult) : Except Fault (Queueing κ) :=
  if s.connection.state ≠ .connected then .ok s
  else do
    let s ← encodeWaiting s
    match (writeLoop s.connection.outBuffer results).2 with
    | .writeAll => .ok (walk { s with connection := { s.connection with listensOut := false } })
    | .blocked => .ok (walk s)
    | _ => .ok { s with phase := .looping }

def writeStep : Step (Queueing κ) (WriteEvent κ)
  | s, .push message done =>
      if s.phase = .looping then none
      else
        some
          { s with
            connection := s.connection.pushSendMessage message done
            pushed := s.pushed ++ [(message, done)] }
  | s, .onWrite results =>
      if s.phase = .idle then (startWrite s results).toOption else none
  | s, .callbackReturns =>
      match s.phase with
      | .calling i => some (walkFrom s (i + 1))
      | _ => none
  | s, .clear =>
      if s.phase = .looping then none else some { s with connection := s.connection.clear }

/-- A connection with the messages that wait in it. -/
def Queueing.start (c : TcpConnection κ) : Queueing κ :=
  ⟨c, .idle, c.outBuffer.readable, c.writeDones, [], []⟩

/-! ### The property -/

/-- The messages are encoded in the order in which they were pushed, each once, and the
output buffer holds them; their callbacks run in that order, each once, and only after
the message has been encoded; what has left the queue has been encoded and called. -/
structure HandledOnce (s : Queueing κ) : Prop where
  encoded : s.encoded <+: s.pushed.map Prod.fst
  bytes : s.connection.outBuffer.readable = s.base ++ encodedBytes s.encoded
  called : s.called.map Prod.snd <+: s.pushed.map Prod.snd
  after : s.called.length ≤ s.encoded.length
  waiting : s.connection.writeDones.map Prod.snd <:+ s.pushed.map Prod.snd
  left : s.pushed.length ≤ s.connection.writeDones.length + s.called.length

/-- No callback that `on_write` runs pushes a message. -/
def PushesOutside (s : Queueing κ) : WriteEvent κ → Prop
  | .push _ _ => s.phase = .idle
  | _ => True

instance decidablePushesOutside :
    ∀ (s : Queueing κ) (event : WriteEvent κ), Decidable (PushesOutside s event)
  | _, .push _ _ => inferInstanceAs (Decidable (_ = _))
  | _, .onWrite _ => inferInstanceAs (Decidable True)
  | _, .callbackReturns => inferInstanceAs (Decidable True)
  | _, .clear => inferInstanceAs (Decidable True)

/-- Once the queue is empty, all that was pushed has been encoded and called. -/
theorem HandledOnce.all {s : Queueing κ} (h : HandledOnce s) (hnil : s.connection.writeDones = []) :
    s.encoded = s.pushed.map Prod.fst ∧ s.called.map Prod.snd = s.pushed.map Prod.snd := by
  have hleft := h.left
  have hafter := h.after
  rw [hnil, List.length_nil, Nat.zero_add] at hleft
  refine ⟨h.encoded.eq_of_length_le ?_, h.called.eq_of_length_le ?_⟩
  · rw [List.length_map]
    exact hleft.trans hafter
  · rw [List.length_map, List.length_map]
    exact hleft

/-! ### What every step keeps -/

/-- What has been encoded and called of the messages that have left the queue and of
those that wait in it. -/
def Progress (s : Queueing κ) (left queued : List (ProtobufProtocol × κ)) : Prop :=
  match s.phase with
  | .idle => s.encoded = left.map Prod.fst ∧ s.called.map Prod.snd = left.map Prod.snd ∧
      s.connection.writeDones = queued
  | .calling i => s.encoded = s.pushed.map Prod.fst ∧
      s.called.map Prod.snd = left.map Prod.snd ++ (queued.map Prod.snd).take (i + 1)
  | .looping => s.encoded = s.pushed.map Prod.fst ∧ s.called.map Prod.snd = left.map Prod.snd

/-- The messages pushed to a client have left the queue or wait in it, and stand as
`Progress` says. -/
structure Accounted (s : Queueing κ) : Prop where
  client : s.connection.connectionType = .tcpConnectionByClient
  bytes : s.connection.outBuffer.readable = s.base ++ encodedBytes s.encoded
  queue : ∃ left queued, s.pushed = left ++ queued ∧
    s.connection.writeDones.map Prod.snd = queued.map Prod.snd ∧ Progress s left queued

variable {s : Queueing κ}

/-- What is accounted for is handled once. -/
theorem Accounted.handledOnce (h : Accounted s) : HandledOnce s := by
  obtain ⟨-, hbytes, left, queued, hpushed, hwaiting, hprogress⟩ := h
  have hwait : s.connection.writeDones.length = queued.length := by
    simpa using congrArg List.length hwaiting
  have hsuffix : s.connection.writeDones.map Prod.snd <:+ s.pushed.map Prod.snd := by
    rw [hwaiting, hpushed, List.map_append]
    exact List.suffix_append _ _
  have hlength : s.pushed.length = left.length + queued.length := by
    rw [hpushed, List.length_append]
  unfold Progress at hprogress
  split at hprogress
  · obtain ⟨hencoded, hcalled, -⟩ := hprogress
    have hcount : s.called.length = left.length := by simpa using congrArg List.length hcalled
    refine ⟨?_, hbytes, ?_, ?_, hsuffix, ?_⟩
    · rw [hencoded, hpushed, List.map_append]
      exact List.prefix_append _ _
    · rw [hcalled, hpushed, List.map_append]
      exact List.prefix_append _ _
    · rw [hencoded, List.length_map, hcount]
    · rw [hlength, hwait, hcount, Nat.add_comm]
  · rename_i i hphase
    obtain ⟨hencoded, hcalled⟩ := hprogress
    have hcount : s.called.length = left.length + min (i + 1) queued.length := by
      simpa using congrArg List.length hcalled
    refine ⟨hencoded ▸ List.prefix_rfl, hbytes, ?_, ?_, hsuffix, ?_⟩
    · rw [hcalled, hpushed, List.map_append]
      exact (List.prefix_append_right_inj _).mpr (List.take_prefix _ _)
    · rw [hencoded, List.length_map]
      omega
    · omega
  · obtain ⟨hencoded, hcalled⟩ := hprogress
    have hcount : s.called.length = left.length := by simpa using congrArg List.length hcalled
    refine ⟨hencoded ▸ List.prefix_rfl, hbytes, ?_, ?_, hsuffix, ?_⟩
    · rw [hcalled, hpushed, List.map_append]
      exact List.prefix_append _ _
    · rw [hencoded, List.length_map]
      omega
    · omega

/-- The second walk has come to index `i`: everything is encoded, and the callbacks in
front of the index have run. -/
structure Walking (s : Queueing κ) (i : Nat) : Prop where
  client : s.connection.connectionType = .tcpConnectionByClient
  bytes : s.connection.outBuffer.readable = s.base ++ encodedBytes s.encoded
  encoded : s.encoded = s.pushed.map Prod.fst
  queue : ∃ left queued, s.pushed = left ++ queued ∧
    s.connection.writeDones.map Prod.snd = queued.map Prod.snd ∧
    s.called.map Prod.snd = left.map Prod.snd ++ (queued.map Prod.snd).take i

/-- The walk starts the callback at its index, or ends with nothing left in the queue. -/
theorem Walking.next {i : Nat} (h : Walking s i) : Accounted (walkFrom s i) := by
  obtain ⟨hclient, hbytes, hencoded, left, queued, hpushed, hwaiting, hcalled⟩ := h
  unfold walkFrom
  split
  · rename_i entry hentry
    have hdone : (queued.map Prod.snd)[i]? = some entry.2 := by
      rw [← hwaiting, List.getElem?_map, hentry]
      rfl
    refine ⟨hclient, hbytes, left, queued, hpushed, hwaiting, hencoded, ?_⟩
    show (s.called ++ [entry]).map Prod.snd = _
    rw [List.map_append, hcalled, List.take_add_one, hdone, List.append_assoc]
    rfl
  · rename_i hnone
    have hall : (queued.map Prod.snd).take i = queued.map Prod.snd := by
      apply List.take_of_length_le
      rw [← hwaiting, List.length_map]
      exact List.getElem?_eq_none_iff.mp hnone
    refine ⟨hclient, hbytes, s.pushed, [], (List.append_nil _).symm, rfl, hencoded, ?_, rfl⟩
    show s.called.map Prod.snd = s.pushed.map Prod.snd
    rw [hcalled, hall, hpushed, List.map_append]

/-- The first walk encodes all that waits. -/
theorem Accounted.walking_of_encode (h : Accounted s) (hidle : s.phase = .idle)
    (hstate : s.connection.state = .connected) {s' : Queueing κ}
    (hs : encodeWaiting s = .ok s') :
    Walking s' 0 ∧ s'.pushed = s.pushed ∧
      s'.connection.writeDones.length = s.connection.writeDones.length := by
  obtain ⟨hclient, hbytes, left, queued, hpushed, hwaiting, hprogress⟩ := h
  rw [Progress, hidle] at hprogress
  obtain ⟨hencoded, hcalled, hqueued⟩ := hprogress
  have hmessages : toEncode s.connection = queued.map Prod.fst := by
    rw [toEncode, if_pos ⟨hstate, hclient⟩, hqueued]
  obtain ⟨⟨messages, out⟩, henc, hs⟩ := bind_eq_ok.mp hs
  obtain rfl := Except.ok.inj hs
  have hlength : messages.length = s.connection.writeDones.length := by
    rw [length_of_encode henc, hmessages, hqueued, List.length_map]
  have hdones : (messages.zip (s.connection.writeDones.map Prod.snd)).map Prod.snd
      = queued.map Prod.snd := by
    rw [List.map_snd_zip (by rw [List.length_map, hlength]), hwaiting]
  refine ⟨⟨hclient, ?_, ?_, left, queued, hpushed, ?_, ?_⟩, rfl, ?_⟩
  · show out.readable = s.base ++ encodedBytes (s.encoded ++ toEncode s.connection)
    rw [readable_encode henc, hbytes, encodedBytes, encodedBytes, encodedBytes,
      List.flatMap_append, List.append_assoc]
  · show s.encoded ++ toEncode s.connection = s.pushed.map Prod.fst
    rw [hencoded, hmessages, hpushed, List.map_append]
  · simp only [hclient, if_pos, hdones]
  · show s.called.map Prod.snd = _
    rw [hcalled, List.take_zero, List.append_nil]
  · simp [hclient, hlength]

/-- `on_write` up to its first callback. -/
theorem Accounted.of_startWrite (h : Accounted s) (hidle : s.phase = .idle)
    {results : List WriteResult} {s' : Queueing κ} (hs : startWrite s results = .ok s') :
    Accounted s' := by
  unfold startWrite at hs
  split at hs
  · obtain rfl := Except.ok.inj hs
    exact h
  · rename_i hstate
    obtain ⟨s₁, henc, hs⟩ := bind_eq_ok.mp hs
    have hwalk := (h.walking_of_encode hidle (not_not.mp hstate) henc).1
    split at hs
    · obtain rfl := Except.ok.inj hs
      have hclient := hwalk.client
      rw [walk, if_pos hclient]
      exact Walking.next ⟨hclient, hwalk.bytes, hwalk.encoded, hwalk.queue⟩
    · obtain rfl := Except.ok.inj hs
      rw [walk, if_pos hwalk.client]
      exact hwalk.next
    · obtain rfl := Except.ok.inj hs
      obtain ⟨hclient, hbytes, hencoded, left, queued, hpushed, hwaiting, hcalled⟩ := hwalk
      rw [List.take_zero, List.append_nil] at hcalled
      exact ⟨hclient, hbytes, left, queued, hpushed, hwaiting, hencoded, hcalled⟩

/-- A push from outside `on_write` waits behind the others. -/
theorem Accounted.push (h : Accounted s) (hidle : s.phase = .idle) (message : ProtobufProtocol)
    (done : κ) :
    Accounted
      { s with
        connection := s.connection.pushSendMessage message done
        pushed := s.pushed ++ [(message, done)] } := by
  obtain ⟨hclient, hbytes, left, queued, hpushed, hwaiting, hprogress⟩ := h
  rw [Progress, hidle] at hprogress
  obtain ⟨hencoded, hcalled, hqueued⟩ := hprogress
  refine ⟨hclient, hbytes, left, queued ++ [(message, done)], ?_, ?_, ?_⟩
  · show s.pushed ++ [(message, done)] = left ++ (queued ++ [(message, done)])
    rw [hpushed, List.append_assoc]
  · show (s.connection.writeDones ++ [(message, done)]).map Prod.snd = _
    rw [hqueued]
  · simp only [Progress, hidle]
    refine ⟨hencoded, hcalled, ?_⟩
    show s.connection.writeDones ++ [(message, done)] = _
    rw [hqueued]

theorem TcpConnection.clear_queue (c : TcpConnection κ) :
    c.clear.connectionType = c.connectionType ∧ c.clear.outBuffer = c.outBuffer ∧
      c.clear.writeDones = c.writeDones := by
  unfold TcpConnection.clear
  split
  · exact ⟨rfl, rfl, rfl⟩
  · exact ⟨rfl, rfl, rfl⟩

/-- A callback that returns leaves the walk at the next index. -/
theorem Accounted.walking (h : Accounted s) {i : Nat} (hphase : s.phase = .calling i) :
    Walking s (i + 1) := by
  obtain ⟨hclient, hbytes, left, queued, hpushed, hwaiting, hprogress⟩ := h
  rw [Progress, hphase] at hprogress
  exact ⟨hclient, hbytes, hprogress.1, left, queued, hpushed, hwaiting, hprogress.2⟩

theorem Accounted.step (s : Queueing κ) (event : WriteEvent κ) (s' : Queueing κ)
    (h : Accounted s) (hout : PushesOutside s event) (hs : s' ∈ writeStep s event) :
    Accounted s' := by
  cases event with
  | push message done =>
      have hidle : s.phase = .idle := hout
      rw [writeStep, if_neg (by rw [hidle]; exact nofun)] at hs
      obtain rfl := Option.some.inj hs
      exact h.push hidle message done
  | onWrite results =>
      rw [writeStep] at hs
      split at hs
      · rename_i hidle
        exact h.of_startWrite hidle (toOption_eq_some.mp hs)
      · cases hs
  | callbackReturns =>
      rw [writeStep] at hs
      split at hs
      · rename_i i hphase
        obtain rfl := Option.some.inj hs
        exact (h.walking hphase).next
      · cases hs
  | clear =>
      rw [writeStep] at hs
      split at hs
      · cases hs
      · obtain rfl := Option.some.inj hs
        obtain ⟨htype, hbuffer, hdones⟩ := s.connection.clear_queue
        obtain ⟨hclient, hbytes, left, queued, hpushed, hwaiting, hprogress⟩ := h
        refine ⟨htype.trans hclient, ?_, left, queued, hpushed, ?_, ?_⟩
        · rw [hbuffer]
          exact hbytes
        · rw [hdones]
          exact hwaiting
        · simp only [Progress, hdones] at hprogress ⊢
          exact hprogress

theorem Accounted.start {c : TcpConnection κ}
    (hc : c.connectionType = .tcpConnectionByClient) : Accounted (Queueing.start c) where
  client := hc
  bytes := (List.append_nil _).symm
  queue := ⟨[], c.writeDones, rfl, rfl, rfl, rfl, rfl⟩

/-! ### Whole calls -/

/-- The state at the end of the second walk, if `rest` are the callbacks still to run and
none of them pushes. -/
def walkedOff (s : Queueing κ) (rest : List (ProtobufProtocol × κ)) : Queueing κ :=
  { s with
    phase := .idle
    connection := { s.connection with writeDones := [] }
    called := s.called ++ rest }

/-- As many returns of callbacks as there are left bring the walk to its end. -/
theorem after_callbacks {i n : Nat} (hphase : s.phase = .calling i)
    (hn : s.connection.writeDones.length = i + n) (hpos : 0 < n) :
    after writeStep s (List.replicate n .callbackReturns)
      = some (walkedOff s (s.connection.writeDones.drop (i + 1))) := by
  induction n generalizing s i with
  | zero => exact absurd hpos (lt_irrefl 0)
  | succ n ih =>
      have hstep : writeStep s .callbackReturns = some (walkFrom s (i + 1)) := by
        simp only [writeStep, hphase]
      rw [List.replicate_succ, after, hstep, Option.bind_some]
      unfold walkFrom
      split
      · rename_i entry hentry
        obtain ⟨hlt, hget⟩ := List.getElem?_eq_some_iff.mp hentry
        have hrest := @ih { s with phase := .calling (i + 1), called := s.called ++ [entry] }
          (i + 1) rfl (by simp only [hn]; omega) (by omega)
        rw [hrest, List.drop_eq_getElem_cons hlt, hget]
        simp only [walkedOff, List.append_assoc, List.singleton_append]
      · rename_i hnone
        have hle := List.getElem?_eq_none_iff.mp hnone
        obtain rfl : n = 0 := by omega
        rw [List.drop_eq_nil_of_le hle, walkedOff, List.append_nil]
        rfl

/-- The same for the whole walk. -/
theorem after_walkFrom (s : Queueing κ) :
    after writeStep (walkFrom s 0)
        (List.replicate s.connection.writeDones.length .callbackReturns)
      = some (walkedOff s s.connection.writeDones) := by
  unfold walkFrom
  split
  · rename_i entry hentry
    obtain ⟨hpos, hget⟩ := List.getElem?_eq_some_iff.mp hentry
    have hrest := @after_callbacks κ
      { s with phase := .calling 0, called := s.called ++ [entry] } 0 _ rfl
      (Nat.zero_add _).symm hpos
    have hqueue : s.connection.writeDones = entry :: s.connection.writeDones.drop 1 := by
      rw [← hget, ← List.drop_eq_getElem_cons hpos, List.drop_zero]
    rw [hrest]
    simp only [walkedOff, List.append_assoc, List.singleton_append]
    rw [← hqueue]
  · rename_i hnone
    have hzero := Nat.le_zero.mp (List.getElem?_eq_none_iff.mp hnone)
    rw [hzero, List.eq_nil_of_length_eq_zero hzero, walkedOff, List.append_nil]
    rfl

theorem after_walk {n : Nat} (hc : s.connection.connectionType = .tcpConnectionByClient)
    (hn : s.connection.writeDones.length = n) :
    after writeStep (walk s) (List.replicate n .callbackReturns)
      = some (walkedOff s s.connection.writeDones) := by
  rw [walk, if_pos hc, ← hn]
  exact after_walkFrom s

theorem Accounted.after_returns {n : Nat} {s' : Queueing κ} (h : Accounted s)
    (hs' : after writeStep s (List.replicate n .callbackReturns) = some s') : Accounted s' := by
  induction n generalizing s with
  | zero =>
      obtain rfl := Option.some.inj hs'
      exact h
  | succ n ih =>
      obtain ⟨s₁, hs₁, hrest⟩ := Option.bind_eq_some_iff.mp hs'
      exact ih (Accounted.step s .callbackReturns s₁ h trivial hs₁) hrest

/-- **An `on_write` that leaves its loop handles everything**: with the return of the last
callback, all that has been pushed is encoded and called. -/
theorem Accounted.onWrite_handles (h : Accounted s) (hidle : s.phase = .idle)
    (hstate : s.connection.state = .connected) {results : List WriteResult} {s₁ : Queueing κ}
    (hs : startWrite s results = .ok s₁) (hloop : s₁.phase ≠ .looping) :
    ∃ s₂, after writeStep s₁
        (List.replicate s.connection.writeDones.length .callbackReturns) = some s₂ ∧
      s₂.encoded = s.pushed.map Prod.fst ∧
      s₂.called.map Prod.snd = s.pushed.map Prod.snd := by
  rw [startWrite, if_neg (not_not.mpr hstate)] at hs
  obtain ⟨s', henc, hs⟩ := bind_eq_ok.mp hs
  obtain ⟨hwalk, hpushed, hlength⟩ := h.walking_of_encode hidle hstate henc
  have hfinish : ∀ {t : Queueing κ}, Walking t 0 → t.pushed = s'.pushed →
      t.connection.writeDones.length = s'.connection.writeDones.length →
      ∃ s₂, after writeStep (walk t)
          (List.replicate s.connection.writeDones.length .callbackReturns) = some s₂ ∧
        s₂.encoded = s.pushed.map Prod.fst ∧
        s₂.called.map Prod.snd = s.pushed.map Prod.snd := by
    intro t ht htpushed htlength
    obtain ⟨hencoded, hcalled⟩ :=
      (ht.next.after_returns (after_walkFrom t)).handledOnce.all rfl
    have hsame : (walkedOff t t.connection.writeDones).pushed = s.pushed := htpushed.trans hpushed
    rw [hsame] at hencoded hcalled
    exact ⟨_, after_walk ht.client (htlength.trans hlength), hencoded, hcalled⟩
  split at hs
  · obtain rfl := Except.ok.inj hs
    exact hfinish ⟨hwalk.client, hwalk.bytes, hwalk.encoded, hwalk.queue⟩ rfl rfl
  · obtain rfl := Except.ok.inj hs
    exact hfinish hwalk rfl rfl
  · obtain rfl := Except.ok.inj hs
    exact absurd rfl hloop

/-- The loop is only entered on a connection that is up. -/
theorem writeLoop_connected (out : TcpBuffer) (results : List WriteResult) :
    (writeLoop out results).2 ≠ .disconnected := by
  by_cases hzero : out.canReadBytesNum = 0
  · rw [writeLoop_empty hzero]
    exact nofun
  induction results with
  | nil =>
      rw [writeLoop, if_neg hzero]
      exact nofun
  | cons result results ih =>
      cases result with
      | accepted count =>
          by_cases hall : out.canReadBytesNum ≤ count
          · rw [writeLoop_all hzero hall]
            exact nofun
          · rw [writeLoop_part hzero (Nat.not_le.mp hall)]
            exact ih
      | again =>
          rw [writeLoop_again hzero]
          exact nofun
      | error =>
          rw [writeLoop_error hzero]
          exact ih

/-- **The steps are those of `on_write`**: with callbacks that push nothing, they leave the
connection that it leaves and run the callbacks that it runs. -/
theorem onWrite_eq_steps {c : TcpConnection κ}
    (hc : c.connectionType = .tcpConnectionByClient) (hstate : c.state = .connected)
    {results : List WriteResult} {w : Written κ} (hw : onWrite c results = .ok w)
    (hexit : w.exit ≠ .looping) :
    ∃ s₁ s₂, startWrite (Queueing.start c) results = .ok s₁ ∧
      after writeStep s₁ (List.replicate c.writeDones.length .callbackReturns) = some s₂ ∧
      s₂.connection = w.connection ∧ s₂.called = w.called := by
  rw [onWrite, if_neg (not_not.mpr hstate)] at hw
  obtain ⟨⟨messages, out⟩, henc, hw⟩ := bind_eq_ok.mp hw
  obtain rfl := Except.ok.inj hw
  have hlength : messages.length = c.writeDones.length := by
    rw [length_of_encode henc, toEncode, if_pos ⟨hstate, hc⟩, List.length_map]
  have hwaiting : encodeWaiting (Queueing.start c)
      = .ok
        { Queueing.start c with
          connection :=
            { c with outBuffer := out, writeDones := messages.zip (c.writeDones.map Prod.snd) }
          encoded := toEncode c } := by
    show (encode (toEncode c) c.outBuffer >>= _) = _
    rw [henc, ok_bind]
    simp only [Queueing.start, hc, if_pos, List.nil_append]
  have hexit' := (@finishWrite_eq κ { c with outBuffer := out } messages
    (writeLoop out results).1 (writeLoop out results).2).2.1
  have hcount : (messages.zip (c.writeDones.map Prod.snd)).length = c.writeDones.length := by
    simp [hlength]
  rw [hexit'] at hexit
  rw [startWrite, if_neg (by exact not_not.mpr hstate), hwaiting, ok_bind]
  dsimp only
  cases hloop : (writeLoop out results).2 with
  | disconnected => exact absurd hloop (writeLoop_connected out results)
  | writeAll =>
      refine ⟨_, _, rfl, after_walk hc hcount, ?_, ?_⟩
      · simp [walkedOff, finishWrite, runWriteDones, hc]
      · simp [walkedOff, finishWrite, runWriteDones, hc, Queueing.start]
  | blocked =>
      refine ⟨_, _, rfl, after_walk hc hcount, ?_, ?_⟩
      · simp [walkedOff, finishWrite, runWriteDones, hc]
      · simp [walkedOff, finishWrite, runWriteDones, hc, Queueing.start]
  | looping => exact absurd hloop hexit

/-- **Messages are handled once**, in every run in which no callback pushes: at every
point what is encoded, called and waiting fits together; and an `on_write` that leaves
its loop goes on to encode and call all that has been pushed. -/
theorem handled_once (c : TcpConnection κ) (hc : c.connectionType = .tcpConnectionByClient)
    (events : List (WriteEvent κ)) (h : Meets writeStep PushesOutside (Queueing.start c) events) :
    Always writeStep HandledOnce (Queueing.start c) events ∧
    ∀ s results s₁, after writeStep (Queueing.start c) events = some s → s.phase = .idle →
      s.connection.state = .connected → startWrite s results = .ok s₁ → s₁.phase ≠ .looping →
        ∃ s₂, after writeStep s₁
            (List.replicate s.connection.writeDones.length .callbackReturns) = some s₂ ∧
          s₂.encoded = s.pushed.map Prod.fst ∧
          s₂.called.map Prod.snd = s.pushed.map Prod.snd := by
  have hinv : Always writeStep Accounted (Queueing.start c) events :=
    always_of_meets (fun _ h => h) Accounted.step (Accounted.start hc) h
  refine ⟨?_, fun s results s₁ hs hidle hstate hstart hloop => ?_⟩
  · exact always_of_meets (fun _ h => h.handledOnce) Accounted.step (Accounted.start hc) h
  · exact (hinv.after hs).onWrite_handles hidle hstate hstart hloop

/-! ### A callback that pushes -/

/-- **A push from a callback is never handled**: if the walk comes to its end with more
messages pushed than encoded, the property does not hold there. -/
theorem not_handledOnce_of_push {i n : Nat} (hphase : s.phase = .calling i)
    (hlt : s.encoded.length < s.pushed.length)
    (hn : s.connection.writeDones.length = i + n) (hpos : 0 < n) :
    ∃ s', after writeStep s (List.replicate n .callbackReturns) = some s' ∧ ¬ HandledOnce s' := by
  refine ⟨_, after_callbacks hphase hn hpos, fun h => ?_⟩
  have hall := congrArg List.length (h.all rfl).1
  rw [List.length_map] at hall
  exact hlt.ne hall

/-- A client connection that is up, on which the callbacks are numbers. -/
def clientConnection : TcpConnection Nat :=
  (TcpConnection.ofBufferSize Nat 128 bufferSize_lt .tcpConnectionByClient).setState .connected

/-- The callback of the first message pushes a second one. -/
def reentrantPush : List (WriteEvent Nat) :=
  [.push shortRequest 1, .onWrite [.accepted 27], .push nextReply 2, .callbackReturns,
    .callbackReturns]

/-- The second message is called and forgotten, and never encoded. -/
theorem reentrant_push_lost :
    (after writeStep (Queueing.start clientConnection) reentrantPush).map
        (fun s => (s.called.map Prod.snd, s.encoded.length, s.connection.writeDones.length))
      = some ([1, 2], 1, 0) ∧
    ¬ ∀ (c : TcpConnection Nat), c.connectionType = .tcpConnectionByClient →
      ∀ events, Always writeStep HandledOnce (Queueing.start c) events := by
  have hafter : (after writeStep (Queueing.start clientConnection) reentrantPush).map
      (fun s => (s.called.map Prod.snd, s.encoded.length, s.connection.writeDones.length))
        = some ([1, 2], 1, 0) := by
    decide +kernel
  refine ⟨hafter, fun h => ?_⟩
  obtain ⟨s, hs, hvalues⟩ := Option.map_eq_some_iff.mp hafter
  have honce := (h clientConnection rfl reentrantPush).after hs
  simp only [Prod.mk.injEq] at hvalues
  have hcalled := congrArg List.length hvalues.1
  have hle := honce.after
  rw [List.length_map] at hcalled
  rw [hcalled, hvalues.2.1] at hle
  exact absurd hle (by decide)

/-- A second message pushed after the first one's callback has returned. -/
theorem handled_once_later_push :
    Always writeStep HandledOnce (Queueing.start clientConnection)
      [.push shortRequest 1, .onWrite [.accepted 27], .callbackReturns, .push nextReply 2,
        .onWrite [.accepted 27, .accepted 27], .callbackReturns] :=
  (handled_once clientConnection rfl _ (by decide +kernel)).1

end TinyRpc
