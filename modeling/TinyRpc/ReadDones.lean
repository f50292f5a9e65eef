/-
TinyRpc/ReadDones.lean

The callbacks that wait for a response: `push_read_message`, and the client
branch of `TcpConnection::excute`.

A callback is put into a map under a `msg_id`, and `excute` looks up the
`msg_id` of every message it decodes and runs what it finds.  Nothing is ever
taken out, and a second `insert` under the same `msg_id` does nothing.  So the
first callback registered for a `msg_id` gets all responses with it:
`mem_invoked_iff`.  That is what it should be exactly where there is only one
(`read_dones_iff`).

Callbacks are told apart by the time of their registration, which is its place
in the history of all registrations and arrivals.
-/
import TinyRpc.TcpConnection
import Mathlib.Data.List.Induction
import Mathlib.Data.List.Nodup
import Mathlib.Data.Nat.Find

namespace TinyRpc

open TcpConnection

/-! ### The code -/

/-- The callback that `excute` runs for a decoded message, if there is one.  It stays in
the map. -/
def readDone {κ : Type} (c : TcpConnection κ) (message : ProtobufProtocol) : Option κ :=
  c.readDones.lookup message.msgId

/-- What happens to the callbacks of a client connection. -/
inductive ReadEvent
  /-- `push_read_message(req_id, …)` -/
  | pushReadMessage (reqId : List UInt8)
  /-- `excute` comes to a message it has decoded -/
  | response (message : ProtobufProtocol)

/-- A client connection, the time, and the callbacks run so far: when each was
registered, and when it was run. -/
structure Replies where
  connection : TcpConnection Nat
  time : Nat
  invoked : List (Nat × Nat)

def readStep (s : Replies) : ReadEvent → Replies
  | .pushReadMessage reqId =>
      { s with connection := s.connection.pushReadMessage reqId s.time, time := s.time + 1 }
  | .response message =>
      { s with
        time := s.time + 1
        invoked := s.invoked ++ ((readDone s.connection message).map (·, s.time)).toList }

/-- The replies to a connection with no callback, after a history of events. -/
def replies (c : TcpConnection Nat) (events : List ReadEvent) : Replies :=
  events.foldl readStep ⟨{ c with readDones := [] }, 0, []⟩

/-! ### Histories -/

/-- At time `p`, a callback was registered for `id`. -/
def RegisteredAt (events : List ReadEvent) (id : List UInt8) (p : Nat) : Prop :=
  events[p]? = some (.pushReadMessage id)

/-- At time `q`, a response with `id` arrived. -/
def RespondedAt (events : List ReadEvent) (id : List UInt8) (q : Nat) : Prop :=
  ∃ message, events[q]? = some (.response message) ∧ message.msgId = id

/-- The registration at time `p` was the first for `id`. -/
def FirstRegistered (events : List ReadEvent) (id : List UInt8) (p : Nat) : Prop :=
  RegisteredAt events id p ∧ ∀ k < p, ¬ RegisteredAt events id k

/-- The response at time `q` is the first with `id` after time `p`. -/
def FirstResponse (events : List ReadEvent) (id : List UInt8) (p q : Nat) : Prop :=
  p < q ∧ RespondedAt events id q ∧ ∀ k, p < k → k < q → ¬ RespondedAt events id k

/-- What the callbacks are for. -/
structure ServedOnce (events : List ReadEvent) (invoked : List (Nat × Nat)) : Prop where
  /-- no callback is run twice -/
  once : (invoked.map Prod.fst).Nodup
  /-- a callback is run by the first response after its registration -/
  first : ∀ p q, (p, q) ∈ invoked → ∃ id, RegisteredAt events id p ∧ FirstResponse events id p q
  /-- a callback registered after an earlier one for its `msg_id` has been run gets the
  next response -/
  next : ∀ id p q p' q', (p', q') ∈ invoked → RegisteredAt events id p' → q' < p →
    RegisteredAt events id p → FirstResponse events id p q → (p, q) ∈ invoked

/-- After the first registration for an `id`, at most one response with it arrives. -/
def OneResponse (events : List ReadEvent) : Prop :=
  ∀ id p q q', FirstRegistered events id p → p < q → p < q' →
    RespondedAt events id q → RespondedAt events id q' → q = q'

variable {events : List ReadEvent} {event : ReadEvent} {id id' : List UInt8} {p q : Nat}

theorem RegisteredAt.unique (h : RegisteredAt events id p) (h' : RegisteredAt events id' p) :
    id = id' := by
  have heq := Option.some.inj (h.symm.trans h')
  exact ReadEvent.pushReadMessage.inj heq

theorem RegisteredAt.lt (h : RegisteredAt events id p) : p < events.length :=
  (List.getElem?_eq_some_iff.mp h).1

theorem RespondedAt.lt (h : RespondedAt events id q) : q < events.length := by
  obtain ⟨message, hq, -⟩ := h
  exact (List.getElem?_eq_some_iff.mp hq).1

/-! ### One more event -/

theorem getElem?_snoc {x : ReadEvent} :
    (events ++ [event])[p]? = some x ↔
      events[p]? = some x ∨ p = events.length ∧ event = x := by
  rcases Nat.lt_trichotomy p events.length with hlt | rfl | hgt
  · rw [List.getElem?_append_left hlt]
    exact ⟨.inl, fun h => h.resolve_right fun hp => absurd hp.1 hlt.ne⟩
  · rw [List.getElem?_concat_length, List.getElem?_eq_none le_rfl]
    constructor
    · intro h
      exact .inr ⟨rfl, Option.some.inj h⟩
    · rintro (h | ⟨-, rfl⟩)
      · cases h
      · rfl
  · rw [List.getElem?_eq_none (by simp; omega), List.getElem?_eq_none hgt.le]
    constructor
    · intro h
      cases h
    · rintro (h | ⟨rfl, -⟩)
      · cases h
      · exact absurd hgt (lt_irrefl _)

theorem registeredAt_snoc :
    RegisteredAt (events ++ [event]) id p ↔
      RegisteredAt events id p ∨ p = events.length ∧ event = .pushReadMessage id :=
  getElem?_snoc

theorem respondedAt_snoc :
    RespondedAt (events ++ [event]) id q ↔
      RespondedAt events id q ∨
        q = events.length ∧ ∃ message, event = .response message ∧ message.msgId = id := by
  constructor
  · rintro ⟨message, hq, hid⟩
    rcases getElem?_snoc.mp hq with hold | ⟨hlen, hev⟩
    · exact .inl ⟨message, hold, hid⟩
    · exact .inr ⟨hlen, message, hev, hid⟩
  · rintro (⟨message, hold, hid⟩ | ⟨hlen, message, hev, hid⟩)
    · exact ⟨message, getElem?_snoc.mpr (.inl hold), hid⟩
    · exact ⟨message, getElem?_snoc.mpr (.inr ⟨hlen, hev⟩), hid⟩

theorem firstRegistered_snoc :
    FirstRegistered (events ++ [event]) id p ↔
      FirstRegistered events id p ∨
        p = events.length ∧ event = .pushReadMessage id ∧ ∀ k, ¬ RegisteredAt events id k := by
  constructor
  · rintro ⟨hreg, hmin⟩
    have hold : ∀ k < p, ¬ RegisteredAt events id k := fun k hk h =>
      hmin k hk (registeredAt_snoc.mpr (.inl h))
    rcases registeredAt_snoc.mp hreg with h | ⟨rfl, hev⟩
    · exact .inl ⟨h, hold⟩
    · exact .inr ⟨rfl, hev, fun k h => hold k h.lt h⟩
  · rintro (⟨hreg, hmin⟩ | ⟨rfl, hev, hnone⟩)
    · refine ⟨registeredAt_snoc.mpr (.inl hreg), fun k hk h => ?_⟩
      rcases registeredAt_snoc.mp h with hold | ⟨rfl, -⟩
      · exact hmin k hk hold
      · exact absurd (hk.trans hreg.lt) (lt_irrefl _)
    · refine ⟨registeredAt_snoc.mpr (.inr ⟨rfl, hev⟩), fun k hk h => ?_⟩
      rcases registeredAt_snoc.mp h with hold | ⟨rfl, -⟩
      · exact hnone k hold
      · exact absurd hk (lt_irrefl _)

/-- A registration is no response, -/
theorem respondedAt_push :
    RespondedAt (events ++ [.pushReadMessage id']) id q ↔ RespondedAt events id q := by
  rw [respondedAt_snoc]
  exact ⟨fun hq => hq.resolve_right fun ⟨_, _, hev, _⟩ => (nomatch hev), .inl⟩

/-- and a response is no registration. -/
theorem firstRegistered_response {message : ProtobufProtocol} :
    FirstRegistered (events ++ [.response message]) id p ↔ FirstRegistered events id p := by
  rw [firstRegistered_snoc]
  exact ⟨fun hp => hp.resolve_right fun ⟨_, hev, _⟩ => (nomatch hev), .inl⟩

/-- An `id` that has been registered was registered a first time. -/
theorem exists_firstRegistered {k : Nat} (h : RegisteredAt events id k) :
    ∃ p, FirstRegistered events id p := by
  classical
  have hex : ∃ p, RegisteredAt events id p := ⟨k, h⟩
  exact ⟨Nat.find hex, Nat.find_spec hex, fun k hk => Nat.find_min hex hk⟩

/-! ### What the map and the callbacks are after a history -/

/-- The map holds the first registration of each `id`, and its callback has been run by
every later response with the `id`. -/
structure Tracks (events : List ReadEvent) (s : Replies) : Prop where
  time : s.time = events.length
  lookup : ∀ id p, s.connection.readDones.lookup id = some p ↔ FirstRegistered events id p
  invoked : ∀ p q, (p, q) ∈ s.invoked ↔
    ∃ id, FirstRegistered events id p ∧ p < q ∧ RespondedAt events id q
  sorted : s.invoked.Pairwise fun a b => a.2 < b.2

variable {s : Replies}

theorem Tracks.lookup_eq_none (h : Tracks events s) :
    s.connection.readDones.lookup id = none ↔ ∀ k, ¬ RegisteredAt events id k := by
  constructor
  · intro hnone k hk
    obtain ⟨p, hp⟩ := exists_firstRegistered hk
    rw [(h.lookup id p).mpr hp] at hnone
    cases hnone
  · intro hnone
    cases hl : s.connection.readDones.lookup id with
    | none => rfl
    | some p => exact absurd ((h.lookup id p).mp hl).1 (hnone p)

/-- A registration adds an entry if the `id` has none. -/
theorem Tracks.lookup_push (h : Tracks events s) :
    (s.connection.pushReadMessage id' s.time).readDones.lookup id = some p ↔
      FirstRegistered (events ++ [.pushReadMessage id']) id p := by
  rw [firstRegistered_snoc, ← h.lookup]
  unfold pushReadMessage
  split
  · -- the id is in the map, which stays as it is
    rename_i hsome
    refine ⟨.inl, fun hp => hp.resolve_right fun ⟨_, hev, hnone⟩ => ?_⟩
    obtain rfl := ReadEvent.pushReadMessage.inj hev
    rw [h.lookup_eq_none.mpr hnone] at hsome
    cases hsome
  · rename_i hnone
    rw [Option.not_isSome_iff_eq_none] at hnone
    by_cases hid : id = id'
    · -- the new entry is the one looked up, and there was none before
      subst hid
      rw [List.lookup_cons_self, hnone, h.time]
      constructor
      · intro hp
        exact .inr ⟨(Option.some.inj hp).symm, rfl, h.lookup_eq_none.mp hnone⟩
      · rintro (hp | ⟨rfl, -⟩)
        · cases hp
        · rfl
    · rw [List.lookup_cons, beq_false_of_ne hid]
      refine ⟨.inl, fun hp => hp.resolve_right fun ⟨_, hev, _⟩ => ?_⟩
      exact hid (ReadEvent.pushReadMessage.inj hev).symm

theorem Tracks.push (h : Tracks events s) (id' : List UInt8) :
    Tracks (events ++ [.pushReadMessage id']) (readStep s (.pushReadMessage id')) := by
  refine ⟨?_, fun id p => h.lookup_push, fun p q => ?_, h.sorted⟩
  · show s.time + 1 = _
    rw [h.time, List.length_append, List.length_singleton]
  · show (p, q) ∈ s.invoked ↔ _
    rw [h.invoked]
    refine exists_congr fun id => ?_
    rw [respondedAt_push, firstRegistered_snoc]
    constructor
    · rintro ⟨hp, hlt, hq⟩
      exact ⟨.inl hp, hlt, hq⟩
    · rintro ⟨hp | ⟨rfl, -⟩, hlt, hq⟩
      · exact ⟨hp, hlt, hq⟩
      · exact absurd (hlt.trans hq.lt) (lt_irrefl _)

/-- A response runs the callback in the map, which is the first registered for its `id`. -/
theorem Tracks.mem_called (h : Tracks events s) {message : ProtobufProtocol} :
    (p, q) ∈ ((readDone s.connection message).map (·, s.time)).toList ↔
      q = events.length ∧ FirstRegistered events message.msgId p := by
  rw [← h.lookup, ← h.time, Option.mem_toList, Option.map_eq_some_iff]
  constructor
  · rintro ⟨p', hp', heq⟩
    obtain ⟨rfl, rfl⟩ := Prod.mk.inj heq
    exact ⟨rfl, hp'⟩
  · rintro ⟨rfl, hp⟩
    exact ⟨p, hp, rfl⟩

theorem Tracks.response (h : Tracks events s) (message : ProtobufProtocol) :
    Tracks (events ++ [.response message]) (readStep s (.response message)) := by
  refine ⟨?_, fun id p => ?_, fun p q => ?_, ?_⟩
  · show s.time + 1 = _
    rw [h.time, List.length_append, List.length_singleton]
  · rw [firstRegistered_response]
    exact h.lookup id p
  · show (p, q) ∈ s.invoked ++ _ ↔ _
    rw [List.mem_append, h.mem_called, h.invoked]
    simp only [firstRegistered_response, respondedAt_snoc]
    constructor
    · rintro (⟨id, hp, hlt, hq⟩ | ⟨rfl, hp⟩)
      · exact ⟨id, hp, hlt, .inl hq⟩
      · exact ⟨message.msgId, hp, hp.1.lt, .inr ⟨rfl, message, rfl, rfl⟩⟩
    · rintro ⟨id, hp, hlt, hq | ⟨rfl, message', hev, rfl⟩⟩
      · exact .inl ⟨id, hp, hlt, hq⟩
      · obtain rfl := ReadEvent.response.inj hev
        exact .inr ⟨rfl, hp⟩
  · -- what runs now runs after everything that has run
    refine List.pairwise_append.mpr ⟨h.sorted, ?_, ?_⟩
    · cases readDone s.connection message <;> simp
    · rintro ⟨p, q⟩ hold ⟨p', q'⟩ hnew
      obtain ⟨id, -, -, hq⟩ := (h.invoked p q).mp hold
      obtain ⟨rfl, -⟩ := h.mem_called.mp hnew
      exact hq.lt

theorem tracks_replies (c : TcpConnection Nat) (events : List ReadEvent) :
    Tracks events (replies c events) := by
  induction events using List.reverseRecOn with
  | nil =>
      refine ⟨rfl, fun id p => ?_, fun p q => ?_, .nil⟩
      · exact ⟨nofun, fun h => (nomatch h.1)⟩
      · exact ⟨nofun, fun ⟨_, h, _⟩ => (nomatch h.1)⟩
  | append_singleton events event ih =>
      rw [replies, List.foldl_append]
      cases event with
      | pushReadMessage id => exact ih.push id
      | response message => exact ih.response message

/-- **The first callback registered for a `msg_id` gets every response with it.** -/
theorem mem_invoked_iff (c : TcpConnection Nat) :
    (p, q) ∈ (replies c events).invoked ↔
      ∃ id, FirstRegistered events id p ∧ p < q ∧ RespondedAt events id q :=
  (tracks_replies c events).invoked p q

/-- A callback that is run twice is the first of its `msg_id`, and two responses with it
arrive after its registration. -/
theorem once_of_oneResponse (c : TcpConnection Nat) (h : OneResponse events) :
    ((replies c events).invoked.map Prod.fst).Nodup := by
  rw [List.Nodup, List.pairwise_map]
  -- two runs of one callback are two responses, at different times
  refine (tracks_replies c events).sorted.imp_of_mem fun {a b} ha hb hlt heq => ?_
  obtain ⟨p, q⟩ := a
  obtain ⟨p', q'⟩ := b
  obtain rfl : p = p' := heq
  obtain ⟨id, hp, hpq, hq⟩ := (mem_invoked_iff c).mp ha
  obtain ⟨id', hp', hpq', hq'⟩ := (mem_invoked_iff c).mp hb
  obtain rfl := hp.1.unique hp'.1
  have hsame : q = q' := h id p q q' hp hpq hpq' hq hq'
  exact absurd hlt (by show ¬ q < q'; omega)

/-- **Exactly when the callbacks are served as they should be**: when no `msg_id` gets a
second response after its first registration. -/
theorem read_dones_iff (c : TcpConnection Nat) (events : List ReadEvent) :
    ServedOnce events (replies c events).invoked ↔ OneResponse events := by
  constructor
  · intro h id p q q' hp hpq hpq' hq hq'
    have hmem : (p, q) ∈ (replies c events).invoked :=
      (mem_invoked_iff c).mpr ⟨id, hp, hpq, hq⟩
    have hmem' : (p, q') ∈ (replies c events).invoked :=
      (mem_invoked_iff c).mpr ⟨id, hp, hpq', hq'⟩
    have hsame := List.inj_on_of_nodup_map h.once hmem hmem' rfl
    exact congrArg Prod.snd hsame
  · intro h
    refine ⟨once_of_oneResponse c h, fun p q hmem => ?_, ?_⟩
    · obtain ⟨id, hp, hpq, hq⟩ := (mem_invoked_iff c).mp hmem
      refine ⟨id, hp.1, hpq, hq, fun k hpk hkq hk => ?_⟩
      have hsame : k = q := h id p k q hp hpk hpq hk hq
      omega
    · -- the earlier callback would be run again, so there is no next response
      intro id p q p' q' hmem hp' hlt hp hq
      obtain ⟨id', hfirst, hpq', hq'⟩ := (mem_invoked_iff c).mp hmem
      obtain rfl := hfirst.1.unique hp'
      have hsame : q' = q := h id' p' q' q hfirst hpq' (by have := hq.1; omega) hq' hq.2.1
      have := hq.1
      omega

/-- A client connection on which nothing has happened. -/
def newClient : TcpConnection Nat :=
  TcpConnection.ofBufferSize Nat 128 bufferSize_lt .tcpConnectionByClient

/-- Two registrations under one `msg_id`, each followed by a response: the first callback
is run twice, and the second not at all. -/
def repeatedId : List ReadEvent :=
  [.pushReadMessage [49], .response shortRequest, .pushReadMessage [49], .response shortRequest]

theorem repeatedId_not_served :
    (replies newClient repeatedId).invoked = [(0, 1), (0, 3)] ∧
      ¬ ∀ (c : TcpConnection Nat) (events : List ReadEvent),
        ServedOnce events (replies c events).invoked := by
  have hinvoked : (replies newClient repeatedId).invoked = [(0, 1), (0, 3)] := by
    decide +kernel
  refine ⟨hinvoked, fun h => ?_⟩
  have honce := (h newClient repeatedId).once
  rw [hinvoked] at honce
  exact absurd honce (by decide)

end TinyRpc
