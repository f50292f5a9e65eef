/-
TinyRpc/ServerClients.lean

A server with any number of clients, each at the other end of a connection of its own.

The connections share the dispatcher and nothing else.  What the handlers do may change from one
request to the next, not least by what they are asked by other clients; so a call of `on_read`
comes with the tables that its requests find, and the tables that the requests of a client have
found are kept beside its session.

`clients_correlate`: whatever the other clients do, each client gets the responses to its own
requests, and each of them is what the dispatcher gives with the table of that moment.  `msg_id`s
need to be different for one client only.
-/
import TinyRpc.Base.Systems
import TinyRpc.SessionCalls

namespace TinyRpc

open Checked Bytes TcpBuffer ProtobufProtocol Runs Framing

variable {M κ : Type}

/-- How many requests the server has decoded, and looked up in its tables. -/
def Session.dispatches (s : Session κ) : Nat := s.server.decoded.length

/-- A client and its connection, with the tables that its requests have found. -/
abbrev ClientSession (M κ : Type) := Chosen (Session κ) (ServiceMap M)

/-- A session in which nothing has happened. -/
def ClientSession.start : ClientSession M κ := ⟨Session.start κ, []⟩

/-- A step of the server with all its clients. -/
def serverClientsStep {ι : Type} [DecidableEq ι] :
    Step (ι → ClientSession M κ) (ι × SessionEvent κ × (Nat → ServiceMap M)) :=
  each fun _ => choosing sessionStep Session.dispatches

/-! ### The tables of a client -/

section Tables

variable {services services' : Nat → ServiceMap M}

/-- The dispatcher looks at the tables of the requests that it is given. -/
theorem dispatchAll_congr {k : Nat} {requests : List ProtobufProtocol}
    (h : ∀ j, k ≤ j → j < k + requests.length → services j = services' j) :
    dispatchAll services k requests = dispatchAll services' k requests := by
  induction requests generalizing k with
  | nil => rfl
  | cons request requests ih =>
      rw [List.length_cons] at h
      have hrest : dispatchAll services (k + 1) requests = dispatchAll services' (k + 1) requests :=
        ih fun j hj hlt => h j (Nat.le_of_succ_le hj) (by omega)
      rw [dispatchAll, dispatchAll, h k (Nat.le_refl k) (by omega), hrest]

/-- A conversation depends on the tables of the requests that have been dispatched. -/
theorem Conversing.congr {s : Session κ} (h : Conversing services s)
    (hsame : ∀ j < s.server.decoded.length, services j = services' j) : Conversing services' s :=
  { h with
    answered := by
      rw [h.answered]
      exact dispatchAll_congr fun j _ hlt => hsame j (by omega) }

/-- The server does not forget what it has decoded. -/
theorem decoded_sessionStep {s s' : Session κ} {event : SessionEvent κ}
    (hs : s' ∈ sessionStep services s event) : s.server.decoded <+: s'.server.decoded := by
  cases event with
  | writeMessage message done =>
      obtain ⟨-, heq⟩ := Option.mem_ite_none_left.mp hs
      obtain rfl := Option.some.inj heq
      exact List.prefix_rfl
  | clientWrite results =>
      obtain ⟨⟨client, called⟩, -, rfl⟩ := Option.map_eq_some_iff.mp hs
      exact List.prefix_rfl
  | serverRead results fuel =>
      obtain ⟨⟨server, result⟩, hread, hs⟩ := Option.bind_eq_some_iff.mp hs
      have hdecoded := (Endpoint.readOn hread).decoded
      cases result with
      | none =>
          obtain rfl := Option.some.inj hs
          exact ⟨_, hdecoded.symm⟩
      | some requests =>
          obtain ⟨server', hreply, rfl⟩ := Option.map_eq_some_iff.mp hs
          exact ⟨_, ((Endpoint.replied hreply).decoded.trans hdecoded).symm⟩
  | serverWrite results =>
      obtain ⟨⟨server, called⟩, hwrite, rfl⟩ := Option.map_eq_some_iff.mp hs
      obtain ⟨w, hw, -⟩ := Endpoint.wrote hwrite
      exact ⟨[], (List.append_nil _).trans hw.decoded.symm⟩
  | clientRead results fuel =>
      obtain ⟨⟨client, result⟩, -, rfl⟩ := Option.map_eq_some_iff.mp hs
      exact List.prefix_rfl

end Tables

/-! ### What every step keeps -/

/-- The invariants of the two theorems about one session. -/
structure Serving (services : Nat → ServiceMap M) (s : Session κ) : Prop where
  conversing : Conversing services s
  unmixed : Unmixed s

/-- What the events of a client are to satisfy. -/
def Admits (s : Session κ) (event : SessionEvent κ) : Prop := Orderly s event ∧ FreshIds s event

theorem Serving.start : Serving (M := M) services (Session.start κ) :=
  ⟨Conversing.start, List.nodup_nil, rfl⟩

theorem Serving.step (services : Nat → ServiceMap M) (s : Session κ) (event : SessionEvent κ)
    (s' : Session κ) (h : Serving services s) (hevent : Admits s event)
    (hs : s' ∈ sessionStep services s event) : Serving services s' := by
  have hconv := Conversing.step s event s' h.conversing hevent.1 hs
  exact ⟨hconv, h.unmixed.step h.conversing hconv hevent.2 hs⟩

theorem Serving.congr (services services' : Nat → ServiceMap M) (s : Session κ)
    (h : Serving services s) (hsame : ∀ k < s.dispatches, services k = services' k) :
    Serving services' s :=
  ⟨h.conversing.congr hsame, h.unmixed⟩

/-- The tables that a client has found determine how its session goes on. -/
theorem Serving.keeps (s : ClientSession M κ) (event : SessionEvent κ × (Nat → ServiceMap M))
    (s' : ClientSession M κ) (h : HoldsSoFar Serving Session.dispatches s)
    (hevent : Admits s.state event.1)
    (hs : s' ∈ choosing sessionStep Session.dispatches s event) :
    HoldsSoFar Serving Session.dispatches s' :=
  choosing_keeps Serving.congr (fun _ _ _ _ hs => (decoded_sessionStep hs).length_le) Serving.step
    s event s' h hevent hs

/-- **Every client gets its own responses.**  However the clients and the calls for them take turns,
the callbacks that a client has run are those of its first requests, in order, each with the
response that the dispatcher gives to the request with the table that it has found; and once
nothing of this client is under way, all of them have been run. -/
theorem clients_correlate {ι : Type} [DecidableEq ι]
    (events : List (ι × SessionEvent κ × (Nat → ServiceMap M)))
    (h : Meets serverClientsStep (fun s event => Admits (s event.1).state event.2.1)
      (fun _ => ClientSession.start) events) :
    Always serverClientsStep
      (fun s => ∀ i later, Correlated (chosenAt (s i).choices later) (s i).state)
      (fun _ => ClientSession.start) events :=
  always_each (I := fun _ => HoldsSoFar Serving Session.dispatches)
    (fun _ _ hs later => (hs.holds later).unmixed.correlated (hs.holds later).conversing)
    (fun _ => Serving.keeps) (fun _ => ⟨rfl, fun _ => Serving.start⟩) h

/-- Two clients with the same `msg_id`s, one behind the other in every stage; the tables of the
second have no service. -/
def twoRoundTrips : List (Bool × SessionEvent Nat × (Nat → ServiceMap (List UInt8))) :=
  let bare : Nat → ServiceMap (List UInt8) := fun _ => registered []
  ((roundTrip echoServices mixedCalls).zip (roundTrip bare mixedCalls)).flatMap fun event =>
    [(true, event.1, echoServices), (false, event.2, bare)]

theorem twoRoundTrips_prompt :
    Meets serverClientsStep (fun s event => Prompt (s event.1).state event.2.1 ∧
      FreshIds (s event.1).state event.2.1) (fun _ => ClientSession.start) twoRoundTrips := by
  decide +kernel

theorem clients_correlate_twoRoundTrips :
    Always serverClientsStep
      (fun s => ∀ i later, Correlated (chosenAt (s i).choices later) (s i).state)
      (fun _ => ClientSession.start) twoRoundTrips :=
  clients_correlate twoRoundTrips
    (meets_of_meets (I := fun s => ∀ i, HoldsSoFar Serving Session.dispatches (s i))
      (fun _ event hs hevent =>
        ⟨((hs event.1).holds event.2.2).conversing.orderly hevent.1, hevent.2⟩)
      (each_keeps fun _ => Serving.keeps) (fun _ => ⟨rfl, fun _ => Serving.start⟩)
      twoRoundTrips_prompt)

end TinyRpc
