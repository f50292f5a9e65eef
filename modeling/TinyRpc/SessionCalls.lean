/-
TinyRpc/SessionCalls.lean

The callbacks of a conversation, and the responses that they get.

The client finds the callback for a response under the `msg_id` of the response.  As the
responses come in the order of the requests, and carry their `msg_id`s, the callbacks are
run in the order of the requests, provided that no two requests have the same `msg_id`:
`session_correlates`.
-/
import TinyRpc.Session

namespace TinyRpc

open Checked Bytes TcpBuffer ProtobufProtocol Runs Framing

variable {M κ : Type}

/-! ### Callbacks and responses -/

section Calls

/-- What lies behind the shorter list does not matter to a `zip`. -/
theorem zip_of_length_le {α β : Type} {l l' : List α} {d : List β} (h : d.length ≤ l.length) :
    (l ++ l').zip d = l.zip d := by
  induction d generalizing l with
  | nil => rw [List.zip_nil_right, List.zip_nil_right]
  | cons y d ih =>
      rcases l with - | ⟨x, l⟩
      · exact absurd h (Nat.not_succ_le_zero _)
      · rw [List.cons_append, List.zip_cons_cons, List.zip_cons_cons,
          ih (Nat.le_of_succ_le_succ h)]

theorem zip_isPrefix {α β : Type} {l : List α} {d d' : List β} (h : d <+: d') :
    l.zip d <+: l.zip d' := by
  induction l generalizing d d' with
  | nil => exact List.prefix_rfl
  | cons x l ih =>
      rcases d with - | ⟨y, d⟩
      · rw [List.zip_nil_right]
        exact List.nil_prefix
      · obtain ⟨t, rfl⟩ := h
        rw [List.cons_append, List.zip_cons_cons, List.zip_cons_cons]
        exact (List.prefix_append_right_inj [_]).mpr (ih (List.prefix_append d t))

variable {written : List (ProtobufProtocol × κ)}

/-- Where no `msg_id` comes twice, the callback of a request is found under its own. -/
theorem lookup_entry (hnodup : (written.map fun call => call.1.msgId).Nodup)
    {call : ProtobufProtocol × κ} (hmem : call ∈ written) :
    (written.map entry).lookup call.1.msgId = some call.2 := by
  obtain ⟨before, behind, rfl⟩ := List.append_of_mem hmem
  rw [List.lookup_eq_some_iff]
  refine ⟨before.map entry, behind.map entry, by simp [entry], fun p hp => ?_⟩
  obtain ⟨other, hother, rfl⟩ := List.mem_map.mp hp
  rw [List.map_append, List.map_cons, List.nodup_append] at hnodup
  have hne := hnodup.2.2 _ (List.mem_map_of_mem hother) _ List.mem_cons_self
  exact bne_iff_ne.mpr (Ne.symm hne)

/-- Responses to some requests in their order run the callbacks of these requests. -/
theorem filterMap_lookup {calls : List (ProtobufProtocol × κ)} {result : List ProtobufProtocol}
    (hfound : ∀ call ∈ calls, (written.map entry).lookup call.1.msgId = some call.2)
    (hids : result.map msgId = calls.map fun call => call.1.msgId) :
    (result.filterMap fun m => ((written.map entry).lookup m.msgId).map (·, m)) =
      (calls.map Prod.snd).zip result := by
  induction calls generalizing result with
  | nil =>
      obtain rfl := List.map_eq_nil_iff.mp hids
      rfl
  | cons call calls ih =>
      rcases result with - | ⟨m, result⟩
      · cases hids
      · obtain ⟨hid, hrest⟩ := List.cons.inj hids
        have hrun : ((written.map entry).lookup m.msgId).map (·, m) = some (call.2, m) := by
          rw [hid, hfound call List.mem_cons_self]
          rfl
        rw [List.filterMap_cons, List.map_cons, List.zip_cons_cons,
          ih (fun call' hcall' => hfound call' (List.mem_cons_of_mem _ hcall')) hrest, hrun]

/-- The callbacks run so far are continued by those of the next responses. -/
theorem zip_calls (hnodup : (written.map fun call => call.1.msgId).Nodup)
    {decoded result : List ProtobufProtocol}
    (hids : (decoded ++ result).map msgId <+: written.map fun call => call.1.msgId) :
    (written.map Prod.snd).zip (decoded ++ result) =
      (written.map Prod.snd).zip decoded ++
        result.filterMap fun m => ((written.map entry).lookup m.msgId).map (·, m) := by
  obtain ⟨t, ht⟩ := hids
  rw [List.map_append, List.append_assoc] at ht
  obtain ⟨before, rest, hwritten, hbefore, hrest⟩ := List.map_eq_append_iff.mp ht.symm
  obtain ⟨calls, behind, rfl, hcalls, -⟩ := List.map_eq_append_iff.mp hrest
  have hlength : decoded.length = before.length := by
    simpa using congrArg List.length hbefore.symm
  have hlength' : result.length = calls.length := by
    simpa using congrArg List.length hcalls.symm
  have hfound : ∀ call ∈ calls, (written.map entry).lookup call.1.msgId = some call.2 := by
    intro call hcall
    refine lookup_entry hnodup ?_
    rw [hwritten]
    exact List.mem_append_right _ (List.mem_append_left _ hcall)
  have hleft : (before.map Prod.snd ++ (calls ++ behind).map Prod.snd).zip decoded =
      (before.map Prod.snd).zip decoded := zip_of_length_le (by simp [hlength])
  have hright : (calls.map Prod.snd ++ behind.map Prod.snd).zip result =
      (calls.map Prod.snd).zip result := zip_of_length_le (by simp [hlength'])
  rw [filterMap_lookup hfound hcalls.symm, hwritten, List.map_append, hleft,
    List.zip_append (by simp [hlength]), List.map_append, hright]

end Calls

/-! ### Requests with `msg_id`s of their own -/

/-- No `msg_id` comes twice, and the callbacks run are those of the first requests, each with the
message decoded for it. -/
structure Unmixed (s : Session κ) : Prop where
  nodup : s.msgIds.Nodup
  called : s.called = (s.pushed.map Prod.snd).zip s.client.decoded

section Correlation

variable {services : Nat → ServiceMap M} {s s' : Session κ}

theorem length_dispatchAll (k : Nat) (requests : List ProtobufProtocol) :
    (dispatchAll services k requests).length = requests.length := by
  have hids := congrArg List.length (dispatchAll_ids services k requests)
  rwa [List.length_map, List.length_map] at hids

/-- The client has no more messages than requests. -/
theorem Conversing.decoded_length (h : Conversing services s) :
    s.client.decoded.length ≤ s.pushed.length := by
  refine h.inOrder.received.length_le.trans_eq ?_
  rw [Session.remote, List.length_map, responses, length_dispatchAll, List.length_map,
    List.length_map]

/-- The messages that the client has decoded have the `msg_id`s of the requests written. -/
theorem Conversing.decoded_ids (h : Conversing services s)
    {written : List (ProtobufProtocol × κ)} (hsent : s.client.sent = written.map Prod.fst) :
    s.client.decoded.map msgId <+: written.map fun call => call.1.msgId := by
  have hids : ∀ ms : List ProtobufProtocol, (ms.map delivered).map msgId = ms.map msgId :=
    fun ms => by rw [List.map_map]; rfl
  have hanswers : s.server.sent.map msgId = s.server.decoded.map msgId := by
    have hboth := congrArg (List.map Prod.fst) (dispatchAll_ids services 0 s.server.decoded)
    rw [← h.answered, List.map_map, List.map_map] at hboth
    exact hboth
  have hclient := h.toClient.decoded_isPrefix.map msgId
  have hserver := h.toServer.decoded_isPrefix.map msgId
  rw [hids, hanswers] at hclient
  rw [hids, hsent, List.map_map] at hserver
  exact hclient.trans hserver

/-- The client runs the callbacks of the requests whose responses it decodes. -/
theorem Unmixed.clientRead (hu : Unmixed s) (h : Conversing services s)
    {results : List ReadResult} {fuel : Nat} {client : Endpoint κ}
    {result : Option (List ProtobufProtocol)}
    (hread : s.client.onRead s.server.out.accepted results fuel = some (client, result))
    (h' : Conversing services
      { s with
        client := client
        called := s.called ++ responseCalls client.connection (result.getD []) }) :
    Unmixed
      { s with
        client := client
        called := s.called ++ responseCalls client.connection (result.getD []) } := by
  have hon := Endpoint.readOn hread
  have hloops := (Endpoint.onRead_eq_some hread).1
  obtain ⟨written, hpushed, hsent, hregistered⟩ := h.queued
  have hnodup : (written.map fun call => call.1.msgId).Nodup := by
    have hall := hu.nodup
    rw [Session.msgIds, hpushed, List.map_append] at hall
    exact hall.sublist (List.sublist_append_left _ _)
  have hids := @Conversing.decoded_ids M κ services _ h' written (hon.sent.trans hsent)
  dsimp only at hids
  rw [hon.decoded] at hids
  have hlength := hids.length_le
  rw [List.length_map, List.length_map] at hlength
  have hrun : responseCalls client.connection (result.getD []) =
      (result.getD []).filterMap fun m => ((written.map entry).lookup m.msgId).map (·, m) := by
    unfold responseCalls readDone
    rw [hon.readDones]
    simp only [hregistered hloops]
  refine ⟨hu.nodup, ?_⟩
  show s.called ++ _ = (s.pushed.map Prod.snd).zip client.decoded
  have hold : s.client.decoded.length ≤ (written.map Prod.snd).length := by
    rw [List.length_append] at hlength
    rw [List.length_map]
    omega
  rw [hu.called, hrun, hon.decoded, hpushed, List.map_append, zip_of_length_le hold,
    zip_of_length_le (by rw [List.length_map]; exact hlength), zip_calls hnodup hids]

theorem Unmixed.step (hu : Unmixed s) (h : Conversing services s) (h' : Conversing services s')
    {event : SessionEvent κ} (hfresh : FreshIds s event)
    (hs : s' ∈ sessionStep services s event) : Unmixed s' := by
  cases event with
  | writeMessage message done =>
      obtain ⟨-, heq⟩ := Option.mem_ite_none_left.mp hs
      obtain rfl := Option.some.inj heq
      refine ⟨?_, ?_⟩
      · show ((s.pushed ++ [(message, done)]).map fun call => call.1.msgId).Nodup
        rw [List.map_append]
        exact hu.nodup.append (List.nodup_singleton _) (List.disjoint_singleton.mpr hfresh)
      · show s.called = ((s.pushed ++ [(message, done)]).map Prod.snd).zip s.client.decoded
        rw [List.map_append, zip_of_length_le (by rw [List.length_map]; exact h.decoded_length)]
        exact hu.called
  | clientWrite results =>
      obtain ⟨⟨client, called⟩, hwrite, rfl⟩ := Option.map_eq_some_iff.mp hs
      obtain ⟨w, hw, -⟩ := Endpoint.wrote hwrite
      refine ⟨hu.nodup, ?_⟩
      show s.called = (s.pushed.map Prod.snd).zip client.decoded
      rw [hw.decoded]
      exact hu.called
  | serverRead results fuel =>
      obtain ⟨⟨server, result⟩, -, hs⟩ := Option.bind_eq_some_iff.mp hs
      cases result with
      | none =>
          obtain rfl := Option.some.inj hs
          exact ⟨hu.nodup, hu.called⟩
      | some requests =>
          obtain ⟨server', -, rfl⟩ := Option.map_eq_some_iff.mp hs
          exact ⟨hu.nodup, hu.called⟩
  | serverWrite results =>
      obtain ⟨⟨server, called⟩, -, rfl⟩ := Option.map_eq_some_iff.mp hs
      exact ⟨hu.nodup, hu.called⟩
  | clientRead results fuel =>
      obtain ⟨⟨client, result⟩, hread, rfl⟩ := Option.map_eq_some_iff.mp hs
      exact hu.clientRead h hread h'

/-- **Once nothing is under way, every request has its response.** -/
theorem Conversing.received_all (h : Conversing services s) (hsettled : s.Settled) :
    s.client.decoded = s.remote services := by
  obtain ⟨written, hpushed, hsent, -⟩ := h.queued
  rw [waiting_of_returned hsettled.clientReturns, hsettled.written, List.append_nil] at hpushed
  have hserver := h.toServer.all
    (hsettled.requestsRead.trans (hsettled.requestsSent.trans h.client.bytes))
  have hclient := h.toClient.all
    (hsettled.responsesRead.trans (hsettled.responsesSent.trans h.server.bytes))
  rw [hclient, h.answered, hserver, hsent, ← hpushed]
  rfl

theorem Unmixed.correlated (hu : Unmixed s) (h : Conversing services s) :
    Correlated services s where
  called := by
    rw [hu.called]
    exact zip_isPrefix h.inOrder.received
  all hsettled := by rw [hu.called, h.received_all hsettled]

end Correlation

/-- **Every request gets its own response.**  If moreover no two requests have the same `msg_id`,
the callbacks run are, in order, those of the first requests, each with the response that the
dispatcher gives to its request; and once nothing is under way, all have been run. -/
theorem session_correlates (services : Nat → ServiceMap M) (events : List (SessionEvent κ))
    (h : Meets (sessionStep services) (fun s event => Orderly s event ∧ FreshIds s event)
      (Session.start κ) events) :
    Always (sessionStep services) (Correlated services) (Session.start κ) events := by
  have hstart : Conversing services (Session.start κ) ∧ Unmixed (Session.start κ) :=
    ⟨Conversing.start, List.nodup_nil, rfl⟩
  refine always_of_meets (I := fun s => Conversing services s ∧ Unmixed s)
    (fun s hs => hs.2.correlated hs.1) ?_ hstart h
  rintro s event s' ⟨hconv, hu⟩ ⟨horderly, hfresh⟩ hs
  have hconv' := Conversing.step s event s' hconv horderly hs
  exact ⟨hconv', hu.step hconv hconv' hfresh hs⟩

instance decidableFreshIds (s : Session κ) : ∀ event, Decidable (FreshIds s event)
  | .writeMessage message _ => inferInstanceAs (Decidable (message.msgId ∉ s.msgIds))
  | .clientWrite _ => isTrue trivial
  | .serverRead _ _ => isTrue trivial
  | .serverWrite _ => isTrue trivial
  | .clientRead _ _ => isTrue trivial

theorem roundTrip_fresh :
    Meets (sessionStep echoServices) (fun s event => Prompt s event ∧ FreshIds s event)
      (Session.start Nat) (roundTrip echoServices mixedCalls) := by
  decide +kernel

theorem session_correlates_roundTrip :
    Always (sessionStep echoServices) (Correlated echoServices) (Session.start Nat)
      (roundTrip echoServices mixedCalls) :=
  session_correlates echoServices _
    (meets_of_meets (fun _ _ h hevent => ⟨h.orderly hevent.1, hevent.2⟩)
      (fun s event s' h hevent => Conversing.step s event s' h hevent.1) Conversing.start
      roundTrip_fresh)

end TinyRpc
