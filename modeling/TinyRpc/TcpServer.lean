/-
TinyRpc/TcpServer.lean

The clients of a server: their fds, their connections, and the count of them.

`on_accept` counts a client and keeps its connection.  When the peer closes,
`on_read` clears the connection, which is then closed, and no longer in the epoll
instance; but nobody closes the fd, takes the connection out of `m_client` or
counts the client off.  So nothing is ever given back: `nothing_given_back`.

`clientsAgree_iff_meets`: the fds, the connections and the count agree in exactly the
runs in which no peer closes.
-/
import Mathlib.Data.Finset.Insert
import TinyRpc.Base.Fifo
import TinyRpc.OnRead

namespace TinyRpc

open Checked Runs Fifo

variable {φ κ : Type} [DecidableEq φ]

structure TcpServer (φ κ : Type) where
  /-- the client fds that are open -/
  openFds : Finset φ
  /-- the connections in `m_client`, with their fds, in the order of their `on_accept` -/
  client : List (φ × TcpConnection κ)
  clientCounts : Nat

inductive ServerEvent (φ κ : Type)
  /-- `on_accept`, which is given an fd by the kernel -/
  | accept (fd : φ)
  /-- `on_read` of a client, and what its calls of `::read` return -/
  | read (i : Nat) (results : List ReadResult)
  /-- what else a connection does, `excute` and `on_write`, up to its next `on_read` -/
  | work (i : Nat) (connection : TcpConnection κ)

namespace TcpServer

/-- A server before its first client. -/
def start : TcpServer φ κ := ⟨∅, [], 0⟩

/-- The connection of a new client. -/
def accepted (κ : Type) : TcpConnection κ :=
  (TcpConnection.ofBufferSize κ 128 bufferSize_lt .tcpConnectionByServer).setState .connected

/-- `on_accept`.  If `accept` fails, the process ends. -/
def onAccept (s : TcpServer φ κ) (fd : φ) : TcpServer φ κ where
  openFds := insert fd s.openFds
  client := s.client ++ [(fd, accepted κ)]
  clientCounts := s.clientCounts + 1

def setConnection (s : TcpServer φ κ) (i : Nat) (fd : φ) (c : TcpConnection κ) : TcpServer φ κ :=
  { s with client := s.client.set i (fd, c) }

end TcpServer

/-- The loop of `on_read` calls `::read` again after these results. -/
def readsOn (results : List ReadResult) (b : TcpBuffer) : Bool :=
  match readLoop results b with
  | .ok none => true
  | _ => false

/-- The results are those that one call of `on_read` gets: it needs the last one, and none if
the connection is not connected. -/
def ReadsUsedUp {κ : Type} (c : TcpConnection κ) (results : List ReadResult) : Prop :=
  if c.state = .connected then readsOn results.dropLast c.inBuffer = true else results = []

instance {κ : Type} (c : TcpConnection κ) (results : List ReadResult) :
    Decidable (ReadsUsedUp c results) :=
  inferInstanceAs (Decidable (ite _ _ _))

def serverStep : Step (TcpServer φ κ) (ServerEvent φ κ)
  | s, .accept fd => if fd ∈ s.openFds then none else some (s.onAccept fd)
  | s, .read i results =>
      s.client[i]?.bind fun (fd, c) =>
        if ReadsUsedUp c results then
          (onRead c results).toOption.join.map fun (c, _) => s.setConnection i fd c
        else none
  | s, .work i c' =>
      s.client[i]?.bind fun (fd, c) =>
        if c'.state = c.state then some (s.setConnection i fd c') else none

namespace TcpServer

/-- The fds of the connections in `m_client`, and their states. -/
def states (s : TcpServer φ κ) : List (φ × TcpState) := s.client.map fun p => (p.1, p.2.state)

end TcpServer

/-- The open fds are those of the connections that are not closed; no closed connection is in
`m_client`; and `m_client_counts` is the number of the connections that are not closed. -/
structure ClientsAgree (s : TcpServer φ κ) : Prop where
  openFds : ∀ fd, fd ∈ s.openFds ↔ ∃ state, (fd, state) ∈ s.states ∧ state ≠ .closed
  noneClosed : ∀ p ∈ s.states, p.2 ≠ .closed
  clientCounts : s.clientCounts = (s.states.filter fun p => p.2 ≠ .closed).length

/-- No call of `::read` returns 0: the peer stays. -/
def PeerStays (_ : TcpServer φ κ) : ServerEvent φ κ → Prop
  | .read _ results => .eof ∉ results
  | _ => True

/-! ### How a call of `on_read` ends -/

theorem readsOn_eq {results : List ReadResult} {b : TcpBuffer} (h : readsOn results b = true) :
    readLoop results b = .ok none := by
  unfold readsOn at h
  split at h
  · assumption
  · cases h

/-- The loop is left by `is_close` if and only if the last of its reads returned 0. -/
theorem close_iff_eof {b b' : TcpBuffer} {results : List ReadResult} {exit : ReadExit}
    (hused : readLoop results.dropLast b = .ok none)
    (h : readLoop results b = .ok (some (b', exit))) : exit = .close ↔ .eof ∈ results := by
  induction results generalizing b with
  | nil => cases h
  | cons result results ih =>
      rw [readLoop] at h
      obtain ⟨b₁, hgrow, h⟩ := bind_eq_ok.mp h
      cases results with
      | nil =>
          -- the last read ends the loop
          cases result with
          | data bytes =>
              dsimp only at h
              split at h
              · obtain ⟨-, rfl⟩ := Prod.mk.inj (Option.some.inj (Except.ok.inj h))
                simp
              · cases h
          | eof =>
              obtain ⟨-, rfl⟩ := Prod.mk.inj (Option.some.inj (Except.ok.inj h))
              simp
          | again =>
              obtain ⟨-, rfl⟩ := Prod.mk.inj (Option.some.inj (Except.ok.inj h))
              simp
          | error => cases h
      | cons next rest =>
          -- the loop goes on, so the read did not return 0
          rw [List.dropLast_cons_cons, readLoop, hgrow, ok_bind] at hused
          cases result with
          | data bytes =>
              dsimp only at h hused
              split at hused
              · cases hused
              · rename_i hfull
                rw [if_neg hfull] at h
                rw [ih hused h]
                simp
          | eof => cases hused
          | again => cases hused
          | error =>
              rw [ih hused h]
              simp

/-- A call of `on_read` closes the connection if and only if it was connected and a read
returned 0; otherwise it leaves the state alone. -/
theorem onRead_state {c c' : TcpConnection κ} {results : List ReadResult}
    {handed : Option (List UInt8)} (hused : ReadsUsedUp c results)
    (h : onRead c results = .ok (some (c', handed))) :
    c'.state = if .eof ∈ results then .closed else c.state := by
  rcases onRead_cases h with ⟨hc, rfl, -⟩ | ⟨hc, b, hloop, rfl, -⟩ | ⟨hc, b, hloop, rfl, -⟩
  · rw [ReadsUsedUp, if_neg hc] at hused
    rw [hused]
    rfl
  · rw [ReadsUsedUp, if_pos hc] at hused
    rw [if_pos ((close_iff_eof (readsOn_eq hused) hloop).mp rfl)]
    simp [TcpConnection.clear, hc]
  · rw [ReadsUsedUp, if_pos hc] at hused
    have heof := close_iff_eof (readsOn_eq hused) hloop
    rw [if_neg fun hmem => ReadExit.noConfusion (heof.mpr hmem)]

/-! ### What every event does to the bookkeeping -/

section Events

variable {s s' : TcpServer φ κ}

theorem serverStep_accept {fd : φ} (hs : s' ∈ serverStep s (.accept fd)) :
    fd ∉ s.openFds ∧ s' = s.onAccept fd := by
  rw [serverStep] at hs
  split at hs
  · cases hs
  · rename_i hnew
    exact ⟨hnew, (Option.some.inj hs).symm⟩

theorem serverStep_read {i : Nat} {results : List ReadResult}
    (hs : s' ∈ serverStep s (.read i results)) :
    ∃ fd c c', s.client[i]? = some (fd, c) ∧ s' = s.setConnection i fd c' ∧
      c'.state = if .eof ∈ results then .closed else c.state := by
  obtain ⟨⟨fd, c⟩, hclient, hs⟩ := Option.bind_eq_some_iff.mp hs
  obtain ⟨hused, hs⟩ := Option.mem_ite_none_right.mp hs
  obtain ⟨⟨c', handed⟩, hread, rfl⟩ := Option.map_eq_some_iff.mp hs
  have hrun := toOption_eq_some.mp (Option.join_eq_some_iff.mp hread)
  exact ⟨fd, c, c', hclient, rfl, onRead_state hused hrun⟩

theorem serverStep_work {i : Nat} {c' : TcpConnection κ}
    (hs : s' ∈ serverStep s (.work i c')) :
    ∃ fd c, s.client[i]? = some (fd, c) ∧ s' = s.setConnection i fd c' ∧ c'.state = c.state := by
  obtain ⟨⟨fd, c⟩, hclient, hs⟩ := Option.bind_eq_some_iff.mp hs
  obtain ⟨hstate, hs⟩ := Option.mem_ite_none_right.mp hs
  exact ⟨fd, c, hclient, (Option.some.inj hs).symm, hstate⟩

omit [DecidableEq φ] in
theorem states_setConnection (i : Nat) (fd : φ) (c : TcpConnection κ) :
    (s.setConnection i fd c).states = s.states.set i (fd, c.state) := List.map_set

omit [DecidableEq φ] in
/-- A connection that keeps its state changes nothing. -/
theorem states_eq_of_state_eq {i : Nat} {fd : φ} {c c' : TcpConnection κ}
    (hclient : s.client[i]? = some (fd, c)) (hstate : c'.state = c.state) :
    (s.setConnection i fd c').states = s.states := by
  have hsame : s.states[i]? = some (fd, c.state) := by
    simp [TcpServer.states, hclient]
  obtain ⟨hlt, hget⟩ := List.getElem?_eq_some_iff.mp hsame
  rw [states_setConnection, hstate, ← hget, List.set_getElem_self]

theorem ClientsAgree.onAccept (h : ClientsAgree s) (fd : φ) : ClientsAgree (s.onAccept fd) := by
  have hstates : (s.onAccept fd).states = s.states ++ [(fd, .connected)] := List.map_append
  refine ⟨fun other => ?_, fun p hp => ?_, ?_⟩
  · show other ∈ insert fd s.openFds ↔ _
    rw [Finset.mem_insert, h.openFds, hstates]
    constructor
    · rintro (rfl | ⟨state, hmem, hopen⟩)
      · exact ⟨.connected, List.mem_append_right _ List.mem_cons_self, TcpState.noConfusion⟩
      · exact ⟨state, List.mem_append_left _ hmem, hopen⟩
    · rintro ⟨state, hmem, hopen⟩
      rcases List.mem_append.mp hmem with hold | hnew
      · exact Or.inr ⟨state, hold, hopen⟩
      · exact Or.inl (Prod.mk.inj (List.mem_singleton.mp hnew)).1
  · rw [hstates] at hp
    rcases List.mem_append.mp hp with hold | hnew
    · exact h.noneClosed p hold
    · rw [List.mem_singleton.mp hnew]
      exact TcpState.noConfusion
  · rw [hstates, List.filter_append, List.length_append, ← h.clientCounts]
    rfl

omit [DecidableEq φ] in
theorem ClientsAgree.of_states (h : ClientsAgree s) (hfds : s'.openFds = s.openFds)
    (hstates : s'.states = s.states) (hcounts : s'.clientCounts = s.clientCounts) :
    ClientsAgree s' where
  openFds := by
    rw [hfds, hstates]
    exact h.openFds
  noneClosed := by
    rw [hstates]
    exact h.noneClosed
  clientCounts := by
    rw [hcounts, hstates]
    exact h.clientCounts

end Events

theorem ClientsAgree.step (s : TcpServer φ κ) (event : ServerEvent φ κ) (s' : TcpServer φ κ)
    (h : ClientsAgree s) (hc : PeerStays s event) (hs : s' ∈ serverStep s event) :
    ClientsAgree s' := by
  cases event with
  | accept fd =>
      obtain ⟨-, rfl⟩ := serverStep_accept hs
      exact h.onAccept fd
  | read i results =>
      obtain ⟨fd, c, c', hclient, rfl, hstate⟩ := serverStep_read hs
      rw [if_neg hc] at hstate
      exact h.of_states rfl (states_eq_of_state_eq hclient hstate) rfl
  | work i c' =>
      obtain ⟨fd, c, hclient, rfl, hstate⟩ := serverStep_work hs
      exact h.of_states rfl (states_eq_of_state_eq hclient hstate) rfl

/-- A peer that closes leaves a closed connection in `m_client`. -/
theorem ClientsAgree.peerStays (s : TcpServer φ κ) (event : ServerEvent φ κ) (s' : TcpServer φ κ)
    (_ : ClientsAgree s) (hs : s' ∈ serverStep s event) (h' : ClientsAgree s') :
    PeerStays s event := by
  cases event with
  | accept fd => trivial
  | read i results =>
      intro heof
      obtain ⟨fd, c, c', hclient, rfl, hstate⟩ := serverStep_read hs
      rw [if_pos heof] at hstate
      obtain ⟨hlt, -⟩ := List.getElem?_eq_some_iff.mp hclient
      have hmem : (fd, c'.state) ∈ (s.setConnection i fd c').states := by
        rw [states_setConnection]
        exact List.mem_set (by simpa [TcpServer.states] using hlt) _
      exact h'.noneClosed _ hmem hstate
  | work i c' => trivial

omit [DecidableEq φ] in
theorem ClientsAgree.start : ClientsAgree (TcpServer.start : TcpServer φ κ) where
  openFds := by simp [TcpServer.start, TcpServer.states]
  noneClosed := fun _ hp => absurd hp List.not_mem_nil
  clientCounts := rfl

/-- **The open fds, the connections and the count agree**, throughout a run, if and only if no
`on_read` finds that its peer has closed. -/
theorem clientsAgree_iff_meets (events : List (ServerEvent φ κ)) :
    Always serverStep ClientsAgree TcpServer.start events ↔
      Meets serverStep PeerStays TcpServer.start events :=
  always_iff_meets (fun _ h => h) ClientsAgree.step ClientsAgree.peerStays ClientsAgree.start

/-- A client, and its peer closes. -/
theorem not_clientsAgree_closed :
    ¬ Always serverStep ClientsAgree (TcpServer.start : TcpServer Nat Unit)
      [.accept 5, .read 0 [.eof]] := by
  intro h
  have haccept := h.2 _ rfl
  have hread : (serverStep ((TcpServer.start : TcpServer Nat Unit).onAccept 5)
      (.read 0 [.eof])).isSome = true := by
    decide +kernel
  obtain ⟨s', hs'⟩ := Option.isSome_iff_exists.mp hread
  exact haccept.1.peerStays _ (.read 0 [.eof]) s' hs' (haccept.2 s' hs') List.mem_cons_self

/-! ### What becomes of the clients -/

/-- A server holds the fds of the connections in `m_client`; each `on_accept` puts one in. -/
def clientPorts : Ports (TcpServer φ κ) (ServerEvent φ κ) φ where
  holds s := s.client.map Prod.fst
  puts
    | _, .accept fd => [fd]
    | _, _ => []
  takes _ _ := []

/-- The open fds are those that have ever been accepted; each of these has its connection in
`m_client`, and is counted. -/
structure KeepsAllClients (l : Logged (TcpServer φ κ) φ) : Prop where
  openFds : ∀ fd, fd ∈ l.state.openFds ↔ fd ∈ l.put
  client : l.state.client.map Prod.fst = l.put
  clientCounts : l.state.clientCounts = l.put.length

omit [DecidableEq φ] in
/-- A connection that changes stays in its place. -/
theorem fds_setConnection {s : TcpServer φ κ} {i : Nat} {fd : φ} {c : TcpConnection κ}
    (hclient : s.client[i]? = some (fd, c)) (c' : TcpConnection κ) :
    (s.setConnection i fd c').client.map Prod.fst = s.client.map Prod.fst := by
  have hsame : (s.client.map Prod.fst)[i]? = some fd := by simp [hclient]
  obtain ⟨hlt, hget⟩ := List.getElem?_eq_some_iff.mp hsame
  rw [TcpServer.setConnection, List.map_set, ← hget, List.set_getElem_self]

omit [DecidableEq φ] in
theorem KeepsAllClients.setConnection {l : Logged (TcpServer φ κ) φ} (h : KeepsAllClients l)
    {i : Nat} {fd : φ} {c : TcpConnection κ} (hclient : l.state.client[i]? = some (fd, c))
    (c' : TcpConnection κ) (taken : List φ) :
    KeepsAllClients ⟨l.state.setConnection i fd c', l.put ++ [], taken⟩ := by
  obtain ⟨hopen, hclients, hcounts⟩ := h
  rw [List.append_nil]
  exact ⟨hopen, (fds_setConnection hclient c').trans hclients, hcounts⟩

theorem KeepsAllClients.step (l : Logged (TcpServer φ κ) φ) (event : ServerEvent φ κ)
    (l' : Logged (TcpServer φ κ) φ) (h : KeepsAllClients l)
    (hl' : l' ∈ clientPorts.loggedStep serverStep l event) : KeepsAllClients l' := by
  obtain ⟨s', hs', rfl⟩ := Option.map_eq_some_iff.mp hl'
  cases event with
  | accept fd =>
      obtain ⟨-, rfl⟩ := serverStep_accept hs'
      obtain ⟨hopen, hclients, hcounts⟩ := h
      refine ⟨fun other => ?_, ?_, ?_⟩
      · show other ∈ insert fd l.state.openFds ↔ other ∈ l.put ++ [fd]
        rw [Finset.mem_insert, hopen, List.mem_append, List.mem_singleton, or_comm]
      · show (l.state.client ++ [_]).map Prod.fst = l.put ++ [fd]
        rw [List.map_append, hclients]
        rfl
      · show l.state.clientCounts + 1 = (l.put ++ [fd]).length
        rw [hcounts, List.length_append]
        rfl
  | read i results =>
      obtain ⟨fd, c, c', hclient, rfl, -⟩ := serverStep_read hs'
      exact h.setConnection hclient c' _
  | work i c' =>
      obtain ⟨fd, c, hclient, rfl, -⟩ := serverStep_work hs'
      exact h.setConnection hclient c' _

/-- **Nothing is ever given back**: in every run every fd that has been accepted is open, its
connection is in `m_client`, and it is counted. -/
theorem nothing_given_back (events : List (ServerEvent φ κ)) :
    Always (clientPorts.loggedStep serverStep) KeepsAllClients
      ⟨(TcpServer.start : TcpServer φ κ), [], []⟩ events := by
  refine always_of_step KeepsAllClients.step ⟨fun fd => ?_, rfl, rfl⟩ events
  simp [TcpServer.start]

end TinyRpc
