/-
TinyRpc/TcpClient.lean

The connect of a client: `TcpClient::connect`, and the callback that it
registers for `OUT_EVENT` when the kernel answers `EINPROGRESS`.

The client keeps its descriptor in three places: `m_fd`, the `FdEvent` and the
`TcpConnection`.  A connect that fails in the callback closes the socket and
puts a new one, which blocks, into `m_fd` alone, and nothing sets the error code
back to 0.  `connect_agrees_iff` says which attempts leave the code, the socket
and the three descriptors in agreement.

The kernel is a table of sockets; the events of a run carry what `::connect` and
`socket` return, and a run stops where the kernel cannot return that.  The
addresses are left out: the peer's is in the kernel's answers, and nothing reads
the local one.
-/
import TinyRpc.RpcController
import TinyRpc.TcpConnection
import TinyRpc.Base.Runs
import Mathlib.Logic.Function.Basic

namespace TinyRpc

open Runs

/-! ### The sockets -/

def eBadF : Int32 := 9
def eIsConn : Int32 := 106
def eConnRefused : Int32 := 111
def eAlready : Int32 := 114
def eInProgress : Int32 := 115

inductive SocketState
  | unconnected
  | connecting
  | connected
  deriving DecidableEq

structure Socket where
  nonBlocking : Bool
  state : SocketState
  deriving DecidableEq

/-- What `socket(…, SOCK_STREAM, 0)` makes: it blocks until `set_no_block`. -/
def Socket.fresh : Socket := ⟨false, .unconnected⟩

def Socket.setNoBlock (socket : Socket) : Socket := { socket with nonBlocking := true }

/-- What `::connect` returns: 0, or -1 and `errno`. -/
inductive ConnectResult
  | ok
  | error (errno : Int32)
  deriving DecidableEq

/-- `(rt < 0 && errno == EISCONN) || (rt == 0)` -/
def ConnectResult.succeeds : ConnectResult → Bool
  | .ok => true
  | .error errno => errno = eIsConn

/-- The socket after `::connect`; `none` where the kernel does not return this result. -/
def Socket.connect (socket : Socket) : ConnectResult → Option Socket
  | .ok => if socket.state = .connected then none else some { socket with state := .connected }
  | .error errno =>
      if errno = eIsConn then
        -- a connect in progress may have come to its end meanwhile
        if socket.state = .unconnected then none else some { socket with state := .connected }
      else if socket.state = .connected then none
      else if errno = eInProgress then
        if socket.nonBlocking = true ∧ socket.state = .unconnected then
          some { socket with state := .connecting }
        else none
      else if errno = eAlready then
        if socket.state = .connecting then some socket else none
      else some { socket with state := .unconnected }

/-! ### The client -/

structure TcpClient (κ : Type) where
  /-- `m_fd` -/
  fd : Int
  /-- `m_fd_event->get_fd()` -/
  fdEventFd : Int
  /-- `m_fd` of the connection -/
  connectionFd : Int
  connection : TcpConnection κ
  connectErrorCode : Int32
  connectErrorInfo : List UInt8

variable {κ : Type}

namespace TcpClient

/-- `TcpClient(peer_addr)`, on the descriptor that `socket` returned. -/
def ofFd (κ : Type) (fd : Nat) : TcpClient κ where
  fd := fd
  fdEventFd := fd
  connectionFd := fd
  connection := TcpConnection.ofBufferSize κ 128 (by decide) .tcpConnectionByClient
  connectErrorCode := 0
  connectErrorInfo := []

/-- `m_connection->set_state(Connected)`: a connect that succeeds leaves the error code. -/
def setConnected (c : TcpClient κ) : TcpClient κ :=
  { c with connection := c.connection.setState .connected }

def setConnectError (c : TcpClient κ) (errorCode : Int32) (errorInfo : List UInt8) :
    TcpClient κ :=
  { c with connectErrorCode := errorCode, connectErrorInfo := errorInfo }

end TcpClient

/-! ### A run of connects -/

structure ConnectRun (κ : Type) where
  client : TcpClient κ
  /-- the open descriptors -/
  sockets : Int → Option Socket
  /-- the callback of the connect waits for `OUT_EVENT` -/
  awaitsOut : Bool
  /-- the last event has run a `done` -/
  doneRan : Bool

/-- A new client, with a socket of its own beside those that are open already. -/
def ConnectRun.start (κ : Type) (sockets : Int → Option Socket) (fd : Nat) : ConnectRun κ where
  client := TcpClient.ofFd κ fd
  sockets := Function.update sockets fd (some Socket.fresh.setNoBlock)
  awaitsOut := false
  doneRan := false

namespace ConnectRun

/-- The socket that `m_fd` denotes; -1 denotes none. -/
def socket (s : ConnectRun κ) : Option Socket :=
  if s.client.fd < 0 then none else s.sockets s.client.fd

/-- `::connect(m_fd, …)` -/
def callConnect (s : ConnectRun κ) (result : ConnectResult) : Option (ConnectRun κ) :=
  match s.socket with
  | none => if result = .error eBadF then some s else none
  | some socket => (socket.connect result).map fun socket' =>
      { s with sockets := Function.update s.sockets s.client.fd (some socket') }

/-- `close(m_fd); m_fd = socket(…)`, where `socket` returns `fd` or -1. -/
def reopen (s : ConnectRun κ) (fd : Int) : ConnectRun κ :=
  let sockets := Function.update s.sockets s.client.fd none
  { s with
    client := { s.client with fd := fd }
    sockets := Function.update sockets fd (some Socket.fresh) }

/-- The kernel can return `fd` from that `socket`. -/
def CanReopen (s : ConnectRun κ) (fd : Int) : Prop :=
  fd = -1 ∨ 0 ≤ fd ∧ (fd = s.client.fd ∨ s.sockets fd = none)

instance (s : ConnectRun κ) (fd : Int) : Decidable (s.CanReopen fd) :=
  inferInstanceAs (Decidable (_ ∨ _))

/-- `done()` -/
def runDone (s : ConnectRun κ) : ConnectRun κ := { s with doneRan := true }

end ConnectRun

/-- `TcpClient::connect`, after `::connect` has returned. -/
def connect (strerror : Int32 → List UInt8) (s : ConnectRun κ) (result : ConnectResult) :
    ConnectRun κ :=
  match result with
  | .ok => { s with client := s.client.setConnected }.runDone
  | .error errno =>
      if errno = eInProgress then { s with awaitsOut := true, doneRan := false }
      else
        let errorInfo := text "connect error, sys error = " ++ strerror errno
        { s with client := s.client.setConnectError errorFailedConnect errorInfo }.runDone

/-- The error that the callback records. -/
def readyError (strerror : Int32 → List UInt8) (errno : Int32) : Int32 × List UInt8 :=
  if errno = eConnRefused then
    (errorPeerClosed, text "connect refused, sys error = " ++ strerror errno)
  else (errorFailedConnect, text "connect unkonwn error, sys error = " ++ strerror errno)

/-- The callback for `OUT_EVENT`, after its own `::connect` has returned. -/
def connectReady (strerror : Int32 → List UInt8) (s : ConnectRun κ) (result : ConnectResult)
    (fd : Int) : ConnectRun κ :=
  let s :=
    match result with
    | .ok => { s with client := s.client.setConnected }
    | .error errno =>
        if errno = eIsConn then { s with client := s.client.setConnected }
        else
          -- only `m_fd` is given the new socket
          let (errorCode, errorInfo) := readyError strerror errno
          { s with client := s.client.setConnectError errorCode errorInfo }.reopen fd
  { s with awaitsOut := false }.runDone

inductive ConnectEvent
  | connect (result : ConnectResult)
  /-- `OUT_EVENT` -/
  | ready (result : ConnectResult) (fd : Int)

/-- What an event does.  The callback runs only while it waits for `OUT_EVENT`. -/
def connectStep (strerror : Int32 → List UInt8) : Step (ConnectRun κ) ConnectEvent
  | s, .connect result => (s.callConnect result).map fun s => connect strerror s result
  | s, .ready result fd =>
      if s.awaitsOut = true ∧ s.CanReopen fd then
        (s.callConnect result).map fun s => connectReady strerror s result fd
      else none

/-! ### Agreement -/

/-- The three descriptors of the client denote one socket, which is open and does not
block. -/
def OneSocket (s : ConnectRun κ) : Prop :=
  s.client.fdEventFd = s.client.fd ∧ s.client.connectionFd = s.client.fd ∧
    s.socket.map Socket.nonBlocking = some true

def IsConnected (s : ConnectRun κ) : Prop := s.socket.map Socket.state = some .connected

/-- What a `done` finds: no error exactly if the socket is connected, and one socket. -/
def DoneAgrees (s : ConnectRun κ) : Prop :=
  s.doneRan = true → (s.client.connectErrorCode = 0 ↔ IsConnected s) ∧ OneSocket s

instance (s : ConnectRun κ) : Decidable (OneSocket s) := inferInstanceAs (Decidable (_ ∧ _))

instance (s : ConnectRun κ) : Decidable (IsConnected s) := inferInstanceAs (Decidable (_ = _))

instance : DecidablePred (@DoneAgrees κ) := fun _ => inferInstanceAs (Decidable (_ → _))

/-- The attempt succeeds and no error is left from an earlier one, or it fails at once on
a socket that is not connected already. -/
def ConnectKeeps (s : ConnectRun κ) : ConnectEvent → Prop
  | .connect .ok => s.client.connectErrorCode = 0
  | .connect (.error errno) => errno ≠ eIsConn
  | .ready result _ => result.succeeds = true ∧ s.client.connectErrorCode = 0

/-- What a run of connects keeps while every event meets the condition. -/
structure ConnectRun.Sound (s : ConnectRun κ) : Prop where
  one : OneSocket s
  agrees : s.doneRan = true → (s.client.connectErrorCode = 0 ↔ IsConnected s)

variable {strerror : Int32 → List UInt8} {s s' : ConnectRun κ} {result : ConnectResult}

theorem ConnectRun.Sound.doneAgrees (h : s.Sound) : DoneAgrees s :=
  fun hdone => ⟨h.agrees hdone, h.one⟩

theorem ConnectRun.Sound.start (sockets : Int → Option Socket) (fd : Nat) :
    (ConnectRun.start κ sockets fd).Sound where
  one := ⟨rfl, rfl, by simp [ConnectRun.start, ConnectRun.socket, TcpClient.ofFd,
    Socket.setNoBlock]⟩
  agrees := nofun

/-! ### What the kernel does to the socket -/

theorem Socket.connect_nonBlocking {socket socket' : Socket}
    (h : socket' ∈ socket.connect result) : socket'.nonBlocking = socket.nonBlocking := by
  unfold Socket.connect at h
  grind

/-- A socket is connected after a `::connect` exactly if that succeeded. -/
theorem Socket.connect_connected {socket socket' : Socket}
    (h : socket' ∈ socket.connect result) :
    socket'.state = .connected ↔ result.succeeds = true := by
  unfold Socket.connect at h
  cases result with
  | ok => grind [ConnectResult.succeeds]
  | error errno => grind [ConnectResult.succeeds]

/-- On an open socket, `::connect` changes the state of the socket and nothing else. -/
theorem callConnect_cases (hopen : s.socket.map Socket.nonBlocking = some true)
    (h : s' ∈ s.callConnect result) :
    s'.client = s.client ∧ s'.socket.map Socket.nonBlocking = some true ∧
      (IsConnected s' ↔ result.succeeds = true) := by
  obtain ⟨socket, hsocket, hblock⟩ := Option.map_eq_some_iff.mp hopen
  have hfd : ¬ s.client.fd < 0 := fun hneg => by
    simp [ConnectRun.socket, hneg] at hsocket
  unfold ConnectRun.callConnect at h
  rw [hsocket] at h
  obtain ⟨socket', hsocket', rfl⟩ := Option.map_eq_some_iff.mp h
  refine ⟨rfl, ?_, ?_⟩
  · simp [ConnectRun.socket, hfd, Socket.connect_nonBlocking hsocket', hblock]
  · simp [IsConnected, ConnectRun.socket, hfd, Socket.connect_connected hsocket']

/-! ### One event at a time -/

theorem connectStep_cases {event : ConnectEvent} (h : s' ∈ connectStep strerror s event) :
    (∃ result, ∃ s₁ ∈ s.callConnect result, event = .connect result ∧
      s' = connect strerror s₁ result) ∨
    (∃ result fd, ∃ s₁ ∈ s.callConnect result, event = .ready result fd ∧
      s' = connectReady strerror s₁ result fd) := by
  cases event with
  | connect result =>
      obtain ⟨s₁, hs₁, rfl⟩ := Option.map_eq_some_iff.mp h
      exact .inl ⟨result, s₁, hs₁, rfl, rfl⟩
  | ready result fd =>
      obtain ⟨-, hmap⟩ := Option.mem_ite_none_right.mp h
      obtain ⟨s₁, hs₁, rfl⟩ := Option.map_eq_some_iff.mp hmap
      exact .inr ⟨result, fd, s₁, hs₁, rfl, rfl⟩

/-- The callback after a `::connect` that succeeded; -/
theorem connectReady_of_succeeds (h : result.succeeds = true) (fd : Int) :
    connectReady strerror s result fd
      = { s with client := s.client.setConnected, awaitsOut := false, doneRan := true } := by
  cases result with
  | ok => rfl
  | error errno =>
      have herr : errno = eIsConn := of_decide_eq_true h
      show ConnectRun.runDone _ = _
      simp only [if_pos herr]
      rfl

/-- and after one that failed: the new socket blocks, if there is one. -/
theorem connectReady_of_fails (h : ¬ result.succeeds = true) (fd : Int) :
    ¬ OneSocket (connectReady strerror s result fd) := by
  cases result with
  | ok => exact absurd rfl h
  | error errno =>
      have herr : ¬ errno = eIsConn := fun herr => h (decide_eq_true herr)
      rintro ⟨-, -, hblock⟩
      simp only [connectReady, if_neg herr] at hblock
      -- whatever number the kernel chose, it denotes a socket that blocks
      by_cases hfd : fd < 0
      · simp [ConnectRun.runDone, ConnectRun.reopen, ConnectRun.socket, hfd] at hblock
      · simp [ConnectRun.runDone, ConnectRun.reopen, ConnectRun.socket, hfd,
          Socket.fresh] at hblock

/-- A `::connect` leaves the three descriptors as they are. -/
theorem OneSocket.callConnect (h : OneSocket s) (hs : s' ∈ s.callConnect result) :
    OneSocket s' := by
  obtain ⟨hclient, hblock, -⟩ := callConnect_cases h.2.2 hs
  refine ⟨?_, ?_, hblock⟩
  · rw [hclient]
    exact h.1
  · rw [hclient]
    exact h.2.1

/-! ### The invariant -/

theorem ConnectRun.Sound.connect (h : s.Sound) (hs : s' ∈ s.callConnect result)
    (hkeeps : ConnectKeeps s (.connect result)) : (connect strerror s' result).Sound := by
  obtain ⟨hclient, -, hconn⟩ := callConnect_cases h.one.2.2 hs
  have hone := h.one.callConnect hs
  cases result with
  | ok =>
      have hcode : s'.client.connectErrorCode = 0 := by
        rw [hclient]
        exact hkeeps
      exact ⟨hone, fun _ => ⟨fun _ => hconn.mpr rfl, fun _ => hcode⟩⟩
  | error errno =>
      by_cases hprogress : errno = eInProgress
      · rw [TinyRpc.connect, if_pos hprogress]
        exact ⟨hone, nofun⟩
      · have hnot : ¬ IsConnected s' := fun hc => hkeeps (of_decide_eq_true (hconn.mp hc))
        rw [TinyRpc.connect, if_neg hprogress]
        refine ⟨hone, fun _ => ⟨fun hcode => ?_, fun hc => absurd hc hnot⟩⟩
        exact absurd (show errorFailedConnect = 0 from hcode) (by decide)

theorem ConnectRun.Sound.ready (h : s.Sound) (hs : s' ∈ s.callConnect result) {fd : Int}
    (hkeeps : ConnectKeeps s (.ready result fd)) :
    (connectReady strerror s' result fd).Sound := by
  obtain ⟨hclient, -, hconn⟩ := callConnect_cases h.one.2.2 hs
  have hcode : s'.client.connectErrorCode = 0 := by
    rw [hclient]
    exact hkeeps.2
  have hone := h.one.callConnect hs
  rw [connectReady_of_succeeds hkeeps.1]
  exact ⟨hone, fun _ => ⟨fun _ => hconn.mpr hkeeps.1, fun _ => hcode⟩⟩

/-- Every attempt that meets the condition keeps a client sound. -/
theorem ConnectRun.Sound.step (s : ConnectRun κ) (event : ConnectEvent) (s' : ConnectRun κ)
    (h : s.Sound) (hkeeps : ConnectKeeps s event) (hs : s' ∈ connectStep strerror s event) :
    s'.Sound := by
  rcases connectStep_cases hs with ⟨result, s₁, hs₁, rfl, rfl⟩ | ⟨result, fd, s₁, hs₁, rfl, rfl⟩
  · exact h.connect hs₁ hkeeps
  · exact h.ready hs₁ hkeeps

/-- An attempt that leaves its `done` in agreement has met the condition. -/
theorem connectKeeps_of_agrees (s : ConnectRun κ) (event : ConnectEvent) (s' : ConnectRun κ)
    (h : s.Sound) (hs : s' ∈ connectStep strerror s event) (hagrees : DoneAgrees s') :
    ConnectKeeps s event := by
  rcases connectStep_cases hs with ⟨result, s₁, hs₁, rfl, rfl⟩ | ⟨result, fd, s₁, hs₁, rfl, rfl⟩
  · obtain ⟨hclient, -, hconn⟩ := callConnect_cases h.one.2.2 hs₁
    cases result with
    | ok =>
        have hcode : s₁.client.connectErrorCode = 0 := (hagrees rfl).1.mpr (hconn.mpr rfl)
        rw [hclient] at hcode
        exact hcode
    | error errno =>
        -- `EISCONN` is an error here, and the socket is connected
        rintro rfl
        have hcode := (hagrees rfl).1.mpr (hconn.mpr rfl)
        exact absurd (show errorFailedConnect = 0 from hcode) (by decide)
  · obtain ⟨hclient, -, hconn⟩ := callConnect_cases h.one.2.2 hs₁
    by_cases hok : result.succeeds = true
    · rw [connectReady_of_succeeds hok] at hagrees
      have hcode : s₁.client.connectErrorCode = 0 := (hagrees rfl).1.mpr (hconn.mpr hok)
      rw [hclient] at hcode
      exact ⟨hok, hcode⟩
    · exact absurd (hagrees rfl).2 (connectReady_of_fails hok fd)

/-- **Exactly when a client agrees with its socket**: over any run of connect attempts,
every `done` finds the error code 0 just if the socket is connected, and one open,
non-blocking socket behind the three descriptors, if and only if every attempt meets the
condition. -/
theorem connect_agrees_iff (strerror : Int32 → List UInt8) (sockets : Int → Option Socket)
    (fd : Nat) (events : List ConnectEvent) :
    Always (connectStep strerror) DoneAgrees (ConnectRun.start κ sockets fd) events ↔
      Meets (connectStep strerror) ConnectKeeps (ConnectRun.start κ sockets fd) events :=
  always_iff_meets (fun _ h => h.doneAgrees) ConnectRun.Sound.step connectKeeps_of_agrees
    (ConnectRun.Sound.start sockets fd)

/-- A connect that the peer refuses, after which the kernel gives the new socket the old
number; a second connect on a connected socket; a connect that succeeds at the second
try. -/
theorem connect_disagrees :
    ¬ Always (connectStep fun _ => []) DoneAgrees (ConnectRun.start Unit (fun _ => none) 7)
      [.connect (.error eInProgress), .ready (.error eConnRefused) 7] ∧
    ¬ Always (connectStep fun _ => []) DoneAgrees (ConnectRun.start Unit (fun _ => none) 7)
      [.connect .ok, .connect (.error eIsConn)] ∧
    ¬ Always (connectStep fun _ => []) DoneAgrees (ConnectRun.start Unit (fun _ => none) 7)
      [.connect (.error eConnRefused), .connect .ok] := by
  decide +kernel

end TinyRpc
