/-
TinyRpc/TcpConnection.lean

A connection: its state, its two buffers, and the callbacks that wait for a
message to be sent or for a response to arrive.

`κ` is the type of the callbacks.  A connection only keeps them and hands them
out; what a callback does to the connection while it runs is an event of its own
(`TinyRpc/WriteDones.lean`).  Of the `FdEvent` only the two interests are kept,
since `on_read` and `on_write` cancel them; the addresses, the fd and the event
loop are left out.
-/
import TinyRpc.Protocol

namespace TinyRpc

inductive TcpState
  | notConnected
  | connected
  | halfClosing
  | closed
  deriving DecidableEq

inductive TcpConnectionType
  | tcpConnectionByServer
  | tcpConnectionByClient
  deriving DecidableEq

structure TcpConnection (κ : Type) where
  state : TcpState
  connectionType : TcpConnectionType
  inBuffer : TcpBuffer
  outBuffer : TcpBuffer
  /-- `m_write_dones`, in the order of `push_send_message` -/
  writeDones : List (ProtobufProtocol × κ)
  /-- `m_read_dones`, a map from `msg_id`s -/
  readDones : List (List UInt8 × κ)
  /-- `IN_EVENT` is listened for -/
  listensIn : Bool
  /-- `OUT_EVENT` is listened for -/
  listensOut : Bool
  deriving DecidableEq

namespace TcpConnection

variable {κ : Type}

/-- `TcpConnection(…, buffer_size, …, type)`.  A server connection listens for input at
once. -/
def ofBufferSize (κ : Type) (bufferSize : Nat) (h : bufferSize < 2147483648)
    (type : TcpConnectionType) : TcpConnection κ where
  state := .notConnected
  connectionType := type
  inBuffer := TcpBuffer.ofSize bufferSize h
  outBuffer := TcpBuffer.ofSize bufferSize h
  writeDones := []
  readDones := []
  listensIn := type = .tcpConnectionByServer
  listensOut := false

def setState (c : TcpConnection κ) (state : TcpState) : TcpConnection κ :=
  { c with state := state }

def listenRead (c : TcpConnection κ) : TcpConnection κ := { c with listensIn := true }

def listenWrite (c : TcpConnection κ) : TcpConnection κ := { c with listensOut := true }

/-- `clear`, when the peer has closed the connection. -/
def clear (c : TcpConnection κ) : TcpConnection κ :=
  if c.state = .closed then c
  else { c with state := .closed, listensIn := false, listensOut := false }

/-- `shutdown`: both directions of the socket are shut down. -/
def shutdown (c : TcpConnection κ) : TcpConnection κ :=
  if c.state = .closed ∨ c.state = .notConnected then c else { c with state := .halfClosing }

def pushSendMessage (c : TcpConnection κ) (message : ProtobufProtocol) (done : κ) :
    TcpConnection κ :=
  { c with writeDones := c.writeDones ++ [(message, done)] }

/-- `push_read_message`: `insert` leaves an entry that is already there as it is. -/
def pushReadMessage (c : TcpConnection κ) (reqId : List UInt8) (done : κ) : TcpConnection κ :=
  if (c.readDones.lookup reqId).isSome then c
  else { c with readDones := (reqId, done) :: c.readDones }

@[simp] theorem clear_inBuffer (c : TcpConnection κ) : c.clear.inBuffer = c.inBuffer := by
  unfold clear
  split <;> rfl

end TcpConnection

/-- Server and client give their connections buffers of 128 bytes. -/
theorem bufferSize_lt : 128 < 2147483648 := by decide

/-- A server connection that has just been accepted. -/
def acceptedConnection : TcpConnection Unit :=
  (TcpConnection.ofBufferSize Unit 128 bufferSize_lt .tcpConnectionByServer).setState .connected

end TinyRpc
