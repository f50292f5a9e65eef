/-
TinyRpc/Readiness.lean

What the handlers of a connection do about a level-triggered notification.

The kernel reports an fd again and again as long as it is ready and the interest is
registered.  So a handler must make some progress on the socket, or hear from it
that there is nothing to do, or give up the interest.  Both handlers return at once
on a connection that is not connected, and do none of the three.

`settles_iff` says for which connections a notification settles, and `spins` that
for the others it comes back as often as one likes.
-/
import TinyRpc.OnRead
import TinyRpc.OnWrite

namespace TinyRpc

open Checked TcpBuffer ProtobufProtocol Runs

variable {κ : Type}

/-- The kinds of readiness that `on_read` and `on_write` are called for. -/
inductive TriggerEvent
  | inEvent
  | outEvent
  deriving DecidableEq

/-- The kind is registered for the fd of the connection. -/
def TcpConnection.listens (c : TcpConnection κ) : TriggerEvent → Bool
  | .inEvent => c.listensIn
  | .outEvent => c.listensOut

/-! ### What the calls of a handler return -/

/-- The results that the loop of `on_write` can get: the last one makes it end. -/
inductive WriteScript (out : TcpBuffer) : List WriteResult → Prop
  | empty : out.canReadBytesNum = 0 → WriteScript out []
  | all {count : Nat} : out.canReadBytesNum ≠ 0 → out.canReadBytesNum ≤ count →
      WriteScript out [.accepted count]
  | part {count : Nat} {results : List WriteResult} : count < out.canReadBytesNum →
      WriteScript out results → WriteScript out (.accepted count :: results)
  | again : out.canReadBytesNum ≠ 0 → WriteScript out [.again]
  | error {results : List WriteResult} : out.canReadBytesNum ≠ 0 → WriteScript out results →
      WriteScript out (.error :: results)

/-- What the calls of `::read` in one call of `on_read` return. -/
def ReadsGet (c : TcpConnection κ) (results : List ReadResult) : Prop :=
  if c.state = .connected then ReadScript c.inBuffer results else results = []

/-- What the calls of `::write` in one call of `on_write` return. -/
def WritesGet (c : TcpConnection κ) (results : List WriteResult) : Prop :=
  if c.state = .connected then
    ∃ messages out, encode (toEncode c) c.outBuffer = .ok (messages, out) ∧ WriteScript out results
  else results = []

/-- The call has transferred a byte, or has said `EAGAIN`. -/
def ReadResult.progresses : ReadResult → Bool
  | .data bytes => 0 < bytes.length
  | .again => true
  | _ => false

def WriteResult.progresses : WriteResult → Bool
  | .accepted count => 0 < count
  | .again => true
  | .error => false

/-! ### The handlers -/

/-- How a handler returns. -/
structure Handled (κ : Type) where
  connection : TcpConnection κ
  /-- it has transferred a byte, or has been told `EAGAIN` -/
  progress : Bool
  /-- it goes on to `excute`, or has run callbacks, which may register anything -/
  calls : Bool

/-- How the handler of a kind can return. -/
inductive Handles (c : TcpConnection κ) : TriggerEvent → Handled κ → Prop
  | onRead {results : List ReadResult} {c' : TcpConnection κ} {handed : Option (List UInt8)} :
      ReadsGet c results → onRead c results = .ok (some (c', handed)) →
      Handles c .inEvent ⟨c', results.any ReadResult.progresses, handed.isSome⟩
  | onWrite {results : List WriteResult} {w : Written κ} :
      WritesGet c results → onWrite c results = .ok w → w.exit ≠ .looping →
      Handles c .outEvent ⟨w.connection, results.any WriteResult.progresses, !w.called.isEmpty⟩

/-- There has been progress, or the kind is registered no longer. -/
def Handled.Settled (h : Handled κ) (kind : TriggerEvent) : Prop :=
  h.progress = true ∨ h.connection.listens kind = false ∧ h.calls = false

/-- However the handler returns, the notification is settled. -/
def Settles (c : TcpConnection κ) (kind : TriggerEvent) : Prop :=
  ∀ h, Handles c kind h → h.Settled kind

/-! ### A connection that is connected -/

/-- A loop that was not left by the peer's close has read a byte, or was told `EAGAIN`. -/
theorem readLoop_progress {b b' : TcpBuffer} {results : List ReadResult} {exit : ReadExit}
    (hscript : ReadScript b results) (h : readLoop results b = .ok (some (b', exit))) :
    exit = .close ∨ results.any ReadResult.progresses = true := by
  induction hscript with
  | eof =>
      rw [readLoop] at h
      obtain ⟨b₁, -, heq⟩ := bind_eq_ok.mp h
      obtain ⟨-, rfl⟩ := Prod.mk.inj (Option.some.inj (Except.ok.inj heq))
      exact Or.inl rfl
  | again => exact Or.inr rfl
  | short hgrow hpos hlt =>
      right
      simp [ReadResult.progresses, hpos]
  | full hgrow hpos heq hrest ih =>
      right
      simp [ReadResult.progresses, hpos]
  | @error b b₁ results hgrow hrest ih =>
      rw [readLoop, hgrow, ok_bind] at h
      rcases ih h with hclose | hprogress
      · exact Or.inl hclose
      · right
        rw [List.any_cons, hprogress, Bool.or_true]

/-- A loop that had something to write has written a byte, or was told `EAGAIN`. -/
theorem writeScript_progress {out : TcpBuffer} {results : List WriteResult}
    (hscript : WriteScript out results) :
    out.canReadBytesNum = 0 ∨ results.any WriteResult.progresses = true := by
  induction hscript with
  | empty hnone => exact Or.inl hnone
  | @all count hsome hall =>
      have hpos : 0 < count := by omega
      right
      simp [WriteResult.progresses, hpos]
  | @part count results hpart hrest ih =>
      right
      rcases ih with hnone | hprogress
      · omega
      · rw [List.any_cons, hprogress, Bool.or_true]
  | again hsome => exact Or.inr rfl
  | error hsome hrest ih =>
      right
      rcases ih with hnone | hprogress
      · exact absurd hnone hsome
      · rw [List.any_cons, hprogress, Bool.or_true]

/-- A block that the encoder ends with is not empty. -/
theorem ne_nil_of_encodes {m : ProtobufProtocol} {f : List UInt8} (h : Encodes m f) : f ≠ [] := by
  obtain ⟨m', h⟩ := h
  simp only [encodeProtubuf, copyString, check_bind_eq_ok, Except.ok.injEq, Prod.mk.injEq] at h
  obtain ⟨-, -, -, -, -, -, rfl⟩ := h
  exact List.cons_ne_nil _ _

/-- Where nothing is readable after `encode`, there was nothing to encode. -/
theorem encoded_nil {ms ms' : List ProtobufProtocol} {out out' : TcpBuffer}
    (h : encode ms out = .ok (ms', out')) (hnone : out'.canReadBytesNum = 0) : ms' = [] := by
  obtain ⟨frames, hall, hread⟩ := encode_readable h
  rw [readable_eq_nil hnone] at hread
  have hflat : frames.flatten = [] := (List.append_eq_nil_iff.mp hread.symm).2
  have hms : ms = [] := by
    cases hall with
    | nil => rfl
    | cons hencodes hrest =>
        have hfirst := (List.append_eq_nil_iff.mp hflat).1
        exact absurd hfirst (ne_nil_of_encodes hencodes)
  apply List.eq_nil_of_length_eq_zero
  rw [length_of_encode h, hms]
  rfl

/-- With nothing to write, `on_write` gives up the interest, and has no callback to run. -/
theorem finishWrite_nothing (c : TcpConnection κ) (sent : List UInt8) :
    (finishWrite c [] sent .writeAll).connection.listensOut = false ∧
      (finishWrite c [] sent .writeAll).called = [] := by
  simp only [finishWrite, runWriteDones]
  split <;> exact ⟨rfl, rfl⟩

theorem settles_inEvent {c : TcpConnection κ} (hc : c.state = .connected) :
    Settles c .inEvent := by
  intro h hhandles
  cases hhandles with
  | @onRead results c' handed hgets hrun =>
      rw [ReadsGet, if_pos hc] at hgets
      rcases onRead_cases hrun with ⟨hnot, -⟩ | ⟨-, b, -, rfl, rfl⟩ | ⟨-, b, hloop, -⟩
      · exact absurd hc hnot
      · -- the peer has closed: `clear` gives up both interests
        refine Or.inr ⟨?_, rfl⟩
        show ({ c with inBuffer := b }.clear).listensIn = false
        simp [TcpConnection.clear, hc]
      · rcases readLoop_progress hgets hloop with hclose | hprogress
        · cases hclose
        · exact Or.inl hprogress

theorem settles_outEvent {c : TcpConnection κ} (hc : c.state = .connected) :
    Settles c .outEvent := by
  intro h hhandles
  cases hhandles with
  | @onWrite results w hgets hrun hexit =>
      rw [WritesGet, if_pos hc] at hgets
      obtain ⟨messages, out, henc, hscript⟩ := hgets
      rw [onWrite, if_neg (not_not_intro hc), henc, ok_bind] at hrun
      obtain rfl := Except.ok.inj hrun
      rcases writeScript_progress hscript with hnone | hprogress
      · obtain rfl := encoded_nil henc hnone
        rw [writeLoop_empty hnone]
        obtain ⟨hlistens, hcalled⟩ := finishWrite_nothing { c with outBuffer := out } []
        refine Or.inr ⟨hlistens, ?_⟩
        rw [hcalled]
        rfl
      · exact Or.inl hprogress

/-! ### A connection that is not connected -/

/-- Both handlers return at once. -/
theorem handled_disconnected {c : TcpConnection κ} (hc : c.state ≠ .connected)
    {kind : TriggerEvent} {h : Handled κ} (hhandles : Handles c kind h) :
    h = ⟨c, false, false⟩ := by
  cases hhandles with
  | onRead hgets hrun =>
      rw [ReadsGet, if_neg hc] at hgets
      rcases onRead_cases hrun with ⟨-, rfl, rfl⟩ | ⟨hnot, -⟩ | ⟨hnot, -⟩
      · rw [hgets]
        rfl
      · exact absurd hnot hc
      · exact absurd hnot hc
  | onWrite hgets hrun hexit =>
      rw [WritesGet, if_neg hc] at hgets
      rw [onWrite_disconnected hc] at hrun
      obtain rfl := Except.ok.inj hrun
      rw [hgets]
      rfl

theorem handles_disconnected {c : TcpConnection κ} (hc : c.state ≠ .connected)
    (kind : TriggerEvent) : Handles c kind ⟨c, false, false⟩ := by
  cases kind with
  | inEvent =>
      have hgets : ReadsGet c [] := by rw [ReadsGet, if_neg hc]
      exact Handles.onRead hgets (onRead_disconnected hc [])
  | outEvent =>
      have hgets : WritesGet c [] := by rw [WritesGet, if_neg hc]
      exact Handles.onWrite hgets (onWrite_disconnected hc) (by simp)

theorem settles_disconnected {c : TcpConnection κ} (hc : c.state ≠ .connected)
    (kind : TriggerEvent) : Settles c kind ↔ c.listens kind = false := by
  constructor
  · intro h
    rcases h _ (handles_disconnected hc kind) with hprogress | hgone
    · cases hprogress
    · exact hgone.1
  · intro hgone h hhandles
    rw [handled_disconnected hc hhandles]
    exact Or.inr ⟨hgone, rfl⟩

/-- **A notification is settled**, however its handler returns, if and only if the connection
is connected or the kind is no longer registered by the time the handler runs. -/
theorem settles_iff (c : TcpConnection κ) (kind : TriggerEvent) :
    Settles c kind ↔ c.state = .connected ∨ c.listens kind = false := by
  by_cases hc : c.state = .connected
  · refine iff_of_true ?_ (Or.inl hc)
    cases kind with
    | inEvent => exact settles_inEvent hc
    | outEvent => exact settles_outEvent hc
  · rw [settles_disconnected hc]
    simp [hc]

/-- A connection that has been shut down, one that has been cleared and is to be written to,
and a client that is to be written to and is not connected yet. -/
theorem not_settles_disconnected :
    ¬ Settles acceptedConnection.shutdown .inEvent ∧
      ¬ Settles acceptedConnection.clear.listenWrite .outEvent ∧
      ¬ Settles (TcpConnection.ofBufferSize Unit 128 bufferSize_lt
        .tcpConnectionByClient).listenWrite .outEvent := by
  refine ⟨fun h => ?_, fun h => ?_, fun h => ?_⟩
  · cases (settles_disconnected (by decide) _).mp h
  · cases (settles_disconnected (by decide) _).mp h
  · cases (settles_disconnected (by decide) _).mp h

/-! ### The same notification once more -/

/-- A notification, and what the calls of its handler return. -/
inductive Notification
  | readable (results : List ReadResult)
  | writable (results : List WriteResult)

/-- The connection after the handler. -/
def notify : Step (TcpConnection κ) Notification
  | c, .readable results => (onRead c results).toOption.join.map Prod.fst
  | c, .writable results => (onWrite c results).toOption.map Written.connection

/-- **However many notifications come**, a connection that is not connected stays as it is,
its interests included. -/
theorem spins {c : TcpConnection κ} (hc : c.state ≠ .connected)
    (notifications : List Notification) : after notify c notifications = some c := by
  induction notifications with
  | nil => rfl
  | cons notification notifications ih =>
      have hsame : notify c notification = some c := by
        cases notification with
        | readable results => rw [notify, onRead_disconnected hc]; rfl
        | writable results => rw [notify, onWrite_disconnected hc]; rfl
      rw [after, hsame, Option.bind_some, ih]

end TinyRpc
