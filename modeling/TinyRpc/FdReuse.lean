/-
TinyRpc/FdReuse.lean

Clients that come and go, and the `FdEvent`s that stay.

`FdEventGroup` keeps one `FdEvent` for each fd number.  A `TcpClient` closes its fd when it is
destroyed, and the kernel gives the number to the next client; but what the first one has listened
to stays in the `FdEvent`, with callbacks that point to the connection that is gone.  The event
loop is the client's own, so it registers nothing of that by itself; but as soon as the next client
listens to anything, all of it is registered again.

`callbacks_are_own`: if clients are destroyed only when neither kind of event is listened to any
more, as `clear` leaves them, and a refused connect gets the number of the fd that it has closed, an
event loop never enqueues a callback of another client.
-/
import Mathlib.Data.Finset.Basic
import Mathlib.Logic.Function.Basic
import TinyRpc.Base.Runs
import TinyRpc.FdEvent

namespace TinyRpc

open FdEvent Runs

variable {γ φ : Type}

/-! ### Clients and their fds -/

structure FdClient (φ : Type) where
  /-- `m_fd` -/
  fd : φ
  /-- the fd of `m_fd_event` -/
  eventFd : φ
  /-- what the epoll instance of its event loop has for that fd -/
  registered : Option UInt32
  deriving DecidableEq

/-- The clients are known by `γ`, and so are their callbacks. -/
structure FdClients (γ φ : Type) where
  /-- the fds of clients that are open -/
  openFds : Finset φ
  /-- `g_fd_event_group` -/
  events : φ → FdEvent γ
  clients : γ → Option (FdClient φ)

inductive FdUse (φ : Type)
  /-- `TcpClient()`, with the fd that `socket` gives -/
  | create (fd : φ)
  /-- `connect`, which waits for the socket to become writable -/
  | connect
  | connected
  /-- the connect fails, and `socket` gives another fd -/
  | refused (fd : φ)
  | listenWrite
  | listenRead
  /-- the end of an `on_write` that has written all -/
  | writtenAll
  | clear
  | destroy

section Model

variable [DecidableEq γ] [DecidableEq φ]

namespace FdClients

def start : FdClients γ φ := ⟨∅, fun _ => FdEvent.create, fun _ => none⟩

/-- `close`.  The kernel takes a closed fd out of all epoll instances. -/
def close (s : FdClients γ φ) (fd : φ) : FdClients γ φ where
  openFds := s.openFds.erase fd
  events := s.events
  clients := fun c => (s.clients c).map fun client =>
    if client.eventFd = fd then { client with registered := none } else client

/-- A client has changed its `FdEvent` into `event`, and its registration. -/
def change (s : FdClients γ φ) (c : γ) (client : FdClient φ) (event : FdEvent γ)
    (registered : Option UInt32) : FdClients γ φ where
  openFds := s.openFds
  events := Function.update s.events client.eventFd event
  clients := Function.update s.clients c (some { client with registered := registered })

/-- `add_epoll_event` with the `FdEvent` as `event` has it. -/
def addEpollEvent (s : FdClients γ φ) (c : γ) (client : FdClient φ) (event : FdEvent γ) :
    FdClients γ φ :=
  s.change c client event (if client.eventFd ∈ s.openFds then some event.listenEvents else none)

end FdClients

open FdClients

def fdUseStep : Step (FdClients γ φ) (γ × FdUse φ)
  | s, (c, .create fd) =>
      if (s.clients c).isSome ∨ fd ∈ s.openFds then none
      else
        some
          { openFds := insert fd s.openFds
            events := s.events
            clients := Function.update s.clients c (some ⟨fd, fd, none⟩) }
  | s, (c, .connect) => (s.clients c).map fun client =>
      s.addEpollEvent c client ((s.events client.eventFd).listen .outEvent (some c) none)
  | s, (c, .connected) => (s.clients c).map fun client =>
      s.change c client (s.events client.eventFd) none
  | s, (c, .refused fd) => (s.clients c).bind fun client =>
      if fd ∈ (s.close client.fd).openFds then none
      else
        some
          { s.close client.fd with
            openFds := insert fd (s.close client.fd).openFds
            clients := Function.update (s.close client.fd).clients c
              (some ⟨fd, client.eventFd, none⟩) }
  | s, (c, .listenWrite) => (s.clients c).map fun client =>
      s.addEpollEvent c client ((s.events client.eventFd).listen .outEvent (some c) none)
  | s, (c, .listenRead) => (s.clients c).map fun client =>
      s.addEpollEvent c client ((s.events client.eventFd).listen .inEvent (some c) none)
  | s, (c, .writtenAll) => (s.clients c).map fun client =>
      s.addEpollEvent c client ((s.events client.eventFd).cancel .outEvent)
  | s, (c, .clear) => (s.clients c).map fun client =>
      s.change c client (((s.events client.eventFd).cancel .inEvent).cancel .outEvent) none
  | s, (c, .destroy) => (s.clients c).map fun client =>
      { s.close client.fd with clients := Function.update (s.close client.fd).clients c none }

end Model

/-- What the event loop of a client enqueues are its own callbacks.  (`epoll_wait` reports what is
registered and is the case, and errors anyhow.) -/
def OwnCallbacks (s : FdClients γ φ) : Prop :=
  ∀ c client mask, s.clients c = some client → client.registered = some mask →
    ∀ ready, ∀ task ∈ ((s.events client.eventFd).dispatch (ready &&& (mask ||| epollErr))).1,
      task = some c

/-- Nothing is listened to. -/
def FdEvent.Idle (f : FdEvent γ) : Prop :=
  f.listenEvents &&& epollIn = 0 ∧ f.listenEvents &&& epollOut = 0

instance (f : FdEvent γ) : Decidable f.Idle := inferInstanceAs (Decidable (_ ∧ _))

/-- A client is destroyed when nothing is listened to on its fd, and a refused one keeps the number
of its fd. -/
def LeavesIdle (s : FdClients γ φ) : γ × FdUse φ → Prop
  | (c, .destroy) => ∀ client ∈ s.clients c, (s.events client.eventFd).Idle
  | (c, .refused fd) => ∀ client ∈ s.clients c, fd = client.fd
  | _ => True

instance decidableLeavesIdle [DecidableEq φ] (s : FdClients γ φ) :
    ∀ event, Decidable (LeavesIdle s event)
  | (c, .destroy) => inferInstanceAs (Decidable (∀ client ∈ s.clients c, _))
  | (c, .refused _) => inferInstanceAs (Decidable (∀ client ∈ s.clients c, _))
  | (_, .create _) | (_, .connect) | (_, .connected) | (_, .listenWrite) | (_, .listenRead)
  | (_, .writtenAll) | (_, .clear) => isTrue trivial

/-! ### The mask of an `FdEvent` -/

section Mask

variable {κ : Type} {f : FdEvent κ} {c : κ} {mask ready : UInt32}

/-- The callbacks for what `mask` has are those of `c`. -/
structure OwnBits (c : κ) (mask : UInt32) (f : FdEvent κ) : Prop where
  read : mask &&& epollIn ≠ 0 → f.readCallback = some c
  write : mask &&& epollOut ≠ 0 → f.writeCallback = some c

theorem FdEvent.Idle.ownBits (h : f.Idle) : OwnBits c f.listenEvents f :=
  ⟨fun hin => absurd h.1 hin, fun hout => absurd h.2 hout⟩

theorem or_and_distrib (a b bit : UInt32) : (a ||| b) &&& bit = a &&& bit ||| b &&& bit :=
  UInt32.toBitVec_inj.mp BitVec.and_or_distrib_right

/-- Another bit is not looked at. -/
theorem or_and_of_and_eq_zero {a b bit : UInt32} (h : b &&& bit = 0) :
    (a ||| b) &&& bit = a &&& bit := by
  rw [or_and_distrib, h, UInt32.or_zero]

/-- What is reported without an error is registered. -/
theorem and_of_reported {bit : UInt32} (hbit : epollErr &&& bit = 0)
    (h : ready &&& (mask ||| epollErr) &&& bit ≠ 0) : mask &&& bit ≠ 0 := by
  intro hzero
  refine h ?_
  rw [UInt32.and_assoc, or_and_of_and_eq_zero hbit, hzero, UInt32.and_zero]

/-- `listen` with a callback of `c`. -/
theorem OwnBits.listen (h : OwnBits c f.listenEvents f) (eventType : TriggerEvent) :
    OwnBits c (f.listen eventType (some c) none).listenEvents
      (f.listen eventType (some c) none) := by
  have hin : (f.listenEvents ||| epollIn) &&& epollOut = f.listenEvents &&& epollOut :=
    or_and_of_and_eq_zero rfl
  have hout : (f.listenEvents ||| epollOut) &&& epollIn = f.listenEvents &&& epollIn :=
    or_and_of_and_eq_zero rfl
  cases eventType with
  | inEvent => exact ⟨fun _ => rfl, fun hset => h.write (hin ▸ hset)⟩
  | outEvent => exact ⟨fun hset => h.read (hout ▸ hset), fun _ => rfl⟩
  | errorEvent => exact ⟨fun hset => h.read (hout ▸ hset), fun _ => rfl⟩

theorem OwnBits.cancel (h : OwnBits c f.listenEvents f) (typeEvent : TriggerEvent) :
    OwnBits c (f.cancel typeEvent).listenEvents (f.cancel typeEvent) := by
  -- a bit that is left was there
  have hleft : ∀ {a bit : UInt32},
      f.listenEvents &&& a &&& bit ≠ 0 → f.listenEvents &&& bit ≠ 0 := by
    intro a bit hset hzero
    refine hset ?_
    rw [UInt32.and_assoc, UInt32.and_comm a, ← UInt32.and_assoc, hzero, UInt32.zero_and]
  cases typeEvent with
  | inEvent => exact ⟨fun hset => h.read (hleft hset), fun hset => h.write (hleft hset)⟩
  | outEvent => exact ⟨fun hset => h.read (hleft hset), fun hset => h.write (hleft hset)⟩
  | errorEvent => exact ⟨fun hset => h.read (hleft hset), fun hset => h.write (hleft hset)⟩

/-- `cancel` does not look at the callbacks. -/
theorem cancel_errorCallback (f : FdEvent κ) (typeEvent : TriggerEvent) :
    (f.cancel typeEvent).errorCallback = f.errorCallback := by
  cases typeEvent <;> rfl

/-- An `FdEvent` whose callbacks are those of `c` gives the loop nothing else. -/
theorem OwnBits.dispatch (h : OwnBits c mask f) (hnone : f.errorCallback = none)
    (ready : UInt32) : ∀ task ∈ (f.dispatch (ready &&& (mask ||| epollErr))).1, task = some c := by
  have hin : ready &&& (mask ||| epollErr) &&& epollIn ≠ 0 → f.readCallback = some c :=
    fun hset => h.read (and_of_reported rfl hset)
  have hout : ready &&& (mask ||| epollErr) &&& epollOut ≠ 0 → f.writeCallback = some c :=
    fun hset => h.write (and_of_reported rfl hset)
  have herr : f.handler .errorEvent = none := hnone
  intro task htask
  unfold FdEvent.dispatch at htask
  simp only [herr, ne_eq, not_true_eq_false, if_false, List.append_nil] at htask
  rw [apply_ite Prod.fst, ite_self] at htask
  rcases List.mem_append.mp htask with hread | hwrite
  · split at hread
    · rename_i hset
      rw [List.mem_singleton.mp hread]
      exact hin hset
    · exact absurd hread List.not_mem_nil
  · split at hwrite
    · rename_i hset
      rw [List.mem_singleton.mp hwrite]
      exact hout hset
    · exact absurd hwrite List.not_mem_nil

end Mask

/-! ### What every step keeps -/

/-- Every open fd is that of one client, which owns what its `FdEvent` listens to; on an fd that is
closed, nothing is listened to. -/
structure FdClients.Tidy (s : FdClients γ φ) : Prop where
  noError : ∀ fd, (s.events fd).errorCallback = none
  free : ∀ fd, fd ∉ s.openFds → (s.events fd).Idle
  here : ∀ c client, s.clients c = some client →
    client.eventFd = client.fd ∧ client.fd ∈ s.openFds
  own : ∀ c client, s.clients c = some client →
    OwnBits c (s.events client.eventFd).listenEvents (s.events client.eventFd)
  registered : ∀ c client mask, s.clients c = some client → client.registered = some mask →
    OwnBits c mask (s.events client.eventFd)
  apart : ∀ c c' client client', s.clients c = some client → s.clients c' = some client' →
    client.fd = client'.fd → c = c'

namespace FdClients

variable {s : FdClients γ φ} {c c' : γ} {client client' : FdClient φ} {event : FdEvent γ}
  {registered : Option UInt32}

/-- Clients have `FdEvent`s of their own. -/
theorem Tidy.eventFd_ne (h : s.Tidy) (hc : s.clients c = some client)
    (hc' : s.clients c' = some client') (hne : c' ≠ c) : client'.eventFd ≠ client.eventFd := by
  intro heq
  rw [(h.here c client hc).1, (h.here c' client' hc').1] at heq
  exact hne (h.apart c' c client' client hc' hc heq)

theorem Tidy.ownCallbacks (h : s.Tidy) : OwnCallbacks s := fun c client mask hc hreg ready =>
  (h.registered c client mask hc hreg).dispatch (h.noError client.eventFd) ready

theorem Tidy.start : (start : FdClients γ φ).Tidy where
  noError := fun _ => rfl
  free := fun _ _ => ⟨UInt32.zero_and, UInt32.zero_and⟩
  here := fun _ _ hc => by cases hc
  own := fun _ _ hc => by cases hc
  registered := fun _ _ _ hc => by cases hc
  apart := fun _ _ _ _ hc => by cases hc

section Steps

variable [DecidableEq φ]

/-- To close the fd of a client does nothing to the others. -/
theorem Tidy.close_clients (h : s.Tidy) (hc : s.clients c = some client) (hne : c' ≠ c) :
    (s.close client.fd).clients c' = s.clients c' := by
  show (s.clients c').map _ = _
  cases hc' : s.clients c' with
  | none => rfl
  | some client' =>
      have hfd : client'.eventFd ≠ client.fd := by
        rw [← (h.here c client hc).1]
        exact h.eventFd_ne hc hc' hne
      exact congrArg some (if_neg hfd)

variable [DecidableEq γ]

/-- A client after its change, or another one, which is as it was. -/
theorem change_clients (hc' : (s.change c client event registered).clients c' = some client') :
    c' = c ∧ client' = { client with registered := registered } ∨
      c' ≠ c ∧ s.clients c' = some client' := by
  by_cases hsame : c' = c
  · subst hsame
    have hnew := (Function.update_self c' _ s.clients).symm.trans hc'
    exact .inl ⟨rfl, (Option.some.inj hnew).symm⟩
  · exact .inr ⟨hsame, (Function.update_of_ne hsame _ s.clients).symm.trans hc'⟩

/-- **A client may do with its own `FdEvent` what keeps the callbacks its own.** -/
theorem Tidy.change (h : s.Tidy) (hc : s.clients c = some client)
    (hnone : event.errorCallback = none) (hown : OwnBits c event.listenEvents event)
    (hmask : ∀ mask, registered = some mask → OwnBits c mask event) :
    (s.change c client event registered).Tidy := by
  have hself : (s.change c client event registered).events client.eventFd = event :=
    Function.update_self _ _ _
  have hother : ∀ fd, fd ≠ client.eventFd →
      (s.change c client event registered).events fd = s.events fd :=
    fun fd hne => Function.update_of_ne hne _ _
  refine ⟨fun fd => ?_, fun fd hfree => ?_, fun c' client' hc' => ?_, fun c' client' hc' => ?_,
    fun c' client' mask hc' hreg => ?_, fun c₁ c₂ client₁ client₂ h₁ h₂ heq => ?_⟩
  · by_cases hfd : fd = client.eventFd
    · rw [hfd, hself]
      exact hnone
    · rw [hother fd hfd]
      exact h.noError fd
  · obtain ⟨heq, hopen⟩ := h.here c client hc
    have hfd : fd ≠ client.eventFd := by
      rintro rfl
      exact hfree (heq ▸ hopen)
    rw [hother fd hfd]
    exact h.free fd hfree
  · rcases change_clients hc' with ⟨rfl, rfl⟩ | ⟨-, hold⟩
    · exact h.here c' client hc
    · exact h.here c' client' hold
  · rcases change_clients hc' with ⟨rfl, rfl⟩ | ⟨hne, hold⟩
    · rw [hself]
      exact hown
    · rw [hother _ (h.eventFd_ne hc hold hne)]
      exact h.own c' client' hold
  · rcases change_clients hc' with ⟨rfl, rfl⟩ | ⟨hne, hold⟩
    · rw [hself]
      exact hmask mask hreg
    · rw [hother _ (h.eventFd_ne hc hold hne)]
      exact h.registered c' client' mask hold hreg
  · rcases change_clients h₁ with ⟨rfl, rfl⟩ | ⟨-, hold₁⟩
    · rcases change_clients h₂ with ⟨rfl, rfl⟩ | ⟨-, hold₂⟩
      · rfl
      · exact h.apart c₁ c₂ client client₂ hc hold₂ heq
    · rcases change_clients h₂ with ⟨rfl, rfl⟩ | ⟨-, hold₂⟩
      · exact h.apart c₁ c₂ client₁ client hold₁ hc heq
      · exact h.apart c₁ c₂ client₁ client₂ hold₁ hold₂ heq

/-- What is registered is what is listened to now. -/
theorem Tidy.addEpollEvent (h : s.Tidy) (hc : s.clients c = some client)
    (hnone : event.errorCallback = none) (hown : OwnBits c event.listenEvents event) :
    (s.addEpollEvent c client event).Tidy := by
  refine h.change hc hnone hown fun mask hmask => ?_
  obtain ⟨-, heq⟩ := Option.ite_none_right_eq_some.mp hmask
  obtain rfl := Option.some.inj heq
  exact hown

theorem Tidy.listen (h : s.Tidy) (hc : s.clients c = some client) (eventType : TriggerEvent) :
    (s.addEpollEvent c client
      ((s.events client.eventFd).listen eventType (some c) none)).Tidy :=
  h.addEpollEvent hc (ite_self none) ((h.own c client hc).listen eventType)

/-- A new client gets an fd on which nothing is listened to. -/
theorem Tidy.create (h : s.Tidy) {fd : φ} (hfd : fd ∉ s.openFds) :
    Tidy
      { openFds := insert fd s.openFds
        events := s.events
        clients := Function.update s.clients c (some ⟨fd, fd, none⟩) } := by
  have hclients : ∀ {c' client'},
      Function.update s.clients c (some ⟨fd, fd, none⟩) c' = some client' →
        c' = c ∧ client' = ⟨fd, fd, none⟩ ∨ s.clients c' = some client' := by
    intro c' client' hc'
    by_cases hsame : c' = c
    · subst hsame
      rw [Function.update_self] at hc'
      exact .inl ⟨rfl, (Option.some.inj hc').symm⟩
    · rw [Function.update_of_ne hsame] at hc'
      exact .inr hc'
  have hnot : ∀ {c' client'}, s.clients c' = some client' → client'.fd ≠ fd := by
    rintro c' client' hc' rfl
    exact hfd (h.here c' client' hc').2
  refine ⟨h.noError, fun fd' hfree => ?_, fun c' client' hc' => ?_, fun c' client' hc' => ?_,
    fun c' client' mask hc' hreg => ?_, fun c₁ c₂ client₁ client₂ h₁ h₂ heq => ?_⟩
  · exact h.free fd' fun hopen => hfree (Finset.mem_insert_of_mem hopen)
  · rcases hclients hc' with ⟨-, rfl⟩ | hold
    · exact ⟨rfl, Finset.mem_insert_self _ _⟩
    · exact (h.here c' client' hold).imp_right Finset.mem_insert_of_mem
  · rcases hclients hc' with ⟨-, rfl⟩ | hold
    · exact (h.free fd hfd).ownBits
    · exact h.own c' client' hold
  · rcases hclients hc' with ⟨-, rfl⟩ | hold
    · cases hreg
    · exact h.registered c' client' mask hold hreg
  · rcases hclients h₁ with ⟨rfl, rfl⟩ | hold₁
    · rcases hclients h₂ with ⟨rfl, rfl⟩ | hold₂
      · rfl
      · exact absurd heq.symm (hnot hold₂)
    · rcases hclients h₂ with ⟨rfl, rfl⟩ | hold₂
      · exact absurd heq (hnot hold₁)
      · exact h.apart c₁ c₂ client₁ client₂ hold₁ hold₂ heq

/-- A client that leaves nothing listened to may go. -/
theorem Tidy.destroy (h : s.Tidy) (hc : s.clients c = some client)
    (hidle : (s.events client.eventFd).Idle) :
    Tidy
      { s.close client.fd with
        clients := Function.update (s.close client.fd).clients c none } := by
  have hclients : ∀ {c' client'},
      Function.update (s.close client.fd).clients c none c' = some client' →
        c' ≠ c ∧ s.clients c' = some client' := by
    intro c' client' hc'
    by_cases hsame : c' = c
    · subst hsame
      rw [Function.update_self] at hc'
      cases hc'
    · rw [Function.update_of_ne hsame, h.close_clients hc hsame] at hc'
      exact ⟨hsame, hc'⟩
  refine ⟨h.noError, fun fd hfree => ?_, fun c' client' hc' => ?_,
    fun c' client' hc' => h.own c' client' (hclients hc').2,
    fun c' client' mask hc' => h.registered c' client' mask (hclients hc').2,
    fun c₁ c₂ client₁ client₂ h₁ h₂ =>
      h.apart c₁ c₂ client₁ client₂ (hclients h₁).2 (hclients h₂).2⟩
  · by_cases hfd : fd = client.fd
    · rw [hfd, ← (h.here c client hc).1]
      exact hidle
    · exact h.free fd fun hopen => hfree (Finset.mem_erase.mpr ⟨hfd, hopen⟩)
  · obtain ⟨hne, hold⟩ := hclients hc'
    obtain ⟨heq, hopen⟩ := h.here c' client' hold
    refine ⟨heq, Finset.mem_erase.mpr ⟨fun hfd => ?_, hopen⟩⟩
    exact hne (h.apart c' c client' client hold hc hfd)

/-- A refused client whose new fd has the number of the old one has lost its registration. -/
theorem Tidy.refused_eq (h : s.Tidy) (hc : s.clients c = some client) :
    { s.close client.fd with
        openFds := insert client.fd (s.close client.fd).openFds
        clients := Function.update (s.close client.fd).clients c
          (some ⟨client.fd, client.eventFd, none⟩) } =
      s.change c client (s.events client.eventFd) none := by
  have hopen : insert client.fd (s.openFds.erase client.fd) = s.openFds :=
    Finset.insert_erase (h.here c client hc).2
  have hclients : Function.update (s.close client.fd).clients c
      (some ⟨client.fd, client.eventFd, none⟩) =
        Function.update s.clients c (some { client with registered := none }) := by
    funext c'
    by_cases hsame : c' = c
    · subst hsame
      rw [Function.update_self, Function.update_self]
    · rw [Function.update_of_ne hsame, Function.update_of_ne hsame, h.close_clients hc hsame]
  show FdClients.mk (insert client.fd (s.openFds.erase client.fd)) s.events _ = _
  rw [hopen, hclients, FdClients.change, Function.update_eq_self]

theorem Tidy.step (s : FdClients γ φ) (event : γ × FdUse φ) (s' : FdClients γ φ) (h : s.Tidy)
    (hidle : LeavesIdle s event) (hs : s' ∈ fdUseStep s event) : s'.Tidy := by
  obtain ⟨c, use⟩ := event
  cases use with
  | create fd =>
      obtain ⟨hnew, heq⟩ := Option.mem_ite_none_left.mp hs
      obtain rfl := Option.some.inj heq
      exact h.create (not_or.mp hnew).2
  | connect =>
      obtain ⟨client, hc, rfl⟩ := Option.map_eq_some_iff.mp hs
      exact h.listen hc .outEvent
  | connected =>
      obtain ⟨client, hc, rfl⟩ := Option.map_eq_some_iff.mp hs
      exact h.change hc (h.noError _) (h.own c client hc) fun mask hmask => by cases hmask
  | refused fd =>
      obtain ⟨client, hc, hs⟩ := Option.bind_eq_some_iff.mp hs
      obtain ⟨-, heq⟩ := Option.mem_ite_none_left.mp hs
      obtain rfl : fd = client.fd := hidle client hc
      obtain rfl := Option.some.inj heq
      rw [h.refused_eq hc]
      exact h.change hc (h.noError _) (h.own c client hc) fun mask hmask => by cases hmask
  | listenWrite =>
      obtain ⟨client, hc, rfl⟩ := Option.map_eq_some_iff.mp hs
      exact h.listen hc .outEvent
  | listenRead =>
      obtain ⟨client, hc, rfl⟩ := Option.map_eq_some_iff.mp hs
      exact h.listen hc .inEvent
  | writtenAll =>
      obtain ⟨client, hc, rfl⟩ := Option.map_eq_some_iff.mp hs
      exact h.addEpollEvent hc ((cancel_errorCallback _ _).trans (h.noError _))
        ((h.own c client hc).cancel .outEvent)
  | clear =>
      obtain ⟨client, hc, rfl⟩ := Option.map_eq_some_iff.mp hs
      refine h.change hc ?_ (((h.own c client hc).cancel .inEvent).cancel .outEvent)
        fun mask hmask => by cases hmask
      rw [cancel_errorCallback, cancel_errorCallback]
      exact h.noError _
  | destroy =>
      obtain ⟨client, hc, rfl⟩ := Option.map_eq_some_iff.mp hs
      exact h.destroy hc (hidle client hc)

end Steps

end FdClients

/-- **No event loop enqueues a callback of another client**, as long as clients are destroyed only
when nothing is listened to on their fds any more, and refused ones keep the numbers of theirs. -/
theorem callbacks_are_own [DecidableEq γ] [DecidableEq φ] (events : List (γ × FdUse φ))
    (h : Meets fdUseStep LeavesIdle FdClients.start events) :
    Always fdUseStep OwnCallbacks (FdClients.start : FdClients γ φ) events :=
  always_of_meets (fun _ hs => hs.ownCallbacks) FdClients.Tidy.step FdClients.Tidy.start h

/-- A client that makes a call and closes, and one that gets its fd. -/
def closedAndReused (close : List (FdUse Nat)) : List (Bool × FdUse Nat) :=
  let calls : List (FdUse Nat) :=
    [.create 5, .connect, .connected, .listenWrite, .writtenAll, .listenRead]
  (calls ++ close).map (false, ·) ++ [(true, .create 5), (true, .connect)]

theorem callbacks_are_own_closedAndReused :
    Always fdUseStep OwnCallbacks FdClients.start (closedAndReused [.clear, .destroy]) :=
  callbacks_are_own _ (by decide +kernel)

/-- After a call that has been answered, the read callback is still there for the next client. -/
example :
    (after fdUseStep FdClients.start (closedAndReused [.destroy])).map
        (fun s => (s.clients true, ((s.events 5).dispatch epollIn).1)) =
      some (some ⟨5, 5, some (epollIn ||| epollOut)⟩, [some false]) := by
  decide +kernel

end TinyRpc
