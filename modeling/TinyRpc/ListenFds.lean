/-
TinyRpc/ListenFds.lean

The fds that an event loop believes to be in its epoll instance.

`m_listen_fds` picks between `EPOLL_CTL_ADD` and `EPOLL_CTL_MOD`, and says whether
there is something to delete.  It is brought up to date after `epoll_ctl` whether
or not that has succeeded.  So a failed `ADD` leaves an fd in it that the kernel
does not know, and every later `add_epoll_event` of that fd is a `MOD`, which must
fail: `unmonitored`.  A failed `DEL` does the converse.

`mirrors_iff_meets`: `m_listen_fds` is right throughout exactly the runs in which
every `ADD` and every `DEL` succeeds.
-/
import Mathlib.Data.Finset.Basic
import Mathlib.Logic.Function.Basic
import TinyRpc.Base.Runs

namespace TinyRpc

open Runs

inductive EpollOp
  | add
  | mod
  | del
  deriving DecidableEq

variable {φ ε : Type} [DecidableEq φ]

/-- The kernel's interest list: the `epoll_event` of each fd in it. -/
abbrev Interest (φ ε : Type) := φ → Option ε

/-- The kernel lets an `ADD` succeed only for an fd that is not in the list, and the other two
only for one that is. -/
def EpollOp.applies (op : EpollOp) (entry : Option ε) : Bool :=
  match op with
  | .add => entry.isNone
  | .mod => entry.isSome
  | .del => entry.isSome

/-- `epoll_ctl`, which is told whether it succeeds.  A failed call leaves the list alone. -/
def epollCtl (interest : Interest φ ε) (op : EpollOp) (fd : φ) (event : Option ε)
    (succeeds : Bool) : Option (Interest φ ε) :=
  if succeeds then
    if op.applies (interest fd) then some (Function.update interest fd event) else none
  else some interest

structure ListenFds (φ ε : Type) where
  /-- `m_listen_fds` -/
  listenFds : Finset φ
  /-- what the kernel has for `m_epoll_fd` -/
  interest : Interest φ ε

inductive EpollCall (φ ε : Type)
  | addEpollEvent (fd : φ) (event : ε) (succeeds : Bool)
  | deleteEpollEvent (fd : φ) (succeeds : Bool)

namespace ListenFds

/-- An epoll instance before its first fd. -/
def start : ListenFds φ ε := ⟨∅, fun _ => none⟩

/-- The operation of `add_to_epoll`. -/
def op (s : ListenFds φ ε) (fd : φ) : EpollOp := if fd ∈ s.listenFds then .mod else .add

/-- `add_to_epoll`. -/
def addToEpoll (s : ListenFds φ ε) (fd : φ) (event : ε) (succeeds : Bool) :
    Option (ListenFds φ ε) :=
  (epollCtl s.interest (s.op fd) fd (some event) succeeds).map fun interest =>
    ⟨insert fd s.listenFds, interest⟩

/-- `delete_from_epoll`. -/
def deleteFromEpoll (s : ListenFds φ ε) (fd : φ) (succeeds : Bool) : Option (ListenFds φ ε) :=
  if fd ∈ s.listenFds then
    (epollCtl s.interest .del fd none succeeds).map fun interest =>
      ⟨s.listenFds.erase fd, interest⟩
  else some s

/-- `m_listen_fds` has exactly the fds that the kernel has. -/
def Mirrors (s : ListenFds φ ε) : Prop := ∀ fd, fd ∈ s.listenFds ↔ (s.interest fd).isSome

end ListenFds

def epollStep : Step (ListenFds φ ε) (EpollCall φ ε)
  | s, .addEpollEvent fd event succeeds => s.addToEpoll fd event succeeds
  | s, .deleteEpollEvent fd succeeds => s.deleteFromEpoll fd succeeds

/-- An `ADD` or a `DEL` succeeds. -/
def ChangesSucceed (s : ListenFds φ ε) : EpollCall φ ε → Prop
  | .addEpollEvent fd _ succeeds => fd ∉ s.listenFds → succeeds = true
  | .deleteEpollEvent fd succeeds => fd ∈ s.listenFds → succeeds = true

/-! ### What a call leaves -/

section EpollCtl

variable {interest interest' : Interest φ ε} {op : EpollOp} {fd : φ} {event : Option ε}

theorem epollCtl_failed (h : interest' ∈ epollCtl interest op fd event false) :
    interest' = interest :=
  (Option.some.inj h).symm

theorem epollCtl_succeeded (h : interest' ∈ epollCtl interest op fd event true) :
    op.applies (interest fd) ∧ interest' = Function.update interest fd event := by
  obtain ⟨happlies, heq⟩ := Option.mem_ite_none_right.mp h
  exact ⟨happlies, (Option.some.inj heq).symm⟩

/-- The other fds are left alone. -/
theorem epollCtl_of_ne {succeeds : Bool}
    (h : interest' ∈ epollCtl interest op fd event succeeds) {other : φ} (hne : other ≠ fd) :
    interest' other = interest other := by
  cases succeeds with
  | false => rw [epollCtl_failed h]
  | true =>
      obtain ⟨-, rfl⟩ := epollCtl_succeeded h
      exact Function.update_of_ne hne ..

end EpollCtl

namespace ListenFds

variable {s s' : ListenFds φ ε} {fd : φ}

theorem deleteFromEpoll_cases {succeeds : Bool} (hs : s' ∈ s.deleteFromEpoll fd succeeds) :
    (fd ∈ s.listenFds ∧ ∃ interest ∈ epollCtl s.interest .del fd none succeeds,
      s' = ⟨s.listenFds.erase fd, interest⟩) ∨ fd ∉ s.listenFds ∧ s' = s := by
  rw [deleteFromEpoll] at hs
  split at hs
  · rename_i hmem
    obtain ⟨interest, hctl, heq⟩ := Option.map_eq_some_iff.mp hs
    exact Or.inl ⟨hmem, interest, hctl, heq.symm⟩
  · rename_i hnew
    exact Or.inr ⟨hnew, (Option.some.inj hs).symm⟩

/-- An fd that is put in on both sides. -/
theorem Mirrors.insert (h : s.Mirrors) (event : ε) :
    (⟨Insert.insert fd s.listenFds, Function.update s.interest fd (some event)⟩ :
      ListenFds φ ε).Mirrors := by
  intro other
  dsimp only
  rw [Finset.mem_insert]
  by_cases heq : other = fd
  · subst heq
    simp
  · rw [Function.update_of_ne heq, ← h other]
    simp [heq]

/-- An fd that is taken out on both sides. -/
theorem Mirrors.erase (h : s.Mirrors) :
    (⟨s.listenFds.erase fd, Function.update s.interest fd none⟩ : ListenFds φ ε).Mirrors := by
  intro other
  dsimp only
  rw [Finset.mem_erase]
  by_cases heq : other = fd
  · subst heq
    simp
  · rw [Function.update_of_ne heq, ← h other]
    simp [heq]

theorem Mirrors.step (s : ListenFds φ ε) (call : EpollCall φ ε) (s' : ListenFds φ ε)
    (h : s.Mirrors) (hc : ChangesSucceed s call) (hs : s' ∈ epollStep s call) : s'.Mirrors := by
  cases call with
  | addEpollEvent fd event succeeds =>
      obtain ⟨interest, hctl, rfl⟩ := Option.map_eq_some_iff.mp hs
      cases succeeds with
      | true =>
          obtain ⟨-, rfl⟩ := epollCtl_succeeded hctl
          exact h.insert event
      | false =>
          -- a `MOD` has failed
          have hmem : fd ∈ s.listenFds := by
            by_contra hnew
            cases hc hnew
          rw [epollCtl_failed hctl, Finset.insert_eq_of_mem hmem]
          exact h
  | deleteEpollEvent fd succeeds =>
      rcases deleteFromEpoll_cases hs with ⟨hmem, interest, hctl, rfl⟩ | ⟨-, rfl⟩
      · rw [hc hmem] at hctl
        obtain ⟨-, rfl⟩ := epollCtl_succeeded hctl
        exact h.erase
      · exact h

/-- After a failed `ADD` or `DEL` the two sides differ. -/
theorem Mirrors.changesSucceed (s : ListenFds φ ε) (call : EpollCall φ ε) (s' : ListenFds φ ε)
    (h : s.Mirrors) (hs : s' ∈ epollStep s call) (h' : s'.Mirrors) : ChangesSucceed s call := by
  cases call with
  | addEpollEvent fd event succeeds =>
      intro hnew
      cases succeeds with
      | true => rfl
      | false =>
          obtain rfl := Option.some.inj hs
          have hknown : (s.interest fd).isSome := (h' fd).mp (Finset.mem_insert_self fd _)
          exact absurd ((h fd).mpr hknown) hnew
  | deleteEpollEvent fd succeeds =>
      intro hmem
      cases succeeds with
      | true => rfl
      | false =>
          rcases deleteFromEpoll_cases hs with ⟨-, interest, hctl, rfl⟩ | ⟨hnew, -⟩
          · obtain rfl := epollCtl_failed hctl
            have hknown : fd ∈ s.listenFds.erase fd := (h' fd).mpr ((h fd).mp hmem)
            exact absurd hknown (Finset.notMem_erase fd _)
          · exact absurd hmem hnew

end ListenFds

/-- **`m_listen_fds` has exactly the fds that the kernel has**, throughout a run, if and only
if every `ADD` and every `DEL` succeeds. -/
theorem mirrors_iff_meets (calls : List (EpollCall φ ε)) :
    Always epollStep ListenFds.Mirrors ListenFds.start calls ↔
      Meets epollStep ChangesSucceed ListenFds.start calls :=
  always_iff_meets (fun _ h => h) ListenFds.Mirrors.step ListenFds.Mirrors.changesSucceed
    fun _ => by simp [ListenFds.start]

/-- The registration of an fd fails. -/
theorem not_mirrors_failed :
    ¬ Always epollStep ListenFds.Mirrors (ListenFds.start : ListenFds Int Unit)
      [.addEpollEvent 5 () false] := by
  intro h
  have hafter := h.2 _ rfl
  have hknown := (hafter 5).mp (Finset.mem_insert_self 5 _)
  cases hknown

/-! ### An fd that only `m_listen_fds` has -/

namespace ListenFds

/-- As long as `m_listen_fds` is right, an fd that the kernel does not have is added. -/
theorem Mirrors.op_eq_add {s : ListenFds φ ε} (h : s.Mirrors) {fd : φ}
    (hfd : s.interest fd = none) : s.op fd = .add := by
  refine if_neg fun hmem => ?_
  have hknown := (h fd).mp hmem
  rw [hfd] at hknown
  cases hknown

/-- `m_listen_fds` has the fd, and the kernel does not. -/
def Unmonitored (fd : φ) (s : ListenFds φ ε) : Prop :=
  fd ∈ s.listenFds ∧ s.interest fd = none

theorem Unmonitored.step {fd : φ} (s : ListenFds φ ε) (call : EpollCall φ ε) (s' : ListenFds φ ε)
    (h : s.Unmonitored fd) (hc : ∀ succeeds, call ≠ .deleteEpollEvent fd succeeds)
    (hs : s' ∈ epollStep s call) : s'.Unmonitored fd := by
  cases call with
  | addEpollEvent other event succeeds =>
      obtain ⟨interest, hctl, rfl⟩ := Option.map_eq_some_iff.mp hs
      refine ⟨Finset.mem_insert_of_mem h.1, ?_⟩
      by_cases heq : fd = other
      · subst heq
        cases succeeds with
        | false => exact (congrFun (epollCtl_failed hctl) fd).trans h.2
        | true =>
            -- the call is a `MOD`, which does not succeed for this fd
            have happlies := (epollCtl_succeeded hctl).1
            rw [op, if_pos h.1, h.2] at happlies
            cases happlies
      · exact (epollCtl_of_ne hctl heq).trans h.2
  | deleteEpollEvent other succeeds =>
      have hne : fd ≠ other := by
        rintro rfl
        exact hc succeeds rfl
      rcases deleteFromEpoll_cases hs with ⟨-, interest, hctl, rfl⟩ | ⟨-, rfl⟩
      · exact ⟨Finset.mem_erase.mpr ⟨hne, h.1⟩, (epollCtl_of_ne hctl hne).trans h.2⟩
      · exact h

/-- **No call but a deletion of the fd helps**: however often it is added again, the kernel
does not get to know it. -/
theorem unmonitored {fd : φ} {s : ListenFds φ ε} (hs : s.Unmonitored fd)
    (calls : List (EpollCall φ ε))
    (h : Meets epollStep (fun _ call => ∀ succeeds, call ≠ .deleteEpollEvent fd succeeds) s
      calls) : Always epollStep (Unmonitored fd) s calls :=
  always_of_meets (fun _ h => h) Unmonitored.step hs h

end ListenFds

end TinyRpc
