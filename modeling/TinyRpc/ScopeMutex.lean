/-
TinyRpc/ScopeMutex.lean

One mutex, and any number of guards through which threads lock it.

The flag of a guard, `m_is_lock`, is set by the constructor and cleared by the
destructor only.  So after `unlock()` the guard goes on believing that it holds the
mutex: its `lock()` does nothing, and a second `unlock()` and the destructor unlock
the mutex once more, whoever holds it by then.

`holderOnly_iff_meets`: the mutex is unlocked by its holder only, and keeps the
threads apart, in exactly the runs in which no guard is used, or destroyed, after
its `unlock()`.
-/
import Mathlib.Logic.Function.Basic
import TinyRpc.Base.Runs

namespace TinyRpc

open Runs

/-- A `ScopeMutex` that has been constructed, and not destroyed. -/
structure Guard where
  /-- `m_is_lock` -/
  isLock : Bool
  /-- its thread is in the section that it guards -/
  inside : Bool
  /-- `unlock()` has been called -/
  unlocked : Bool
  deriving DecidableEq

inductive GuardCall
  | construct
  | lock
  | unlock
  | destroy
  deriving DecidableEq

/-- The mutex and its guards, each of which belongs to one thread. -/
structure ScopeMutex (γ : Type) where
  /-- the guard that the mutex is locked through -/
  owner : Option γ
  guard : γ → Option Guard
  /-- who has called `m_mutex.unlock()`, and who held the mutex at that moment -/
  unlocks : List (γ × Option γ)

variable {γ : Type} [DecidableEq γ]

namespace ScopeMutex

def start : ScopeMutex γ := ⟨none, fun _ => none, []⟩

/-- `m_mutex.unlock()`. -/
def unlockMutex (s : ScopeMutex γ) (g : γ) : ScopeMutex γ :=
  { s with owner := none, unlocks := s.unlocks ++ [(g, s.owner)] }

def setGuard (s : ScopeMutex γ) (g : γ) (guard : Option Guard) : ScopeMutex γ :=
  { s with guard := Function.update s.guard g guard }

end ScopeMutex

/-- A call on a guard; `m_mutex.lock()` waits until the mutex is free. -/
def guardStep : Step (ScopeMutex γ) (γ × GuardCall)
  | s, (g, .construct) =>
      match s.guard g, s.owner with
      | none, none =>
          some ({ s with owner := some g }.setGuard g
            (some { isLock := true, inside := true, unlocked := false }))
      | _, _ => none
  | s, (g, .lock) =>
      (s.guard g).bind fun guard =>
        if guard.isLock then some (s.setGuard g (some { guard with inside := true }))
        else if s.owner.isNone then
          some ({ s with owner := some g }.setGuard g (some { guard with inside := true }))
        else none
  | s, (g, .unlock) =>
      (s.guard g).map fun guard =>
        let s := if guard.isLock then s.unlockMutex g else s
        s.setGuard g (some { guard with inside := false, unlocked := true })
  | s, (g, .destroy) => (s.guard g).map fun _ => (s.unlockMutex g).setGuard g none

/-- The mutex has been unlocked by its holder only; a guard that holds it does not lock it
again; and whoever is in a guarded section holds it. -/
structure HolderOnly (s : ScopeMutex γ) : Prop where
  unlockedByHolder : ∀ u ∈ s.unlocks, u.2 = some u.1
  notLockedAgain : ∀ g, ∀ guard ∈ s.guard g, s.owner = some g → guard.isLock = true
  holds : ∀ g, ∀ guard ∈ s.guard g, guard.inside = true → s.owner = some g

omit [DecidableEq γ] in
/-- At most one thread is in a guarded section. -/
theorem HolderOnly.atMostOne {s : ScopeMutex γ} (h : HolderOnly s) {g g' : γ} {guard guard' : Guard}
    (hg : s.guard g = some guard) (hg' : s.guard g' = some guard') (hin : guard.inside = true)
    (hin' : guard'.inside = true) : g = g' :=
  Option.some.inj ((h.holds g guard hg hin).symm.trans (h.holds g' guard' hg' hin'))

/-- Nothing is done with a guard after its `unlock()`. -/
def NotAfterUnlock (s : ScopeMutex γ) : γ × GuardCall → Prop
  | (_, .construct) => True
  | (g, _) => ∀ guard ∈ s.guard g, guard.unlocked = false

/-! ### What such runs keep -/

/-- A guard believes to hold the mutex, and does hold it until its `unlock()`. -/
structure Guard.Fits (owner : Option γ) (g : γ) (guard : Guard) : Prop where
  isLock : guard.isLock = true
  inside : guard.inside = !guard.unlocked
  owner : owner = some g ↔ guard.unlocked = false

structure GuardInvariant (s : ScopeMutex γ) : Prop where
  unlockedByHolder : ∀ u ∈ s.unlocks, u.2 = some u.1
  fits : ∀ g, ∀ guard ∈ s.guard g, guard.Fits s.owner g

omit [DecidableEq γ] in
theorem GuardInvariant.holderOnly {s : ScopeMutex γ} (h : GuardInvariant s) : HolderOnly s where
  unlockedByHolder := h.unlockedByHolder
  notLockedAgain := fun g guard hg _ => (h.fits g guard hg).isLock
  holds := by
    intro g guard hg hin
    have hfits := h.fits g guard hg
    apply hfits.owner.mpr
    simpa [hfits.inside] using hin

omit [DecidableEq γ] in
/-- The mutex goes from nobody to a guard, or back: the other guards have it neither before
nor after. -/
theorem Guard.Fits.others {owner owner' : Option γ} {g' : γ} {guard : Guard}
    (h : guard.Fits owner g') (howner : owner ≠ some g') (howner' : owner' ≠ some g') :
    guard.Fits owner' g' where
  isLock := h.isLock
  inside := h.inside
  owner := iff_of_false howner' fun hun => howner (h.owner.mpr hun)

/-- What holds of every guard, if it holds of the one that has been set and of the others. -/
theorem forall_setGuard {s : ScopeMutex γ} {g : γ} {next : Option Guard}
    {P : γ → Guard → Prop} (hg : ∀ guard ∈ next, P g guard)
    (h : ∀ g', g' ≠ g → ∀ guard ∈ s.guard g', P g' guard) :
    ∀ g', ∀ guard ∈ (s.setGuard g next).guard g', P g' guard :=
  (Function.forall_update_iff s.guard fun g' next => ∀ guard ∈ next, P g' guard).mpr ⟨hg, h⟩

/-- The holder unlocks the mutex, with `unlock()` or for good. -/
theorem GuardInvariant.unlockMutex {s : ScopeMutex γ} (h : GuardInvariant s) {g : γ}
    (howner : s.owner = some g) {next : Option Guard}
    (hnext : ∀ guard ∈ next, guard.Fits none g) :
    GuardInvariant ((s.unlockMutex g).setGuard g next) := by
  refine ⟨fun u hu => ?_, forall_setGuard hnext fun g' hne guard hguard => ?_⟩
  · rcases List.mem_append.mp hu with hold | hnew
    · exact h.unlockedByHolder u hold
    · rw [List.mem_singleton.mp hnew]
      exact howner
  · have hnot : s.owner ≠ some g' := by
      rw [howner]
      exact fun heq => hne (Option.some.inj heq).symm
    exact (h.fits g' guard hguard).others hnot (Option.some_ne_none g').symm

theorem GuardInvariant.step (s : ScopeMutex γ) (event : γ × GuardCall) (s' : ScopeMutex γ)
    (h : GuardInvariant s) (hc : NotAfterUnlock s event) (hs : s' ∈ guardStep s event) :
    GuardInvariant s' := by
  obtain ⟨g, call⟩ := event
  cases call with
  | construct =>
      rw [guardStep] at hs
      split at hs
      · rename_i hguard howner
        obtain rfl := Option.some.inj hs
        refine ⟨h.unlockedByHolder, forall_setGuard (fun guard hnew => ?_)
          fun g' hne guard hold => ?_⟩
        · obtain rfl := Option.some.inj hnew
          exact ⟨rfl, rfl, iff_of_true rfl rfl⟩
        · have hnot : s.owner ≠ some g' := by
            rw [howner]
            exact (Option.some_ne_none g').symm
          exact (h.fits g' guard hold).others hnot fun heq => hne (Option.some.inj heq).symm
      · cases hs
  | lock =>
      obtain ⟨guard, hguard, hs⟩ := Option.bind_eq_some_iff.mp hs
      have hfits := h.fits g guard hguard
      rw [if_pos hfits.isLock] at hs
      obtain rfl := Option.some.inj hs
      refine ⟨h.unlockedByHolder, forall_setGuard (fun next hnew => ?_) fun g' _ => h.fits g'⟩
      obtain rfl := Option.some.inj hnew
      have hin : true = !guard.unlocked := by
        rw [hc guard hguard]
        rfl
      exact ⟨hfits.isLock, hin, hfits.owner⟩
  | unlock =>
      obtain ⟨guard, hguard, rfl⟩ := Option.map_eq_some_iff.mp hs
      have hfits := h.fits g guard hguard
      rw [if_pos hfits.isLock]
      refine h.unlockMutex (hfits.owner.mpr (hc guard hguard)) fun next hnew => ?_
      obtain rfl := Option.some.inj hnew
      exact ⟨hfits.isLock, rfl, iff_of_false (Option.some_ne_none g).symm Bool.noConfusion⟩
  | destroy =>
      obtain ⟨guard, hguard, rfl⟩ := Option.map_eq_some_iff.mp hs
      have hfits := h.fits g guard hguard
      exact h.unlockMutex (hfits.owner.mpr (hc guard hguard)) fun next hnew =>
        absurd hnew (Option.not_mem_none next)

/-- Whatever is done with a guard after its `unlock()` shows at once. -/
theorem GuardInvariant.notAfterUnlock (s : ScopeMutex γ) (event : γ × GuardCall)
    (s' : ScopeMutex γ) (h : GuardInvariant s) (hs : s' ∈ guardStep s event) (h' : HolderOnly s') :
    NotAfterUnlock s event := by
  obtain ⟨g, call⟩ := event
  cases call with
  | construct => trivial
  | lock =>
      intro guard hguard
      obtain ⟨guard', hguard', hs⟩ := Option.bind_eq_some_iff.mp hs
      obtain rfl : guard = guard' := Option.some.inj (hguard.symm.trans hguard')
      have hfits := h.fits g guard hguard
      rw [if_pos hfits.isLock] at hs
      obtain rfl := Option.some.inj hs
      apply hfits.owner.mp
      exact h'.holds g { guard with inside := true } (Function.update_self ..) rfl
  | unlock =>
      intro guard hguard
      obtain ⟨guard', hguard', rfl⟩ := Option.map_eq_some_iff.mp hs
      obtain rfl : guard = guard' := Option.some.inj (hguard.symm.trans hguard')
      have hfits := h.fits g guard hguard
      rw [if_pos hfits.isLock] at h'
      apply hfits.owner.mp
      exact h'.unlockedByHolder (g, s.owner) (List.mem_append_right _ List.mem_cons_self)
  | destroy =>
      intro guard hguard
      obtain ⟨_, hguard', rfl⟩ := Option.map_eq_some_iff.mp hs
      apply (h.fits g guard hguard).owner.mp
      exact h'.unlockedByHolder (g, s.owner) (List.mem_append_right _ List.mem_cons_self)

omit [DecidableEq γ] in
theorem GuardInvariant.start : GuardInvariant (ScopeMutex.start : ScopeMutex γ) where
  unlockedByHolder := fun _ hu => absurd hu List.not_mem_nil
  fits := fun _ _ hguard => absurd hguard (Option.not_mem_none _)

/-- **The mutex is unlocked by its holder only, and keeps the threads apart**, throughout a run,
if and only if nothing is done with any guard after its `unlock()`. -/
theorem holderOnly_iff_meets (calls : List (γ × GuardCall)) :
    Always guardStep HolderOnly ScopeMutex.start calls ↔
      Meets guardStep NotAfterUnlock ScopeMutex.start calls :=
  always_iff_meets (fun _ h => h.holderOnly) GuardInvariant.step GuardInvariant.notAfterUnlock
    GuardInvariant.start

/-! ### An early unlock -/

/-- The first guard is that of `AsyncLogger::Loop`, which unlocks early; the second is that of
`push_log_buffer`. -/
def earlyUnlock : List (Bool × GuardCall) :=
  [(false, .construct), (false, .unlock), (true, .construct), (false, .destroy)]

/-- The destructor of the first guard unlocks the mutex that the second holds. -/
theorem not_holderOnly_earlyUnlock :
    ¬ Always guardStep HolderOnly (ScopeMutex.start : ScopeMutex Bool) earlyUnlock := by
  intro h
  have hafter := (((h.2 _ rfl).2 _ rfl).2 _ rfl).2 _ rfl
  have hholder := hafter.unlockedByHolder (false, some true) (by decide)
  cases hholder

end TinyRpc
