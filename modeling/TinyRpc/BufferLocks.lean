/-
TinyRpc/BufferLocks.lean

The two locks under which threads get at the buffer of the logger.

`push_log` takes the static `SpinLock`, `log` and `sync_loop` take `m_mutex`.  Each lock keeps
those who take it apart, `spinLock_excludes`.  But `push_log` and `log` take different ones, and
nothing keeps a thread from swapping the buffer while another one is pushing to it:
`buffer_exclusive_iff`.
-/
import Mathlib.Logic.Function.Basic
import TinyRpc.Base.Runs

namespace TinyRpc

open Runs

/-- Where a thread is. -/
inductive BufferCall
  /-- in none of the three functions -/
  | outside
  /-- in the loop of `SpinLock::lock` -/
  | spinning
  /-- in `push_log`, with the spin lock -/
  | pushing
  /-- in `log` or `sync_loop`, with the mutex -/
  | swapping
  deriving DecidableEq

structure BufferLocks (θ : Type) where
  /-- `flag` of the spin lock -/
  flag : Bool
  /-- who has `m_mutex` -/
  holder : Option θ
  call : θ → BufferCall

inductive BufferStep
  | pushLog
  /-- `flag.exchange(true)`, which ends the loop if it returns `false` -/
  | exchange
  /-- `flag.store(false)`, and `push_log` returns -/
  | store
  /-- `log` or `sync_loop` has the mutex -/
  | lockMutex
  | unlockMutex

variable {θ : Type} [DecidableEq θ]

namespace BufferLocks

def start : BufferLocks θ := ⟨false, none, fun _ => .outside⟩

def setCall (s : BufferLocks θ) (k : θ) (call : BufferCall) : BufferLocks θ :=
  { s with call := Function.update s.call k call }

end BufferLocks

def bufferLockStep : Step (BufferLocks θ) (θ × BufferStep)
  | s, (k, .pushLog) => if s.call k = .outside then some (s.setCall k .spinning) else none
  | s, (k, .exchange) =>
      if s.call k = .spinning then
        some ({ s with flag := true }.setCall k (if s.flag then .spinning else .pushing))
      else none
  | s, (k, .store) =>
      if s.call k = .pushing then some ({ s with flag := false }.setCall k .outside) else none
  | s, (k, .lockMutex) =>
      if s.call k = .outside ∧ s.holder = none then
        some ({ s with holder := some k }.setCall k .swapping)
      else none
  | s, (k, .unlockMutex) =>
      if s.call k = .swapping then some ({ s with holder := none }.setCall k .outside) else none

/-- At most one thread is in `push_log`, and the spin lock is locked exactly while there is one. -/
structure SpinLockHolds (s : BufferLocks θ) : Prop where
  atMostOne : ∀ j k, s.call j = .pushing → s.call k = .pushing → j = k
  locked : s.flag = true ↔ ∃ k, s.call k = .pushing

def BufferCall.Inside (call : BufferCall) : Prop := call = .pushing ∨ call = .swapping

/-- At most one thread is at the buffer. -/
def OneAtBuffer (s : BufferLocks θ) : Prop :=
  ∀ j k, (s.call j).Inside → (s.call k).Inside → j = k

/-- Nobody swaps the buffer when a thread gets the spin lock, and nobody pushes to it when one
gets the mutex. -/
def EntersAlone (s : BufferLocks θ) : θ × BufferStep → Prop
  | (_, .exchange) => s.flag = false → ∀ j, s.call j ≠ .swapping
  | (_, .lockMutex) => ∀ j, s.call j ≠ .pushing
  | _ => True

/-! ### What a step can do -/

/-- The steps that can happen in `s`, and where they lead. -/
inductive BufferMove (s : BufferLocks θ) (k : θ) : BufferStep → BufferLocks θ → Prop
  | pushLog : s.call k = .outside → BufferMove s k .pushLog (s.setCall k .spinning)
  | spin : s.call k = .spinning → s.flag = true → BufferMove s k .exchange (s.setCall k .spinning)
  | lock : s.call k = .spinning → s.flag = false →
      BufferMove s k .exchange ({ s with flag := true }.setCall k .pushing)
  | store : s.call k = .pushing →
      BufferMove s k .store ({ s with flag := false }.setCall k .outside)
  | lockMutex : s.call k = .outside → s.holder = none →
      BufferMove s k .lockMutex ({ s with holder := some k }.setCall k .swapping)
  | unlockMutex : s.call k = .swapping →
      BufferMove s k .unlockMutex ({ s with holder := none }.setCall k .outside)

theorem bufferMove_of_bufferLockStep {s s' : BufferLocks θ} {k : θ} {step : BufferStep}
    (hs : s' ∈ bufferLockStep s (k, step)) : BufferMove s k step s' := by
  cases step with
  | pushLog =>
      obtain ⟨hcall, heq⟩ := Option.mem_ite_none_right.mp hs
      obtain rfl := Option.some.inj heq
      exact .pushLog hcall
  | exchange =>
      obtain ⟨hcall, heq⟩ := Option.mem_ite_none_right.mp hs
      obtain rfl := Option.some.inj heq
      by_cases hflag : s.flag = true
      · rw [if_pos hflag, ← hflag]
        exact .spin hcall hflag
      · rw [if_neg hflag]
        exact .lock hcall (Bool.eq_false_iff.mpr hflag)
  | store =>
      obtain ⟨hcall, heq⟩ := Option.mem_ite_none_right.mp hs
      obtain rfl := Option.some.inj heq
      exact .store hcall
  | lockMutex =>
      obtain ⟨⟨hcall, hholder⟩, heq⟩ := Option.mem_ite_none_right.mp hs
      obtain rfl := Option.some.inj heq
      exact .lockMutex hcall hholder
  | unlockMutex =>
      obtain ⟨hcall, heq⟩ := Option.mem_ite_none_right.mp hs
      obtain rfl := Option.some.inj heq
      exact .unlockMutex hcall

/-! ### Each lock keeps its threads apart -/

section Locks

variable {s : BufferLocks θ} {k : θ} {call : BufferCall}

theorem call_setCall_self : (s.setCall k call).call k = call := Function.update_self ..

theorem call_setCall_of_ne {j : θ} (hj : j ≠ k) : (s.setCall k call).call j = s.call j :=
  Function.update_of_ne hj ..

/-- A thread that neither comes from a place nor goes there leaves it to the others. -/
theorem call_iff_of_ne {c : BufferCall} (hold : s.call k ≠ c) (hnew : call ≠ c) (j : θ) :
    (s.setCall k call).call j = c ↔ s.call j = c := by
  by_cases hj : j = k
  · subst hj
    rw [call_setCall_self]
    exact iff_of_false hnew hold
  · rw [call_setCall_of_ne hj]

/-- A place where nobody is has the thread that goes there. -/
theorem call_iff_of_none {c : BufferCall} (hnone : ∀ j, s.call j ≠ c) (j : θ) :
    (s.setCall k c).call j = c ↔ j = k := by
  by_cases hj : j = k
  · subst hj
    exact iff_of_true call_setCall_self rfl
  · rw [call_setCall_of_ne hj]
    exact iff_of_false (hnone j) hj

/-- A place where one thread is, is left by it to nobody. -/
theorem call_ne_of_only {c : BufferCall} (honly : ∀ j, s.call j = c → j = k) (hnew : call ≠ c)
    (j : θ) : (s.setCall k call).call j ≠ c := by
  by_cases hj : j = k
  · subst hj
    rwa [call_setCall_self]
  · rw [call_setCall_of_ne hj]
    exact fun hcall => hj (honly j hcall)

omit [DecidableEq θ] in
theorem SpinLockHolds.congr {s' : BufferLocks θ} (h : SpinLockHolds s) (hflag : s'.flag = s.flag)
    (hcall : ∀ j, s'.call j = .pushing ↔ s.call j = .pushing) : SpinLockHolds s' where
  atMostOne i j hi hj := h.atMostOne i j ((hcall i).mp hi) ((hcall j).mp hj)
  locked := by
    rw [hflag, h.locked]
    exact exists_congr fun j => (hcall j).symm

/-- The spin lock keeps the threads in `push_log` apart, the mutex those in `log`. -/
structure LocksHold (s : BufferLocks θ) : Prop where
  spinLock : SpinLockHolds s
  mutex : ∀ k, s.call k = .swapping ↔ s.holder = some k

omit [DecidableEq θ] in
theorem LocksHold.start : LocksHold (BufferLocks.start : BufferLocks θ) where
  spinLock := ⟨fun _ _ h => BufferCall.noConfusion h, nofun, fun ⟨_, h⟩ => BufferCall.noConfusion h⟩
  mutex _ := ⟨nofun, nofun⟩

theorem LocksHold.step (s : BufferLocks θ) (event : θ × BufferStep) (s' : BufferLocks θ)
    (h : LocksHold s) (hs : s' ∈ bufferLockStep s event) : LocksHold s' := by
  obtain ⟨k, step⟩ := event
  have hmutex := h.mutex
  cases bufferMove_of_bufferLockStep hs with
  | pushLog hcall =>
      have hpushing := @call_iff_of_ne _ _ s k .spinning .pushing (by simp [hcall]) (by simp)
      have hswapping := @call_iff_of_ne _ _ s k .spinning .swapping (by simp [hcall]) (by simp)
      exact ⟨h.spinLock.congr rfl hpushing, fun j => (hswapping j).trans (hmutex j)⟩
  | spin hcall hflag =>
      have hpushing := @call_iff_of_ne _ _ s k .spinning .pushing (by simp [hcall]) (by simp)
      have hswapping := @call_iff_of_ne _ _ s k .spinning .swapping (by simp [hcall]) (by simp)
      exact ⟨h.spinLock.congr rfl hpushing, fun j => (hswapping j).trans (hmutex j)⟩
  | lock hcall hflag =>
      have hnone : ∀ j, s.call j ≠ .pushing := fun j hj => by
        rw [h.spinLock.locked.mpr ⟨j, hj⟩] at hflag
        cases hflag
      have hpushing := @call_iff_of_none _ _ { s with flag := true } k .pushing hnone
      have hswapping := @call_iff_of_ne _ _ { s with flag := true } k .pushing .swapping
        (by simp [hcall]) (by simp)
      refine ⟨⟨fun i j hi hj => ?_, fun _ => ⟨k, call_setCall_self⟩, fun _ => rfl⟩,
        fun j => (hswapping j).trans (hmutex j)⟩
      exact ((hpushing i).mp hi).trans ((hpushing j).mp hj).symm
  | store hcall =>
      have honly : ∀ j, s.call j = .pushing → j = k :=
        fun j hj => h.spinLock.atMostOne j k hj hcall
      have hnone :=
        @call_ne_of_only _ _ { s with flag := false } k .outside .pushing honly (by simp)
      have hswapping := @call_iff_of_ne _ _ { s with flag := false } k .outside .swapping
        (by simp [hcall]) (by simp)
      refine ⟨⟨fun i _ hi => absurd hi (hnone i), ?_, fun ⟨j, hj⟩ => absurd hj (hnone j)⟩,
        fun j => (hswapping j).trans (hmutex j)⟩
      exact fun hflag => Bool.noConfusion hflag
  | lockMutex hcall hholder =>
      have hnone : ∀ j, s.call j ≠ .swapping := fun j hj => by
        rw [(hmutex j).mp hj] at hholder
        cases hholder
      have hpushing := @call_iff_of_ne _ _ { s with holder := some k } k .swapping .pushing
        (by simp [hcall]) (by simp)
      have hswapping := @call_iff_of_none _ _ { s with holder := some k } k .swapping hnone
      refine ⟨h.spinLock.congr rfl hpushing, fun j => (hswapping j).trans ?_⟩
      exact ⟨fun hj => congrArg some hj.symm, fun hj => (Option.some.inj hj).symm⟩
  | unlockMutex hcall =>
      have honly : ∀ j, s.call j = .swapping → j = k := fun j hj =>
        Option.some.inj (((hmutex j).mp hj).symm.trans ((hmutex k).mp hcall))
      have hpushing := @call_iff_of_ne _ _ { s with holder := none } k .outside .pushing
        (by simp [hcall]) (by simp)
      have hnone := @call_ne_of_only _ _ { s with holder := none } k .outside .swapping honly
        (by simp)
      exact ⟨h.spinLock.congr rfl hpushing, fun j => iff_of_false (hnone j) fun hk => by cases hk⟩

end Locks

/-- **The spin lock works**: in every run at most one thread is in `push_log`, and the flag is
set exactly while there is one. -/
theorem spinLock_excludes (events : List (θ × BufferStep)) :
    Always bufferLockStep SpinLockHolds (BufferLocks.start : BufferLocks θ) events :=
  (always_of_step LocksHold.step LocksHold.start events).imp fun _ h => h.spinLock

/-! ### Both locks together -/

section Apart

variable {s s' : BufferLocks θ} {event : θ × BufferStep}

/-- Nobody swaps the buffer while somebody pushes to it. -/
def BufferLocks.Apart (s : BufferLocks θ) : Prop :=
  ∀ i j, s.call i = .pushing → s.call j ≠ .swapping

omit [DecidableEq θ] in
/-- Of the threads at the buffer, two at the same place are one. -/
theorem LocksHold.oneAtBuffer_iff (h : LocksHold s) : OneAtBuffer s ↔ s.Apart := by
  constructor
  · intro hone i j hi hj
    obtain rfl := hone i j (.inl hi) (.inr hj)
    rw [hi] at hj
    cases hj
  · rintro hapart i j (hi | hi) (hj | hj)
    · exact h.spinLock.atMostOne i j hi hj
    · exact absurd hj (hapart i j hi)
    · exact absurd hi (hapart j i hj)
    · exact Option.some.inj (((h.mutex i).mp hi).symm.trans ((h.mutex j).mp hj))

theorem BufferLocks.Apart.step_iff (h : s.Apart) (hs : s' ∈ bufferLockStep s event) :
    s'.Apart ↔ EntersAlone s event := by
  obtain ⟨k, step⟩ := event
  cases bufferMove_of_bufferLockStep hs with
  | pushLog hcall =>
      have hpushing := @call_iff_of_ne _ _ s k .spinning .pushing (by simp [hcall]) (by simp)
      have hswapping := @call_iff_of_ne _ _ s k .spinning .swapping (by simp [hcall]) (by simp)
      refine iff_of_true (fun i j hi hj => ?_) trivial
      exact h i j ((hpushing i).mp hi) ((hswapping j).mp hj)
  | spin hcall hflag =>
      have hpushing := @call_iff_of_ne _ _ s k .spinning .pushing (by simp [hcall]) (by simp)
      have hswapping := @call_iff_of_ne _ _ s k .spinning .swapping (by simp [hcall]) (by simp)
      refine iff_of_true (fun i j hi hj => ?_) fun hfree => ?_
      · exact h i j ((hpushing i).mp hi) ((hswapping j).mp hj)
      · rw [hflag] at hfree
        cases hfree
  | lock hcall hflag =>
      have hswapping := @call_iff_of_ne _ _ { s with flag := true } k .pushing .swapping
        (by simp [hcall]) (by simp)
      constructor
      · intro hapart _ j hj
        exact hapart k j call_setCall_self ((hswapping j).mpr hj)
      · intro halone i j _ hj
        exact halone hflag j ((hswapping j).mp hj)
  | store hcall =>
      refine iff_of_true (fun i j _ hj => ?_) trivial
      have hswapping := @call_iff_of_ne _ _ { s with flag := false } k .outside .swapping
        (by simp [hcall]) (by simp)
      exact h k j hcall ((hswapping j).mp hj)
  | lockMutex hcall hholder =>
      have hpushing := @call_iff_of_ne _ _ { s with holder := some k } k .swapping .pushing
        (by simp [hcall]) (by simp)
      constructor
      · intro hapart i hi
        exact hapart i k ((hpushing i).mpr hi) call_setCall_self
      · intro halone i j hi _
        exact halone i ((hpushing i).mp hi)
  | unlockMutex hcall =>
      refine iff_of_true (fun i j hi _ => ?_) trivial
      have hpushing := @call_iff_of_ne _ _ { s with holder := none } k .outside .pushing
        (by simp [hcall]) (by simp)
      exact h i k ((hpushing i).mp hi) hcall

end Apart

/-- **One thread at a time is at the buffer** throughout a run if and only if nobody gets one of the
two locks while somebody else has the other. -/
theorem buffer_exclusive_iff (events : List (θ × BufferStep)) :
    Always bufferLockStep OneAtBuffer (BufferLocks.start : BufferLocks θ) events ↔
      Meets bufferLockStep EntersAlone (BufferLocks.start : BufferLocks θ) events := by
  have hstart : (BufferLocks.start : BufferLocks θ).Apart := fun _ _ h => BufferCall.noConfusion h
  refine always_iff_meets (I := fun s => LocksHold s ∧ s.Apart)
    (fun s h => h.1.oneAtBuffer_iff.mpr h.2) ?_ ?_ ⟨LocksHold.start, hstart⟩
  · rintro s event s' ⟨hlocks, hapart⟩ halone hs
    exact ⟨hlocks.step _ _ _ hs, (hapart.step_iff hs).mpr halone⟩
  · rintro s event s' ⟨hlocks, hapart⟩ hs hone
    exact (hapart.step_iff hs).mp ((hlocks.step _ _ _ hs).oneAtBuffer_iff.mp hone)

/-- One thread pushes a line while another one swaps the buffer. -/
example : ¬ Meets bufferLockStep EntersAlone (BufferLocks.start : BufferLocks Bool)
    [(true, .pushLog), (true, .exchange), (false, .lockMutex)] :=
  fun h => ((h _ rfl).2 _ rfl).2 _ rfl |>.1 true rfl

end TinyRpc
