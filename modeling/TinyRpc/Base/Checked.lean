/-
TinyRpc/Base/Checked.lean

Computations that may leave the defined behaviour of their language.  A
program whose accesses can go out of range, or whose machine arithmetic can
overflow, is modelled in `Except ε`: every such access is a `check`, which goes
on where its condition holds and stops with a fault elsewhere.

`Safe x` says that `x` stops with no fault.  The lemmas below push `Safe`, and
"`x` ends in `b`", through a sequence of checks, so that the exact condition
under which a whole program is safe comes out as the conjunction of the
conditions it checks.
-/
import Mathlib.Data.Nat.Basic
import Mathlib.Tactic.Common

namespace Checked

universe u v

variable {ε : Type u} {α β : Type v}

/-- Go on with `a` where `p` holds, stop with the fault `e` elsewhere. -/
def check (p : Prop) [Decidable p] (e : ε) (a : α) : Except ε α :=
  if p then .ok a else .error e

/-- The computation ends in a value. -/
def Safe (x : Except ε α) : Prop := ∃ a, x = .ok a

/-! ### What a computation ends in -/

@[simp] theorem check_eq_ok {p : Prop} [Decidable p] {e : ε} {a b : α} :
    check p e a = .ok b ↔ p ∧ a = b := by
  unfold check
  split <;> simp [*]

theorem check_of_pos {p : Prop} [Decidable p] {e : ε} {a : α} (h : p) :
    check p e a = .ok a := if_pos h

theorem bind_eq_ok {x : Except ε α} {f : α → Except ε β} {b : β} :
    (x >>= f) = .ok b ↔ ∃ a, x = .ok a ∧ f a = .ok b := by
  rcases x with e | a
  · refine ⟨fun h => ?_, fun ⟨a, h, _⟩ => ?_⟩ <;> cases h
  · refine ⟨fun h => ⟨a, rfl, h⟩, ?_⟩
    rintro ⟨a', h, hb⟩
    cases h
    exact hb

@[simp] theorem check_bind_eq_ok {p : Prop} [Decidable p] {e : ε} {a : α}
    {f : α → Except ε β} {b : β} :
    (check p e a >>= f) = .ok b ↔ p ∧ f a = .ok b := by
  rw [bind_eq_ok]
  simp [and_assoc]

@[simp] theorem ok_bind (a : α) (f : α → Except ε β) : (Except.ok a >>= f) = f a := rfl

@[simp] theorem error_bind (e : ε) (f : α → Except ε β) :
    ((Except.error e : Except ε α) >>= f) = .error e := rfl

theorem toOption_eq_some {x : Except ε α} {a : α} : x.toOption = some a ↔ x = .ok a := by
  rcases x with e | b
  · exact ⟨nofun, nofun⟩
  · exact ⟨fun h => congrArg _ (Option.some.inj h), fun h => congrArg _ (Except.ok.inj h)⟩

/-! ### Safety -/

@[simp] theorem safe_ok (a : α) : Safe (.ok a : Except ε α) := ⟨a, rfl⟩

@[simp] theorem not_safe_error (e : ε) : ¬ Safe (.error e : Except ε α) := by
  rintro ⟨a, h⟩
  cases h

theorem safe_iff_forall_error {x : Except ε α} : Safe x ↔ ∀ e, x ≠ .error e := by
  rcases x with e | a <;> simp

@[simp] theorem safe_check {p : Prop} [Decidable p] {e : ε} {a : α} :
    Safe (check p e a) ↔ p := by
  unfold check
  split <;> simp [*]

theorem safe_bind {x : Except ε α} {f : α → Except ε β} :
    Safe (x >>= f) ↔ ∃ a, x = .ok a ∧ Safe (f a) := by
  rcases x with e | a <;> simp

@[simp] theorem safe_check_bind {p : Prop} [Decidable p] {e : ε} {a : α}
    {f : α → Except ε β} :
    Safe (check p e a >>= f) ↔ p ∧ Safe (f a) := by
  rw [safe_bind]
  simp [and_assoc]

@[simp] theorem safe_ite {p : Prop} [Decidable p] {x y : Except ε α} :
    Safe (if p then x else y) ↔ (p → Safe x) ∧ (¬ p → Safe y) := by
  split <;> simp [*]

end Checked
