/-
TinyRpc/Base/Refine.lean

Functional refinement of a machine that can fail by one that cannot.

A machine takes a command in a state and gives the next state and a reply, or
fails; a specification always gives them.  `Refines` says that one command,
given where its guard holds, does not fail, replies as the specification does,
and ends in a state that stands for the specification's.  `Refines.run` lifts
that to a list of commands whose guards hold one after the other.
-/
import TinyRpc.Base.Checked

namespace Refine

open Checked

universe u

variable {ε σ τ α β ω : Type u}

/-- What a command does to a state, and the reply to it. -/
abbrev Machine (ε σ α ω : Type u) := σ → α → Except ε (σ × ω)

/-- What a command should do. -/
abbrev Spec (τ β ω : Type u) := τ → β → τ × ω

/-- The state after the commands, and the replies to them. -/
def run (m : Machine ε σ α ω) : σ → List α → Except ε (σ × List ω)
  | s, [] => .ok (s, [])
  | s, c :: cs => do
    let next ← m s c
    let last ← run m next.1 cs
    .ok (last.1, next.2 :: last.2)

/-- The same for a specification. -/
def runSpec (spec : Spec τ β ω) : τ → List β → τ × List ω
  | t, [] => (t, [])
  | t, c :: cs =>
    let next := spec t c
    let last := runSpec spec next.1 cs
    (last.1, next.2 :: last.2)

/-- Every command finds a state in which `guard` allows it. -/
def Guarded (m : Machine ε σ α ω) (guard : σ → α → Prop) : σ → List α → Prop
  | _, [] => True
  | s, c :: cs => guard s c ∧ ∀ next ∈ (m s c).toOption, Guarded m guard next.1 cs

instance decidableGuarded (m : Machine ε σ α ω) (guard : σ → α → Prop)
    [∀ s c, Decidable (guard s c)] : ∀ s cs, Decidable (Guarded m guard s cs)
  | _, [] => inferInstanceAs (Decidable True)
  | s, c :: cs =>
      have : ∀ s', Decidable (Guarded m guard s' cs) := fun s' => decidableGuarded m guard s' cs
      inferInstanceAs (Decidable (guard s c ∧ ∀ next ∈ (m s c).toOption,
        Guarded m guard next.1 cs))

/-- The machine does what the specification says, where `guard` allows the command:
`abs` is what a state stands for, `label` what a command asks for. -/
structure Refines (m : Machine ε σ α ω) (spec : Spec τ β ω) (abs : σ → τ) (label : α → β)
    (guard : σ → α → Prop) : Prop where
  step : ∀ s c, guard s c →
    ∃ s', m s c = .ok (s', (spec (abs s) (label c)).2) ∧ abs s' = (spec (abs s) (label c)).1

variable {m : Machine ε σ α ω} {spec : Spec τ β ω} {abs : σ → τ} {label : α → β}
  {guard : σ → α → Prop}

/-- **A run refines a run.** -/
theorem Refines.run (h : Refines m spec abs label guard) {s : σ} {cs : List α}
    (hg : Guarded m guard s cs) :
    ∃ s' replies, run m s cs = .ok (s', replies) ∧
      runSpec spec (abs s) (cs.map label) = (abs s', replies) := by
  induction cs generalizing s with
  | nil => exact ⟨s, [], rfl, rfl⟩
  | cons c cs ih =>
      obtain ⟨s₁, hstep, habs⟩ := h.step s c hg.1
      obtain ⟨s', replies, hrun, hspec⟩ := ih (hg.2 _ (toOption_eq_some.mpr hstep))
      refine ⟨s', (spec (abs s) (label c)).2 :: replies, ?_, ?_⟩
      · show (m s c >>= fun next => Refine.run m next.1 cs >>= _) = _
        rw [hstep, ok_bind, hrun]
        rfl
      · show (_, _) = _
        rw [← habs, hspec]

/-- The guards of a run are those of its first part, among others. -/
theorem Guarded.of_append {s : σ} {cs cs' : List α} (h : Guarded m guard s (cs ++ cs')) :
    Guarded m guard s cs := by
  induction cs generalizing s with
  | nil => trivial
  | cons c cs ih => exact ⟨h.1, fun next hnext => ih (h.2 next hnext)⟩

end Refine
