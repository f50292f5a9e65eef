/-
TinyRpc/Base/Loop.lean

The loop `while (true) { … }` over a state `σ`.  One pass either returns, or
goes round again with a new state and a list of outputs, or stops with a fault.

`run pass fuel s` is the executable loop; `none` means that `fuel` passes were
not enough.  `Returns`, `Hangs` and `Visits` say what the loop does without
fuel: it returns in a given state with given outputs, it goes round for ever,
it comes to a given state at the top of a pass.  The rules at the end carry what
one pass does to the whole loop: an invariant, a measure, the absence of faults.
-/
import TinyRpc.Base.Checked

namespace Loop

open Checked

universe u

variable {ε σ ω : Type u}

/-- A loop body: `none` returns, `some (s, out)` goes round again. -/
abbrev Body (ε σ ω : Type u) := σ → Except ε (Option (σ × List ω))

/-- Run the loop for at most `fuel` passes. -/
def run (pass : Body ε σ ω) : Nat → σ → Option (Except ε (σ × List ω))
  | 0, _ => none
  | fuel + 1, s =>
      match pass s with
      | .error e => some (.error e)
      | .ok none => some (.ok (s, []))
      | .ok (some (s', out)) => (run pass fuel s').map (Except.map fun r => (r.1, out ++ r.2))

/-- The loop started in `s` returns in `s'`, having put out `out`. -/
def Returns (pass : Body ε σ ω) (s s' : σ) (out : List ω) : Prop :=
  ∃ fuel, run pass fuel s = some (.ok (s', out))

/-- The loop started in `s` never ends. -/
def Hangs (pass : Body ε σ ω) (s : σ) : Prop := ∀ fuel, run pass fuel s = none

/-- The loop started in `s` stops with no fault, however long it runs. -/
def NoFault (pass : Body ε σ ω) (s : σ) : Prop :=
  ∀ fuel e, run pass fuel s ≠ some (.error e)

/-- The loop started in `s` comes to `t` at the top of a pass. -/
inductive Visits (pass : Body ε σ ω) : σ → σ → Prop
  | refl (s : σ) : Visits pass s s
  | head {s s' t : σ} {out : List ω} :
      pass s = .ok (some (s', out)) → Visits pass s' t → Visits pass s t

variable {pass : Body ε σ ω} {s s' t : σ} {out out' : List ω}

/-! ### One pass at a time -/

theorem run_succ_done (h : pass s = .ok none) (fuel : Nat) :
    run pass (fuel + 1) s = some (.ok (s, [])) := by
  simp [run, h]

theorem run_succ_error {e : ε} (h : pass s = .error e) (fuel : Nat) :
    run pass (fuel + 1) s = some (.error e) := by
  simp [run, h]

theorem run_succ_again (h : pass s = .ok (some (s', out))) (fuel : Nat) :
    run pass (fuel + 1) s
      = (run pass fuel s').map (Except.map fun r => (r.1, out ++ r.2)) := by
  simp [run, h]

theorem Returns.done (h : pass s = .ok none) : Returns pass s s [] :=
  ⟨1, run_succ_done h 0⟩

theorem Returns.again (h : pass s = .ok (some (s', out))) (hr : Returns pass s' t out') :
    Returns pass s t (out ++ out') := by
  obtain ⟨fuel, hf⟩ := hr
  refine ⟨fuel + 1, ?_⟩
  rw [run_succ_again h, hf]
  rfl

/-- The ways a loop can return: at once, or after a pass that goes round. -/
theorem Returns.cases_head (h : Returns pass s t out) :
    (pass s = .ok none ∧ t = s ∧ out = []) ∨
    ∃ s' out₁ out₂, pass s = .ok (some (s', out₁)) ∧ Returns pass s' t out₂ ∧
      out = out₁ ++ out₂ := by
  obtain ⟨fuel, hf⟩ := h
  cases fuel with
  | zero => cases hf
  | succ fuel =>
      rcases hp : pass s with e | - | ⟨s', out₁⟩
      · rw [run_succ_error hp] at hf
        simp at hf
      · rw [run_succ_done hp] at hf
        simp only [Option.some.injEq, Except.ok.injEq, Prod.mk.injEq] at hf
        exact .inl ⟨rfl, hf.1.symm, hf.2.symm⟩
      · rw [run_succ_again hp] at hf
        rcases hr : run pass fuel s' with - | e | ⟨s'', out₂⟩
        · simp [hr] at hf
        · simp [hr, Except.map] at hf
        · simp only [hr, Option.map_some, Except.map, Option.some.injEq, Except.ok.injEq,
            Prod.mk.injEq] at hf
          obtain ⟨rfl, rfl⟩ := hf
          exact .inr ⟨s', out₁, out₂, rfl, ⟨fuel, hr⟩, rfl⟩

/-- More fuel changes nothing once the loop has ended. -/
theorem run_mono {fuel : Nat} {r : Except ε (σ × List ω)} (h : run pass fuel s = some r) :
    run pass (fuel + 1) s = some r := by
  induction fuel generalizing s r with
  | zero => cases h
  | succ fuel ih =>
      rcases hp : pass s with e | - | ⟨s', out⟩
      · rw [run_succ_error hp] at h ⊢
        exact h
      · rw [run_succ_done hp] at h ⊢
        exact h
      · rw [run_succ_again hp] at h ⊢
        obtain ⟨r', hr', rfl⟩ := Option.map_eq_some_iff.mp h
        rw [ih hr']
        rfl

theorem run_mono_le {m n : Nat} {r : Except ε (σ × List ω)} (hmn : m ≤ n)
    (h : run pass m s = some r) : run pass n s = some r := by
  induction hmn with
  | refl => exact h
  | step _ ih => exact run_mono ih

/-- A loop ends in one way. -/
theorem Returns.unique (h : Returns pass s t out) (h' : Returns pass s s' out') :
    t = s' ∧ out = out' := by
  obtain ⟨m, hm⟩ := h
  obtain ⟨n, hn⟩ := h'
  have e := (run_mono_le (Nat.le_max_left m n) hm).symm.trans
    (run_mono_le (Nat.le_max_right m n) hn)
  simpa using e

/-- A loop that returns stops with no fault. -/
theorem Returns.noFault (h : Returns pass s t out) : NoFault pass s := by
  intro fuel e he
  obtain ⟨m, hm⟩ := h
  have heq := (run_mono_le (Nat.le_max_left m fuel) hm).symm.trans
    (run_mono_le (Nat.le_max_right m fuel) he)
  cases heq

/-- A loop that comes to an end, and to no fault, returns. -/
theorem NoFault.returns (h : NoFault pass s) (hend : ¬ Hangs pass s) :
    ∃ t out, Returns pass s t out := by
  obtain ⟨fuel, hfuel⟩ := not_forall.mp hend
  rcases hr : run pass fuel s with - | e | ⟨t, out⟩
  · exact absurd hr hfuel
  · exact absurd hr (h fuel e)
  · exact ⟨t, out, fuel, hr⟩

/-- A pass that puts out nothing only takes its time. -/
theorem run_succ_silent (h : pass s = .ok (some (s', []))) (fuel : Nat) :
    run pass (fuel + 1) s = run pass fuel s' := by
  rw [run_succ_again h]
  rcases run pass fuel s' with - | e | ⟨t, out⟩
  · rfl
  · rfl
  · rfl

/-! ### What the loop visits -/

theorem Visits.tail (h : Visits pass s t) (hp : pass t = .ok (some (s', out))) :
    Visits pass s s' := by
  induction h with
  | refl => exact .head hp (.refl s')
  | head h₀ _ ih => exact .head h₀ (ih hp)

/-- **The invariant rule**: what one pass preserves holds in every state visited. -/
theorem Visits.invariant {I : σ → Prop}
    (hstep : ∀ {s s' out}, I s → pass s = .ok (some (s', out)) → I s')
    (h : Visits pass s t) (hs : I s) : I t := by
  induction h with
  | refl => exact hs
  | head hp _ ih => exact ih (hstep hs hp)

/-- The state a loop returns in is one it visits. -/
theorem Returns.visits (h : Returns pass s t out) : Visits pass s t := by
  obtain ⟨fuel, hf⟩ := h
  induction fuel generalizing s out with
  | zero => cases hf
  | succ fuel ih =>
      rcases Returns.cases_head ⟨fuel + 1, hf⟩ with ⟨-, rfl, -⟩ | ⟨s', out₁, out₂, hp, -, -⟩
      · exact .refl t
      · rw [run_succ_again hp] at hf
        obtain ⟨r, hr, hmap⟩ := Option.map_eq_some_iff.mp hf
        rcases r with e | ⟨t', o⟩
        · cases hmap
        · simp only [Except.map, Except.ok.injEq, Prod.mk.injEq] at hmap
          obtain ⟨rfl, -⟩ := hmap
          exact .head hp (ih hr)

/-- **The output rule**: what one pass says of its outputs, in the states that an invariant
allows, holds of all outputs of the loop. -/
theorem Returns.outputs {I : σ → Prop} {Q : ω → Prop}
    (hstep : ∀ {s s' out}, I s → pass s = .ok (some (s', out)) → I s' ∧ ∀ o ∈ out, Q o)
    (h : Returns pass s t out) (hs : I s) : ∀ o ∈ out, Q o := by
  obtain ⟨fuel, hf⟩ := h
  induction fuel generalizing s out with
  | zero => cases hf
  | succ fuel ih =>
      rcases hp : pass s with e | - | ⟨s', out₁⟩
      · rw [run_succ_error hp] at hf
        cases Option.some.inj hf
      · rw [run_succ_done hp] at hf
        obtain ⟨-, rfl⟩ := Prod.mk.inj (Except.ok.inj (Option.some.inj hf))
        exact nofun
      · rw [run_succ_again hp] at hf
        obtain ⟨r, hr, hmap⟩ := Option.map_eq_some_iff.mp hf
        rcases r with e | ⟨t', out₂⟩
        · cases hmap
        · obtain ⟨rfl, rfl⟩ := Prod.mk.inj (Except.ok.inj hmap)
          obtain ⟨hs', hout⟩ := hstep hs hp
          intro o ho
          rcases List.mem_append.mp ho with hfirst | hlater
          · exact hout o hfirst
          · exact ih hs' hr o hlater

/-- **The fault rule**: the loop stops with no fault exactly when no pass from a
state it visits does. -/
theorem noFault_iff : NoFault pass s ↔ ∀ t, Visits pass s t → Safe (pass t) := by
  constructor
  · intro h t hv
    induction hv with
    | refl s =>
        rw [safe_iff_forall_error]
        exact fun e he => h 1 e (run_succ_error he 0)
    | head hp _ ih =>
        refine ih fun fuel e he => h (fuel + 1) e ?_
        rw [run_succ_again hp, he]
        rfl
  · intro h fuel
    induction fuel generalizing s with
    | zero => exact fun e => nofun
    | succ fuel ih =>
        intro e he
        obtain ⟨r, hr⟩ := h s (.refl s)
        rcases r with - | ⟨s', out⟩
        · rw [run_succ_done hr] at he
          simp at he
        · rw [run_succ_again hr] at he
          obtain ⟨r', hr', hmap⟩ := Option.map_eq_some_iff.mp he
          rcases r' with e' | r'
          · exact ih (fun t ht => h t (.head hr ht)) e' hr'
          · cases hmap

/-- **The measure rule**: a loop whose every pass that goes round makes `μ`
smaller comes to an end. -/
theorem not_hangs_of_measure (μ : σ → Nat)
    (h : ∀ t s' out, Visits pass s t → pass t = .ok (some (s', out)) → μ s' < μ t) :
    ¬ Hangs pass s := by
  induction hn : μ s using Nat.strongRecOn generalizing s with
  | _ n ih =>
      intro hh
      rcases hp : pass s with e | - | ⟨s', out⟩
      · have := hh 1
        rw [run_succ_error hp] at this
        cases this
      · have := hh 1
        rw [run_succ_done hp] at this
        cases this
      · -- the loop goes on from `s'`, where the measure is smaller, and so hangs there
        have hlt := h s s' out (.refl s) hp
        refine ih (μ s') (hn ▸ hlt) (fun t t' o ht => h t t' o (.head hp ht)) rfl fun fuel => ?_
        have := hh (fuel + 1)
        rwa [run_succ_again hp, Option.map_eq_none_iff] at this

/-- A pass that goes round to the state it started from is repeated for ever. -/
theorem hangs_of_fixed (h : pass s = .ok (some (s, out))) : Hangs pass s := by
  intro fuel
  induction fuel with
  | zero => rfl
  | succ fuel ih => rw [run_succ_again h, ih]; rfl

end Loop
