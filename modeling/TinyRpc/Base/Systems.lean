/-
TinyRpc/Base/Systems.lean

Systems made of other systems.

`each` is a family of systems side by side, of which an event concerns one.

`choosing` is for a system whose steps look at an infinite sequence of choices, of which a state
has used the first ones only.  The choices are made when they are used, and those made are kept.
What holds whatever the choices are holds whatever the later choices will be.
-/
import Mathlib.Logic.Function.Basic
import TinyRpc.Base.Runs

namespace Runs

universe u v w

/-! ### A family of systems -/

section Each

variable {σ ι : Type u} {α : Type v} [DecidableEq ι] {step : ι → Step σ α}

/-- One system for each `i`. -/
def each (step : ι → Step σ α) : Step (ι → σ) (ι × α) := fun s event =>
  (step event.1 (s event.1) event.2).map (Function.update s event.1)

/-- What the steps of every system keep, the steps of all keep for each. -/
theorem each_keeps {I : ι → σ → Prop} {C : σ → α → Prop}
    (hstep : ∀ i s event s', I i s → C s event → s' ∈ step i s event → I i s') (s : ι → σ)
    (event : ι × α) (s' : ι → σ) (hs : ∀ i, I i (s i)) (hC : C (s event.1) event.2)
    (hs' : s' ∈ each step s event) : ∀ i, I i (s' i) := by
  obtain ⟨t, ht, rfl⟩ := Option.map_eq_some_iff.mp hs'
  intro i
  by_cases hi : i = event.1
  · subst hi
    rw [Function.update_self]
    exact hstep event.1 (s event.1) event.2 t (hs event.1) hC ht
  · rw [Function.update_of_ne hi]
    exact hs i

/-- The invariant rule for a family. -/
theorem always_each {I P : ι → σ → Prop} {C : σ → α → Prop} (hP : ∀ i s, I i s → P i s)
    (hstep : ∀ i s event s', I i s → C s event → s' ∈ step i s event → I i s') {s : ι → σ}
    (hs : ∀ i, I i (s i)) {events : List (ι × α)}
    (h : Meets (each step) (fun s event => C (s event.1) event.2) s events) :
    Always (each step) (fun s => ∀ i, P i (s i)) s events :=
  always_of_meets (fun s hI i => hP i (s i) (hI i)) (each_keeps hstep) hs h

end Each

/-! ### Choices made as they are used -/

section Choosing

variable {σ : Type u} {τ : Type w} {α : Type v}

/-- A state, and the choices that it has used. -/
structure Chosen (σ : Type u) (τ : Type w) where
  state : σ
  choices : List τ

/-- The choices made, and behind them those to come. -/
def chosenAt (choices : List τ) (later : Nat → τ) : Nat → τ :=
  fun k => choices[k]?.getD (later (k - choices.length))

/-- `used s` is how many choices `s` has used, and `now` are the choices from here on. -/
def choosing (step : (Nat → τ) → Step σ α) (used : σ → Nat) : Step (Chosen σ τ) (α × (Nat → τ)) :=
  fun s event =>
    (step (chosenAt s.choices event.2) s.state event.1).map fun state =>
      { state := state
        choices := s.choices ++ (List.range (used state - s.choices.length)).map event.2 }

/-- The choices made in a step stand behind those made before. -/
theorem chosenAt_append (choices : List τ) (now later : Nat → τ) {n k : Nat}
    (hk : k < choices.length + n) :
    chosenAt choices now k = chosenAt (choices ++ (List.range n).map now) later k := by
  unfold chosenAt
  by_cases hold : k < choices.length
  · rw [List.getElem?_append_left hold, List.getElem?_eq_getElem hold]
    rfl
  · have hnone : choices[k]? = none := List.getElem?_eq_none (Nat.le_of_not_lt hold)
    have hnew : k - choices.length < n := by omega
    rw [hnone, List.getElem?_append_right (Nat.le_of_not_lt hold), List.getElem?_map,
      List.getElem?_range hnew]
    rfl

theorem chosenAt_of_lt (later : Nat → τ) {choices : List τ} {k : Nat} (hk : k < choices.length) :
    chosenAt choices later k = choices[k] := by
  unfold chosenAt
  rw [List.getElem?_eq_getElem hk]
  rfl

/-- The choices that have been used are made, and `I` holds whatever the later ones will be. -/
structure HoldsSoFar (I : (Nat → τ) → σ → Prop) (used : σ → Nat) (s : Chosen σ τ) : Prop where
  made : s.choices.length = used s.state
  holds : ∀ later, I (chosenAt s.choices later) s.state

/-- What the steps keep whatever the choices are, they keep while the choices are made; the choices
that a state has not used must not matter to it. -/
theorem choosing_keeps {step : (Nat → τ) → Step σ α} {used : σ → Nat}
    {I : (Nat → τ) → σ → Prop} {C : σ → α → Prop}
    (hcongr : ∀ c c' s, I c s → (∀ k < used s, c k = c' k) → I c' s)
    (hused : ∀ c s event s', s' ∈ step c s event → used s ≤ used s')
    (hstep : ∀ c s event s', I c s → C s event → s' ∈ step c s event → I c s')
    (s : Chosen σ τ) (event : α × (Nat → τ)) (s' : Chosen σ τ) (h : HoldsSoFar I used s)
    (hC : C s.state event.1) (hs' : s' ∈ choosing step used s event) : HoldsSoFar I used s' := by
  obtain ⟨state, hs, rfl⟩ := Option.map_eq_some_iff.mp hs'
  have hle : s.choices.length ≤ used state := h.made ▸ hused _ _ _ _ hs
  refine ⟨?_, fun later => ?_⟩
  · show (s.choices ++ _).length = used state
    rw [List.length_append, List.length_map, List.length_range]
    exact Nat.add_sub_cancel' hle
  · refine hcongr _ _ _ (hstep _ _ _ _ (h.holds event.2) hC hs) fun k hk => ?_
    refine chosenAt_append s.choices event.2 later ?_
    rw [Nat.add_sub_cancel' hle]
    exact hk

end Choosing

end Runs
