/-
TinyRpc/Base/Runs.lean

Runs of a system that events drive.

`Always step P s events` says that `P` holds in `s` and in every state that the
events bring the system to, one after the other.  `Meets step C s events` says
that each event satisfies `C` in the state it finds.  Both stop at an event that
cannot happen.

`after` is the state at the end of a run.

`always_of_meets` is the invariant rule: a condition on the steps makes a
property of the states hold; in `always_of_always` another property of the states
takes the place of the condition.  `always_iff_meets` is the same with the converse,
for conditions whose first violation shows at once, and `always_iff_meets_of_meets`
is that for the runs which meet another condition.  `meets_of_meets` weakens the condition
itself where the invariant allows it.

`always_simulates` is for a system that is part of a larger one.
-/
import Mathlib.Tactic.Common

namespace Runs

universe u v

/-- What an event does to a state; `none` where it cannot happen. -/
abbrev Step (σ : Type u) (α : Type v) := σ → α → Option σ

variable {σ : Type u} {α : Type v}

/-- `P` holds in `s` and in every state that the events bring the system to. -/
def Always (step : Step σ α) (P : σ → Prop) : σ → List α → Prop
  | s, [] => P s
  | s, event :: events => P s ∧ ∀ s' ∈ step s event, Always step P s' events

/-- Every event satisfies `C` in the state it finds. -/
def Meets (step : Step σ α) (C : σ → α → Prop) : σ → List α → Prop
  | _, [] => True
  | s, event :: events => ∀ s' ∈ step s event, C s event ∧ Meets step C s' events

/-- The state that the events bring the system to. -/
def after (step : Step σ α) : σ → List α → Option σ
  | s, [] => some s
  | s, event :: events => (step s event).bind fun s' => after step s' events

instance decidableAlways (step : Step σ α) (P : σ → Prop) [DecidablePred P] :
    ∀ s events, Decidable (Always step P s events)
  | s, [] => inferInstanceAs (Decidable (P s))
  | s, event :: events =>
      have : ∀ s', Decidable (Always step P s' events) :=
        fun s' => decidableAlways step P s' events
      inferInstanceAs (Decidable (P s ∧ ∀ s' ∈ step s event, Always step P s' events))

instance decidableMeets (step : Step σ α) (C : σ → α → Prop) [∀ s event, Decidable (C s event)] :
    ∀ s events, Decidable (Meets step C s events)
  | _, [] => inferInstanceAs (Decidable True)
  | s, event :: events =>
      have : ∀ s', Decidable (Meets step C s' events) :=
        fun s' => decidableMeets step C s' events
      inferInstanceAs (Decidable (∀ s' ∈ step s event, C s event ∧ Meets step C s' events))

theorem after_append (step : Step σ α) (s : σ) (events events' : List α) :
    after step s (events ++ events') =
      (after step s events).bind fun s' => after step s' events' := by
  induction events generalizing s with
  | nil => rfl
  | cons event events ih =>
      rw [List.cons_append, after, after, Option.bind_assoc]
      exact congrArg _ (funext ih)

variable {step : Step σ α} {P I : σ → Prop} {C : σ → α → Prop} {s : σ} {events : List α}

/-- **The invariant rule**: what holds at the start and is kept by every step that meets
the condition holds throughout a run all of whose steps meet it. -/
theorem always_of_meets (hP : ∀ s, I s → P s)
    (hstep : ∀ s event s', I s → C s event → s' ∈ step s event → I s')
    (hs : I s) (h : Meets step C s events) : Always step P s events := by
  induction events generalizing s with
  | nil => exact hP s hs
  | cons event events ih =>
      refine ⟨hP s hs, fun s' hs' => ?_⟩
      obtain ⟨hC, hrest⟩ := h s' hs'
      exact ih (hstep s event s' hs hC hs') hrest

/-- A condition may be replaced by one that implies it wherever an invariant holds. -/
theorem meets_of_meets {C' : σ → α → Prop} (hC : ∀ s event, I s → C' s event → C s event)
    (hstep : ∀ s event s', I s → C s event → s' ∈ step s event → I s') (hs : I s)
    (h : Meets step C' s events) : Meets step C s events := by
  induction events generalizing s with
  | nil => trivial
  | cons event events ih =>
      intro s' hs'
      obtain ⟨hC', hrest⟩ := h s' hs'
      have hC := hC s event hs hC'
      exact ⟨hC, ih (hstep s event s' hs hC hs') hrest⟩

theorem Always.head (h : Always step P s events) : P s := by
  cases events with
  | nil => exact h
  | cons => exact h.1

theorem Always.imp {Q : σ → Prop} (hQ : ∀ s, P s → Q s) (h : Always step P s events) :
    Always step Q s events := by
  induction events generalizing s with
  | nil => exact hQ s h
  | cons event events ih => exact ⟨hQ s h.1, fun s' hs' => ih (h.2 s' hs')⟩

theorem meets_congr {C' : σ → α → Prop} (hC : ∀ s event, C s event ↔ C' s event) :
    Meets step C s events ↔ Meets step C' s events := by
  obtain rfl : C = C' := funext fun s => funext fun event => propext (hC s event)
  exact Iff.rfl

/-- What every step keeps holds throughout every run. -/
theorem always_of_step (hstep : ∀ s event s', P s → s' ∈ step s event → P s') (hs : P s)
    (events : List α) : Always step P s events := by
  induction events generalizing s with
  | nil => exact hs
  | cons event events ih => exact ⟨hs, fun s' hs' => ih (hstep s event s' hs hs')⟩

/-- The invariant rule over what holds throughout the run anyhow: `Q` may be used of the
state after each step. -/
theorem always_of_always {Q : σ → Prop} (hP : ∀ s, I s → P s)
    (hstep : ∀ s event s', I s → Q s' → s' ∈ step s event → I s') (hs : I s)
    (h : Always step Q s events) : Always step P s events := by
  induction events generalizing s with
  | nil => exact hP s hs
  | cons event events ih =>
      refine ⟨hP s hs, fun s' hs' => ?_⟩
      have hrest := h.2 s' hs'
      exact ih (hstep s event s' hs hrest.head hs') hrest

/-- What holds throughout a run holds at its end. -/
theorem Always.after {s' : σ} (h : Always step P s events) (hs' : after step s events = some s') :
    P s' := by
  induction events generalizing s with
  | nil =>
      obtain rfl := Option.some.inj hs'
      exact h
  | cons event events ih =>
      obtain ⟨s₁, hs₁, hrest⟩ := Option.bind_eq_some_iff.mp hs'
      exact ih (h.2 s₁ hs₁) hrest

/-- **The exact rule**, for runs whose steps all meet `D`: if moreover a step that does not
meet the condition breaks the property, the property holds throughout exactly the runs whose
steps all meet the condition. -/
theorem always_iff_meets_of_meets {D : σ → α → Prop} (hP : ∀ s, I s → P s)
    (hstep : ∀ s event s', I s → D s event → C s event → s' ∈ step s event → I s')
    (hbad : ∀ s event s', I s → D s event → s' ∈ step s event → P s' → C s event) (hs : I s)
    (hD : Meets step D s events) : Always step P s events ↔ Meets step C s events := by
  induction events generalizing s with
  | nil => exact ⟨fun _ => trivial, fun _ => hP s hs⟩
  | cons event events ih =>
      constructor
      · intro h s' hs'
        obtain ⟨hDs, hDrest⟩ := hD s' hs'
        have hrest := h.2 s' hs'
        -- the event keeps the property, so it meets the condition, and the invariant goes on
        have hC := hbad s event s' hs hDs hs' hrest.head
        exact ⟨hC, (ih (hstep s event s' hs hDs hC hs') hDrest).mp hrest⟩
      · refine fun h => ⟨hP s hs, fun s' hs' => ?_⟩
        obtain ⟨hDs, hDrest⟩ := hD s' hs'
        obtain ⟨hC, hrest⟩ := h s' hs'
        exact (ih (hstep s event s' hs hDs hC hs') hDrest).mpr hrest

theorem meets_of_forall (hC : ∀ s event, C s event) (s : σ) (events : List α) :
    Meets step C s events := by
  induction events generalizing s with
  | nil => trivial
  | cons event events ih => exact fun s' _ => ⟨hC s event, ih s'⟩

/-- The exact rule for all runs. -/
theorem always_iff_meets (hP : ∀ s, I s → P s)
    (hstep : ∀ s event s', I s → C s event → s' ∈ step s event → I s')
    (hbad : ∀ s event s', I s → s' ∈ step s event → P s' → C s event) (hs : I s) :
    Always step P s events ↔ Meets step C s events :=
  always_iff_meets_of_meets hP (fun s event s' hI _ => hstep s event s' hI)
    (fun s event s' hI _ => hbad s event s' hI) hs (meets_of_forall (fun _ _ => trivial) s events)

/-- **The simulation rule**: if every step of a system comes to some steps of another one, the
states that it comes to stand for states that the other one comes to. -/
theorem always_simulates {τ : Type u} {β : Type v} {step' : Step τ β} {R : σ → τ → Prop}
    (hstep : ∀ s event s' t, R s t → s' ∈ step s event →
      ∃ events' t', after step' t events' = some t' ∧ R s' t') {t : τ} (hs : R s t)
    (events : List α) :
    Always step (fun s' => ∃ events' t', after step' t events' = some t' ∧ R s' t') s events := by
  refine always_of_step (fun s₁ event s₂ h hs₂ => ?_) ⟨[], t, rfl, hs⟩ events
  obtain ⟨events₁, t₁, hafter, hR⟩ := h
  obtain ⟨events₂, t₂, hafter', hR'⟩ := hstep s₁ event s₂ t₁ hR hs₂
  refine ⟨events₁ ++ events₂, t₂, ?_, hR'⟩
  rw [after_append, hafter]
  exact hafter'

end Runs
