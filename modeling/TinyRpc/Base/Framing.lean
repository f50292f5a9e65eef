/-
TinyRpc/Base/Framing.lean

What has arrived of a stream of frames.

Any prefix of `fs.flatten` is some of the frames of `fs` and then a part of the
next one that is not all of it: `exists_split`.  `Pending fs p` says that `p` is
such a part, and is what a reader of the stream carries from one call to the
next.

`Transit enc sent taken held coming` is how a stream stands: the frames of `taken` have
been taken out, `held` has arrived and `coming` is to arrive.  More may be sent
(`Transit.send`), and once nothing is to arrive, all has been taken (`Transit.all`).
-/
import Mathlib.Tactic.Common

namespace Framing

universe u

variable {α : Type u} {fs : List (List α)} {p x y : List α}

/-- `p` has arrived of a stream that goes on with the frames `fs`: nothing, or a part of
the first frame that is not all of it. -/
inductive Pending : List (List α) → List α → Prop
  | nil (fs : List (List α)) : Pending fs []
  | part {f p q : List α} {fs : List (List α)} : f = p ++ q → q ≠ [] → Pending (f :: fs) p

/-- **The split**: what has arrived is whole frames and a pending part. -/
theorem exists_split (h : x ++ y = fs.flatten) :
    ∃ fs₁ fs₂ p, fs = fs₁ ++ fs₂ ∧ x = fs₁.flatten ++ p ∧ p ++ y = fs₂.flatten ∧
      Pending fs₂ p := by
  induction fs generalizing x with
  | nil =>
      obtain ⟨rfl, rfl⟩ := List.append_eq_nil_iff.mp h
      exact ⟨[], [], [], rfl, rfl, rfl, .nil []⟩
  | cons f fs ih =>
      rw [List.flatten_cons] at h
      rcases List.append_eq_append_iff.mp h with ⟨q, hf, hy⟩ | ⟨x', hx, hfs⟩
      · by_cases hq : q = []
        · -- the cut is at the end of the first frame
          subst hq
          rw [List.append_nil] at hf
          refine ⟨[f], fs, [], rfl, ?_, hy, .nil fs⟩
          rw [List.flatten_singleton, List.append_nil, hf]
        · exact ⟨[], f :: fs, x, rfl, rfl, h, .part hf hq⟩
      · obtain ⟨fs₁, fs₂, p, rfl, rfl, hp, hpend⟩ := ih hfs.symm
        refine ⟨f :: fs₁, fs₂, p, rfl, ?_, hp, hpend⟩
        rw [hx, List.flatten_cons, List.append_assoc]

/-- A pending part is the whole stream only when no frame is left. -/
theorem Pending.eq_nil (h : Pending fs p) (hp : p = fs.flatten) (hne : [] ∉ fs) : fs = [] := by
  cases h with
  | nil =>
      cases fs with
      | nil => rfl
      | cons f fs =>
          have hf : f = [] := (List.append_eq_nil_iff.mp hp.symm).1
          exact absurd (hf ▸ List.mem_cons_self) hne
  | @part f p q fs hf hq =>
      rw [List.flatten_cons, hf, List.append_assoc] at hp
      have hrest := List.self_eq_append_right.mp hp
      exact absurd (List.append_eq_nil_iff.mp hrest).1 hq

/-- What comes behind the frames does not matter to a pending part. -/
theorem Pending.append (h : Pending fs p) (fs' : List (List α)) : Pending (fs ++ fs') p := by
  cases h with
  | nil => exact .nil _
  | part hf hq => exact .part hf hq

/-! ### How a stream stands -/

universe v

variable {β : Type v} {enc : β → List α} {sent taken : List β} {held coming : List α}

/-- Of a stream of the frames of `sent`, those of `taken` have been taken out; `held` has arrived
of the others, and `coming` is to arrive. -/
def Transit (enc : β → List α) (sent taken : List β) (held coming : List α) : Prop :=
  ∃ left, sent = taken ++ left ∧ held ++ coming = (left.map enc).flatten ∧
    Pending (left.map enc) held

theorem Transit.start (enc : β → List α) : Transit enc [] [] [] [] := ⟨[], rfl, rfl, .nil _⟩

/-- More frames go behind those that are to come. -/
theorem Transit.send (h : Transit enc sent taken held coming) (more : List β) :
    Transit enc (sent ++ more) taken held (coming ++ (more.map enc).flatten) := by
  obtain ⟨left, rfl, hbytes, hpend⟩ := h
  refine ⟨left ++ more, List.append_assoc .., ?_, ?_⟩
  · rw [← List.append_assoc, hbytes, List.map_append, List.flatten_append]
  · rw [List.map_append]
    exact hpend.append _

theorem Transit.isPrefix (h : Transit enc sent taken held coming) : taken <+: sent := by
  obtain ⟨left, rfl, -, -⟩ := h
  exact List.prefix_append taken left

/-- **Once nothing is to arrive, all has been taken.** -/
theorem Transit.all (h : Transit enc sent taken held []) (hne : ∀ b, enc b ≠ []) :
    taken = sent ∧ held = [] := by
  obtain ⟨left, rfl, hbytes, hpend⟩ := h
  rw [List.append_nil] at hbytes
  have hnil : [] ∉ left.map enc := by
    intro hmem
    obtain ⟨b, -, hb⟩ := List.mem_map.mp hmem
    exact hne b hb
  obtain rfl := List.map_eq_nil_iff.mp (hpend.eq_nil hbytes hnil)
  exact ⟨(List.append_nil taken).symm, hbytes⟩

end Framing
