/-
TinyRpc/Base/Search.lean

The loop `for (i = lo; i < lo + n; ++i)` whose body either goes on to the next
index, breaks with a result, or stops with a fault.  `search body n lo` runs it:
`some a` is a break with `a`, `none` is a loop that ran to its end.

The three outcomes are characterised by what the body does at each index, so
that a proof about a scan never goes back to the recursion.
-/
import TinyRpc.Base.Checked

namespace Search

open Checked

universe u v

variable {ε : Type u} {α : Type v}

/-- Run `body` at `lo`, `lo + 1`, …, `lo + n - 1` up to its first break. -/
def search (body : Nat → Except ε (Option α)) : Nat → Nat → Except ε (Option α)
  | 0, _ => .ok none
  | n + 1, lo =>
      match body lo with
      | .error e => .error e
      | .ok (some a) => .ok (some a)
      | .ok none => search body n (lo + 1)

variable {body : Nat → Except ε (Option α)}

/-- `body` goes on at every index before `i`. -/
def Passes (body : Nat → Except ε (Option α)) (lo i : Nat) : Prop :=
  ∀ k, lo ≤ k → k < i → body k = .ok none

theorem Passes.mono {lo lo' i i' : Nat} (h : Passes body lo i) (hlo : lo ≤ lo')
    (hi : i' ≤ i) : Passes body lo' i' :=
  fun k hk hki => h k (Nat.le_trans hlo hk) (Nat.lt_of_lt_of_le hki hi)

theorem Passes.cons {lo i : Nat} (h₀ : body lo = .ok none) (h : Passes body (lo + 1) i) :
    Passes body lo i := by
  intro k hk hki
  rcases Nat.eq_or_lt_of_le hk with rfl | hlt
  · exact h₀
  · exact h k hlt hki

/-- The loop runs to its end exactly when the body goes on everywhere. -/
theorem search_eq_none {n lo : Nat} :
    search body n lo = .ok none ↔ Passes body lo (lo + n) := by
  induction n generalizing lo with
  | zero =>
      refine ⟨fun _ k hk hki => ?_, fun _ => rfl⟩
      omega
  | succ n ih =>
      rw [search]
      split
      · rename_i e he
        refine ⟨nofun, fun h => ?_⟩
        rw [h lo le_rfl (by omega)] at he
        cases he
      · rename_i a ha
        refine ⟨nofun, fun h => ?_⟩
        rw [h lo le_rfl (by omega)] at ha
        cases ha
      · rename_i h₀
        rw [ih, show lo + 1 + n = lo + (n + 1) by omega]
        exact ⟨fun h => h.cons h₀, fun h => h.mono (by omega) le_rfl⟩

/-- The loop breaks with `a` exactly when `a` is the body's first break. -/
theorem search_eq_some {n lo : Nat} {a : α} :
    search body n lo = .ok (some a) ↔
      ∃ i, lo ≤ i ∧ i < lo + n ∧ body i = .ok (some a) ∧ Passes body lo i := by
  induction n generalizing lo with
  | zero =>
      refine ⟨nofun, ?_⟩
      rintro ⟨i, hlo, hi, -⟩
      omega
  | succ n ih =>
      rw [search]
      split
      · rename_i e he
        refine ⟨nofun, ?_⟩
        rintro ⟨i, hlo, -, hb, hp⟩
        rcases Nat.eq_or_lt_of_le hlo with rfl | hlt
        · rw [hb] at he; cases he
        · rw [hp lo le_rfl hlt] at he; cases he
      · rename_i a' ha
        constructor
        · rintro h
          obtain rfl : a' = a := by simpa using h
          exact ⟨lo, le_rfl, by omega, ha, fun k hk hki => absurd hki (by omega)⟩
        · rintro ⟨i, hlo, -, hb, hp⟩
          rcases Nat.eq_or_lt_of_le hlo with rfl | hlt
          · rw [← hb, ha]
          · rw [hp lo le_rfl hlt] at ha; cases ha
      · rename_i h₀
        rw [ih]
        constructor
        · rintro ⟨i, hlo, hi, hb, hp⟩
          exact ⟨i, by omega, by omega, hb, hp.cons h₀⟩
        · rintro ⟨i, hlo, hi, hb, hp⟩
          -- the break is not at `lo`, where the body has gone on
          rcases Nat.eq_or_lt_of_le hlo with rfl | hlt
          · rw [hb] at h₀; cases h₀
          · exact ⟨i, hlt, by omega, hb, hp.mono (by omega) le_rfl⟩

/-- The loop stops with no fault exactly when the body has none at any index it
reaches. -/
theorem safe_search {n lo : Nat} :
    Safe (search body n lo) ↔
      ∀ i, lo ≤ i → i < lo + n → Passes body lo i → Safe (body i) := by
  induction n generalizing lo with
  | zero =>
      refine ⟨fun _ i hlo hi => absurd hi (by omega), fun _ => safe_ok _⟩
  | succ n ih =>
      rw [search]
      split
      · rename_i e he
        refine ⟨fun h => absurd h (not_safe_error e), fun h => ?_⟩
        have h₀ := h lo le_rfl (by omega) (fun k hk hki => absurd hki (by omega))
        rwa [he] at h₀
      · rename_i a ha
        refine ⟨fun _ i hlo _ hp => ?_, fun _ => safe_ok _⟩
        rcases Nat.eq_or_lt_of_le hlo with rfl | hlt
        · exact ⟨_, ha⟩
        · rw [hp lo le_rfl hlt] at ha; cases ha
      · rename_i h₀
        rw [ih]
        constructor
        · intro h i hlo hi hp
          rcases Nat.eq_or_lt_of_le hlo with rfl | hlt
          · exact ⟨_, h₀⟩
          · exact h i hlt (by omega) (hp.mono (by omega) le_rfl)
        · intro h i hlo hi hp
          exact h i (by omega) (by omega) (hp.cons h₀)

end Search
