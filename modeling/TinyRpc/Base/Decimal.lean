/-
TinyRpc/Base/Decimal.lean

Decimal numerals as byte strings, most significant digit first.

`value` is the number that a string of digits spells, and `numeral` the numeral that a
number is printed as.  `value_carry` is one more than a numeral, as a carry computes it:
the last digit that is no nine goes up by one, and the nines behind it become zeros.
-/
import Mathlib.Data.Nat.Digits.Defs
import Mathlib.Tactic.Common

namespace Decimal

/-- `'0'`. -/
abbrev zero : UInt8 := 48

/-- `'9'`. -/
abbrev nine : UInt8 := 57

/-- `'0' <= c && c <= '9'`. -/
def IsDigit (c : UInt8) : Prop := zero ≤ c ∧ c ≤ nine

instance : DecidablePred IsDigit := fun c => inferInstanceAs (Decidable (zero ≤ c ∧ c ≤ nine))

/-- `c - '0'`. -/
def digitVal (c : UInt8) : Nat := c.toNat - 48

/-- `d + '0'`. -/
def digit (d : Nat) : UInt8 := zero + UInt8.ofNat d

/-- The number that the digits spell. -/
def value (s : List UInt8) : Nat := Nat.ofDigits 10 (s.reverse.map digitVal)

/-- The numeral of `n`, without leading zeros. -/
def numeral (n : Nat) : List UInt8 :=
  if n = 0 then [digit 0] else (Nat.digits 10 n).reverse.map digit

/-! ### Digits -/

theorem digit_toNat {d : Nat} (h : d < 10) : (digit d).toNat = 48 + d := by
  rw [digit, UInt8.toNat_add, UInt8.toNat_ofNat']
  show (48 + d % 256) % 256 = 48 + d
  omega

theorem isDigit_digit {d : Nat} (h : d < 10) : IsDigit (digit d) := by
  have hnat := digit_toNat h
  constructor
  · apply UInt8.le_iff_toNat_le.mpr
    rw [hnat]
    exact Nat.le_add_right 48 d
  · apply UInt8.le_iff_toNat_le.mpr
    rw [hnat]
    show 48 + d ≤ 57
    omega

theorem digitVal_digit {d : Nat} (h : d < 10) : digitVal (digit d) = d := by
  rw [digitVal, digit_toNat h, Nat.add_sub_cancel_left]

/-- A digit that is no nine has a next one. -/
theorem IsDigit.succ {c : UInt8} (h : IsDigit c) (hne : c ≠ nine) :
    IsDigit (c + 1) ∧ digitVal (c + 1) = digitVal c + 1 := by
  obtain ⟨hlo, hhi⟩ := h
  have hlo' : 48 ≤ c.toNat := UInt8.le_iff_toNat_le.mp hlo
  have hhi' : c.toNat ≤ 57 := UInt8.le_iff_toNat_le.mp hhi
  have hne' : c.toNat ≠ 57 := fun heq => hne (UInt8.toNat_inj.mp heq)
  have hsucc : (c + 1).toNat = c.toNat + 1 := by
    rw [UInt8.toNat_add]
    show (c.toNat + 1) % 256 = c.toNat + 1
    omega
  refine ⟨⟨UInt8.le_iff_toNat_le.mpr ?_, UInt8.le_iff_toNat_le.mpr ?_⟩, ?_⟩
  · show 48 ≤ (c + 1).toNat
    omega
  · show (c + 1).toNat ≤ 57
    omega
  · unfold digitVal
    omega

/-! ### Values -/

theorem value_append (a b : List UInt8) : value (a ++ b) = value a * 10 ^ b.length + value b := by
  unfold value
  rw [List.reverse_append, List.map_append, Nat.ofDigits_append, List.length_map,
    List.length_reverse, Nat.mul_comm, Nat.add_comm]

theorem value_cons (c : UInt8) (s : List UInt8) :
    value (c :: s) = digitVal c * 10 ^ s.length + value s := by
  have hone : value [c] = digitVal c := Nat.ofDigits_singleton
  rw [← hone]
  exact value_append [c] s

theorem value_zeros (k : Nat) : value (List.replicate k zero) = 0 := by
  unfold value
  rw [List.reverse_replicate, List.map_replicate]
  exact Nat.ofDigits_replicate_zero

/-- One more than a row of nines. -/
theorem value_nines (k : Nat) : value (List.replicate k nine) + 1 = 10 ^ k := by
  induction k with
  | zero => rfl
  | succ k ih =>
      have hnine : digitVal nine = 9 := rfl
      rw [List.replicate_succ, value_cons, List.length_replicate, hnine, Nat.add_assoc, ih,
        Nat.pow_succ]
      omega

/-- **The carry**: one more than a numeral that ends with nines. -/
theorem value_carry (a : List UInt8) {c : UInt8} (hc : IsDigit c) (hne : c ≠ nine) (k : Nat) :
    value (a ++ (c + 1) :: List.replicate k zero) =
      value (a ++ c :: List.replicate k nine) + 1 := by
  have hnines := value_nines k
  simp only [value_append, value_cons, List.length_cons, List.length_replicate, value_zeros,
    (hc.succ hne).2]
  rw [Nat.add_mul, Nat.one_mul]
  omega

/-- A string is a row of nines, or has a last byte that is no nine. -/
theorem nines_or_last (s : List UInt8) :
    s = List.replicate s.length nine ∨
      ∃ a c k, s = a ++ c :: List.replicate k nine ∧ c ≠ nine := by
  induction s with
  | nil => exact .inl rfl
  | cons c s ih =>
      rcases ih with hnines | ⟨a, d, k, rfl, hd⟩
      · by_cases hc : c = nine
        · left
          rw [List.length_cons, List.replicate_succ, ← hnines, hc]
        · exact .inr ⟨[], c, s.length, congrArg _ hnines, hc⟩
      · exact .inr ⟨c :: a, d, k, rfl, hd⟩

/-! ### Numerals -/

theorem isDigit_numeral {n : Nat} {c : UInt8} (h : c ∈ numeral n) : IsDigit c := by
  unfold numeral at h
  split at h
  · rw [List.mem_singleton.mp h]
    exact isDigit_digit (by decide)
  · obtain ⟨d, hd, rfl⟩ := List.mem_map.mp h
    exact isDigit_digit (Nat.digits_lt_base (by decide) (List.mem_reverse.mp hd))

/-- **A numeral spells its number.** -/
theorem value_numeral (n : Nat) : value (numeral n) = n := by
  unfold numeral
  split
  · rename_i hn
    rw [hn]
    rfl
  · have hdigits : ((Nat.digits 10 n).reverse.map digit).reverse.map digitVal =
        Nat.digits 10 n := by
      rw [← List.map_reverse, List.reverse_reverse, List.map_map]
      refine (List.map_congr_left fun d hd => ?_).trans (List.map_id _)
      exact digitVal_digit (Nat.digits_lt_base (by decide) hd)
    rw [value, hdigits, Nat.ofDigits_digits]

theorem numeral_ne_nil (n : Nat) : numeral n ≠ [] := by
  unfold numeral
  split
  · exact List.cons_ne_nil _ _
  · rename_i hn
    intro h
    rw [List.map_eq_nil_iff, List.reverse_eq_nil_iff] at h
    exact Nat.digits_ne_nil_iff_ne_zero.mpr hn h

end Decimal
