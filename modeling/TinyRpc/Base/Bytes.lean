/-
TinyRpc/Base/Bytes.lean

Checked access to a byte vector and checked machine integers.  Every access a
program makes to a vector is one of the readers below; a reader stops with a
`Fault` exactly where the access is out of range, so that "no access is out of
range" is `Safe` of the whole program.

`overwrite` is a copy into the middle of a vector.
-/
import TinyRpc.Base.Checked
import TinyRpc.Base.NetOrder

namespace Bytes

open Checked NetOrder

/-- The ways a program leaves the defined behaviour of its language. -/
inductive Fault
  /-- an index or a read outside the vector -/
  | outOfRange
  /-- a copy whose length is negative or more than its target holds -/
  | badCopy
  /-- a value that does not fit in a 32-bit `int` -/
  | intOverflow
  /-- a container or string built with a negative or impossible length -/
  | badLength
  deriving DecidableEq, Repr

/-! ### Machine integers -/

/-- `x` fits in a 32-bit `int`. -/
def FitsInt (x : Int) : Prop := -2147483648 ≤ x ∧ x ≤ 2147483647

instance (x : Int) : Decidable (FitsInt x) := inferInstanceAs (Decidable (_ ∧ _))

/-- The `int` result `x` of an operation; a fault where it overflows. -/
def int (x : Int) : Except Fault Int := check (FitsInt x) .intOverflow x

theorem int_of_fits {x : Int} (h : FitsInt x) : int x = .ok x := check_of_pos h

@[simp] theorem int_bind_eq_ok {α : Type} {x : Int} {f : Int → Except Fault α} {a : α} :
    (int x >>= f) = .ok a ↔ FitsInt x ∧ f x = .ok a := check_bind_eq_ok

@[simp] theorem safe_int_bind {α : Type} {x : Int} {f : Int → Except Fault α} :
    Safe (int x >>= f) ↔ FitsInt x ∧ Safe (f x) := safe_check_bind

theorem fitsInt_toInt (v : Int32) : FitsInt v.toInt := by
  have h₁ := v.le_toInt
  have h₂ := v.toInt_lt
  unfold FitsInt
  omega

/-! ### Readers -/

/-- `v[k]`. -/
def byteAt (v : List UInt8) (k : Int) : Except Fault UInt8 :=
  check (0 ≤ k ∧ k < v.length) .outOfRange (v.getD k.toNat 0)

/-- The 32-bit integer in network byte order at `&v[k]`. -/
def int32At (v : List UInt8) (k : Int) : Except Fault Int32 :=
  check (0 ≤ k ∧ k + 4 ≤ v.length) .outOfRange (netAt v k.toNat)

/-- The `len` bytes from `&v[k]`, copied into an array that holds `cap` of them. -/
def copyAt (v : List UInt8) (k len cap : Int) : Except Fault (List UInt8) :=
  check (0 ≤ len ∧ len ≤ cap) .badCopy () >>= fun _ =>
    check (0 ≤ k ∧ k + len ≤ v.length) .outOfRange ((v.drop k.toNat).take len.toNat)

/-- The C string in an array: its bytes up to the first NUL. -/
def cString (v : List UInt8) : List UInt8 := v.takeWhile (· ≠ 0)

theorem cString_of_not_mem {v : List UInt8} (h : 0 ∉ v) : cString v = v := by
  refine List.takeWhile_eq_self_iff.mpr fun b hb => ?_
  simpa using ne_of_mem_of_not_mem hb h

/-! ### Reading a known string -/

variable {v a rest : List UInt8} {k : Nat}

/-- Past a known string comes what follows it. -/
theorem drop_add_length (h : v.drop k = a ++ rest) : v.drop (k + a.length) = rest := by
  rw [← List.drop_drop, h, List.drop_left]

theorem add_length_le (h : v.drop k = a ++ rest) (hk : k ≤ v.length) :
    k + a.length ≤ v.length := by
  have hlen := congrArg List.length h
  rw [List.length_drop, List.length_append] at hlen
  omega

theorem int32At_of_drop {i : Int32} (hk : k ≤ v.length) (h : v.drop k = netBytes i ++ rest) :
    int32At v k = .ok i := by
  have hle := add_length_le h hk
  rw [length_netBytes] at hle
  rw [int32At, check_of_pos (by omega), Int.toNat_natCast, netAt_of_drop h]

theorem copyAt_of_drop {cap : Int} (hk : k ≤ v.length) (h : v.drop k = a ++ rest)
    (hcap : a.length ≤ cap) : copyAt v k a.length cap = .ok a := by
  have hle := add_length_le h hk
  rw [copyAt, check_of_pos (by omega), ok_bind, check_of_pos (by omega), Int.toNat_natCast,
    Int.toNat_natCast, h, List.take_left]

theorem getD_of_drop {b : UInt8} (h : v.drop k = b :: rest) : v.getD k 0 = b := by
  rw [List.getD_eq_getElem?_getD, ← Nat.add_zero k, ← List.getElem?_drop, h]
  rfl

theorem drop_of_getD {b : UInt8} (hk : k < v.length) (h : v.getD k 0 = b) :
    v.drop k = b :: v.drop (k + 1) := by
  rw [List.getD_eq_getElem?_getD, List.getElem?_eq_getElem hk, Option.getD_some] at h
  rw [List.drop_eq_getElem_cons hk, h]

/-! ### Cutting a string at a byte -/

theorem findIdx?_none {c : UInt8} (ha : c ∉ a) : a.findIdx? (· = c) = none := by
  rw [List.findIdx?_eq_none_iff]
  intro d hd
  exact decide_eq_false (ne_of_mem_of_not_mem hd ha)

/-- A byte is found first behind the bytes that are not it. -/
theorem findIdx?_first {c : UInt8} {b : List UInt8} (ha : c ∉ a) :
    (a ++ c :: b).findIdx? (· = c) = some a.length := by
  rw [List.findIdx?_append, findIdx?_none ha]
  simp [List.findIdx?_cons]

/-- What stands before the first `c`. -/
def before (c : UInt8) (s : List UInt8) : List UInt8 := s.takeWhile (· ≠ c)

/-- What stands behind it. -/
def behind (c : UInt8) (s : List UInt8) : List UInt8 := (s.dropWhile (· ≠ c)).tail

theorem before_behind_first {c : UInt8} {b : List UInt8} (ha : c ∉ a) :
    before c (a ++ c :: b) = a ∧ behind c (a ++ c :: b) = b := by
  have hall : ∀ d ∈ a, decide (d ≠ c) = true := fun d hd =>
    decide_eq_true (ne_of_mem_of_not_mem hd ha)
  unfold before behind
  rw [List.takeWhile_append_of_pos hall, List.dropWhile_append_of_pos hall]
  simp

/-! ### Copying into a vector -/

/-- `memcpy(&v[k], c, c.size())`. -/
def overwrite (v : List UInt8) (k : Nat) (c : List UInt8) : List UInt8 :=
  v.take k ++ c ++ v.drop (k + c.length)

theorem length_overwrite {c : List UInt8} (h : k + c.length ≤ v.length) :
    (overwrite v k c).length = v.length := by
  simp only [overwrite, List.length_append, List.length_take, List.length_drop]
  omega

/-- Before the target nothing changes. -/
theorem take_overwrite {c : List UInt8} {n : Nat} (hn : n ≤ k) (hk : k ≤ v.length) :
    (overwrite v k c).take n = v.take n := by
  rw [overwrite, List.append_assoc, List.take_append_of_le_length (by simp; omega),
    List.take_take, Nat.min_eq_left hn]

/-- Up to the end of the target stand the old bytes and then the copied ones. -/
theorem take_overwrite_add {c : List UInt8} (hk : k ≤ v.length) :
    (overwrite v k c).take (k + c.length) = v.take k ++ c := by
  have hlen : (v.take k ++ c).length = k + c.length := by simp [hk]
  rw [overwrite, ← hlen, List.take_left]

end Bytes
