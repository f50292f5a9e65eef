/-
TinyRpc/Base/NetOrder.lean

32-bit signed integers in network byte order: most significant byte first.
`netBytes` is what `htonl` and a four-byte copy put on the wire, `netInt32` what
a four-byte copy and `ntohl` read back; `netAt` reads at an offset of a longer
byte string, with the bytes that are not there taken as zero.
-/
import Mathlib.Data.List.TakeWhile
import Mathlib.Tactic.Common
import TinyRpc.Base.SelfDelimiting

namespace NetOrder

open SelfDelimiting

/-- The four bytes of `v`, most significant first. -/
def netBytes (v : Int32) : List UInt8 :=
  let n := v.toUInt32.toNat
  [UInt8.ofNat (n / 16777216), UInt8.ofNat (n / 65536), UInt8.ofNat (n / 256), UInt8.ofNat n]

/-- The integer four bytes spell, most significant first. -/
def netInt32 (b₀ b₁ b₂ b₃ : UInt8) : Int32 :=
  (UInt32.ofNat (b₀.toNat * 16777216 + b₁.toNat * 65536 + b₂.toNat * 256 + b₃.toNat)).toInt32

/-- The integer that the four bytes from offset `k` spell. -/
def netAt (l : List UInt8) (k : Nat) : Int32 :=
  netInt32 (l.getD k 0) (l.getD (k + 1) 0) (l.getD (k + 2) 0) (l.getD (k + 3) 0)

@[simp] theorem length_netBytes (v : Int32) : (netBytes v).length = 4 := rfl

/-- Reading back what was written gives the integer written. -/
theorem netInt32_netBytes (v : Int32) :
    ∀ b₀ b₁ b₂ b₃, netBytes v = [b₀, b₁, b₂, b₃] → netInt32 b₀ b₁ b₂ b₃ = v := by
  intro b₀ b₁ b₂ b₃ h
  simp only [netBytes, List.cons.injEq, and_true] at h
  obtain ⟨rfl, rfl, rfl, rfl⟩ := h
  have hlt : v.toUInt32.toNat < 4294967296 := v.toUInt32.toNat_lt
  have hsum : v.toUInt32.toNat / 16777216 % 256 * 16777216
      + v.toUInt32.toNat / 65536 % 256 * 65536
      + v.toUInt32.toNat / 256 % 256 * 256 + v.toUInt32.toNat % 256 = v.toUInt32.toNat := by
    omega
  simp only [netInt32, UInt8.toNat_ofNat']
  rw [hsum, UInt32.ofNat_toNat, Int32.toInt32_toUInt32]

theorem netBytes_inj {v w : Int32} (h : netBytes v = netBytes w) : v = w :=
  (netInt32_netBytes v _ _ _ _ rfl).symm.trans (netInt32_netBytes w _ _ _ _ h.symm)

/-- Four bytes tell the integer. -/
theorem tells_netBytes {α : Type} {R : α → α → Prop} (v : α → Int32) :
    Tells R (fun a => netBytes (v a)) v :=
  .of_length (fun _ _ _ => rfl) fun _ _ _ henc => netBytes_inj henc

/-- Four bytes tell a length that is not negative as an integer. -/
theorem tells_netLength {α : Type} {R : α → α → Prop} (n : α → Nat)
    (hn : ∀ a a', R a a' → n a < 2147483648 ∧ n a' < 2147483648) :
    Tells R (fun a => netBytes (Int32.ofNat (n a))) n := by
  refine (tells_netBytes fun a => Int32.ofNat (n a)).imp fun a a' hR heq => ?_
  obtain ⟨hlt, hlt'⟩ := hn a a' hR
  have hint := congrArg Int32.toInt heq
  rw [Int32.toInt_ofNat_of_lt hlt, Int32.toInt_ofNat_of_lt hlt'] at hint
  exact Int.ofNat_inj.mp hint

/-- A byte string behind its length. -/
def netString (s : List UInt8) : List UInt8 := netBytes (Int32.ofNat s.length) ++ s

theorem tells_netString {α : Type} {R : α → α → Prop} (s : α → List UInt8)
    (hs : ∀ a a', R a a' → (s a).length < 2147483648 ∧ (s a').length < 2147483648) :
    Tells R (fun a => netString (s a)) s := by
  have hlength : Tells R (fun a => netBytes (Int32.ofNat (s a).length)) fun a => (s a).length :=
    tells_netLength (fun a => (s a).length) hs
  have hbytes : Tells (fun a a' => R a a' ∧ (s a).length = (s a').length) s s :=
    .bytes fun _ _ h => h.2
  exact (hlength.append hbytes).imp fun _ _ _ heq => (Prod.mk.inj heq).2

/-- A byte string that goes on with the bytes of `v` at offset `k` reads as `v` there. -/
theorem netAt_of_drop {l rest : List UInt8} {k : Nat} {v : Int32}
    (h : l.drop k = netBytes v ++ rest) : netAt l k = v := by
  have hget : ∀ i, l.getD (k + i) 0 = (netBytes v ++ rest).getD i 0 := by
    intro i
    rw [← h, List.getD_eq_getElem?_getD, List.getD_eq_getElem?_getD, List.getElem?_drop]
  have h₀ := hget 0
  rw [Nat.add_zero] at h₀
  rw [netAt, h₀, hget 1, hget 2, hget 3]
  exact netInt32_netBytes v _ _ _ _ rfl

/-- Writing what was read gives the bytes read. -/
theorem netBytes_netInt32 (b₀ b₁ b₂ b₃ : UInt8) :
    netBytes (netInt32 b₀ b₁ b₂ b₃) = [b₀, b₁, b₂, b₃] := by
  have h₀ := b₀.toNat_lt
  have h₁ := b₁.toNat_lt
  have h₂ := b₂.toNat_lt
  have h₃ := b₃.toNat_lt
  simp only [netBytes, netInt32, UInt32.toUInt32_toInt32, UInt32.toNat_ofNat', List.cons.injEq,
    and_true, ← UInt8.toNat_inj, UInt8.toNat_ofNat']
  omega

/-- Four bytes of a string are those of the integer that they spell. -/
theorem drop_eq_netBytes_netAt {l : List UInt8} {k : Nat} (h : k + 4 ≤ l.length) :
    l.drop k = netBytes (netAt l k) ++ l.drop (k + 4) := by
  have hget : ∀ j, j < l.length → l.drop j = l.getD j 0 :: l.drop (j + 1) := by
    intro j hj
    rw [List.drop_eq_getElem_cons hj, List.getD_eq_getElem?_getD, List.getElem?_eq_getElem hj,
      Option.getD_some]
  rw [netAt, netBytes_netInt32, hget k (by omega), hget (k + 1) (by omega),
    hget (k + 2) (by omega), hget (k + 3) (by omega)]
  rfl

end NetOrder
