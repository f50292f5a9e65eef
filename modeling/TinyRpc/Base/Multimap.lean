/-
TinyRpc/Base/Multimap.lean

A multimap: entries in the order of their keys, and, among equal keys, in the
order in which they were put in.

That the keys are in order is a field, so every operation comes with the proof
that it keeps them so.  `upTo` and `after` cut the entries at a key.
-/
import Mathlib.Order.Lattice
import Mathlib.Tactic.Common

structure Multimap (κ α : Type) [LinearOrder κ] where
  entries : List (κ × α)
  sorted : entries.Pairwise fun p q => p.1 ≤ q.1

namespace Multimap

variable {κ α : Type} [LinearOrder κ]

def empty : Multimap κ α := ⟨[], .nil⟩

/-- The entry behind those with smaller or equal keys. -/
def insertEntry (key : κ) (value : α) : List (κ × α) → List (κ × α)
  | [] => [(key, value)]
  | p :: ps => if key < p.1 then (key, value) :: p :: ps else p :: insertEntry key value ps

theorem mem_insertEntry {key : κ} {value : α} {ps : List (κ × α)} {p : κ × α} :
    p ∈ insertEntry key value ps ↔ p = (key, value) ∨ p ∈ ps := by
  induction ps with
  | nil => simp [insertEntry]
  | cons q ps ih =>
      rw [insertEntry]
      split
      · simp
      · rw [List.mem_cons, ih, List.mem_cons]
        exact or_left_comm

theorem perm_insertEntry (key : κ) (value : α) (ps : List (κ × α)) :
    (insertEntry key value ps).Perm ((key, value) :: ps) := by
  induction ps with
  | nil => exact List.Perm.refl _
  | cons q ps ih =>
      rw [insertEntry]
      split
      · exact List.Perm.refl _
      · exact (ih.cons q).trans (List.Perm.swap (key, value) q ps)

theorem pairwise_insertEntry {key : κ} {value : α} {ps : List (κ × α)}
    (h : ps.Pairwise fun p q => p.1 ≤ q.1) :
    (insertEntry key value ps).Pairwise fun p q => p.1 ≤ q.1 := by
  induction ps with
  | nil => exact List.pairwise_singleton _ _
  | cons q ps ih =>
      obtain ⟨hq, hps⟩ := List.pairwise_cons.mp h
      rw [insertEntry]
      split
      · rename_i hlt
        refine List.pairwise_cons.mpr ⟨fun p hp => ?_, h⟩
        rcases List.mem_cons.mp hp with rfl | hmem
        · exact hlt.le
        · exact hlt.le.trans (hq p hmem)
      · rename_i hge
        refine List.pairwise_cons.mpr ⟨fun p hp => ?_, ih hps⟩
        rcases mem_insertEntry.mp hp with rfl | hmem
        · exact not_lt.mp hge
        · exact hq p hmem

/-- `emplace`. -/
def emplace (m : Multimap κ α) (key : κ) (value : α) : Multimap κ α :=
  ⟨insertEntry key value m.entries, pairwise_insertEntry m.sorted⟩

/-- The first entry of `value` under `key` taken out, if there is one. -/
def erase [DecidableEq α] (m : Multimap κ α) (key : κ) (value : α) : Multimap κ α :=
  ⟨m.entries.erase (key, value), m.sorted.sublist List.erase_sublist⟩

/-- The entries from the first on with keys up to `key`. -/
def upTo (m : Multimap κ α) (key : κ) : List (κ × α) := m.entries.takeWhile (·.1 ≤ key)

/-- The entries from the first on with a greater key. -/
def after (m : Multimap κ α) (key : κ) : Multimap κ α :=
  ⟨m.entries.dropWhile (·.1 ≤ key), m.sorted.sublist (List.dropWhile_sublist _)⟩

/-! ### Iterators -/

/-- `lower_bound`: the place of the first entry whose key is not smaller. -/
def lowerBound (m : Multimap κ α) (key : κ) : Nat := (m.entries.takeWhile (·.1 < key)).length

/-- `upper_bound`: the place of the first entry whose key is greater. -/
def upperBound (m : Multimap κ α) (key : κ) : Nat := (m.entries.takeWhile (·.1 ≤ key)).length

/-- The first place from `first` on, and before `last`, at which `value` stands, or `last`. -/
def findFrom [DecidableEq α] (m : Multimap κ α) (value : α) (first last : Nat) : Nat :=
  first + ((m.entries.take last).drop first).findIdx (·.2 = value)

/-- `erase` of an iterator. -/
def eraseAt (m : Multimap κ α) (i : Nat) : Multimap κ α :=
  ⟨m.entries.eraseIdx i, m.sorted.sublist (List.eraseIdx_sublist ..)⟩

/-- The scan of the entries under `key`, for a list of entries. -/
theorem eraseScan [DecidableEq α] (key : κ) (value : α) {ps : List (κ × α)}
    (h : ps.Pairwise fun p q => p.1 ≤ q.1) :
    let lo := (ps.takeWhile (·.1 < key)).length
    let hi := (ps.takeWhile (·.1 ≤ key)).length
    let it := lo + ((ps.take hi).drop lo).findIdx (·.2 = value)
    (if it ≠ hi then ps.eraseIdx it else ps) = ps.erase (key, value) := by
  induction ps with
  | nil => rfl
  | cons p ps ih =>
      obtain ⟨hp, hps⟩ := List.pairwise_cons.mp h
      have ih := ih hps
      dsimp only at ih ⊢
      rcases lt_trichotomy p.1 key with hlt | heq | hgt
      · have hne : p ≠ (key, value) := fun he => absurd (congrArg Prod.fst he) hlt.ne
        rw [List.erase_cons_tail (by simpa using hne), ← ih]
        simp only [List.takeWhile_cons, hlt, hlt.le, decide_true, if_true, List.length_cons,
          List.take_succ_cons, List.drop_succ_cons, Nat.add_right_comm _ 1, List.eraseIdx_cons_succ,
          ne_eq, Nat.add_right_cancel_iff, apply_ite (p :: ·)]
      · -- the entries that follow have the key or a greater one
        have hlo : ps.takeWhile (·.1 < key) = [] := by
          cases ps with
          | nil => rfl
          | cons q qs =>
              have hq : key ≤ q.1 := heq ▸ hp q List.mem_cons_self
              exact List.takeWhile_cons_of_neg (by simpa using hq)
        rw [hlo] at ih
        simp only [List.length_nil, List.drop_zero, Nat.zero_add] at ih
        have hkey : ¬ p.1 < key := heq.not_lt
        by_cases hvalue : p.2 = value
        · obtain rfl : p = (key, value) := Prod.ext heq hvalue
          simp [List.findIdx_cons]
        · have hne : p ≠ (key, value) := fun he => hvalue (congrArg Prod.snd he)
          rw [List.erase_cons_tail (by simpa using hne), ← ih]
          simp only [List.takeWhile_cons, hkey, heq.le, decide_true, decide_false, if_true,
            List.length_cons, List.length_nil, List.take_succ_cons, List.drop_zero, Nat.zero_add,
            List.findIdx_cons, hvalue, cond_false, List.eraseIdx_cons_succ, ne_eq,
            Nat.add_right_cancel_iff, apply_ite (p :: ·), Bool.false_eq_true, if_false]
      · have hnone : (key, value) ∉ p :: ps := by
          intro hmem
          rcases List.mem_cons.mp hmem with he | hmem
          · exact hgt.ne (congrArg Prod.fst he)
          · exact absurd (hp _ hmem) (not_le.mpr hgt)
        rw [List.erase_of_not_mem hnone]
        simp [hgt.not_gt, hgt.not_ge]

/-- A scan of the entries under a key finds what `erase` takes out. -/
theorem eraseAt_findFrom [DecidableEq α] (m : Multimap κ α) (key : κ) (value : α) :
    (if m.findFrom value (m.lowerBound key) (m.upperBound key) ≠ m.upperBound key then
        m.eraseAt (m.findFrom value (m.lowerBound key) (m.upperBound key))
      else m) = m.erase key value := by
  have h := eraseScan key value m.sorted
  dsimp only at h
  unfold findFrom lowerBound upperBound eraseAt erase
  split
  · rename_i hfound
    rw [if_pos hfound] at h
    congr 1
  · rename_i hend
    rw [if_neg hend] at h
    cases m
    congr 1

/-! ### Cutting at a key -/

/-- In order, a smaller or equal key comes before a greater one. -/
theorem takeWhile_eq_filter {ps : List (κ × α)} (h : ps.Pairwise fun p q => p.1 ≤ q.1) (key : κ) :
    ps.takeWhile (·.1 ≤ key) = ps.filter (·.1 ≤ key) ∧
      ps.dropWhile (·.1 ≤ key) = ps.filter (key < ·.1) := by
  induction ps with
  | nil => exact ⟨rfl, rfl⟩
  | cons p ps ih =>
      obtain ⟨hp, hps⟩ := List.pairwise_cons.mp h
      obtain ⟨htake, hdrop⟩ := ih hps
      by_cases hle : p.1 ≤ key
      · simp [hle, htake, hdrop]
      · -- the keys that follow are greater, too
        have hgt : ∀ q ∈ ps, key < q.1 := fun q hq => (not_le.mp hle).trans_le (hp q hq)
        have hnone : ps.filter (·.1 ≤ key) = [] := by
          simpa using hgt
        have hall : ps.filter (key < ·.1) = ps := by
          simpa using hgt
        have hlt : key < p.1 := not_le.mp hle
        rw [List.takeWhile_cons_of_neg (by simpa using hlt),
          List.dropWhile_cons_of_neg (by simpa using hlt),
          List.filter_cons_of_neg (by simpa using hlt),
          List.filter_cons_of_pos (by simpa using hlt), hnone, hall]
        exact ⟨rfl, rfl⟩

theorem upTo_eq_filter (m : Multimap κ α) (key : κ) :
    m.upTo key = m.entries.filter (·.1 ≤ key) := (takeWhile_eq_filter m.sorted key).1

theorem after_eq_filter (m : Multimap κ α) (key : κ) :
    (m.after key).entries = m.entries.filter (key < ·.1) := (takeWhile_eq_filter m.sorted key).2

end Multimap
