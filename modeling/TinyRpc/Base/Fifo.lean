/-
TinyRpc/Base/Fifo.lean

What goes into a system and comes out of it again, in order.

A system holds a sequence of items; an event may put items in and take items out.
`loggedStep` keeps what has been put in and what has been taken out beside the
state.  An event conserves the items if what is held before it, followed by what
it puts in, is what it takes out, followed by what is held after it.

`inOrder_iff_conserves`: nothing is lost, repeated or overtaken in exactly the runs
whose events all conserve the items.  `NothingLost` allows items to be repeated and
overtaken: it is enough that no event drops one.  `EachOnce` allows them to be overtaken only.
`InOrderPer` keeps items with the same key in order, and `overtakes_iff` says what an item may
overtake then.
-/
import Mathlib.Data.List.Perm.Subperm
import TinyRpc.Base.Runs

namespace Fifo

open Runs

universe u v w

/-- The items that a state holds, and those that an event puts in and takes out. -/
structure Ports (σ : Type u) (ε : Type v) (α : Type w) where
  holds : σ → List α
  puts : σ → ε → List α
  takes : σ → ε → List α

/-- A state, and all that has been put in and taken out. -/
structure Logged (σ : Type u) (α : Type w) where
  state : σ
  put : List α
  taken : List α

variable {σ : Type u} {ε : Type v} {α : Type w}

namespace Ports

variable (io : Ports σ ε α) (move : Step σ ε)

def loggedStep : Step (Logged σ α) ε := fun l event =>
  (move l.state event).map fun s =>
    ⟨s, l.put ++ io.puts l.state event, l.taken ++ io.takes l.state event⟩

/-- What has been taken out, followed by what is held, is what has been put in. -/
def InOrder (l : Logged σ α) : Prop := l.taken ++ io.holds l.state = l.put

def Conserves (l : Logged σ α) (event : ε) : Prop :=
  ∀ s ∈ move l.state event,
    io.holds l.state ++ io.puts l.state event = io.takes l.state event ++ io.holds s

instance [DecidableEq α] : DecidablePred io.InOrder := fun l =>
  inferInstanceAs (Decidable (l.taken ++ io.holds l.state = l.put))

variable {io move}

/-- An event keeps the order if and only if it conserves the items. -/
theorem InOrder.iff {l : Logged σ α} (h : io.InOrder l) {event : ε} {s : σ} :
    io.InOrder ⟨s, l.put ++ io.puts l.state event, l.taken ++ io.takes l.state event⟩ ↔
      io.holds l.state ++ io.puts l.state event = io.takes l.state event ++ io.holds s := by
  have hput : l.put ++ io.puts l.state event =
      l.taken ++ (io.holds l.state ++ io.puts l.state event) := by
    rw [← List.append_assoc, ← h]
  show _ ++ io.holds s = l.put ++ _ ↔ _
  rw [hput, List.append_assoc, List.append_cancel_left_eq]
  exact eq_comm

theorem InOrder.step (l : Logged σ α) (event : ε) (l' : Logged σ α) (h : io.InOrder l)
    (hc : io.Conserves move l event) (hl : l' ∈ io.loggedStep move l event) : io.InOrder l' := by
  obtain ⟨s, hs, rfl⟩ := Option.map_eq_some_iff.mp hl
  exact h.iff.mpr (hc s hs)

theorem InOrder.conserves (l : Logged σ α) (event : ε) (l' : Logged σ α) (h : io.InOrder l)
    (hl : l' ∈ io.loggedStep move l event) (h' : io.InOrder l') : io.Conserves move l event := by
  obtain ⟨s, hs, rfl⟩ := Option.map_eq_some_iff.mp hl
  intro s' hs'
  obtain rfl : s = s' := Option.some.inj (hs.symm.trans hs')
  exact h.iff.mp h'

theorem inOrder_iff_conserves {l : Logged σ α} (hl : io.InOrder l) (events : List ε) :
    Always (io.loggedStep move) io.InOrder l events ↔
      Meets (io.loggedStep move) (io.Conserves move) l events :=
  always_iff_meets (fun _ h => h) InOrder.step InOrder.conserves hl

/-- The exact rule for the runs whose events all meet `D`, where `C` says which of these events
conserve the items. -/
theorem inOrder_iff_of_meets {C D : Logged σ α → ε → Prop}
    (hc : ∀ l event, D l event → (io.Conserves move l event ↔ C l event)) {l : Logged σ α}
    (hl : io.InOrder l) {events : List ε} (hD : Meets (io.loggedStep move) D l events) :
    Always (io.loggedStep move) io.InOrder l events ↔ Meets (io.loggedStep move) C l events :=
  always_iff_meets_of_meets (fun _ h => h)
    (fun l event l' h hd hC => h.step l event l' ((hc l event hd).mpr hC))
    (fun l event l' h hd hl' h' => (hc l event hd).mp (h.conserves l event l' hl' h')) hl hD

/-- Where every event conserves the items, every run keeps them in order. -/
theorem always_inOrder (hc : ∀ l event, io.Conserves move l event) {l : Logged σ α}
    (hl : io.InOrder l) (events : List ε) : Always (io.loggedStep move) io.InOrder l events :=
  always_of_step (fun l event l' h => h.step l event l' (hc l event)) hl events

/-! ### Nothing lost -/

/-- All that has been put in has been taken out or is held, as often as it has been put in; some of
it may be there more often. -/
def NothingLost (io : Ports σ ε α) (l : Logged σ α) : Prop :=
  l.put.Subperm (l.taken ++ io.holds l.state)

/-- No event drops an item. -/
theorem always_nothingLost
    (hkeeps : ∀ s event s', s' ∈ move s event →
      (io.holds s ++ io.puts s event).Subperm (io.takes s event ++ io.holds s')) {l : Logged σ α}
    (hl : io.NothingLost l) (events : List ε) :
    Always (io.loggedStep move) io.NothingLost l events := by
  refine always_of_step (fun l event l' h hl' => ?_) hl events
  obtain ⟨s, hs, rfl⟩ := Option.map_eq_some_iff.mp hl'
  show (l.put ++ io.puts l.state event).Subperm
    (l.taken ++ io.takes l.state event ++ io.holds s)
  have hput : (l.put ++ io.puts l.state event).Subperm
      (l.taken ++ io.holds l.state ++ io.puts l.state event) :=
    (List.subperm_append_right _).mpr h
  rw [List.append_assoc l.taken] at hput ⊢
  exact hput.trans ((List.subperm_append_left _).mpr (hkeeps l.state event s hs))

/-! ### Each once -/

/-- What has been put in is what has been taken out and what is held, in some order. -/
def EachOnce (io : Ports σ ε α) (l : Logged σ α) : Prop :=
  l.put.Perm (l.taken ++ io.holds l.state)

/-- No event drops an item or makes one. -/
theorem always_eachOnce
    (hkeeps : ∀ s event s', s' ∈ move s event →
      (io.holds s ++ io.puts s event).Perm (io.takes s event ++ io.holds s')) {l : Logged σ α}
    (hl : io.EachOnce l) (events : List ε) : Always (io.loggedStep move) io.EachOnce l events := by
  refine always_of_step (fun l event l' h hl' => ?_) hl events
  obtain ⟨s, hs, rfl⟩ := Option.map_eq_some_iff.mp hl'
  show (l.put ++ io.puts l.state event).Perm (l.taken ++ io.takes l.state event ++ io.holds s)
  have hput : (l.put ++ io.puts l.state event).Perm
      (l.taken ++ io.holds l.state ++ io.puts l.state event) := h.append_right _
  rw [List.append_assoc l.taken] at hput ⊢
  exact hput.trans ((hkeeps l.state event s hs).append_left _)

/-! ### In order for each key -/

section Keys

variable {κ : Type w} [DecidableEq κ]

/-- Of each key, what has been taken out, followed by what is held, is what has been put in. -/
def InOrderPer (io : Ports σ ε α) (key : α → κ) (l : Logged σ α) : Prop :=
  ∀ k, (l.taken ++ io.holds l.state).filter (key · = k) = l.put.filter (key · = k)

/-- A step conserves the items of each key. -/
def ConservesPer (io : Ports σ ε α) (key : α → κ) (s : σ) (event : ε) (s' : σ) : Prop :=
  ∀ k, (io.holds s ++ io.puts s event).filter (key · = k) =
    (io.takes s event ++ io.holds s').filter (key · = k)

variable {key : α → κ}

theorem Conserves.per {l : Logged σ α} {event : ε} {s : σ} (h : io.Conserves move l event)
    (hs : s ∈ move l.state event) : io.ConservesPer key l.state event s :=
  fun k => congrArg (List.filter (key · = k)) (h s hs)

/-- A step keeps the order of each key if and only if it conserves the items of each. -/
theorem InOrderPer.iff {l : Logged σ α} (h : io.InOrderPer key l) {event : ε} {s : σ} :
    io.InOrderPer key ⟨s, l.put ++ io.puts l.state event, l.taken ++ io.takes l.state event⟩ ↔
      io.ConservesPer key l.state event s := by
  refine forall_congr' fun k => ?_
  have hput : (l.put ++ io.puts l.state event).filter (key · = k) =
      l.taken.filter (key · = k) ++
        (io.holds l.state ++ io.puts l.state event).filter (key · = k) := by
    rw [List.filter_append, ← h k, List.filter_append, List.append_assoc, ← List.filter_append]
  show (l.taken ++ io.takes l.state event ++ io.holds s).filter _ =
    (l.put ++ io.puts l.state event).filter _ ↔ _
  rw [hput, List.append_assoc, List.filter_append, List.append_cancel_left_eq]
  exact eq_comm

/-- The exact rule for the order of each key, where `C` says which steps conserve the items of
each. -/
theorem inOrderPer_iff {C : Logged σ α → ε → Prop}
    (hc : ∀ l event, ∀ s ∈ move l.state event, io.ConservesPer key l.state event s ↔ C l event)
    {l : Logged σ α} (hl : io.InOrderPer key l) (events : List ε) :
    Always (io.loggedStep move) (io.InOrderPer key) l events ↔
      Meets (io.loggedStep move) C l events := by
  refine always_iff_meets (fun _ h => h) ?_ ?_ hl
  · intro l event l' h hC hl'
    obtain ⟨s, hs, rfl⟩ := Option.map_eq_some_iff.mp hl'
    exact h.iff.mpr ((hc l event s hs).mpr hC)
  · intro l event l' h hl' h'
    obtain ⟨s, hs, rfl⟩ := Option.map_eq_some_iff.mp hl'
    exact (hc l event s hs).mp (h.iff.mp h')

/-- An item may go from the end of a list to its head if all others are the same. -/
theorem concat_eq_cons_iff {a : α} {items : List α} :
    items ++ [a] = a :: items ↔ ∀ b ∈ items, b = a := by
  induction items with
  | nil => simp
  | cons x items ih =>
      rw [List.cons_append, List.cons.injEq, List.forall_mem_cons]
      refine and_congr_right fun hx => ?_
      rw [hx]
      exact ih

/-- **What an item may overtake**: of the items with its key only such as are the same. -/
theorem overtakes_iff {a : α} {items : List α} :
    (∀ k, (items ++ [a]).filter (key · = k) = ([a] ++ items).filter (key · = k)) ↔
      ∀ b ∈ items, key b = key a → b = a := by
  constructor
  · intro h
    have hown := h (key a)
    rw [List.filter_append, List.filter_append, List.filter_singleton, decide_eq_true rfl,
      cond_true, List.singleton_append] at hown
    intro b hb hkey
    exact concat_eq_cons_iff.mp hown b (List.mem_filter.mpr ⟨hb, decide_eq_true hkey⟩)
  · intro h k
    rw [List.filter_append, List.filter_append, List.filter_singleton]
    by_cases hk : key a = k
    · rw [decide_eq_true hk, cond_true, List.singleton_append]
      refine concat_eq_cons_iff.mpr fun b hb => ?_
      obtain ⟨hmem, hkey⟩ := List.mem_filter.mp hb
      exact h b hmem ((of_decide_eq_true hkey).trans hk.symm)
    · rw [decide_eq_false hk, cond_false, List.append_nil, List.nil_append]

end Keys

end Ports

end Fifo
