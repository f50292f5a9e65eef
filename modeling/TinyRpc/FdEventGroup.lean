/-
TinyRpc/FdEventGroup.lean

The events of all fds, one for each, which are made as they are asked for.

`get_fd_event` looks an fd up in a vector.  If it lies behind the end, the vector is made
half as long again, once, and then the fd is looked up without another look at its
length.  So an fd that is further behind the end is read out of range, and a vector of
less than two events never grows at all.

`served_iff_meets`: every fd is given its event, always the same one, in exactly the
runs whose fds all lie within the vector or that half.
-/
import TinyRpc.Base.Bytes
import TinyRpc.Base.Runs

namespace TinyRpc

open Checked Bytes Runs

/-- A pointer to an `FdEvent`. -/
structure FdEventPtr where
  /-- which of the events that have been made it points to -/
  object : Nat
  /-- `m_fd` of that event -/
  fd : Int
  deriving DecidableEq

structure FdEventGroup where
  /-- `m_size` -/
  size : Int
  /-- `m_fd_event_groups` -/
  fdEventGroups : List FdEventPtr
  /-- how many events have been made -/
  made : Nat
  deriving DecidableEq

/-- An `int` as a `size_t`. -/
def asSizeT (i : Int32) : Nat := (i.toInt % 18446744073709551616).toNat

namespace FdEventGroup

/-- `emplace_back(make_shared<FdEvent>(i))` for every `i` from `first` up to `last`. -/
def emplace (g : FdEventGroup) (first last : Int) : FdEventGroup :=
  let count := (last - first).toNat
  { g with
    fdEventGroups := g.fdEventGroups ++
      (List.range count).map fun j => ⟨g.made + j, first + (j : Int)⟩
    made := g.made + count }

/-- `FdEventGroup(int size)`. -/
def create (size : Int32) : FdEventGroup := emplace ⟨size.toInt, [], 0⟩ 0 size.toInt

/-- `m_size * FD_EVENT_GROUP_EXPEND_FACTOR`, which a `double` holds exactly, without what is
behind the point. -/
def expanded (g : FdEventGroup) : Int := (3 * g.size).tdiv 2

/-- `m_fd_event_groups[fd]`. -/
def eventAt (g : FdEventGroup) (fd : Int32) : Except Fault FdEventPtr :=
  match g.fdEventGroups[asSizeT fd]? with
  | some event => .ok event
  | none => .error .outOfRange

def getFdEvent (g : FdEventGroup) (fd : Int32) : Except Fault (FdEventGroup × FdEventPtr) :=
  if asSizeT fd < g.fdEventGroups.length then do
    let event ← g.eventAt fd
    .ok (g, event)
  else do
    let newSize ← int g.expanded
    let g := { g.emplace g.size newSize with size := newSize }
    let event ← g.eventAt fd
    .ok (g, event)

/-- The fd lies within the vector, or within the half that it grows by. -/
def Covers (g : FdEventGroup) (fd : Int32) : Prop :=
  fd.toInt < g.size ∨ fd.toInt < g.expanded ∧ FitsInt g.expanded

instance (g : FdEventGroup) (fd : Int32) : Decidable (g.Covers fd) :=
  inferInstanceAs (Decidable (_ ∨ _ ∧ _))

end FdEventGroup

open FdEventGroup

/-! ### The calls on a group -/

structure FdEventRun where
  group : FdEventGroup
  /-- what has been returned for which fd -/
  returned : List (Int32 × FdEventPtr)
  /-- the fd whose call has left the defined behaviour -/
  fault : Option Int32
  deriving DecidableEq

def FdEventRun.start (size : Int32) : FdEventRun := ⟨create size, [], none⟩

def fdEventStep : Step FdEventRun Int32 := fun s fd =>
  match s.fault with
  | some _ => none
  | none =>
      match s.group.getFdEvent fd with
      | .error _ => some { s with fault := some fd }
      | .ok (group, event) => some { s with group := group, returned := (fd, event) :: s.returned }

/-- Every fd has been given its event, and the same one every time; no call has gone out of range
but one for a negative fd; and `m_size` is the number of the events. -/
structure Served (s : FdEventRun) : Prop where
  inRange : ∀ fd ∈ s.fault, fd.toInt < 0
  getFd : ∀ fd event, (fd, event) ∈ s.returned → event.fd = fd.toInt
  same : ∀ fd event event', (fd, event) ∈ s.returned → (fd, event') ∈ s.returned → event = event'
  size : s.group.size = s.group.fdEventGroups.length

/-! ### One call -/

section Call

variable {g : FdEventGroup} {fd : Int32} {n : Int}

/-- The vector has the events of the fds in order, as many as `m_size` says. -/
structure Stored (g : FdEventGroup) : Prop where
  size : g.size = g.fdEventGroups.length
  fits : g.size ≤ 2147483647
  getFd : ∀ (i : Nat) event, g.fdEventGroups[i]? = some event → event.fd = i

theorem asSizeT_of_nonneg (h : 0 ≤ fd.toInt) : asSizeT fd = fd.toInt.toNat := by
  have hlt := fd.toInt_lt
  rw [asSizeT, Int.emod_eq_of_lt h (by omega)]

/-- A negative fd is far behind the end of every vector. -/
theorem Stored.le_asSizeT (h : Stored g) (hout : fd.toInt < 0 ∨ g.size ≤ fd.toInt) :
    g.fdEventGroups.length ≤ asSizeT fd := by
  have hle := fd.le_toInt
  have hlt := fd.toInt_lt
  have hsize := h.size
  have hfits := h.fits
  unfold asSizeT
  omega

theorem getElem?_emplace_left {i : Nat} {event : FdEventPtr} {first last : Int}
    (h : g.fdEventGroups[i]? = some event) :
    (g.emplace first last).fdEventGroups[i]? = some event := by
  obtain ⟨hi, -⟩ := List.getElem?_eq_some_iff.mp h
  exact (List.getElem?_append_left hi).trans h

theorem Stored.emplace (h : Stored g) (hle : g.size ≤ n) (hfits : n ≤ 2147483647) :
    Stored { g.emplace g.size n with size := n } := by
  have hsize := h.size
  refine ⟨?_, hfits, fun i event hi => ?_⟩
  · show n = ((g.emplace g.size n).fdEventGroups.length : Int)
    rw [FdEventGroup.emplace, List.length_append, List.length_map, List.length_range]
    omega
  · rcases Nat.lt_or_ge i g.fdEventGroups.length with hlt | hge
    · exact h.getFd i event ((List.getElem?_append_left hlt).symm.trans hi)
    · have hnew := (List.getElem?_append_right hge).symm.trans hi
      rw [List.getElem?_map] at hnew
      obtain ⟨j, hj, rfl⟩ := Option.map_eq_some_iff.mp hnew
      obtain ⟨_, hji⟩ := List.getElem?_eq_some_iff.mp hj
      rw [List.getElem_range] at hji
      show g.size + (j : Int) = i
      omega

theorem Stored.eventAt_of_lt (h : Stored g) (h₀ : 0 ≤ fd.toInt) (hlt : fd.toInt < g.size) :
    ∃ event, g.fdEventGroups[fd.toInt.toNat]? = some event ∧ g.eventAt fd = .ok event := by
  have hsize := h.size
  have hi : fd.toInt.toNat < g.fdEventGroups.length := by omega
  refine ⟨_, List.getElem?_eq_getElem hi, ?_⟩
  rw [eventAt, asSizeT_of_nonneg h₀, List.getElem?_eq_getElem hi]

theorem Stored.eventAt_error (h : Stored g) (hout : fd.toInt < 0 ∨ g.size ≤ fd.toInt) :
    g.eventAt fd = .error .outOfRange := by
  rw [eventAt, List.getElem?_eq_none (h.le_asSizeT hout)]

/-- The call has found the event, in a vector that has kept what was there. -/
structure Found (g : FdEventGroup) (fd : Int32) (g' : FdEventGroup) (event : FdEventPtr) :
    Prop where
  stored : Stored g'
  nonneg : 0 ≤ fd.toInt
  there : g'.fdEventGroups[fd.toInt.toNat]? = some event
  kept : ∀ (i : Nat) event, g.fdEventGroups[i]? = some event → g'.fdEventGroups[i]? = some event

theorem getFdEvent_of_lt (h : Stored g) (h₀ : 0 ≤ fd.toInt) (hlt : fd.toInt < g.size) :
    ∃ event, g.getFdEvent fd = .ok (g, event) ∧ Found g fd g event := by
  have hsize := h.size
  obtain ⟨event, hevent, hat⟩ := h.eventAt_of_lt h₀ hlt
  have hin : asSizeT fd < g.fdEventGroups.length := by
    rw [asSizeT_of_nonneg h₀]
    omega
  refine ⟨event, ?_, h, h₀, hevent, fun _ _ he => he⟩
  rw [getFdEvent, if_pos hin, hat, ok_bind]

/-- Behind the end, the vector grows, and the fd is looked up once more. -/
theorem getFdEvent_of_out (h : Stored g) (hout : fd.toInt < 0 ∨ g.size ≤ fd.toInt)
    (hfits : FitsInt g.expanded) :
    g.getFdEvent fd =
      ({ g.emplace g.size g.expanded with size := g.expanded } : FdEventGroup).eventAt fd >>=
        fun event => .ok ({ g.emplace g.size g.expanded with size := g.expanded }, event) := by
  rw [getFdEvent, if_neg (Nat.not_lt.mpr (h.le_asSizeT hout)), int_of_fits hfits, ok_bind]

theorem Stored.grown (h : Stored g) (hfits : FitsInt g.expanded) :
    Stored { g.emplace g.size g.expanded with size := g.expanded } := by
  have hsize := h.size
  refine h.emplace ?_ hfits.2
  rw [expanded, Int.tdiv_eq_ediv_of_nonneg (by omega)]
  omega

/-- **An fd that is not negative and is covered is given its event.** -/
theorem getFdEvent_of_covers (h : Stored g) (h₀ : 0 ≤ fd.toInt) (hcovers : g.Covers fd) :
    ∃ g' event, g.getFdEvent fd = .ok (g', event) ∧ Found g fd g' event := by
  by_cases hlt : fd.toInt < g.size
  · obtain ⟨event, hget, hfound⟩ := getFdEvent_of_lt h h₀ hlt
    exact ⟨g, event, hget, hfound⟩
  · obtain ⟨hlt', hfits⟩ := hcovers.resolve_left hlt
    have hgrown := h.grown hfits
    obtain ⟨event, hevent, hat⟩ := hgrown.eventAt_of_lt h₀ hlt'
    refine ⟨_, event, ?_, hgrown, h₀, hevent, fun _ _ he => getElem?_emplace_left he⟩
    rw [getFdEvent_of_out h (.inr (Int.not_lt.mp hlt)) hfits, hat, ok_bind]

/-- The others leave the defined behaviour. -/
theorem getFdEvent_error (h : Stored g) (hnot : ¬ (0 ≤ fd.toInt ∧ g.Covers fd)) :
    ∃ e, g.getFdEvent fd = .error e := by
  have hsize := h.size
  have hout : fd.toInt < 0 ∨ g.size ≤ fd.toInt := by
    unfold Covers at hnot
    omega
  by_cases hfits : FitsInt g.expanded
  · have hbehind : fd.toInt < 0 ∨ g.expanded ≤ fd.toInt := by
      unfold Covers at hnot
      by_contra hin
      exact hnot ⟨by omega, .inr ⟨by omega, hfits⟩⟩
    refine ⟨.outOfRange, ?_⟩
    rw [getFdEvent_of_out h hout hfits, (h.grown hfits).eventAt_error hbehind, error_bind]
  · refine ⟨.intOverflow, ?_⟩
    rw [getFdEvent, if_neg (Nat.not_lt.mpr (h.le_asSizeT hout)), int, check, if_neg hfits,
      error_bind]

end Call

/-! ### Runs -/

variable {s s' : FdEventRun} {fd : Int32}

/-- The group is in order as long as no call has left the defined behaviour, and what has been
returned is still there. -/
structure Kept (s : FdEventRun) : Prop where
  served : Served s
  stored : s.fault = none → Stored s.group
  there : s.fault = none → ∀ fd event, (fd, event) ∈ s.returned →
    s.group.fdEventGroups[fd.toInt.toNat]? = some event ∧ 0 ≤ fd.toInt

theorem stored_create {size : Int32} (h : 0 ≤ size.toInt) : Stored (create size) := by
  have hnone : Stored ⟨0, [], 0⟩ := ⟨rfl, by decide, nofun⟩
  have hlt := size.toInt_lt
  exact hnone.emplace (n := size.toInt) h (by omega)

/-- A group of a negative size has no events at all. -/
theorem size_nonneg_of_served {size : Int32} (h : Served (FdEventRun.start size)) :
    0 ≤ size.toInt := by
  have hsize : size.toInt = ((create size).fdEventGroups.length : Int) := h.size
  rw [hsize]
  exact Int.natCast_nonneg _

theorem kept_start {size : Int32} (h : 0 ≤ size.toInt) : Kept (FdEventRun.start size) :=
  ⟨⟨nofun, nofun, nofun, (stored_create h).size⟩, fun _ => stored_create h, nofun⟩

theorem fdEventStep_ok {g' : FdEventGroup} {event : FdEventPtr} (hs : s.fault = none)
    (h : s.group.getFdEvent fd = .ok (g', event)) :
    fdEventStep s fd = some { s with group := g', returned := (fd, event) :: s.returned } := by
  unfold fdEventStep
  rw [hs]
  dsimp only
  rw [h]

theorem fdEventStep_error {e : Fault} (hs : s.fault = none)
    (h : s.group.getFdEvent fd = .error e) :
    fdEventStep s fd = some { s with fault := some fd } := by
  unfold fdEventStep
  rw [hs]
  dsimp only
  rw [h]

theorem fault_eq_none (hs' : s' ∈ fdEventStep s fd) : s.fault = none := by
  unfold fdEventStep at hs'
  split at hs'
  · exact nomatch hs'
  · assumption

/-- A call that finds its event keeps everything in order. -/
theorem Kept.found (h : Kept s) {g' : FdEventGroup} {event : FdEventPtr} (hs : s.fault = none)
    (hfound : Found s.group fd g' event) :
    Kept { s with group := g', returned := (fd, event) :: s.returned } := by
  obtain ⟨hstored, h₀, hthere, hkept⟩ := hfound
  have hall : ∀ fd' event', (fd', event') ∈ (fd, event) :: s.returned →
      g'.fdEventGroups[fd'.toInt.toNat]? = some event' ∧ 0 ≤ fd'.toInt := by
    intro fd' event' hmem
    rcases List.mem_cons.mp hmem with heq | hold
    · obtain ⟨rfl, rfl⟩ := Prod.mk.inj heq
      exact ⟨hthere, h₀⟩
    · obtain ⟨hold', hnonneg⟩ := h.there hs fd' event' hold
      exact ⟨hkept _ _ hold', hnonneg⟩
  refine ⟨⟨h.served.inRange, fun fd' event' hmem => ?_, fun fd' e e' he he' => ?_,
    hstored.size⟩, fun _ => hstored, fun _ => hall⟩
  · obtain ⟨hget, hnonneg⟩ := hall fd' event' hmem
    rw [hstored.getFd _ _ hget, Int.toNat_of_nonneg hnonneg]
  · have heq := (hall fd' e he).1.symm.trans (hall fd' e' he').1
    exact Option.some.inj heq

/-- A call for a negative fd is none of the group's business. -/
theorem Kept.negative (h : Kept s) (hneg : fd.toInt < 0) : Kept { s with fault := some fd } := by
  refine ⟨⟨fun fd' hmem => ?_, h.served.getFd, h.served.same, h.served.size⟩, nofun, nofun⟩
  obtain rfl := Option.some.inj hmem
  exact hneg

theorem Kept.step (h : Kept s) (hcovers : s.group.Covers fd) (hs' : s' ∈ fdEventStep s fd) :
    Kept s' := by
  have hs := fault_eq_none hs'
  have hstored := h.stored hs
  by_cases h₀ : 0 ≤ fd.toInt
  · obtain ⟨g', event, hget, hfound⟩ := getFdEvent_of_covers hstored h₀ hcovers
    rw [fdEventStep_ok hs hget] at hs'
    obtain rfl := Option.some.inj hs'
    exact h.found hs hfound
  · obtain ⟨e, hget⟩ := getFdEvent_error hstored fun hin => h₀ hin.1
    rw [fdEventStep_error hs hget] at hs'
    obtain rfl := Option.some.inj hs'
    exact h.negative (Int.not_le.mp h₀)

theorem Kept.covers (h : Kept s) (hs' : s' ∈ fdEventStep s fd) (hserved : Served s') :
    s.group.Covers fd := by
  have hs := fault_eq_none hs'
  have hstored := h.stored hs
  by_contra hnot
  obtain ⟨e, hget⟩ := getFdEvent_error hstored fun hin => hnot hin.2
  rw [fdEventStep_error hs hget] at hs'
  obtain rfl := Option.some.inj hs'
  -- the vector covers every negative fd
  have hneg : fd.toInt < 0 := hserved.inRange fd rfl
  have hsize := hstored.size
  exact hnot (.inl (by omega))

/-- **Every fd is given its event**, and always the same one, in exactly the runs on a group whose
size is not negative and whose fds are all covered when they are asked for. -/
theorem served_iff_meets (size : Int32) (fds : List Int32) :
    Always fdEventStep Served (FdEventRun.start size) fds ↔
      0 ≤ size.toInt ∧ Meets fdEventStep (fun s fd => s.group.Covers fd) (FdEventRun.start size)
        fds := by
  have hexact : 0 ≤ size.toInt → (Always fdEventStep Served (FdEventRun.start size) fds ↔
      Meets fdEventStep (fun s fd => s.group.Covers fd) (FdEventRun.start size) fds) :=
    fun h => always_iff_meets (fun _ hk => hk.served) (fun _ _ _ hk => hk.step)
      (fun _ _ _ hk => hk.covers) (kept_start h)
  constructor
  · intro h
    have hsize := size_nonneg_of_served h.head
    exact ⟨hsize, (hexact hsize).mp h⟩
  · rintro ⟨hsize, h⟩
    exact (hexact hsize).mpr h

/-- The group that all connections share, and an fd behind the half. -/
theorem not_served_far :
    ¬ ∀ (size : Int32) (fds : List Int32), 0 ≤ size.toInt → (∀ fd ∈ fds, 0 ≤ fd.toInt) →
      Always fdEventStep Served (FdEventRun.start size) fds := by
  intro h
  have hsize : 0 ≤ (128 : Int32).toInt := by decide
  have hnot : ¬ (FdEventRun.start 128).group.Covers 200 := by decide
  obtain ⟨e, hget⟩ := getFdEvent_error (stored_create hsize) fun hin => hnot hin.2
  have hfds : ∀ fd ∈ [(200 : Int32)], 0 ≤ fd.toInt := by
    intro fd hfd
    rw [List.mem_singleton.mp hfd]
    decide
  have hrun := (h 128 [200] hsize hfds).2 _ (fdEventStep_error rfl hget)
  exact absurd (hrun.inRange 200 rfl) (by decide)

end TinyRpc
