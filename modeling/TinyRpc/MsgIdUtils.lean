/-
TinyRpc/MsgIdUtils.lean

The message ids that a thread generates.

An id is drawn at random, and the next ones count on from it, digit by digit.  The id
after the last one, twenty nines, is drawn again; `t_max_msg_id_number` tells that this
one has come.  But each draw appends twenty nines to that string.  After the second draw
it has forty, no id is ever equal to it, and the loop that fills up with zeros as far as
its length leaves the id behind.

`inSequence_iff_meets`: the ids are what they should be in exactly the runs in which no
call comes after the second draw.
-/
import TinyRpc.Base.Bytes
import TinyRpc.Base.Decimal
import TinyRpc.Base.Runs
import Mathlib.Data.List.Chain
import Mathlib.Data.List.GetD

namespace TinyRpc

open Checked Bytes Decimal Runs

/-- `g_msg_id_length`. -/
def msgIdLength : Nat := 20

structure MsgIds where
  /-- `t_cur_msg_id_number` -/
  curMsgIdNumber : List UInt8
  /-- `t_max_msg_id_number` -/
  maxMsgIdNumber : List UInt8
  /-- how often `/dev/urandom` has been read -/
  reads : Nat
  deriving DecidableEq

/-- The loop that looks for a digit to count up, from the place before `i` down to the first;
`none` is its `-1`. -/
def lastNotNine (s : List UInt8) : Nat → Option Nat
  | 0 => none
  | i + 1 => if s.getD i 0 = nine then lastNotNine s i else some i

/-- The loop that writes `n` zeros from the place `j` on. -/
def zeroFill (s : List UInt8) (j : Nat) : Nat → Except Fault (List UInt8)
  | 0 => .ok s
  | n + 1 => check (j < s.length) .outOfRange () >>= fun _ => zeroFill (s.set j zero) (j + 1) n

/-- The digit that a random byte is made. -/
def randomDigit (b : UInt8) : UInt8 := digit (b.toNat % 10)

/-- `gen_msg_id`.  `draws` are the bytes that `read` gets, fewer than it asks for where it
fails. -/
def genMsgId (draws : Nat → List UInt8) (s : MsgIds) : Except Fault (MsgIds × List UInt8) :=
  if s.curMsgIdNumber = [] ∨ s.curMsgIdNumber = s.maxMsgIdNumber then
    let res := draws s.reads
    let s := { s with reads := s.reads + 1 }
    if res.length ≠ msgIdLength then .ok (s, [])
    else
      let res := res.map randomDigit
      -- the nines come behind those of the draw before
      .ok ({ s with
        curMsgIdNumber := res
        maxMsgIdNumber := s.maxMsgIdNumber ++ List.replicate msgIdLength nine }, res)
  else
    match lastNotNine s.curMsgIdNumber s.curMsgIdNumber.length with
    | none => .ok (s, s.curMsgIdNumber)
    | some i => do
        let cur := s.curMsgIdNumber.set i (s.curMsgIdNumber.getD i 0 + 1)
        let cur ← zeroFill cur (i + 1) (s.maxMsgIdNumber.length - (i + 1))
        .ok ({ s with curMsgIdNumber := cur }, cur)

/-! ### The calls of a thread -/

structure MsgIdCall where
  /-- the bytes that the call has drawn, if it has -/
  drew : Option (List UInt8)
  id : List UInt8
  deriving DecidableEq

structure MsgIdRun where
  state : MsgIds
  /-- the calls that have returned, the last one first -/
  calls : List MsgIdCall
  /-- a call has left the string -/
  faulted : Bool
  deriving DecidableEq

/-- A thread before its first call. -/
def MsgIdRun.start : MsgIdRun := ⟨⟨[], [], 0⟩, [], false⟩

def msgIdStep (draws : Nat → List UInt8) : Step MsgIdRun Unit := fun s _ =>
  if s.faulted then none
  else
    match genMsgId draws s.state with
    | .error _ => some { s with faulted := true }
    | .ok (state, id) =>
        let drew := if state.reads = s.state.reads then none else some (draws s.state.reads)
        some { s with state := state, calls := ⟨drew, id⟩ :: s.calls }

/-- Twenty decimal digits. -/
def IsMsgId (id : List UInt8) : Prop := id.length = msgIdLength ∧ ∀ c ∈ id, IsDigit c

/-- The call `b` after the call `a`: it returns the next number, or, after twenty nines, draws a
new one. -/
def Follows (b a : MsgIdCall) : Prop :=
  if a.id = List.replicate msgIdLength nine then
    ∃ bytes, b.drew = some bytes ∧ b.id = bytes.map randomDigit
  else b.drew = none ∧ value b.id = value a.id + 1

/-- The ids are as they should be: no call has left the string, each id has twenty digits and
follows the one before, and those from one draw to the next are different. -/
structure InSequence (s : MsgIdRun) : Prop where
  inRange : s.faulted = false
  isMsgId : ∀ call ∈ s.calls, IsMsgId call.id
  follows : s.calls.IsChain Follows
  distinct : ∀ l b l' a l'', s.calls = l ++ b :: (l' ++ a :: l'') →
    (∀ call ∈ b :: l', call.drew = none) → b.id ≠ a.id

/-- No call comes after the second draw. -/
def DrawnOnce (s : MsgIdRun) (_ : Unit) : Prop := s.state.reads < 2

instance (s : MsgIdRun) (call : Unit) : Decidable (DrawnOnce s call) :=
  inferInstanceAs (Decidable (s.state.reads < 2))

/-! ### The two loops -/

/-- The loop looks at no place but those below `n`. -/
theorem lastNotNine_append (s t : List UInt8) {n : Nat} (h : n ≤ s.length) :
    lastNotNine (s ++ t) n = lastNotNine s n := by
  induction n with
  | zero => rfl
  | succ n ih =>
      rw [lastNotNine, lastNotNine, List.getD_append _ _ _ _ h, ih (Nat.le_of_succ_le h)]

theorem lastNotNine_concat (s : List UInt8) (c : UInt8) :
    lastNotNine (s ++ [c]) (s ++ [c]).length =
      if c = nine then lastNotNine s s.length else some s.length := by
  have hlast : (s ++ [c]).getD s.length 0 = c := by
    rw [List.getD_append_right _ _ _ _ le_rfl, Nat.sub_self]
    rfl
  rw [List.length_append, List.length_singleton, lastNotNine, hlast,
    lastNotNine_append s [c] le_rfl]

theorem lastNotNine_nines (k : Nat) :
    lastNotNine (List.replicate k nine) (List.replicate k nine).length = none := by
  induction k with
  | zero => rfl
  | succ k ih => rw [List.replicate_succ', lastNotNine_concat, if_pos rfl, ih]

/-- The loop comes to the last digit that is no nine. -/
theorem lastNotNine_carry (a : List UInt8) {c : UInt8} (hc : c ≠ nine) (k : Nat) :
    lastNotNine (a ++ c :: List.replicate k nine) (a ++ c :: List.replicate k nine).length =
      some a.length := by
  induction k with
  | zero => exact (lastNotNine_concat a c).trans (if_neg hc)
  | succ k ih =>
      have hsplit : a ++ c :: List.replicate (k + 1) nine =
          (a ++ c :: List.replicate k nine) ++ [nine] := by
        rw [List.replicate_succ', List.append_assoc, List.cons_append]
      rw [hsplit, lastNotNine_concat, if_pos rfl, ih]

/-- Within the string, the zeros take the place of what is there. -/
theorem zeroFill_eq (a b : List UInt8) :
    zeroFill (a ++ b) a.length b.length = .ok (a ++ List.replicate b.length zero) := by
  induction b generalizing a with
  | nil => rfl
  | cons c b ih =>
      have hlt : a.length < (a ++ c :: b).length := by
        rw [List.length_append, List.length_cons]
        omega
      have hset : (a ++ c :: b).set a.length zero = a ++ [zero] ++ b := by
        rw [List.set_append_right _ _ le_rfl, Nat.sub_self, List.set_cons_zero,
          List.append_assoc, List.singleton_append]
      have hrest := ih (a ++ [zero])
      rw [List.length_append, List.length_singleton] at hrest
      rw [List.length_cons, zeroFill, check_of_pos hlt, ok_bind, hset, hrest, List.append_assoc,
        List.singleton_append, List.replicate_succ]

/-- More zeros than the string has room for leave it. -/
theorem zeroFill_error {s : List UInt8} {j n : Nat} (h : s.length < j + n) (hn : 0 < n) :
    zeroFill s j n = .error .outOfRange := by
  induction n generalizing s j with
  | zero => omega
  | succ n ih =>
      rw [zeroFill]
      by_cases hj : j < s.length
      · rw [check_of_pos hj, ok_bind]
        exact ih (by rw [List.length_set]; omega) (by omega)
      · rw [check, if_neg hj, error_bind]

/-! ### The calls -/

section Calls

variable {draws : Nat → List UInt8} {s : MsgIds}

theorem genMsgId_draw (h : s.curMsgIdNumber = [] ∨ s.curMsgIdNumber = s.maxMsgIdNumber)
    (hdraw : (draws s.reads).length = msgIdLength) :
    genMsgId draws s = .ok
      (⟨(draws s.reads).map randomDigit, s.maxMsgIdNumber ++ List.replicate msgIdLength nine,
        s.reads + 1⟩, (draws s.reads).map randomDigit) := by
  unfold genMsgId
  rw [if_pos h]
  exact if_neg (not_not_intro hdraw)

theorem genMsgId_nines {k : Nat} (h : s.curMsgIdNumber = List.replicate k nine)
    (hne : ¬ (s.curMsgIdNumber = [] ∨ s.curMsgIdNumber = s.maxMsgIdNumber)) :
    genMsgId draws s = .ok (s, s.curMsgIdNumber) := by
  unfold genMsgId
  rw [if_neg hne, h, lastNotNine_nines]

/-- The digit that is no nine is counted up, and as many zeros come behind it as the other string
says. -/
theorem genMsgId_carry {a : List UInt8} {c : UInt8} {k : Nat}
    (h : s.curMsgIdNumber = a ++ c :: List.replicate k nine) (hc : c ≠ nine)
    (hne : ¬ (s.curMsgIdNumber = [] ∨ s.curMsgIdNumber = s.maxMsgIdNumber)) :
    genMsgId draws s =
      (zeroFill (a ++ (c + 1) :: List.replicate k nine) (a.length + 1)
        (s.maxMsgIdNumber.length - (a.length + 1))) >>= fun cur =>
          .ok ({ s with curMsgIdNumber := cur }, cur) := by
  have hget : (a ++ c :: List.replicate k nine).getD a.length 0 = c := by
    rw [List.getD_append_right _ _ _ _ le_rfl, Nat.sub_self]
    rfl
  have hset : (a ++ c :: List.replicate k nine).set a.length (c + 1) =
      a ++ (c + 1) :: List.replicate k nine := by
    rw [List.set_append_right _ _ le_rfl, Nat.sub_self, List.set_cons_zero]
  unfold genMsgId
  rw [if_neg hne, h, lastNotNine_carry a hc k]
  dsimp only
  rw [hget, hset]

/-- Of strings of one length, the zeros fill up the id. -/
theorem genMsgId_next {a : List UInt8} {c : UInt8} {k : Nat}
    (h : s.curMsgIdNumber = a ++ c :: List.replicate k nine) (hc : c ≠ nine)
    (hne : ¬ (s.curMsgIdNumber = [] ∨ s.curMsgIdNumber = s.maxMsgIdNumber))
    (hlen : s.maxMsgIdNumber.length = s.curMsgIdNumber.length) :
    genMsgId draws s = .ok
      ({ s with curMsgIdNumber := a ++ (c + 1) :: List.replicate k zero },
        a ++ (c + 1) :: List.replicate k zero) := by
  have hfill := zeroFill_eq (a ++ [c + 1]) (List.replicate k nine)
  rw [List.length_append, List.length_singleton, List.length_replicate, List.append_assoc,
    List.singleton_append, List.append_assoc, List.singleton_append] at hfill
  have hk : s.maxMsgIdNumber.length - (a.length + 1) = k := by
    rw [hlen, h, List.length_append, List.length_cons, List.length_replicate]
    omega
  rw [genMsgId_carry h hc hne, hk, hfill, ok_bind]

/-- With more nines in the other string, the zeros leave the id. -/
theorem genMsgId_error {a : List UInt8} {c : UInt8} {k : Nat}
    (h : s.curMsgIdNumber = a ++ c :: List.replicate k nine) (hc : c ≠ nine)
    (hne : ¬ (s.curMsgIdNumber = [] ∨ s.curMsgIdNumber = s.maxMsgIdNumber))
    (hlen : s.curMsgIdNumber.length < s.maxMsgIdNumber.length) :
    genMsgId draws s = .error .outOfRange := by
  rw [h, List.length_append, List.length_cons, List.length_replicate] at hlen
  have hfill : zeroFill (a ++ (c + 1) :: List.replicate k nine) (a.length + 1)
      (s.maxMsgIdNumber.length - (a.length + 1)) = .error .outOfRange := by
    apply zeroFill_error
    · rw [List.length_append, List.length_cons, List.length_replicate]
      omega
    · omega
  rw [genMsgId_carry h hc hne, hfill, error_bind]

end Calls

/-! ### The ids -/

theorem isMsgId_draw {bytes : List UInt8} (h : bytes.length = msgIdLength) :
    IsMsgId (bytes.map randomDigit) := by
  refine ⟨by rw [List.length_map, h], fun c hc => ?_⟩
  obtain ⟨b, -, rfl⟩ := List.mem_map.mp hc
  exact isDigit_digit (Nat.mod_lt _ (by decide))

/-- The next number has as many digits. -/
theorem isMsgId_next {a : List UInt8} {c : UInt8} {k : Nat}
    (h : IsMsgId (a ++ c :: List.replicate k nine)) (hc : c ≠ nine) :
    IsMsgId (a ++ (c + 1) :: List.replicate k zero) := by
  obtain ⟨hlen, hdigits⟩ := h
  refine ⟨?_, fun d hd => ?_⟩
  · rw [List.length_append, List.length_cons, List.length_replicate] at hlen ⊢
    exact hlen
  · rcases List.mem_append.mp hd with ha | hrest
    · exact hdigits d (List.mem_append_left _ ha)
    · rcases List.mem_cons.mp hrest with rfl | hzero
      · exact ((hdigits c (List.mem_append_right _ List.mem_cons_self)).succ hc).1
      · rw [List.eq_of_mem_replicate hzero]
        decide

theorem Follows.value_eq {b a : MsgIdCall} (h : Follows b a) (hb : b.drew = none) :
    value b.id = value a.id + 1 := by
  unfold Follows at h
  split at h
  · obtain ⟨bytes, hdrew, -⟩ := h
    exact absurd (hb.symm.trans hdrew) nofun
  · exact h.2

/-- From one draw to the next the numbers go up. -/
theorem value_lt_of_chain {l l' : List MsgIdCall} {b a : MsgIdCall}
    (h : (b :: (l ++ a :: l')).IsChain Follows) (hdrew : ∀ call ∈ b :: l, call.drew = none) :
    value a.id < value b.id := by
  induction l generalizing b with
  | nil =>
      rw [List.nil_append, List.isChain_cons_cons] at h
      rw [h.1.value_eq (hdrew b List.mem_cons_self)]
      exact Nat.lt_succ_self _
  | cons c l ih =>
      rw [List.cons_append, List.isChain_cons_cons] at h
      have hlt := ih h.2 fun call hmem => hdrew call (List.mem_cons_of_mem _ hmem)
      rw [h.1.value_eq (hdrew b List.mem_cons_self)]
      exact Nat.lt_succ_of_lt hlt

theorem distinct_of_chain {calls : List MsgIdCall} (h : calls.IsChain Follows)
    (l : List MsgIdCall) (b : MsgIdCall) (l' : List MsgIdCall) (a : MsgIdCall)
    (l'' : List MsgIdCall) (hcalls : calls = l ++ b :: (l' ++ a :: l''))
    (hdrew : ∀ call ∈ b :: l', call.drew = none) : b.id ≠ a.id := by
  rw [hcalls] at h
  have hlt := value_lt_of_chain h.right_of_append hdrew
  intro heq
  rw [heq] at hlt
  exact absurd hlt (Nat.lt_irrefl _)

/-- One more call. -/
theorem InSequence.cons {s : MsgIdRun} {state : MsgIds} {call : MsgIdCall} (h : InSequence s)
    (hid : IsMsgId call.id) (hfollows : ∀ last ∈ s.calls.head?, Follows call last) :
    InSequence { s with state := state, calls := call :: s.calls } := by
  have hchain : (call :: s.calls).IsChain Follows := List.isChain_cons.mpr ⟨hfollows, h.follows⟩
  refine ⟨h.inRange, fun c hc => ?_, hchain, distinct_of_chain hchain⟩
  rcases List.mem_cons.mp hc with rfl | hmem
  · exact hid
  · exact h.isMsgId c hmem

/-! ### Runs -/

variable {draws : Nat → List UInt8} {s s' : MsgIdRun}

theorem msgIdStep_ok {state : MsgIds} {id : List UInt8} (hs : s.faulted = false)
    (h : genMsgId draws s.state = .ok (state, id)) :
    msgIdStep draws s () = some
      { s with
        state := state
        calls := ⟨if state.reads = s.state.reads then none else some (draws s.state.reads), id⟩ ::
          s.calls } := by
  unfold msgIdStep
  rw [hs, h]
  rfl

theorem msgIdStep_error {e : Fault} (hs : s.faulted = false)
    (h : genMsgId draws s.state = .error e) :
    msgIdStep draws s () = some { s with faulted := true } := by
  unfold msgIdStep
  rw [hs, h]
  rfl

/-- What holds once an id has been drawn: the other string has twenty nines for every draw. -/
structure Drawn (s : MsgIdRun) : Prop where
  inSequence : InSequence s
  drawn : 0 < s.state.reads
  isMsgId : IsMsgId s.state.curMsgIdNumber
  nines : s.state.maxMsgIdNumber = List.replicate (s.state.reads * msgIdLength) nine
  last : ∃ drew calls, s.calls = ⟨drew, s.state.curMsgIdNumber⟩ :: calls

theorem Drawn.cur_ne_nil (h : Drawn s) : s.state.curMsgIdNumber ≠ [] := by
  intro hnil
  have hlen := h.isMsgId.1
  rw [hnil] at hlen
  exact absurd hlen (by decide)

theorem Drawn.length_max (h : Drawn s) :
    s.state.maxMsgIdNumber.length = s.state.reads * msgIdLength := by
  rw [h.nines, List.length_replicate]

theorem Drawn.last_id (h : Drawn s) {last : MsgIdCall} (hmem : last ∈ s.calls.head?) :
    last.id = s.state.curMsgIdNumber := by
  obtain ⟨drew, calls, hcalls⟩ := h.last
  rw [hcalls] at hmem
  obtain rfl := Option.some.inj hmem
  rfl

/-- A draw, at first or after twenty nines. -/
theorem drawn_of_draw (h : InSequence s)
    (hred : s.state.curMsgIdNumber = [] ∨ s.state.curMsgIdNumber = s.state.maxMsgIdNumber)
    (hmax : s.state.maxMsgIdNumber = List.replicate (s.state.reads * msgIdLength) nine)
    (hlast : ∀ last ∈ s.calls.head?, last.id = List.replicate msgIdLength nine)
    (hdraw : (draws s.state.reads).length = msgIdLength) (hs' : s' ∈ msgIdStep draws s ()) :
    Drawn s' := by
  rw [msgIdStep_ok h.inRange (genMsgId_draw hred hdraw)] at hs'
  obtain rfl := Option.some.inj hs'
  have hreads : s.state.reads + 1 ≠ s.state.reads := Nat.succ_ne_self _
  have hid := isMsgId_draw hdraw
  dsimp only
  rw [if_neg hreads]
  refine ⟨h.cons hid fun last hmem => ?_, Nat.succ_pos _, hid, ?_, _, _, rfl⟩
  · unfold Follows
    rw [if_pos (hlast last hmem)]
    exact ⟨_, rfl, rfl⟩
  · show s.state.maxMsgIdNumber ++ _ = List.replicate ((s.state.reads + 1) * msgIdLength) nine
    rw [hmax, List.replicate_append_replicate, Nat.succ_mul]

/-- A call that counts on, after one draw. -/
theorem Drawn.next (h : Drawn s) (hone : s.state.reads = 1)
    (hne : s.state.curMsgIdNumber ≠ s.state.maxMsgIdNumber) (hs' : s' ∈ msgIdStep draws s ()) :
    Drawn s' := by
  have hlen := h.length_max
  have hmax := h.nines
  rw [hone, Nat.one_mul] at hlen hmax
  rcases nines_or_last s.state.curMsgIdNumber with hnines | ⟨a, c, k, hcur, hc⟩
  · rw [h.isMsgId.1, ← hmax] at hnines
    exact absurd hnines hne
  · have hred := not_or.mpr ⟨h.cur_ne_nil, hne⟩
    have hid := h.isMsgId
    rw [hcur] at hid
    have hnext := isMsgId_next hid hc
    rw [msgIdStep_ok h.inSequence.inRange
      (genMsgId_next hcur hc hred (hlen.trans h.isMsgId.1.symm))] at hs'
    obtain rfl := Option.some.inj hs'
    dsimp only
    rw [if_pos rfl]
    refine ⟨h.inSequence.cons hnext fun last hmem => ?_, h.drawn, hnext, h.nines, _, _, rfl⟩
    unfold Follows
    rw [h.last_id hmem, if_neg (hmax ▸ hne), hcur]
    exact ⟨rfl, value_carry a (hid.2 c (List.mem_append_right _ List.mem_cons_self)) hc k⟩

theorem Drawn.step (h : Drawn s) (honce : s.state.reads < 2)
    (hdraw : (draws s.state.reads).length = msgIdLength) (hs' : s' ∈ msgIdStep draws s ()) :
    Drawn s' := by
  have hone : s.state.reads = 1 := Nat.le_antisymm (Nat.le_of_lt_succ honce) h.drawn
  by_cases heq : s.state.curMsgIdNumber = s.state.maxMsgIdNumber
  · refine drawn_of_draw h.inSequence (.inr heq) h.nines (fun last hmem => ?_) hdraw hs'
    rw [h.last_id hmem, heq, h.nines, hone, Nat.one_mul]
  · exact h.next hone heq hs'

/-- After the second draw the next call is wrong: it leaves the string, or returns the nines
again. -/
theorem Drawn.drawnOnce (h : Drawn s) (hs' : s' ∈ msgIdStep draws s ()) (hseq : InSequence s') :
    s.state.reads < 2 := by
  by_contra htwice
  have hlen := h.length_max
  have hcur := h.isMsgId.1
  have hlonger : s.state.curMsgIdNumber.length < s.state.maxMsgIdNumber.length := by
    rw [hlen, hcur, msgIdLength]
    omega
  have hne : s.state.curMsgIdNumber ≠ s.state.maxMsgIdNumber := fun heq =>
    absurd (congrArg List.length heq) (Nat.ne_of_lt hlonger)
  have hred := not_or.mpr ⟨h.cur_ne_nil, hne⟩
  rcases nines_or_last s.state.curMsgIdNumber with hnines | ⟨a, c, k, hcarry, hc⟩
  · -- twenty nines again, and no draw
    rw [msgIdStep_ok h.inSequence.inRange (genMsgId_nines hnines hred)] at hs'
    obtain rfl := Option.some.inj hs'
    obtain ⟨drew, calls, hcalls⟩ := h.last
    have hchain := hseq.follows
    dsimp only at hchain
    rw [if_pos rfl, hcalls, List.isChain_cons_cons] at hchain
    have hfollows := hchain.1
    unfold Follows at hfollows
    rw [hcur] at hnines
    rw [if_pos hnines] at hfollows
    obtain ⟨bytes, hdrew, -⟩ := hfollows
    exact nomatch hdrew
  · rw [msgIdStep_error h.inSequence.inRange (genMsgId_error hcarry hc hred hlonger)] at hs'
    obtain rfl := Option.some.inj hs'
    exact nomatch hseq.inRange

theorem inSequence_start : InSequence MsgIdRun.start :=
  ⟨rfl, nofun, .nil, fun _ _ _ _ _ h => absurd h (by simp [MsgIdRun.start])⟩

/-- **The ids are in sequence** in exactly the runs in which no call comes after the second
draw. -/
theorem inSequence_iff_meets (hdraws : ∀ k, (draws k).length = msgIdLength) (n : Nat) :
    Always (msgIdStep draws) InSequence MsgIdRun.start (List.replicate n ()) ↔
      Meets (msgIdStep draws) DrawnOnce MsgIdRun.start (List.replicate n ()) := by
  refine always_iff_meets (I := fun s => s = MsgIdRun.start ∨ Drawn s) ?_ ?_ ?_ (.inl rfl)
  · rintro s (rfl | h)
    · exact inSequence_start
    · exact h.inSequence
  · rintro s call s' (rfl | h) honce hs'
    · exact .inr (drawn_of_draw inSequence_start (.inl rfl) rfl nofun (hdraws 0) hs')
    · exact .inr (h.step honce (hdraws _) hs')
  · rintro s call s' (rfl | h) hs' hseq
    · exact Nat.zero_lt_two
    · exact h.drawnOnce hs' hseq

/-- An id of zeros, and two more. -/
theorem inSequence_iff_meets_zeros :
    Always (msgIdStep fun _ => List.replicate 20 0) InSequence MsgIdRun.start
        (List.replicate 3 ()) ↔
      Meets (msgIdStep fun _ => List.replicate 20 0) DrawnOnce MsgIdRun.start
        (List.replicate 3 ()) :=
  inSequence_iff_meets (fun _ => List.length_replicate) 3

/-- Twenty nines are drawn, and then zeros. -/
def ninesThenZeros : Nat → List UInt8
  | 0 => List.replicate 20 9
  | _ + 1 => List.replicate 20 0

/-- The third call leaves the id. -/
theorem not_inSequence_redrawn :
    ¬ ∀ draws : Nat → List UInt8, (∀ k, (draws k).length = msgIdLength) → ∀ n,
      Always (msgIdStep draws) InSequence MsgIdRun.start (List.replicate n ()) := by
  intro h
  have hdraws : ∀ k, (ninesThenZeros k).length = msgIdLength
    | 0 => rfl
    | _ + 1 => rfl
  have hrun : ∃ s, after (msgIdStep ninesThenZeros) MsgIdRun.start (List.replicate 3 ()) = some s ∧
      s.faulted = true := ⟨_, rfl, rfl⟩
  obtain ⟨s, hs, hfaulted⟩ := hrun
  exact absurd (hfaulted.symm.trans ((h _ hdraws 3).after hs).inRange) (by decide)

end TinyRpc
