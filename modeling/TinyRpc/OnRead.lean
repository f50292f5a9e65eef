/-
TinyRpc/OnRead.lean

`TcpConnection::on_read`: read until the kernel has nothing left or the peer has
closed, and then hand the buffer to `excute`.

The loop goes on after a read that returned as many bytes as it asked for, and
that is the read `adjust_write_index` refuses: it will not move the write index
to the end of the vector.  The bytes stay outside the readable region, the next
read overwrites them, and since the index never gets to the end, the vector is
never grown either.

`readLoop_spec` says what a call keeps; `on_read_keeps_iff` says exactly which
calls keep everything and hand it on.
-/
import TinyRpc.TcpConnection
import TinyRpc.DecodeConsume

namespace TinyRpc

open Checked Bytes TcpBuffer

/-- What a call of `::read` returns. -/
inductive ReadResult
  /-- a positive number of bytes -/
  | data (bytes : List UInt8)
  /-- `0`: the peer has closed -/
  | eof
  /-- `-1` with `EAGAIN` -/
  | again
  /-- `-1` with another `errno` -/
  | error
  deriving DecidableEq

/-- The bytes a call of `::read` returned. -/
def ReadResult.bytes : ReadResult → List UInt8
  | .data bytes => bytes
  | _ => []

/-- All bytes the calls returned, in order. -/
def received (results : List ReadResult) : List UInt8 := results.flatMap ReadResult.bytes

/-- How the loop is left: by `is_read_all` or by `is_close`. -/
inductive ReadExit
  | readAll
  | close
  deriving DecidableEq

/-! ### The loop -/

/-- A full buffer is given twice its size.  The size is computed as a `size_t` and passed
on as an `int`. -/
def growIfFull (b : TcpBuffer) : Except Fault TcpBuffer :=
  if b.canWriteBytesNum = 0 then b.resizeBuffer (Int32.ofNat (2 * b.size)).toInt else .ok b

/-- The loop of `on_read`, on the results its calls of `::read` will get.  `none` means
that it has used them up and calls `::read` again. -/
def readLoop : List ReadResult → TcpBuffer → Except Fault (Option (TcpBuffer × ReadExit))
  | [], _ => .ok none
  | result :: results, inBuffer => do
      let b ← growIfFull inBuffer
      match result with
      | .data bytes =>
          -- a read that got all it asked for may have left something behind
          if bytes.length < b.canWriteBytesNum then .ok (some (b.readIn bytes, .readAll))
          else readLoop results (b.readIn bytes)
      | .eof => .ok (some (b, .close))
      | .again => .ok (some (b, .readAll))
      | .error => readLoop results b

/-- `on_read`: the connection after it, and the bytes that `excute` gets, if it is
called. -/
def onRead {κ : Type} (c : TcpConnection κ) (results : List ReadResult) :
    Except Fault (Option (TcpConnection κ × Option (List UInt8))) :=
  if c.state ≠ .connected then .ok (some (c, none))
  else do
    match ← readLoop results c.inBuffer with
    | none => .ok none
    -- the peer has closed: what is readable is not handed on any more
    | some (b, .close) => .ok (some ({ c with inBuffer := b }.clear, none))
    | some (b, .readAll) => .ok (some ({ c with inBuffer := b }, some b.readable))

/-- The results one call of `on_read` can get: each read returns between one byte and the
number it asked for, and the last one makes the loop end. -/
inductive ReadScript : TcpBuffer → List ReadResult → Prop
  | eof {b : TcpBuffer} : ReadScript b [.eof]
  | again {b : TcpBuffer} : ReadScript b [.again]
  | short {b b₁ : TcpBuffer} {bytes : List UInt8} :
      growIfFull b = .ok b₁ → 0 < bytes.length → bytes.length < b₁.canWriteBytesNum →
      ReadScript b [.data bytes]
  | full {b b₁ : TcpBuffer} {bytes : List UInt8} {results : List ReadResult} :
      growIfFull b = .ok b₁ → 0 < bytes.length → bytes.length = b₁.canWriteBytesNum →
      ReadScript (b₁.readIn bytes) results → ReadScript b (.data bytes :: results)
  | error {b b₁ : TcpBuffer} {results : List ReadResult} :
      growIfFull b = .ok b₁ → ReadScript b₁ results → ReadScript b (.error :: results)

/-! ### What a call keeps -/

/-- The bytes of the reads that returned fewer than `n`. -/
def kept (n : Nat) (results : List ReadResult) : List UInt8 :=
  results.flatMap fun r => if r.bytes.length < n then r.bytes else []

/-- No read returned `n` bytes or more. -/
def AllShort (n : Nat) (results : List ReadResult) : Prop :=
  ∀ bytes, .data bytes ∈ results → bytes.length < n

variable {b : TcpBuffer} {results : List ReadResult} {n : Nat}

theorem kept_cons_short {r : ReadResult} (h : r.bytes.length < n) :
    kept n (r :: results) = r.bytes ++ kept n results := by
  rw [kept, List.flatMap_cons, if_pos h, ← kept]

theorem kept_cons_full {r : ReadResult} (h : n ≤ r.bytes.length) :
    kept n (r :: results) = kept n results := by
  rw [kept, List.flatMap_cons, if_neg (Nat.not_lt.mpr h), ← kept, List.nil_append]

/-- A call that returned no bytes leaves none. -/
theorem kept_cons_of_bytes_eq_nil {r : ReadResult} (h : r.bytes = []) :
    kept n (r :: results) = kept n results := by
  rw [kept, List.flatMap_cons, h, ite_self, ← kept, List.nil_append]

theorem received_cons (r : ReadResult) (results : List ReadResult) :
    received (r :: results) = r.bytes ++ received results := List.flatMap_cons

theorem length_kept_le (n : Nat) (results : List ReadResult) :
    (kept n results).length ≤ (received results).length := by
  induction results with
  | nil => exact le_rfl
  | cons r results ih =>
      rw [received_cons, List.length_append]
      by_cases h : r.bytes.length < n
      · rw [kept_cons_short h, List.length_append]
        omega
      · rw [kept_cons_full (Nat.not_lt.mp h)]
        omega

/-- Everything is kept exactly when all reads are short. -/
theorem kept_eq_received_iff (hn : 0 < n) :
    kept n results = received results ↔ AllShort n results := by
  induction results with
  | nil => exact ⟨fun _ bytes h => absurd h List.not_mem_nil, fun _ => rfl⟩
  | cons r results ih =>
      rw [received_cons]
      by_cases h : r.bytes.length < n
      · rw [kept_cons_short h, List.append_cancel_left_eq, ih]
        constructor
        · intro hall bytes hmem
          rcases List.mem_cons.mp hmem with rfl | hmem
          · exact h
          · exact hall bytes hmem
        · exact fun hall bytes hmem => hall bytes (List.mem_cons_of_mem r hmem)
      · -- a full read is lost, and it had at least one byte
        have hle := length_kept_le n results
        rw [kept_cons_full (Nat.not_lt.mp h)]
        constructor
        · intro heq
          have hlen := congrArg List.length heq
          rw [List.length_append] at hlen
          omega
        · intro hall
          cases r with
          | data bytes => exact absurd (hall bytes List.mem_cons_self) h
          | eof => exact absurd hn h
          | again => exact absurd hn h
          | error => exact absurd hn h

theorem growIfFull_of_spare (h : b.writeIndex < b.size) : growIfFull b = .ok b := by
  apply if_neg
  rw [canWriteBytesNum]
  omega

theorem eq_of_growIfFull {b₁ : TcpBuffer} (h : b.writeIndex < b.size)
    (hgrow : growIfFull b = .ok b₁) : b = b₁ :=
  Except.ok.inj ((growIfFull_of_spare h).symm.trans hgrow)

/-! ### One call -/

/-- The loop, started from `b` on `results`, is left in `b'` by `exit`: the bytes of the
short reads have become readable, the others have not, and a spare byte is left. -/
structure LoopKeeps (b : TcpBuffer) (results : List ReadResult) (b' : TcpBuffer)
    (exit : ReadExit) : Prop where
  loop : readLoop results b = .ok (some (b', exit))
  readable : b'.readable = b.readable ++ kept b.canWriteBytesNum results
  spare : b'.writeIndex < b'.size
  exit_eq_close : exit = .close ↔ .eof ∈ results
  kept_eq_nil : exit = .close → kept b.canWriteBytesNum results = []

theorem LoopKeeps.eof (hspare : b.writeIndex < b.size) : LoopKeeps b [.eof] b .close := by
  have hk : kept b.canWriteBytesNum [.eof] = [] := kept_cons_of_bytes_eq_nil rfl
  refine ⟨?_, ?_, hspare, by simp, fun _ => hk⟩
  · rw [readLoop, growIfFull_of_spare hspare]
    rfl
  · rw [hk, List.append_nil]

theorem LoopKeeps.again (hspare : b.writeIndex < b.size) : LoopKeeps b [.again] b .readAll := by
  have hk : kept b.canWriteBytesNum [.again] = [] := kept_cons_of_bytes_eq_nil rfl
  refine ⟨?_, ?_, hspare, by simp, nofun⟩
  · rw [readLoop, growIfFull_of_spare hspare]
    rfl
  · rw [hk, List.append_nil]

/-- A short read becomes readable, and ends the loop. -/
theorem LoopKeeps.short {bytes : List UInt8} (hspare : b.writeIndex < b.size)
    (h : bytes.length < b.canWriteBytesNum) :
    LoopKeeps b [.data bytes] (b.readIn bytes) .readAll := by
  have hk : kept b.canWriteBytesNum [.data bytes] = bytes ++ [] := kept_cons_short h
  refine ⟨?_, ?_, readIn_spare hspare, by simp, nofun⟩
  · rw [readLoop, growIfFull_of_spare hspare, ok_bind]
    exact if_pos h
  · rw [hk, List.append_nil]
    apply readable_readIn
    rw [canWriteBytesNum] at h
    omega

/-- A full read leaves the readable bytes as they are, and the loop goes on. -/
theorem LoopKeeps.full {bytes : List UInt8} {b' : TcpBuffer} {exit : ReadExit}
    (hspare : b.writeIndex < b.size) (h : bytes.length = b.canWriteBytesNum)
    (hrest : LoopKeeps (b.readIn bytes) results b' exit) :
    LoopKeeps b (.data bytes :: results) b' exit := by
  -- the read fills the vector to its last byte, so the write index stays
  have hfull : b.readIn bytes = b.fill bytes := by
    apply readIn_full
    rw [canWriteBytesNum] at h
    omega
  have hroom : (b.fill bytes).canWriteBytesNum = b.canWriteBytesNum := by
    rw [canWriteBytesNum, size_fill]
    rfl
  have hk : kept b.canWriteBytesNum (.data bytes :: results)
      = kept b.canWriteBytesNum results := kept_cons_full h.ge
  obtain ⟨hloop, hread, hspare', hexit, hclose⟩ := hrest
  rw [hfull, hroom] at hclose
  refine ⟨?_, ?_, hspare', by simpa using hexit, hk ▸ hclose⟩
  · rw [readLoop, growIfFull_of_spare hspare, ok_bind]
    exact (if_neg (Nat.not_lt.mpr h.ge)).trans hloop
  · rw [hread, hk, hfull, readable_fill, hroom]

theorem LoopKeeps.error {b' : TcpBuffer} {exit : ReadExit} (hspare : b.writeIndex < b.size)
    (hrest : LoopKeeps b results b' exit) : LoopKeeps b (.error :: results) b' exit := by
  have hk : kept b.canWriteBytesNum (.error :: results)
      = kept b.canWriteBytesNum results := kept_cons_of_bytes_eq_nil rfl
  obtain ⟨hloop, hread, hspare', hexit, hclose⟩ := hrest
  refine ⟨?_, ?_, hspare', by simpa using hexit, hk ▸ hclose⟩
  · rw [readLoop, growIfFull_of_spare hspare, ok_bind]
    exact hloop
  · rw [hread, hk]

/-- **One call** from a buffer with a spare byte. -/
theorem readLoop_spec (hspare : b.writeIndex < b.size) (h : ReadScript b results) :
    ∃ b' exit, LoopKeeps b results b' exit := by
  induction h with
  | @eof b => exact ⟨b, .close, .eof hspare⟩
  | @again b => exact ⟨b, .readAll, .again hspare⟩
  | @short b b₁ bytes hgrow hpos hlt =>
      obtain rfl := eq_of_growIfFull hspare hgrow
      exact ⟨b.readIn bytes, .readAll, .short hspare hlt⟩
  | @full b b₁ bytes results hgrow hpos heq _ ih =>
      obtain rfl := eq_of_growIfFull hspare hgrow
      obtain ⟨b', exit, hrest⟩ := ih (readIn_spare hspare)
      exact ⟨b', exit, hrest.full hspare heq⟩
  | @error b b₁ results hgrow _ ih =>
      obtain rfl := eq_of_growIfFull hspare hgrow
      obtain ⟨b', exit, hrest⟩ := ih hspare
      exact ⟨b', exit, hrest.error hspare⟩

/-! ### The buffers of a connection, and what they keep -/

/-- The input buffers that a connection can come to: a new one, and one from which
`decode` has returned after a call of `on_read`. -/
inductive InBuffer : TcpBuffer → Prop
  | start {n : Nat} (h : n < 2147483648) : 0 < n → InBuffer (TcpBuffer.ofSize n h)
  | read {b b₁ b₂ : TcpBuffer} {results : List ReadResult} {out : List ProtobufProtocol} :
      InBuffer b → ReadScript b results → readLoop results b = .ok (some (b₁, .readAll)) →
      Loop.Returns decodePass b₁ b₂ out → InBuffer b₂

/-- `decode` keeps a spare byte. -/
theorem spare_of_returns {b b' : TcpBuffer} {out : List ProtobufProtocol}
    (hspare : b.writeIndex < b.size) (h : Loop.Returns decodePass b b' out) :
    b'.writeIndex < b'.size := by
  refine Loop.Visits.invariant (I := fun t => t.writeIndex < t.size) ?_ h.visits hspare
  intro s s' o hs hp
  have hframe := decodePass_frame hp
  omega

/-- An input buffer always has a spare byte. -/
theorem InBuffer.spare (h : InBuffer b) : b.writeIndex < b.size := by
  induction h with
  | @start n h hn =>
      show 0 < (List.replicate n 0).length
      rwa [List.length_replicate]
  | read _ hscript hloop hret ih =>
      -- the loop leaves a spare byte, and `decode` only takes bytes out
      obtain ⟨b', exit, hcall⟩ := readLoop_spec ih hscript
      obtain ⟨rfl, -⟩ : _ = b' ∧ _ = exit := by simpa using hloop.symm.trans hcall.loop
      exact spare_of_returns hcall.spare hret

/-- The call makes everything it read readable, behind what was, and hands it all to
`excute`. -/
def KeepsAll {κ : Type} (c : TcpConnection κ) (results : List ReadResult) : Prop :=
  ∃ c' handed, onRead c results = .ok (some (c', handed)) ∧
    c'.inBuffer.readable = c.inBuffer.readable ++ received results ∧
    handed.getD [] = c.inBuffer.readable ++ received results

section Call

variable {κ : Type} {c : TcpConnection κ} {b' : TcpBuffer}

/-- Everything the call read is readable exactly when all reads were short. -/
theorem LoopKeeps.readable_iff {exit : ReadExit} (h : LoopKeeps b results b' exit)
    (hspare : b.writeIndex < b.size) :
    b'.readable = b.readable ++ received results ↔ AllShort b.canWriteBytesNum results := by
  have hroom : 0 < b.canWriteBytesNum := Nat.sub_pos_of_lt hspare
  rw [h.readable, List.append_cancel_left_eq, kept_eq_received_iff hroom]

theorem onRead_readAll (hc : c.state = .connected)
    (h : LoopKeeps c.inBuffer results b' .readAll) :
    onRead c results = .ok (some ({ c with inBuffer := b' }, some b'.readable)) := by
  rw [onRead, if_neg (not_not_intro hc), h.loop]
  rfl

theorem onRead_close (hc : c.state = .connected) (h : LoopKeeps c.inBuffer results b' .close) :
    onRead c results = .ok (some ({ c with inBuffer := b' }.clear, none)) := by
  rw [onRead, if_neg (not_not_intro hc), h.loop]
  rfl

theorem onRead_disconnected (hc : c.state ≠ .connected) (results : List ReadResult) :
    onRead c results = .ok (some (c, none)) := if_pos hc

/-- A call that returns has found the connection not connected, or the peer closed, or nothing
more to read. -/
theorem onRead_cases {c' : TcpConnection κ} {handed : Option (List UInt8)}
    (hrun : onRead c results = .ok (some (c', handed))) :
    (c.state ≠ .connected ∧ c' = c ∧ handed = none) ∨
      (c.state = .connected ∧ ∃ b, readLoop results c.inBuffer = .ok (some (b, .close)) ∧
        c' = { c with inBuffer := b }.clear ∧ handed = none) ∨
      (c.state = .connected ∧ ∃ b, readLoop results c.inBuffer = .ok (some (b, .readAll)) ∧
        c' = { c with inBuffer := b } ∧ handed = some b.readable) := by
  by_cases hc : c.state = .connected
  · rw [onRead, if_neg (not_not_intro hc)] at hrun
    obtain ⟨left, hloop, hrun⟩ := bind_eq_ok.mp hrun
    rcases left with - | ⟨b, exit⟩
    · cases hrun
    cases exit with
    | close =>
        obtain ⟨rfl, rfl⟩ := Prod.mk.inj (Option.some.inj (Except.ok.inj hrun))
        exact Or.inr (Or.inl ⟨hc, b, hloop, rfl, rfl⟩)
    | readAll =>
        obtain ⟨rfl, rfl⟩ := Prod.mk.inj (Option.some.inj (Except.ok.inj hrun))
        exact Or.inr (Or.inr ⟨hc, b, hloop, rfl, rfl⟩)
  · rw [onRead_disconnected hc] at hrun
    obtain ⟨rfl, rfl⟩ := Prod.mk.inj (Option.some.inj (Except.ok.inj hrun))
    exact Or.inl ⟨hc, rfl, rfl⟩

/-- A call that ends with nothing more to read hands on what it has made readable. -/
theorem keepsAll_readAll (hc : c.state = .connected)
    (h : LoopKeeps c.inBuffer results b' .readAll) :
    KeepsAll c results ↔ b'.readable = c.inBuffer.readable ++ received results := by
  have hcall := onRead_readAll hc h
  constructor
  · rintro ⟨c', handed, hrun, hin, -⟩
    obtain ⟨rfl, -⟩ : _ = c' ∧ _ = handed := by simpa using hcall.symm.trans hrun
    exact hin
  · intro hall
    exact ⟨_, _, hcall, hall, hall⟩

/-- A call that finds the peer closed hands nothing on, so it keeps everything only if
there was nothing. -/
theorem keepsAll_close (hc : c.state = .connected)
    (h : LoopKeeps c.inBuffer results b' .close) :
    KeepsAll c results ↔ b'.readable = c.inBuffer.readable ++ received results ∧
      c.inBuffer.readable = [] := by
  have hcall := onRead_close hc h
  constructor
  · rintro ⟨c', handed, hrun, hin, hhanded⟩
    obtain ⟨rfl, rfl⟩ : _ = c' ∧ _ = handed := by simpa using hcall.symm.trans hrun
    rw [TcpConnection.clear_inBuffer] at hin
    exact ⟨hin, (List.append_eq_nil_iff.mp hhanded.symm).1⟩
  · rintro ⟨hall, hnil⟩
    -- no read was short, for the loop would have ended there: nothing came
    have hnone : received results = [] := by
      have hread := h.readable
      rw [h.kept_eq_nil rfl, List.append_nil, hall] at hread
      exact List.self_eq_append_right.mp hread.symm
    refine ⟨_, _, hcall, ?_, ?_⟩
    · rw [TcpConnection.clear_inBuffer]
      exact hall
    · rw [hnone, hnil]
      rfl

end Call

/-- **Exactly which calls of `on_read` keep everything**: those none of whose reads fills
the buffer to its last byte, and that do not find the peer closed while bytes are
waiting. -/
theorem on_read_keeps_iff {κ : Type} (c : TcpConnection κ) (hc : c.state = .connected)
    (hb : InBuffer c.inBuffer) (hr : ReadScript c.inBuffer results) :
    KeepsAll c results ↔
      AllShort c.inBuffer.canWriteBytesNum results ∧
        (.eof ∈ results → c.inBuffer.readable = []) := by
  obtain ⟨b, exit, hcall⟩ := readLoop_spec hb.spare hr
  rw [← hcall.readable_iff hb.spare, ← hcall.exit_eq_close]
  cases exit with
  | readAll =>
      rw [keepsAll_readAll hc hcall]
      exact ⟨fun hall => ⟨hall, nofun⟩, fun h => h.1⟩
  | close =>
      rw [keepsAll_close hc hcall]
      exact ⟨fun h => ⟨h.1, fun _ => h.2⟩, fun h => ⟨h.1, h.2 rfl⟩⟩

/-- As many bytes as the vector has. -/
def fullRead : List UInt8 := List.replicate 128 2

/-- A read that fills the vector, and then `EAGAIN`: `excute` gets nothing. -/
theorem on_read_loses :
    onRead acceptedConnection [.data fullRead, .again]
      = .ok (some ({ acceptedConnection with
          inBuffer := acceptedConnection.inBuffer.fill fullRead }, some [])) ∧
    ¬ ∀ (c : TcpConnection Unit) (results : List ReadResult), c.state = .connected →
      InBuffer c.inBuffer → ReadScript c.inBuffer results → KeepsAll c results := by
  have hcall : onRead acceptedConnection [.data fullRead, .again]
      = .ok (some ({ acceptedConnection with
          inBuffer := acceptedConnection.inBuffer.fill fullRead }, some [])) := by
    decide +kernel
  refine ⟨hcall, fun h => ?_⟩
  have hgrow : growIfFull acceptedConnection.inBuffer = .ok acceptedConnection.inBuffer :=
    growIfFull_of_spare (by decide +kernel)
  have hscript : ReadScript acceptedConnection.inBuffer [.data fullRead, .again] :=
    .full hgrow (by decide +kernel) (by decide +kernel) .again
  obtain ⟨c', handed, hrun, -, hhanded⟩ := h _ _ rfl (.start (by decide) (by decide)) hscript
  rw [hcall] at hrun
  obtain ⟨-, rfl⟩ : _ = c' ∧ some [] = handed := by simpa using hrun
  exact absurd hhanded (by decide)

/-- A call that gets three bytes, after an interrupted `::read`. -/
theorem on_read_keeps_short : KeepsAll acceptedConnection [.error, .data [2, 0, 0]] := by
  have hgrow : growIfFull acceptedConnection.inBuffer = .ok acceptedConnection.inBuffer :=
    growIfFull_of_spare (by decide +kernel)
  have hscript : ReadScript acceptedConnection.inBuffer [.error, .data [2, 0, 0]] :=
    .error hgrow (.short hgrow (by decide) (by decide +kernel))
  have hshort : AllShort acceptedConnection.inBuffer.canWriteBytesNum
      [.error, .data [2, 0, 0]] := by
    intro bytes h
    obtain rfl : bytes = [2, 0, 0] := by simpa using h
    decide +kernel
  exact (on_read_keeps_iff acceptedConnection rfl (.start (by decide) (by decide)) hscript).mpr
    ⟨hshort, by simp⟩

end TinyRpc
