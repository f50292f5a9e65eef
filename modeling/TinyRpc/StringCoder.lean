/-
TinyRpc/StringCoder.lean

The other coder: `StringCoder`, whose messages are plain texts.

It writes neither lengths nor marks.  So `decode` cannot tell the messages apart, and gives one
message with all that the buffer holds: the texts arrive whole and in order, but joined.
`texts_joined` says so of every run of `encode` and `decode` on one buffer, and
`comes_back_iff` which messages come back as they were sent.
-/
import TinyRpc.Base.Refine
import TinyRpc.RpcController

namespace TinyRpc

open Checked Bytes Refine

structure StringProtocol where
  msgId : List UInt8 := []
  info : List UInt8
  deriving DecidableEq

namespace StringCoder

/-- `encode`: the texts are written one after the other. -/
def encode : List StringProtocol → TcpBuffer → Except Fault TcpBuffer
  | [], outBuffer => .ok outBuffer
  | message :: messages, outBuffer => do
      let outBuffer ← outBuffer.writeToBuffer message.info
      encode messages outBuffer

/-- The message that `decode` makes of what it has read. -/
def received (info : List UInt8) : StringProtocol where
  msgId := text "123456"
  info := info

/-- `decode`: one message, even if there is nothing to read. -/
def decode (outMessages : List StringProtocol) (buffer : TcpBuffer) :
    Except Fault (List StringProtocol × TcpBuffer) := do
  let (buffer, receive) ← buffer.readFromBuffer [] buffer.canReadBytesNum
  .ok (outMessages ++ [received receive], buffer)

/-- The texts of the messages, joined. -/
def joined (messages : List StringProtocol) : List UInt8 := messages.flatMap StringProtocol.info

/-! ### One call -/

variable {b : TcpBuffer}

/-- **`encode` puts the joined texts behind what is readable.** -/
theorem encode_ok {messages : List StringProtocol}
    (h : b.writeIndex + (joined messages).length < 1073741824) :
    ∃ b', encode messages b = .ok b' ∧ b'.readable = b.readable ++ joined messages := by
  induction messages generalizing b with
  | nil => exact ⟨b, rfl, (List.append_nil _).symm⟩
  | cons message messages ih =>
      have hjoined : joined (message :: messages) = message.info ++ joined messages := rfl
      rw [hjoined, List.length_append] at h
      -- the write index moves up by no more than what has been written
      have hroom : b.writeIndex + message.info.length < 1073741824 := by omega
      obtain ⟨b₁, hwrite, hle⟩ := TcpBuffer.writeToBuffer_ok hroom
      have hrest : b₁.writeIndex + (joined messages).length < 1073741824 := by omega
      obtain ⟨b', hrest, hreadable⟩ := ih hrest
      refine ⟨b', ?_, ?_⟩
      · rw [encode, hwrite, ok_bind, hrest]
      · rw [hreadable, TcpBuffer.readable_writeToBuffer hwrite, hjoined, List.append_assoc]

/-- **`decode` gives all that is readable as one message**, and leaves nothing. -/
theorem decode_ok (b : TcpBuffer) (outMessages : List StringProtocol) :
    ∃ b', decode outMessages b = .ok (outMessages ++ [received b.readable], b') ∧
      b'.readable = [] := by
  obtain ⟨b', hread, hreadable⟩ := b.readFromBuffer_spec b.canReadBytesNum
  have hall : b.readable.length ≤ b.canReadBytesNum := b.length_readable.le
  rw [List.take_of_length_le hall] at hread
  rw [List.drop_of_length_le hall] at hreadable
  refine ⟨b', ?_, hreadable⟩
  rw [decode, hread]
  rfl

/-- **Which messages come back as they were sent**: a single one, with the id that `decode`
gives. -/
theorem comes_back_iff {messages : List StringProtocol} (hempty : b.readable = [])
    (h : b.writeIndex + (joined messages).length < 1073741824) :
    (∃ b', encode messages b >>= decode [] = .ok (messages, b')) ↔
      ∃ info, messages = [received info] := by
  obtain ⟨b₁, hencode, hreadable⟩ := encode_ok h
  obtain ⟨b₂, hdecode, -⟩ := decode_ok b₁ []
  rw [hreadable, hempty, List.nil_append] at hdecode
  rw [hencode, ok_bind, hdecode]
  constructor
  · rintro ⟨b', hback⟩
    exact ⟨joined messages, (Prod.mk.inj (Except.ok.inj hback)).1.symm⟩
  · rintro ⟨info, rfl⟩
    have hjoined : joined [received info] = info := List.append_nil info
    exact ⟨b₂, by rw [hjoined]; rfl⟩

end StringCoder

open StringCoder (joined received)

/-! ### Runs -/

inductive StringCall
  | encode (messages : List StringProtocol)
  | decode
  deriving DecidableEq

/-- The buffer after a call, and the messages that `decode` gives. -/
def stringStep : Machine Fault TcpBuffer StringCall (List StringProtocol)
  | b, .encode messages => do
    let b ← StringCoder.encode messages b
    .ok (b, [])
  | b, .decode => do
    let (messages, b) ← StringCoder.decode [] b
    .ok (b, messages)

/-- What the coder does to the text that is on its way: `encode` puts text behind it, and
`decode` takes all of it. -/
def textStep : Spec (List UInt8) StringCall (List StringProtocol)
  | onWay, .encode messages => (onWay ++ joined messages, [])
  | onWay, .decode => ([], [received onWay])

/-- The texts to be written stay below `2^30` bytes, with those before them. -/
def StringCall.Fits (b : TcpBuffer) : StringCall → Prop
  | .encode messages => b.writeIndex + (joined messages).length < 1073741824
  | .decode => True

instance (b : TcpBuffer) : DecidablePred (StringCall.Fits b)
  | .encode messages =>
      inferInstanceAs (Decidable (b.writeIndex + (joined messages).length < 1073741824))
  | .decode => inferInstanceAs (Decidable True)

/-- What each `decode` should give: the text that has been encoded since the one before it. -/
def textsSince (onWay : List UInt8) : List StringCall → List (List UInt8)
  | [] => []
  | .encode messages :: calls => textsSince (onWay ++ joined messages) calls
  | .decode :: calls => onWay :: textsSince [] calls

/-- The text that the call puts in. -/
def StringCall.input : StringCall → List UInt8
  | .encode messages => joined messages
  | .decode => []

theorem refines_text :
    Refines stringStep textStep TcpBuffer.readable id StringCall.Fits where
  step b call h := by
    cases call with
    | encode messages =>
        obtain ⟨b', hencode, hreadable⟩ := StringCoder.encode_ok h
        refine ⟨b', ?_, hreadable⟩
        rw [stringStep, hencode]
        rfl
    | decode =>
        obtain ⟨b', hdecode, hreadable⟩ := StringCoder.decode_ok b []
        refine ⟨b', ?_, hreadable⟩
        rw [stringStep, hdecode]
        rfl

theorem runSpec_text (onWay : List UInt8) (calls : List StringCall) :
    (runSpec textStep onWay calls).2.flatten = (textsSince onWay calls).map received := by
  induction calls generalizing onWay with
  | nil => rfl
  | cons call calls ih =>
      cases call with
      | encode messages => exact ih (onWay ++ joined messages)
      | decode => exact congrArg (received onWay :: ·) (ih [])

theorem flatten_textsSince (onWay : List UInt8) (calls : List StringCall) :
    (textsSince onWay calls).flatten ++ (runSpec textStep onWay calls).1 =
      onWay ++ calls.flatMap StringCall.input := by
  induction calls generalizing onWay with
  | nil => exact (List.append_nil onWay).symm
  | cons call calls ih =>
      cases call with
      | encode messages =>
          show _ = onWay ++ (joined messages ++ calls.flatMap StringCall.input)
          rw [← List.append_assoc]
          exact ih (onWay ++ joined messages)
      | decode =>
          show onWay ++ (textsSince [] calls).flatten ++ _ = onWay ++ _
          rw [List.append_assoc]
          exact congrArg (onWay ++ ·) (ih [])

/-- **The texts arrive whole and in order, but joined**: within the bounds no call fails, every
`decode` gives one message with the text encoded since the `decode` before it, and what has been
decoded, followed by what is readable, is all that was encoded. -/
theorem texts_joined (b : TcpBuffer) (calls : List StringCall)
    (h : Guarded stringStep StringCall.Fits b calls) :
    ∃ b' replies, run stringStep b calls = .ok (b', replies) ∧
      replies.flatten = (textsSince b.readable calls).map received ∧
      (replies.flatten.flatMap StringProtocol.info) ++ b'.readable =
        b.readable ++ calls.flatMap StringCall.input := by
  obtain ⟨b', replies, hrun, hspec⟩ := refines_text.run h
  rw [List.map_id] at hspec
  -- the replies are those of the text, and so is what is left
  have hgiven : replies.flatten = (textsSince b.readable calls).map received := by
    rw [← runSpec_text, hspec]
  refine ⟨b', replies, hrun, hgiven, ?_⟩
  have hinfos : replies.flatten.flatMap StringProtocol.info =
      (textsSince b.readable calls).flatten := by
    rw [hgiven, List.flatMap_map]
    exact List.flatMap_id
  rw [hinfos, ← flatten_textsSince, hspec]

/-- Two messages that arrive as one, and a `decode` that finds nothing. -/
def twoTexts : List StringCall :=
  [.encode [{ info := [1, 2] }, { info := [3] }], .decode, .decode, .encode [{ info := [4] }]]

theorem texts_joined_twoTexts :
    ∃ b' replies, run stringStep (TcpBuffer.ofSize 1 (by decide)) twoTexts = .ok (b', replies) ∧
      replies.flatten =
        (textsSince (TcpBuffer.ofSize 1 (by decide)).readable twoTexts).map received ∧
      (replies.flatten.flatMap StringProtocol.info) ++ b'.readable =
        (TcpBuffer.ofSize 1 (by decide)).readable ++ twoTexts.flatMap StringCall.input :=
  texts_joined _ twoTexts (by decide +kernel)

end TinyRpc
