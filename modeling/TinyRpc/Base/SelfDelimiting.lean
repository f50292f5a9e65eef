/-
TinyRpc/Base/SelfDelimiting.lean

Encodings that can be told apart from what follows them.

`Tells R enc f` says that the code word of an `a`, with anything behind it, tells
`f a`, and where the word ends.  `R` is what is known of two `a`s beforehand.  So an
encoding may be put together piece by piece (`Tells.append`), and what the pieces so
far have told may be used for the next one: a length, for the bytes that it counts.
-/
import Mathlib.Data.List.Basic

namespace SelfDelimiting

universe u v w

variable {α : Type u} {β : Type v} {κ κ' : Type w} {R : α → α → Prop}
  {enc enc' : α → List β} {f : α → κ} {g : α → κ'}

/-- Two code words that may be continued to the same string agree on `f`, and are continued
by the same bytes. -/
def Tells (R : α → α → Prop) (enc : α → List β) (f : α → κ) : Prop :=
  ∀ a a', R a a' → ∀ t t', enc a ++ t = enc a' ++ t' → f a = f a' ∧ t = t'

/-- Code words of one length are told apart if they are different. -/
theorem Tells.of_length (hlen : ∀ a a', R a a' → (enc a).length = (enc a').length)
    (hinj : ∀ a a', R a a' → enc a = enc a' → f a = f a') : Tells R enc f := by
  intro a a' hR t t' heq
  obtain ⟨henc, ht⟩ := List.append_inj heq (hlen a a' hR)
  exact ⟨hinj a a' hR henc, ht⟩

/-- A fixed string tells nothing. -/
theorem Tells.const (c : List β) : Tells R (fun _ => c) fun _ => () :=
  .of_length (fun _ _ _ => rfl) fun _ _ _ _ => rfl

/-- Bytes whose number is known are told as they are. -/
theorem Tells.bytes (hlen : ∀ a a', R a a' → (enc a).length = (enc a').length) :
    Tells R enc enc :=
  .of_length hlen fun _ _ _ henc => henc

/-- What is told tells what follows from it. -/
theorem Tells.imp (h : Tells R enc f) (hf : ∀ a a', R a a' → f a = f a' → g a = g a') :
    Tells R enc g := by
  intro a a' hR t t' heq
  obtain ⟨hfa, ht⟩ := h a a' hR t t' heq
  exact ⟨hf a a' hR hfa, ht⟩

/-- The second piece may use what the first has told. -/
theorem Tells.append (h : Tells R enc f)
    (h' : Tells (fun a a' => R a a' ∧ f a = f a') enc' g) :
    Tells R (fun a => enc a ++ enc' a) fun a => (f a, g a) := by
  intro a a' hR t t' heq
  rw [List.append_assoc, List.append_assoc] at heq
  obtain ⟨hf, hrest⟩ := h a a' hR _ _ heq
  obtain ⟨hg, ht⟩ := h' a a' ⟨hR, hf⟩ t t' hrest
  exact ⟨Prod.ext hf hg, ht⟩

end SelfDelimiting
