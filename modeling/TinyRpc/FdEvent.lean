/-
TinyRpc/FdEvent.lean

The three callbacks of an fd, and what the event loop enqueues of them.

`listen` takes an error callback along, and with none of it, or with one already there,
forgets the one that is there; and where the loop has looked at the error callback, it
enqueues the write callback.  So an error callback is enqueued only where it is the write
callback, too: `enqueues_iff`.

`κ` is the type of the functions; `none` is the empty one.
-/
import Mathlib.Tactic.Common

namespace TinyRpc

structure FdEvent (κ : Type) where
  /-- `m_listen_events.events` -/
  listenEvents : UInt32
  readCallback : Option κ
  writeCallback : Option κ
  errorCallback : Option κ

/-- `EPOLLIN`, of Linux. -/
def epollIn : UInt32 := 1

/-- `EPOLLOUT`. -/
def epollOut : UInt32 := 4

/-- `EPOLLERR`. -/
def epollErr : UInt32 := 8

variable {κ : Type}

namespace FdEvent

inductive TriggerEvent
  | inEvent
  | outEvent
  | errorEvent
  deriving DecidableEq

/-- `FdEvent(int fd)`. -/
def create : FdEvent κ := ⟨0, none, none, none⟩

def handler (f : FdEvent κ) : TriggerEvent → Option κ
  | .inEvent => f.readCallback
  | .outEvent => f.writeCallback
  | .errorEvent => f.errorCallback

def listen (f : FdEvent κ) (eventType : TriggerEvent) (callback errorCallback : Option κ) :
    FdEvent κ :=
  let f :=
    if eventType = .inEvent then
      { f with listenEvents := f.listenEvents ||| epollIn, readCallback := callback }
    else { f with listenEvents := f.listenEvents ||| epollOut, writeCallback := callback }
  -- an error callback that is there makes way for none
  { f with errorCallback := if f.errorCallback = none then errorCallback else none }

def cancel (f : FdEvent κ) (typeEvent : TriggerEvent) : FdEvent κ :=
  if typeEvent = .inEvent then { f with listenEvents := f.listenEvents &&& ~~~epollIn }
  else { f with listenEvents := f.listenEvents &&& ~~~epollOut }

def setErrorCallback (f : FdEvent κ) (callback : Option κ) : FdEvent κ :=
  { f with errorCallback := callback }

end FdEvent

open FdEvent

inductive FdCall (κ : Type)
  | listen (eventType : TriggerEvent) (callback errorCallback : Option κ)
  | cancel (typeEvent : TriggerEvent)
  | setErrorCallback (callback : Option κ)

def FdCall.apply (f : FdEvent κ) : FdCall κ → FdEvent κ
  | .listen eventType callback errorCallback => f.listen eventType callback errorCallback
  | .cancel typeEvent => f.cancel typeEvent
  | .setErrorCallback callback => f.setErrorCallback callback

/-- The event after the calls. -/
def FdEvent.after (calls : List (FdCall κ)) : FdEvent κ := calls.foldl FdCall.apply create

/-- What `loop` does about an event that `epoll_wait` reports: the tasks that it adds, and whether
it calls `delete_epoll_event`. -/
def FdEvent.dispatch (f : FdEvent κ) (events : UInt32) : List (Option κ) × Bool :=
  let onIn := if events &&& epollIn ≠ 0 then [f.handler .inEvent] else []
  let onOut := if events &&& epollOut ≠ 0 then [f.handler .outEvent] else []
  if events &&& epollErr ≠ 0 then
    -- the error callback is looked at, and the write callback is added
    let onErr := if f.handler .errorEvent ≠ none then [f.handler .outEvent] else []
    (onIn ++ onOut ++ onErr, true)
  else (onIn ++ onOut, false)

/-! ### What has been registered -/

namespace FdCall

/-- The read callback that the call registers. -/
def read? : FdCall κ → Option (Option κ)
  | .listen .inEvent callback _ => some callback
  | _ => none

/-- The write callback that the call registers: `listen` takes every other type for
`OUT_EVENT`. -/
def write? : FdCall κ → Option (Option κ)
  | .listen .inEvent _ _ => none
  | .listen _ callback _ => some callback
  | _ => none

/-- The error callback that the call registers, unless it is empty. -/
def error? : FdCall κ → Option κ
  | .listen _ _ errorCallback => errorCallback
  | .setErrorCallback callback => callback
  | .cancel _ => none

end FdCall

/-- The last read callback registered. -/
def lastRead (calls : List (FdCall κ)) : Option κ :=
  (calls.filterMap FdCall.read?).getLast?.getD none

/-- The last write callback registered. -/
def lastWrite (calls : List (FdCall κ)) : Option κ :=
  (calls.filterMap FdCall.write?).getLast?.getD none

/-- The last error callback registered that is not empty. -/
def lastError (calls : List (FdCall κ)) : Option κ := (calls.filterMap FdCall.error?).getLast?

/-- The loop enqueues the last callback registered of each kind that the mask has, of errors only
if there is one. -/
def Enqueues (calls : List (FdCall κ)) (events : UInt32) : Prop :=
  ((FdEvent.after calls).dispatch events).1 =
    (if events &&& epollIn ≠ 0 then [lastRead calls] else []) ++
      (if events &&& epollOut ≠ 0 then [lastWrite calls] else []) ++
      (if events &&& epollErr ≠ 0 then (lastError calls).toList.map some else [])

/-- A `listen` without an error callback leaves the one that is there alone. -/
def KeepsError (f : FdEvent κ) : Prop :=
  ∀ eventType callback, (f.listen eventType callback none).errorCallback = f.errorCallback

/-! ### What the callbacks are after the calls -/

/-- A field that every call either leaves alone or sets is what was set last. -/
theorem foldl_last {σ α β : Type} {apply : σ → α → σ} (field : σ → β) {sets : α → Option β}
    (h : ∀ s a, field (apply s a) = (sets a).getD (field s)) (s : σ) (l : List α) :
    field (l.foldl apply s) = (l.filterMap sets).getLast?.getD (field s) := by
  induction l generalizing s with
  | nil => rfl
  | cons a l ih =>
      rw [List.foldl_cons, ih, h]
      cases hset : sets a with
      | none => rw [List.filterMap_cons_none hset, Option.getD_none]
      | some b =>
          rw [List.filterMap_cons_some hset, List.getLast?_cons, Option.getD_some,
            Option.getD_some]

theorem readCallback_after (calls : List (FdCall κ)) :
    (FdEvent.after calls).readCallback = lastRead calls := by
  refine foldl_last FdEvent.readCallback (fun f call => ?_) create calls
  cases call with
  | listen eventType callback errorCallback => cases eventType <;> rfl
  | cancel typeEvent => cases typeEvent <;> rfl
  | setErrorCallback callback => rfl

theorem writeCallback_after (calls : List (FdCall κ)) :
    (FdEvent.after calls).writeCallback = lastWrite calls := by
  refine foldl_last FdEvent.writeCallback (fun f call => ?_) create calls
  cases call with
  | listen eventType callback errorCallback => cases eventType <;> rfl
  | cancel typeEvent => cases typeEvent <;> rfl
  | setErrorCallback callback => rfl

/-- An error callback that is there after a call was there before, or is registered by the
call. -/
theorem errorCallback_apply {f : FdEvent κ} {call : FdCall κ} {e : κ}
    (h : (call.apply f).errorCallback = some e) :
    call.error? = some e ∨ call.error? = none ∧ f.errorCallback = some e := by
  cases call with
  | listen eventType callback errorCallback =>
      obtain ⟨-, heq⟩ := Option.ite_none_right_eq_some.mp h
      exact .inl heq
  | cancel typeEvent =>
      right
      cases typeEvent <;> exact ⟨rfl, h⟩
  | setErrorCallback callback => exact .inl h

/-- The error callback, if it is there, is the last one registered. -/
theorem lastError_of_errorCallback {f : FdEvent κ} {e : κ} {calls : List (FdCall κ)}
    (h : (calls.foldl FdCall.apply f).errorCallback = some e) :
    (calls.filterMap FdCall.error?).getLast?.or f.errorCallback = some e := by
  induction calls generalizing f with
  | nil => exact h
  | cons call calls ih =>
      have hrest := ih h
      cases hset : call.error? with
      | none =>
          rw [List.filterMap_cons_none hset]
          cases hlast : (calls.filterMap FdCall.error?).getLast? with
          | some e' => rwa [hlast] at hrest
          | none =>
              rw [hlast, Option.none_or] at hrest
              rcases errorCallback_apply hrest with hnew | ⟨-, hold⟩
              · exact absurd (hset.symm.trans hnew) nofun
              · exact hold
      | some e₁ =>
          rw [List.filterMap_cons_some hset, List.getLast?_cons, Option.some_or]
          cases hlast : (calls.filterMap FdCall.error?).getLast? with
          | some e' =>
              rw [hlast, Option.some_or] at hrest
              exact hrest
          | none =>
              rw [hlast, Option.none_or] at hrest
              rcases errorCallback_apply hrest with hnew | ⟨hnone, -⟩
              · exact hset.symm.trans hnew
              · exact absurd (hset.symm.trans hnone) nofun

/-- What an error adds to the tasks, and what it should add. -/
theorem onErr_iff {held last write : Option κ} (hheld : ∀ e, held = some e → last = some e) :
    (if held ≠ none then [write] else []) = last.toList.map some ↔
      last = none ∨ held ≠ none ∧ write = last := by
  cases held with
  | none => cases last <;> simp
  | some e =>
      rw [hheld e rfl]
      simp

/-- **The loop enqueues what has been registered** if and only if no error is reported, or no error
callback has ever been registered, or it is there still and is the last write callback, too. -/
theorem enqueues_iff (calls : List (FdCall κ)) (events : UInt32) :
    Enqueues calls events ↔
      events &&& epollErr = 0 ∨ lastError calls = none ∨
        (FdEvent.after calls).errorCallback ≠ none ∧ lastWrite calls = lastError calls := by
  have hheld : ∀ e, (FdEvent.after calls).errorCallback = some e → lastError calls = some e := by
    intro e he
    have hlast := lastError_of_errorCallback he
    rwa [create, Option.or_none] at hlast
  unfold Enqueues FdEvent.dispatch
  simp only [handler, readCallback_after, writeCallback_after]
  by_cases herr : events &&& epollErr = 0
  · simp [herr]
  · rw [if_pos herr, if_pos herr]
    simp only [List.append_cancel_left_eq]
    rw [onErr_iff hheld]
    simp [herr]

theorem keepsError_iff (f : FdEvent κ) : KeepsError f ↔ f.errorCallback = none := by
  have hlisten : ∀ eventType callback,
      (f.listen eventType callback none).errorCallback = none := fun eventType callback =>
    ite_self none
  constructor
  · intro h
    rw [← h .inEvent none, hlisten]
  · intro h eventType callback
    rw [hlisten, h]

/-- **The callbacks of an fd**: exactly when the loop enqueues those that have been registered, and
when a later `listen` keeps the error callback. -/
theorem callbacks_iff (calls : List (FdCall κ)) (events : UInt32) :
    (Enqueues calls events ↔
      events &&& epollErr = 0 ∨ lastError calls = none ∨
        (FdEvent.after calls).errorCallback ≠ none ∧ lastWrite calls = lastError calls) ∧
    (KeepsError (FdEvent.after calls) ↔ (FdEvent.after calls).errorCallback = none) :=
  ⟨enqueues_iff calls events, keepsError_iff _⟩

/-- A write callback, and another one for errors. -/
def writeAndError : List (FdCall Nat) :=
  [.listen .outEvent (some 1) none, .setErrorCallback (some 2)]

/-- On an error the write callback is enqueued, and the next `listen` forgets the other one. -/
theorem error_not_enqueued :
    ((FdEvent.after writeAndError).dispatch epollErr).1 = [some 1] ∧
      ¬ Enqueues writeAndError epollErr ∧ ¬ KeepsError (FdEvent.after writeAndError) := by
  refine ⟨rfl, fun h => ?_, fun h => ?_⟩
  · rcases (enqueues_iff _ _).mp h with hmask | hnone | ⟨-, hsame⟩
    · exact absurd hmask (by decide)
    · exact absurd hnone (by decide)
    · exact absurd hsame (by decide)
  · exact absurd ((keepsError_iff _).mp h) (by decide)

end TinyRpc
