import Motus.Consumer.Dispatch

set_option autoImplicit false

/-!
# The dispatch policy (`include/motus/Consumer.hpp`)

A handler is user code: what a call of it does is an effect.  `dispatchIn` is
`dispatch` in any monad those effects live in, and `dispatch` is its case without
effects.  With handlers that note their calls it shows how often which of them ran.
-/

namespace Motus.Consumer

open Motus.Transport

/-! ## Handlers with effects -/

/-- Handlers whose calls are computations. -/
structure HandlersIn (m : Type → Type) where
  onMessage : Option (ByteMessage → m HandlerEnd) := none
  onDeferred : Option (ByteMessage → Nat → m HandlerEnd) := none

/-- `dispatch`, in the monad of its handlers. -/
def dispatchIn {m : Type → Type} [Monad m] (body : Bytes) (handlers : HandlersIn m)
    (redelivered : Bool) (deliveryTag : Nat) : m (Except String DispatchResult) :=
  match decode body with
  | .error failure => pure (.ok failure)
  | .ok message =>
      match handlers.onDeferred with
      | some onDeferred => do
          match ← onDeferred message deliveryTag with
          | .returned disposition => pure (.ok ⟨disposition, ""⟩)
          | .transientFailure what => pure (.ok (classifyTransient what redelivered))
          | .exception what => pure (.ok ⟨.reject, what⟩)
          | .foreign what => pure (.error what)
      | none =>
          match handlers.onMessage with
          | none => pure (.ok ⟨.reject, "message understood, but no handler is configured"⟩)
          | some onMessage => do
              match ← onMessage message with
              | .returned _ => pure (.ok ⟨.ack, ""⟩)
              | .transientFailure what => pure (.ok (classifyTransient what redelivered))
              | .exception what => pure (.ok ⟨.reject, what⟩)
              | .foreign what => pure (.error what)

/-- The handlers as they are, in a monad that they have no effect on. -/
def Handlers.pureIn (m : Type → Type) [Monad m] (handlers : Handlers) : HandlersIn m where
  onMessage := handlers.onMessage.map fun handler message => pure (handler message)
  onDeferred := handlers.onDeferred.map fun handler message tag => pure (handler message tag)

/-- Without effects it is `dispatch`. -/
theorem dispatchIn_pureIn {m : Type → Type} [Monad m] [LawfulMonad m] (body : Bytes)
    (handlers : Handlers) (redelivered : Bool) (tag : Nat) :
    dispatchIn body (handlers.pureIn m) redelivered tag =
      (pure (dispatch body handlers redelivered tag) : m _) := by
  unfold dispatchIn dispatch
  cases decode body with
  | error failure => rfl
  | ok message =>
      obtain ⟨onMessage, onDeferred⟩ := handlers
      cases onDeferred with
      | some handler =>
          simp only [Handlers.pureIn, Option.map_some, pure_bind]
          cases handler message tag <;> rfl
      | none =>
          cases onMessage with
          | none => rfl
          | some handler =>
              simp only [Handlers.pureIn, Option.map_some, Option.map_none, pure_bind]
              cases handler message <;> rfl

/-! ## Handlers that note their calls -/

/-- One call of a handler, with its arguments. -/
inductive HandlerCall where
  | onMessage (message : ByteMessage)
  | onDeferred (message : ByteMessage) (deliveryTag : Nat)
  deriving DecidableEq, Repr

/-- The handlers, each call of which is added to a list. -/
def Handlers.noted (handlers : Handlers) : HandlersIn (StateM (List HandlerCall)) where
  onMessage := handlers.onMessage.map fun handler message => do
    modify (· ++ [.onMessage message])
    pure (handler message)
  onDeferred := handlers.onDeferred.map fun handler message tag => do
    modify (· ++ [.onDeferred message tag])
    pure (handler message tag)

/-- The calls a body, its handlers and its tag lead to. -/
def calls (body : Bytes) (handlers : Handlers) (deliveryTag : Nat) : List HandlerCall :=
  match decode body with
  | .error _ => []
  | .ok message =>
      if handlers.onDeferred.isSome then [.onDeferred message deliveryTag]
      else if handlers.onMessage.isSome then [.onMessage message]
      else []

/-- What `dispatch` decides, and the calls it makes to decide it. -/
theorem dispatchIn_noted (body : Bytes) (handlers : Handlers) (redelivered : Bool) (tag : Nat)
    (before : List HandlerCall) :
    (dispatchIn body handlers.noted redelivered tag).run before =
      (dispatch body handlers redelivered tag, before ++ calls body handlers tag) := by
  unfold dispatchIn dispatch calls
  cases decode body with
  | error failure => exact congrArg (Prod.mk _) (List.append_nil before).symm
  | ok message =>
      obtain ⟨onMessage, onDeferred⟩ := handlers
      cases onDeferred with
      | some handler =>
          simp only [Handlers.noted, Option.map_some]
          cases handler message tag <;> rfl
      | none =>
          cases onMessage with
          | none => exact congrArg (Prod.mk _) (List.append_nil before).symm
          | some handler =>
              simp only [Handlers.noted, Option.map_some, Option.map_none]
              cases handler message <;> rfl

/-! ## The policy -/

/-- The size check before decoding decides nothing that `deserialize` would not. -/
theorem decode_eq (body : Bytes) : decode body =
    match ByteMessage.deserialize body with
    | .ok message => .ok message
    | .error e => .error ⟨.reject, e.what⟩ := by
  unfold decode
  split
  · next hsize =>
      rw [ByteMessage.deserialize, if_pos hsize]
      rfl
  · rfl

theorem ByteMessage.readVersion_ne_lengthError (field : Bytes) (start : Nat) (what : String) :
    readVersion field start ≠ .error (.lengthError what) := by
  induction field generalizing start with
  | nil => simp [readVersion]
  | cons c rest ih =>
      unfold readVersion
      split
      · exact fun h => absurd h (by simp)
      split
      · exact fun h => absurd h (by simp)
      exact ih _

/-- `deserialize` complains of the size of a body exactly when the check before it does. -/
theorem ByteMessage.deserialize_lengthError_iff (body : Bytes) :
    (∃ what, deserialize body = .error (.lengthError what)) ↔ maxPayloadBytes < body.length := by
  constructor
  · rintro ⟨what, h⟩
    by_contra hsize
    rw [deserialize, if_neg hsize] at h
    split at h
    · exact absurd h (by simp)
    dsimp only at h
    split at h
    · exact absurd h (by simp)
    · exact absurd h (by simp)
    split at h
    · next e hread =>
        rw [Except.error.inj h] at hread
        exact readVersion_ne_lengthError _ _ _ hread
    · split at h
      · exact absurd h (by simp)
      · exact absurd h (by simp)
  · intro hsize
    exact ⟨_, by rw [deserialize, if_pos hsize]⟩

/-- What the policy makes of the way a handler ended; `onReturn` is the disposition of a
call that returned. -/
def Follows (onReturn : Disposition → Disposition) (redelivered : Bool) (ending : HandlerEnd)
    (result : Except String DispatchResult) : Prop :=
  match ending with
  | .returned disposition => result = .ok ⟨onReturn disposition, ""⟩
  | .transientFailure _ =>
      ∃ error, result = .ok ⟨if redelivered then .reject else .requeue, error⟩
  | .exception _ => ∃ error, result = .ok ⟨.reject, error⟩
  | .foreign what => result = .error what

theorem follows_classifyTransient (onReturn : Disposition → Disposition) (redelivered : Bool)
    (what : String) : Follows onReturn redelivered (.transientFailure what)
      (.ok (classifyTransient what redelivered)) := by
  cases redelivered with
  | false => exact ⟨what, rfl⟩
  | true => exact ⟨_, rfl⟩

/-- For every body, handlers and flag: what `dispatch` decides and which handler it calls,
with which arguments and how often. -/
theorem dispatch_policy (body : Bytes) (handlers : Handlers) (redelivered : Bool) (tag : Nat) :
    let run := (dispatchIn body handlers.noted redelivered tag).run []
    run.1 = dispatch body handlers redelivered tag ∧
      -- a body that is too large, or that is refused by `deserialize`
      (ByteMessage.maxPayloadBytes < body.length ∨
          (∃ e, ByteMessage.deserialize body = .error e) →
        run.2 = [] ∧ ∃ error, run.1 = .ok ⟨.reject, error⟩) ∧
      -- no handler at all
      (handlers.onDeferred = none → handlers.onMessage = none →
        run.2 = [] ∧ ∃ error, run.1 = .ok ⟨.reject, error⟩) ∧
      (∀ message handler, ByteMessage.deserialize body = .ok message →
        handlers.onDeferred = some handler →
          run.2 = [.onDeferred message tag] ∧
            Follows (fun disposition => disposition) redelivered (handler message tag) run.1) ∧
      (∀ message handler, ByteMessage.deserialize body = .ok message →
        handlers.onDeferred = none → handlers.onMessage = some handler →
          run.2 = [.onMessage message] ∧
            Follows (fun _ => .ack) redelivered (handler message) run.1) ∧
      -- the check of the size before decoding agrees with the one in `deserialize`
      ((∃ what, ByteMessage.deserialize body = .error (.lengthError what)) ↔
        ByteMessage.maxPayloadBytes < body.length) := by
  dsimp only
  rw [dispatchIn_noted, List.nil_append]
  have hrefused : ∀ e, ByteMessage.deserialize body = .error e →
      calls body handlers tag = [] ∧
        ∃ error, dispatch body handlers redelivered tag = .ok ⟨.reject, error⟩ := by
    intro e he
    simp only [calls, dispatch, decode_eq, he]
    exact ⟨trivial, e.what, rfl⟩
  refine ⟨rfl, fun h => ?_, fun hdeferred hmessage => ?_, fun message handler hok hdeferred => ?_,
    fun message handler hok hdeferred hmessage => ?_,
    ByteMessage.deserialize_lengthError_iff body⟩
  · rcases h with hsize | ⟨e, he⟩
    · obtain ⟨what, he⟩ := (ByteMessage.deserialize_lengthError_iff body).mpr hsize
      exact hrefused _ he
    · exact hrefused e he
  · cases hrun : ByteMessage.deserialize body with
    | error e => exact hrefused e hrun
    | ok message =>
        simp only [calls, dispatch, decode_eq, hrun, hdeferred, hmessage]
        exact ⟨rfl, _, rfl⟩
  · simp only [calls, dispatch, decode_eq, hok, hdeferred]
    refine ⟨rfl, ?_⟩
    cases handler message tag with
    | returned disposition => rfl
    | transientFailure what => exact follows_classifyTransient _ redelivered what
    | exception what => exact ⟨what, rfl⟩
    | foreign what => rfl
  · simp only [calls, dispatch, decode_eq, hok, hdeferred, hmessage]
    refine ⟨rfl, ?_⟩
    cases handler message with
    | returned disposition => rfl
    | transientFailure what => exact follows_classifyTransient _ redelivered what
    | exception what => exact ⟨what, rfl⟩
    | foreign what => rfl

/-- A deferred handler that could not accept the message, on its first delivery. -/
theorem dispatch_policy_deferred :
    ((dispatchIn (ByteMessage.envelopePrefix ++ [7])
      (Handlers.noted { onMessage := some fun _ => .returned .ack
                        onDeferred := some fun _ _ => .transientFailure "queue is full" })
      false 5).run []).2 = [.onDeferred ⟨[7]⟩ 5] :=
  ((dispatch_policy (ByteMessage.envelopePrefix ++ [7])
    { onMessage := some fun _ => .returned .ack
      onDeferred := some fun _ _ => .transientFailure "queue is full" } false 5).2.2.2.1
    ⟨[7]⟩ _ (by decide) rfl).1

end Motus.Consumer
