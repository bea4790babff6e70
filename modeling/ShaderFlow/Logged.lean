import ShaderFlow.Event

set_option autoImplicit false

namespace ShaderFlow

structure Logged (α : Type) where
  events : List Event
  outcome : Except Error α

namespace Logged

variable {α β : Type}

def bind (first : Logged α) (next : α → Logged β) : Logged β :=
  match first.outcome with
  | .ok a =>
    let second := next a
    ⟨first.events ++ second.events, second.outcome⟩
  | .error e => ⟨first.events, .error e⟩

instance : Monad Logged where
  pure a := ⟨[], .ok a⟩
  bind := bind

instance : MonadExcept Error Logged where
  throw e := ⟨[], .error e⟩
  tryCatch first handle :=
    match first.outcome with
    | .ok a => ⟨first.events, .ok a⟩
    | .error e =>
      let second := handle e
      ⟨first.events ++ second.events, second.outcome⟩

/-- Reports one event. -/
def tell (event : Event) : Logged Unit := ⟨[event], .ok ()⟩

def ofExcept (outcome : Except Error α) : Logged α := ⟨[], outcome⟩

instance : MonadLift (Except Error) Logged := ⟨ofExcept⟩

@[simp] theorem outcome_pure (a : α) : (pure a : Logged α).outcome = .ok a := rfl

@[simp] theorem outcome_tell (event : Event) : (tell event).outcome = .ok () := rfl

@[simp] theorem outcome_ofExcept (outcome : Except Error α) :
    (ofExcept outcome).outcome = outcome := rfl

/-- The outcome of a sequence does not depend on what was logged. -/
@[simp] theorem outcome_bind (first : Logged α) (next : α → Logged β) :
    (first >>= next).outcome = (first.outcome >>= fun a => (next a).outcome) := by
  show (Logged.bind first next).outcome = _
  unfold Logged.bind
  cases first.outcome <;> rfl

theorem events_bind_of_ok (first : Logged α) (next : α → Logged β) (a : α)
    (success : first.outcome = .ok a) :
    (first >>= next).events = first.events ++ (next a).events := by
  show (Logged.bind first next).events = _
  simp only [Logged.bind, success]

theorem events_bind_of_error (first : Logged α) (next : α → Logged β) (e : Error)
    (failed : first.outcome = .error e) : (first >>= next).events = first.events := by
  show (Logged.bind first next).events = _
  simp only [Logged.bind, failed]

end Logged

end ShaderFlow
