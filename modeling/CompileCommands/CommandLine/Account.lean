import CompileCommands.CommandLine.Event

set_option autoImplicit false

/- Accounts: a computation's result together with what is told of it. The first failure ends an
account; what was told before stays. -/
namespace CompileCommands.CommandLine

structure Account (α : Type) where
  events : List Event
  result : Except Failure α

namespace Account

variable {α β : Type}

protected def pure (value : α) : Account α := ⟨[], .ok value⟩

protected def bind (first : Account α) (next : α → Account β) : Account β :=
  match first.result with
  | .error failure => ⟨first.events, .error failure⟩
  | .ok value => ⟨first.events ++ (next value).events, (next value).result⟩

instance : Monad Account where
  pure := Account.pure
  bind := Account.bind

/-- A result of which nothing is told. -/
def quiet (result : Except Failure α) : Account α := ⟨[], result⟩

def tell (events : List Event) : Account Unit := ⟨events, .ok ()⟩

/-- Tells an event that is printed, if the screen takes it. -/
def print (screen : Terminal.Screen) (event : Event) : Account Unit := do
  quiet (event.shownOn screen)
  tell [event]

@[simp] theorem result_pure (value : α) : (pure value : Account α).result = .ok value := rfl

@[simp] theorem result_quiet (result : Except Failure α) : (quiet result).result = result := rfl

@[simp] theorem result_tell (events : List Event) : (tell events).result = .ok () := rfl

/-- Results do not depend on what is told. -/
@[simp] theorem result_bind (first : Account α) (next : α → Account β) :
    (first >>= next).result = first.result >>= fun value => (next value).result := by
  change (Account.bind first next).result = _
  unfold Account.bind
  cases first.result <;> rfl

@[simp] theorem result_print (screen : Terminal.Screen) (event : Event) :
    (print screen event).result = event.shownOn screen := by
  rw [print, result_bind, result_quiet]
  cases event.shownOn screen <;> rfl

end Account

end CompileCommands.CommandLine
