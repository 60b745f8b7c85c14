import Mathlib.Data.List.Forall2

set_option autoImplicit false

/- What can be said of a computation that may fail, whether or not it does: one thing of its
failure, another of its result. -/
namespace CompileCommands

variable {α β ε : Type} {fails other : ε → Prop} {holds more : α → Prop} {after : β → Prop}

/-- Whether a computation fails only in a way that `fails` tells, and has only results for which
`holds` is true. -/
def Ensures (fails : ε → Prop) (holds : α → Prop) : Except ε α → Prop
  | .error failure => fails failure
  | .ok value => holds value

theorem Ensures.mono {x : Except ε α} (sure : Ensures fails holds x)
    (weaker : ∀ failure, fails failure → other failure) (implied : ∀ a, holds a → more a) :
    Ensures other more x := by
  cases x with
  | error failure => exact weaker failure sure
  | ok a => exact implied a sure

theorem Ensures.bind {x : Except ε α} {f : α → Except ε β} (first : Ensures fails holds x)
    (next : ∀ a, holds a → Ensures fails after (f a)) : Ensures fails after (x >>= f) := by
  cases x with
  | error failure => exact first
  | ok a => exact next a first

theorem Ensures.map {x : Except ε α} {f : α → β} (sure : Ensures fails (fun a => after (f a)) x) :
    Ensures fails after (x.map f) := by
  cases x with
  | error failure => exact sure
  | ok a => exact sure

/-- Two ways to come by a value, and one way to go on with it. -/
theorem Ensures.ite_bind {c : Prop} [Decidable c] {x y : Except ε α} {f : α → Except ε β}
    (first : Ensures fails holds x) (second : Ensures fails holds y)
    (next : ∀ a, holds a → Ensures fails after (f a)) :
    Ensures fails after (if c then x >>= f else y >>= f) := by
  split
  · exact first.bind next
  · exact second.bind next

/-- A part whose result does not matter. -/
theorem Ensures.ignore {x : Except ε α} (sure : Ensures fails holds x) :
    Ensures fails (fun _ => True) x :=
  sure.mono (fun _ => id) fun _ _ => trivial

/-- What is computed is known together with what holds for it. -/
theorem Ensures.self {x : Except ε α} (sure : Ensures fails holds x) :
    Ensures fails (fun a => holds a ∧ x = .ok a) x := by
  cases x with
  | error failure => exact sure
  | ok a => exact ⟨sure, rfl⟩

theorem ensures_mapM {f : α → Except ε β} {related : α → β → Prop} {xs : List α}
    (each : ∀ x ∈ xs, Ensures fails (related x) (f x)) :
    Ensures fails (List.Forall₂ related xs) (xs.mapM f) := by
  induction xs with
  | nil => exact .nil
  | cons x rest ih =>
      rw [List.mapM_cons]
      apply (each x (List.mem_cons_self ..)).bind
      intro y first
      apply (ih fun other member => each other (.tail x member)).bind
      intro ys others
      exact .cons first others

end CompileCommands
