/-
# Deferred computations

A `Deferred` is a computation that does nothing until it is forced.  Mapping and chaining make new
deferred computations and force nothing.

`ofSteps` makes one of a whole chain of steps over deferred effects: forcing it drives the steps in
one loop, forcing the effects on the way and the final computation in the end.
-/
import FreePrograms.Run.Step

namespace FreePrograms

/-- A computation to be run when it is forced. -/
structure Deferred {S : Signature} (K : Host S) (α : Type) where
  force : Run K α

namespace Deferred

variable {S : Signature} {K : Host S} {α β : Type}

/-- A value that is there already. -/
def now (value : α) : Deferred K α := ⟨pure value⟩

/-- What the given function makes of the result. -/
def map (deferred : Deferred K α) (function : α → Run K β) : Deferred K β :=
  ⟨do function (← deferred.force)⟩

/-- Forces the computation that the given function makes of the result. -/
def bind (deferred : Deferred K α) (function : α → Run K (Deferred K β)) : Deferred K β :=
  ⟨do (← function (← deferred.force)).force⟩

/-- All the steps in one, in at most so many turns. -/
def ofStepsIn (turns : Nat) (step : Step K (Deferred K (Packed S)) (Deferred K α)) : Deferred K α :=
  ⟨do (← step.runIn turns force).force⟩

/-- All the steps in one. -/
def ofSteps (step : Step K (Deferred K (Packed S)) (Deferred K α)) : Deferred K α :=
  ofStepsIn ample step

/-- All the steps in one computation that nests one chaining an effect, in at most so many turns.
It says what `ofSteps` has to come to. -/
def nestIn : Nat → Step K (Deferred K (Packed S)) (Deferred K α) → Deferred K α
  | 0, _ => ⟨throw .exhausted⟩
  | _ + 1, .done deferred => deferred
  | turns + 1, .next effect resume =>
    effect.bind fun value => do
      let step ← Step.answer resume value
      return nestIn turns step

/-- How a deferred computation is written: what it computes is not told. -/
def text : String := "Deferred(\"<thunk>\")"

end Deferred

end FreePrograms
