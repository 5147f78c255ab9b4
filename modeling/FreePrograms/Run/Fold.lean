/-
# Folding a program into something else

The folds render a program an effect at a time.  `Program.fold` hands each rendered effect to a
function together with the fold of the rest, `Program.steps` gives the first `Step` of a chain, and
`Program.drive` gives that step to a driver.

Nothing beyond an effect is rendered or applied before the effect has an answer: the frames
before the first effect are applied by the fold itself, the others on resumption.
-/
import FreePrograms.Run.Advance
import FreePrograms.Run.Deferred

namespace FreePrograms

/-- How effects and the result are rendered. -/
structure Rendering {S : Signature} (K : Host S) (type : S.Ty) (N M : Type) where
  effect : S.Effect → Run K N
  result : S.El type → Run K M

variable {S : Signature} {K : Host S} {type : S.Ty} {N M R : Type}

/-- The turns of a fold: the result rendered, or the first effect rendered and combined with
the fold of what follows its answer. -/
def Code.fold (rendering : Rendering K type N M)
    (combine : N → (Packed S → Run K M) → Run K M) : Nat → Code S → Run K M
  | 0, _ => throw .exhausted
  | turns + 1, code => do
    match ← code.advance turns with
    | .finished value => rendering.result (← value.unpack type .result)
    | .waiting waiting =>
      let effect ← rendering.effect waiting.effect
      combine effect fun answer => do
        let code ← waiting.answer answer
        fold rendering combine turns code

/-- The turns of a fold into steps. -/
def Code.steps (rendering : Rendering K type N M) : Nat → Code S → Run K (Step K N M)
  | 0, _ => throw .exhausted
  | turns + 1, code => do
    match ← code.advance turns with
    | .finished value => return .done (← rendering.result (← value.unpack type .result))
    | .waiting waiting =>
      let effect ← rendering.effect waiting.effect
      let resume (answer : Packed S) : Run K (Step K N M) := do
        let code ← waiting.answer answer
        steps rendering turns code
      return .next effect resume

namespace Program

/-! ## 1. Folds in a number of turns -/

/-- Folds the program, combining each rendered effect with the fold of the rest. -/
def foldIn (turns : Nat) (program : Program S type) (rendering : Rendering K type N M)
    (combine : N → (Packed S → Run K M) → Run K M) : Run K M :=
  program.code.fold rendering combine turns

/-- Folds the program into a chain of steps. -/
def stepsIn (turns : Nat) (program : Program S type) (rendering : Rendering K type N M) :
    Run K (Step K N M) :=
  program.code.steps rendering turns

/-- Folds the program into a chain of steps and hands the first one to a driver.  The span is open
until the driver returns. -/
def driveIn (turns : Nat) (program : Program S type) (rendering : Rendering K type N M)
    (driver : Step K N M → Run K R) : Run K R :=
  Run.inside .drive do driver (← program.stepsIn turns rendering)

/-- Folds the program into one deferred computation that forces each effect in turn. -/
def deferIn (turns : Nat) (program : Program S type)
    (render : S.Effect → Run K (Deferred K (Packed S))) : Run K (Deferred K (S.El type)) :=
  program.driveIn turns ⟨render, fun value => return .now value⟩
    fun step => return .ofStepsIn turns step

/-! ## 2. Folds -/

/-- Folds the program, combining each rendered effect with the fold of the rest. -/
def fold (program : Program S type) (rendering : Rendering K type N M)
    (combine : N → (Packed S → Run K M) → Run K M) : Run K M :=
  program.foldIn ample rendering combine

/-- Folds the program into a chain of steps. -/
def steps (program : Program S type) (rendering : Rendering K type N M) : Run K (Step K N M) :=
  program.stepsIn ample rendering

/-- Folds the program into a chain of steps and hands the first one to a driver. -/
def drive (program : Program S type) (rendering : Rendering K type N M)
    (driver : Step K N M → Run K R) : Run K R :=
  program.driveIn ample rendering driver

/-- Folds the program into one deferred computation that forces each effect in turn. -/
def defer (program : Program S type)
    (render : S.Effect → Run K (Deferred K (Packed S))) : Run K (Deferred K (S.El type)) :=
  program.deferIn ample render

end Program

end FreePrograms
