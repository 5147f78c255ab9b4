/-
# Running a program with a handler

`Program.tryRun` answers each effect of a program by a handler, in program order and each once,
until the program yields its result or the handler refuses.  A refusal is returned unchanged and
nothing is applied after it.
-/
import FreePrograms.Ample
import FreePrograms.Run.Advance

namespace FreePrograms

variable {S : Signature} {K : Host S} {type : S.Ty} {Failure : Type}

/-- What answers effects: a value, or a refusal. -/
abbrev Handler (K : Host S) (Failure : Type) := S.Effect → Run K (Except Failure (Packed S))

/-- The turns of a run with a handler.  `effects` were handled before. -/
def Code.handle (handler : Handler K Failure) :
    Nat → Nat → Code S → Run K (Except Failure (Packed S))
  | 0, _, _ => throw .exhausted
  | turns + 1, effects, code => do
    match ← code.advance turns with
    | .finished value =>
      Run.tell (.programFinished effects)
      return .ok value
    | .waiting waiting =>
      match ← handler waiting.effect with
      | .ok answer =>
        let code ← waiting.answer answer
        handle handler turns (effects + 1) code
      | .error failure =>
        Run.tell (.handlerFailed (effects + 1))
        return .error failure

namespace Program

/-- Runs the program in at most so many turns, with a handler that may refuse. -/
def tryRunIn (turns : Nat) (program : Program S type) (handler : Handler K Failure) :
    Run K (Except Failure (S.El type)) :=
  Run.inside .run do
    match ← program.code.handle handler turns 0 with
    | .ok value => return .ok (← value.unpack type .result)
    | .error failure => return .error failure

/-- Runs the program in at most so many turns, with a handler that answers every effect. -/
def runIn (turns : Nat) (program : Program S type) (handler : S.Effect → Run K (Packed S)) :
    Run K (S.El type) := do
  let answer (effect : S.Effect) : Run K (Except Empty (Packed S)) :=
    return .ok (← handler effect)
  match ← program.tryRunIn turns answer with
  | .ok value => return value

/-- Runs the program with a handler that may refuse. -/
def tryRun (program : Program S type) (handler : Handler K Failure) :
    Run K (Except Failure (S.El type)) :=
  program.tryRunIn ample handler

/-- Runs the program with a handler that answers every effect. -/
def run (program : Program S type) (handler : S.Effect → Run K (Packed S)) : Run K (S.El type) :=
  program.runIn ample handler

end Program

end FreePrograms
