/-
# Steps

A fold that does not run a program gives a `Step`: the final value, or the next effect as the fold
rendered it, and how to go on once it has an answer.  Who drives the steps decides when, and
whether, effects happen.
-/
import FreePrograms.Ample
import FreePrograms.Run.Session

namespace FreePrograms

/-- One step of a fold, over rendered effects `N` and a rendered result `M`. -/
inductive Step {S : Signature} (K : Host S) (N M : Type) : Type where
  | done (value : M)
  | next (effect : N)
      (resume : Packed S → Session K → EStateM.Result (Halt S) (Session K) (Step K N M))

namespace Step

variable {S : Signature} {K : Host S} {N M : Type}

/-- Whether no effect is left. -/
def isDone : Step K N M → Bool
  | done _ => true
  | next .. => false

/-- Goes on with the answer to the effect. -/
@[inline] def answer
    (resume : Packed S → Session K → EStateM.Result (Halt S) (Session K) (Step K N M))
    (value : Packed S) : Run K (Step K N M) :=
  resume value

/-- The turns of driving steps to their end.  `effects` were forced before. -/
def drive (force : N → Run K (Packed S)) : Nat → Nat → Step K N M → Run K M
  | 0, _, _ => throw .exhausted
  | _ + 1, effects, done value => do
    Run.tell (.stepsFinished effects)
    return value
  | turns + 1, effects, next effect resume => do
    let value ← force effect
    let step ← answer resume value
    drive force turns (effects + 1) step

/-- Drives the steps to their end in at most so many turns, forcing each effect in turn. -/
def runIn (turns : Nat) (step : Step K N M) (force : N → Run K (Packed S)) : Run K M :=
  Run.inside .steps (step.drive force turns 0)

/-- Drives the steps to their end, forcing each effect in turn. -/
def run (step : Step K N M) (force : N → Run K (Packed S)) : Run K M := step.runIn ample force

/-- Folds the steps in at most so many turns: each effect is combined with the fold of what follows
its answer, and the final value is taken as it is. -/
def foldIn (combine : N → (Packed S → Run K M) → Run K M) : Nat → Step K N M → Run K M
  | 0, _ => throw .exhausted
  | _ + 1, done value => return value
  | turns + 1, next effect resume =>
    combine effect fun value => do
      let step ← answer resume value
      step.foldIn combine turns

/-! ## How a step is written -/

/-- The word for a step and the texts of its parts; how to go on is not told. -/
def fields (effectText : N → String) (valueText : M → String) :
    Step K N M → String × List String
  | done value => ("Done", [valueText value])
  | next effect _ => ("Next", [effectText effect, "\"<resume>\""])

/-- A step on one line. -/
def line (effectText : N → String) (valueText : M → String) (step : Step K N M) : String :=
  let (word, fields) := step.fields effectText valueText
  word ++ "(" ++ ", ".intercalate fields ++ ")"

/-- A step with one part a line. -/
def block (effectText : N → String) (valueText : M → String) (step : Step K N M) : String :=
  let (word, fields) := step.fields effectText valueText
  word ++ "(\n" ++ String.join (fields.map fun text => "    " ++ text ++ ",\n") ++ ")"

end Step

end FreePrograms
