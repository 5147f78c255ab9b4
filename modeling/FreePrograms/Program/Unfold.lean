/-
# Programs that unfold from a seed

`Program.unfold` makes a program out of a seed, step by step.  A step is built only when the one
before has run, so a long program never exists as a whole.
-/
import FreePrograms.Program.Basic

namespace FreePrograms

variable {S : Signature}

/-- Unfolds `step` from a seed, in at most so many rounds, until it gives no further program. -/
def Program.unfold (type : S.Ty) (step : S.El type → Building S (Option (Program S type))) :
    Nat → S.El type → Building S (Program S type)
  | 0, _ => throw .exhausted
  | rounds + 1, seed => do
    match ← step seed with
    | none => return .pure seed
    | some program => program.bind fun value => unfold type step rounds value

end FreePrograms
