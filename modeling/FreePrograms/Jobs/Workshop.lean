/-
# The workshop: running job programs

The host of job programs records the jobs in a context and writes lines.  Every run starts with an
empty context.  `runNow` runs a program at once, `runLater` when the deferred result is
forced, and `runWithin` refuses the first job beyond a limit.
-/
import FreePrograms.Jobs.Language
import FreePrograms.Run.Handle
import FreePrograms.Run.Fold

namespace FreePrograms.Jobs

/-- The state of the host of job programs. -/
structure Workshop where
  context : Context
  lines : Array String

/-- The workshop with nothing done. -/
def Workshop.start : Workshop := ⟨⟨#[]⟩, #[]⟩

/-- The workshop as a host; it takes no note of functions applied and keeps no programs. -/
abbrev host : Host signature := ⟨Workshop, fun _ workshop => workshop, fun _ => none⟩

/-- Writes a line. -/
def writeLine (line : String) : Run host Unit :=
  Run.onHost fun ⟨context, lines⟩ => ⟨context, lines.push line⟩

/-- Records a job. -/
def record (name : String) : Run host Unit :=
  Run.onHost fun ⟨⟨jobsDone⟩, lines⟩ => ⟨⟨jobsDone.push name⟩, lines⟩

/-- Starts a context without jobs. -/
def clearContext : Run host Unit := Run.onHost fun ⟨_, lines⟩ => ⟨⟨#[]⟩, lines⟩

/-- An answer of the unit type. -/
def unitAnswer : Packed signature := ⟨Ty.unit, ()⟩

/-- Does what an effect asks for. -/
def perform (effect : Effect) : Run host (Packed signature) := do
  match effect with
  | .job1 =>
    writeLine "[job1]"
    record "job1"
    return unitAnswer
  | .job2 =>
    writeLine "[job2]"
    record "job2"
    return unitAnswer
  | .special name =>
    record name
    return unitAnswer
  | .print message =>
    writeLine ("[print:][ " ++ message ++ " ]")
    return unitAnswer
  | .read type view =>
    writeLine "[read]"
    return ⟨type, view (← Run.host).context⟩

/-- Runs a program at once, in at most so many turns. -/
def runNow {type : Ty} (turns : Nat) (program : Program signature type) : Run host type.El := do
  clearContext
  program.runIn turns perform

/-- Runs a program when the result is forced, in at most so many turns. -/
def runLater {type : Ty} (turns : Nat) (program : Program signature type) :
    Run host (Deferred host type.El) := do
  let deferred ← program.deferIn turns fun effect => return ⟨perform effect⟩
  return ⟨do
    clearContext
    deferred.force⟩

/-- Why a run with a quota is refused. -/
inductive Refused where
  | quotaExceeded (limit : Nat)

/-- The wording of a refusal. -/
def Refused.message : Refused → String
  | quotaExceeded limit => "job quota of " ++ toString limit ++ " exceeded"

/-- Does what an effect asks for, unless it is a job beyond the limit. -/
def performWithin (limit : Nat) (effect : Effect) :
    Run host (Except Refused (Packed signature)) := do
  let done := (← Run.host).context.jobsDone.size
  if effect.job?.isSome && decide (limit ≤ done) then return .error (.quotaExceeded limit)
  else return .ok (← perform effect)

/-- Runs a program, in at most so many turns, and refuses the first job beyond the limit. -/
def runWithin {type : Ty} (turns : Nat) (program : Program signature type) (limit : Nat) :
    Run host (Except Refused type.El) := do
  clearContext
  program.tryRunIn turns (performWithin limit)

end FreePrograms.Jobs
