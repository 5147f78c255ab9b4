/-
# Scripts that drive steps
-/
import FreePrograms.Script.Journal

namespace FreePrograms.Script.Steps

/-- How the steps are driven. -/
inductive How where
  | run
  | deferSteps
  /-- By hand, at most so many steps if there is a limit. -/
  | walk (limit : Option Nat)
  | unknown (word : String)

/-- What came of it. -/
inductive Result where
  | ok (value : Datum)
  /-- The step at which the limit was reached. -/
  | left (text : String)
  | halted (message : String)
  | unknownHow (word : String)

/-- The answer to a script of steps. -/
structure Answer where
  result : Result
  log : Brief LogEntry
  states : Brief StateNote
  events : Brief String

/-- Drives steps by hand in at most so many turns, noting each; `limit` is how many may be noted. -/
def walk : Nat → Option Nat → Step journalHost Datum Datum → Run journalHost Result
  | 0, _, _ => throw .exhausted
  | _ + 1, some 0, step => return .left (step.line Datum.text Datum.text)
  | turns + 1, limit, step => do
    noteState (.step (step.line Datum.text Datum.text) (step.block Datum.text Datum.text)
      step.isDone)
    match step with
    | .done value => return .ok value
    | .next request resume =>
      let value ← respond request
      let next ← Step.answer resume value
      walk turns (limit.map (· - 1)) next

/-- Makes the steps of a term and drives them. -/
def drive (definitions : List (String × StepDefinition)) (of : StepTerm) :
    How → Run journalHost Result
  | .run => do
    let step ← of.step definitions plainView ample []
    return .ok (← step.run respond)
  | .deferSteps => do
    let step ← of.step definitions deferredView ample []
    let deferred := Deferred.ofSteps step
    noteLog
    return .ok (← deferred.force)
  | .walk limit => do
    let step ← of.step definitions plainView ample []
    walk ample limit step
  | .unknown word => return .unknownHow word

/-- The answer to a script of steps. -/
def run (definitions : List (String × StepDefinition)) (answers : List Expr) (of : StepTerm)
    (how : How) : Answer :=
  let script : Run journalHost Result := drive definitions of how
  let answer (result : Result) (session : Session journalHost) : Answer :=
    ⟨result, .ofArray session.host.log, .ofArray session.host.states,
      (Brief.ofArray session.events).map Event.text⟩
  match script (Session.start ⟨#[], answers, #[]⟩) with
  | .ok result session => answer result session
  | .error halt session => answer (.halted (haltMessage halt)) session

end FreePrograms.Script.Steps
