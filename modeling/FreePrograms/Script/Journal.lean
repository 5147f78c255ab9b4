/-
# Steps as a script writes them, and the journal that answers them

Steps and deferred computations can be written down without a program.  Their host is a journal: it
logs each request and answers it by the next expression of a list, or by the request itself when
none is left.
-/
import FreePrograms.Brief
import FreePrograms.Run.Deferred
import FreePrograms.Script.Build

namespace FreePrograms.Script

/-- An entry of the log: a datum, or a label that the script gives as it is. -/
inductive LogEntry where
  | datum (d : Datum)
  | label (text : String)

/-- What is noted of a script of steps on its way. -/
inductive StateNote where
  /-- The log at that moment. -/
  | log (entries : Brief LogEntry)
  /-- A step, on one line and as a block. -/
  | step (line block : String) (done : Bool)

/-- The state of the host of steps. -/
structure Journal where
  log : Array LogEntry
  answers : List Expr
  states : Array StateNote

/-- The journal as a host; it takes no note of functions applied and keeps no programs. -/
abbrev journalHost : Host signature := ⟨Journal, fun _ journal => journal, fun _ => none⟩

/-- Logs an entry. -/
def logEntry (entry : LogEntry) : Run journalHost Unit :=
  Run.onHost fun journal => { journal with log := journal.log.push entry }

/-- Notes how things stand. -/
def noteState (note : StateNote) : Run journalHost Unit :=
  Run.onHost fun journal => { journal with states := journal.states.push note }

/-- Notes the log. -/
def noteLog : Run journalHost Unit := do
  noteState (.log (.ofArray (← Run.host).log))

/-- Answers a request: by the next expression, or by itself. -/
def respond (request : Datum) : Run journalHost (Packed signature) := do
  logEntry (.datum request)
  match (← Run.host).answers with
  | [] => return ⟨ResultType.val, request⟩
  | e :: rest =>
    Run.onHost fun journal => { journal with answers := rest }
    return ⟨ResultType.val, ← faulty (e.eval [])⟩

/-- Steps as a script writes them. -/
inductive StepTerm where
  | done (value : Expr)
  | next (ask : Expr) (x : String) (rest : StepTerm)
  | cond (test : Expr) (yes no : StepTerm)
  | call (name : String) (arg : Expr)
  | unknown (word : String)

instance : Inhabited StepTerm := ⟨.unknown ""⟩

/-- A named chain of steps with one parameter. -/
structure StepDefinition where
  param : String
  body : StepTerm

/-- How the requests and the end of a chain are shown to its driver. -/
structure StepView (N M : Type) where
  ask : Datum → N
  result : Datum → M

/-- The first step of a chain, in at most so many turns; what comes after a request is made when the
answer is there. -/
def StepTerm.step {N M : Type} (definitions : List (String × StepDefinition))
    (view : StepView N M) :
    Nat → Env → StepTerm → Run journalHost (Step journalHost N M)
  | 0, _, _ => throw .exhausted
  | turns + 1, env, term => do
    match term with
    | .done value => return .done (view.result (← faulty (value.eval env)))
    | .next ask x rest =>
      let request ← faulty (ask.eval env)
      let resume (answer : Packed signature) : Run journalHost (Step journalHost N M) := do
        let datum : Datum ← answer.unpack ResultType.val .input
        step definitions view turns ((x, datum) :: env) rest
      return .next (view.ask request) resume
    | .cond test yes no =>
      match ← faulty (test.eval env) with
      | .bool true => step definitions view turns env yes
      | _ => step definitions view turns env no
    | .call name arg =>
      let datum ← faulty (arg.eval env)
      match definitions.lookup name with
      | some definition => step definitions view turns [(definition.param, datum)] definition.body
      | none => Run.fault (Fault.unknownStep "")
    | .unknown word => Run.fault (Fault.unknownStep word)

/-- Requests as they are, and the end as it is. -/
def plainView : StepView Datum Datum := ⟨id, id⟩

/-- Requests as deferred answers, and the end as a deferred value that is logged. -/
def deferredView :
    StepView (Deferred journalHost (Packed signature)) (Deferred journalHost Datum) :=
  ⟨fun request => ⟨respond request⟩,
    fun value => ⟨do
      logEntry (.datum (.str "done"))
      return value⟩⟩

end FreePrograms.Script
