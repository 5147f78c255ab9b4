/-
# Scripts over deferred computations
-/
import FreePrograms.Script.Journal

namespace FreePrograms.Script.Deferreds

/-- Deferred computations as a script writes them.  A `log` is written when the computation is
forced, after what it depends on. -/
inductive DeferredTerm where
  | now (value : Expr)
  | new (log : String) (value : Expr)
  | map (of : DeferredTerm) (x : String) (log : String) (f : Expr)
  | bind (of : DeferredTerm) (x : String) (log : String) (body : DeferredTerm)
  | mapTimes (of : DeferredTerm) (n : Expr) (x : String) (f : Expr)
  | bindTimes (of : DeferredTerm) (n : Expr) (x : String) (body : DeferredTerm)
  | ofSteps (step : StepTerm)
  | unknown (word : String)

instance : Inhabited DeferredTerm := ⟨.unknown ""⟩

/-- A deferred datum of a script. -/
abbrev Made := Deferred journalHost Datum

/-- Does the same to a deferred datum so many times. -/
def times (change : Made → Made) : Nat → Made → Made
  | 0, deferred => deferred
  | n + 1, deferred => times change n (change deferred)

/-- The deferred datum of a term.  Bodies are built when what they depend on has been forced. -/
def DeferredTerm.build (definitions : List (String × StepDefinition)) (env : Env) :
    DeferredTerm → Run journalHost Made
  | now value => do
    let datum ← faulty (value.eval env)
    return .now datum
  | new log value => return ⟨do
    logEntry (.label log)
    faulty (value.eval env)⟩
  | map of x log f => do
    let of ← of.build definitions env
    return of.map fun datum => do
      logEntry (.label log)
      faulty (f.eval ((x, datum) :: env))
  | bind of x log body => do
    let of ← of.build definitions env
    return of.bind fun datum => do
      logEntry (.label log)
      body.build definitions ((x, datum) :: env)
  | mapTimes of n x f => do
    let n ← faulty (do Expr.toInt (← n.eval env))
    let of ← of.build definitions env
    let change (deferred : Made) : Made :=
      deferred.map fun datum => faulty (f.eval ((x, datum) :: env))
    return times change n.toInt.toNat of
  | bindTimes of n x body => do
    let n ← faulty (do Expr.toInt (← n.eval env))
    let of ← of.build definitions env
    let change (deferred : Made) : Made :=
      deferred.bind fun datum => body.build definitions ((x, datum) :: env)
    return times change n.toInt.toNat of
  | ofSteps step => do
    let step ← step.step definitions deferredView ample env
    return .ofSteps step
  | unknown word => Run.fault (Fault.unknownDeferred word)

/-- What came of a script. -/
inductive Result where
  | ok (value : Datum)
  | unforced
  | halted (message : String)

/-- The answer to a script; `before` is the log when the computation was there and not forced. -/
structure Answer where
  result : Result
  before : Option (Brief LogEntry)
  text : Option String
  log : Brief LogEntry
  events : Brief String

/-- Builds the computation and notes the log; then forces it, if it is to be forced. -/
def drive (definitions : List (String × StepDefinition)) (of : DeferredTerm) (force : Bool) :
    Run journalHost Result := do
  let deferred ← of.build definitions []
  noteLog
  if force then return .ok (← deferred.force) else return .unforced

/-- The answer to a script over deferred computations. -/
def run (definitions : List (String × StepDefinition)) (answers : List Expr) (of : DeferredTerm)
    (force : Bool) : Answer :=
  let script : Run journalHost Result := drive definitions of force
  let answer (result : Result) (session : Session journalHost) : Answer :=
    let journal : Journal := session.host
    let before := match journal.states.toList with
      | .log entries :: _ => some entries
      | _ => none
    ⟨result, before, before.map fun _ => Deferred.text, .ofArray journal.log,
      (Brief.ofArray session.events).map Event.text⟩
  match script (Session.start ⟨#[], answers, #[]⟩) with
  | .ok result session => answer result session
  | .error halt session => answer (.halted (haltMessage halt)) session

end FreePrograms.Script.Deferreds
