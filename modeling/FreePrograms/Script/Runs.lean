/-
# Running the programs of a script

A program script defines named terms, builds some programs to be shared, and orders runs.  An
`Order` is carried out once for each of its modes, each time from a program that is built anew, at a
desk that is set up anew or kept; the table of known tails is kept from one run to the next.

The functions that a mode hands to the library (rendering, the end of a fold, forcing and
combining) can each be told to refuse.
-/
import FreePrograms.Brief
import FreePrograms.Program.Outline
import FreePrograms.Run.Fold
import FreePrograms.Script.Desk

namespace FreePrograms.Script

/-- A function of the host that is to refuse its argument. -/
inductive Refusal where
  | render
  | finish
  | force
  | combine
  deriving DecidableEq

/-- The ways of running a program. -/
inductive Mode where
  | inspect
  | run
  | tryRun
  /-- Folded into a deferred result, an effect chained at a time, which is then forced. -/
  | foldDeferred
  /-- Folded into lines, each effect forced at once. -/
  | foldLines
  /-- Folded into steps that are driven by hand. -/
  | walk
  /-- Folded into steps that are driven at once. -/
  | drive
  /-- Folded into steps that are deferred as a whole. -/
  | deferSteps
  /-- Folded into a deferred result. -/
  | defer
  | unknown

/-- A run to be carried out. -/
structure Order where
  /-- The modes, by the words that the script uses for them. -/
  modes : List (String × Mode)
  of : Term
  total : Int64
  input : List String
  quota : Option Nat
  stop : Option Nat
  refuse : Option Refusal
  keep : Bool
  force : Bool

/-- What came of a run. -/
inductive Result where
  | ok (value : Datum)
  | lines (lines : Brief String)
  | err (reason : String)
  | halted (message : String)
  | stopped (effect : String)
  | unforced (text : String)
  | inspected (debug pretty : String) (isDone isSuspended : Bool)
  | unknownMode

/-- The answer to an order in one mode. -/
structure RunAnswer where
  mode : String
  result : Result
  before : Option Seen
  steps : Option (Brief StepNote)
  calls : Nat
  rendered : Nat
  total : Int64
  jobs : Brief String
  emitted : Brief String
  trace : Brief String
  events : Brief String

/-- The answer to a program script: the text of each shared program, or why there is none, and the
answers to the orders. -/
structure ProgramAnswer where
  lets : List (Except String String)
  runs : List RunAnswer

/-! ## 1. The functions handed in -/

section

variable {library : Library} (order : Order)

/-- Renders an effect to itself. -/
def render (request : Request) : Run (host library) Request := do
  Run.onHost fun desk => { desk with rendered := desk.rendered + 1 }
  if order.refuse = some .render then Run.fault (Fault.renderingRefused request.text)
  return request

/-- Ends a fold with the result as a datum. -/
def finish (type : ResultType) (value : type.El) : Run (host library) Datum := do
  let datum := type.toDatum value
  if order.refuse = some .finish then Run.fault (Fault.pureRefused datum.display)
  return datum

/-- Answers an effect; a refusal of the desk is a fault. -/
def force (request : Request) : Run (host library) (Packed signature) := do
  if order.refuse = some .force then Run.fault (Fault.forceRefused request.text)
  settle (← answer library ample request)

/-- Answers an effect, or refuses it as the desk does. -/
def tryForce (request : Request) : Run (host library) (Except String (Packed signature)) := do
  if order.refuse = some .force then Run.fault (Fault.forceRefused request.text)
  answer library ample request

/-- Renders an effect to a deferred answer. -/
def renderDeferred (request : Request) :
    Run (host library) (Deferred (host library) (Packed signature)) := do
  let request ← render order request
  return ⟨force order request⟩

/-- Chains a deferred answer with the rest of the fold. -/
def combineDeferred (effect : Deferred (host library) (Packed signature))
    (rest : Packed signature → Run (host library) (Deferred (host library) Datum)) :
    Run (host library) (Deferred (host library) Datum) := do
  if order.refuse = some .combine then Run.fault Fault.combineRefused
  return effect.bind rest

/-- Writes an effect and the lines of the rest, which is run at once; stops when as many effects
were handled as the order allows. -/
def combineLines (request : Request) (rest : Packed signature → Run (host library) (List String)) :
    Run (host library) (List String) := do
  if order.refuse = some .combine then Run.fault Fault.combineRefused
  let handled := (← Run.host).trace.size
  match order.stop with
  | some stop =>
    if stop ≤ handled then return ["stopped before " ++ request.text]
  | none => pure ()
  let value ← force order request
  return request.text :: (← rest value)

/-- Notes how far the run has come before anything is driven. -/
def noteBefore : Run (host library) Unit :=
  Run.onHost fun desk => { desk with before := some desk.seen }

/-- Notes a step that is driven by hand. -/
def noteStep (step : Step (host library) Request Datum) : Run (host library) Unit :=
  Run.onHost fun desk =>
    let note : StepNote := ⟨step.isDone, desk.seen, step.line Request.text Datum.text⟩
    { desk with steps := desk.steps.map (·.push note) }

/-- Drives steps by hand, at most so many, and stops when more are noted than the order allows. -/
def walk : Nat → Step (host library) Request Datum → Run (host library) Result
  | 0, _ => throw .exhausted
  | turns + 1, step => do
    noteStep step
    match step with
    | .done value => return .ok value
    | .next request resume =>
      let noted := ((← Run.host).steps.map Array.size).getD 0
      if (order.stop.map fun stop => decide (stop < noted)).getD false then
        return .stopped request.text
      let value ← force order request
      let next ← Step.answer resume value
      walk turns next

/-! ## 2. The modes -/

/-- Forces a deferred result, unless the order is to leave it. -/
def forceOrLeave (deferred : Deferred (host library) Datum) : Run (host library) Result := do
  noteBefore
  if order.force then return .ok (← deferred.force) else return .unforced Deferred.text

/-- Runs a program in a mode. -/
def perform (made : Made) (mode : Mode) : Run (host library) Result := do
  let program := made.program
  match mode with
  | .inspect =>
    let outline := program.outline
    return .inspected (outline.line Request.text) (outline.block Request.text) program.isDone
      program.isSuspended
  | .run =>
    return .ok (made.type.toDatum (← program.run (force order)))
  | .tryRun =>
    match ← program.tryRun (tryForce order) with
    | .ok value => return .ok (made.type.toDatum value)
    | .error reason => return .err reason
  | .foldDeferred =>
    let rendering : Rendering (host library) made.type _ _ :=
      ⟨renderDeferred order, fun value => return .now (← finish order made.type value)⟩
    let deferred ← program.fold rendering (combineDeferred order)
    noteBefore
    return .ok (← deferred.force)
  | .foldLines =>
    let rendering : Rendering (host library) made.type _ _ :=
      ⟨render order, fun value => return ["= " ++ (← finish order made.type value).display]⟩
    let lines ← program.fold rendering (combineLines order)
    return .lines (.ofList lines)
  | .walk =>
    Run.onHost fun desk => { desk with steps := some #[] }
    let step ← program.steps ⟨render order, finish order made.type⟩
    walk order ample step
  | .drive =>
    let value ← program.drive ⟨render order, finish order made.type⟩ fun step => do
      noteBefore
      step.run (force order)
    return .ok value
  | .deferSteps =>
    let rendering : Rendering (host library) made.type _ _ :=
      ⟨renderDeferred order, fun value => return .now (← finish order made.type value)⟩
    forceOrLeave order (← program.drive rendering fun step => return .ofSteps step)
  | .defer =>
    let deferred ← program.defer (renderDeferred order)
    forceOrLeave order (deferred.map (finish order made.type))
  | .unknown => return .unknownMode

/-- Sets up the desk for a run. -/
def Desk.setUp (desk : Desk) : Desk :=
  let start := { Desk.fresh with input := order.input, quota := order.quota }
  if order.keep then
    { start with total := desk.total, jobs := desk.jobs, emitted := desk.emitted }
  else { start with total := order.total }

/-- Carries out an order in one mode. -/
def carryOut (word : String) (mode : Mode) : Run (host library) RunAnswer := do
  Run.onHost (Desk.setUp order)
  Run.clearEvents
  let result ← Run.attempt do
    let made ← build ample library [] order.of
    perform order made mode
  let desk ← Run.host
  let events ← Run.events
  return {
    mode := word
    result := match result with
      | .ok result => result
      | .error halt => .halted (haltMessage halt)
    before := desk.before
    steps := desk.steps.map .ofArray
    calls := desk.calls
    rendered := desk.rendered
    total := desk.total
    jobs := .ofArray desk.jobs
    emitted := .ofArray desk.emitted
    trace := .ofArray desk.trace
    events := (Brief.ofArray events).map Event.text }

end

/-! ## 3. The script -/

/-- Plans the shared programs in order.  Each can refer to those before it, and a later one of the
same name takes the place of an earlier one, unless it cannot be planned. -/
def planShared : List (String × Term) → Names → List (Except (Halt signature) Plan) × Names
  | [], names => ([], names)
  | (name, term) :: rest, names =>
    match term.plan names ample [] with
    | .ok plan =>
      let (plans, final) := planShared rest (names.share name plan.type)
      (.ok plan :: plans, final)
    | .error halt =>
      let (plans, final) := planShared rest names
      (.error halt :: plans, final)

/-- Makes the shared programs in order, behind those on the shelf: the text of each, or why there is
none, and the shelf with all of them. -/
def makeShared (names : Names) : List (Except (Halt signature) Plan) → Shelf →
    Naming (List (Except String String) × Shelf)
  | [], shelf => return ([], shelf)
  | .ok plan :: rest, shelf => do
    let made ← plan.make shelf fun env body => build ample (.forBodies names) env body
    let (texts, shelf) ← makeShared names rest (shelf.push made)
    return (.ok (made.program.outline.line Request.text) :: texts, shelf)
  | .error halt :: rest, shelf => do
    let (texts, shelf) ← makeShared names rest shelf
    return (.error (haltMessage halt) :: texts, shelf)

/-- Carries out the orders, each in all its modes. -/
def runAll (library : Library) (orders : List Order) : Run (host library) (List RunAnswer) := do
  let answers ← orders.mapM fun order =>
    order.modes.mapM fun (word, mode) => carryOut order word mode
  return answers.flatten

/-- The answer to a program script. -/
def runPrograms (definitions : List (String × Definition)) (lets : List (String × Term))
    (orders : List Order) : ProgramAnswer :=
  let (plans, names) := planShared lets (.ofDefinitions definitions)
  let ((texts, shelf), next) := (makeShared names plans #[]).run 0
  match runAll ⟨names, shelf⟩ orders (Session.startAt next Desk.fresh) with
  | .ok answers _ => ⟨texts, answers⟩
  | .error halt _ => ⟨texts ++ [.error (haltMessage halt)], []⟩

end FreePrograms.Script
