/-
# Scripts over queues
-/
import FreePrograms.Queue
import FreePrograms.Script.Collection

namespace FreePrograms.Script.Queues

/-- What a step does with the version it works on. -/
inductive Action where
  | new
  | push (v : Expr)
  | pushEach (elements : Elements)
  | copy
  | popLast
  | popFirst
  | drainLast
  | drainFirst
  | foldData
  | foldText (v : Expr)
  | foldNumber (v : Expr)
  | compare
  | front (n : Nat)
  | debug
  | pretty
  | drop
  | unknown (word : String)

/-- What is shown of a version. -/
structure View where
  empty : Bool
  items : Brief Datum
  length : Nat

/-- The view of a version. -/
def View.of (queue : Queue Datum) : View := ⟨queue.isEmpty, .ofList queue.toList, queue.length⟩

/-- One element worked into a number: thirty-one times what there is, and the element. -/
def workIn (a : Datum) (acc : Int64) : Except Fault Int64 := do
  return acc * 31 + (← Expr.toInt a)

/-- The reply to a removal, and the rest. -/
def popped : Option (Datum × Queue Datum) → Outcome (Queue Datum)
  | none => .read .nothing
  | some (a, rest) => .write (.optional (some a)) rest

/-- What a step does, on the version `queue` and the second version `other`. -/
def Action.outcome (queue other : Queue Datum) : Action → Except Fault (Outcome (Queue Datum))
  | new => return .write .nothing .empty
  | push v => return .write .nothing (queue.push (← v.eval []))
  | pushEach elements => return .write .nothing (queue.pushEach (← elements.eval))
  | copy => return .write .nothing queue
  | popLast => return popped queue.popLast
  | popFirst => return popped queue.popFirst
  | drainLast =>
    let (out, rest) := queue.drainLast #[]
    return .write (.data (.ofArray out)) rest
  | drainFirst =>
    let (out, rest) := queue.drainFirst #[]
    return .write (.data (.ofArray out)) rest
  | foldData => return .read (.data (.ofArray (queue.foldr (fun a seen => seen.push a) #[])))
  | foldText v => do
    let seed ← v.eval []
    return .read (.text (queue.foldr (fun a acc => "(" ++ a.display ++ " " ++ acc ++ ")")
      seed.display))
  | foldNumber v => do
    let seed ← Expr.toInt (← v.eval [])
    return .read (.datum (.int (← queue.foldrM workIn seed)))
  | compare => return .read (.compared (queue == other) (queue != other))
  | front n => return .read (.data (.ofList (Iteration.take n queue.iterator).1))
  | debug => return .read (.text (queue.text .line Datum.text))
  | pretty => return .read (.text (queue.text .block Datum.text))
  | drop => return .remove
  | unknown word => throw (.unknownStep word)

/-- One step on the registers. -/
def step (registers : Registers (Queue Datum)) (line : Line Action) :
    StepAnswer View × Registers (Queue Datum) :=
  let receiver := registers.get .empty line.receiver
  let other := registers.get .empty line.other
  match line.action.outcome receiver other with
  | .error fault => (.fault fault, registers)
  | .ok outcome => outcome.apply View.of registers line.receiver line.target

/-- The answer to a script that starts with no register set. -/
def run (lines : List (Line Action)) : CollectionAnswer View View :=
  let (answers, registers) := lines.foldl
    (fun (answers, registers) line =>
      let (answer, registers) := step registers line
      (answers.push answer, registers))
    (#[], Registers.none)
  ⟨answers.toList, registers.entries.map fun (name, queue) => (name, View.of queue)⟩

end FreePrograms.Script.Queues
