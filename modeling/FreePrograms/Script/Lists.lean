/-
# Scripts over lists that know their length
-/
import FreePrograms.CountedList
import FreePrograms.Script.Collection

namespace FreePrograms.Script.Lists

/-- What a step does with the version it works on. -/
inductive Action where
  | new
  | singleton (v : Expr)
  | ofElements (elements : Elements)
  | cons (v : Expr)
  | consEach (elements : Elements)
  | tail
  | tails (n : Nat)
  | reverse
  | copy
  | uncons
  | head
  | compare
  | front (n : Nat)
  | all
  | debug
  | display
  | pretty
  | drop
  | unknown (word : String)

/-- What is shown of a version. -/
structure View where
  empty : Bool
  head : Option Datum
  items : Brief Datum
  length : Nat

/-- The view of a version. -/
def View.of (list : CountedList Datum) : View :=
  ⟨list.isEmpty, list.head?, .ofList list.items, list.length⟩

/-- What a step does, on the version `list` and the second version `other`. -/
def Action.outcome (list other : CountedList Datum) :
    Action → Except Fault (Outcome (CountedList Datum))
  | new => return .write .nothing .empty
  | singleton v => return .write .nothing (.singleton (← v.eval []))
  | ofElements elements => return .write .nothing (.ofList (← elements.eval))
  | cons v => return .write .nothing (list.cons (← v.eval []))
  | consEach elements => return .write .nothing (list.consEach (← elements.eval))
  | tail => return .write .nothing list.tail
  | tails n => return .write .nothing (list.dropFront n)
  | reverse => return .write .nothing list.reverse
  | copy => return .write .nothing list
  | uncons =>
    match list.uncons with
    | none => return .read .nothing
    | some (a, rest) => return .write (.optional (some a)) rest
  | head => return .read (.optional list.head?)
  | compare => return .read (.compared (list == other) (list != other))
  | front n => return .read (.data (.ofList (Iteration.take n list.iterator).1))
  | all => return .read (.data (.ofList list.items))
  | debug => return .read (.text (list.text .line Datum.text))
  | display => return .read (.text (list.display Datum.display))
  | pretty => return .read (.text (list.text .block Datum.text))
  | drop => return .remove
  | unknown word => throw (.unknownStep word)

/-- One step on the registers. -/
def step (registers : Registers (CountedList Datum)) (line : Line Action) :
    StepAnswer View × Registers (CountedList Datum) :=
  let receiver := registers.get .empty line.receiver
  let other := registers.get .empty line.other
  match line.action.outcome receiver other with
  | .error fault => (.fault fault, registers)
  | .ok outcome => outcome.apply View.of registers line.receiver line.target

/-- The answer to a script that starts with no register set. -/
def run (lines : List (Line Action)) : CollectionAnswer View View :=
  let (answers, registers) := lines.foldl
    (fun (answers, registers) line =>
      let (answer, registers) := step registers line
      (answers.push answer, registers))
    (#[], Registers.none)
  ⟨answers.toList, registers.entries.map fun (name, list) => (name, View.of list)⟩

end FreePrograms.Script.Lists
