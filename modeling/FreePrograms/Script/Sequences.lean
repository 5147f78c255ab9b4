/-
# Scripts over catenable sequences

The table of known tails goes along with the registers: what one version's split finds out is
there for all of them, and no step removes anything from it.
-/
import FreePrograms.Sequence.Memo
import FreePrograms.Script.Collection

namespace FreePrograms.Script.Sequences

/-- What a step does with the version it works on. -/
inductive Action where
  | new
  | singleton (v : Expr)
  | ofElements (elements : Elements)
  | snoc (v : Expr)
  | snocEach (elements : Elements)
  | consEach (elements : Elements)
  | link
  | linkTimes (n : Nat)
  | double (n : Nat)
  | copy
  | uncons
  /-- Splits off so many elements, or all. -/
  | drain (n : Option Nat)
  | first
  | all
  | front (n : Nat)
  | count
  | compare
  | debug
  | pretty
  | siblings (n : Nat)
  | drop
  | unknown (word : String)

/-- What is shown of a version that a step wrote: nothing that needs a split. -/
structure View where
  empty : Bool
  first : Option Datum

/-- The view of a version. -/
def View.of (sequence : Sequence Datum) : View := ⟨sequence.isEmpty, sequence.first?⟩

/-- For each number below `n`, from `i` on: the sequence with that number behind it is split, and
its head comes behind `out` with the first element of the rest. -/
def siblings (sequence : Sequence Datum) :
    Nat → Nat → Array (Datum × Option Datum) → Splitting Datum (Array (Datum × Option Datum))
  | 0, _, out => pure out
  | n + 1, i, out => do
    let longer ← Memo.naming (sequence.snoc (.int (Int64.ofNat i)))
    match ← longer.uncons with
    | none => siblings sequence n (i + 1) out
    | some (head, rest) => siblings sequence n (i + 1) (out.push (head, rest.first?))

/-- Writes a version that is made with new names. -/
def written (version : Naming (Sequence Datum)) : Splitting Datum (Outcome (Sequence Datum)) := do
  return .write .nothing (← Memo.naming version)

/-- What a step is to do once its data are known. -/
inductive Work where
  | write (version : Naming (Sequence Datum))
  | read (reply : Splitting Datum Reply)
  | other (outcome : Splitting Datum (Outcome (Sequence Datum)))

/-- Carries out the work of a step. -/
def Work.carryOut : Work → Splitting Datum (Outcome (Sequence Datum))
  | write version => written version
  | read reply => do return .read (← reply)
  | other outcome => outcome

/-- What a step does, on the version `sequence` and the second version `other`.  Its data are
evaluated before any sequence is made or split. -/
def Action.work (sequence other : Sequence Datum) : Action → Except Fault Work
  | new => return .write (pure .empty)
  | singleton v => do
    let datum ← v.eval []
    return .write (Sequence.singleton datum)
  | ofElements elements => do
    let data ← elements.eval
    return .write (Sequence.ofList data)
  | snoc v => do
    let datum ← v.eval []
    return .write (sequence.snoc datum)
  | snocEach elements => do
    let data ← elements.eval
    return .write (sequence.snocEach data)
  | consEach elements => do
    let data ← elements.eval
    return .write (sequence.consEach data)
  | link => return .write (sequence.link other)
  | linkTimes n => return .write (Sequence.linkTimes other n sequence)
  | double n => return .write (Sequence.double n sequence)
  | copy => return .write (pure sequence)
  | uncons => return .other do
    match ← sequence.uncons with
    | none => return .read .nothing
    | some (a, rest) => return .write (.optional (some a)) rest
  | drain n => return .other do
    let (out, rest) ← sequence.drain (n.getD sequence.length) #[]
    return .write (.data (.ofArray out)) rest
  | first => return .read (pure (.optional sequence.first?))
  | all => return .read do return .data (.ofArray (← sequence.elements))
  | front n => return .read do return .data (.ofArray (← sequence.take n))
  | count => return .read do return .number (← sequence.elements).size
  | compare => return .read do
    let equal ← sequence.same other
    let different ← sequence.differs other
    return .compared equal different
  | debug => return .read do return .text (← sequence.text .line Datum.text)
  | pretty => return .read do return .text (← sequence.text .block Datum.text)
  | siblings n => return .read do
    return .heads (.ofArray (← Sequences.siblings sequence n 0 #[]))
  | drop => return .other (pure .remove)
  | unknown word => throw (.unknownStep word)

/-- One step on the registers. -/
def step (registers : Registers (Sequence Datum)) (line : Line Action) :
    Splitting Datum (StepAnswer View × Registers (Sequence Datum)) :=
  match line.action.work (registers.get .empty line.receiver) (registers.get .empty line.other) with
  | .error fault => pure (.fault fault, registers)
  | .ok work => do
    return (← work.carryOut).apply View.of registers line.receiver line.target

/-- The answer to a script that starts with no register set; the final view of a register holds
its elements. -/
def run (lines : List (Line Action)) : CollectionAnswer View (Brief Datum) :=
  let script : Splitting Datum (CollectionAnswer View (Brief Datum)) := do
    let (answers, registers) ← lines.foldlM
      (fun (answers, registers) line => do
        let (answer, registers) ← step registers line
        return (answers.push answer, registers))
      ((#[] : Array (StepAnswer View)), Registers.none)
    let final ← registers.entries.mapM fun (name, sequence) => do
      return (name, Brief.ofArray (← sequence.elements))
    return ⟨answers.toList, final⟩
  (script Memo.empty).1

end FreePrograms.Script.Sequences
