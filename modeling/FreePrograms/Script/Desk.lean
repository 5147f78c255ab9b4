/-
# The desk: how the effects of scripts are answered

The host of script programs is a desk with a running total, the jobs done, the texts emitted, and
lines of input still to be read.  It notes the text of every effect before it handles it, and counts
the functions of the script that are applied.

A sub-program is built and run at the same desk while its effect is handled.
-/
import FreePrograms.Run.Handle
import FreePrograms.Script.Build

namespace FreePrograms.Script

/-- How far a run has come: functions applied, effects handled, effects rendered. -/
structure Seen where
  calls : Nat
  effects : Nat
  rendered : Nat

/-- What is noted of a step that is driven by hand. -/
structure StepNote where
  done : Bool
  seen : Seen
  text : String

/-- The state of the host of script programs. -/
structure Desk where
  total : Int64
  jobs : Array String
  emitted : Array String
  /-- Lines not read yet. -/
  input : List String
  /-- The most jobs that may be done. -/
  quota : Option Nat
  trace : Array String
  calls : Nat
  rendered : Nat
  /-- How far the run had come when its fold was there and nothing was driven yet. -/
  before : Option Seen
  /-- The steps driven by hand; none before the program is there. -/
  steps : Option (Array StepNote)

namespace Desk

/-- The desk at which nothing has happened. -/
def fresh : Desk := ⟨0, #[], #[], [], none, #[], 0, 0, none, none⟩

/-- How far the run has come. -/
def seen (desk : Desk) : Seen := ⟨desk.calls, desk.trace.size, desk.rendered⟩

/-- Notes an effect. -/
def note (desk : Desk) (text : String) : Desk := { desk with trace := desk.trace.push text }

/-- Why no further job may be done, if the quota is used up. -/
def quotaReached? (desk : Desk) : Option String :=
  match desk.quota with
  | some quota =>
    if quota ≤ desk.jobs.size then some ("job quota of " ++ toString quota ++ " exceeded")
    else none
  | none => none

end Desk

/-- The desk as a host: it counts the functions that a script handed in, and keeps the shared
programs of a library. -/
abbrev host (library : Library) : Host signature where
  State := Desk
  observe callback desk :=
    match callback with
    | .bind .given _ => { desk with calls := desk.calls + 1 }
    | .bind .glue _ | .decode _ | .kept _ => desk
  kept := library.kept

variable {library : Library}

/-- An answer of the unit type. -/
def unitAnswer : Packed signature := ⟨ResultType.unit, ()⟩

/-- The value, with a refusal as a fault of the handler. -/
def settle (answer : Except String (Packed signature)) : Run (host library) (Packed signature) :=
  match answer with
  | .ok value => pure value
  | .error reason => Run.fault (Fault.handlerFailed reason)

/-- Handles an effect, in at most so many turns: the answer, or why it is refused. -/
def answer (library : Library) :
    Nat → Request → Run (host library) (Except String (Packed signature))
  | 0, _ => throw .exhausted
  | turns + 1, request => do
    Run.onHost fun desk => desk.note request.text
    match request with
    | .add n =>
      Run.onHost fun desk => { desk with total := desk.total + n }
      return .ok unitAnswer
    | .get => return .ok ⟨ResultType.int, (← Run.host).total⟩
    | .put n =>
      Run.onHost fun desk => { desk with total := n }
      return .ok unitAnswer
    | .emit s =>
      Run.onHost fun desk => { desk with emitted := desk.emitted.push s }
      return .ok unitAnswer
    | .job s =>
      match (← Run.host).quotaReached? with
      | some reason => return .error reason
      | none =>
        Run.onHost fun desk => { desk with jobs := desk.jobs.push s }
        return .ok unitAnswer
    | .count => return .ok ⟨ResultType.count, (← Run.host).jobs.size.toUInt64⟩
    | .read =>
      match (← Run.host).input with
      | [] => return .ok unitAnswer
      | line :: rest =>
        Run.onHost fun desk => { desk with input := rest }
        return .ok ⟨ResultType.str, line⟩
    | .answer word value => return .ok ⟨.named word, ← faulty (convert (.named word) value)⟩
    | .fail s => return .error s
    | .raise s => Run.fault (Fault.raised s)
    | .sub env of => do
      let made ← build turns library env of
      let value ← made.program.runIn turns fun request => do
        settle (← answer library turns request)
      return .ok ⟨ResultType.val, made.type.toDatum value⟩

end FreePrograms.Script
