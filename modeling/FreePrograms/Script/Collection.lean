/-
# Scripts over versions of a collection

A collection script is a list of steps over named registers, each of which holds one version of a
collection.  A step reads the version in its `receiver` and perhaps a second one, in `other`, and
may write a new version to its `target`; nothing else changes, so every other version stays what it
was.  A step that fails changes nothing at all.

This module holds what the scripts over lists, queues and sequences share.
-/
import FreePrograms.Brief
import FreePrograms.Script.Expr

namespace FreePrograms.Script

/-! ## 1. Registers -/

/-- The versions by the name of their register. -/
structure Registers (α : Type) where
  entries : List (String × α)

namespace Registers

variable {α : Type}

/-- No register is set. -/
def none : Registers α := ⟨[]⟩

/-- The version in a register, if it is set. -/
def find? (registers : Registers α) (name : String) : Option α := registers.entries.lookup name

/-- The version in a register; one that was never set holds the given empty version. -/
def get (registers : Registers α) (empty : α) (name : String) : α :=
  (registers.find? name).getD empty

/-- Removes a register. -/
def drop (registers : Registers α) (name : String) : Registers α :=
  ⟨registers.entries.filter fun entry => entry.1 != name⟩

/-- Writes a register. -/
def set (registers : Registers α) (name : String) (version : α) : Registers α :=
  ⟨(name, version) :: (registers.drop name).entries⟩

end Registers

/-! ## 2. Steps and their answers -/

/-- Data that a step is given several of: by expressions, or the integers from `low` up to, but
without, `high`. -/
inductive Elements where
  | items (expressions : List Expr)
  | range (low high : Int64)

/-- The data, in order. -/
def Elements.eval : Elements → Except Fault (List Datum)
  | items expressions => Expr.evalEach [] expressions
  | range low high =>
    .ok ((List.range (high.toInt - low.toInt).toNat).map fun i => .int (low + Int64.ofNat i))

/-- One line of a script: what its step does, and the registers it names. -/
structure Line (Action : Type) where
  action : Action
  receiver : String
  target : String
  other : String

/-- What a step found out. -/
inductive Reply where
  | nothing
  | flag (b : Bool)
  | number (n : Nat)
  | text (s : String)
  | datum (d : Datum)
  | optional (d : Option Datum)
  | data (ds : Brief Datum)
  /-- Whether two versions are equal, and whether they differ. -/
  | compared (equal different : Bool)
  /-- Heads beside the first element behind each. -/
  | heads (pairs : Brief (Datum × Option Datum))

/-- The answer to a step: a fault, or a reply and, if a version was written, a view of it. -/
inductive StepAnswer (View : Type) where
  | fault (fault : Fault)
  | done (reply : Reply) (view : Option View)

/-- The answer to a script: one answer a step, and the views of the registers in the end. -/
structure CollectionAnswer (View Final : Type) where
  steps : List (StepAnswer View)
  final : List (String × Final)

/-- What a step comes to: it leaves them, removes the receiver, or writes the target. -/
inductive Outcome (α : Type) where
  | read (reply : Reply)
  | remove
  | write (reply : Reply) (version : α)

variable {α View : Type}

/-- Carries out what a step came to on the registers. -/
def Outcome.apply (view : α → View) (registers : Registers α) (receiver target : String) :
    Outcome α → StepAnswer View × Registers α
  | read reply => (.done reply none, registers)
  | remove => (.done (.flag (registers.find? receiver).isSome) none, registers.drop receiver)
  | write reply version => (.done reply (some (view version)), registers.set target version)

end FreePrograms.Script
