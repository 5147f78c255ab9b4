/-
# Building the program of a term

A term is planned, and then the program of the plan is made, which evaluates nothing: it puts the
frames together.  The frame of a body builds the program of the body when it is applied.  A body's
program of another type than `val` is fitted by a plain conversion, which the host does not count as
one of the script's functions.

Shared programs are on a shelf, by their place.  Outside bodies a reference takes its program from
there.  A body is built during a run, and there a reference is a program that goes on with the one
that the host keeps at the place; so the frames of a shared program need not hold the programs that
their bodies refer to, which may be later ones or the program itself.
-/
import FreePrograms.Program.Basic
import FreePrograms.Script.Plan

namespace FreePrograms.Script

/-- A program together with its result type. -/
structure Made where
  type : ResultType
  program : Program signature type

/-- The program with any datum as its result. -/
def Made.asVal (made : Made) : Naming (Program signature ResultType.val) :=
  match made with
  | ⟨.val, program⟩ => pure program
  | ⟨type, program⟩ => program.convert type.toDatum

/-- Goes on with a program that depends on the result as a datum. -/
def Made.bind (made : Made) (body : Datum → Building signature Made) : Naming Made := do
  let continuation (value : made.type.El) : Building signature (Program signature ResultType.val) :=
    do (← body (made.type.toDatum value)).asVal
  return ⟨.val, ← Program.bind made.program continuation⟩

/-- Yields what a function makes of the result as a datum. -/
def Made.map (made : Made) (f : Datum → Except Fault Datum) : Naming Made := do
  let function (value : made.type.El) : Except (Halt signature) (signature.El ResultType.val) :=
    faulty (f (made.type.toDatum value))
  return ⟨.val, ← Program.map made.program function⟩

/-- Binds `count` bodies, numbered from `k` on, one behind the other. -/
def Made.chain (made : Made) (body : Int64 → Datum → Building signature Made) :
    Nat → Nat → Naming Made
  | 0, _ => pure made
  | count + 1, k => do (← made.bind (body (Int64.ofNat k))).chain body count (k + 1)

/-- The shared programs that are made, by their place. -/
abbrev Shelf := Array Made

/-- The program of a plan; `body` builds the program of a body.  A shared program that is not on the
shelf is one that the host keeps. -/
def Plan.make (shelf : Shelf) (body : Env → Term → Building signature Made) : Plan → Naming Made
  | .pure type value => return ⟨type, .pure value⟩
  | .lift type effect => return ⟨type, .lift effect⟩
  | .instruct type effect decode => return ⟨type, .liftWith effect decode⟩
  | .bind of env x term => do
    let of ← of.make shelf body
    of.bind fun datum => body ((x, datum) :: env) term
  | .map of env x f => do
    let of ← of.make shelf body
    of.map fun datum => f.eval ((x, datum) :: env)
  | .followedBy of next => do
    let next ← next.make shelf body
    let of ← of.make shelf body
    return ⟨next.type, ← of.program.followedBy next.program⟩
  | .chain of count env i x term => do
    let of ← of.make shelf body
    let link (k : Int64) (datum : Datum) := body ((x, datum) :: (i, .int k) :: env) term
    of.chain link count 0
  | .shared place type =>
    match shelf[place]? with
    | some made => return made
    | none => do
      let start : Program signature ResultType.unit := .pure ()
      return ⟨type, ← start.followedByKept place⟩

/-- What programs are built with: what terms refer to by name, and the shared programs made. -/
structure Library where
  names : Names
  shelf : Shelf

/-- The library for bodies, which leave the shared programs to the host. -/
def Library.forBodies (names : Names) : Library := ⟨names, #[]⟩

/-- The program kept at a place for the frames that name it. -/
def Library.kept (library : Library) (place : Nat) :
    Option ((type : ResultType) × Program signature type) :=
  library.shelf[place]?.map fun made => ⟨made.type, made.program⟩

/-- The program of a term, in at most so many turns. -/
def build : Nat → Library → Env → Term → Building signature Made
  | 0, _, _, _ => throw .exhausted
  | turns + 1, ⟨names, shelf⟩, env, term => do
    let plan ← term.plan names turns env
    plan.make shelf fun env body => build turns (.forBodies names) env body

end FreePrograms.Script
