/-
# What programs are over

A `Signature` fixes the result types that programs may have, the values of each, the effects that a
program can ask for, and the causes for which the functions handed in by a host may fail.

Inside a program values of different types stand side by side, so they are held together with
their type (`Packed`) and given back at a type that is compared with it (`Packed.unpack`).  There
are three places where this is done, and a mismatch names its place (`Boundary`).
-/

namespace FreePrograms

/-- The types, values, effects and faults of a family of programs. -/
structure Signature where
  Ty : Type
  El : Ty → Type
  decEq : DecidableEq Ty
  Effect : Type
  Fault : Type

instance (S : Signature) : DecidableEq S.Ty := S.decEq

/-- A value together with its type. -/
structure Packed (S : Signature) where
  type : S.Ty
  value : S.El type

/-- Where a value is given back at a type. -/
inductive Boundary where
  /-- The answer to an effect, at the type the effect was lifted at. -/
  | answer
  /-- The input of a continuation. -/
  | input
  /-- The result of a whole run. -/
  | result
  deriving DecidableEq

/-- The words for a boundary in messages. -/
def Boundary.name : Boundary → String
  | answer => "effect result type mismatch at lift boundary"
  | input => "continuation input type mismatch"
  | result => "final result type mismatch"

/-- Why a computation stopped without a result. -/
inductive Halt (S : Signature) where
  | mismatch (boundary : Boundary) (expected : S.Ty)
  /-- A function handed in by the host failed. -/
  | fault (fault : S.Fault)
  /-- No program of the expected type is kept at a place. -/
  | absent (place : Nat)
  /-- The turns allowed to a loop ran out. -/
  | exhausted

variable {S : Signature}

/-- The wording of a halt, from the names of types and the wording of faults. -/
def Halt.message (typeName : S.Ty → String) (faultMessage : S.Fault → String) : Halt S → String
  | mismatch boundary expected => boundary.name ++ ": expected `" ++ typeName expected ++ "`"
  | fault f => faultMessage f
  | absent place => "no program is kept at place " ++ toString place
  | exhausted => "out of turns"

/-- The value, if it has the expected type. -/
def Packed.unpack (packed : Packed S) (expected : S.Ty) (boundary : Boundary) :
    Except (Halt S) (S.El expected) :=
  if h : packed.type = expected then .ok (h ▸ packed.value)
  else .error (.mismatch boundary expected)

@[simp] theorem Packed.unpack_self (type : S.Ty) (value : S.El type) (boundary : Boundary) :
    (Packed.mk type value).unpack type boundary = .ok value := by
  simp [unpack]

theorem Packed.unpack_of_ne {packed : Packed S} {expected : S.Ty} (boundary : Boundary)
    (h : packed.type ≠ expected) :
    packed.unpack expected boundary = .error (.mismatch boundary expected) := by
  simp [unpack, h]

end FreePrograms
