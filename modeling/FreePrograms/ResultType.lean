/-
# The result types of script programs

A program of a script has one of six result types.  `val` holds any datum; each of the others holds
one kind only, so a datum is converted to such a type or refused (`ResultType.ofDatum?`).  A count
is an unsigned 64-bit number that is written like the signed number of the same bits.
-/
import FreePrograms.Datum

namespace FreePrograms

/-- The result types of script programs. -/
inductive ResultType where
  | val
  | int
  | str
  | unit
  | bool
  | count
  deriving DecidableEq

namespace ResultType

/-- The values of a result type. -/
abbrev El : ResultType → Type
  | val => Datum
  | int => Int64
  | str => String
  | unit => Unit
  | bool => Bool
  | count => UInt64

/-- The word for a type in scripts and messages. -/
def name : ResultType → String
  | val => "val"
  | int => "int"
  | str => "str"
  | unit => "unit"
  | bool => "bool"
  | count => "count"

/-- The type that a script names; any other word means `val`. -/
def named (word : String) : ResultType :=
  match word with
  | "int" => int
  | "str" => str
  | "unit" => unit
  | "bool" => bool
  | "count" => count
  | _ => val

/-- The type as the messages of a mismatch call it. -/
def fullName : ResultType → String
  | val => "driver::Val"
  | int => "i64"
  | str => "alloc::string::String"
  | unit => "()"
  | bool => "bool"
  | count => "usize"

/-- The value of the type that a datum stands for, if it stands for one. -/
def ofDatum? : (type : ResultType) → Datum → Option type.El
  | val, datum => some datum
  | int, .int n => some n
  | str, .str s => some s
  | unit, .unit => some ()
  | bool, .bool b => some b
  | count, .int n => some n.toUInt64
  | _, _ => none

/-- The datum that stands for a value. -/
def toDatum : (type : ResultType) → type.El → Datum
  | val, datum => datum
  | int, n => .int n
  | str, s => .str s
  | unit, _ => .unit
  | bool, b => .bool b
  | count, n => .int n.toInt64

end ResultType

end FreePrograms
