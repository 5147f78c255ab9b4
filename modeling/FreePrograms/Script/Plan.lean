/-
# Plans: terms with everything evaluated that building evaluates

A `Plan` is what is left of a term once all is evaluated that does not stand in the body of a bind
or map.  The bodies are kept as terms, each with the environment that it is evaluated in when its
continuation is applied.

A reference stands in a plan as the place of the shared program that it names.  What it names is
settled when it is planned (`Names`).  A reference outside bodies names a program planned before;
one in a body is planned during a run, when all shared programs of the script are there.  So two
shared programs may refer to each other from their bodies.

A call plans the body of a definition, which may call it again, so planning is given a number of
turns.
-/
import Std.Data.HashMap
import FreePrograms.Signature
import FreePrograms.Script.Term

namespace FreePrograms.Script

/-! ## 1. The signature of script programs -/

/-- Programs of scripts: over the result types, with requests as effects. -/
abbrev signature : Signature := ⟨ResultType, ResultType.El, inferInstance, Request, Fault⟩

/-- The message of a halt. -/
def haltMessage (halt : Halt signature) : String :=
  halt.message ResultType.fullName Fault.message

/-- A value of a type, made of a datum. -/
def convert (type : ResultType) (datum : Datum) : Except Fault type.El :=
  match type.ofDatum? datum with
  | some value => .ok value
  | none => .error (.expected type datum.kind)

/-- Steps of the script language as steps that may halt. -/
@[inline] def faulty {α : Type} (result : Except Fault α) : Except (Halt signature) α :=
  result.mapError .fault

/-! ## 2. Plans -/

/-- A term with everything evaluated that does not stand in a body. -/
inductive Plan where
  | pure (type : ResultType) (value : type.El)
  | lift (type : ResultType) (effect : Request)
  /-- Asks for an effect and makes something of any answer. -/
  | instruct (type : ResultType) (effect : Request)
      (decode : Packed signature → Except (Halt signature) type.El)
  | bind (of : Plan) (env : Env) (x : String) (body : Term)
  | map (of : Plan) (env : Env) (x : String) (f : Expr)
  | followedBy (of next : Plan)
  | chain (of : Plan) (count : Nat) (env : Env) (i x : String) (body : Term)
  /-- The shared program at that place. -/
  | shared (place : Nat) (type : ResultType)

/-- The result type of the program of a plan. -/
def Plan.type : Plan → ResultType
  | pure type _ | lift type _ | instruct type _ _ | shared _ type => type
  | bind .. | map .. | chain _ (_ + 1) .. => .val
  | chain of 0 .. => of.type
  | followedBy _ next => next.type

/-- A shared program as it is referred to: its place among the shared programs of the script, and
its result type. -/
structure Shared where
  place : Nat
  type : ResultType

/-- What terms may refer to by name, and how many shared programs are planned. -/
structure Names where
  definitions : List (String × Definition)
  shared : Std.HashMap String Shared
  planned : Nat

/-- The given definitions, and no shared program. -/
def Names.ofDefinitions (definitions : List (String × Definition)) : Names := ⟨definitions, {}, 0⟩

/-- The names with one more shared program, which takes the place of an earlier one of that name. -/
def Names.share (names : Names) (name : String) (type : ResultType) : Names :=
  ⟨names.definitions, names.shared.insert name ⟨names.planned, type⟩, names.planned + 1⟩

/-! ## 3. Planning -/

/-- The plan that asks for an effect and makes something of any answer. -/
def instruction (effect : Request) : Decoding → Except Fault Plan
  | .isUnit => .ok (.instruct .bool effect fun answer =>
      .ok (decide (answer.type = ResultType.unit)))
  | .strLength => .ok (.instruct .count effect fun answer =>
      match answer with
      | ⟨.str, s⟩ => .ok (String.utf8ByteSize s).toUInt64
      | _ => .ok 0)
  | .intOrZero => .ok (.instruct .int effect fun answer =>
      match answer with
      | ⟨.int, n⟩ => .ok n
      | _ => .ok 0)
  | .typeName => .ok (.instruct .str effect fun answer =>
      .ok (ResultType.name answer.type))
  | .refuse => .ok (.instruct .int effect fun answer =>
      .error (.fault (Fault.decodingRefused answer.type)))
  | .unknown word => .error (.unknownDecoding word)

/-- The plan of a term, in at most so many turns. -/
def Term.plan (names : Names) : Nat → Env → Term → Except (Halt signature) Plan
  | 0, _, _ => throw .exhausted
  | turns + 1, env, term =>
    match term with
    | .pure value type => do
      let datum ← faulty (value.eval env)
      return .pure type (← faulty (convert type datum))
    | .lift effect type => do
      return .lift type (← faulty (effect.request env))
    | .instruct effect decoding => do
      let request ← faulty (effect.request env)
      faulty (instruction request decoding)
    | .bind of x body => do
      return .bind (← plan names turns env of) env x body
    | .map of x f => do
      return .map (← plan names turns env of) env x f
    | .followedBy of next => do
      let next ← plan names turns env next
      return .followedBy (← plan names turns env of) next
    | .ref name =>
      match names.shared[name]? with
      | some shared => return .shared shared.place shared.type
      | none => throw (.fault (Fault.noProgram name))
    | .chain of n i x body => do
      let n ← faulty (do Expr.toInt (← n.eval env))
      return .chain (← plan names turns env of) n.toInt.toNat env i x body
    | .cond test yes no => do
      match ← faulty (test.eval env) with
      | .bool true => plan names turns env yes
      | .bool false => plan names turns env no
      | datum => throw (.fault (Fault.expected ResultType.bool datum.kind))
    | .call name arg => do
      let datum ← faulty (arg.eval env)
      match names.definitions.lookup name with
      | some definition => plan names turns [(definition.param, datum)] definition.body
      | none => throw (.fault (Fault.unknownProgram ""))
    | .unknown word => throw (.fault (Fault.unknownProgram word))

end FreePrograms.Script
