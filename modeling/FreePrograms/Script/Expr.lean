/-
# Expressions

An `Expr` is evaluated in an environment of named data.  Parts are evaluated from left to right,
both operands before either is looked at, and the first fault ends the evaluation.  Integers wrap
at 64 bits.
-/
import FreePrograms.Script.Fault

namespace FreePrograms.Script

/-- Named data; the entry nearest the front is the one that counts. -/
abbrev Env := List (String × Datum)

/-- The expressions of scripts. -/
inductive Expr where
  | unit
  | bool (b : Bool)
  | int (n : Int64)
  | str (s : String)
  | nan
  /-- A number that no datum stands for. -/
  | outOfRange
  | list (items : List Expr)
  | var (name : String)
  | add (a b : Expr)
  | sub (a b : Expr)
  | mul (a b : Expr)
  | lt (a b : Expr)
  | eq (a b : Expr)
  /-- The displayed texts of the data in a list, joined. -/
  | cat (e : Expr)
  | snoc (items e : Expr)
  | raise (e : Expr)
  | empty
  | unknown (key : String)

namespace Expr

instance : Inhabited Expr := ⟨unit⟩

/-- The expression for a numeral: an integer if it is a sign at most and digits, and fits 64 bits
with a sign.  Any other numeral, minus zero among them, is a number that no datum stands for. -/
def ofNumeral (numeral : String) : Expr :=
  match numeral.toInt? with
  | some n =>
    if numeral ≠ "-0" ∧ -0x8000000000000000 ≤ n ∧ n ≤ 0x7fffffffffffffff then int (Int64.ofInt n)
    else outOfRange
  | none => outOfRange

/-- The integer that a datum is. -/
def toInt : Datum → Except Fault Int64
  | .int n => .ok n
  | datum => .error (.expected .int datum.kind)

/-- The data of a list. -/
def toList : Datum → Except Fault (List Datum)
  | .list items => .ok items
  | datum => .error (.expectedList (some datum.kind))

/-- Applies a function of two integers; the first operand is looked at first. -/
def onInts (f : Int64 → Int64 → Datum) (a b : Datum) : Except Fault Datum := do
  let m ← toInt a
  let n ← toInt b
  return f m n

mutual

/-- The datum of an expression. -/
def eval (env : Env) : Expr → Except Fault Datum
  | unit => .ok .unit
  | bool b => .ok (.bool b)
  | int n => .ok (.int n)
  | str s => .ok (.str s)
  | nan => .ok .nan
  | outOfRange => .error .numberOutOfRange
  | list items => do return .list (← evalEach env items)
  | var name =>
    match env.lookup name with
    | some datum => .ok datum
    | none => .error (.unbound name)
  | add a b => do onInts (fun m n => .int (m + n)) (← eval env a) (← eval env b)
  | sub a b => do onInts (fun m n => .int (m - n)) (← eval env a) (← eval env b)
  | mul a b => do onInts (fun m n => .int (m * n)) (← eval env a) (← eval env b)
  | lt a b => do onInts (fun m n => .bool (decide (m < n))) (← eval env a) (← eval env b)
  | eq a b => do
    let a ← eval env a
    let b ← eval env b
    return .bool (a == b)
  | cat e => do
    match ← eval env e with
    | .list items => return .str (String.join (items.map Datum.display))
    | _ => throw (.expectedList none)
  | snoc items e => do
    let items ← eval env items
    let datum ← eval env e
    return .list ((← toList items) ++ [datum])
  | raise e => do throw (.raised (← eval env e).display)
  | empty => .error .emptyExpression
  | unknown key => .error (.unknownExpression key)

/-- The data of several expressions, in order. -/
def evalEach (env : Env) : List Expr → Except Fault (List Datum)
  | [] => .ok []
  | e :: rest => do
    let datum ← eval env e
    return datum :: (← evalEach env rest)

end

end Expr

end FreePrograms.Script
