/-
# Terms: programs as a script writes them

A `Term` says how a program is built, an `EffectTerm` how an effect is.  Both name data by
variables, so what they build depends on the environment.  The effects themselves are `Request`s,
in which all data are there; only `sub` still holds a term, which is built when it is handled.
-/
import FreePrograms.Script.Expr

namespace FreePrograms.Script

/-- What an instruction makes of the answer to its effect. -/
inductive Decoding where
  /-- Whether the answer is of the unit type. -/
  | isUnit
  /-- How many bytes a text answer has; none for another answer. -/
  | strLength
  /-- An integer answer; zero for another answer. -/
  | intOrZero
  /-- The name of the type of the answer. -/
  | typeName
  /-- Refuses every answer. -/
  | refuse
  | unknown (word : String)

mutual

/-- Programs as a script writes them. -/
inductive Term where
  | pure (value : Expr) (type : ResultType)
  | lift (effect : EffectTerm) (type : ResultType)
  | instruct (effect : EffectTerm) (decoding : Decoding)
  | bind (of : Term) (x : String) (body : Term)
  | map (of : Term) (x : String) (f : Expr)
  | followedBy (of next : Term)
  | ref (name : String)
  /-- Binds `n` times on `of`, each body with `i` as its number and `x` as the result so far. -/
  | chain (of : Term) (n : Expr) (i x : String) (body : Term)
  | cond (test : Expr) (yes no : Term)
  | call (name : String) (arg : Expr)
  | unknown (word : String)

/-- Effects as a script writes them. -/
inductive EffectTerm where
  | add (n : Expr)
  | get
  | put (n : Expr)
  | emit (s : Expr)
  | job (s : Expr)
  | count
  | read
  | answer (word : String) (value : Expr)
  | fail (s : Expr)
  | raise (s : Expr)
  | sub (of : Term)
  | unknown (word : String)

end

instance : Inhabited Term := ⟨.unknown ""⟩

instance : Inhabited EffectTerm := ⟨.unknown ""⟩

/-- The effects of script programs. -/
inductive Request where
  | add (n : Int64)
  | get
  | put (n : Int64)
  | emit (s : String)
  | job (s : String)
  | count
  | read
  /-- To be answered by the value, at the type of that word. -/
  | answer (word : String) (value : Datum)
  | fail (s : String)
  | raise (s : String)
  /-- To be answered by the result of a program, built in that environment. -/
  | sub (env : Env) (of : Term)

/-- The text of an effect. -/
def Request.text : Request → String
  | add n => "add(" ++ toString n.toInt ++ ")"
  | get => "get"
  | put n => "put(" ++ toString n.toInt ++ ")"
  | emit s => "emit(" ++ s ++ ")"
  | job s => "job(" ++ s ++ ")"
  | count => "count"
  | read => "read"
  | answer word value => "answer(" ++ word ++ ":" ++ value.text ++ ")"
  | fail s => "fail(" ++ s ++ ")"
  | raise s => "panic(" ++ s ++ ")"
  | sub _ _ => "sub"

/-- The effect of an effect term, whose data are evaluated now. -/
def EffectTerm.request (env : Env) : EffectTerm → Except Fault Request
  | add n => do return .add (← Expr.toInt (← n.eval env))
  | get => .ok .get
  | put n => do return .put (← Expr.toInt (← n.eval env))
  | emit s => do return .emit (← s.eval env).display
  | job s => do return .job (← s.eval env).display
  | count => .ok .count
  | read => .ok .read
  | answer word value => do return .answer word (← value.eval env)
  | fail s => do return .fail (← s.eval env).display
  | raise s => do return .raise (← s.eval env).display
  | sub of => .ok (.sub env of)
  | unknown word => .error (.unknownEffect word)

/-- A named program with one parameter. -/
structure Definition where
  param : String
  body : Term

end FreePrograms.Script
