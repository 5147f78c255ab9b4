/-
# Data that scripts work on

A `Datum` is what a script computes with: nothing, a truth value, a signed 64-bit integer, a text,
a list, or the value that is equal to nothing.  Equality is by structure, and since `nan` differs
from itself so does every list that holds it: `==` on data is not reflexive, and whatever compares
collections of data must not take a shortcut through shared parts.

A datum has one exact text (`Datum.text`), in which only the quote, the backslash and the control
characters of a text are escaped.
-/

namespace FreePrograms

/-- A value of the script language. -/
inductive Datum where
  | unit
  | bool (b : Bool)
  | int (n : Int64)
  | str (s : String)
  | list (items : List Datum)
  | nan

namespace Datum

instance : Inhabited Datum := ⟨unit⟩

/-- The kind of a datum. -/
inductive Kind where
  | unit
  | bool
  | int
  | str
  | list
  | nan
  deriving DecidableEq

/-- The word for a kind in messages. -/
def Kind.name : Kind → String
  | unit => "unit"
  | bool => "bool"
  | int => "int"
  | str => "str"
  | list => "list"
  | nan => "nan"

/-- The kind of the datum. -/
def kind : Datum → Kind
  | unit => .unit
  | bool _ => .bool
  | int _ => .int
  | str _ => .str
  | list _ => .list
  | nan => .nan

/-! ## 1. Equality -/

mutual

/-- Equality by structure; `nan` differs from itself. -/
def same : Datum → Datum → Bool
  | unit, unit => true
  | bool a, bool b => a == b
  | int a, int b => a == b
  | str a, str b => a == b
  | list a, list b => sameItems a b
  | _, _ => false

/-- Equal lengths and equal data at equal positions. -/
def sameItems : List Datum → List Datum → Bool
  | [], [] => true
  | a :: as, b :: bs => same a b && sameItems as bs
  | _, _ => false

end

instance : BEq Datum := ⟨same⟩

/-! ## 2. Text -/

/-- The digit of a number below sixteen. -/
def hexDigit (n : Nat) : Char :=
  if n < 10 then Char.ofNat ('0'.toNat + n) else Char.ofNat ('a'.toNat + (n - 10))

/-- How a character stands between quotes. -/
def escapeChar (c : Char) : String :=
  if c = '"' then "\\\""
  else if c = '\\' then "\\\\"
  else if c = '\n' then "\\n"
  else if c = '\r' then "\\r"
  else if c = '\t' then "\\t"
  else if c = '\x08' then "\\b"
  else if c = '\x0c' then "\\f"
  else if c.toNat < 0x20 then
    "\\u00" ++ String.ofList [hexDigit (c.toNat / 16), hexDigit (c.toNat % 16)]
  else c.toString

/-- A text between quotes, with what must not stand there escaped. -/
def quote (s : String) : String :=
  s.foldl (fun out c => out ++ escapeChar c) "\"" ++ "\""

mutual

/-- The exact text of a datum, without blanks. -/
def text : Datum → String
  | unit => "null"
  | bool true => "true"
  | bool false => "false"
  | int n => toString n.toInt
  | str s => quote s
  | list items => "[" ++ textItems items ++ "]"
  | nan => "\x7b\"nan\":true\x7d"

/-- The texts of the data in a list, with commas between them. -/
def textItems : List Datum → String
  | [] => ""
  | [a] => text a
  | a :: rest => text a ++ "," ++ textItems rest

end

/-- The text of a datum where it is part of a message: a text stands bare. -/
def display : Datum → String
  | str s => s
  | datum => datum.text

end Datum

end FreePrograms
