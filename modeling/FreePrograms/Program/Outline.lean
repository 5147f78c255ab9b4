/-
# How the outline of a program is written

An outline is a word and named fields between braces, either on one line or one field a line.  The
continuations are functions, so of them only their presence is told.
-/
import FreePrograms.Listing
import FreePrograms.Program.Basic

namespace FreePrograms.Program.Outline

variable {S : Signature}

/-- The word and the fields that are shown. -/
def fields (effectText : S.Effect → String) (outline : Outline S) :
    String × List (String × String) :=
  let pending := ("continuations", if outline.pending then "\"<sequence>\"" else "\"<none>\"")
  match outline.effect with
  | none => ("Done", [pending])
  | some effect => ("Suspended", [("effect", effectText effect), pending])

/-- The outline on one line. -/
def line (effectText : S.Effect → String) (outline : Outline S) : String :=
  let (word, fields) := outline.fields effectText
  word ++ " \x7b " ++ ", ".intercalate (fields.map fun (name, text) => name ++ ": " ++ text)
    ++ " \x7d"

/-- The outline with one field a line. -/
def block (effectText : S.Effect → String) (outline : Outline S) : String :=
  let (word, fields) := outline.fields effectText
  word ++ " \x7b\n"
    ++ String.join (fields.map fun (name, text) =>
      "    " ++ Listing.indent (name ++ ": " ++ text) ++ ",\n")
    ++ "\x7d"

end FreePrograms.Program.Outline
