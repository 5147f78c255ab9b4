/-
# How a listing of entries is written

Every collection shows itself as the listing of the texts of its elements, first to last, either
on one line or one entry a line (`Style`).  The three collections share these functions, so contents
that are equal entry by entry are written the same whatever holds them.
-/

namespace FreePrograms.Listing

/-- All entries on one line between brackets: `[1, 2]`. -/
def line (entries : List String) : String :=
  "[" ++ ", ".intercalate entries ++ "]"

/-- A text with every line but the first moved in by four blanks. -/
def indent (text : String) : String :=
  "\n    ".intercalate (text.splitOn "\n")

/-- One entry a line, moved in and closed by a comma; with no entry, two brackets. -/
def block (entries : List String) : String :=
  if entries.isEmpty then "[]"
  else "[\n" ++ String.join (entries.map fun entry => "    " ++ indent entry ++ ",\n") ++ "]"

/-- The ways to write a listing. -/
inductive Style where
  | line
  | block

/-- The listing of the entries, in the given style. -/
def write : Style → List String → String
  | .line => line
  | .block => block

end FreePrograms.Listing
