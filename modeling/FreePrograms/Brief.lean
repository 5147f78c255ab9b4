/-
# Long lists told briefly

An answer shows a list of up to forty entries whole, and of a longer one the first ten, the last
ten and the length.
-/

namespace FreePrograms

universe u v

/-- What is shown of a list. -/
inductive Brief (α : Type u) where
  | whole (entries : List α)
  | ends (first : List α) (length : Nat) (last : List α)

namespace Brief

variable {α : Type u} {β : Type v}

/-- The longest list that is shown whole. -/
def longest : Nat := 40

/-- How many entries of a longer list are shown at each end. -/
def shown : Nat := 10

/-- What is shown of the given list. -/
def ofList (entries : List α) : Brief α :=
  let length := entries.length
  if length ≤ longest then whole entries
  else ends (entries.take shown) length (entries.drop (length - shown))

/-- What is shown of the list of the given array. -/
def ofArray (entries : Array α) : Brief α :=
  if entries.size ≤ longest then whole entries.toList
  else ends (entries.extract 0 shown).toList entries.size
    (entries.extract (entries.size - shown) entries.size).toList

/-- The same with each entry shown replaced. -/
def map (f : α → β) : Brief α → Brief β
  | whole entries => whole (entries.map f)
  | ends first length last => ends (first.map f) length (last.map f)

end Brief

end FreePrograms
