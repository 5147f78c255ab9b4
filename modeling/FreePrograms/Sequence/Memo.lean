/-
# Splitting a sequence, and the table of known tails

To split a node is to give its head and one sequence for everything behind it, its *tail*.  A tail
is found by collapsing the children into one sequence, and then kept in the table `Memo` under the
name of the node, where each name is written at most once.

A node made by linking `other` behind `source` need not be collapsed: its tail is the tail of
`source` with `other` linked behind.  So `rest` goes along the chain of sources to the nearest node
whose tail is known and replays the links below it, writing the tail of each node it passes.  Only
if no tail is known along the chain is the immediate source collapsed, and its tail is written.  Two
sequences that were made from one by linking therefore share one collapse.

`pop` gives the same head and contents as `uncons` for a node that nothing else refers to.  Such a
node is taken apart, so its own tail is not written.
-/
import Std.Data.HashMap
import FreePrograms.Sequence.Basic

namespace FreePrograms

/-- What is known beside the sequences: the next name, the tails found so far by the name of their
node, and how many times a queue of children was collapsed. -/
structure Memo (α : Type) where
  next : Cell
  tails : Std.HashMap Cell (Sequence α)
  collapses : Nat

/-- Steps that may split sequences. -/
abbrev Splitting (α : Type) := StateM (Memo α)

namespace Memo

variable {α β : Type}

/-- No node is named and no tail is known. -/
def empty : Memo α := ⟨0, {}, 0⟩

instance : Inhabited (Memo α) := ⟨empty⟩

/-- The tail of the node of that name, if it is known. -/
def tail? (memo : Memo α) (cell : Cell) : Option (Sequence α) := memo.tails[cell]?

/-- Runs steps that take names. -/
@[inline] def naming (steps : Naming β) : Splitting α β := fun ⟨next, tails, collapses⟩ =>
  let (result, next) := steps next
  (result, ⟨next, tails, collapses⟩)

/-- Writes the tail of the node of that name, unless one is written. -/
@[inline] def record (cell : Cell) (tail : Sequence α) : Splitting α Unit :=
  fun ⟨next, tails, collapses⟩ => ((), ⟨next, tails.insertIfNew cell tail, collapses⟩)

/-- Notes that a queue of children is collapsed. -/
@[inline] def noteCollapse : Splitting α Unit :=
  fun ⟨next, tails, collapses⟩ => ((), ⟨next, tails, collapses + 1⟩)

/-- The nearest node on the chain of sources, from the given one on, whose tail is known: that tail
and, nearest first, the name and the linked operand of each node below it.  `below` holds those
already passed. -/
def nearest (memo : Memo α) :
    Sequence α → List (Cell × Sequence α) → Option (Sequence α × List (Cell × Sequence α))
  | .empty, _ => none
  | .root cell _ _, below => (memo.tail? cell).map fun tail => (tail, below)
  | .linked cell _ _ _ source other, below =>
    match memo.tail? cell with
    | some tail => some (tail, below)
    | none => memo.nearest source ((cell, other) :: below)

/-- Links the operands behind a known tail, nearest node first, and writes the tail of each node
passed. -/
def replay : List (Cell × Sequence α) → Sequence α → Splitting α (Sequence α)
  | [], tail => pure tail
  | (cell, other) :: below, tail => do
    let tail ← naming (tail.link other)
    record cell tail
    replay below tail

end Memo

/-- Whether other references to a node exist when it is popped. -/
inductive Ownership where
  | unique
  | shared
  deriving DecidableEq

namespace Sequence

open Memo

variable {α : Type}

/-! ## 1. One split -/

/-- Makes one sequence of the children, from the last to the first. -/
def collapse (children : Queue (Sequence α)) : Splitting α (Sequence α) := do
  noteCollapse
  naming (children.foldrM link empty)

/-- The tail of a node by collapsing its children, written under its name. -/
def collapseAt (cell : Cell) (children : Queue (Sequence α)) : Splitting α (Sequence α) := do
  let tail ← collapse children
  record cell tail
  return tail

/-- The tail of a node whose own tail is not known. -/
def rest : Sequence α → Splitting α (Sequence α)
  | empty => pure empty
  | root _ _ children => collapse children
  | linked _ _ _ children source other =>
    match source.cell? with
    | none => collapse children
    | some cell => do
      let tail ← match (← get).nearest source [] with
        | some (tail, below) => replay below tail
        | none => collapseAt cell source.children
      naming (tail.link other)

/-- The tail of a node, looked up or found; it is written under the name of the node. -/
def tail (sequence : Sequence α) (cell : Cell) : Splitting α (Sequence α) := do
  match (← get).tail? cell with
  | some tail => return tail
  | none =>
    let tail ← sequence.rest
    record cell tail
    return tail

/-- The first element and a sequence of the others. -/
def uncons : Sequence α → Splitting α (Option (α × Sequence α))
  | empty => pure none
  | sequence@(root cell head _) | sequence@(linked cell _ head _ _ _) => do
    return some (head, ← sequence.tail cell)

/-- The tail of a node that is taken apart: looked up or found, and not written. -/
def tailUnwritten (sequence : Sequence α) (cell : Cell) : Splitting α (Sequence α) := do
  match (← get).tail? cell with
  | some tail => return tail
  | none => sequence.rest

/-- The first element and a sequence of the others, for a sequence that is given up. -/
def pop : Ownership → Sequence α → Splitting α (Option (α × Sequence α))
  | .shared, sequence => sequence.uncons
  | .unique, empty => pure none
  | .unique, sequence@(root cell head _) | .unique, sequence@(linked cell _ head _ _ _) => do
    return some (head, ← sequence.tailUnwritten cell)

/-! ## 2. Walks -/

/-- Splits off at most `n` elements: they come behind those in `out`, and the rest is left. -/
def drain : Nat → Sequence α → Array α → Splitting α (Array α × Sequence α)
  | 0, sequence, out => pure (out, sequence)
  | n + 1, sequence, out => do
    match ← sequence.uncons with
    | none => return (out, sequence)
    | some (a, rest) => drain n rest (out.push a)

/-- The first `n` elements. -/
def take (sequence : Sequence α) (n : Nat) : Splitting α (Array α) := do
  return (← sequence.drain n #[]).1

/-- All elements. -/
def elements (sequence : Sequence α) : Splitting α (Array α) := sequence.take sequence.length

/-- Whether the first `n` elements are equal at equal positions, and both sequences hold as many;
splits both in step and stops at the first difference. -/
def agree [BEq α] : Nat → Sequence α → Sequence α → Splitting α Bool
  | 0, _, _ => pure true
  | n + 1, left, right => do
    match ← left.uncons, ← right.uncons with
    | none, none => return true
    | some (a, left), some (b, right) => if a == b then agree n left right else return false
    | _, _ => return false

/-- Equal elements at equal positions, and no more in one than in the other. -/
def same [BEq α] (left right : Sequence α) : Splitting α Bool := agree (left.length + 1) left right

/-- Whether the sequences are not the same. -/
def differs [BEq α] (left right : Sequence α) : Splitting α Bool := do
  return !(← left.same right)

/-- The listing of the elements; it splits the sequence to its end. -/
def text (style : Listing.Style) (entry : α → String) (sequence : Sequence α) :
    Splitting α String := do
  return Listing.write style ((← sequence.elements).toList.map entry)

end Sequence

end FreePrograms
