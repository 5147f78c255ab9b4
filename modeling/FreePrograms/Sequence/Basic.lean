/-
# Catenable sequences

A non-empty `Sequence` is a first element and a queue of further sequences; its contents are the
first element followed by the contents of the children, in queue order (`Sequence.toList`).

`link` puts one sequence behind another in one step: it keeps the head of the first operand and
adds the second one at the far end of its children.  The node it makes also remembers both
operands, because the contents behind its head are those behind the head of the first operand
followed by the second, which is a cheaper way to find them than to go through all children; and
the number of its elements, because sequences that share their parts can hold more elements than
can be counted.

Every node carries a name, its `Cell`.  Names are handed out in order (`Naming`), one to each node
that is made.  What is known about the contents behind the head of a node is kept in a table from
names, beside the sequences (`Memo`); the sequences themselves never change.

The contents of what is made do not depend on the names it takes: linking appends them
(`toList_link`), and one more element comes at the end (`toList_snoc`).
-/
import FreePrograms.Queue

namespace FreePrograms

/-- The name of a node. -/
abbrev Cell := Nat

/-- A sequence whose parts can be shared.  `root` is a node that no `link` made; `linked` is made
by linking `other` behind `source`. -/
inductive Sequence (α : Type) where
  | empty
  | root (cell : Cell) (head : α) (children : Queue (Sequence α))
  | linked (cell : Cell) (length : Nat) (head : α) (children : Queue (Sequence α))
      (source other : Sequence α)

/-- Steps that may take new names; the state is the next name. -/
abbrev Naming := StateM Cell

/-- A name not given to any node before. -/
def Naming.fresh : Naming Cell := fun next => (next, next + 1)

namespace Sequence

variable {α : Type}

instance : Inhabited (Sequence α) := ⟨empty⟩

/-! ## 1. Making and reading nodes -/

/-- Whether there is no element. -/
def isEmpty : Sequence α → Bool
  | empty => true
  | root .. | linked .. => false

/-- The first element. -/
def first? : Sequence α → Option α
  | empty => none
  | root _ head _ | linked _ _ head _ _ _ => some head

/-- The number of elements, from the number in the node. -/
def length : Sequence α → Nat
  | empty => 0
  | root .. => 1
  | linked _ length _ _ _ _ => length

/-- The sequences behind the head. -/
def children : Sequence α → Queue (Sequence α)
  | empty => .empty
  | root _ _ children | linked _ _ _ children _ _ => children

/-- The name of the node. -/
def cell? : Sequence α → Option Cell
  | empty => none
  | root cell _ _ | linked cell _ _ _ _ _ => some cell

/-- The sequence of one element. -/
def singleton (a : α) : Naming (Sequence α) := do
  return root (← Naming.fresh) a .empty

/-- The second sequence behind the first.  If one is empty, this is the other. -/
def link (source other : Sequence α) : Naming (Sequence α) :=
  match source.first?, other.isEmpty with
  | none, _ => pure other
  | some _, true => pure source
  | some head, false => do
    return linked (← Naming.fresh) (source.length + other.length) head
      (source.children.push other) source other

/-- One more element at the far end. -/
def snoc (sequence : Sequence α) (a : α) : Naming (Sequence α) := do
  sequence.link (← singleton a)

/-- Adds the given elements at the far end, one after the other. -/
def snocEach (sequence : Sequence α) (elements : List α) : Naming (Sequence α) :=
  elements.foldlM snoc sequence

/-- The given elements in the given order. -/
def ofList (elements : List α) : Naming (Sequence α) := empty.snocEach elements

/-- Puts the given elements, in their order, before the first: the last one is put there first. -/
def consEach (sequence : Sequence α) (elements : List α) : Naming (Sequence α) :=
  elements.reverse.foldlM (fun rest a => do (← singleton a).link rest) sequence

/-- Links `other` behind, `n` times. -/
def linkTimes (other : Sequence α) : Nat → Sequence α → Naming (Sequence α)
  | 0, sequence => pure sequence
  | n + 1, sequence => do linkTimes other n (← sequence.link other)

/-- Links the sequence so far behind itself, `n` times. -/
def double : Nat → Sequence α → Naming (Sequence α)
  | 0, sequence => pure sequence
  | n + 1, sequence => do double n (← sequence.link sequence)

/-! ## 2. The contents -/

mutual

/-- The elements, first to last. -/
def toList : Sequence α → List α
  | empty => []
  | root _ head children | linked _ _ head children _ _ => head :: contents children

/-- The elements of the sequences in a queue, in queue order. -/
def contents : Queue (Sequence α) → List α
  | ⟨front, back⟩ => forward front ++ backward back

/-- The elements of the sequences in a list. -/
def forward : CountedList (Sequence α) → List α
  | ⟨items, _⟩ => flatten items

/-- The elements of the sequences in a list, the last sequence first. -/
def backward : CountedList (Sequence α) → List α
  | ⟨items, _⟩ => flattenReverse items

/-- The elements of the sequences in a list. -/
def flatten : List (Sequence α) → List α
  | [] => []
  | sequence :: rest => sequence.toList ++ flatten rest

/-- The elements of the sequences in a list, the last sequence first. -/
def flattenReverse : List (Sequence α) → List α
  | [] => []
  | sequence :: rest => flattenReverse rest ++ sequence.toList

end

/-! ## 3. The contents of what is made -/

theorem flatten_eq (items : List (Sequence α)) : flatten items = items.flatMap toList := by
  induction items with
  | nil => simp [flatten]
  | cons sequence rest ih => simp [flatten, ih]

theorem flattenReverse_eq (items : List (Sequence α)) :
    flattenReverse items = items.reverse.flatMap toList := by
  induction items with
  | nil => simp [flattenReverse]
  | cons sequence rest ih => simp [flattenReverse, ih]

/-- The contents of a queue are those of its sequences, in queue order. -/
theorem contents_eq (queue : Queue (Sequence α)) :
    contents queue = queue.toList.flatMap toList := by
  obtain ⟨⟨front, _⟩, ⟨back, _⟩⟩ := queue
  simp [contents, forward, backward, flatten_eq, flattenReverse_eq, Queue.toList]

theorem contents_push (queue : Queue (Sequence α)) (sequence : Sequence α) :
    contents (queue.push sequence) = contents queue ++ sequence.toList := by
  simp [contents_eq]

@[simp] theorem toList_empty : (empty : Sequence α).toList = [] := by simp [toList]

theorem toList_eq_nil {sequence : Sequence α} (h : sequence.isEmpty = true) :
    sequence.toList = [] := by
  cases sequence <;> simp_all [isEmpty]

@[simp] theorem toList_singleton (a : α) (next : Cell) :
    ((singleton a).run next).1.toList = [a] := by
  change toList (root next a .empty) = [a]
  simp [toList, contents_eq]

/-- Linking appends the contents, whatever names are taken. -/
@[simp] theorem toList_link (source other : Sequence α) (next : Cell) :
    ((source.link other).run next).1.toList = source.toList ++ other.toList := by
  unfold link
  split
  · next h =>
    change other.toList = _
    cases source <;> simp_all [first?]
  · next h =>
    change source.toList = _
    simp [toList_eq_nil h]
  · next head hs ho =>
    change toList (linked next _ head (source.children.push other) source other) = _
    cases source with
    | empty => cases hs
    | root cell a children =>
      cases hs
      simp [toList, Sequence.children, contents_push]
    | linked cell n a children source' other' =>
      cases hs
      simp [toList, Sequence.children, contents_push]

@[simp] theorem toList_snoc (sequence : Sequence α) (a : α) (next : Cell) :
    ((sequence.snoc a).run next).1.toList = sequence.toList ++ [a] := by
  change ((sequence.link (root next a .empty)).run (next + 1)).1.toList = _
  simp [toList, contents_eq]

end Sequence

end FreePrograms
