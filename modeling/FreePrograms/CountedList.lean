/-
# Lists that know their length

A `CountedList` is a list beside a number.  Nothing in the type ties the two together: each
operation sets the number from the number of its argument, never by counting, so that reading
the length costs nothing.  `Counted` says that the number is right; every operation keeps it
(the lemmas of section 3), so a list made by these operations has it.

Emptiness is read off the items and equality compares the numbers first, so only a counted
list is equal to another exactly when the items are.  Whatever goes through the elements asks an
iterator for them (`iterator_yields`).
-/
import FreePrograms.Iteration
import FreePrograms.Listing

namespace FreePrograms

universe u

/-- A list and the number of its elements. -/
structure CountedList (α : Type u) where
  items : List α
  length : Nat

namespace CountedList

variable {α : Type u}

/-! ## 1. Operations -/

/-- The list with no element. -/
def empty : CountedList α := ⟨[], 0⟩

/-- Puts an element before the others. -/
def cons (list : CountedList α) (a : α) : CountedList α := ⟨a :: list.items, list.length + 1⟩

/-- The list of one element. -/
def singleton (a : α) : CountedList α := empty.cons a

/-- The first element. -/
def head? (list : CountedList α) : Option α := list.items.head?

/-- All but the first element; the tail of the empty list is the empty list. -/
def tail (list : CountedList α) : CountedList α :=
  match list.items with
  | [] => empty
  | _ :: rest => ⟨rest, list.length - 1⟩

/-- The first element and the others. -/
def uncons (list : CountedList α) : Option (α × CountedList α) :=
  match list.items with
  | [] => none
  | a :: rest => some (a, ⟨rest, list.length - 1⟩)

/-- Whether there is no element; the number is not asked. -/
def isEmpty (list : CountedList α) : Bool := list.items.isEmpty

/-- Puts each of the given elements before what is there, one after the other. -/
def consEach (list : CountedList α) (elements : List α) : CountedList α :=
  elements.foldl cons list

/-- Puts each of the given elements before what is there; they are taken away from their end. -/
def consFromEnd (list : CountedList α) (elements : Array α) : CountedList α :=
  match h : elements.back? with
  | none => list
  | some a =>
    have : elements.pop.size < elements.size := by
      obtain ⟨earlier, rfl⟩ := Array.back?_eq_some_iff.mp h
      simp
    (list.cons a).consFromEnd elements.pop
termination_by elements.size

/-- The given elements in the given order. -/
def ofList (elements : List α) : CountedList α := empty.consFromEnd elements.toArray

/-- Takes the tail `n` times, and stops at the empty list. -/
def dropFront : Nat → CountedList α → CountedList α
  | 0, list => list
  | n + 1, list => if list.isEmpty then list else dropFront n list.tail

instance : Inhabited (CountedList α) := ⟨empty⟩

/-! ## 2. Iterators, and what goes through the elements -/

/-- How far an iterator has come: the elements that are left. -/
structure Iterator (α : Type u) where
  left : List α

/-- An iterator from the first element on. -/
def iterator (list : CountedList α) : Iterator α := ⟨list.items⟩

namespace Iterator

/-- The next element, and the iterator after it. -/
def next? : Iterator α → Option (α × Iterator α)
  | ⟨a :: left⟩ => some (a, ⟨left⟩)
  | ⟨[]⟩ => none

instance : Iteration (Iterator α) α where
  next? := next?
  left iterator := iterator.left.length
  left_lt {iterator rest a} h := by
    obtain ⟨_ | ⟨b, left⟩⟩ := iterator
    · cases h
    · cases h
      exact Nat.lt_succ_self _

/-- An iterator gives what is left for it. -/
theorem yields (iterator : Iterator α) : Iteration.Yields iterator iterator.left := by
  obtain ⟨left⟩ := iterator
  induction left with
  | nil => exact .nil rfl
  | cons a left ih => exact .cons rfl ih

end Iterator

/-- **An iterator of a list gives the items**, from the first one on. -/
theorem iterator_yields (list : CountedList α) : Iteration.Yields list.iterator list.items :=
  list.iterator.yields

/-- The elements in the opposite order: each is put before those that came earlier. -/
def reverse (list : CountedList α) : CountedList α := Iteration.fold cons empty list.iterator

/-- Equal lengths, and equal elements at equal positions. -/
def same [BEq α] (left right : CountedList α) : Bool :=
  left.length == right.length && Iteration.allZip (· == ·) left.iterator right.iterator

instance [BEq α] : BEq (CountedList α) := ⟨same⟩

/-- The listing of the elements. -/
def text (style : Listing.Style) (entry : α → String) (list : CountedList α) : String :=
  Listing.write style ((Iteration.toList list.iterator).map entry)

/-- The elements between brackets, each but the first behind a comma and a blank. -/
def display (entry : α → String) (list : CountedList α) : String :=
  let (out, _) := Iteration.fold
    (fun (out, first) a => ((if first then out else out ++ ", ") ++ entry a, false)) ("[", true)
    list.iterator
  out ++ "]"

/-! ## 3. The number stays right -/

/-- The number beside the items is the number of items. -/
def Counted (list : CountedList α) : Prop := list.length = list.items.length

theorem counted_empty : (empty : CountedList α).Counted := rfl

theorem Counted.cons {list : CountedList α} (h : list.Counted) (a : α) : (list.cons a).Counted := by
  simp_all [Counted, CountedList.cons]

theorem Counted.tail {list : CountedList α} (h : list.Counted) : list.tail.Counted := by
  obtain ⟨_ | ⟨a, rest⟩, n⟩ := list
  · rfl
  · simp_all [Counted, CountedList.tail]

theorem Counted.uncons {list rest : CountedList α} {a : α} (h : list.Counted)
    (hu : list.uncons = some (a, rest)) : rest.Counted := by
  obtain ⟨_ | ⟨b, items⟩, n⟩ := list
  · simp [CountedList.uncons] at hu
  · simp only [CountedList.uncons, Option.some.injEq, Prod.mk.injEq] at hu
    obtain ⟨-, rfl⟩ := hu
    simp_all [Counted]

@[simp] theorem items_consEach (list : CountedList α) (elements : List α) :
    (list.consEach elements).items = elements.reverse ++ list.items := by
  induction elements generalizing list with
  | nil => rfl
  | cons a rest ih =>
    have := ih (list.cons a)
    simp_all [consEach, CountedList.cons]

theorem Counted.consEach {list : CountedList α} (h : list.Counted) (elements : List α) :
    (list.consEach elements).Counted := by
  induction elements generalizing list with
  | nil => exact h
  | cons a rest ih => exact ih (h.cons a)

/-- To reverse a list is to put its items before the empty list, one after the other. -/
theorem reverse_eq (list : CountedList α) : list.reverse = empty.consEach list.items :=
  list.iterator_yields.fold_eq cons empty

@[simp] theorem items_reverse (list : CountedList α) : list.reverse.items = list.items.reverse := by
  simp [reverse_eq, empty]

/-- A reversal is counted whatever the number beside its argument was. -/
theorem counted_reverse (list : CountedList α) : list.reverse.Counted := by
  rw [reverse_eq]
  exact counted_empty.consEach list.items

theorem items_consFromEnd (list : CountedList α) (elements : Array α) :
    (list.consFromEnd elements).items = elements.toList ++ list.items := by
  fun_induction consFromEnd list elements with
  | case1 list elements h => simp [Array.back?_eq_none_iff.mp h]
  | case2 list elements a h _ ih =>
    obtain ⟨earlier, rfl⟩ := Array.back?_eq_some_iff.mp h
    rw [ih]
    simp [cons]

theorem Counted.consFromEnd {list : CountedList α} (h : list.Counted) (elements : Array α) :
    (list.consFromEnd elements).Counted := by
  fun_induction CountedList.consFromEnd list elements with
  | case1 => exact h
  | case2 list elements a _ _ ih => exact ih (h.cons a)

@[simp] theorem items_ofList (elements : List α) : (ofList elements).items = elements := by
  simp [ofList, items_consFromEnd, empty]

theorem counted_ofList (elements : List α) : (ofList elements).Counted :=
  counted_empty.consFromEnd _

end CountedList

end FreePrograms
