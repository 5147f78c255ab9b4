/-
# Queues held as two lists

The elements of a `Queue` are those of `front`, in order, followed by those of `back` in the
opposite order (`Queue.toList`).  `push` adds at the far end, and both ends can be removed from.

A removal reverses the other list only when its own list has run out, and then all of it.  An
element is moved by one reversal at most if all removals are at the near end, and may be moved again
by each removal if they alternate between the ends.
-/
import FreePrograms.CountedList

namespace FreePrograms

universe u v

/-- A queue: `front` first to last, then `back` last to first. -/
structure Queue (α : Type u) where
  front : CountedList α
  back : CountedList α

namespace Queue

variable {α : Type u} {β : Type v}

/-! ## 1. Operations -/

/-- The queue with no element. -/
def empty : Queue α := ⟨.empty, .empty⟩

instance : Inhabited (Queue α) := ⟨empty⟩

/-- Adds an element at the far end. -/
def push (queue : Queue α) (a : α) : Queue α := ⟨queue.front, queue.back.cons a⟩

/-- Adds each of the given elements at the far end, one after the other. -/
def pushEach (queue : Queue α) (elements : List α) : Queue α := elements.foldl push queue

/-- The number of elements, from the numbers of the two lists. -/
def length (queue : Queue α) : Nat := queue.front.length + queue.back.length

/-- Whether there is no element. -/
def isEmpty (queue : Queue α) : Bool := queue.front.isEmpty && queue.back.isEmpty

/-- The same elements with all of `front` brought to `back`; for a queue whose `back` is empty. -/
def frontToBack (queue : Queue α) : Queue α := ⟨.empty, queue.front.reverse⟩

/-- The same elements with all of `back` brought to `front`; for a queue whose `front` is empty. -/
def backToFront (queue : Queue α) : Queue α := ⟨queue.back.reverse, .empty⟩

/-- Removes the last element of a queue whose `back` holds one. -/
def unconsBack (queue : Queue α) : Option (α × Queue α) :=
  queue.back.uncons.map fun (a, back) => (a, ⟨queue.front, back⟩)

/-- Removes the first element of a queue whose `front` holds one. -/
def unconsFront (queue : Queue α) : Option (α × Queue α) :=
  queue.front.uncons.map fun (a, front) => (a, ⟨front, queue.back⟩)

/-- Removes the last element. -/
def popLast (queue : Queue α) : Option (α × Queue α) :=
  match queue.unconsBack with
  | some popped => some popped
  | none => if queue.front.isEmpty then none else queue.frontToBack.unconsBack

/-- Removes the first element. -/
def popFirst (queue : Queue α) : Option (α × Queue α) :=
  match queue.unconsFront with
  | some popped => some popped
  | none => if queue.back.isEmpty then none else queue.backToFront.unconsFront

/-- The elements, first to last. -/
def toList (queue : Queue α) : List α := queue.front.items ++ queue.back.items.reverse

/-! ## 2. Iterators, and what goes through the elements -/

/-- How far an iterator has come: an iterator of `front`, and what is left of `back` in the opposite
order. -/
structure Iterator (α : Type u) where
  front : CountedList.Iterator α
  back : List α

/-- An iterator from the first element on. -/
def iterator (queue : Queue α) : Iterator α :=
  ⟨queue.front.iterator, (Iteration.toList queue.back.iterator).reverse⟩

namespace Iterator

/-- The next element, and the iterator after it: one of `front`, and of `back` when there is none
left. -/
def next? (iterator : Iterator α) : Option (α × Iterator α) :=
  match iterator.front.next? with
  | some (a, front) => some (a, ⟨front, iterator.back⟩)
  | none =>
    match iterator.back with
    | a :: back => some (a, ⟨iterator.front, back⟩)
    | [] => none

instance : Iteration (Iterator α) α where
  next? := next?
  left iterator := iterator.front.left.length + iterator.back.length
  left_lt {iterator rest a} h := by
    obtain ⟨⟨_ | ⟨b, front⟩⟩, _ | ⟨c, back⟩⟩ := iterator
    · cases h
    all_goals
      cases h
      simp +arith

/-- An iterator gives what is left of `front`, and then what is left of `back`. -/
theorem yields (iterator : Iterator α) :
    Iteration.Yields iterator (iterator.front.left ++ iterator.back) := by
  obtain ⟨⟨front⟩, back⟩ := iterator
  induction front with
  | nil =>
    induction back with
    | nil => exact .nil rfl
    | cons a back ih => exact .cons rfl ih
  | cons a front ih => exact .cons rfl ih

end Iterator

/-- **An iterator of a queue gives its elements**, first to last. -/
theorem iterator_yields (queue : Queue α) : Iteration.Yields queue.iterator queue.toList := by
  have hiterator : queue.iterator = ⟨queue.front.iterator, queue.back.items.reverse⟩ := by
    rw [iterator, queue.back.iterator_yields.toList_eq]
  rw [hiterator]
  exact Iterator.yields _

/-- Equal lengths, and equal elements at equal positions. -/
def same [BEq α] (left right : Queue α) : Bool :=
  left.length == right.length && Iteration.allZip (· == ·) left.iterator right.iterator

instance [BEq α] : BEq (Queue α) := ⟨same⟩

/-- The listing of the elements. -/
def text (style : Listing.Style) (entry : α → String) (queue : Queue α) : String :=
  Listing.write style ((Iteration.toList queue.iterator).map entry)

/-! ## 3. Removals and the view -/

/-- The number of elements that the two lists hold.  It bounds every loop of removals. -/
def held (queue : Queue α) : Nat := queue.front.items.length + queue.back.items.length

theorem held_eq (queue : Queue α) : queue.held = queue.toList.length := by
  simp [held, toList]

@[simp] theorem toList_empty : (empty : Queue α).toList = [] := rfl

@[simp] theorem toList_push (queue : Queue α) (a : α) :
    (queue.push a).toList = queue.toList ++ [a] := by
  simp [push, toList, CountedList.cons]

theorem unconsBack_eq_some {queue rest : Queue α} {a : α}
    (h : queue.unconsBack = some (a, rest)) :
    queue.toList = rest.toList ++ [a] := by
  obtain ⟨front, ⟨_ | ⟨b, items⟩, n⟩⟩ := queue
  · simp [unconsBack, CountedList.uncons] at h
  · simp only [unconsBack, CountedList.uncons, Option.map_some, Option.some.injEq,
      Prod.mk.injEq] at h
    obtain ⟨rfl, rfl⟩ := h
    simp [toList]

theorem unconsFront_eq_some {queue rest : Queue α} {a : α}
    (h : queue.unconsFront = some (a, rest)) :
    queue.toList = a :: rest.toList := by
  obtain ⟨⟨_ | ⟨b, items⟩, n⟩, back⟩ := queue
  · simp [unconsFront, CountedList.uncons] at h
  · simp only [unconsFront, CountedList.uncons, Option.map_some, Option.some.injEq,
      Prod.mk.injEq] at h
    obtain ⟨rfl, rfl⟩ := h
    simp [toList]

theorem unconsBack_eq_none {queue : Queue α} (h : queue.unconsBack = none) :
    queue.back.items = [] := by
  obtain ⟨front, ⟨_ | ⟨b, items⟩, n⟩⟩ := queue
  · rfl
  · simp [unconsBack, CountedList.uncons] at h

theorem unconsFront_eq_none {queue : Queue α} (h : queue.unconsFront = none) :
    queue.front.items = [] := by
  obtain ⟨⟨_ | ⟨b, items⟩, n⟩, back⟩ := queue
  · rfl
  · simp [unconsFront, CountedList.uncons] at h

theorem popLast_eq_some {queue rest : Queue α} {a : α} (h : queue.popLast = some (a, rest)) :
    queue.toList = rest.toList ++ [a] := by
  unfold popLast at h
  split at h
  · next popped hp => exact unconsBack_eq_some (hp.trans h)
  · next hp =>
    split at h
    · cases h
    · have := unconsBack_eq_some h
      simpa [frontToBack, toList, CountedList.empty, unconsBack_eq_none hp] using this

theorem popFirst_eq_some {queue rest : Queue α} {a : α} (h : queue.popFirst = some (a, rest)) :
    queue.toList = a :: rest.toList := by
  unfold popFirst at h
  split at h
  · next popped hp => exact unconsFront_eq_some (hp.trans h)
  · next hp =>
    split at h
    · cases h
    · have := unconsFront_eq_some h
      simpa [backToFront, toList, CountedList.empty, unconsFront_eq_none hp] using this

theorem held_of_popLast {queue rest : Queue α} {a : α} (h : queue.popLast = some (a, rest)) :
    rest.held < queue.held := by
  simp [held_eq, popLast_eq_some h]

theorem held_of_popFirst {queue rest : Queue α} {a : α} (h : queue.popFirst = some (a, rest)) :
    rest.held < queue.held := by
  simp [held_eq, popFirst_eq_some h]

/-! ## 4. Loops of removals -/

/-- Takes the last element out again and again, and hands each with the accumulator to `f`. -/
@[specialize] def foldrM {m : Type v → Type v} [Monad m] (f : α → β → m β) (acc : β)
    (queue : Queue α) : m β :=
  match h : queue.popLast with
  | none => pure acc
  | some (a, rest) => do
    have : rest.held < queue.held := held_of_popLast h
    let acc ← f a acc
    rest.foldrM f acc
termination_by queue.held

/-- The fold from the last element to the first. -/
def foldr (f : α → β → β) (acc : β) (queue : Queue α) : β :=
  Id.run (queue.foldrM (fun a acc => pure (f a acc)) acc)

/-- Removes last elements until none is left: what came out, in that order after `out`, and the
queue that is left. -/
def drainLast (queue : Queue α) (out : Array α) : Array α × Queue α :=
  match h : queue.popLast with
  | none => (out, queue)
  | some (a, rest) =>
    have : rest.held < queue.held := held_of_popLast h
    rest.drainLast (out.push a)
termination_by queue.held

/-- Removes first elements until none is left: what came out, in that order after `out`, and the
queue that is left. -/
def drainFirst (queue : Queue α) (out : Array α) : Array α × Queue α :=
  match h : queue.popFirst with
  | none => (out, queue)
  | some (a, rest) =>
    have : rest.held < queue.held := held_of_popFirst h
    rest.drainFirst (out.push a)
termination_by queue.held

end Queue

end FreePrograms
