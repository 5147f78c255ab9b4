/-
# What the reversals of a queue move

A removal at an end whose list has run out reverses the other list, and so moves all its elements.
This file follows a queue from the empty one through any moves, each made with the latest version,
and asks how often an element is moved.

* An element is pushed onto the back.  A removal at the near end that reverses the back moves it to
  the front, and as long as it lies there it has been moved (`Course.Tracked.front`).
* So it is moved again exactly if a removal at the far end finds the back empty and turns the front
  over (`TurnsFront`).  Without that, what was moved together with what lies in the back is part of
  what was pushed (`Course.Once`).

`moved_once_iff` puts the two together: each element is moved at most once, and there are at most as
many moves as pushes, if the front is never turned; and if it is, some element is moved twice.
`moved_alternating` says how bad it gets: removals at alternating ends turn everything over each
time, so that they move half the square of the number of the elements.

Elements are told apart by the number of the push that added them.  An operation cannot see that
number, as queues do the same for elements of every type.
-/
import Mathlib.Data.List.Nodup
import Mathlib.Data.List.Perm.Subperm
import Mathlib.Data.List.Range
import Mathlib.Tactic.Ring
import FreePrograms.Proofs.Queue.Removals

namespace FreePrograms.Queue

variable {α : Type}

/-! ## 1. Removals that tell what they reverse -/

/-- Removes the last element, and tells which elements a reversal moved for that. -/
def popLastTelling (queue : Queue α) : Option (α × Queue α) × List α :=
  match queue.unconsBack with
  | some popped => (some popped, [])
  | none =>
    if queue.front.isEmpty then (none, [])
    else (queue.frontToBack.unconsBack, queue.front.items)

/-- Removes the first element, and tells which elements a reversal moved for that. -/
def popFirstTelling (queue : Queue α) : Option (α × Queue α) × List α :=
  match queue.unconsFront with
  | some popped => (some popped, [])
  | none =>
    if queue.back.isEmpty then (none, [])
    else (queue.backToFront.unconsFront, queue.back.items)

theorem popLastTelling_fst (queue : Queue α) : queue.popLastTelling.1 = queue.popLast := by
  unfold popLastTelling popLast
  cases queue.unconsBack with
  | some popped => rfl
  | none =>
    by_cases hfront : queue.front.isEmpty = true
    · simp only [if_pos hfront]
    · simp only [if_neg hfront]

theorem popFirstTelling_fst (queue : Queue α) : queue.popFirstTelling.1 = queue.popFirst := by
  unfold popFirstTelling popFirst
  cases queue.unconsFront with
  | some popped => rfl
  | none =>
    by_cases hback : queue.back.isEmpty = true
    · simp only [if_pos hback]
    · simp only [if_neg hback]

/-- The back has run out and the front has not, so that a removal at the far end turns the front
over. -/
def FrontDue (queue : Queue α) : Prop := queue.back.items = [] ∧ queue.front.items ≠ []

theorem unconsBack_of_cons {queue : Queue α} {a : α} {items : List α}
    (h : queue.back.items = a :: items) :
    ∃ back, back.items = items ∧ queue.unconsBack = some (a, ⟨queue.front, back⟩) := by
  obtain ⟨front, ⟨_ | ⟨b, rest⟩, n⟩⟩ := queue
  · cases h
  · cases h
    exact ⟨⟨items, n - 1⟩, rfl, rfl⟩

/-- **What a removal at the far end does**: nothing to an empty queue, and else it takes the head of
the back, or of the reversed front if the back has run out.  Only then it moves elements, which are
those of the front. -/
theorem popLast_cases (queue : Queue α) :
    (queue.front.items = [] ∧ queue.back.items = [] ∧
      queue.popLast = none ∧ queue.popLastTelling.2 = []) ∨
    (∃ a back, queue.back.items = a :: back.items ∧
      queue.popLast = some (a, ⟨queue.front, back⟩) ∧ queue.popLastTelling.2 = []) ∨
    (queue.FrontDue ∧ ∃ a back, queue.front.items.reverse = a :: back.items ∧
      queue.popLast = some (a, ⟨.empty, back⟩) ∧
      queue.popLastTelling.2 = queue.front.items) := by
  rw [← popLastTelling_fst]
  unfold popLastTelling
  cases hback : queue.back.items with
  | cons a items =>
    obtain ⟨back, rfl, hpopped⟩ := unconsBack_of_cons hback
    simp only [hpopped]
    exact .inr (.inl ⟨a, back, by simp⟩)
  | nil =>
    have hnone : queue.unconsBack = none := by simp [unconsBack, CountedList.uncons, hback]
    by_cases hfront : queue.front.items = []
    · simp [hnone, hfront, CountedList.isEmpty]
    · obtain ⟨a, items, hreversed⟩ :=
        List.exists_cons_of_ne_nil (List.reverse_ne_nil_iff.mpr hfront)
      have hturned : queue.frontToBack.back.items = a :: items := by
        simpa [frontToBack] using hreversed
      obtain ⟨back, rfl, hpopped⟩ := unconsBack_of_cons hturned
      refine .inr (.inr ⟨⟨hback, hfront⟩, a, back, hreversed, ?_⟩)
      have hempty : queue.frontToBack.front = .empty := rfl
      simp [hnone, hfront, CountedList.isEmpty, hpopped, hempty]

/-- The same queue seen from the other end. -/
def mirror (queue : Queue α) : Queue α := ⟨queue.back, queue.front⟩

/-- **The near end is the far end of the mirrored queue.** -/
theorem popFirstTelling_eq (queue : Queue α) :
    queue.popFirstTelling =
      (queue.mirror.popLastTelling.1.map (Prod.map id mirror), queue.mirror.popLastTelling.2) := by
  obtain ⟨⟨front, m⟩, ⟨back, n⟩⟩ := queue
  have huncons (list other : CountedList α) :
      (Queue.mk list other).unconsFront =
        (Queue.mk other list).unconsBack.map (Prod.map id mirror) := by
    obtain ⟨_ | ⟨a, items⟩, k⟩ := list <;> rfl
  cases front with
  | cons a front => rfl
  | nil =>
    cases back with
    | nil => rfl
    | cons a back => exact congrArg (·, a :: back) (huncons _ _)

/-- **What a removal at the near end does**: as at the far end, with the two lists exchanged. -/
theorem popFirst_cases (queue : Queue α) :
    (queue.front.items = [] ∧ queue.back.items = [] ∧
      queue.popFirst = none ∧ queue.popFirstTelling.2 = []) ∨
    (∃ a front, queue.front.items = a :: front.items ∧
      queue.popFirst = some (a, ⟨front, queue.back⟩) ∧ queue.popFirstTelling.2 = []) ∨
    (queue.front.items = [] ∧ ∃ a front, queue.back.items.reverse = a :: front.items ∧
      queue.popFirst = some (a, ⟨front, .empty⟩) ∧
      queue.popFirstTelling.2 = queue.back.items) := by
  rw [← popFirstTelling_fst, popFirstTelling_eq, popLastTelling_fst]
  rcases queue.mirror.popLast_cases with
    ⟨hback, hfront, hpop, hmoved⟩ | ⟨a, front, hfront, hpop, hmoved⟩ |
      ⟨⟨hfront, -⟩, a, front, hreversed, hpop, hmoved⟩
  · exact .inl ⟨hfront, hback, by rw [hpop]; rfl, hmoved⟩
  · exact .inr (.inl ⟨a, front, hfront, by rw [hpop]; rfl, hmoved⟩)
  · exact .inr (.inr ⟨hfront, a, front, hreversed, by rw [hpop]; rfl, hmoved⟩)

/-! ## 2. A course of moves -/

/-- A move, always made with the latest version. -/
inductive Move (α : Type) where
  | push (a : α)
  | popLast
  | popFirst

/-- The latest version, all elements that were pushed and all that reversals moved, each with the
number of the push that added it. -/
structure Course (α : Type) where
  latest : Queue (Nat × α)
  pushed : List (Nat × α)
  moved : List (Nat × α)

namespace Course

/-- Nothing pushed yet. -/
def start : Course α := ⟨.empty, [], []⟩

/-- What a removal leaves, where so many elements were moved for it. -/
def remove (course : Course α) (popped : Option ((Nat × α) × Queue (Nat × α)))
    (moved : List (Nat × α)) : Course α :=
  ⟨(popped.map Prod.snd).getD course.latest, course.pushed, course.moved ++ moved⟩

/-- One move. -/
def step (course : Course α) : Move α → Course α
  | .push a =>
    let element := (course.pushed.length, a)
    ⟨course.latest.push element, course.pushed ++ [element], course.moved⟩
  | .popLast => course.remove course.latest.popLast course.latest.popLastTelling.2
  | .popFirst => course.remove course.latest.popFirst course.latest.popFirstTelling.2

/-- The moves one after the other. -/
def after (moves : List (Move α)) : Course α := moves.foldl step start

theorem after_concat (moves : List (Move α)) (move : Move α) :
    after (moves ++ [move]) = (after moves).step move := by
  simp [after]

/-- What was moved stays moved. -/
theorem moved_step (course : Course α) (move : Move α) :
    course.moved <+: (course.step move).moved := by
  cases move with
  | push a => exact List.prefix_refl course.moved
  | popLast | popFirst => exact List.prefix_append _ _

theorem moved_append (earlier later : List (Move α)) :
    (after earlier).moved <+: (after (earlier ++ later)).moved := by
  induction later using List.reverseRecOn with
  | nil => simp
  | append_singleton later move ih =>
    rw [← List.append_assoc, after_concat]
    exact ih.trans (moved_step _ move)

/-- Pushes are numbered from zero on, and what lies in the front was moved there. -/
structure Tracked (course : Course α) : Prop where
  numbered : course.pushed.map Prod.fst = List.range course.pushed.length
  front : course.latest.front.items ⊆ course.moved

/-- **One move keeps the front among what was moved.** -/
theorem Tracked.step {course : Course α} (h : course.Tracked) (move : Move α) :
    (course.step move).Tracked := by
  cases move with
  | push a =>
    refine ⟨?_, h.front⟩
    simp [Course.step, h.numbered, List.range_succ]
  | popLast =>
    refine ⟨h.numbered, ?_⟩
    rcases course.latest.popLast_cases with
      ⟨-, -, hpop, -⟩ | ⟨a, back, -, hpop, -⟩ | ⟨-, a, back, -, hpop, -⟩
    · simpa [Course.step, remove, hpop] using List.subset_append_of_subset_left _ h.front
    · simpa [Course.step, remove, hpop] using List.subset_append_of_subset_left _ h.front
    · simp [Course.step, remove, hpop, CountedList.empty]
  | popFirst =>
    refine ⟨h.numbered, ?_⟩
    rcases course.latest.popFirst_cases with
      ⟨-, -, hpop, -⟩ | ⟨a, front, hfront, hpop, -⟩ | ⟨-, a, front, hback, hpop, hmoved⟩
    · simpa [Course.step, remove, hpop] using List.subset_append_of_subset_left _ h.front
    · have hrest : front.items ⊆ course.moved := by
        refine List.Subset.trans (List.subset_cons_self a front.items) ?_
        rw [← hfront]
        exact h.front
      simpa [Course.step, remove, hpop] using List.subset_append_of_subset_left _ hrest
    · have hrest : front.items ⊆ course.latest.back.items := by
        refine List.Subset.trans (List.subset_cons_self a front.items) ?_
        rw [← hback]
        exact List.reverse_subset.mpr (List.Subset.refl _)
      simpa [Course.step, remove, hpop, hmoved] using List.subset_append_of_subset_right _ hrest

theorem tracked (moves : List (Move α)) : (after moves).Tracked := by
  induction moves using List.reverseRecOn with
  | nil => exact ⟨rfl, List.nil_subset _⟩
  | append_singleton moves move ih =>
    rw [after_concat]
    exact ih.step move

theorem nodup_pushed (moves : List (Move α)) : (after moves).pushed.Nodup := by
  refine List.Nodup.of_map Prod.fst ?_
  rw [(tracked moves).numbered]
  exact List.nodup_range

/-! ## 3. While the front is not turned over -/

/-- What was moved, together with what a reversal can still move, is part of what was pushed. -/
def Once (course : Course α) : Prop :=
  (course.moved ++ course.latest.back.items).Subperm course.pushed

/-- **One move that does not turn the front over keeps each element at one reversal.** -/
theorem Once.step {course : Course α} (h : course.Once) (move : Move α)
    (hmove : move = .popLast → ¬ course.latest.FrontDue) : (course.step move).Once := by
  cases move with
  | push a =>
    have hcons : (course.latest.push (course.pushed.length, a)).back.items =
      (course.pushed.length, a) :: course.latest.back.items := rfl
    simp only [Once, Course.step, hcons]
    rw [List.perm_middle.subperm_right, (List.perm_append_singleton _ _).subperm_left]
    exact (List.subperm_cons _).mpr h
  | popLast =>
    rcases course.latest.popLast_cases with
      ⟨-, -, hpop, hmoved⟩ | ⟨a, back, hback, hpop, hmoved⟩ | ⟨hdue, -⟩
    · simpa [Once, Course.step, remove, hpop, hmoved] using h
    · have hsub : (course.moved ++ back.items).Subperm
          (course.moved ++ course.latest.back.items) := by
        rw [hback]
        exact ((List.sublist_cons_self a back.items).append_left course.moved).subperm
      simpa [Once, Course.step, remove, hpop, hmoved] using hsub.trans h
    · exact absurd hdue (hmove rfl)
  | popFirst =>
    rcases course.latest.popFirst_cases with
      ⟨-, -, hpop, hmoved⟩ | ⟨a, front, -, hpop, hmoved⟩ | ⟨-, a, front, -, hpop, hmoved⟩
    · simpa [Once, Course.step, remove, hpop, hmoved] using h
    · simpa [Once, Course.step, remove, hpop, hmoved] using h
    · simpa [Once, Course.step, remove, hpop, hmoved, CountedList.empty] using h

/-- Somewhere among the moves a removal at the far end turns the front over. -/
def TurnsFront (moves : List (Move α)) : Prop :=
  ∃ before later, moves = before ++ .popLast :: later ∧ (after before).latest.FrontDue

/-- Without a removal at the far end the front is never turned. -/
theorem not_turnsFront_of_not_mem {moves : List (Move α)} (h : .popLast ∉ moves) :
    ¬ TurnsFront moves := by
  rintro ⟨before, later, rfl, -⟩
  simp at h

theorem once_of_not_turnsFront {moves : List (Move α)} (h : ¬ TurnsFront moves) :
    (after moves).Once := by
  induction moves using List.reverseRecOn with
  | nil => exact List.Subperm.refl _
  | append_singleton moves move ih =>
    have hearlier : ¬ TurnsFront moves := by
      rintro ⟨before, later, rfl, hdue⟩
      exact h ⟨before, later ++ [move], by simp, hdue⟩
    rw [after_concat]
    refine (ih hearlier).step move ?_
    rintro rfl hdue
    exact h ⟨moves, [], rfl, hdue⟩

/-- **Who turns the front over moves an element again.** -/
theorem not_nodup_of_turnsFront {moves : List (Move α)} (h : TurnsFront moves) :
    ¬ (after moves).moved.Nodup := by
  obtain ⟨before, later, rfl, hdue⟩ := h
  intro hnodup
  have hprefix := moved_append (before ++ [.popLast]) later
  rw [List.append_assoc, List.singleton_append] at hprefix
  have hturned := hprefix.sublist.nodup hnodup
  rw [after_concat] at hturned
  rcases (after before).latest.popLast_cases with
    ⟨hfront, -⟩ | ⟨a, back, hback, -⟩ | ⟨-, a, back, -, -, hmoved⟩
  · exact hdue.2 hfront
  · simp [hdue.1] at hback
  · obtain ⟨x, items, hfront⟩ := List.exists_cons_of_ne_nil hdue.2
    have hx : x ∈ (after before).latest.front.items := by simp [hfront]
    simp only [step, remove, hmoved] at hturned
    exact List.disjoint_of_nodup_append hturned ((tracked before).front hx) hx

/-- **Each element is moved at most once exactly if the front is never turned over**, and then there
are at most as many moves as pushes. -/
theorem moved_once_iff (moves : List (Move α)) :
    ((after moves).moved.Nodup ↔ ¬ TurnsFront moves) ∧
      (¬ TurnsFront moves → (after moves).moved.length ≤ (after moves).pushed.length) := by
  have honce (h : ¬ TurnsFront moves) : (after moves).moved.Subperm (after moves).pushed :=
    (List.sublist_append_left _ _).subperm.trans (once_of_not_turnsFront h)
  refine ⟨⟨fun hnodup hturns => not_nodup_of_turnsFront hturns hnodup, fun h => ?_⟩,
    fun h => (honce h).length_le⟩
  obtain ⟨moved, hperm, hsublist⟩ := honce h
  exact hperm.nodup_iff.mp (hsublist.nodup (nodup_pushed moves))

/-- Whoever only removes at the near end has every element moved at most once. -/
theorem nearEnd_moved_once :
    let moves : List (Move Nat) := [.push 1, .push 2, .popFirst, .push 3, .popFirst, .popFirst]
    ¬ TurnsFront moves ∧ (after moves).moved.Nodup ∧
      (after moves).moved.length ≤ (after moves).pushed.length := by
  intro moves
  have hquiet : ¬ TurnsFront moves := not_turnsFront_of_not_mem (by simp [moves])
  obtain ⟨hnodup, hlength⟩ := moved_once_iff moves
  exact ⟨hquiet, hnodup.mpr hquiet, hlength hquiet⟩

/-- Of two elements one is removed at each end, and the second one is moved to the front and back
again: three moves for two pushes. -/
theorem bothEnds_moved_twice :
    let course := after [.push 'a', .push 'b', .popFirst, .popLast]
    course.moved = [(1, 'b'), (0, 'a'), (1, 'b')] ∧ ¬ course.moved.Nodup ∧
      course.pushed.length < course.moved.length := by
  decide +kernel

/-! ## 4. Removals at alternating ends -/

/-- So many removals, at the near end and the far end by turns. -/
def alternating (near : Bool) : Nat → List (Move α)
  | 0 => []
  | n + 1 => (if near then .popFirst else .popLast) :: alternating (!near) n

/-- All elements lie at the far end if the next removal is at the near end, and the other way
round. -/
def Adverse (near : Bool) (queue : Queue α) (n : Nat) : Prop :=
  if near then queue.front.items = [] ∧ queue.back.items.length = n
  else queue.back.items = [] ∧ queue.front.items.length = n

/-- **A removal turns all elements over**, and those that are left lie adversely again. -/
theorem step_adverse {course : Course α} {near : Bool} {n : Nat}
    (h : Adverse near course.latest (n + 1)) :
    let next := course.step (if near then .popFirst else .popLast)
    Adverse (!near) next.latest n ∧ next.moved.length = course.moved.length + (n + 1) ∧
      next.pushed = course.pushed := by
  cases near with
  | true =>
    obtain ⟨hfront, hback⟩ := h
    rcases course.latest.popFirst_cases with
      ⟨-, hempty, -⟩ | ⟨a, front, hcons, -⟩ | ⟨-, a, front, hreversed, hpop, hmoved⟩
    · simp [hempty] at hback
    · simp [hfront] at hcons
    · have hlength := congrArg List.length hreversed
      simp only [List.length_reverse, hback, List.length_cons, Nat.add_right_cancel_iff] at hlength
      simp [Course.step, remove, hpop, hmoved, Adverse, CountedList.empty, hback, hlength]
  | false =>
    obtain ⟨hback, hfront⟩ := h
    rcases course.latest.popLast_cases with
      ⟨hempty, -⟩ | ⟨a, back, hcons, -⟩ | ⟨-, a, back, hreversed, hpop, hmoved⟩
    · simp [hempty] at hfront
    · simp [hback] at hcons
    · have hlength := congrArg List.length hreversed
      simp only [List.length_reverse, hfront, List.length_cons, Nat.add_right_cancel_iff] at hlength
      simp [Course.step, remove, hpop, hmoved, Adverse, CountedList.empty, hfront, hlength]

/-- Removals at alternating ends move what is there, then one element less, and so on to none. -/
theorem moved_alternating_from {course : Course α} {near : Bool} {n : Nat}
    (h : Adverse near course.latest n) :
    let later := (alternating near n).foldl step course
    later.pushed = course.pushed ∧
      2 * later.moved.length = 2 * course.moved.length + n * (n + 1) := by
  induction n generalizing course near with
  | zero => exact ⟨rfl, rfl⟩
  | succ n ih =>
    obtain ⟨hnext, hmoved, hpushed⟩ := step_adverse h
    obtain ⟨hlaterPushed, hlaterMoved⟩ := ih hnext
    refine ⟨hlaterPushed.trans hpushed, hlaterMoved.trans ?_⟩
    rw [hmoved]
    ring

theorem after_push (elements : List α) :
    let course := after (elements.map .push)
    Adverse true course.latest elements.length ∧ course.moved = [] ∧
      course.pushed.length = elements.length := by
  induction elements using List.reverseRecOn with
  | nil => exact ⟨⟨rfl, rfl⟩, rfl, rfl⟩
  | append_singleton elements a ih =>
    obtain ⟨⟨hfront, hback⟩, hmoved, hpushed⟩ := ih
    rw [List.map_append, List.map_singleton, after_concat]
    refine ⟨⟨hfront, ?_⟩, hmoved, ?_⟩
    · simpa [step, Queue.push, CountedList.cons] using hback
    · simpa [step] using hpushed

/-- **No number of moves for each push is enough.**  To push any elements and then to remove all of
them at alternating ends takes about half the square of their number. -/
theorem moved_alternating (elements : List α) :
    let course := after (elements.map .push ++ alternating true elements.length)
    course.pushed.length = elements.length ∧
      2 * course.moved.length = elements.length * (elements.length + 1) := by
  obtain ⟨hadverse, hmoved, hpushed⟩ := after_push elements
  obtain ⟨hlaterPushed, hlaterMoved⟩ := moved_alternating_from hadverse
  intro course
  have hcourse : course = (alternating true elements.length).foldl step
      (after (elements.map .push)) := List.foldl_append
  rw [hcourse]
  refine ⟨(congrArg List.length hlaterPushed).trans hpushed, ?_⟩
  rw [hlaterMoved, hmoved]
  simp

end Course

end FreePrograms.Queue
