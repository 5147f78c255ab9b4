/-
# Removals at both ends of a queue

A queue holds its elements in two lists, and a removal turns one of them over when the other has
run out, so the same elements can lie in many ways.  The results here speak of `toList` alone:

* `popLast_eq` and `popFirst_eq`: a removal is that of the list, and leaves the list of the others;
* `Counted.length_eq`, `isEmpty_eq` and `Counted.same_eq`: what is asked of a queue is what is asked
  of its list;
* `foldrM_eq`: the fold is that of the list, with the effects in the same order.

The two numbers are right (`Counted`) in every queue made by the operations.  Only the length and
the comparison ask for them.
-/
import FreePrograms.Queue

namespace FreePrograms.Queue

variable {α β : Type}

/-! ## 1. Both numbers stay right -/

/-- Both lists know their lengths. -/
structure Counted (queue : Queue α) : Prop where
  front : queue.front.Counted
  back : queue.back.Counted

theorem counted_empty : (empty : Queue α).Counted :=
  ⟨CountedList.counted_empty, CountedList.counted_empty⟩

theorem Counted.push {queue : Queue α} (h : queue.Counted) (a : α) : (queue.push a).Counted :=
  ⟨h.front, h.back.cons a⟩

theorem Counted.unconsBack {queue rest : Queue α} {a : α} (h : queue.Counted)
    (hp : queue.unconsBack = some (a, rest)) : rest.Counted := by
  obtain ⟨⟨b, back⟩, hb, heq⟩ := Option.map_eq_some_iff.mp hp
  cases heq
  exact ⟨h.front, h.back.uncons hb⟩

theorem Counted.unconsFront {queue rest : Queue α} {a : α} (h : queue.Counted)
    (hp : queue.unconsFront = some (a, rest)) : rest.Counted := by
  obtain ⟨⟨b, front⟩, hb, heq⟩ := Option.map_eq_some_iff.mp hp
  cases heq
  exact ⟨h.front.uncons hb, h.back⟩

/-- A queue that is turned over is counted, whatever it was before. -/
theorem counted_frontToBack (queue : Queue α) : queue.frontToBack.Counted :=
  ⟨CountedList.counted_empty, queue.front.counted_reverse⟩

theorem counted_backToFront (queue : Queue α) : queue.backToFront.Counted :=
  ⟨queue.back.counted_reverse, CountedList.counted_empty⟩

theorem Counted.popLast {queue rest : Queue α} {a : α} (h : queue.Counted)
    (hp : queue.popLast = some (a, rest)) : rest.Counted := by
  unfold Queue.popLast at hp
  split at hp
  · next popped hb => exact h.unconsBack (hb.trans hp)
  · split at hp
    · cases hp
    · exact queue.counted_frontToBack.unconsBack hp

theorem Counted.popFirst {queue rest : Queue α} {a : α} (h : queue.Counted)
    (hp : queue.popFirst = some (a, rest)) : rest.Counted := by
  unfold Queue.popFirst at hp
  split at hp
  · next popped hb => exact h.unconsFront (hb.trans hp)
  · split at hp
    · cases hp
    · exact queue.counted_backToFront.unconsFront hp

/-! ## 2. A removal is that of the list -/

theorem isEmpty_eq (queue : Queue α) : queue.isEmpty = queue.toList.isEmpty := by
  rw [Bool.eq_iff_iff]
  simp [isEmpty, toList, CountedList.isEmpty]

/-- Nothing can be removed exactly if nothing is there. -/
theorem popLast_eq_none_iff {queue : Queue α} : queue.popLast = none ↔ queue.toList = [] := by
  constructor
  · intro h
    unfold popLast at h
    split at h
    · cases h
    · next hb =>
      have hback : queue.back.items = [] := unconsBack_eq_none hb
      split at h
      · next hf =>
        have hfront : queue.front.items = [] := by
          simpa [CountedList.isEmpty] using hf
        simp [toList, hfront, hback]
      · have hfront := unconsBack_eq_none h
        simp only [frontToBack, CountedList.items_reverse, List.reverse_eq_nil_iff] at hfront
        simp [toList, hfront, hback]
  · intro h
    cases hp : queue.popLast with
    | none => rfl
    | some popped =>
      rw [popLast_eq_some hp] at h
      simp at h

theorem popFirst_eq_none_iff {queue : Queue α} : queue.popFirst = none ↔ queue.toList = [] := by
  constructor
  · intro h
    unfold popFirst at h
    split at h
    · cases h
    · next hf =>
      have hfront : queue.front.items = [] := unconsFront_eq_none hf
      split at h
      · next hb =>
        have hback : queue.back.items = [] := by
          simpa [CountedList.isEmpty] using hb
        simp [toList, hfront, hback]
      · have hback := unconsFront_eq_none h
        simp only [backToFront, CountedList.items_reverse, List.reverse_eq_nil_iff] at hback
        simp [toList, hfront, hback]
  · intro h
    cases hp : queue.popFirst with
    | none => rfl
    | some popped =>
      rw [popFirst_eq_some hp] at h
      simp at h

/-- **The far end is the end of the list**, and what is left is the list without it. -/
theorem popLast_eq (queue : Queue α) :
    queue.popLast.map (Prod.map id toList) =
      queue.toList.getLast?.map fun a => (a, queue.toList.dropLast) := by
  cases hp : queue.popLast with
  | none => simp [popLast_eq_none_iff.mp hp]
  | some popped =>
    obtain ⟨a, rest⟩ := popped
    simp [popLast_eq_some hp]

/-- **The near end is the head of the list**, and what is left is its tail. -/
theorem popFirst_eq (queue : Queue α) :
    queue.popFirst.map (Prod.map id toList) =
      queue.toList.head?.map fun a => (a, queue.toList.tail) := by
  cases hp : queue.popFirst with
  | none => simp [popFirst_eq_none_iff.mp hp]
  | some popped =>
    obtain ⟨a, rest⟩ := popped
    simp [popFirst_eq_some hp]

/-! ## 3. What is asked of a queue -/

theorem Counted.length_eq {queue : Queue α} (h : queue.Counted) :
    queue.length = queue.toList.length := by
  have hfront := h.front
  have hback := h.back
  simp_all [CountedList.Counted, length, toList]

/-- **Two queues are the same exactly if their lists are**, however their elements lie. -/
theorem Counted.same_eq [BEq α] {left right : Queue α} (hl : left.Counted) (hr : right.Counted) :
    left.same right = (left.toList == right.toList) := by
  rw [same, hl.length_eq, hr.length_eq, left.iterator_yields.same_eq right.iterator_yields]

/-- **The fold of a queue is the fold of its elements**, from the last one on. -/
theorem foldrM_eq {m : Type → Type} [Monad m] [LawfulMonad m] (f : α → β → m β) (acc : β)
    (queue : Queue α) : queue.foldrM f acc = queue.toList.foldrM f acc := by
  induction h : queue.held using Nat.strongRecOn generalizing queue acc with
  | _ n ih =>
    rw [foldrM]
    split
    · next hp =>
      rw [popLast_eq_none_iff.mp hp]
      rfl
    · next a rest hp =>
      have hlt : rest.held < n := h ▸ held_of_popLast hp
      rw [popLast_eq_some hp, List.foldrM_append, List.foldrM_cons, List.foldrM_nil]
      simp only [pure_bind]
      exact bind_congr fun acc => ih rest.held hlt acc rest rfl

end FreePrograms.Queue
