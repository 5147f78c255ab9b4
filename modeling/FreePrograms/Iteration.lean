/-
# Iterators

An iterator gives elements one after the other until none is left.  What a kind of iterators brings
is the next element, and a bound that tells that there is an end (`Iteration`).  Everything else that
is done with iterators is a loop over the next element: to hand each element on (`fold`), to ask for
some of them or for all (`take`, `toList`), and to go through two iterators side by side (`allZip`).

`Yields` says which elements an iterator gives.  Each loop does with the iterator what lists do with
these elements, so all that is left to show of a kind of iterators is what they yield.
-/

namespace FreePrograms

universe u v w

/-- A kind of iterators: the next element and the iterator after it, of which less is left. -/
class Iteration (ι : Type u) (α : outParam (Type v)) where
  next? : ι → Option (α × ι)
  /-- A bound on how many elements are left. -/
  left : ι → Nat
  left_lt {iterator rest : ι} {a : α} : next? iterator = some (a, rest) → left rest < left iterator

namespace Iteration

variable {ι κ : Type u} {α β : Type v} {γ : Type w} [Iteration ι α] [Iteration κ β]

/-! ## 1. Loops -/

/-- Hands each element that is left to `f`, the first one first. -/
@[specialize] def fold (f : γ → α → γ) (acc : γ) (iterator : ι) : γ :=
  match h : next? iterator with
  | none => acc
  | some (a, rest) =>
    have : left rest < left iterator := left_lt h
    fold f (f acc a) rest
termination_by left iterator

/-- All elements that are left. -/
def toList (iterator : ι) : List α := (fold (fun came a => a :: came) [] iterator).reverse

/-- Asks for so many elements, which are put before those that came earlier. -/
def collect : Nat → List α → ι → List α × ι
  | 0, earlier, iterator => (earlier, iterator)
  | n + 1, earlier, iterator =>
    match next? iterator with
    | none => (earlier, iterator)
    | some (a, rest) => collect n (a :: earlier) rest

/-- The elements that come when so many are asked for, and the iterator after them. -/
def take (n : Nat) (iterator : ι) : List α × ι :=
  let (came, rest) := collect n [] iterator
  (came.reverse, rest)

/-- Whether the relation holds of the elements of two iterators side by side, as long as both give
one. -/
@[specialize] def allZip (relation : α → β → Bool) (first : ι) (second : κ) : Bool :=
  match h : next? first with
  | none => true
  | some (a, rest) =>
    have : left rest < left first := left_lt h
    match next? second with
    | none => true
    | some (b, rest') => relation a b && allZip relation rest rest'
termination_by left first

section Equations

variable {iterator rest : ι} {other rest' : κ} {a : α} {b : β}

theorem fold_of_none (h : next? iterator = none) (f : γ → α → γ) (acc : γ) :
    fold f acc iterator = acc := by
  rw [fold]
  split <;> simp_all

theorem fold_of_some (h : next? iterator = some (a, rest)) (f : γ → α → γ) (acc : γ) :
    fold f acc iterator = fold f (f acc a) rest := by
  rw [fold]
  split <;> simp_all

variable (relation : α → β → Bool)

theorem allZip_of_none (h : next? iterator = none) : allZip relation iterator other = true := by
  rw [allZip]
  split <;> simp_all

theorem allZip_of_some_none (h : next? iterator = some (a, rest)) (h' : next? other = none) :
    allZip relation iterator other = true := by
  rw [allZip]
  split <;> simp_all

theorem allZip_of_some (h : next? iterator = some (a, rest)) (h' : next? other = some (b, rest')) :
    allZip relation iterator other = (relation a b && allZip relation rest rest') := by
  rw [allZip]
  split <;> simp_all

end Equations

/-! ## 2. What an iterator yields -/

/-- The iterator gives these elements in this order, and then comes to its end. -/
inductive Yields : ι → List α → Prop
  | nil {iterator : ι} (ended : next? iterator = none) : Yields iterator []
  | cons {iterator rest : ι} {a : α} {elements : List α} (next : next? iterator = some (a, rest))
    (yields : Yields rest elements) : Yields iterator (a :: elements)

namespace Yields

variable {iterator : ι} {elements : List α}

theorem next?_eq_none_iff (h : Yields iterator elements) :
    next? iterator = none ↔ elements = [] := by
  cases h with
  | nil ended => simp [ended]
  | cons next yields => simp [next]

/-- **To hand on the elements of an iterator is to hand on those of a list.** -/
theorem fold_eq (h : Yields iterator elements) (f : γ → α → γ) (acc : γ) :
    fold f acc iterator = elements.foldl f acc := by
  induction h generalizing acc with
  | nil ended => exact fold_of_none ended f acc
  | cons next yields ih =>
    rw [fold_of_some next]
    exact ih (f acc _)

theorem toList_eq (h : Yields iterator elements) : toList iterator = elements := by
  rw [toList, h.fold_eq, List.foldl_flip_cons_eq_append']
  simp

/-- What was collected stands in the opposite order before what came earlier, and what is left comes
after it. -/
theorem collect_eq (h : Yields iterator elements) (n : Nat) (earlier : List α) :
    (collect n earlier iterator).1 = (elements.take n).reverse ++ earlier ∧
      Yields (collect n earlier iterator).2 (elements.drop n) := by
  induction h generalizing n earlier with
  | nil ended =>
    cases n with
    | zero => exact ⟨rfl, .nil ended⟩
    | succ n =>
      simp only [collect, ended]
      exact ⟨rfl, .nil ended⟩
  | cons next yields ih =>
    cases n with
    | zero => exact ⟨rfl, .cons next yields⟩
    | succ n =>
      obtain ⟨hcame, hrest⟩ := ih n (_ :: earlier)
      simp only [collect, next]
      refine ⟨?_, hrest⟩
      rw [hcame, List.take_succ_cons, List.reverse_cons, List.append_assoc]
      rfl

/-- **As many elements come as are asked for**, from the first one on, if there are so many. -/
theorem take_eq (h : Yields iterator elements) (n : Nat) :
    (take n iterator).1 = elements.take n := by
  have hcame := (h.collect_eq n []).1
  simp only [take, hcame, List.append_nil, List.reverse_reverse]

/-- **The iterator has come to its end exactly if all elements were asked for.** -/
theorem take_ended (h : Yields iterator elements) (n : Nat) :
    next? (take n iterator).2 = none ↔ elements.length ≤ n := by
  have hrest : Yields (take n iterator).2 (elements.drop n) := (h.collect_eq n []).2
  rw [hrest.next?_eq_none_iff, List.drop_eq_nil_iff]

theorem take_isNone (h : Yields iterator elements) (n : Nat) :
    (next? (take n iterator).2).isNone = decide (elements.length ≤ n) := by
  rw [Bool.eq_iff_iff, Option.isNone_iff_eq_none, h.take_ended, decide_eq_true_iff]

/-- **To go through two iterators side by side is to go through the pairs of two lists.** -/
theorem allZip_eq {other : κ} {others : List β} (h : Yields iterator elements)
    (h' : Yields other others) (relation : α → β → Bool) :
    allZip relation iterator other = (elements.zip others).all fun (a, b) => relation a b := by
  induction h generalizing other others with
  | nil ended => exact allZip_of_none relation ended
  | cons next yields ih =>
    cases h' with
    | nil ended' => exact allZip_of_some_none relation next ended'
    | cons next' yields' =>
      rw [allZip_of_some relation next next', ih yields']
      rfl

end Yields

/-- Two lists are the same if they are as long and the same wherever both have an element. -/
theorem length_and_zip_eq [BEq α] (first second : List α) :
    (first.length == second.length && (first.zip second).all fun (a, b) => a == b) =
      (first == second) := by
  induction first generalizing second with
  | nil => cases second <;> simp
  | cons a first ih =>
    cases second with
    | nil => simp
    | cons b second =>
      have := ih second
      simp_all [List.cons_beq_cons, Bool.and_left_comm]

/-- **Two iterators that give as many elements compare as lists do**, element by element. -/
theorem Yields.same_eq [BEq α] {first : ι} {second : κ} [Iteration κ α] {elements others : List α}
    (h : Yields first elements) (h' : Yields second others) :
    (elements.length == others.length && allZip (· == ·) first second) = (elements == others) := by
  rw [h.allZip_eq h', length_and_zip_eq]

end Iteration

end FreePrograms
