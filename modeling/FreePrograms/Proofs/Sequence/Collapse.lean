/-
# The calls of a fold, and what a collapse holds

A fold takes the last element off a queue again and again and hands it to a function, with what the
function made of the elements behind it.  In between the queue may turn its front over, at whatever
place its back runs out.  Nothing of this is seen in the calls: they are those of a plain list, from
its last element to its first.

The function may keep a state of its own, and it may halt.  `Queue.Visits` says what comes of
calling it on elements in an order, each time with the accumulator and the state that the call
before left; `Queue.noting` is the function that notes its own calls.  `Queue.folds_from_last` says that a
fold makes just these calls, as many as the queue is long, or up to the one that halts.

To collapse children is to fold them by `link`, so the sequence that comes out has the elements of
the children in queue order, whichever of them are empty.
-/
import FreePrograms.Proofs.Run.Steps
import FreePrograms.Proofs.Sequence.Coherent

namespace FreePrograms

variable {ε σ α β γ : Type}

namespace Queue

/-! ## 1. The calls on a list of elements -/

/-- A call of the function of a fold: the element, and the accumulator that came with it. -/
structure Visit (α β : Type) where
  element : α
  acc : β

/-- What comes of calling the function on the elements in this order, from an accumulator and a
state on: the calls and the result. -/
inductive Visits (f : α → β → EStateM ε σ β) :
    List α → β → σ → List (Visit α β) → EStateM.Result ε σ β → Prop
  | done {acc : β} {state : σ} : Visits f [] acc state [] (.ok acc state)
  | called {a : α} {others : List α} {acc next : β} {state onward : σ} {visits : List (Visit α β)}
    {result : EStateM.Result ε σ β} (call : f a acc state = .ok next onward)
    (rest : Visits f others next onward visits result) :
    Visits f (a :: others) acc state (⟨a, acc⟩ :: visits) result
  | halted {a : α} {others : List α} {acc : β} {state last : σ} {halt : ε}
    (call : f a acc state = .error halt last) :
    Visits f (a :: others) acc state [⟨a, acc⟩] (.error halt last)

/-- The function that notes each of its calls, also one that halts. -/
def noting (f : α → β → EStateM ε σ β) (a : α) (acc : β) :
    EStateM ε (σ × List (Visit α β)) β := fun (state, journal) =>
  match f a acc state with
  | .ok next state => .ok next (state, journal ++ [⟨a, acc⟩])
  | .error halt state => .error halt (state, journal ++ [⟨a, acc⟩])

/-- A result with a journal beside the state. -/
def noted (journal : List (Visit α β)) :
    EStateM.Result ε σ β → EStateM.Result ε (σ × List (Visit α β)) β
  | .ok acc state => .ok acc (state, journal)
  | .error halt state => .error halt (state, journal)

section Calls

variable {f : α → β → EStateM ε σ β} {elements : List α} {acc : β} {state : σ}
  {visits : List (Visit α β)} {result : EStateM.Result ε σ β}

/-- The calls of a list, from its first element on, are these, and they are all that is noted. -/
theorem exists_visits (f : α → β → EStateM ε σ β) (elements : List α) (acc : β) (state : σ)
    (journal : List (Visit α β)) :
    ∃ visits,
      Visits f elements acc state visits (elements.foldlM (fun acc a => f a acc) acc state) ∧
      elements.foldlM (fun acc a => noting f a acc) acc (state, journal)
        = noted (journal ++ visits) (elements.foldlM (fun acc a => f a acc) acc state) := by
  induction elements generalizing acc state journal with
  | nil =>
    refine ⟨[], .done, ?_⟩
    rw [List.append_nil]
    rfl
  | cons a others ih =>
    rw [List.foldlM_cons, List.foldlM_cons]
    cases hcall : f a acc state with
    | error halt last =>
      have hnoted : noting f a acc (state, journal)
          = .error halt (last, journal ++ [⟨a, acc⟩]) := by
        rw [noting, hcall]
      rw [bind_of_error hcall, bind_of_error hnoted]
      exact ⟨[⟨a, acc⟩], .halted hcall, rfl⟩
    | ok next onward =>
      have hnoted : noting f a acc (state, journal) = .ok next (onward, journal ++ [⟨a, acc⟩]) := by
        rw [noting, hcall]
      obtain ⟨visits, hvisits, hrest⟩ := ih next onward (journal ++ [⟨a, acc⟩])
      rw [bind_of_ok hcall, bind_of_ok hnoted, hrest, List.append_assoc]
      exact ⟨⟨a, acc⟩ :: visits, .called hcall hvisits, rfl⟩

/-- Only one thing comes of it. -/
theorem Visits.unique (h : Visits f elements acc state visits result) {visits' : List (Visit α β)}
    {result' : EStateM.Result ε σ β} (h' : Visits f elements acc state visits' result') :
    visits = visits' := by
  induction h generalizing visits' with
  | done =>
    cases h'
    rfl
  | called call _ ih =>
    cases h' with
    | called call' rest' =>
      cases call.symm.trans call'
      rw [ih rest']
    | halted call' => cases call.symm.trans call'
  | halted call =>
    cases h' with
    | called call' _ => cases call.symm.trans call'
    | halted => rfl

/-- Without a halt there is a call for each element, in this order. -/
theorem Visits.elements_of_ok (h : Visits f elements acc state visits result) {last : β}
    {final : σ} (hresult : result = .ok last final) : visits.map Visit.element = elements := by
  induction h with
  | done => rfl
  | called _ _ ih => rw [List.map_cons, ih hresult]
  | halted => cases hresult

/-- **A call that halts is the last one**, and the calls before it are those of the elements before
it. -/
theorem Visits.elements_of_error (h : Visits f elements acc state visits result) {halt : ε}
    {final : σ} (hresult : result = .error halt final) :
    ∃ earlier a later next middle, elements = earlier ++ a :: later ∧
      visits.map Visit.element = earlier ++ [a] ∧
      earlier.foldlM (fun acc a => f a acc) acc state = .ok next middle ∧
      f a next middle = .error halt final := by
  induction h with
  | done => cases hresult
  | @called a _ acc _ state _ _ _ call _ ih =>
    obtain ⟨earlier, b, later, next, middle, rfl, hvisits, hearlier, hcall⟩ := ih hresult
    refine ⟨a :: earlier, b, later, next, middle, rfl, ?_, ?_, hcall⟩
    · rw [List.map_cons, hvisits]
      rfl
    · rw [List.foldlM_cons, bind_of_ok call, hearlier]
  | @halted a others acc state _ _ call =>
    cases hresult
    exact ⟨[], a, others, acc, state, rfl, rfl, rfl, call⟩

end Calls

/-! ## 2. The calls of a fold -/

/-- The fold goes through the elements in the opposite order. -/
theorem foldrM_eq_reverse (f : α → β → EStateM ε σ β) (seed : β) (queue : Queue α) :
    queue.foldrM f seed = queue.toList.reverse.foldlM (fun acc a => f a acc) seed := by
  rw [foldrM_eq, List.foldlM_reverse]

/-- **The calls of a fold** are those of the elements from the last one on, and they are all that is
noted. -/
theorem exists_foldrM_visits (f : α → β → EStateM ε σ β) (seed : β) (queue : Queue α) (state : σ)
    (journal : List (Visit α β)) :
    ∃ visits, Visits f queue.toList.reverse seed state visits (queue.foldrM f seed state) ∧
      queue.foldrM (noting f) seed (state, journal)
        = noted (journal ++ visits) (queue.foldrM f seed state) := by
  rw [foldrM_eq_reverse, foldrM_eq_reverse]
  exact exists_visits f queue.toList.reverse seed state journal

theorem foldr_eq (f : α → β → β) (seed : β) (queue : Queue α) :
    queue.foldr f seed = queue.toList.foldr f seed := by
  rw [foldr, foldrM_eq, List.foldrM_pure]
  rfl

end Queue

/-! ## 3. What a collapse holds -/

namespace Sequence

/-- **A collapse holds the elements of the children in queue order**, also where some of them are
empty, whatever the table knows. -/
theorem toList_collapse (children : Queue (Sequence γ)) (memo : Memo γ) :
    ((collapse children).run memo).1.toList = children.toList.flatMap toList := by
  have hleaves : Splitting.Leaves [] memo (collapse children) _ := collapse_leaves children
  exact hleaves.result

/-- Walked through, a collapse of sound children gives these elements one after the other. -/
theorem elements_collapse {ledger : Ledger γ} {children : Queue (Sequence γ)}
    (hchildren : ∀ child ∈ children.toList, child.Sound ledger) :
    Splitting.Ensures ledger (do (← collapse children).elements) fun _ elements =>
      elements.toList = children.toList.flatMap toList := by
  refine (collapse_ensures hchildren).bind fun later made _ ⟨hsound, hmade⟩ => ?_
  refine (drain_ensures hsound made.length #[]).bind fun _ drained _ hdrained => .pure ?_
  rw [hdrained.1, hsound.length_eq, List.take_length, hmade, contents_eq]
  rfl

end Sequence

namespace Queue

/-- **A fold calls its function on the elements from the last one to the first**, each once, with
what the call before made, and does nothing else.  This holds of any queue, however its elements lie
in its two lists, of any seed and of any function, which may keep a state and may halt.  Where no
call halts, there are as many calls as the queue is long, and the result is that of the fold of the
list of elements.  Where one halts, the elements behind that one have been called before it, and
nothing is called after it.  A function without a state is folded as it is over the list.

So a collapse of any children holds the elements of the children in queue order, and gives them one
after the other when it is walked through. -/
theorem folds_from_last {queue : Queue α} (counted : queue.Counted)
    (f : α → β → EStateM ε σ β) (seed : β) (state : σ) (journal : List (Visit α β)) :
    (∃ visits,
      queue.foldrM (noting f) seed (state, journal)
        = noted (journal ++ visits) (queue.foldrM f seed state) ∧
      Visits f queue.toList.reverse seed state visits (queue.foldrM f seed state) ∧
      (∀ acc last, queue.foldrM f seed state = .ok acc last →
        visits.map Visit.element = queue.toList.reverse ∧ visits.length = queue.length ∧
        queue.toList.foldrM f seed state = .ok acc last) ∧
      ∀ halt last, queue.foldrM f seed state = .error halt last →
        ∃ before a after acc middle, queue.toList = before ++ a :: after ∧
          visits.map Visit.element = after.reverse ++ [a] ∧
          after.foldrM f seed state = .ok acc middle ∧ f a acc middle = .error halt last) ∧
    (∀ plain : α → β → β, queue.foldr plain seed = queue.toList.foldr plain seed) ∧
    ∀ {γ : Type} (children : Queue (Sequence γ)),
      (∀ memo : Memo γ, ((Sequence.collapse children).run memo).1.toList
        = children.toList.flatMap Sequence.toList) ∧
      ∀ (ledger : Ledger γ) (memo : Memo γ), memo.Agrees ledger →
        (∀ child ∈ children.toList, child.Sound ledger) →
        ((do (← Sequence.collapse children).elements).run memo).1.toList
          = children.toList.flatMap Sequence.toList := by
  refine ⟨?_, fun plain => foldr_eq plain seed queue, fun children => ⟨?_, ?_⟩⟩
  · obtain ⟨visits, hvisits, hnoted⟩ := exists_foldrM_visits f seed queue state journal
    refine ⟨visits, hnoted, hvisits, fun acc last hok => ?_, fun halt last herror => ?_⟩
    · have helements := hvisits.elements_of_ok hok
      refine ⟨helements, ?_, by rw [← foldrM_eq, hok]⟩
      rw [counted.length_eq, ← queue.toList.length_reverse, ← helements, List.length_map]
    · obtain ⟨earlier, a, later, acc, middle, hqueue, helements, hearlier, hcall⟩ :=
        hvisits.elements_of_error herror
      refine ⟨later.reverse, a, earlier.reverse, acc, middle, ?_, ?_, ?_, hcall⟩
      · rw [← List.reverse_reverse queue.toList, hqueue]
        simp
      · rw [helements, List.reverse_reverse]
      · rw [← List.foldlM_reverse, List.reverse_reverse, hearlier]
  · exact Sequence.toList_collapse children
  · intro ledger memo hmemo hchildren
    obtain ⟨_, _, _, helements⟩ := Sequence.elements_collapse hchildren memo hmemo
    exact helements

/-- Two elements lie in the front and two in the back, so the front is turned over on the way. -/
def bothLists : Queue Nat := ⟨.ofList [1, 2], .ofList [4, 3]⟩

/-- Counts its calls and adds up digits, and halts at the given element. -/
def digitsUpTo (stop a acc : Nat) : EStateM String Nat Nat := do
  if a = stop then throw "stop"
  modify (· + 1)
  return 10 * acc + a

/-- All four are called from the last one on, and with a halt at the second one the last three. -/
theorem bothLists_folds :
    bothLists.foldrM (noting (digitsUpTo 0)) 0 (0, [])
      = .ok 4321 (4, [⟨4, 0⟩, ⟨3, 4⟩, ⟨2, 43⟩, ⟨1, 432⟩]) ∧
    bothLists.foldrM (noting (digitsUpTo 2)) 0 (0, [])
      = .error "stop" (2, [⟨4, 0⟩, ⟨3, 4⟩, ⟨2, 43⟩]) := by
  have counted : bothLists.Counted :=
    ⟨CountedList.counted_ofList [1, 2], CountedList.counted_ofList [4, 3]⟩
  have helements : bothLists.toList = [1, 2, 3, 4] := by simp [bothLists, toList]
  constructor
  · obtain ⟨⟨visits, hnoted, hvisits, -⟩, -⟩ := folds_from_last counted (digitsUpTo 0) 0 0 []
    have hresult : bothLists.foldrM (digitsUpTo 0) 0 0 = .ok 4321 4 := by
      rw [foldrM_eq, helements]
      rfl
    rw [helements] at hvisits
    have hcalls : Visits (digitsUpTo 0) [4, 3, 2, 1] 0 0 _ _ :=
      .called rfl (.called rfl (.called rfl (.called rfl .done)))
    rw [hnoted, hvisits.unique hcalls, hresult]
    rfl
  · obtain ⟨⟨visits, hnoted, hvisits, -⟩, -⟩ := folds_from_last counted (digitsUpTo 2) 0 0 []
    have hresult : bothLists.foldrM (digitsUpTo 2) 0 0 = .error "stop" 2 := by
      rw [foldrM_eq, helements]
      rfl
    rw [helements] at hvisits
    have hcalls : Visits (digitsUpTo 2) [4, 3, 2, 1] 0 0 _ _ :=
      .called rfl (.called rfl (.halted rfl))
    rw [hnoted, hvisits.unique hcalls, hresult]
    rfl

end Queue

end FreePrograms
