/-
# Habits of computations

A `Habit` is something that can be said of computations on a session and of the values that they
give, and that goes on from one computation to the next.  It has to hold of each thing that a run
does by itself: to take names, to make programs, to pop frames, to let the host note a function.  Of
events that are told, and of functions that the host hands in, nothing is asked.

So it holds of the steps of a code (`Habit.advance`, `Habit.reach`), and of folds if it does of the
functions that are handed in (`Habit.fold`).  Steps hold computations, by which they go on; a habit
holds of these too (`Habit.steps`).
-/
import FreePrograms.Proofs.Run.Ways

namespace FreePrograms

variable {S : Signature} {K : Host S} {type : S.Ty} {α β N M : Type}

/-- Nothing is said of a value. -/
abbrev Any (_ : α) : Prop := True

/-- Something that is said of computations and of their values. -/
structure Habit {S : Signature} (K : Host S) where
  /-- It holds of the computation, and the given holds of its value. -/
  Holds {α : Type} : (α → Prop) → Run K α → Prop
  pure {α : Type} {good : α → Prop} {a : α} : good a → Holds good (Pure.pure a)
  throw {α : Type} {good : α → Prop} (halt : Halt S) : Holds good (throw halt : Run K α)
  bind {α β : Type} {good : α → Prop} {good' : β → Prop} {work : Run K α} {next : α → Run K β} :
    Holds good work → (∀ a, good a → Holds good' (next a)) → Holds good' (work >>= next)
  naming {α : Type} (steps : Naming α) : Holds Any (Run.naming steps)
  building {α : Type} (steps : Building S α) : Holds Any (Run.building steps)
  pop (frames : Sequence (Frame S)) : Holds Any (Run.pop frames)
  observe (callback : Callback S) : Holds Any (Run.observe callback)

namespace Habit

variable (habit : Habit K) {first : N → Prop} {last : M → Prop}

/-! ## 1. The steps of a code -/

theorem except (result : Except (Halt S) α) : habit.Holds Any (Run.except result) := by
  cases result with
  | ok a => exact habit.pure trivial
  | error halt => exact habit.throw halt

theorem kept (place : Nat) (expected : S.Ty) : habit.Holds Any (Run.kept place expected) := by
  unfold Run.kept
  split
  · split
    · exact habit.pure trivial
    · exact habit.throw _
  · exact habit.throw _

theorem apply (value : Packed S) (frame : Frame S) : habit.Holds Any (frame.apply value) := by
  cases frame with
  | bind provenance input function =>
    rw [Frame.apply]
    refine habit.bind (habit.except _) fun _ _ => ?_
    exact habit.bind (habit.observe _) fun _ _ => habit.building _
  | expect result =>
    rw [Frame.apply]
    exact habit.bind (habit.except _) fun _ _ => habit.pure trivial
  | decode result function =>
    rw [Frame.apply]
    refine habit.bind (habit.observe _) fun _ _ => ?_
    exact habit.bind (habit.except _) fun _ _ => habit.pure trivial
  | kept place result =>
    rw [Frame.apply]
    exact habit.bind (habit.observe _) fun _ _ => habit.kept place result

theorem append (code : Code S) (frames : Sequence (Frame S)) :
    habit.Holds Any (liftM (code.append frames)) := habit.naming (code.append frames)

theorem answer (waiting : Waiting S) (answer : Packed S) :
    habit.Holds Any (waiting.answer answer) :=
  habit.bind (habit.apply answer waiting.frame) fun code _ => habit.append code waiting.pending

/-- **To advance is a habit.** -/
theorem advance (turns : Nat) (code : Code S) : habit.Holds Any (code.advance turns) := by
  induction turns generalizing code with
  | zero => exact habit.throw .exhausted
  | succ turns ih =>
    obtain ⟨node, frames⟩ := code
    cases node with
    | ask effect frame => exact habit.pure trivial
    | value value =>
      rw [Code.advance]
      refine habit.bind (habit.pop frames) fun popped _ => ?_
      cases popped with
      | none => exact habit.pure trivial
      | some popped =>
        refine habit.bind (habit.apply value popped.1) fun code _ => ?_
        exact habit.bind (habit.append code popped.2) fun code _ => ih code

theorem reach (turns : Nat) (code : Code S) : habit.Holds Any (code.reach type turns) := by
  refine habit.bind (habit.advance turns code) fun stop _ => ?_
  cases stop with
  | finished value => exact habit.bind (habit.except _) fun _ _ => habit.pure trivial
  | waiting waiting => exact habit.pure trivial

end Habit

/-! ## 2. Folds -/

/-- Folds on from where a code came to. -/
def Reached.fold (rendering : Rendering K type N M) (combine : N → (Packed S → Run K M) → Run K M)
    (turns : Nat) : Reached S type → Run K M
  | .result value => rendering.result value
  | .asking waiting => do
    let effect ← rendering.effect waiting.effect
    combine effect fun answer => do (← waiting.answer answer).fold rendering combine turns

theorem Code.fold_succ (rendering : Rendering K type N M)
    (combine : N → (Packed S → Run K M) → Run K M) (turns : Nat) (code : Code S) :
    code.fold rendering combine (turns + 1)
      = code.reach type turns >>= Reached.fold rendering combine turns := by
  rw [Code.fold, Code.reach, bind_assoc]
  refine bind_congr ?_
  intro stop
  cases stop with
  | finished value => simp only [Reached.fold, bind_assoc, pure_bind]
  | waiting waiting => simp only [Reached.fold, pure_bind]

namespace Habit

variable (habit : Habit K) {first : N → Prop} {last : M → Prop} {rendering : Rendering K type N M}
  {combine : N → (Packed S → Run K M) → Run K M}

/-- From where a code came to, if codes are folded so from there. -/
theorem foldOn (heffect : ∀ effect, habit.Holds first (rendering.effect effect))
    (hresult : ∀ value, habit.Holds last (rendering.result value))
    (hcombine : ∀ {effect : N} {rest : Packed S → Run K M}, first effect →
      (∀ answer, habit.Holds last (rest answer)) → habit.Holds last (combine effect rest))
    {turns : Nat} (h : ∀ code : Code S, habit.Holds last (code.fold rendering combine turns))
    (reached : Reached S type) : habit.Holds last (reached.fold rendering combine turns) := by
  cases reached with
  | result value => exact hresult value
  | asking waiting =>
    refine habit.bind (heffect waiting.effect) fun effect hfirst => hcombine hfirst fun answer => ?_
    exact habit.bind (habit.answer waiting answer) fun code _ => h code

/-- **To fold is a habit** if to render and to combine is. -/
theorem fold (heffect : ∀ effect, habit.Holds first (rendering.effect effect))
    (hresult : ∀ value, habit.Holds last (rendering.result value))
    (hcombine : ∀ {effect : N} {rest : Packed S → Run K M}, first effect →
      (∀ answer, habit.Holds last (rest answer)) → habit.Holds last (combine effect rest))
    (turns : Nat) (code : Code S) : habit.Holds last (code.fold rendering combine turns) := by
  induction turns generalizing code with
  | zero => exact habit.throw .exhausted
  | succ turns ih =>
    rw [Code.fold_succ]
    exact habit.bind (habit.reach turns code) fun reached _ =>
      habit.foldOn heffect hresult hcombine ih reached

end Habit

/-! ## 3. Steps -/

/-- The first step from where a code came to. -/
def Reached.steps (rendering : Rendering K type N M) (turns : Nat) :
    Reached S type → Run K (Step K N M)
  | .result value => do return .done (← rendering.result value)
  | .asking waiting => do
    let effect ← rendering.effect waiting.effect
    return .next effect fun answer => (do (← waiting.answer answer).steps rendering turns : Run K _)

theorem Code.steps_eq (rendering : Rendering K type N M) (turns : Nat) (code : Code S) :
    code.steps rendering (turns + 1)
      = code.reach type turns >>= Reached.steps rendering turns := by
  rw [Code.steps, Code.reach, bind_assoc]
  refine bind_congr ?_
  intro stop
  cases stop with
  | finished value => simp only [Reached.steps, bind_assoc, pure_bind]
  | waiting waiting => simp only [Reached.steps, pure_bind]

namespace Habit

variable (habit : Habit K)

/-- A step that goes on so many times at most, and by the habit each time. -/
def Goes (first : N → Prop) (last : M → Prop) : Nat → Step K N M → Prop
  | _, .done value => last value
  | 0, .next _ _ => False
  | times + 1, .next effect resume =>
    first effect ∧ ∀ answer, habit.Holds (Goes first last times) (Step.answer resume answer)

variable {habit} {first : N → Prop} {last : M → Prop} {rendering : Rendering K type N M}

theorem Goes.of_done {times : Nat} {value : M}
    (h : habit.Goes first last times (.done value : Step K N M)) : last value := by
  cases times with
  | zero => exact h
  | succ times => exact h

variable (habit)

/-- From where a code came to, if codes give such steps from there. -/
theorem stepsOn (heffect : ∀ effect, habit.Holds first (rendering.effect effect))
    (hresult : ∀ value, habit.Holds last (rendering.result value)) {turns : Nat}
    (h : ∀ code : Code S, habit.Holds (habit.Goes first last turns) (code.steps rendering turns))
    (reached : Reached S type) :
    habit.Holds (habit.Goes first last (turns + 1)) (reached.steps rendering turns) := by
  cases reached with
  | result value => exact habit.bind (hresult value) fun _ hlast => habit.pure hlast
  | asking waiting =>
    refine habit.bind (heffect waiting.effect) fun effect hfirst => ?_
    refine habit.pure ⟨hfirst, fun answer => ?_⟩
    exact habit.bind (habit.answer waiting answer) fun code _ => h code

/-- **To fold into steps is a habit** if to render is, and so is to go on with the steps. -/
theorem steps (heffect : ∀ effect, habit.Holds first (rendering.effect effect))
    (hresult : ∀ value, habit.Holds last (rendering.result value)) (turns : Nat) (code : Code S) :
    habit.Holds (habit.Goes first last turns) (code.steps rendering turns) := by
  induction turns generalizing code with
  | zero => exact habit.throw .exhausted
  | succ turns ih =>
    rw [Code.steps_eq]
    exact habit.bind (habit.reach turns code) fun reached _ =>
      habit.stepsOn heffect hresult ih reached

end Habit

end FreePrograms
