/-
# Folds through a chain of steps

A program can be folded at once, or it can be folded into a chain of steps that is folded then.  The
two are the same computation, callback by callback (`Program.foldIn_eq_steps`).  Nothing is asked of
the function that combines an effect with the rest: it may drop the rest, hand it on in its result,
go on with it any number of times, and answer with values of any type.

The chain of steps is itself a fold, the one that keeps the rest of each effect as it is
(`Code.steps_eq_fold`).  So it is enough to know when a fold and what is done with its result are
one fold (`Code.fold_fuse`).
-/
import FreePrograms.Proofs.Run.Habits

namespace FreePrograms

variable {S : Signature} {K : Host S} {type : S.Ty} {N M R : Type}

/-! ## 1. A fold and what is done with its result -/

section Fuse

variable {rendering : Rendering K type N M} {result : S.El type → Run K R}
  {combine : N → (Packed S → Run K M) → Run K M} {combine' : N → (Packed S → Run K R) → Run K R}
  {further : Nat → M → Run K R}

/-- **Two folds in a row are one** if the second goes on from what the first renders, and goes on
into the rest wherever the first combines an effect with it. -/
theorem Code.fold_fuse
    (hresult : ∀ turns value, rendering.result value >>= further (turns + 1) = result value)
    (hcombine : ∀ turns effect rest, combine effect rest >>= further (turns + 1)
      = combine' effect fun answer => rest answer >>= further turns)
    (turns : Nat) (code : Code S) :
    code.fold rendering combine turns >>= further turns
      = code.fold ⟨rendering.effect, result⟩ combine' turns := by
  induction turns generalizing code with
  | zero => rfl
  | succ turns ih =>
    rw [Code.fold_succ, Code.fold_succ, bind_assoc]
    refine bind_congr ?_
    intro reached
    cases reached with
    | result value => exact hresult turns value
    | asking waiting =>
      simp only [Reached.fold, bind_assoc]
      refine bind_congr ?_
      intro effect
      rw [hcombine]
      refine congrArg (combine' effect) (funext fun answer => ?_)
      rw [bind_assoc]
      exact bind_congr ih

end Fuse

/-! ## 2. The chain of steps is a fold -/

/-- The result rendered as the last step. -/
def Rendering.asSteps (rendering : Rendering K type N M) : Rendering K type N (Step K N M) :=
  ⟨rendering.effect, fun value => return .done (← rendering.result value)⟩

/-- The step that keeps the rest as it is. -/
def Step.keep (effect : N) (rest : Packed S → Run K (Step K N M)) : Run K (Step K N M) :=
  return .next effect rest

/-- **The chain of steps is the fold that keeps the rest of each effect.** -/
theorem Code.steps_eq_fold (rendering : Rendering K type N M) (turns : Nat) (code : Code S) :
    code.steps rendering turns = code.fold rendering.asSteps Step.keep turns := by
  induction turns generalizing code with
  | zero => rfl
  | succ turns ih =>
    rw [Code.steps_eq, Code.fold_succ]
    refine bind_congr ?_
    intro reached
    cases reached with
    | result value => rfl
    | asking waiting =>
      simp only [Reached.steps, ih]
      rfl

/-! ## 3. Folding the chain -/

theorem Step.foldIn_keep (combine : N → (Packed S → Run K M) → Run K M) (turns : Nat) (effect : N)
    (rest : Packed S → Run K (Step K N M)) :
    Step.keep effect rest >>= Step.foldIn combine (turns + 1)
      = combine effect fun answer => rest answer >>= Step.foldIn combine turns := rfl

theorem Step.foldIn_done (combine : N → (Packed S → Run K M) → Run K M) (turns : Nat)
    (work : Run K M) :
    (do return .done (← work)) >>= Step.foldIn combine (turns + 1) = work := by
  rw [bind_assoc]
  simp only [pure_bind, Step.foldIn, bind_pure]

/-- A code folded into steps, and these folded, is the code folded; the fold of the steps may have
turns to spare. -/
theorem Code.steps_fold (rendering : Rendering K type N M)
    (combine : N → (Packed S → Run K M) → Run K M) (spare turns : Nat) (code : Code S) :
    code.steps rendering turns >>= Step.foldIn combine (turns + spare)
      = code.fold rendering combine turns := by
  let further (turns : Nat) : Step K N M → Run K M := Step.foldIn combine (turns + spare)
  have hsucc (turns : Nat) : further (turns + 1) = Step.foldIn combine (turns + spare + 1) :=
    congrArg (Step.foldIn combine) (Nat.succ_add turns spare)
  have hfuse : code.fold rendering.asSteps Step.keep turns >>= further turns
      = code.fold ⟨rendering.effect, rendering.result⟩ combine turns := by
    refine Code.fold_fuse (fun turns value => ?_) (fun turns effect rest => ?_) turns code
    · rw [hsucc]
      exact Step.foldIn_done combine _ (rendering.result value)
    · rw [hsucc]
      exact Step.foldIn_keep combine _ effect rest
  rw [Code.steps_eq_fold]
  exact hfuse

/-- **To fold a program is to fold the chain of steps that it folds into.**  For any rendering of
effects and result, any function that combines an effect with the rest, any numbers of turns and any
session, both do the same with the same callbacks in the same order: the two are one computation, so
they halt at the same places and leave the same session, whatever the callbacks note there.  A
driver that folds the steps does it within its span, and otherwise the same. -/
theorem Program.foldIn_eq_steps (program : Program S type) (rendering : Rendering K type N M)
    (combine : N → (Packed S → Run K M) → Run K M) (turns spare : Nat) :
    program.foldIn turns rendering combine
        = program.stepsIn turns rendering >>= Step.foldIn combine (turns + spare) ∧
      program.driveIn turns rendering (Step.foldIn combine (turns + spare))
        = Run.inside .drive (program.foldIn turns rendering combine) := by
  have hfold := program.code.steps_fold rendering combine spare turns
  exact ⟨hfold.symm, congrArg (Run.inside .drive) hfold⟩

end FreePrograms
