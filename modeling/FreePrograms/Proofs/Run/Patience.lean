/-
# More turns make no difference

A loop that is not exhausted in some number of turns does the same in any larger number.  So how
many turns are enough is a matter of the loop alone, and what a run leaves behind does not depend on
how many turns it was given.

`Within` says of two computations that the second does what the first does, wherever the first
is not exhausted.  It goes through binds (`Within.bind`) and spans (`Within.inside`).
-/
import FreePrograms.Proofs.Run.Steps

namespace FreePrograms

variable {S : Signature} {K : Host S} {type : S.Ty} {α β Failure : Type}

/-! ## 1. Computations within others -/

/-- The second computation does what the first does, where the first is not exhausted. -/
def Within {σ : Type} (left right : EStateM (Halt S) σ α) : Prop :=
  ∀ s, (∃ last, left s = .error .exhausted last) ∨ left s = right s

namespace Within

section Steps

variable {σ : Type} {left right : EStateM (Halt S) σ α}

theorem refl (work : EStateM (Halt S) σ α) : Within work work := fun _ => .inr rfl

theorem exhausted (work : EStateM (Halt S) σ α) : Within (throw .exhausted) work :=
  fun s => .inl ⟨s, rfl⟩

theorem bind {next next' : α → EStateM (Halt S) σ β} (h : Within left right)
    (hnext : ∀ a, Within (next a) (next' a)) : Within (left >>= next) (right >>= next') := by
  intro s
  obtain ⟨last, hleft⟩ | hsame := h s
  · exact .inl ⟨last, bind_of_error hleft⟩
  · cases hright : right s with
    | ok a last =>
      rw [hright] at hsame
      rw [bind_of_ok hsame, bind_of_ok hright]
      exact hnext a last
    | error halt last =>
      rw [hright] at hsame
      rw [bind_of_error hsame, bind_of_error hright]
      exact .inr rfl

/-- A value that the first gives, the second gives. -/
theorem of_ok (h : Within left right) {s last : σ} {a : α} (hleft : left s = .ok a last) :
    right s = .ok a last := by
  obtain ⟨_, hexhausted⟩ | hsame := h s
  · cases hexhausted.symm.trans hleft
  · exact hsame.symm.trans hleft

/-- Where the first is not exhausted the second does the same. -/
theorem eq (h : Within left right) {s : σ} (hleft : ∀ last, left s ≠ .error .exhausted last) :
    left s = right s := by
  obtain ⟨last, hexhausted⟩ | hsame := h s
  · exact absurd hexhausted (hleft last)
  · exact hsame

end Steps

theorem inside {left right : Run K α} (span : Span) (h : Within left right) :
    Within (Run.inside span left) (Run.inside span right) := by
  intro session
  rw [Run.inside_eq, Run.inside_eq]
  obtain ⟨last, hleft⟩ | hsame := h (session.told (.enter span))
  · rw [hleft]
    exact .inl ⟨last.told (.leave span), rfl⟩
  · rw [hsame]
    exact .inr rfl

end Within

/-! ## 2. Loops in more turns -/

/-- **A code advances in more turns as in fewer.** -/
theorem Code.advance_within {turns turns' : Nat} (h : turns ≤ turns') (code : Code S) :
    Within (code.advance turns : Run K (Stop S)) (code.advance turns') := by
  induction turns generalizing turns' code with
  | zero => exact .exhausted _
  | succ turns ih =>
    obtain ⟨turns', rfl⟩ := Nat.exists_eq_add_of_le' (Nat.le_of_add_left_le h)
    have hturns := Nat.le_of_succ_le_succ h
    obtain ⟨node, frames⟩ := code
    cases node with
    | ask effect frame => exact .refl _
    | value value =>
      rw [Code.advance, Code.advance]
      refine (Within.refl _).bind fun popped => ?_
      cases popped with
      | none => exact .refl _
      | some popped =>
        refine (Within.refl _).bind fun code => ?_
        exact (Within.refl _).bind fun code => ih hturns code

/-- **A run with a handler does in more turns what it does in fewer.** -/
theorem Code.handle_within {turns turns' : Nat} (h : turns ≤ turns') (handler : Handler K Failure)
    (effects : Nat) (code : Code S) :
    Within (code.handle handler turns effects) (code.handle handler turns' effects) := by
  induction turns generalizing turns' effects code with
  | zero => exact .exhausted _
  | succ turns ih =>
    obtain ⟨turns', rfl⟩ := Nat.exists_eq_add_of_le' (Nat.le_of_add_left_le h)
    have hturns := Nat.le_of_succ_le_succ h
    rw [Code.handle_succ, Code.handle_succ]
    refine (code.advance_within hturns).bind fun stop => ?_
    cases stop with
    | finished value => exact .refl _
    | waiting waiting =>
      rw [Code.serve, Code.serve]
      refine (Within.refl _).bind fun answer => ?_
      cases answer with
      | error failure => exact .refl _
      | ok answer => exact (Within.refl _).bind fun code => ih hturns (effects + 1) code

theorem Program.tryRunIn_within {turns turns' : Nat} (h : turns ≤ turns')
    (program : Program S type) (handler : Handler K Failure) :
    Within (program.tryRunIn turns handler) (program.tryRunIn turns' handler) := by
  rw [Program.tryRunIn_eq, Program.tryRunIn_eq]
  exact ((program.code.handle_within h handler 0).bind fun result => .refl _).inside .run

end FreePrograms
