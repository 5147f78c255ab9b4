/-
# Computations that do not depend on what was told

The events that were told are for who watches a run; a host does not see them.  So what a host hands
in does the same whatever was told before, and that is asked here of thunks and resumptions
(`Run.Oblivious`).  It is a habit, so all that a library function does by itself is oblivious, and a
program gives an oblivious chain of steps if its effects are rendered so
(`Program.stepsIn_oblivious`).
-/
import FreePrograms.Proofs.Run.Habits

namespace FreePrograms

variable {S : Signature} {K : Host S} {type : S.Ty} {α β γ : Type}

open Run (Alike)

/-! ## 1. Oblivious computations -/

/-- The computation does the same whatever was told before, and the given holds of its values. -/
structure Run.Oblivious (good : α → Prop) (work : Run K α) : Prop where
  alike : Alike work work
  value {session last : Session K} {a : α} : work session = .ok a last → good a

namespace Run.Oblivious

variable {good : α → Prop} {good' : β → Prop} {left work : Run K α} {next next' : α → Run K β}

/-- What is alike to oblivious work goes on alike if it does from the good values. -/
theorem bind_alike (h : Run.Oblivious good work) (halike : Alike left work)
    (hnext : ∀ a, good a → Alike (next a) (next' a)) : Alike (left >>= next) (work >>= next') := by
  refine ⟨?_⟩
  intro session session' hsession
  have hsame := halike.same hsession
  cases hwork : work session' with
  | ok a last' =>
    rw [hwork] at hsame
    obtain ⟨last, hleft, hlast⟩ := eq_ok_of_quietResult hsame
    rw [bind_of_ok hleft, bind_of_ok hwork]
    exact (hnext a (h.value hwork)).same hlast
  | error halt last' =>
    rw [hwork] at hsame
    obtain ⟨last, hleft, hlast⟩ := eq_error_of_quietResult hsame
    rw [bind_of_error hleft, bind_of_error hwork]
    exact congrArg (EStateM.Result.error halt) hlast

theorem bind (h : Run.Oblivious good work) (hnext : ∀ a, good a → Run.Oblivious good' (next a)) :
    Run.Oblivious good' (work >>= next) := by
  refine ⟨h.bind_alike h.alike fun a ha => (hnext a ha).alike, ?_⟩
  intro session last b hb
  cases hwork : work session with
  | ok a middle =>
    rw [bind_of_ok hwork] at hb
    exact (hnext a (h.value hwork)).value hb
  | error halt middle => cases (bind_of_error hwork).symm.trans hb

/-- Nothing is said of the value. -/
theorem of_alike (h : Alike work work) : Run.Oblivious Any work := ⟨h, fun _ => trivial⟩

theorem mono {good' : α → Prop} (h : Run.Oblivious good work) (hgood : ∀ a, good a → good' a) :
    Run.Oblivious good' work := ⟨h.alike, fun hwork => hgood _ (h.value hwork)⟩

theorem pure {a : α} (h : good a) : Run.Oblivious good (Pure.pure a : Run K α) := by
  refine ⟨.pure a, ?_⟩
  intro session last b hb
  cases hb
  exact h

theorem throw (halt : Halt S) : Run.Oblivious good (MonadExcept.throw halt : Run K α) := by
  refine ⟨.throw halt, ?_⟩
  intro session last b hb
  cases hb

theorem tell {next : Unit → Run K α} (event : Event) (h : Run.Oblivious good (next ())) :
    Run.Oblivious good (Run.tell event >>= next) := by
  refine ⟨.tell event (h.alike.tell event).symm, ?_⟩
  intro session last a ha
  exact h.value ha

end Run.Oblivious

/-- **Not to depend on what was told is a habit.** -/
def oblivious : Habit K where
  Holds good work := Run.Oblivious good work
  pure := .pure
  throw := .throw
  bind := .bind
  naming steps := .of_alike (.naming steps)
  building steps := .of_alike (.building steps)
  pop frames := .of_alike (.pop frames)
  observe callback := .of_alike (.observe callback)

/-- The computations, begun on sessions that differ in what was told at most, halt alike or give
values for which the given holds. -/
def Run.AlikeBy (same : α → β → Prop) (left : Run K α) (right : Run K β) : Prop :=
  ∀ {session session' : Session K}, session.quiet = session'.quiet →
    (∃ a b last last', left session = .ok a last ∧ right session' = .ok b last' ∧ same a b ∧
      last.quiet = last'.quiet) ∨
    ∃ halt last last', left session = .error halt last ∧ right session' = .error halt last' ∧
      last.quiet = last'.quiet

/-- What two functions make of the value of oblivious work; a span about one of them makes no
difference. -/
theorem Run.Oblivious.alikeBy {good : α → Prop} {work : Run K α} {same : β → γ → Prop}
    {left : α → β} {right : α → γ} (h : Run.Oblivious good work) (span : Span)
    (hsame : ∀ a, good a → same (left a) (right a)) :
    Run.AlikeBy same (Run.inside span do return left (← work)) (do return right (← work)) := by
  intro session session' hsession
  have hwork := h.alike.same
    (show (session.told (.enter span)).quiet = session'.quiet from hsession)
  cases hright : work session' with
  | ok a last' =>
    rw [hright] at hwork
    obtain ⟨last, hleft, hlast⟩ := eq_ok_of_quietResult hwork
    refine .inl ⟨left a, right a, last.told (.leave span), last', ?_, bind_of_ok hright,
      hsame a (h.value hright), hlast⟩
    rw [Run.inside_eq, bind_of_ok hleft]
    rfl
  | error halt last' =>
    rw [hright] at hwork
    obtain ⟨last, hleft, hlast⟩ := eq_error_of_quietResult hwork
    refine .inr ⟨halt, last.told (.leave span), last', ?_, bind_of_error hright, hlast⟩
    rw [Run.inside_eq, bind_of_error hleft]

/-! ## 2. Oblivious chains of steps -/

/-- The thunk does not depend on what was told. -/
abbrev Deferred.Oblivious (deferred : Deferred K α) : Prop := Run.Oblivious Any deferred.force

/-- No thunk and no resumption of the chain depends on what was told, whatever the answers are. -/
inductive Step.Oblivious : Step K (Deferred K (Packed S)) (Deferred K α) → Prop where
  | done {deferred : Deferred K α} (last : deferred.Oblivious) : Oblivious (.done deferred)
  | next {effect : Deferred K (Packed S)}
    {resume : Packed S → Session K → EStateM.Result (Halt S) (Session K) (Step K _ (Deferred K α))}
    (first : effect.Oblivious)
    (alike : ∀ answer, Alike (Step.answer resume answer) (Step.answer resume answer))
    (rest : ∀ answer {session last step}, resume answer session = .ok step last →
      Oblivious step) : Oblivious (.next effect resume)

namespace Step.Oblivious

variable {effect : Deferred K (Packed S)}
  {resume : Packed S → Session K → EStateM.Result (Halt S) (Session K) (Step K _ (Deferred K α))}

theorem of_resume (first : effect.Oblivious)
    (h : ∀ answer, Run.Oblivious Step.Oblivious (Step.answer resume answer)) :
    Step.Oblivious (.next effect resume) :=
  .next first (fun answer => (h answer).alike) fun answer _ _ _ hresume => (h answer).value hresume

theorem last {deferred : Deferred K α} (h : Step.Oblivious (.done deferred)) :
    deferred.Oblivious := by
  cases h with
  | done last => exact last

theorem first (h : Step.Oblivious (.next effect resume)) : effect.Oblivious := by
  cases h with
  | next first alike rest => exact first

theorem resumed (h : Step.Oblivious (.next effect resume)) (answer : Packed S) :
    Run.Oblivious Step.Oblivious (Step.answer resume answer) := by
  cases h with
  | next first alike rest => exact ⟨alike answer, rest answer⟩

/-- A chain that goes on so many times at most, and obliviously each time. -/
theorem of_goes {times : Nat} {step : Step K (Deferred K (Packed S)) (Deferred K α)}
    (h : oblivious.Goes Deferred.Oblivious Deferred.Oblivious times step) : step.Oblivious := by
  induction times generalizing step with
  | zero =>
    cases step with
    | done deferred => exact .done h
    | next effect resume => exact h.elim
  | succ times ih =>
    cases step with
    | done deferred => exact .done h
    | next effect resume =>
      obtain ⟨hfirst, hrest⟩ := h
      exact .of_resume hfirst fun answer => (hrest answer).mono fun _ => ih

end Step.Oblivious

/-- Effects and results rendered as deferred computations. -/
def Rendering.deferring (render : S.Effect → Run K (Deferred K (Packed S))) :
    Rendering K type (Deferred K (Packed S)) (Deferred K (S.El type)) :=
  ⟨render, fun value => return .now value⟩

/-- The chain of a program is oblivious if what its effects are rendered as is. -/
theorem Program.stepsIn_oblivious (turns : Nat) (program : Program S type)
    {render : S.Effect → Run K (Deferred K (Packed S))}
    (h : ∀ effect, Run.Oblivious Deferred.Oblivious (render effect)) :
    Run.Oblivious Step.Oblivious (program.stepsIn turns (.deferring render)) := by
  have hnow (value : S.El type) : Run.Oblivious Deferred.Oblivious
      (return .now value : Run K (Deferred K (S.El type))) := .pure (.of_alike (.pure value))
  exact (oblivious.steps h hnow turns program.code).mono fun _ => .of_goes

end FreePrograms
