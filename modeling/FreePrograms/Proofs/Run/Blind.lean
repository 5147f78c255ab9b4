/-
# Computations that never look at the host

A host that takes no note of functions is not touched by what a run does by itself: it takes names,
makes programs and pops frames, and all this is the same whatever the state of the host is
(`Run.Blind`).  So it is for a program that is folded into something deferred, since its effects are
rendered and not handled (`Program.deferIn_blind`): the state of the host may change before the
deferred computation is forced, and what is forced is the same.
-/
import FreePrograms.Proofs.Run.Habits

namespace FreePrograms

variable {S : Signature} {K : Host S} {type : S.Ty} {α β : Type}

/-- The session with the given state of the host. -/
def Session.hosting (session : Session K) (host : K.State) : Session K :=
  { session with host := host }

/-- The result with the given state of the host. -/
def hostingResult (host : K.State) :
    EStateM.Result (Halt S) (Session K) α → EStateM.Result (Halt S) (Session K) α
  | .ok a session => .ok a (session.hosting host)
  | .error halt session => .error halt (session.hosting host)

/-- The computation does the same whatever the state of the host is, and leaves it as it is; the
given holds of its values. -/
structure Run.Blind (good : α → Prop) (work : Run K α) : Prop where
  hosting (session : Session K) (host : K.State) :
    work (session.hosting host) = hostingResult host (work session)
  value {session last : Session K} {a : α} : work session = .ok a last → good a

namespace Run.Blind

variable {good : α → Prop} {good' : β → Prop} {work : Run K α} {next : α → Run K β}

theorem pure {a : α} (h : good a) : Run.Blind good (Pure.pure a : Run K α) := by
  refine ⟨fun _ _ => rfl, ?_⟩
  intro session last b hb
  cases hb
  exact h

theorem throw (halt : Halt S) : Run.Blind good (MonadExcept.throw halt : Run K α) := by
  refine ⟨fun _ _ => rfl, ?_⟩
  intro session last b hb
  cases hb

theorem bind (h : Run.Blind good work) (hnext : ∀ a, good a → Run.Blind good' (next a)) :
    Run.Blind good' (work >>= next) := by
  constructor
  · intro session host
    have hsame := h.hosting session host
    cases hwork : work session with
    | ok a middle =>
      rw [hwork] at hsame
      rw [bind_of_ok hsame, bind_of_ok hwork]
      exact (hnext a (h.value hwork)).hosting middle host
    | error halt middle =>
      rw [hwork] at hsame
      rw [bind_of_error hsame, bind_of_error hwork]
      rfl
  · intro session last b hb
    cases hwork : work session with
    | ok a middle =>
      rw [bind_of_ok hwork] at hb
      exact (hnext a (h.value hwork)).value hb
    | error halt middle => cases (bind_of_error hwork).symm.trans hb

theorem inside (span : Span) (h : Run.Blind good work) : Run.Blind good (Run.inside span work) := by
  constructor
  · intro session host
    have hsame := h.hosting (session.told (.enter span)) host
    have htold : (session.hosting host).told (.enter span)
        = (session.told (.enter span)).hosting host := rfl
    rw [Run.inside_eq, Run.inside_eq, htold, hsame]
    cases work (session.told (.enter span)) <;> rfl
  · intro session last a ha
    obtain ⟨middle, hwork⟩ := Run.exists_of_inside ha
    exact h.value hwork

/-- On another state of the host the same value is given, and that state is left. -/
theorem of_ok (h : Run.Blind good work) {session last : Session K} {host : K.State} {a : α}
    (hwork : work (session.hosting host) = .ok a last) :
    ∃ middle, work session = .ok a middle ∧ middle.host = session.host ∧
      last = middle.hosting host := by
  have hsame := h.hosting session host
  have hself := h.hosting session session.host
  rw [hwork] at hsame
  cases hresult : work session with
  | ok b middle =>
    rw [hresult] at hsame
    cases hsame
    rw [show session.hosting session.host = session from rfl, hresult] at hself
    injection hself with _ hmiddle
    have hhost : middle.host = (middle.hosting session.host).host := congrArg Session.host hmiddle
    exact ⟨middle, rfl, hhost, rfl⟩
  | error halt middle =>
    rw [hresult] at hsame
    cases hsame

end Run.Blind

/-- **Not to look at a heedless host is a habit.** -/
def blind (heedless : K.Heedless) : Habit K where
  Holds good work := Run.Blind good work
  pure := .pure
  throw := .throw
  bind := .bind
  naming steps := ⟨fun _ _ => rfl, fun _ => trivial⟩
  building steps := by
    refine ⟨fun session host => ?_, fun _ => trivial⟩
    have hnext : (session.hosting host).memo.next = session.memo.next := rfl
    cases h : steps session.memo.next with
    | ok made => rw [Run.building_of_ok h, Run.building_of_ok (hnext ▸ h), hostingResult]; rfl
    | error halt => rw [Run.building_of_error h, Run.building_of_error (hnext ▸ h), hostingResult]
  pop frames := ⟨fun _ _ => rfl, fun _ => trivial⟩
  observe callback := by
    refine ⟨fun session host => ?_, fun _ => trivial⟩
    have hobserve (session : Session K) : Run.observe callback session = .ok () session := by
      have hhost := heedless callback session.host
      change EStateM.Result.ok () (session.observed callback) = _
      rw [Session.observed, hhost]
    rw [hobserve, hobserve, hostingResult]

/-- **A program is folded into something deferred without a look at the host.** -/
theorem Program.deferIn_blind (heedless : K.Heedless) (turns : Nat) (program : Program S type)
    (handler : S.Effect → Run K (Packed S)) :
    Run.Blind Any
      (program.deferIn turns fun effect => return (⟨handler effect⟩ : Deferred K _)) := by
  let rendering : Rendering K type (Deferred K (Packed S)) (Deferred K (S.El type)) :=
    ⟨fun effect => return ⟨handler effect⟩, fun value => return .now value⟩
  have heffect (effect : S.Effect) : (blind heedless).Holds Any (rendering.effect effect) :=
    .pure trivial
  have hresult (value : S.El type) : (blind heedless).Holds Any (rendering.result value) :=
    .pure trivial
  have hsteps : Run.Blind _ (program.stepsIn turns rendering) :=
    (blind heedless).steps heffect hresult turns program.code
  exact .inside .drive (.bind hsteps fun _ _ => .pure trivial)

end FreePrograms
