/-
# Runs that halt tell no end

That a program or steps came to their end, or that a handler refused, is told last of all.  So
nothing of the kind is told by a run that halts (`Terms.Codes.tryRunIn_quiet` and the theorems after
it).

Most of what a run does tells nothing at all, or only that a part of the work is entered and left
(`Run.Quiet`).  Turns of a run with a handler, and steps that are driven, tell their end when they
have a value; they are quiet if they halt (`Run.Reticent`).  After the end is told, a run with a
handler takes its value at the type of the program, and that cannot fail since the value has this
type.
-/
import FreePrograms.Proofs.Run.Interpreters

namespace FreePrograms

variable {S : Signature} {K L : Host S} {type : S.Ty} {α β N M Failure : Type}

/-! ## 1. Ends that are told -/

/-- Whether it is told that a program or steps came to their end, or that a handler refused. -/
def Event.isEnding : Event → Bool
  | .enter _ => false
  | .leave _ => false
  | _ => true

/-- The ends that were told. -/
def Session.endings (session : Session K) : List Event :=
  session.events.toList.filter Event.isEnding

theorem Session.endings_told (session : Session K) {event : Event} (h : event.isEnding = false) :
    (session.told event).endings = session.endings := by
  simp only [endings, told, Array.toList_push, List.filter_append, List.filter_cons, h]
  simp

namespace Run

variable {good : α → Prop} {good' : β → Prop}

/-- The computation tells no end, and the given holds of its value. -/
def Quiet (good : α → Prop) (work : Run K α) : Prop :=
  ∀ session, match work session with
    | .ok a last => good a ∧ last.endings = session.endings
    | .error _ last => last.endings = session.endings

/-- The computation tells no end if it halts, and the given holds of its value. -/
def Reticent (good : α → Prop) (work : Run K α) : Prop :=
  ∀ session, match work session with
    | .ok a _ => good a
    | .error _ last => last.endings = session.endings

namespace Quiet

variable {work : Run K α} {next : α → Run K β}

/-- Quiet work halts, or what comes next goes on with its value. -/
theorem bind_eq (h : Quiet good work) (next : α → Run K β) (session : Session K) :
    (∃ halt last, (work >>= next) session = .error halt last ∧ last.endings = session.endings) ∨
      ∃ a last, good a ∧ last.endings = session.endings ∧
        (work >>= next) session = next a last := by
  have hwork := h session
  cases hresult : work session with
  | ok a last =>
    rw [hresult] at hwork
    exact .inr ⟨a, last, hwork.1, hwork.2, bind_of_ok hresult⟩
  | error halt last =>
    rw [hresult] at hwork
    exact .inl ⟨halt, last, bind_of_error hresult, hwork⟩

theorem bind (h : Quiet good work) (hnext : ∀ a, good a → Quiet good' (next a)) :
    Quiet good' (work >>= next) := by
  intro session
  obtain ⟨halt, last, heq, hlast⟩ | ⟨a, last, ha, hlast, heq⟩ := h.bind_eq next session
  · rw [heq]
    exact hlast
  · rw [heq, ← hlast]
    exact hnext a ha last

/-- What comes after quiet work may tell its end. -/
theorem bind_reticent (h : Quiet good work) (hnext : ∀ a, good a → Reticent good' (next a)) :
    Reticent good' (work >>= next) := by
  intro session
  obtain ⟨halt, last, heq, hlast⟩ | ⟨a, last, ha, hlast, heq⟩ := h.bind_eq next session
  · rw [heq]
    exact hlast
  · rw [heq, ← hlast]
    exact hnext a ha last

theorem inside (span : Span) (h : Quiet good work) : Quiet good (Run.inside span work) := by
  intro session
  have hwork := h (session.told (.enter span))
  rw [session.endings_told rfl] at hwork
  rw [Run.inside_eq]
  generalize work (session.told (.enter span)) = result at hwork
  cases result with
  | ok a last => exact ⟨hwork.1, (last.endings_told rfl).trans hwork.2⟩
  | error halt last => exact (last.endings_told rfl).trans hwork

/-- The host alone tells nothing. -/
theorem hosted (work : Hosted K α) : Quiet Any (Run.hosted work) := by
  intro session
  unfold Run.hosted
  cases work session.host with
  | ok a host => exact ⟨trivial, rfl⟩
  | error halt host => rfl

end Quiet

/-- To tell no end is a habit. -/
def quiet : Habit K where
  Holds good work := Quiet good work
  pure h _ := ⟨h, rfl⟩
  throw _ _ := rfl
  bind := Quiet.bind
  naming _ _ := ⟨trivial, rfl⟩
  building steps session := by
    cases h : steps session.memo.next with
    | ok made =>
      rw [Run.building_of_ok h]
      exact ⟨trivial, rfl⟩
    | error halt => rw [Run.building_of_error h]
  pop _ _ := ⟨trivial, rfl⟩
  observe _ _ := ⟨trivial, rfl⟩

namespace Reticent

variable {work : Run K α} {next : α → Run K β}

/-- After the end was told there can be no halt. -/
theorem bind_pure (h : Reticent good work) (hnext : ∀ a, good a → ∃ b, good' b ∧ next a = pure b) :
    Reticent good' (work >>= next) := by
  intro session
  have hwork := h session
  cases hresult : work session with
  | ok a last =>
    rw [hresult] at hwork
    rw [bind_of_ok hresult]
    obtain ⟨b, hb, hpure⟩ := hnext a hwork
    rw [hpure]
    exact hb
  | error halt last =>
    rw [hresult] at hwork
    rw [bind_of_error hresult]
    exact hwork

theorem inside (span : Span) (h : Reticent good work) : Reticent good (Run.inside span work) := by
  intro session
  have hwork := h (session.told (.enter span))
  rw [session.endings_told rfl] at hwork
  rw [Run.inside_eq]
  generalize work (session.told (.enter span)) = result at hwork
  cases result with
  | ok a last => exact hwork
  | error halt last => exact (last.endings_told rfl).trans hwork

/-- To tell the end and give a value. -/
theorem tell_pure (event : Event) {a : α} (h : good a) :
    Reticent good (do Run.tell event; return a : Run K α) := fun _ => h

end Reticent

end Run

open Run

/-! ## 2. Loops that tell their end -/

/-- The turns of a run with a handler. -/
theorem Code.handle_reticent {handler : Handler K Failure}
    (hhandler : ∀ effect, Quiet Any (handler effect)) (turns effects : Nat) (code : Code S) :
    Reticent Any (code.handle handler turns effects) := by
  induction turns generalizing effects code with
  | zero => exact fun _ => rfl
  | succ turns ih =>
    rw [Code.handle_succ]
    refine (quiet.advance turns code).bind_reticent fun stop _ => ?_
    cases stop with
    | finished value => exact .tell_pure _ trivial
    | waiting waiting =>
      refine (hhandler waiting.effect).bind_reticent fun result _ => ?_
      cases result with
      | ok answer =>
        exact (quiet.answer waiting answer).bind_reticent fun code _ => ih (effects + 1) code
      | error failure => exact .tell_pure _ trivial

/-- The turns of driving steps. -/
theorem Step.drive_reticent {first : N → Prop} {last : M → Prop} {force : N → Run K (Packed S)}
    (hforce : ∀ effect, first effect → Quiet Any (force effect)) (turns effects : Nat) {times : Nat}
    {step : Step K N M} (h : quiet.Goes first last times step) :
    Reticent last (step.drive force turns effects) := by
  induction turns generalizing times effects step with
  | zero => exact fun _ => rfl
  | succ turns ih =>
    cases step with
    | done value => exact .tell_pure _ h.of_done
    | next effect resume =>
      cases times with
      | zero => exact h.elim
      | succ times =>
        refine (hforce effect h.1).bind_reticent fun answer _ => ?_
        exact Quiet.bind_reticent (h.2 answer) fun step hstep => ih (effects + 1) hstep

/-! ## 3. Whole runs -/

/-- The run tells no end if it halts on the session. -/
def Run.ReticentOn (session : Session K) (work : Run K α) : Prop :=
  ∀ halt last, work session = .error halt last → last.endings = session.endings

theorem Run.Reticent.on {good : α → Prop} {work : Run K α} (h : Reticent good work)
    (session : Session K) : ReticentOn session work := by
  intro halt last hresult
  have hwork := h session
  rw [hresult] at hwork
  exact hwork

theorem Run.Quiet.on {good : α → Prop} {work : Run K α} (h : Quiet good work)
    (session : Session K) : ReticentOn session work := by
  intro halt last hresult
  have hwork := h session
  rw [hresult] at hwork
  exact hwork

section Runs

variable {pact : Pact K L} {ledger ledger' : Ledger (Frame S)} {program program' : Program S type}
  {s : Session K} {t : Session L}

/-- **Runs with a handler that halt tell no end.**  After a program finished, its value has the type
that is asked for. -/
theorem Terms.Codes.tryRunIn_quiet (keeps : pact.Keeps ledger ledger') {handler : Handler K Failure}
    {handler' : Handler L Failure}
    (hhandler : ∀ effect, pact.Steady .equal ledger ledger' (handler effect) (handler' effect))
    (hquiet : ∀ effect, Quiet Any (handler' effect)) (turns : Nat)
    (h : pact.Codes ledger ledger' program.code program'.code type) (agrees : s.memo.Agrees ledger)
    (agrees' : t.memo.Agrees ledger') (together : pact.hosts ledger s.host t.host) :
    ReticentOn t (program'.tryRunIn turns handler') := by
  intro halt last hresult
  rw [Program.tryRunIn_eq, Run.inside_eq] at hresult
  have hresults := @Pact.Abreast.results _ _ _ _ _ _ _ _ _ _ _ _ (h.handle keeps hhandler turns 0)
    ledger ledger' s (t.told (.enter .run)) (List.prefix_refl ledger) (List.prefix_refl ledger')
    agrees agrees' together
  have hreticent := program'.code.handle_reticent hquiet turns 0 (t.told (.enter .run))
  rw [t.endings_told rfl] at hreticent
  generalize program.code.handle handler turns 0 s = left at hresults
  generalize hright : program'.code.handle handler' turns 0 (t.told (.enter .run)) = right
    at hresults hreticent
  cases right with
  | error halt' last' =>
    rw [bind_of_error hright] at hresult
    cases hresult
    exact (last'.endings_told rfl).trans hreticent
  | ok result last' =>
    -- The value that was told of is unpacked at its own type.
    rw [bind_of_ok hright] at hresult
    cases hresults with
    | ok _ _ _ _ _ value =>
      obtain ⟨hsame, htype⟩ := value
      cases result with
      | error failure => cases hresult
      | ok value =>
        obtain ⟨inner, value⟩ := value
        obtain rfl : inner = type := htype _ hsame
        rw [Program.unpacked, Packed.unpack_self] at hresult
        cases hresult

/-- Runs with a handler that answers every effect. -/
theorem Terms.Codes.runIn_quiet (keeps : pact.Keeps ledger ledger')
    {handler : S.Effect → Run K (Packed S)} {handler' : S.Effect → Run L (Packed S)}
    (hhandler : ∀ effect, pact.Steady .equal ledger ledger' (handler effect) (handler' effect))
    (hquiet : ∀ effect, Quiet Any (handler' effect)) (turns : Nat)
    (h : pact.Codes ledger ledger' program.code program'.code type) (agrees : s.memo.Agrees ledger)
    (agrees' : t.memo.Agrees ledger') (together : pact.hosts ledger s.host t.host) :
    ReticentOn t (program'.runIn turns handler') := by
  intro halt last hresult
  have hsteady : ∀ effect, pact.Steady .equal ledger ledger'
      (answering handler effect : Run K (Except Empty (Packed S))) (answering handler' effect) :=
    fun effect => (hhandler effect).map_equal
  have hanswering : ∀ effect,
      Quiet Any (answering handler' effect : Run L (Except Empty (Packed S))) :=
    fun effect => (hquiet effect).bind fun _ _ => quiet.pure trivial
  have hreticent := h.tryRunIn_quiet keeps hsteady hanswering turns agrees agrees' together
  rw [Program.runIn_eq] at hresult
  cases hright : program'.tryRunIn turns (answering handler') t with
  | error halt' last' =>
    rw [bind_of_error hright] at hresult
    cases hresult
    exact hreticent _ _ hright
  | ok result last' =>
    rw [bind_of_ok hright] at hresult
    cases result with
    | ok value => cases hresult
    | error failure => cases failure

end Runs

section Folds

variable {first : N → Prop} {last : M → Prop} {rendering : Rendering K type N M}
  {force : N → Run K (Packed S)}

/-- Folds tell nothing of their own. -/
theorem Program.foldIn_quiet (heffect : ∀ effect, Quiet first (rendering.effect effect))
    (hresult : ∀ value, Quiet last (rendering.result value))
    {combine : N → (Packed S → Run K M) → Run K M}
    (hcombine : ∀ {effect : N} {rest : Packed S → Run K M}, first effect →
      (∀ answer, Quiet last (rest answer)) → Quiet last (combine effect rest)) (turns : Nat)
    (program : Program S type) : Quiet last (program.foldIn turns rendering combine) :=
  quiet.fold heffect hresult hcombine turns program.code

/-- Nor do deferred computations that are chained, when they are forced. -/
theorem Program.chained_quiet {render : S.Effect → Run K (Deferred K (Packed S))}
    (hrender : ∀ effect, Quiet (fun deferred => Quiet Any deferred.force) (render effect))
    (turns : Nat) (program : Program S type) :
    Quiet Any (do
      let deferred ← program.foldIn turns ⟨render, fun value => return .now value⟩
        fun effect rest => return effect.bind rest
      deferred.force : Run K (S.El type)) := by
  have hnow : ∀ value : S.El type,
      Quiet (fun deferred : Deferred K (S.El type) => Quiet Any deferred.force)
        (Pure.pure (.now value) : Run K _) := fun value _ => ⟨quiet.pure trivial, rfl⟩
  refine (Program.foldIn_quiet hrender hnow (fun heffect hrest => ?_) turns program).bind
    fun _ h => h
  refine fun _ => ⟨?_, rfl⟩
  exact heffect.bind fun answer _ => (hrest answer).bind fun _ h => h

/-- Steps driven to their end. -/
theorem Program.stepsIn_reticent (heffect : ∀ effect, Quiet first (rendering.effect effect))
    (hresult : ∀ value, Quiet last (rendering.result value))
    (hforce : ∀ effect, first effect → Quiet Any (force effect)) (turns : Nat)
    (program : Program S type) :
    Reticent last (do (← program.stepsIn turns rendering).runIn turns force) :=
  Quiet.bind_reticent (quiet.steps heffect hresult turns program.code) fun _ hstep =>
    .inside .steps (Step.drive_reticent hforce turns 0 hstep)

/-- **One deferred computation that halts when it is forced tells no end.** -/
theorem Program.deferIn_reticent {render : S.Effect → Run K (Deferred K (Packed S))}
    (hrender : ∀ effect, Quiet (fun deferred => Quiet Any deferred.force) (render effect))
    (turns : Nat) (program : Program S type) :
    Reticent Any (do (← program.deferIn turns render).force : Run K (S.El type)) := by
  -- What the steps end with is there already, so nothing can halt after their end is told.
  have hforce : ∀ {step : Step K (Deferred K (Packed S)) (Deferred K (S.El type))},
      quiet.Goes (fun deferred => Quiet Any deferred.force) (fun deferred => ∃ v, deferred = .now v)
        turns step → Reticent Any (Deferred.ofStepsIn turns step).force := by
    intro step hstep
    refine Reticent.bind_pure (.inside .steps (Step.drive_reticent (fun _ h => h) turns 0 hstep)) ?_
    rintro _ ⟨value, rfl⟩
    exact ⟨value, trivial, rfl⟩
  let rendering : Rendering K type (Deferred K (Packed S)) (Deferred K (S.El type)) :=
    ⟨render, fun value => return .now value⟩
  have heffect : ∀ effect, quiet.Holds (fun deferred => Quiet Any deferred.force)
      (rendering.effect effect) := hrender
  have hresult : ∀ value, quiet.Holds (fun deferred => ∃ v, deferred = .now v)
      (rendering.result value) := fun value => quiet.pure ⟨value, rfl⟩
  have hsteps := quiet.steps heffect hresult turns program.code
  have hdeferred : Quiet (fun deferred => Reticent Any deferred.force)
      (program.deferIn turns render) := by
    refine .inside .drive (Quiet.bind hsteps fun step hstep => ?_)
    exact fun _ => ⟨hforce hstep, rfl⟩
  exact hdeferred.bind_reticent fun _ h => h

end Folds

end FreePrograms
