/-
# What the span of a driven fold covers

A fold that is driven enters its span, translates the first step, hands it to the driver, and leaves
the span when the driver returns.  So it depends on the driver whether the span covers the
translation of the first step only (`Program.CoversFirst`).  It does exactly if the driver tells
nothing before it returns (`Program.span_held_by_driver`).

A driver that keeps the steps and returns at once tells nothing.  When they are driven later, the
span was left long ago: `Session.Opened` says which spans are open at each effect.  A driver that
drives the steps itself is another matter.  It tells at least the bounds of the span of its steps.
So the span of the fold covers every effect that is forced, whatever is translated and run on the
way, and the end of the steps; `job1_driven_inside` is the shortest case.
-/
import FreePrograms.Jobs.Workshop
import FreePrograms.Proofs.Events.Nesting

namespace FreePrograms

variable {S : Signature} {K : Host S} {type : S.Ty} {N M R : Type}

/-! ## 1. The spans that are open -/

/-- These spans were entered since the session, the innermost first in the list, and are open in the
later session; the end of none of them is told. -/
def Session.Opened (session : Session K) (spans : List Span) (later : Session K) : Prop :=
  ∃ told, session.Adds told later ∧
    told.foldlM Event.follow [] = some (spans.map fun span => (span, false))

namespace Session.Opened

variable {session later last : Session K} {spans : List Span} {told : List Event}

theorem refl (session : Session K) : session.Opened [] session := ⟨[], .refl session, rfl⟩

/-- What is told in order leaves open what was open. -/
theorem orderly (h : session.Opened spans later) (horderly : Orderly told)
    (hadds : later.Adds told last) : session.Opened spans last := by
  obtain ⟨before, hbefore, hfollow⟩ := h
  refine ⟨before ++ told, hbefore.trans hadds, ?_⟩
  rw [List.foldlM_append, hfollow]
  refine horderly.follow_eq fun span hhead => ?_
  cases spans with
  | nil => cases hhead
  | cons _ _ => simp at hhead

theorem enter (h : session.Opened spans later) (span : Span) :
    session.Opened (span :: spans) (later.told (.enter span)) := by
  obtain ⟨before, hbefore, hfollow⟩ := h
  refine ⟨before ++ [.enter span], hbefore.trans (.event later _), ?_⟩
  rw [List.foldlM_append, hfollow]
  cases spans <;> rfl

theorem leave {span : Span} (h : session.Opened (span :: spans) later) :
    session.Opened spans (later.told (.leave span)) := by
  obtain ⟨before, hbefore, hfollow⟩ := h
  refine ⟨before ++ [.leave span], hbefore.trans (.event later _), ?_⟩
  rw [List.foldlM_append, hfollow]
  simp

end Session.Opened

/-- Events in order do not begin with the end of a span. -/
theorem Orderly.ne_leave {span : Span} {told : List Event} : ¬ Orderly (.leave span :: told) := by
  intro h
  have hnone : ∀ span, ([] : List (Span × Bool)).head? ≠ some (span, true) := by simp
  have hfollow := h.follow_eq hnone
  simp [Event.follow] at hfollow

/-- Effects are forced with the same spans open: those that were open when the steps began to be
driven. -/
theorem Step.Drives.opened {force : N → Run K (Packed S)} {turns effects : Nat}
    {step : Step K N M} {session begun : Session K} {spans : List Span}
    {calls : List (Call K (Step K N M))} {result : EStateM.Result (Halt S) (Session K) M}
    (h : Step.Drives force turns effects step begun calls result)
    (hcalls : ∀ call ∈ calls, call.Tells .orderly (Step.turn force))
    (hopened : session.Opened spans begun) :
    ∀ call ∈ calls, session.Opened spans call.session := by
  induction h with
  | exhausted => simp
  | finished => simp
  | struck => simpa using hopened
  | forced turn _ ih =>
    obtain ⟨horderly, hadds⟩ := hcalls _ List.mem_cons_self
    rw [turn] at hadds
    have hrest := ih (fun call hcall => hcalls call (List.mem_cons_of_mem _ hcall))
      (hopened.orderly horderly hadds)
    intro call hcall
    rcases List.mem_cons.mp hcall with rfl | hcall
    · exact hopened
    · exact hrest call hcall

/-! ## 2. The call of a driven fold -/

/-- The first step is translated: the session in which the driver has it, and what was told by
then. -/
theorem Program.stepsIn_adds {first : N → Prop} {last : M → Prop} {rendering : Rendering K type N M}
    (renders : rendering.Tells .orderly first last) {turns : Nat} {program : Program S type}
    {session middle : Session K} {step : Step K N M}
    (h : program.stepsIn turns rendering (session.told (.enter .drive)) = .ok step middle) :
    (telling .orderly).Goes first last turns step ∧ ∃ rendered, Orderly rendered ∧
      (session.told (.enter .drive)).Adds rendered middle ∧ session.Opened [.drive] middle := by
  have htells := (telling .orderly).steps renders.effect renders.result turns program.code
  obtain ⟨rendered, horderly, hadds⟩ := htells.adds (session.told (.enter .drive))
  have hlast : Run.last (program.code.steps rendering turns (session.told (.enter .drive)))
      = middle := congrArg Run.last h
  rw [hlast] at hadds
  exact ⟨htells.value h, rendered, horderly, hadds,
    ((Session.Opened.refl session).enter .drive).orderly horderly hadds⟩

/-- Once the first step is there, the span is left as the driver leaves the session. -/
theorem Program.last_driveIn {turns : Nat} {program : Program S type}
    {rendering : Rendering K type N M} {driver : Step K N M → Run K R} {session middle : Session K}
    {step : Step K N M}
    (h : program.stepsIn turns rendering (session.told (.enter .drive)) = .ok step middle) :
    Run.last (program.driveIn turns rendering driver session)
      = (Run.last (driver step middle)).told (.leave .drive) := by
  rw [driveIn, Run.last_inside, bind_of_ok h]

/-- The span of the call covers the translation of the first step only: what the driver tells comes
after the span is left. -/
def Program.CoversFirst (turns : Nat) (program : Program S type) (rendering : Rendering K type N M)
    (driver : Step K N M → Run K R) (session : Session K) : Prop :=
  ∀ step middle, program.stepsIn turns rendering (session.told (.enter .drive)) = .ok step middle →
    ∃ driven, middle.Adds driven (Run.last (driver step middle)) ∧
      (middle.told (.leave .drive)).Adds driven
        (Run.last (program.driveIn turns rendering driver session))

/-- Events in order come both before and after the end of a span only if there are none. -/
theorem Session.Adds.eq_nil {middle later : Session K} {span : Span} {driven : List Event}
    (horderly : Orderly driven) (h : middle.Adds driven later)
    (hleft : (middle.told (.leave span)).Adds driven (later.told (.leave span))) : driven = [] := by
  have hboth : driven ++ [.leave span] = .leave span :: driven := by
    have hbefore := h.trans (.event later (.leave span))
    have hafter := (Session.Adds.event middle (.leave span)).trans hleft
    exact hbefore.drop_eq.symm.trans hafter.drop_eq
  cases driven with
  | nil => rfl
  | cons event driven =>
    obtain ⟨rfl, -⟩ := List.cons.inj hboth
    exact absurd horderly Orderly.ne_leave

section Drivers

variable {first : N → Prop} {last : M → Prop} {rendering : Rendering K type N M} {turns : Nat}
  {program : Program S type} {session : Session K}

/-- **The span covers the first step only if the driver tells nothing** before it returns, and then
it does. -/
theorem Program.coversFirst_iff (renders : rendering.Tells .orderly first last)
    {driver : Step K N M → Run K R}
    (hdriver : ∀ step, (telling .orderly).Goes first last turns step →
      Run.Tells .orderly Any (driver step)) :
    program.CoversFirst turns rendering driver session ↔
      ∀ step middle,
        program.stepsIn turns rendering (session.told (.enter .drive)) = .ok step middle →
        middle.Adds [] (Run.last (driver step middle)) := by
  constructor
  · intro hcovers step middle h
    obtain ⟨driven, hadds, hafter⟩ := hcovers step middle h
    obtain ⟨hgoes, -⟩ := stepsIn_adds renders h
    obtain ⟨told, horderly, htold⟩ := (hdriver step hgoes).adds middle
    obtain rfl : driven = told := hadds.drop_eq.symm.trans htold.drop_eq
    rw [last_driveIn h] at hafter
    rw [hadds.eq_nil horderly hafter] at hadds
    exact hadds
  · intro hsilent step middle h
    refine ⟨[], hsilent step middle h, ?_⟩
    rw [last_driveIn h]
    have hevents := hsilent step middle h
    simp only [Session.Adds, List.append_nil] at hevents
    simp [Session.Adds, Session.told, hevents]

/-- Steps that are driven tell at least the bounds of their span. -/
theorem Step.not_adds_nil {force : N → Run K (Packed S)} {step : Step K N M} {middle : Session K}
    (hsteps : ∀ call ∈ step.forced force turns (middle.told (.enter .steps)),
      call.Tells .orderly (Step.turn force)) :
    ¬ middle.Adds [] (Run.last (step.runIn turns force middle)) := by
  intro hnil
  have hadds := Step.runIn_adds turns step middle hsteps
  have hnone := hadds.drop_eq.symm.trans hnil.drop_eq
  cases hnone

end Drivers

/-! ## 3. Who holds the span -/

/-- **The span of a driven fold is held by the driver.**  Let what is handed in tell events in
order, as everything does that makes runs and nothing else.  Then the span covers the translation of
the first step only exactly if the driver tells nothing before it returns.

Say the first step is there.  With a driver that drives the steps the span never covers that alone:
the span of the steps, all that is told when they are forced and gone on with, and their end come
before the span of the fold is left, and at each effect that is forced both spans are open.  With a
driver that keeps the step and returns, as one does that makes something deferred of it, it does.
Whenever the steps are driven after that, at each effect only their own span is open. -/
theorem Program.span_held_by_driver {first : N → Prop} {last : M → Prop}
    {rendering : Rendering K type N M} (renders : rendering.Tells .orderly first last) (turns : Nat)
    (program : Program S type) (session : Session K) :
    (∀ {R : Type} (driver : Step K N M → Run K R),
      (∀ step, (telling .orderly).Goes first last turns step →
        Run.Tells .orderly Any (driver step)) →
      (program.CoversFirst turns rendering driver session ↔
        ∀ step middle,
          program.stepsIn turns rendering (session.told (.enter .drive)) = .ok step middle →
          middle.Adds [] (Run.last (driver step middle)))) ∧
    ∀ step middle,
      program.stepsIn turns rendering (session.told (.enter .drive)) = .ok step middle →
      ∃ rendered, Orderly rendered ∧ (session.told (.enter .drive)).Adds rendered middle ∧
      (∀ force : N → Run K (Packed S),
        (∀ effect, first effect → Run.Tells .orderly Any (force effect)) →
        let driver := fun step : Step K N M => step.runIn turns force
        let calls := step.forced force turns (middle.told (.enter .steps))
        let ending := Run.ending (fun _ => .stepsFinished calls.length) (driver step middle)
        ¬ program.CoversFirst turns rendering driver session ∧
        (∀ call ∈ calls, session.Opened [.steps, .drive] call.session) ∧
        session.Adds (.enter .drive :: (rendered ++
            .enter .steps :: (calls.flatMap (Call.told (Step.turn force)) ++ ending.toList ++
              [.leave .steps]) ++ [.leave .drive]))
          (Run.last (program.driveIn turns rendering driver session))) ∧
      ∀ {R : Type} (keep : Step K N M → R),
        let driver := fun step : Step K N M => (return keep step : Run K R)
        let kept := Run.last (program.driveIn turns rendering driver session)
        program.CoversFirst turns rendering driver session ∧
        session.Adds (.enter .drive :: (rendered ++ [.leave .drive])) kept ∧
        ∀ between later, Orderly between → kept.Adds between later →
          ∀ force : N → Run K (Packed S),
            (∀ effect, first effect → Run.Tells .orderly Any (force effect)) →
            ∀ call ∈ step.forced force turns (later.told (.enter .steps)),
              session.Opened [.steps] call.session := by
  refine ⟨fun driver hdriver => coversFirst_iff renders hdriver, fun step middle h => ?_⟩
  obtain ⟨hgoes, rendered, horderly, hrendered, hopened⟩ := stepsIn_adds renders h
  have hcalls : ∀ force : N → Run K (Packed S),
      (∀ effect, first effect → Run.Tells .orderly Any (force effect)) → ∀ begun : Session K,
        ∀ call ∈ step.forced force turns begun, call.Tells .orderly (Step.turn force) :=
    fun force hforce begun => ((Step.drives force turns 0 step begun).tells hforce hgoes).1
  refine ⟨rendered, horderly, hrendered, fun force hforce => ?_, fun keep => ?_⟩
  · intro driver calls ending
    have htells := hcalls force hforce (middle.told (.enter .steps))
    refine ⟨fun hcovers => ?_, ?_, ?_⟩
    · have hiff : program.CoversFirst turns rendering driver session ↔ _ :=
        coversFirst_iff renders fun step hstep =>
          (Step.runIn_orderly hforce turns hstep).mono fun _ _ => trivial
      exact Step.not_adds_nil htells (hiff.mp hcovers step middle h)
    · exact (Step.drives force turns 0 step _).opened htells (hopened.enter .steps)
    · have hdriven := Step.runIn_adds turns step middle htells
      rw [last_driveIn h]
      exact (hrendered.trans hdriven).span
  · intro driver kept
    have hkept : kept = middle.told (.leave .drive) := last_driveIn h
    refine ⟨?_, ?_, fun between later hbetween hadds force hforce => ?_⟩
    · have hiff : program.CoversFirst turns rendering driver session ↔ _ :=
        coversFirst_iff renders fun step _ => .pure trivial
      exact hiff.mpr fun step middle _ => .refl middle
    · rw [hkept]
      exact hrendered.span
    · rw [hkept] at hadds
      have hlater : session.Opened [] later := hopened.leave.orderly hbetween hadds
      exact (Step.drives force turns 0 step _).opened (hcalls force hforce _) (hlater.enter .steps)

namespace Jobs

/-- Holds jobs, and the result, as they are. -/
def asGiven : Rendering host Ty.unit Effect Unit :=
  ⟨fun effect => return effect, fun value => return value⟩

theorem asGiven_tells : asGiven.Tells .orderly Any Any :=
  ⟨fun _ => .pure trivial, fun _ => .pure trivial⟩

/-- Answers every job at once. -/
def answerAtOnce : Effect → Run host (Packed signature) := fun _ => return unitAnswer

/-- Nothing happened in the workshop yet. -/
abbrev morning : Session host := .startAt 0 .start

/-- One job, kept and not driven: the span covers the translation only.  Driven at once, it is done
with both spans open. -/
theorem job1_spans :
    job1.CoversFirst 3 asGiven (fun step => return step) morning ∧
    morning.Opened [.steps, .drive] ((morning.told (.enter .drive)).told (.enter .steps)) := by
  obtain ⟨-, hspan⟩ := Program.span_held_by_driver asGiven_tells 3 job1 morning
  obtain ⟨_, -, -, hdriven, hkept⟩ := hspan _ _ rfl
  obtain ⟨-, hopened, -⟩ := hdriven answerAtOnce fun _ _ => .pure trivial
  exact ⟨(hkept fun step => step).1, hopened _ List.mem_cons_self⟩

/-- **Steps that are driven at once come before the span is left.**  One job is translated and
handed to a driver that does it: the span of its steps, and their end, are told inside the span of
the fold, and so this span does not cover the translation only. -/
theorem job1_driven_inside :
    let driver := fun step => step.runIn 3 answerAtOnce
    morning.Adds [.enter .drive, .enter .steps, .stepsFinished 1, .leave .steps, .leave .drive]
      (Run.last (job1.driveIn 3 asGiven driver morning)) ∧
    ¬ job1.CoversFirst 3 asGiven driver morning := by
  refine ⟨rfl, fun hcovers => ?_⟩
  obtain ⟨driven, hadds, hafter⟩ := hcovers _ _ rfl
  have hdriven : [Event.enter .steps, .stepsFinished 1, .leave .steps] = driven := hadds.drop_eq
  have hdrive : [Event.enter .steps, .stepsFinished 1, .leave .steps, .leave .drive]
      = .leave .drive :: driven := ((Session.Adds.event _ _).trans hafter).drop_eq
  cases hdrive

end Jobs

end FreePrograms
