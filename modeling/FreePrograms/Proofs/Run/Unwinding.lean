/-
# Deferred computations made of steps

A chain of steps over deferred effects becomes one deferred computation in two ways: by the driver,
which goes through the chain in one loop and forces the final computation after it
(`Deferred.ofStepsIn`), and by nesting, which chains each effect with what comes after it
(`Deferred.nestIn`).  They agree (`Deferred.ofStepsIn_agrees`).

They do not tell the same events, so all that is compared here is `Run.Alike`, and what is asked of
a chain is that its thunks and its resumptions do not depend on what was told before
(`Step.Oblivious`).  Of a host nothing else can be said: it does not see the events.

What is done when a chain is forced is written down as a list of stages (`Step.Unwinds`): which
thunk is forced, which resumption is called with which answer, which final computation is forced.
Each stage begins on the session that the one before it left.
-/
import FreePrograms.Jobs.Workshop
import FreePrograms.Proofs.Run.Chains
import FreePrograms.Proofs.Run.Oblivious

namespace FreePrograms

variable {S : Signature} {K : Host S} {type : S.Ty} {α β γ : Type}

open Run (Alike)

/-! ## 1. The two ways are alike -/

namespace Deferred

variable {step : Step K (Deferred K (Packed S)) (Deferred K α)}

/-- To drive an oblivious chain gives an oblivious computation. -/
theorem drive_oblivious (h : step.Oblivious) (turns effects : Nat) :
    Run.Oblivious Deferred.Oblivious (step.drive force turns effects) := by
  induction turns generalizing step effects with
  | zero => exact .throw .exhausted
  | succ turns ih =>
    cases step with
    | done deferred => exact .tell _ (.pure h.last)
    | next effect resume =>
      rw [Step.drive]
      refine h.first.bind fun answer _ => ?_
      exact (h.resumed answer).bind fun step hstep => ih hstep (effects + 1)

/-- The nest of a chain that is not done: an effect, a resumption, and the nest of the rest. -/
theorem force_nestIn_next (turns : Nat) (effect : Deferred K (Packed S))
    (resume : Packed S → Session K → EStateM.Result (Halt S) (Session K) (Step K _ (Deferred K α))) :
    (nestIn (turns + 1) (.next effect resume)).force = (do
      let answer ← effect.force
      let step ← Step.answer resume answer
      (nestIn turns step).force) := by
  rw [nestIn, Deferred.bind]
  simp only [bind_assoc, pure_bind]

/-- The loop and the nest are alike. -/
theorem drive_alike (h : step.Oblivious) (turns effects : Nat) :
    Alike (step.drive force turns effects >>= force) (nestIn turns step).force := by
  induction turns generalizing step effects with
  | zero => exact .throw .exhausted
  | succ turns ih =>
    cases step with
    | done deferred =>
      rw [Step.drive, bind_assoc]
      exact .tell _ h.last.alike
    | next effect resume =>
      rw [Step.drive, force_nestIn_next]
      simp only [bind_assoc]
      refine h.first.bind_alike h.first.alike fun answer _ => ?_
      have hresume := h.resumed answer
      exact hresume.bind_alike hresume.alike fun step hstep => ih hstep (effects + 1)

/-- **Forced, the driver and the nest do alike**, in any number of turns. -/
theorem ofStepsIn_alike (h : step.Oblivious) (turns : Nat) :
    Alike (ofStepsIn turns step).force (nestIn turns step).force := by
  have hdrive := drive_oblivious h turns 0
  have hloop : Alike (step.runIn turns force >>= force) (step.drive force turns 0 >>= force) :=
    hdrive.bind_alike (.inside .steps hdrive.alike) fun _ hlast => hlast.alike
  exact hloop.trans (drive_alike h turns 0)

end Deferred

/-! ## 2. Further maps and binds -/

/-- What is done with a deferred computation: it is mapped and bound further, and it is what the
function of a bind gives. -/
inductive Deferred.Context (K : Host S) (α : Type) : Type → Type 1 where
  | here : Context K α α
  | map {β γ : Type} (context : Context K α β) (function : β → Run K γ) : Context K α γ
  | bind {β γ : Type} (context : Context K α β) (function : β → Run K (Deferred K γ)) :
    Context K α γ
  | after {β γ : Type} (first : Deferred K β) (context : β → Context K α γ) : Context K α γ

namespace Deferred.Context

/-- The computation in its place. -/
def plug (deferred : Deferred K α) : {β : Type} → Context K α β → Deferred K β
  | _, here => deferred
  | _, map context function => (context.plug deferred).map function
  | _, bind context function => (context.plug deferred).bind function
  | _, after first context => first.bind fun value => return (context value).plug deferred

/-- Nothing in the context depends on what was told. -/
def Oblivious : {β : Type} → Context K α β → Prop
  | _, here => True
  | _, map context function => context.Oblivious ∧ ∀ value, Run.Oblivious Any (function value)
  | _, bind context function =>
    context.Oblivious ∧ ∀ value, Run.Oblivious Deferred.Oblivious (function value)
  | _, after first context => first.Oblivious ∧ ∀ value, (context value).Oblivious

end Deferred.Context

/-- The computations do alike when they are forced, in any context. -/
def Deferred.Agrees (left right : Deferred K α) : Prop :=
  ∀ (β : Type) (context : Context K α β), context.Oblivious →
    Alike (context.plug left).force (context.plug right).force

/-- **Contexts keep computations alike.** -/
theorem Deferred.Agrees.of_alike {left right : Deferred K α} (h : Alike left.force right.force) :
    left.Agrees right := by
  intro β context hcontext
  induction context with
  | here => exact h
  | map context function ih =>
    obtain ⟨hcontext, hfunction⟩ := hcontext
    exact (ih hcontext).bind fun value => (hfunction value).alike
  | bind context function ih =>
    obtain ⟨hcontext, hfunction⟩ := hcontext
    refine (ih hcontext).bind fun value => ?_
    exact (hfunction value).bind_alike (hfunction value).alike fun _ hlast => hlast.alike
  | after first context ih =>
    obtain ⟨hfirst, hcontext⟩ := hcontext
    refine hfirst.alike.bind fun value => ?_
    rw [pure_bind, pure_bind]
    exact ih value (hcontext value)

/-! ## 3. What is done, stage by stage -/

/-- A stage of forcing a chain of steps. -/
inductive Stage {S : Signature} (K : Host S) (α : Type) where
  /-- The thunk of an effect is forced. -/
  | force (thunk : Deferred K (Packed S))
  /-- A resumption is called with the answer. -/
  | resume (resume : Packed S → Session K →
      EStateM.Result (Halt S) (Session K) (Step K (Deferred K (Packed S)) (Deferred K α)))
    (answer : Packed S)
  /-- The final computation is forced. -/
  | finish (thunk : Deferred K α)

/-- What is told when a chain came to its end after so many effects, and when it halted before. -/
structure Narration {S : Signature} (K : Host S) where
  ended : Nat → Session K → Session K
  halted : Session K → Session K

/-- Nothing is told. -/
def Narration.none : Narration K := ⟨fun _ session => session, fun session => session⟩

/-- What the driver tells. -/
def Narration.driver : Narration K :=
  ⟨fun effects session => (session.told (.stepsFinished effects)).told (.leave .steps),
    fun session => session.told (.leave .steps)⟩

/-- **What is done when a chain is forced**: on that session, after so many effects, these stages
are gone through in this order, each on the session that the one before it left, and they come to
that result. -/
inductive Step.Unwinds (narration : Narration K) : Nat →
    Step K (Deferred K (Packed S)) (Deferred K α) → Session K → List (Stage K α) →
    EStateM.Result (Halt S) (Session K) α → Prop where
  | done {effects deferred session} :
    Unwinds narration effects (.done deferred) session [.finish deferred]
      (deferred.force (narration.ended effects session))
  | stuck {effects effect resume session halt last}
    (forced : effect.force session = .error halt last) :
    Unwinds narration effects (.next effect resume) session [.force effect]
      (.error halt (narration.halted last))
  | lost {effects effect resume session answer middle halt last}
    (forced : effect.force session = .ok answer middle)
    (resumed : Step.answer resume answer middle = .error halt last) :
    Unwinds narration effects (.next effect resume) session [.force effect, .resume resume answer]
      (.error halt (narration.halted last))
  | next {effects effect resume session answer middle step last stages result}
    (forced : effect.force session = .ok answer middle)
    (resumed : Step.answer resume answer middle = .ok step last)
    (rest : Unwinds narration (effects + 1) step last stages result) :
    Unwinds narration effects (.next effect resume) session
      (.force effect :: .resume resume answer :: stages) result

namespace Step.Unwinds

variable {step : Step K (Deferred K (Packed S)) (Deferred K α)} {session : Session K}
  {stages : List (Stage K α)} {result : EStateM.Result (Halt S) (Session K) α} {turns effects : Nat}

/-- The nest goes through the stages and tells nothing. -/
theorem nestIn_eq (h : step.Unwinds .none effects session stages result)
    (hturns : stages.length ≤ turns) : (Deferred.nestIn turns step).force session = result := by
  induction h generalizing turns with
  | done =>
    obtain ⟨turns, rfl⟩ := Nat.exists_eq_add_of_le' (Nat.one_le_of_lt hturns)
    rfl
  | stuck forced =>
    obtain ⟨turns, rfl⟩ := Nat.exists_eq_add_of_le' (Nat.one_le_of_lt hturns)
    rw [Deferred.force_nestIn_next, bind_of_error forced]
    rfl
  | lost forced resumed =>
    obtain ⟨turns, rfl⟩ := Nat.exists_eq_add_of_le' (Nat.one_le_of_lt hturns)
    rw [Deferred.force_nestIn_next, bind_of_ok forced, bind_of_error resumed]
    rfl
  | next forced resumed rest ih =>
    obtain ⟨turns, rfl⟩ := Nat.exists_eq_add_of_le' (Nat.one_le_of_lt hturns)
    rw [Deferred.force_nestIn_next, bind_of_ok forced, bind_of_ok resumed]
    exact ih (Nat.le_of_succ_le (Nat.le_of_succ_le_succ hturns))

/-- What comes after the loop: it is told that it is left, and the final computation is forced. -/
def afterLoop : EStateM.Result (Halt S) (Session K) (Deferred K α) →
    EStateM.Result (Halt S) (Session K) α
  | .ok deferred session => deferred.force (session.told (.leave .steps))
  | .error halt session => .error halt (session.told (.leave .steps))

/-- The loop goes through the stages before the last one. -/
theorem drive_eq (h : step.Unwinds .driver effects session stages result)
    (hturns : stages.length ≤ turns) :
    afterLoop (step.drive Deferred.force turns effects session) = result := by
  induction h generalizing turns with
  | done =>
    obtain ⟨turns, rfl⟩ := Nat.exists_eq_add_of_le' (Nat.one_le_of_lt hturns)
    rfl
  | stuck forced =>
    obtain ⟨turns, rfl⟩ := Nat.exists_eq_add_of_le' (Nat.one_le_of_lt hturns)
    rw [Step.drive, bind_of_error forced]
    rfl
  | lost forced resumed =>
    obtain ⟨turns, rfl⟩ := Nat.exists_eq_add_of_le' (Nat.one_le_of_lt hturns)
    rw [Step.drive, bind_of_ok forced, bind_of_error resumed]
    rfl
  | next forced resumed rest ih =>
    obtain ⟨turns, rfl⟩ := Nat.exists_eq_add_of_le' (Nat.one_le_of_lt hturns)
    rw [Step.drive, bind_of_ok forced, bind_of_ok resumed]
    exact ih (Nat.le_of_succ_le (Nat.le_of_succ_le_succ hturns))

/-- The driver goes through the stages within its span. -/
theorem ofStepsIn_eq (h : step.Unwinds .driver 0 (session.told (.enter .steps)) stages result)
    (hturns : stages.length ≤ turns) : (Deferred.ofStepsIn turns step).force session = result := by
  have hloop := h.drive_eq hturns
  rw [Deferred.ofStepsIn]
  cases hdrive : step.drive Deferred.force turns 0 (session.told (.enter .steps)) with
  | ok deferred last =>
    rw [hdrive] at hloop
    have hrun : step.runIn turns Deferred.force session = .ok deferred (last.told (.leave .steps)) := by
      rw [Step.runIn, Run.inside_eq, hdrive]
    exact (bind_of_ok hrun).trans hloop
  | error halt last =>
    rw [hdrive] at hloop
    have hrun : step.runIn turns Deferred.force session
        = .error halt (last.told (.leave .steps)) := by
      rw [Step.runIn, Run.inside_eq, hdrive]
    exact (bind_of_error hrun).trans hloop

/-- **Every chain unwinds, by the same stages whether the driver tells of it or not.** -/
theorem exists_of_oblivious (h : step.Oblivious) {session session' : Session K}
    (hsession : session.quiet = session'.quiet) (effects effects' : Nat) :
    ∃ stages result result', step.Unwinds .driver effects session stages result ∧
      step.Unwinds .none effects' session' stages result' ∧
      quietResult result = quietResult result' := by
  induction h generalizing session session' effects effects' with
  | @done deferred last =>
    exact ⟨_, _, _, .done, .done, last.alike.same hsession⟩
  | @next effect resume first alike rest ih =>
    have hforced := first.alike.same hsession
    cases forced' : effect.force session' with
    | error halt last' =>
      rw [forced'] at hforced
      obtain ⟨last, forced, hlast⟩ := eq_error_of_quietResult hforced
      exact ⟨_, _, _, .stuck forced, .stuck forced', congrArg (EStateM.Result.error halt) hlast⟩
    | ok answer middle' =>
      rw [forced'] at hforced
      obtain ⟨middle, forced, hmiddle⟩ := eq_ok_of_quietResult hforced
      have hresumed := (alike answer).same hmiddle
      cases resumed' : Step.answer resume answer middle' with
      | error halt last' =>
        rw [resumed'] at hresumed
        obtain ⟨last, resumed, hlast⟩ := eq_error_of_quietResult hresumed
        exact ⟨_, _, _, .lost forced resumed, .lost forced' resumed',
          congrArg (EStateM.Result.error halt) hlast⟩
      | ok step last' =>
        rw [resumed'] at hresumed
        obtain ⟨last, resumed, hlast⟩ := eq_ok_of_quietResult hresumed
        obtain ⟨stages, result, result', driven, nested, hresult⟩ :=
          ih answer resumed' hlast (effects + 1) (effects' + 1)
        exact ⟨_, _, _, .next forced resumed driven, .next forced' resumed' nested, hresult⟩

end Step.Unwinds

/-! ## 4. Programs -/

/-- A deferred effect chained with the deferred rest. -/
def Deferred.chain (effect : Deferred K (Packed S))
    (rest : Packed S → Run K (Deferred K α)) : Run K (Deferred K α) := return effect.bind rest

/-- The steps folded by chaining give the nest. -/
theorem Step.force_foldIn_chain (turns : Nat) (step : Step K (Deferred K (Packed S)) (Deferred K α)) :
    (do (← step.foldIn Deferred.chain turns).force) = (Deferred.nestIn turns step).force := by
  induction turns generalizing step with
  | zero => rfl
  | succ turns ih =>
    cases step with
    | done deferred => rfl
    | next effect resume =>
      rw [Deferred.force_nestIn_next, Step.foldIn, Deferred.chain, pure_bind, Deferred.bind]
      simp only [bind_assoc, ih]

theorem Step.foldIn_chain (turns : Nat) (step : Step K (Deferred K (Packed S)) (Deferred K α)) :
    step.foldIn Deferred.chain (turns + 1) = return Deferred.nestIn (turns + 1) step := by
  have hforce := step.force_foldIn_chain (turns + 1)
  cases step with
  | done deferred => rfl
  | next effect resume =>
    rw [Step.foldIn, Deferred.chain, pure_bind] at hforce
    exact congrArg (fun force => Pure.pure (Deferred.mk force)) hforce

namespace Program

variable (turns : Nat) (program : Program S type) (render : S.Effect → Run K (Deferred K (Packed S)))

/-- A program is deferred by way of its first step. -/
theorem deferIn_eq : program.deferIn turns render = Run.inside .drive
    (do return .ofStepsIn turns (← program.stepsIn turns (.deferring render))) := rfl

/-- A program folded by chaining gives the nest of its first step. -/
theorem foldIn_chain : program.foldIn turns (.deferring render) Deferred.chain
    = (do return .nestIn turns (← program.stepsIn turns (.deferring render))) := by
  have hfold := program.code.steps_fold (.deferring render : Rendering K type _ _) Deferred.chain 0 turns
  refine hfold.symm.trans ?_
  cases turns with
  | zero => rfl
  | succ turns => exact bind_congr fun step => step.foldIn_chain turns

end Program

/-- How a computation ended: the halt, if it halted, and the session that it left. -/
def Run.leaves : EStateM.Result (Halt S) (Session K) α → Option (Halt S) × Session K
  | .ok _ session => (none, session)
  | .error halt session => (some halt, session)

theorem Run.leaves_inside (span : Span) (work : Run K α) (session : Session K) :
    Run.leaves (Run.inside span work session) =
      ((Run.leaves (work (session.told (.enter span)))).1,
        (Run.leaves (work (session.told (.enter span)))).2.told (.leave span)) := by
  rw [Run.inside_eq]
  cases work (session.told (.enter span)) with
  | ok a last => rfl
  | error halt last => rfl

/-- Two computations end the same way on every session. -/
def Run.EndsLike (left : Run K α) (right : Run K β) : Prop :=
  ∀ session, Run.leaves (left session) = Run.leaves (right session)

namespace Run.EndsLike

theorem refl (work : Run K α) : EndsLike work work := fun _ => rfl

theorem symm {left : Run K α} {right : Run K β} (h : EndsLike left right) : EndsLike right left :=
  fun session => (h session).symm

theorem trans {left : Run K α} {middle : Run K β} {right : Run K γ} (h : EndsLike left middle)
    (h' : EndsLike middle right) : EndsLike left right :=
  fun session => (h session).trans (h' session)

theorem map (work : Run K α) (function : α → β) : EndsLike (do return function (← work)) work := by
  intro session
  cases h : work session with
  | ok a last => rw [bind_of_ok h]; rfl
  | error halt last => rw [bind_of_error h]; rfl

theorem bind (work : Run K α) {left : α → Run K β} {right : α → Run K γ}
    (h : ∀ a, EndsLike (left a) (right a)) : EndsLike (work >>= left) (work >>= right) := by
  intro session
  cases hwork : work session with
  | ok a last =>
    rw [bind_of_ok hwork, bind_of_ok hwork]
    exact h a last
  | error halt last => rw [bind_of_error hwork, bind_of_error hwork]; rfl

theorem inside (span : Span) {left : Run K α} {right : Run K β} (h : EndsLike left right) :
    EndsLike (Run.inside span left) (Run.inside span right) := by
  intro session
  rw [Run.leaves_inside, Run.leaves_inside, h]

end Run.EndsLike

/-- To come to the first step is the same whatever the thunks do. -/
theorem Program.stepsIn_endsLike (turns : Nat) (program : Program S type)
    (render : S.Effect → Run K (Deferred K (Packed S)))
    (change : Deferred K (Packed S) → Deferred K (Packed S)) :
    Run.EndsLike (program.stepsIn turns (.deferring fun effect => do return change (← render effect)))
      (program.stepsIn turns (.deferring render)) := by
  cases turns with
  | zero => exact .refl _
  | succ turns =>
    rw [stepsIn, stepsIn, Code.steps_eq, Code.steps_eq]
    refine .bind _ fun reached => ?_
    cases reached with
    | result value => exact .refl _
    | asking waiting =>
      simp only [Reached.steps, Rendering.deferring, bind_assoc, pure_bind]
      exact .bind _ fun effect => .refl _

/-- **The driver and the nest agree.**

Take any chain of steps over deferred effects with a deferred end, whose resumptions depend on the
answers in any way, and in which nothing depends on what was told before.  Either way to make one
deferred computation of it makes a value, with nothing run.  Forced, in any number of turns, the two
do the same to everything but the events that are told, and halt at the same place for the same
cause; so they do in any context of further maps and binds.  On any session both go through the same
stages: they force the same thunks in the same order, each once, call the same resumptions with the
same answers, and force the same computation in the end; as many turns as there are stages are
enough.

So a program that is deferred and a program that is folded by chaining come to computations that
agree in any context.  Making them is the same work whatever the thunks do, so it runs none. -/
theorem Deferred.ofStepsIn_agrees :
    (∀ {α : Type} (step : Step K (Deferred K (Packed S)) (Deferred K α)), step.Oblivious →
      (∀ turns, (ofStepsIn turns step).Agrees (nestIn turns step)) ∧
      ∀ session, ∃ stages result result',
        step.Unwinds .driver 0 (session.told (.enter .steps)) stages result ∧
        step.Unwinds .none 0 session stages result' ∧
        quietResult result = quietResult result' ∧
        ∀ turns, stages.length ≤ turns → (ofStepsIn turns step).force session = result ∧
          (nestIn turns step).force session = result') ∧
    ∀ {type : S.Ty} (turns : Nat) (program : Program S type)
      (render : S.Effect → Run K (Deferred K (Packed S))),
      (∀ change : Deferred K (Packed S) → Deferred K (Packed S),
        Run.EndsLike (program.deferIn turns fun effect => do return change (← render effect))
          (program.deferIn turns render) ∧
        Run.EndsLike
          (program.foldIn turns (.deferring fun effect => do return change (← render effect)) chain)
          (program.foldIn turns (.deferring render) chain)) ∧
      ((∀ effect, Run.Oblivious Deferred.Oblivious (render effect)) →
        Run.AlikeBy Agrees (program.deferIn turns render)
          (program.foldIn turns (.deferring render) chain)) := by
  refine ⟨fun step h => ⟨fun turns => Agrees.of_alike (ofStepsIn_alike h turns), fun session => ?_⟩,
    fun turns program render => ⟨fun change => ?_, fun h => ?_⟩⟩
  · obtain ⟨stages, result, result', driven, nested, hresult⟩ :=
      Step.Unwinds.exists_of_oblivious h
        (show (session.told (.enter .steps)).quiet = session.quiet from rfl) 0 0
    exact ⟨stages, result, result', driven, nested, hresult,
      fun turns hturns => ⟨driven.ofStepsIn_eq hturns, nested.nestIn_eq hturns⟩⟩
  · have hsteps := program.stepsIn_endsLike turns render change
    constructor
    · rw [Program.deferIn_eq, Program.deferIn_eq]
      exact .inside .drive ((Run.EndsLike.map _ _).trans (hsteps.trans (Run.EndsLike.map _ _).symm))
    · rw [Program.foldIn_chain, Program.foldIn_chain]
      exact (Run.EndsLike.map _ _).trans (hsteps.trans (Run.EndsLike.map _ _).symm)
  · rw [Program.deferIn_eq, Program.foldIn_chain]
    exact (program.stepsIn_oblivious turns h).alikeBy .drive
      fun step hstep => Agrees.of_alike (ofStepsIn_alike hstep turns)

namespace Jobs

/-- What is performed does not depend on what was told. -/
theorem perform_oblivious (effect : Effect) :
    (⟨perform effect⟩ : Deferred host (Packed signature)).Oblivious := by
  refine .of_alike (.of_parts fun _ _ _ _ _ _ => ?_)
  cases effect <;> rfl

/-- Writes how many jobs were done and yields it. -/
def writeCount (count : Nat) : Deferred host Nat :=
  ⟨do
    writeLine (jobsMessage count)
    return count⟩

/-- Asks how many jobs were done, and goes on to a message of as many. -/
def counting : Step host (Deferred host (Packed signature)) (Deferred host Nat) :=
  .next ⟨perform (.read Ty.count fun context => context.jobsDone.size)⟩ fun answer =>
    (do return .done (writeCount (← Run.except (answer.unpack Ty.count .answer))) : Run host _)

/-- Does a job, then counts. -/
def jobAndCount : Step host (Deferred host (Packed signature)) (Deferred host Nat) :=
  .next ⟨perform .job1⟩ fun _ => (return counting : Run host _)

theorem counting_oblivious : counting.Oblivious := by
  have hwrite (count : Nat) : (writeCount count).Oblivious :=
    .of_alike (.of_parts fun _ _ _ _ _ _ => rfl)
  refine .of_resume (perform_oblivious _) fun answer => ?_
  exact (oblivious.except (answer.unpack Ty.count .answer)).bind fun count _ =>
    .pure (.done (hwrite count))

theorem jobAndCount_oblivious : jobAndCount.Oblivious :=
  .of_resume (perform_oblivious _) fun _ => .pure counting_oblivious

end Jobs

/-- One job and a count of it, driven and nested; and the deferred job programs, in any context. -/
theorem jobAndCount_agrees :
    (∀ turns, (Deferred.ofStepsIn turns Jobs.jobAndCount).Agrees
      (Deferred.nestIn turns Jobs.jobAndCount)) ∧
    hostResult ((Deferred.ofStepsIn 5 Jobs.jobAndCount).force (Session.start Jobs.Workshop.start))
      = .ok 1 ⟨⟨#["job1"]⟩, #["[job1]", "[read]", "1 jobs is done, wow!"]⟩ ∧
    ∀ (turns : Nat) (program : Program Jobs.signature Jobs.Ty.count),
      Run.AlikeBy Deferred.Agrees
        (program.deferIn turns fun effect => return ⟨Jobs.perform effect⟩)
        (program.foldIn turns (.deferring fun effect => return ⟨Jobs.perform effect⟩)
          Deferred.chain) := by
  obtain ⟨hsteps, hprograms⟩ := Deferred.ofStepsIn_agrees (K := Jobs.host)
  obtain ⟨hagrees, hstages⟩ := hsteps Jobs.jobAndCount Jobs.jobAndCount_oblivious
  refine ⟨hagrees, rfl, fun turns program => ?_⟩
  exact (hprograms turns program _).2 fun effect => .pure (Jobs.perform_oblivious effect)

end FreePrograms
