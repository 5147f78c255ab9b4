/-
# Runs inside runs

A function that is handed in may itself carry out programs, drive steps and catch halts.  What it
tells is then that of the runs that it made, and it is orderly if each of these is: a run puts what
it tells between the bounds of its own span (`Program.tryRunIn_orderly` and the theorems after it).

So every interpreter is orderly whose functions are (`Interpreter.Orderly.carryOut`), and so is
everything that a client does, whose functions are clients again (`Client.perform_orderly`), however
deep runs are nested in each other, and also if they halt.
-/
import FreePrograms.Proofs.Clients.Client
import FreePrograms.Proofs.Events.Endings

namespace FreePrograms

variable {S : Signature} {K : Host S} {type : S.Ty} {σ α β E N M R Failure : Type}

/-! ## 1. Whole runs -/

theorem Run.ending_ends {span : Span} {tell : α → Event} (h : ∀ a, span.ends (tell a) = true)
    (result : EStateM.Result (Halt S) (Session K) α) :
    ∀ event ∈ Run.ending tell result, span.ends event = true := by
  cases result with
  | ok a last =>
    rintro event ⟨⟩
    exact h a
  | error halt last => simp [Run.ending]

/-- Of work in a span it is told that the span is entered and left, also if it halts. -/
theorem Run.Tells.inside_adds {manner : Manner} {good : α → Prop} {work : Run K α} (span : Span)
    (h : Run.Tells manner good work) (session : Session K) :
    ∃ told, manner.Fits told ∧ session.Adds (.enter span :: (told ++ [.leave span]))
      (Run.last (Run.inside span work session)) := by
  obtain ⟨told, hfits, hadds⟩ := h.adds (session.told (.enter span))
  rw [Run.last_inside]
  exact ⟨told, hfits, hadds.span⟩

/-- Work in a span is orderly if it is without. -/
theorem Run.Tells.inside {good : α → Prop} {work : Run K α} (span : Span)
    (h : Run.Tells .orderly good work) : Run.Tells .orderly good (Run.inside span work) where
  adds session := by
    obtain ⟨told, horderly, hadds⟩ := h.inside_adds span session
    have hspan : Orderly (.enter span :: (told ++ (none : Option Event).toList ++ [.leave span])) :=
      .span span horderly (by simp)
    rw [Option.toList_none, List.append_nil] at hspan
    exact ⟨_, hspan, hadds⟩
  value heq := by
    obtain ⟨middle, hwork⟩ := Run.exists_of_inside heq
    exact h.value hwork

/-- **Runs with a handler are orderly** if the handler is. -/
theorem Program.tryRunIn_orderly {handler : Handler K Failure}
    (hhandler : ∀ effect, Run.Tells .orderly Any (handler effect)) (turns : Nat)
    (program : Program S type) : Run.Tells .orderly Any (program.tryRunIn turns handler) where
  adds session := by
    have hcalls : Orderly ((program.calls turns handler session).flatMap (Call.told handler)) :=
      Manner.orderly.flatMap fun call _ => (hhandler call.effect).call.1
    refine ⟨_, .span .run hcalls ?_, program.handled_adds hhandler turns session⟩
    refine Run.ending_ends (fun result => ?_) _
    cases result <;> rfl
  value _ := trivial

/-- Runs with a handler that answers every effect. -/
theorem Program.runIn_orderly {handler : S.Effect → Run K (Packed S)}
    (hhandler : ∀ effect, Run.Tells .orderly Any (handler effect)) (turns : Nat)
    (program : Program S type) : Run.Tells .orderly Any (program.runIn turns handler) := by
  rw [Program.runIn_eq]
  refine (tryRunIn_orderly (fun effect => (hhandler effect).answering) turns program).bind
    fun result _ => ?_
  cases result with
  | ok value => exact .pure trivial
  | error failure => cases failure

/-! ## 2. Steps and folds -/

/-- To render tells in a manner, and the given holds of what is rendered. -/
structure Rendering.Tells (manner : Manner) (first : N → Prop) (last : M → Prop)
    (rendering : Rendering K type N M) : Prop where
  effect (effect : S.Effect) : Run.Tells manner first (rendering.effect effect)
  result (value : S.El type) : Run.Tells manner last (rendering.result value)

section Steps

variable {manner : Manner} {first : N → Prop} {last : M → Prop} {force : N → Run K (Packed S)}

/-- **Steps that are driven are orderly** if to force them is, and so is to go on with them. -/
theorem Step.runIn_orderly
    (hforce : ∀ effect, first effect → Run.Tells .orderly Any (force effect)) (turns : Nat)
    {times : Nat} {step : Step K N M} (h : (telling .orderly).Goes first last times step) :
    Run.Tells .orderly last (step.runIn turns force) where
  adds session := by
    have hdrives := Step.drives force turns 0 step (session.told (.enter .steps))
    have hcalls := (hdrives.tells hforce h).1
    have hinside : Orderly ((step.forced force turns (session.told (.enter .steps))).flatMap
        (Call.told (Step.turn force))) :=
      Manner.orderly.flatMap fun call hcall => (hcalls call hcall).1
    exact ⟨_, .span .steps hinside (Run.ending_ends (fun _ => rfl) _),
      Step.runIn_adds turns step session hcalls⟩
  value heq := by
    obtain ⟨middle, hdrive⟩ := Run.exists_of_inside heq
    exact ((Step.drives force turns 0 step _).tells hforce h).2 _ middle hdrive

/-- **To drive a fold tells no end of its own**: only that its span is entered and left, and between
that what is told by rendering and by the driver. -/
theorem Program.driveIn_adds {rendering : Rendering K type N M}
    {driver : Step K N M → Run K R} {turns : Nat} (renders : rendering.Tells manner first last)
    (hdriver : ∀ step, (telling manner).Goes first last turns step →
      Run.Tells manner Any (driver step)) (program : Program S type) (session : Session K) :
    ∃ told, manner.Fits told ∧ session.Adds (.enter .drive :: (told ++ [.leave .drive]))
      (Run.last (program.driveIn turns rendering driver session)) :=
  Run.Tells.inside_adds .drive
    (((telling manner).steps renders.effect renders.result turns program.code).bind hdriver) session

/-- To drive a fold is orderly if to render is, and so is the driver. -/
theorem Program.driveIn_orderly {good : R → Prop} {rendering : Rendering K type N M}
    {driver : Step K N M → Run K R} {turns : Nat} (renders : rendering.Tells .orderly first last)
    (hdriver : ∀ step, (telling .orderly).Goes first last turns step →
      Run.Tells .orderly good (driver step)) (program : Program S type) :
    Run.Tells .orderly good (program.driveIn turns rendering driver) :=
  .inside .drive
    (((telling .orderly).steps renders.effect renders.result turns program.code).bind hdriver)

/-- To make one deferred computation of steps tells no end: nothing is forced. -/
theorem Program.deferIn_adds {render : S.Effect → Run K (Deferred K (Packed S))}
    (hrender : ∀ effect, Run.Tells manner Any (render effect)) (turns : Nat)
    (program : Program S type) (session : Session K) :
    ∃ told, manner.Fits told ∧ session.Adds (.enter .drive :: (told ++ [.leave .drive]))
      (Run.last (program.deferIn turns render session)) := by
  have renders : Rendering.Tells manner Any Any
      (⟨render, fun value => return .now value⟩ : Rendering K type _ (Deferred K (S.El type))) :=
    ⟨hrender, fun _ => .pure trivial⟩
  exact program.driveIn_adds renders (fun _ _ => .pure trivial) session

/-- A rendering into deferred computations, with the result as one that is there already. -/
theorem Rendering.deferred_tells {render : S.Effect → Run K (Deferred K (Packed S))}
    (hrender : ∀ effect,
      Run.Tells manner (fun deferred => Run.Tells manner Any deferred.force) (render effect)) :
    Rendering.Tells manner (fun deferred => Run.Tells manner Any deferred.force)
      (fun deferred : Deferred K (S.El type) => Run.Tells manner Any deferred.force)
      ⟨render, fun value => return .now value⟩ :=
  ⟨hrender, fun _ => .pure (.pure trivial)⟩

/-- To make one deferred computation of steps is orderly, and so is to force it. -/
theorem Program.deferIn_orderly {render : S.Effect → Run K (Deferred K (Packed S))}
    (hrender : ∀ effect,
      Run.Tells .orderly (fun deferred => Run.Tells .orderly Any deferred.force) (render effect))
    (turns : Nat) (program : Program S type) :
    Run.Tells .orderly (fun deferred => Run.Tells .orderly Any deferred.force)
      (program.deferIn turns render) := by
  refine program.driveIn_orderly (Rendering.deferred_tells hrender) fun step hstep => ?_
  have hforced := Step.runIn_orderly (fun _ h => h) turns hstep
  exact .pure (hforced.bind fun _ h => h)

end Steps

/-! ## 3. Every interpreter -/

/-- What the interpreter is handed is orderly. -/
inductive Interpreter.Orderly (turns : Nat) :
    {R : Type} → Interpreter K type R → Prop
  | tryRun {Failure : Type} {handler : Handler K Failure}
    (hhandler : ∀ effect, Run.Tells .orderly Any (handler effect)) :
    Interpreter.Orderly turns (.tryRun handler)
  | run {handler : S.Effect → Run K (Packed S)}
    (hhandler : ∀ effect, Run.Tells .orderly Any (handler effect)) :
    Interpreter.Orderly turns (.run handler)
  | fold {N M : Type} {first : N → Prop} {last : M → Prop} {rendering : Rendering K type N M}
    {combine : N → (Packed S → Run K M) → Run K M}
    (renders : rendering.Tells .orderly first last)
    (hcombine : ∀ effect rest, first effect → (∀ answer, Run.Tells .orderly last (rest answer)) →
      Run.Tells .orderly last (combine effect rest)) :
    Interpreter.Orderly turns (.fold rendering combine)
  | steps {N M : Type} {first : N → Prop} {last : M → Prop} {rendering : Rendering K type N M}
    {force : N → Run K (Packed S)}
    (renders : rendering.Tells .orderly first last)
    (hforce : ∀ effect, first effect → Run.Tells .orderly Any (force effect)) :
    Interpreter.Orderly turns (.steps rendering force)
  | drive {N M R : Type} {first : N → Prop} {last : M → Prop} {rendering : Rendering K type N M}
    {driver : Step K N M → Run K R}
    (renders : rendering.Tells .orderly first last)
    (hdriver : ∀ step, (telling .orderly).Goes first last turns step →
      Run.Tells .orderly Any (driver step)) :
    Interpreter.Orderly turns (.drive rendering driver)
  | defer {render : S.Effect → Run K (Deferred K (Packed S))}
    (hrender : ∀ effect,
      Run.Tells .orderly (fun deferred => Run.Tells .orderly Any deferred.force) (render effect)) :
    Interpreter.Orderly turns (.defer render)

/-- **Every interpreter is orderly** if what it is handed is. -/
theorem Interpreter.Orderly.carryOut {turns : Nat} {interpreter : Interpreter K type R}
    (h : interpreter.Orderly turns) (program : Program S type) :
    Run.Tells .orderly Any (interpreter.carryOut turns program) := by
  cases h with
  | tryRun hhandler => exact program.tryRunIn_orderly hhandler turns
  | run hhandler => exact program.runIn_orderly hhandler turns
  | fold renders hcombine =>
    exact ((telling .orderly).fold renders.effect renders.result (hcombine _ _) turns
      program.code).mono fun _ _ => trivial
  | steps renders hforce =>
    have hsteps := (telling .orderly).steps renders.effect renders.result turns program.code
    refine hsteps.bind fun step hstep => ?_
    exact (Step.runIn_orderly hforce turns hstep).mono fun _ _ => trivial
  | drive renders hdriver => exact program.driveIn_orderly renders hdriver
  | defer hrender => exact (program.deferIn_orderly hrender turns).bind fun _ h => h

/-! ## 4. Clients -/

section Clients

variable {kept : List ((type : S.Ty) × Program S type)}

namespace Run.Tells

variable {manner : Manner}

theorem host : Run.Tells manner Any (Run.host : Run K K.State) := .of_events_eq fun _ => rfl

theorem onHost (change : K.State → K.State) : Run.Tells manner Any (Run.onHost change) :=
  .of_events_eq fun _ => rfl

/-- Work of which any value will do, and what comes after it. -/
theorem andThen {work : Run K α} {next : α → Run K β} (h : Run.Tells manner Any work)
    (hnext : ∀ a, Run.Tells manner Any (next a)) : Run.Tells manner Any (work >>= next) :=
  h.bind fun a _ => hnext a

end Run.Tells

namespace Setting

variable {manner : Manner}

theorem note_tells {good : α → Prop} (effect : S.Effect) {work : Run (Host.together σ kept) α}
    (h : Run.Tells manner good work) : Run.Tells manner good (do noteEffect effect; work) :=
  (Run.Tells.onHost _).bind fun _ _ => h

/-- A rendering that notes the effect first. -/
theorem noted_tells {render : S.Effect → Run (Host.together σ kept) N}
    {finish : S.El type → Run (Host.together σ kept) M}
    (hrender : ∀ effect, Run.Tells manner Any (render effect))
    (hfinish : ∀ value, Run.Tells manner Any (finish value)) :
    Rendering.Tells manner Any Any ⟨fun effect => do noteEffect effect; render effect, finish⟩ :=
  ⟨fun effect => note_tells effect (hrender effect), hfinish⟩

/-- A rendering into deferred computations that notes the effect first. -/
theorem defers_tells (effect : S.Effect) {render : Run (Host.together σ kept) N}
    {force : N → Run (Host.together σ kept) (Packed S)} (hrender : Run.Tells manner Any render)
    (hforce : ∀ rendered, Run.Tells manner Any (force rendered)) :
    Run.Tells manner (fun deferred : Deferred _ (Packed S) => Run.Tells manner Any deferred.force)
      (do
        noteEffect effect
        let rendered ← render
        return ⟨force rendered⟩) :=
  note_tells effect (hrender.bind fun rendered _ => .pure (hforce rendered))

theorem program_tells (place : Nat) :
    Run.Tells manner Any (program place : Run (Host.together σ kept) _) := by
  refine Run.Tells.host.andThen fun world => ?_
  cases world.programs.item place with
  | none => exact .throw _
  | some found => exact .pure trivial

theorem takeStep_tells (place : Nat) :
    Run.Tells manner Any (takeStep place : Run (Host.together σ kept) _) := by
  refine Run.Tells.host.andThen fun world => ?_
  cases world.steps.item place with
  | none => exact .throw _
  | some found => exact (Run.Tells.onHost _).andThen fun _ => .pure trivial

theorem make_tells (turns : Nat) {a : S.Ty} (recipe : Recipe S a) :
    Run.Tells manner Any ((together σ kept turns).make recipe) := by
  refine Run.Tells.host.andThen fun world => ?_
  refine ((telling manner).building _).andThen fun program => ?_
  exact Run.Tells.host.andThen fun world => (Run.Tells.onHost _).andThen fun _ => .pure trivial

theorem start_tells (turns place : Nat) :
    Run.Tells manner Any ((together σ kept turns).start place) := by
  refine (program_tells place).andThen fun ⟨type, program⟩ => ?_
  refine ((telling manner).reach turns program.code).andThen fun reached => ?_
  refine Run.Tells.andThen (.of_events_eq fun _ => rfl) fun step => ?_
  exact .pure trivial

theorem resume_tells (turns place : Nat) (answer : Packed S) :
    Run.Tells manner Any ((together σ kept turns).resume place answer) := by
  refine (takeStep_tells place).andThen fun ⟨type, reached⟩ => ?_
  refine Run.Tells.andThen ?_ fun reached => (Run.Tells.onHost _).andThen fun _ => .pure trivial
  cases reached with
  | result value => exact .throw _
  | asking waiting =>
    exact ((telling manner).answer waiting answer).andThen fun code =>
      (telling manner).reach turns code

/-- Steps that are on the shelf are orderly when they are driven. -/
theorem drive_orderly (turns place : Nat) {force : S.Effect → Run (Host.together σ kept) (Packed S)}
    (hforce : ∀ effect, Run.Tells .orderly Any (force effect)) :
    Run.Tells .orderly Any ((together σ kept turns).drive place force) := by
  refine (takeStep_tells place).andThen fun ⟨type, reached⟩ => ?_
  have heffect : ∀ effect : S.Effect, Run.Tells .orderly Any
      (Pure.pure effect : Run (Host.together σ kept) S.Effect) := fun _ => .pure trivial
  have hresult : ∀ value : S.El type, Run.Tells .orderly Any
      (Pure.pure value : Run (Host.together σ kept) (S.El type)) := fun _ => .pure trivial
  refine ((telling .orderly).stepsOn heffect hresult
    (fun code => (telling .orderly).steps heffect hresult turns code) reached).bind
      fun step hstep => ?_
  exact (Step.runIn_orderly (fun effect _ => hforce effect) turns hstep).andThen
    fun _ => .pure trivial

end Setting

open Setting

mutual

/-- **Whatever a client does is orderly**, on one session with all other runs. -/
theorem Client.perform_orderly (turns : Nat) : {α : Type} → (client : Client S σ α) →
    Run.Tells .orderly Any (client.perform (together σ kept turns) turns)
  | _, .yield value => .pure trivial
  | _, .halt halt => .throw halt
  | _, .access change next =>
    Run.Tells.andThen (.of_events_eq fun _ => rfl) fun state => (next state).perform_orderly turns
  | _, .make recipe next =>
    (make_tells turns recipe).attempt.andThen fun place => (next place).perform_orderly turns
  | _, .drop place next =>
    Run.Tells.andThen (.of_events_eq fun _ => rfl) fun _ => next.perform_orderly turns
  | _, .carryOut place course next => by
    have hcourse : Run.Tells .orderly Any ((together σ kept turns).carryOut place
        fun _ program => course.perform (together σ kept turns) turns program) :=
      (program_tells place).andThen fun ⟨type, program⟩ => course.perform_orderly turns program
    exact hcourse.attempt.andThen fun outcome => (next outcome).perform_orderly turns
  | _, .start place next =>
    (start_tells turns place).attempt.andThen fun step => (next step).perform_orderly turns
  | _, .resume place answer next =>
    (resume_tells turns place answer).attempt.andThen fun sight =>
      (next sight).perform_orderly turns
  | _, .drive place force next => by
    refine Run.Tells.andThen (.attempt (drive_orderly turns place fun effect => ?_)) fun outcome =>
      (next outcome).perform_orderly turns
    exact note_tells effect ((force effect).perform_orderly turns)
  | _, .abandon place next =>
    Run.Tells.andThen (.of_events_eq fun _ => rfl) fun _ => next.perform_orderly turns

/-- So is the way in which it carries out a program. -/
theorem Course.perform_orderly (turns : Nat) {type : S.Ty} : {R : Type} → (course : Course S σ R) →
    (program : Program S type) →
      Run.Tells .orderly Any (course.perform (together σ kept turns) turns program)
  | _, .tryRun handler, program => by
    refine Run.Tells.andThen (program.tryRunIn_orderly (fun effect => ?_) turns)
      fun _ => .pure trivial
    exact note_tells effect ((handler effect).perform_orderly turns)
  | _, .run handler, program => by
    refine Run.Tells.andThen (program.runIn_orderly (fun effect => ?_) turns)
      fun _ => .pure trivial
    exact note_tells effect ((handler effect).perform_orderly turns)
  | _, .fold render finish choose combine, program => by
    rw [Course.perform]
    have renders := noted_tells (fun effect => (render effect).perform_orderly turns)
      fun value : S.El type => (finish ⟨type, value⟩).perform_orderly turns
    refine Interpreter.Orderly.carryOut (.fold renders fun effect rest _ hrest => ?_) program
    refine ((choose effect).perform_orderly turns).andThen fun choice => ?_
    cases choice with
    | error value => exact .pure trivial
    | ok answer =>
      exact (hrest answer).andThen fun value => (combine effect value).perform_orderly turns
  | _, .steps render finish force, program => by
    rw [Course.perform]
    have renders := noted_tells (fun effect => (render effect).perform_orderly turns)
      fun value : S.El type => (finish ⟨type, value⟩).perform_orderly turns
    exact Interpreter.Orderly.carryOut
      (.steps renders fun effect _ => (force effect).perform_orderly turns) program
  | _, .drive render finish force, program => by
    rw [Course.perform]
    have renders := noted_tells (fun effect => (render effect).perform_orderly turns)
      fun value : S.El type => (finish ⟨type, value⟩).perform_orderly turns
    refine Interpreter.Orderly.carryOut (.drive renders fun step hstep => ?_) program
    exact Step.runIn_orderly (fun effect _ => (force effect).perform_orderly turns) turns hstep
  | _, .chain render force, program => by
    rw [Course.perform]
    have renders : Rendering.Tells .orderly _
        (fun deferred : Deferred _ (S.El type) => Run.Tells .orderly Any deferred.force) _ :=
      Rendering.deferred_tells fun effect => defers_tells effect
        ((render effect).perform_orderly turns) fun rendered =>
          (force rendered).perform_orderly turns
    refine Run.Tells.bind ((telling .orderly).fold renders.effect renders.result
      (fun heffect hrest => ?_) turns program.code) fun deferred hdeferred => ?_
    · exact .pure (heffect.andThen fun answer => (hrest answer).bind fun _ h => h)
    · exact hdeferred.andThen fun _ => .pure trivial
  | _, .defer render force, program =>
    (Interpreter.Orderly.carryOut (.defer fun effect => defers_tells effect
      ((render effect).perform_orderly turns) fun rendered =>
        (force rendered).perform_orderly turns) program).andThen fun _ => .pure trivial

end

end Clients

end FreePrograms
