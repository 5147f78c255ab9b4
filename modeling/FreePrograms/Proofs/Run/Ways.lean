/-
# All ways to run a program

A program can be run with a handler, folded with a combination that goes on at once, folded into
something deferred that is forced, or folded into steps that are driven, some of them by hand
(`Way`).  These are loops of their own, which stop at different moments and hold different things
while an effect waits for its answer.  All of them do what one loop does, which goes from effect to
effect and answers each by the handler (`Code.complete`); they differ in the events that they tell.

So whatever the host can see is the same in every way (`Program.ways_agree`): the result or the halt,
the state of the host, the effects that were handled and the functions that were applied.
-/
import FreePrograms.Run.Fold
import FreePrograms.Proofs.Run.Alike

namespace FreePrograms

variable {S : Signature} {K : Host S} {type : S.Ty} {Failure N M : Type}

open Run (Alike)

/-! ## 1. The ways -/

/-- How steps hold effects that are not handled yet, and the result: an effect that is forced is
handled, and the result is got back as it was. -/
structure Capture (handler : S.Effect → Run K (Packed S)) (type : S.Ty) where
  N : Type
  M : Type
  effect : S.Effect → N
  result : S.El type → M
  force : N → Run K (Packed S)
  value : M → Run K (S.El type)
  force_effect (e : S.Effect) : force (effect e) = handler e
  value_result (v : S.El type) : value (result v) = pure v

namespace Capture

variable (handler : S.Effect → Run K (Packed S)) (type : S.Ty)

/-- Effects and the result are held as they are. -/
def plain : Capture handler type where
  N := S.Effect
  M := S.El type
  effect e := e
  result v := v
  force := handler
  value v := pure v
  force_effect _ := rfl
  value_result _ := rfl

/-- Effects are held as computations that handle them, and the result as one that has it. -/
def deferred : Capture handler type where
  N := Deferred K (Packed S)
  M := Deferred K (S.El type)
  effect e := ⟨handler e⟩
  result v := .now v
  force := Deferred.force
  value := Deferred.force
  force_effect _ := rfl
  value_result _ := rfl

variable {handler type}

/-- The rendering that only holds what is rendered. -/
def rendering (capture : Capture handler type) : Rendering K type capture.N capture.M :=
  ⟨fun e => return capture.effect e, fun v => return capture.result v⟩

end Capture

/-- Goes so many steps by hand: forces the effect of each and goes on with the answer. -/
def Step.byHand (force : N → Run K (Packed S)) : Nat → Step K N M → Run K (Step K N M)
  | 0, step => return step
  | _ + 1, .done value => return .done value
  | count + 1, .next effect resume => do
    let value ← force effect
    let step ← Step.answer resume value
    step.byHand force count

/-- The ways to run a program with a handler that answers every effect. -/
inductive Way (handler : S.Effect → Run K (Packed S)) (type : S.Ty) where
  /-- The run with the handler. -/
  | run
  /-- The fold that handles each effect and goes on at once. -/
  | foldEagerly
  /-- The fold into something deferred that chains each effect, which is then forced. -/
  | foldDeferred
  /-- The fold into steps, which are driven. -/
  | steps (capture : Capture handler type)
  /-- The fold into steps, of which so many are gone by hand and the others driven. -/
  | stepsByHand (count : Nat) (capture : Capture handler type)
  /-- The fold into steps that hands the first one to a driver. -/
  | drive (capture : Capture handler type)
  /-- The fold into one deferred computation, which is then forced. -/
  | defer

/-- Runs the program in the given way, in at most so many turns. -/
def Program.runBy {handler : S.Effect → Run K (Packed S)} (turns : Nat) (program : Program S type) :
    Way handler type → Run K (S.El type)
  | .run => program.runIn turns handler
  | .foldEagerly =>
    program.foldIn turns ⟨handler, fun value => return value⟩ fun answer rest => rest answer
  | .foldDeferred => do
    let render (effect : S.Effect) : Run K (Deferred K (Packed S)) := return ⟨handler effect⟩
    let deferred ← program.foldIn turns ⟨render, fun value => return .now value⟩
      fun effect rest => return effect.bind rest
    deferred.force
  | .steps capture => do
    let step ← program.stepsIn turns capture.rendering
    capture.value (← step.runIn turns capture.force)
  | .stepsByHand count capture => do
    let step ← program.stepsIn turns capture.rendering
    let step ← step.byHand capture.force count
    capture.value (← step.runIn turns capture.force)
  | .drive capture => do
    let value ← program.driveIn turns capture.rendering fun step => step.runIn turns capture.force
    capture.value value
  | .defer => do
    let render (effect : S.Effect) : Run K (Deferred K (Packed S)) := return ⟨handler effect⟩
    (← program.deferIn turns render).force

/-! ## 2. The one loop -/

/-- How far a program came by itself: to its result, or to an effect. -/
inductive Reached (S : Signature) (type : S.Ty) where
  | result (value : S.El type)
  | asking (waiting : Waiting S)

/-- Applies frames up to the next effect or the result, in at most so many turns. -/
def Code.reach (type : S.Ty) (turns : Nat) (code : Code S) : Run K (Reached S type) := do
  match ← code.advance turns with
  | .finished value => return .result (← value.unpack type .result)
  | .waiting waiting => return .asking waiting

/-- Runs a program to its end: from effect to effect, each answered by the handler. -/
def Code.complete (handler : S.Effect → Run K (Packed S)) (type : S.Ty) :
    Nat → Code S → Run K (S.El type)
  | 0, _ => throw .exhausted
  | turns + 1, code => do
    match ← code.reach type turns with
    | .result value => return value
    | .asking waiting =>
      let answer ← handler waiting.effect
      let code ← waiting.answer answer
      code.complete handler type turns

/-- Goes on from there to the end. -/
def Reached.complete (handler : S.Effect → Run K (Packed S)) (turns : Nat) :
    Reached S type → Run K (S.El type)
  | .result value => return value
  | .asking waiting => do
    let answer ← handler waiting.effect
    let code ← waiting.answer answer
    code.complete handler type turns

theorem Code.complete_succ (handler : S.Effect → Run K (Packed S)) (turns : Nat) (code : Code S) :
    code.complete handler type (turns + 1)
      = code.reach type turns >>= Reached.complete handler turns := by
  rw [Code.complete]
  refine bind_congr ?_
  intro reached
  cases reached with
  | result value => rfl
  | asking waiting => rfl

theorem Code.reach_alike (turns : Nat) (code : Code S) :
    Alike (code.reach type turns : Run K _) (code.reach type turns) := by
  refine (code.advance_alike turns).bind ?_
  intro stop
  cases stop with
  | finished value => exact (Alike.except _).bind fun _ => .pure _
  | waiting waiting => exact .pure _

variable {handler : S.Effect → Run K (Packed S)}

/-- One effect of a program: if what goes on is alike from there, it is alike from here. -/
theorem serve_alike {α : Type} (quiet : ∀ effect, Alike (handler effect) (handler effect))
    (waiting : Waiting S) {next next' : Code S → Run K α}
    (h : ∀ code, Alike (next code) (next' code)) :
    Alike (do next (← waiting.answer (← handler waiting.effect)))
      (do next' (← waiting.answer (← handler waiting.effect))) :=
  (quiet waiting.effect).bind fun answer => (waiting.answer_alike answer).bind h

/-! ## 3. Each way does what the loop does -/

theorem Code.handle_alike (quiet : ∀ effect, Alike (handler effect) (handler effect)) (turns : Nat)
    (effects : Nat) (code : Code S) :
    Alike (code.handle (answering handler : Handler K Failure) turns effects >>=
        Program.unpacked type)
      (do return .ok (← code.complete handler type turns)) := by
  induction turns generalizing effects code with
  | zero => exact .throw .exhausted
  | succ turns ih =>
    rw [Code.handle_succ, Code.complete, Code.reach]
    simp only [bind_assoc]
    refine (code.advance_alike turns).bind ?_
    intro stop
    cases stop with
    | finished value =>
      simp only [Code.serve, Program.unpacked, bind_assoc, pure_bind]
      exact .tell _ ((Alike.except _).bind fun _ => .pure _)
    | waiting waiting =>
      simp only [Code.serve, answering, bind_assoc, pure_bind]
      exact serve_alike quiet waiting (ih (effects + 1))

theorem Program.tryRunIn_alike (quiet : ∀ effect, Alike (handler effect) (handler effect))
    (turns : Nat) (program : Program S type) :
    Alike (program.tryRunIn turns (answering handler : Handler K Failure))
      (do return .ok (← program.code.complete handler type turns)) := by
  rw [Program.tryRunIn_eq]
  exact .inside .run (Code.handle_alike quiet turns 0 program.code)

theorem Program.runIn_alike (quiet : ∀ effect, Alike (handler effect) (handler effect))
    (turns : Nat) (program : Program S type) :
    Alike (program.runIn turns handler) (program.code.complete handler type turns) := by
  have hcomplete : program.code.complete handler type turns
      = (do return .ok (← program.code.complete handler type turns)) >>= accepted := by
    simp only [bind_assoc, pure_bind, accepted, bind_pure]
  rw [runIn_eq, hcomplete]
  refine (tryRunIn_alike quiet turns program).bind ?_
  intro result
  cases result with
  | ok value => exact .pure value
  | error failure => cases failure

/-- **A fold that handles each effect and goes on at once.** -/
theorem Code.foldEagerly_alike (quiet : ∀ effect, Alike (handler effect) (handler effect))
    (turns : Nat) (code : Code S) :
    Alike (code.fold ⟨handler, fun value : S.El type => return value⟩
        (fun answer rest => rest answer) turns)
      (code.complete handler type turns) := by
  induction turns generalizing code with
  | zero => exact .throw .exhausted
  | succ turns ih =>
    rw [Code.fold, Code.complete, Code.reach]
    simp only [bind_assoc]
    refine (code.advance_alike turns).bind ?_
    intro stop
    cases stop with
    | finished value =>
      simp only [bind_assoc, pure_bind]
      exact (Alike.except _).bind fun _ => .pure _
    | waiting waiting => exact serve_alike quiet waiting ih

/-- **A fold into something deferred**, forced at the end. -/
theorem Code.foldDeferred_alike (quiet : ∀ effect, Alike (handler effect) (handler effect))
    (turns : Nat) (code : Code S) :
    Alike (do
        let deferred ← code.fold
          ⟨fun effect => return (⟨handler effect⟩ : Deferred K (Packed S)),
            fun value : S.El type => return .now value⟩
          (fun effect rest => return effect.bind rest) turns
        deferred.force)
      (code.complete handler type turns) := by
  induction turns generalizing code with
  | zero => exact .throw .exhausted
  | succ turns ih =>
    rw [Code.fold, Code.complete, Code.reach]
    simp only [bind_assoc]
    refine (code.advance_alike turns).bind ?_
    intro stop
    cases stop with
    | finished value =>
      simp only [bind_assoc, pure_bind]
      exact (Alike.except _).bind fun _ => .pure _
    | waiting waiting =>
      simp only [pure_bind, Deferred.bind, bind_assoc]
      exact serve_alike quiet waiting ih

/-- The first step of a code that came so far, over the steps that follow in so many turns. -/
def Reached.step (capture : Capture handler type) (turns : Nat) :
    Reached S type → Step K capture.N capture.M
  | .result value => .done (capture.result value)
  | .asking waiting => .next (capture.effect waiting.effect) fun answer =>
    (do (← waiting.answer answer).steps capture.rendering turns : Run K _)

theorem Code.steps_succ (capture : Capture handler type) (turns : Nat) (code : Code S) :
    code.steps capture.rendering (turns + 1)
      = (do return (← code.reach type turns).step capture turns) := by
  rw [Code.steps, Code.reach, bind_assoc]
  refine bind_congr ?_
  intro stop
  cases stop with
  | finished value => simp only [Capture.rendering, Reached.step, bind_assoc, pure_bind]
  | waiting waiting => simp only [Capture.rendering, Reached.step, pure_bind]

/-- Nothing is left to be gone by hand. -/
theorem Step.byHand_done (force : N → Run K (Packed S)) (count : Nat) (value : M) :
    (Step.done value : Step K N M).byHand force count = pure (.done value) := by
  cases count with
  | zero => rfl
  | succ count => rfl

/-- The driving of some steps may stand inside a span: that makes no difference. -/
structure Surrounds (surround : Run K M → Run K M) : Prop where
  alike {left right : Run K M} : Alike left right → Alike (surround left) right

/-- So many steps gone by hand and the others driven, with something around the driving. -/
def Step.finish (capture : Capture handler type) (surround : Run K capture.M → Run K capture.M)
    (count budget effects : Nat) (step : Step K capture.N capture.M) : Run K capture.M := do
  let step ← step.byHand capture.force count
  surround (step.drive capture.force budget effects)

/-- One step by hand. -/
theorem Step.finish_succ (capture : Capture handler type)
    (surround : Run K capture.M → Run K capture.M) (count budget effects : Nat) (effect : S.Effect)
    (resume : Packed S → Run K (Step K capture.N capture.M)) :
    (Step.next (capture.effect effect) resume).finish capture surround (count + 1) budget effects
      = (do
        let step ← resume (← handler effect)
        step.finish capture surround count budget effects) := by
  have hbyHand : (Step.next (capture.effect effect) resume).byHand capture.force (count + 1) = (do
      let value ← capture.force (capture.effect effect)
      let step ← resume value
      step.byHand capture.force count) := rfl
  rw [Step.finish, hbyHand, capture.force_effect]
  simp only [bind_assoc]
  rfl

/-- One step that is driven. -/
theorem Step.finish_zero (capture : Capture handler type)
    (surround : Run K capture.M → Run K capture.M) (budget effects : Nat) (effect : S.Effect)
    (resume : Packed S → Run K (Step K capture.N capture.M)) :
    (Step.next (capture.effect effect) resume).finish capture surround 0 (budget + 1) effects
      = surround (do
        let step ← resume (← handler effect)
        step.finish capture id 0 budget (effects + 1)) := by
  rw [← capture.force_effect effect]
  rfl

/-- The steps of every code, in so many turns, come to what the loop comes to. -/
def StepsAlike (capture : Capture handler type) (turns : Nat) : Prop :=
  ∀ {surround : Run K capture.M → Run K capture.M}, Surrounds surround →
    ∀ (count effects : Nat) {budget : Nat} (code : Code S), turns ≤ budget →
      Alike (code.steps capture.rendering turns >>= Step.finish capture surround count budget effects)
        (do return capture.result (← code.complete handler type turns))

/-- If later steps do what the loop does, so does a first step before them. -/
theorem Reached.finish_alike (quiet : ∀ effect, Alike (handler effect) (handler effect))
    {capture : Capture handler type} {turns : Nat} (h : StepsAlike capture turns)
    {surround : Run K capture.M → Run K capture.M} (hsurround : Surrounds surround)
    (count effects : Nat) {budget : Nat} (hbudget : turns ≤ budget) (reached : Reached S type) :
    Alike ((reached.step capture turns).finish capture surround count (budget + 1) effects)
      (do return capture.result (← reached.complete handler turns)) := by
  cases reached with
  | result value =>
    simp only [Reached.step, Step.finish, Step.byHand_done, pure_bind, Reached.complete]
    exact hsurround.alike (.tell _ (.pure _))
  | asking waiting =>
    simp only [Reached.complete, bind_assoc]
    cases count with
    | zero =>
      rw [Reached.step, Step.finish_zero]
      refine hsurround.alike ?_
      simp only [bind_assoc]
      exact serve_alike quiet waiting fun code => h ⟨fun h => h⟩ 0 (effects + 1) code hbudget
    | succ count =>
      rw [Reached.step, Step.finish_succ]
      simp only [bind_assoc]
      exact serve_alike quiet waiting fun code =>
        h hsurround count effects code (Nat.le_succ_of_le hbudget)

/-- **Steps that are driven**, so many of them by hand, whatever surrounds the driving of the
others. -/
theorem Code.steps_alike (quiet : ∀ effect, Alike (handler effect) (handler effect))
    (capture : Capture handler type) (turns : Nat) : StepsAlike capture turns := by
  induction turns with
  | zero =>
    intro surround _ count effects budget code _
    exact .throw .exhausted
  | succ turns ih =>
    intro surround hsurround count effects budget code hbudget
    obtain ⟨budget, rfl⟩ : ∃ n, budget = n + 1 := ⟨budget - 1, by omega⟩
    rw [Code.steps_succ, Code.complete_succ]
    simp only [bind_assoc, pure_bind]
    refine (code.reach_alike turns).bind ?_
    intro reached
    exact Reached.finish_alike quiet ih hsurround count effects (by omega) reached

/-- The result is got back as it was. -/
theorem Capture.value_alike (capture : Capture handler type) {work : Run K capture.M}
    {first : Run K (S.El type)} (h : Alike work (do return capture.result (← first))) :
    Alike (work >>= capture.value) first := by
  have hvalue : Alike (work >>= capture.value) (first >>= pure) := by
    refine h.bind_map ?_
    intro value
    rw [capture.value_result]
    exact .pure value
  rw [bind_pure] at hvalue
  exact hvalue

theorem surrounds_inside (span : Span) : Surrounds (Run.inside span : Run K M → Run K M) :=
  ⟨fun h => h.inside span⟩

/-- **One deferred computation**, forced at the end. -/
theorem Program.defer_alike (quiet : ∀ effect, Alike (handler effect) (handler effect))
    (turns : Nat) (program : Program S type) :
    Alike (do (← program.deferIn turns fun effect =>
        return (⟨handler effect⟩ : Deferred K (Packed S))).force)
      (program.code.complete handler type turns) := by
  let capture := Capture.deferred handler type
  cases turns with
  | zero =>
    have hdrive : Alike (program.deferIn 0 fun effect =>
        return (⟨handler effect⟩ : Deferred K (Packed S)))
        (do return Deferred.now (← (throw .exhausted : Run K (S.El type)))) :=
      .inside .drive (.throw .exhausted)
    exact hdrive.bind_map fun value => .pure value
  | succ turns =>
    let later (reached : Reached S type) : Deferred K (S.El type) :=
      .ofStepsIn (turns + 1) (reached.step capture turns)
    have hsteps : Alike (do
        let step ← program.code.steps capture.rendering (turns + 1)
        return (.ofStepsIn (turns + 1) step : Deferred K (S.El type)))
        (do return later (← program.code.reach type turns)) := by
      rw [Code.steps_succ]
      simp only [bind_assoc, pure_bind]
      exact (program.code.reach_alike turns).bind fun reached => .pure (later reached)
    have hdrive : Alike (program.deferIn (turns + 1) fun effect =>
        return (⟨handler effect⟩ : Deferred K (Packed S)))
        (do return later (← program.code.reach type turns)) := hsteps.inside .drive
    rw [Code.complete_succ]
    refine hdrive.bind_map ?_
    intro reached
    have hfinish := Reached.finish_alike quiet (Code.steps_alike quiet capture turns)
      (surrounds_inside .steps) 0 0 (Nat.le_refl turns) reached
    exact capture.value_alike hfinish

/-- **Every way does what the loop does.** -/
theorem Program.runBy_alike (quiet : ∀ effect, Alike (handler effect) (handler effect))
    (turns : Nat) (program : Program S type) (way : Way handler type) :
    Alike (program.runBy turns way) (program.code.complete handler type turns) := by
  cases way with
  | run => exact program.runIn_alike quiet turns
  | foldEagerly => exact program.code.foldEagerly_alike quiet turns
  | foldDeferred => exact program.code.foldDeferred_alike quiet turns
  | steps capture =>
    have hsteps := Code.steps_alike quiet capture turns (surrounds_inside .steps) 0 0 program.code
      (Nat.le_refl turns)
    have hvalue := capture.value_alike hsteps
    rw [bind_assoc] at hvalue
    exact hvalue
  | stepsByHand count capture =>
    have hsteps := Code.steps_alike quiet capture turns (surrounds_inside .steps) count 0
      program.code (Nat.le_refl turns)
    have hvalue := capture.value_alike hsteps
    simp only [Step.finish, bind_assoc] at hvalue
    exact hvalue
  | drive capture =>
    have hsteps := Code.steps_alike quiet capture turns (surrounds_inside .steps) 0 0 program.code
      (Nat.le_refl turns)
    exact capture.value_alike (hsteps.inside .drive)
  | defer => exact program.defer_alike quiet turns

/-! ## 4. What the host sees -/

/-- The value, of a computation that cannot refuse. -/
def Hosted.value {α : Type} (work : Hosted K (Except Empty α)) : Hosted K α := do
  match ← work with
  | .ok a => return a

/-- What the host sees of a run with a handler that answers every effect is what it sees of the
run with that handler as one that could refuse. -/
theorem Program.hostResult_runIn (turns : Nat) (program : Program S type)
    (handler : S.Effect → Run K (Packed S)) {session : Session K}
    {meaning : Hosted K (Except Empty (S.El type))}
    (h : hostResult (program.tryRunIn turns (answering handler : Handler K Empty) session)
      = meaning session.host) :
    hostResult (program.runIn turns handler session) = meaning.value session.host := by
  rw [runIn_eq]
  cases hresult : program.tryRunIn turns (answering handler : Handler K Empty) session with
  | ok result session' =>
    cases result with
    | ok value =>
      rw [hresult] at h
      have hvalue : meaning.value session.host = .ok value session'.host := bind_of_ok h.symm
      rw [bind_of_ok hresult, hvalue]
      rfl
    | error failure => cases failure
  | error halt session' =>
    rw [hresult] at h
    have hvalue : meaning.value session.host = .error halt session'.host := bind_of_error h.symm
    rw [bind_of_error hresult, hvalue]
    rfl

end FreePrograms
