/-
# Interpreters abreast

An `Interpreter` is a way to carry out a program with functions that the host hands in: with a
handler, as a fold with any rendering and any combination, as steps that are driven to their end or
given to a driver, or as one deferred computation that is forced.

Two programs whose codes are abreast are carried out abreast by interpreters of the same kind whose
functions are (`Pact.Interprets.carryOut`).  What is asked of the functions is asked of each of them
by itself (`Pact.Interprets`): to do the same on sessions that go together, given the same, or given
what does the same.  A combination is given the rest of the fold, which is a computation; a driver
is given a step, which holds how to go on.  Of steps it is said by `Pact.Steps`, up to the number of
turns that were left when they were made, that they go on abreast.

A function may itself carry out programs: what is shown of interpreters here is what is asked of
functions (`Pact.Steady`).
-/
import FreePrograms.Proofs.Run.Codes
import FreePrograms.Proofs.Run.Ways

namespace FreePrograms

variable {S : Signature} {K L : Host S} {type : S.Ty} {Failure α β N M R N' M' R' : Type}

/-! ## 1. Interpreters -/

/-- A way to carry out programs of the given type. -/
inductive Interpreter {S : Signature} (K : Host S) (type : S.Ty) : Type → Type 1
  /-- The run with a handler that may refuse. -/
  | tryRun {Failure : Type} (handler : Handler K Failure) :
    Interpreter K type (Except Failure (S.El type))
  /-- The run with a handler that answers every effect. -/
  | run (handler : S.Effect → Run K (Packed S)) : Interpreter K type (S.El type)
  /-- The fold that combines each rendered effect with the fold of the rest. -/
  | fold {N M : Type} (rendering : Rendering K type N M)
    (combine : N → (Packed S → Run K M) → Run K M) : Interpreter K type M
  /-- The fold into steps, which are driven to their end. -/
  | steps {N M : Type} (rendering : Rendering K type N M) (force : N → Run K (Packed S)) :
    Interpreter K type M
  /-- The fold into steps that gives the first one to a driver. -/
  | drive {N M R : Type} (rendering : Rendering K type N M) (driver : Step K N M → Run K R) :
    Interpreter K type R
  /-- The fold into one deferred computation, which is forced. -/
  | defer (render : S.Effect → Run K (Deferred K (Packed S))) : Interpreter K type (S.El type)

/-- Carries out the program, in at most so many turns. -/
def Interpreter.carryOut (turns : Nat) (program : Program S type) :
    Interpreter K type R → Run K R
  | .tryRun handler => program.tryRunIn turns handler
  | .run handler => program.runIn turns handler
  | .fold rendering combine => program.foldIn turns rendering combine
  | .steps rendering force => do (← program.stepsIn turns rendering).runIn turns force
  | .drive rendering driver => program.driveIn turns rendering driver
  | .defer render => do (← program.deferIn turns render).force

/-- Two codes came to the same result, or wait for the answer to the same effect. -/
inductive Terms.Reaches (terms : Terms S) (ledger ledger' : Ledger (Frame S)) :
    Reached S type → Reached S type → Prop
  | result (value : S.El type) : Terms.Reaches terms ledger ledger' (.result value) (.result value)
  | asking {waiting waiting' : Waiting S}
    (waits : terms.Waits ledger ledger' waiting waiting' type) :
    Terms.Reaches terms ledger ledger' (.asking waiting) (.asking waiting')

open Pact

variable {pact : Pact K L} {ledger ledger' later later' : Ledger (Frame S)} {b : S.Ty}

theorem Terms.Reaches.mono {terms : Terms S} (first : ledger <+: later)
    (second : ledger' <+: later') {reached reached' : Reached S type}
    (h : terms.Reaches ledger ledger' reached reached') :
    terms.Reaches later later' reached reached' := by
  cases h with
  | result value => exact .result value
  | asking waits => exact .asking (waits.mono first second)

/-- Where codes came to, of the given type. -/
def Pact.reached (pact : Pact K L) (type : S.Ty) : Agreement S (Reached S type) (Reached S type) :=
  ⟨pact.Reaches, Any, fun first second h => h.mono first second, fun _ => trivial⟩

/-- **Codes that are abreast come to the same**: a result always has the type of the codes. -/
theorem Terms.Codes.reach (keeps : pact.Keeps ledger ledger') (turns : Nat) {code code' : Code S}
    (h : pact.Codes ledger ledger' code code' type) :
    pact.Abreast pact.Possible (pact.reached type) ledger ledger' (code.reach type turns)
      (code'.reach type turns) := by
  refine ((h.advance keeps turns).weaken fun _ => Or.inl).bind ?_ ?_
  · intro stop _
    cases stop with
    | finished value => exact (Grows.except _).bind fun _ _ => .pure trivial
    | waiting waiting => exact .pure trivial
  · intro later later' stop stop' first second hstop
    cases hstop with
    | finished value =>
      simp only [Packed.unpack_self]
      exact .pure (.result value)
    | waiting waits => exact .pure (.asking waits)

/-- Two codes that wait for an answer ask for the same effect. -/
theorem Terms.Waits.effect_eq {terms : Terms S} {waiting waiting' : Waiting S}
    (h : terms.Waits ledger ledger' waiting waiting' b) : waiting.effect = waiting'.effect := by
  cases h with
  | intro => rfl

/-! ## 2. Runs with a handler -/

/-- Packed results of a run are equal, and values are of the given type. -/
def Pact.packed (type : S.Ty) :
    Agreement S (Except Failure (Packed S)) (Except Failure (Packed S)) :=
  ⟨fun _ _ result result' => result = result' ∧ ∀ value, result = .ok value → value.type = type,
    Any, fun _ _ h => h, fun _ => trivial⟩

theorem Pact.Grows.handle {handler : Handler K Failure}
    (hhandler : ∀ effect, pact.Grows Any (handler effect)) (turns effects : Nat) (code : Code S) :
    pact.Grows Any (code.handle handler turns effects) := by
  induction turns generalizing effects code with
  | zero => exact .throw .exhausted
  | succ turns ih =>
    rw [Code.handle_succ]
    refine (Grows.advance turns code).bind fun stop _ => ?_
    cases stop with
    | finished value => exact (Grows.tell _).bind fun _ _ => .pure trivial
    | waiting waiting =>
      refine (hhandler waiting.effect).bind fun result _ => ?_
      cases result with
      | ok answer => exact (Grows.answer waiting answer).bind fun code _ => ih (effects + 1) code
      | error failure => exact (Grows.tell _).bind fun _ _ => .pure trivial

/-- **The turns of a run with a handler, abreast.** -/
theorem Terms.Codes.handle (keeps : pact.Keeps ledger ledger') {handler : Handler K Failure}
    {handler' : Handler L Failure}
    (hhandler : ∀ effect,
      pact.Steady .equal ledger ledger' (handler effect) (handler' effect))
    (turns effects : Nat) {code code' : Code S} (h : pact.Codes ledger ledger' code code' b) :
    pact.Abreast pact.Possible (packed b) ledger ledger' (code.handle handler turns effects)
      (code'.handle handler' turns effects) := by
  have hgrows : ∀ effect, pact.Grows Any (handler effect) := fun effect => (hhandler effect).grows
  induction turns generalizing effects code code' ledger ledger' with
  | zero => exact .throw (Or.inl (Or.inr (Or.inl rfl)))
  | succ turns ih =>
    rw [Code.handle_succ, Code.handle_succ]
    refine ((h.advance keeps turns).weaken fun _ => Or.inl).bind ?_ ?_
    · intro stop _
      cases stop with
      | finished value => exact (Grows.tell _).bind fun _ _ => .pure trivial
      | waiting waiting =>
        refine (hgrows waiting.effect).bind fun result _ => ?_
        cases result with
        | ok answer =>
          exact (Grows.answer waiting answer).bind fun code _ => .handle hgrows _ _ code
        | error failure => exact (Grows.tell _).bind fun _ _ => .pure trivial
    · intro later later' stop stop' first second hstop
      cases hstop with
      | finished value =>
        refine .tell _ (.pure ⟨rfl, ?_⟩)
        rintro _ ⟨rfl⟩
        rfl
      | @waiting waiting waiting' _ waits =>
        rw [Code.serve, Code.serve, waits.effect_eq]
        have hserved := (hhandler waiting'.effect).mono first second
        refine hserved.abreast.bind ?_ ?_
        · intro result _
          cases result with
          | ok answer =>
            exact (Grows.answer waiting answer).bind fun code _ => .handle hgrows _ _ code
          | error failure => exact (Grows.tell _).bind fun _ _ => .pure trivial
        · rintro last last' result _ hfirst hsecond rfl
          cases result with
          | ok answer =>
            refine ((waits.mono hfirst hsecond).answer answer).bind ?_ ?_
            · exact fun code _ => .handle hgrows _ _ code
            · intro final final' code code' hthird hthird' hcodes
              have hthen := (first.trans hfirst).trans hthird
              have hthen' := (second.trans hsecond).trans hthird'
              exact ih (keeps.mono hthen hthen')
                (fun effect => (hhandler effect).mono hthen hthen') (effects + 1) hcodes
          | error failure =>
            refine .tell _ (.pure ⟨rfl, ?_⟩)
            rintro _ ⟨⟩

/-- **Runs with a handler, abreast.**  The value always has the type of the program. -/
theorem Terms.Codes.tryRunIn (keeps : pact.Keeps ledger ledger') {handler : Handler K Failure}
    {handler' : Handler L Failure}
    (hhandler : ∀ effect,
      pact.Steady .equal ledger ledger' (handler effect) (handler' effect))
    (turns : Nat) {program program' : Program S type}
    (h : pact.Codes ledger ledger' program.code program'.code type) :
    pact.Steady .equal ledger ledger' (program.tryRunIn turns handler)
      (program'.tryRunIn turns handler') := by
  have hunpacked : ∀ result : Except Failure (Packed S), Any result →
      pact.Grows Any (Program.unpacked type result : Run K _) := by
    intro result _
    cases result with
    | ok value => exact (Grows.except _).bind fun _ _ => .pure trivial
    | error failure => exact .pure trivial
  rw [Program.tryRunIn_eq, Program.tryRunIn_eq]
  have hhandle := h.handle keeps hhandler turns 0
  have hgrows := Grows.handle (fun effect => (hhandler effect).grows) turns 0 program.code
  refine .inside .run ⟨hhandle.bind hunpacked ?_, hgrows.bind hunpacked⟩
  rintro later later' result _ first second ⟨rfl, htype⟩
  cases result with
  | ok value =>
    obtain ⟨inner, value⟩ := value
    obtain rfl : inner = type := htype _ rfl
    rw [Program.unpacked, Program.unpacked, Packed.unpack_self]
    exact .pure rfl
  | error failure => exact .pure rfl

theorem Pact.Steady.map_equal {work : Run K α} {work' : Run L α} {f : α → β}
    (h : pact.Steady .equal ledger ledger' work work') :
    pact.Steady .equal ledger ledger' (do return f (← work)) (do return f (← work')) := by
  refine h.bind (fun _ _ => .pure trivial) ?_
  rintro later later' a _ first second rfl
  exact .pure rfl

/-- Runs with a handler that answers every effect, abreast. -/
theorem Terms.Codes.runIn (keeps : pact.Keeps ledger ledger')
    {handler : S.Effect → Run K (Packed S)} {handler' : S.Effect → Run L (Packed S)}
    (hhandler : ∀ effect,
      pact.Steady .equal ledger ledger' (handler effect) (handler' effect))
    (turns : Nat) {program program' : Program S type}
    (h : pact.Codes ledger ledger' program.code program'.code type) :
    pact.Steady .equal ledger ledger' (program.runIn turns handler)
      (program'.runIn turns handler') := by
  have hanswering : ∀ effect, pact.Steady .equal ledger ledger'
      (answering handler effect : Run K (Except Empty (Packed S))) (answering handler' effect) :=
    fun effect => (hhandler effect).map_equal
  rw [Program.runIn_eq, Program.runIn_eq]
  refine (h.tryRunIn keeps hanswering turns).bind ?_ ?_
  · intro result _
    cases result with
    | ok value => exact .pure trivial
    | error failure => cases failure
  · rintro later later' result _ first second rfl
    cases result with
    | ok value => exact .pure rfl
    | error failure => cases failure

/-! ## 3. Folds -/

section Folds

variable {effects : Agreement S N N'} {results : Agreement S M M'}

/-- Two renderings do the same. -/
structure Pact.Renders (pact : Pact K L) (effects : Agreement S N N') (results : Agreement S M M')
    (ledger ledger' : Ledger (Frame S)) (rendering : Rendering K type N M)
    (rendering' : Rendering L type N' M') : Prop where
  effect (effect : S.Effect) :
    pact.Steady effects ledger ledger' (rendering.effect effect) (rendering'.effect effect)
  result (value : S.El type) :
    pact.Steady results ledger ledger' (rendering.result value) (rendering'.result value)

/-- Two combinations do the same with rendered effects that go together and with rests of a fold
that do the same. -/
structure Pact.Combines (pact : Pact K L) (effects : Agreement S N N') (results : Agreement S M M')
    (ledger ledger' : Ledger (Frame S)) (combine : N → (Packed S → Run K M) → Run K M)
    (combine' : N' → (Packed S → Run L M') → Run L M') : Prop where
  abreast {later later' : Ledger (Frame S)} {effect : N} {effect' : N'} {rest : Packed S → Run K M}
    {rest' : Packed S → Run L M'} : ledger <+: later → ledger' <+: later' →
      effects.both later later' effect effect' →
      (∀ answer, pact.Steady results later later' (rest answer) (rest' answer)) →
      pact.Abreast pact.Possible results later later' (combine effect rest) (combine' effect' rest')
  grows {effect : N} {rest : Packed S → Run K M} : effects.first effect →
    (∀ answer, pact.Grows results.first (rest answer)) →
    pact.Grows results.first (combine effect rest)

theorem Pact.Renders.mono (first : ledger <+: later) (second : ledger' <+: later')
    {rendering : Rendering K type N M} {rendering' : Rendering L type N' M'}
    (h : pact.Renders effects results ledger ledger' rendering rendering') :
    pact.Renders effects results later later' rendering rendering' :=
  ⟨fun effect => (h.effect effect).mono first second,
    fun value => (h.result value).mono first second⟩

theorem Pact.Combines.mono (first : ledger <+: later) (second : ledger' <+: later')
    {combine : N → (Packed S → Run K M) → Run K M}
    {combine' : N' → (Packed S → Run L M') → Run L M'}
    (h : pact.Combines effects results ledger ledger' combine combine') :
    pact.Combines effects results later later' combine combine' :=
  ⟨fun hfirst hsecond => h.abreast (first.trans hfirst) (second.trans hsecond), h.grows⟩

section Fold

variable {rendering : Rendering K type N M} {rendering' : Rendering L type N' M'}
  {combine : N → (Packed S → Run K M) → Run K M} {combine' : N' → (Packed S → Run L M') → Run L M'}

/-- **Folds, abreast.** -/
theorem Terms.Codes.fold (keeps : pact.Keeps ledger ledger')
    (renders : pact.Renders effects results ledger ledger' rendering rendering')
    (combines : pact.Combines effects results ledger ledger' combine combine')
    (turns : Nat) {code code' : Code S} (h : pact.Codes ledger ledger' code code' type) :
    pact.Steady results ledger ledger' (code.fold rendering combine turns)
      (code'.fold rendering' combine' turns) := by
  have heffect := fun effect => (renders.effect effect).grows
  have hresult := fun value => (renders.result value).grows
  have hfold := pact.growing.fold heffect hresult combines.grows
  refine ⟨?_, hfold turns code⟩
  induction turns generalizing code code' ledger ledger' with
  | zero => exact .throw (Or.inl (Or.inr (Or.inl rfl)))
  | succ turns ih =>
    rw [Code.fold_succ, Code.fold_succ]
    refine (h.reach keeps turns).bind ?_ ?_
    · exact fun reached _ =>
        pact.growing.foldOn heffect hresult combines.grows (hfold turns) reached
    · intro later later' reached reached' first second hreached
      cases hreached with
      | result value => exact ((renders.result value).mono first second).abreast
      | @asking waiting waiting' waits =>
        rw [Reached.fold, Reached.fold, waits.effect_eq]
        have hwaiting : ∀ answer, pact.Grows results.first
            (do (← waiting.answer answer).fold rendering combine turns : Run K M) :=
          fun answer => (Grows.answer waiting answer).bind fun code _ => hfold turns code
        refine ((renders.effect waiting'.effect).mono first second).abreast.bind ?_ ?_
        · exact fun effect hfirst => combines.grows hfirst hwaiting
        · intro last last' effect effect' hfirst hsecond heffects
          have hthen := first.trans hfirst
          have hthen' := second.trans hsecond
          refine combines.abreast hthen hthen' heffects fun answer => ⟨?_, hwaiting answer⟩
          have hanswered := (waits.mono hfirst hsecond).answer answer
          refine hanswered.bind (fun code _ => hfold turns code) ?_
          intro final final' code code' hthird hthird' hcodes
          have hall := hthen.trans hthird
          have hall' := hthen'.trans hthird'
          exact ih (keeps.mono hall hall') (renders.mono hall hall') (combines.mono hall hall')
            hcodes

end Fold

/-! ## 4. Steps -/

/-- Two steps, which go on so many times at most, and do so abreast. -/
def Pact.Steps (pact : Pact K L) (effects : Agreement S N N') (results : Agreement S M M') :
    Nat → Agreement S (Step K N M) (Step L N' M')
  | 0 => {
      both ledger ledger' step step' :=
        match step, step' with
        | .done value, .done value' => results.both ledger ledger' value value'
        | _, _ => False
      first := pact.growing.Goes effects.first results.first 0
      mono first second h := by
        split at h
        · exact results.mono first second h
        · exact h.elim
      first_of_both h := by
        split at h
        · exact results.first_of_both h
        · exact h.elim }
  | turns + 1 => {
      both ledger ledger' step step' :=
        match step, step' with
        | .done value, .done value' => results.both ledger ledger' value value'
        | .next effect resume, .next effect' resume' =>
          effects.both ledger ledger' effect effect' ∧ ∀ answer,
            pact.Abreast pact.Possible (pact.Steps effects results turns) ledger ledger'
                (Step.answer resume answer) (Step.answer resume' answer) ∧
              pact.Grows (pact.growing.Goes effects.first results.first turns)
                (Step.answer resume answer)
        | _, _ => False
      first := pact.growing.Goes effects.first results.first (turns + 1)
      mono first second h := by
        split at h
        · exact results.mono first second h
        · exact ⟨effects.mono first second h.1,
            fun answer => ⟨(h.2 answer).1.mono first second, (h.2 answer).2⟩⟩
        · exact h.elim
      first_of_both h := by
        split at h
        · exact results.first_of_both h
        · exact ⟨effects.first_of_both h.1, fun answer => (h.2 answer).2⟩
        · exact h.elim }

@[simp] theorem Pact.Steps.first_eq (turns : Nat) :
    (pact.Steps effects results turns).first
      = pact.growing.Goes effects.first results.first turns := by
  cases turns with
  | zero => rfl
  | succ turns => rfl

section Fold

variable {rendering : Rendering K type N M} {rendering' : Rendering L type N' M'}

/-- Where codes came to goes on into steps that go on abreast, if codes do from there. -/
theorem Terms.Reaches.stepsOn
    (renders : pact.Renders effects results ledger ledger' rendering rendering') {turns : Nat}
    (h : ∀ {later later'} {code code' : Code S}, ledger <+: later → ledger' <+: later' →
      pact.Codes later later' code code' type →
        pact.Steady (pact.Steps effects results turns) later later' (code.steps rendering turns)
          (code'.steps rendering' turns))
    {reached reached' : Reached S type} (hreaches : pact.Reaches ledger ledger' reached reached') :
    pact.Abreast pact.Possible (pact.Steps effects results (turns + 1)) ledger ledger'
      (reached.steps rendering turns) (reached'.steps rendering' turns) := by
  cases hreaches with
  | result value =>
    exact (renders.result value).abreast.bind (fun _ hlast => .pure hlast)
      fun _ _ _ _ hvalue => .pure hvalue
  | @asking waiting waiting' waits =>
    rw [Reached.steps, Reached.steps, waits.effect_eq]
    have hwaiting : ∀ answer, pact.Grows (pact.growing.Goes effects.first results.first turns)
        (do (← waiting.answer answer).steps rendering turns : Run K (Step K N M)) := by
      refine fun answer => (Grows.answer waiting answer).bind fun code _ => ?_
      exact pact.growing.steps (fun effect => (renders.effect effect).grows)
        (fun value => (renders.result value).grows) turns code
    refine (renders.effect waiting'.effect).abreast.bind ?_ ?_
    · exact fun effect hfirst => .pure ⟨hfirst, hwaiting⟩
    · intro later later' effect effect' first second heffects
      refine .pure ⟨heffects, fun answer => ⟨?_, hwaiting answer⟩⟩
      refine ((waits.mono first second).answer answer).bind ?_ ?_
      · intro code _
        rw [Steps.first_eq]
        exact pact.growing.steps (fun effect => (renders.effect effect).grows)
          (fun value => (renders.result value).grows) turns code
      · intro last last' code code' hlast hlast' hcodes
        exact (h (first.trans hlast) (second.trans hlast') hcodes).abreast

/-- **Folds into steps, abreast.** -/
theorem Terms.Codes.steps (keeps : pact.Keeps ledger ledger')
    (renders : pact.Renders effects results ledger ledger' rendering rendering') (turns : Nat)
    {code code' : Code S} (h : pact.Codes ledger ledger' code code' type) :
    pact.Steady (pact.Steps effects results turns) ledger ledger' (code.steps rendering turns)
      (code'.steps rendering' turns) := by
  have heffect := fun effect => (renders.effect effect).grows
  have hresult := fun value => (renders.result value).grows
  have hsteps := pact.growing.steps heffect hresult
  induction turns generalizing code code' ledger ledger' with
  | zero => exact ⟨.throw (Or.inl (Or.inr (Or.inl rfl))), .throw .exhausted⟩
  | succ turns ih =>
    refine ⟨?_, hsteps (turns + 1) code⟩
    rw [Code.steps_eq, Code.steps_eq]
    refine (h.reach keeps turns).bind ?_ ?_
    · exact fun reached _ => pact.growing.stepsOn heffect hresult (hsteps turns) reached
    · intro later later' reached reached' first second hreaches
      refine hreaches.stepsOn (renders.mono first second) fun hlast hlast' hcodes => ?_
      have hall := first.trans hlast
      have hall' := second.trans hlast'
      exact ih (keeps.mono hall hall') (renders.mono hall hall') hcodes

/-- **Steps from where codes came to, abreast.** -/
theorem Terms.Reaches.steps (keeps : pact.Keeps ledger ledger')
    (renders : pact.Renders effects results ledger ledger' rendering rendering') (turns : Nat)
    {reached reached' : Reached S type} (h : pact.Reaches ledger ledger' reached reached') :
    pact.Abreast pact.Possible (pact.Steps effects results (turns + 1)) ledger ledger'
      (reached.steps rendering turns) (reached'.steps rendering' turns) :=
  h.stepsOn renders fun first second hcodes =>
    hcodes.steps (keeps.mono first second) (renders.mono first second) turns

end Fold

/-- Two ways to force rendered effects that go together give the same answers. -/
structure Pact.Forces (pact : Pact K L) (effects : Agreement S N N')
    (ledger ledger' : Ledger (Frame S)) (force : N → Run K (Packed S))
    (force' : N' → Run L (Packed S)) : Prop where
  abreast {later later' : Ledger (Frame S)} {effect : N} {effect' : N'} : ledger <+: later →
    ledger' <+: later' → effects.both later later' effect effect' →
      pact.Abreast pact.Possible .equal later later' (force effect) (force' effect')
  grows {effect : N} : effects.first effect → pact.Grows Any (force effect)

theorem Pact.Forces.mono (first : ledger <+: later) (second : ledger' <+: later')
    {force : N → Run K (Packed S)} {force' : N' → Run L (Packed S)}
    (h : pact.Forces effects ledger ledger' force force') :
    pact.Forces effects later later' force force' :=
  ⟨fun hfirst hsecond => h.abreast (first.trans hfirst) (second.trans hsecond), h.grows⟩

/-- Where rendered effects are equal, it is enough that they are forced abreast. -/
theorem Pact.Forces.of_equal {force : N → Run K (Packed S)} {force' : N → Run L (Packed S)}
    (h : ∀ effect, pact.Steady .equal ledger ledger' (force effect) (force' effect)) :
    pact.Forces .equal ledger ledger' force force' := by
  refine ⟨?_, fun _ => (h _).grows⟩
  rintro later later' effect _ first second rfl
  exact (h effect).abreast.mono first second

theorem Pact.Grows.drive {first : N → Prop} {last : M → Prop} {force : N → Run K (Packed S)}
    (hforce : ∀ {effect}, first effect → pact.Grows Any (force effect)) (turns effects : Nat)
    {times : Nat} {step : Step K N M} (h : pact.growing.Goes first last times step) :
    pact.Grows last (step.drive force turns effects) := by
  induction turns generalizing times effects step with
  | zero => exact .throw .exhausted
  | succ turns ih =>
    cases step with
    | done value => exact (Grows.tell _).bind fun _ _ => .pure h.of_done
    | next effect resume =>
      cases times with
      | zero => exact h.elim
      | succ times =>
        exact (hforce h.1).bind fun answer _ => (h.2 answer).bind fun step hstep =>
          ih (effects + 1) hstep

/-- **Steps that are driven, abreast.** -/
theorem Pact.Steps.drive {force : N → Run K (Packed S)} {force' : N' → Run L (Packed S)}
    (forces : pact.Forces effects ledger ledger' force force') (turns count : Nat) {times : Nat}
    {step : Step K N M} {step' : Step L N' M'}
    (h : (pact.Steps effects results times).both ledger ledger' step step') :
    pact.Abreast pact.Possible results ledger ledger' (step.drive force turns count)
      (step'.drive force' turns count) := by
  induction turns generalizing times count step step' ledger ledger' with
  | zero => exact .throw (Or.inl (Or.inr (Or.inl rfl)))
  | succ turns ih =>
    cases step with
    | done value =>
      cases step' with
      | done value' =>
        have hresult : results.both ledger ledger' value value' := by
          cases times with
          | zero => exact h
          | succ times => exact h
        exact .tell _ (.pure hresult)
      | next effect' resume' =>
        cases times with
        | zero => exact h.elim
        | succ times => exact h.elim
    | next effect resume =>
      cases times with
      | zero => exact h.elim
      | succ times =>
        cases step' with
        | done value' => exact h.elim
        | next effect' resume' =>
          obtain ⟨heffects, hresume⟩ := h
          rw [Step.drive, Step.drive]
          refine (forces.abreast (List.prefix_refl _) (List.prefix_refl _) heffects).bind ?_ ?_
          · exact fun answer _ => (hresume answer).2.bind fun step hstep =>
              .drive forces.grows turns (count + 1) hstep
          · rintro later later' answer _ first second rfl
            refine ((hresume answer).1.mono first second).bind ?_ ?_
            · intro step hstep
              rw [Steps.first_eq] at hstep
              exact .drive forces.grows turns (count + 1) hstep
            · intro last last' step step' hfirst hsecond hsteps
              exact ih (forces.mono (first.trans hfirst) (second.trans hsecond)) (count + 1) hsteps

/-- Two drivers do the same with steps that do, which go on so many times at most. -/
structure Pact.Drives (pact : Pact K L) (effects : Agreement S N N') (results : Agreement S M M')
    (driven : Agreement S R R') (times : Nat) (ledger ledger' : Ledger (Frame S))
    (driver : Step K N M → Run K R) (driver' : Step L N' M' → Run L R') : Prop where
  abreast {later later' : Ledger (Frame S)} {step : Step K N M} {step' : Step L N' M'} :
    ledger <+: later → ledger' <+: later' →
      (pact.Steps effects results times).both later later' step step' →
      pact.Abreast pact.Possible driven later later' (driver step) (driver' step')
  grows {step : Step K N M} : pact.growing.Goes effects.first results.first times step →
    pact.Grows driven.first (driver step)

/-- To drive steps to their end is a driver. -/
theorem Pact.Forces.drives {force : N → Run K (Packed S)} {force' : N' → Run L (Packed S)}
    (forces : pact.Forces effects ledger ledger' force force') (turns times : Nat) :
    pact.Drives effects results results times ledger ledger' (fun step => step.runIn turns force)
      (fun step => step.runIn turns force') := by
  refine ⟨?_, ?_⟩
  · intro later later' step step' first second hsteps
    exact .inside .steps (Steps.drive (forces.mono first second) turns 0 hsteps)
  · exact fun hstep => .inside .steps (.drive forces.grows turns 0 hstep)

/-- **Folds that are driven, abreast.** -/
theorem Terms.Codes.driveIn (keeps : pact.Keeps ledger ledger') {rendering : Rendering K type N M}
    {rendering' : Rendering L type N' M'}
    (renders : pact.Renders effects results ledger ledger' rendering rendering')
    {driven : Agreement S R R'} {turns : Nat} {driver : Step K N M → Run K R}
    {driver' : Step L N' M' → Run L R'}
    (drives : pact.Drives effects results driven turns ledger ledger' driver driver')
    {program program' : Program S type}
    (h : pact.Codes ledger ledger' program.code program'.code type) :
    pact.Steady driven ledger ledger' (program.driveIn turns rendering driver)
      (program'.driveIn turns rendering' driver') := by
  refine .inside .drive ((h.steps keeps renders turns).bind ?_ ?_)
  · intro step hstep
    rw [Steps.first_eq] at hstep
    exact drives.grows hstep
  · exact fun step step' first second hsteps => drives.abreast first second hsteps

end Folds

/-! ## 5. Deferred computations -/

/-- Two deferred computations do the same when they are forced. -/
def Pact.deferred (pact : Pact K L) (values : Agreement S α β) :
    Agreement S (Deferred K α) (Deferred L β) where
  both ledger ledger' deferred deferred' :=
    pact.Steady values ledger ledger' deferred.force deferred'.force
  first deferred := pact.Grows values.first deferred.force
  mono first second h := h.mono first second
  first_of_both h := h.grows

/-- Forcing forces. -/
theorem Pact.deferred_forces (ledger ledger' : Ledger (Frame S)) :
    pact.Forces (pact.deferred (.equal : Agreement S (Packed S) (Packed S))) ledger ledger'
      Deferred.force Deferred.force :=
  ⟨fun _ _ h => h.abreast, fun h => h⟩

/-- What is there already does the same. -/
theorem Pact.Steady.now (value : α) : pact.Steady (pact.deferred .equal) ledger ledger'
    (Pure.pure (Deferred.now value)) (Pure.pure (Deferred.now value)) :=
  ⟨.pure ⟨.pure rfl, .pure trivial⟩, .pure (.pure trivial)⟩

/-- To chain deferred computations is a combination. -/
theorem Pact.chained_combines (values : Agreement S α β) (ledger ledger' : Ledger (Frame S)) :
    pact.Combines (pact.deferred .equal) (pact.deferred values) ledger ledger'
      (fun effect rest => return effect.bind rest)
      (fun effect rest => return effect.bind rest) := by
  have hgrows : ∀ {effect : Deferred K (Packed S)} {rest : Packed S → Run K (Deferred K α)},
      pact.Grows Any effect.force →
      (∀ answer, pact.Grows (pact.deferred values).first (rest answer)) →
        pact.Grows values.first (effect.bind rest).force :=
    fun heffect hrest => heffect.bind fun answer _ => (hrest answer).bind fun _ h => h
  refine ⟨?_, fun heffect hrest => .pure (hgrows heffect hrest)⟩
  intro later later' effect effect' rest rest' _ _ heffect hrest
  refine .pure ⟨?_, hgrows heffect.grows fun answer => (hrest answer).grows⟩
  refine heffect.abreast.bind (fun answer _ => (hrest answer).grows.bind fun _ h => h) ?_
  rintro last last' answer _ hlast hlast' rfl
  refine ((hrest answer).abreast.mono hlast hlast').bind (fun _ h => h) ?_
  exact fun _ _ _ _ hdeferred => hdeferred.abreast

/-- To make one deferred computation of steps is a driver. -/
theorem Pact.ofStepsIn_drives (values : Agreement S α β) (turns : Nat)
    (ledger ledger' : Ledger (Frame S)) :
    pact.Drives (pact.deferred .equal) (pact.deferred values) (pact.deferred values) turns ledger
      ledger' (fun step => return .ofStepsIn turns step)
      (fun step => return .ofStepsIn turns step) := by
  have hdrives : ∀ ledger ledger', pact.Drives (pact.deferred .equal) (pact.deferred values)
      (pact.deferred values) turns ledger ledger' (fun step => step.runIn turns Deferred.force)
      (fun step => step.runIn turns Deferred.force) :=
    fun ledger ledger' => (deferred_forces ledger ledger').drives turns turns
  have hgrows : ∀ {step : Step K (Deferred K (Packed S)) (Deferred K α)},
      pact.growing.Goes (pact.deferred .equal).first (pact.deferred values).first turns step →
        pact.Grows values.first (Deferred.ofStepsIn turns step).force :=
    fun hstep => ((hdrives [] []).grows hstep).bind fun _ h => h
  refine ⟨?_, fun hstep => .pure (hgrows hstep)⟩
  intro later later' step step' _ _ hsteps
  have hstep :=
    (pact.Steps (pact.deferred .equal) (pact.deferred values) turns).first_of_both hsteps
  rw [Steps.first_eq] at hstep
  refine .pure ⟨?_, hgrows hstep⟩
  refine ((hdrives later later').abreast (List.prefix_refl _) (List.prefix_refl _) hsteps).bind
    (fun _ h => h) ?_
  exact fun _ _ _ _ h => h.abreast

/-- **One deferred computation that is forced, abreast.** -/
theorem Terms.Codes.deferIn (keeps : pact.Keeps ledger ledger')
    {render : S.Effect → Run K (Deferred K (Packed S))}
    {render' : S.Effect → Run L (Deferred L (Packed S))}
    (hrender : ∀ effect,
      pact.Steady (pact.deferred .equal) ledger ledger' (render effect) (render' effect))
    (turns : Nat) {program program' : Program S type}
    (h : pact.Codes ledger ledger' program.code program'.code type) :
    pact.Steady .equal ledger ledger' (do (← program.deferIn turns render).force)
      (do (← program'.deferIn turns render').force) := by
  have hrenders : pact.Renders (pact.deferred .equal) (pact.deferred .equal) ledger ledger'
      (⟨render, fun value => return .now value⟩ : Rendering K type _ _)
      ⟨render', fun value => return .now value⟩ :=
    ⟨hrender, fun value => .now value⟩
  refine (h.driveIn keeps hrenders (ofStepsIn_drives .equal turns ledger ledger')).bind
    (fun deferred hdeferred => hdeferred) ?_
  exact fun deferred deferred' _ _ hdeferred => hdeferred.abreast

/-! ## 6. Every interpreter -/

/-- Two interpreters of the same kind, whose functions do the same.  The results go together as
given. -/
inductive Pact.Interprets (pact : Pact K L) (turns : Nat) (ledger ledger' : Ledger (Frame S)) :
    {R R' : Type} → Agreement S R R' → Interpreter K type R → Interpreter L type R' → Prop
  | tryRun {Failure : Type} {handler : Handler K Failure} {handler' : Handler L Failure}
    (hhandler : ∀ effect, pact.Steady .equal ledger ledger' (handler effect) (handler' effect)) :
    Pact.Interprets pact turns ledger ledger' .equal (.tryRun handler) (.tryRun handler')
  | run {handler : S.Effect → Run K (Packed S)} {handler' : S.Effect → Run L (Packed S)}
    (hhandler : ∀ effect, pact.Steady .equal ledger ledger' (handler effect) (handler' effect)) :
    Pact.Interprets pact turns ledger ledger' .equal (.run handler) (.run handler')
  | fold {N M N' M' : Type} {effects : Agreement S N N'} {results : Agreement S M M'}
    {rendering : Rendering K type N M} {rendering' : Rendering L type N' M'}
    (renders : pact.Renders effects results ledger ledger' rendering rendering')
    {combine : N → (Packed S → Run K M) → Run K M}
    {combine' : N' → (Packed S → Run L M') → Run L M'}
    (combines : pact.Combines effects results ledger ledger' combine combine') :
    Pact.Interprets pact turns ledger ledger' results (.fold rendering combine)
      (.fold rendering' combine')
  | steps {N M N' M' : Type} {effects : Agreement S N N'} {results : Agreement S M M'}
    {rendering : Rendering K type N M} {rendering' : Rendering L type N' M'}
    (renders : pact.Renders effects results ledger ledger' rendering rendering')
    {force : N → Run K (Packed S)} {force' : N' → Run L (Packed S)}
    (forces : pact.Forces effects ledger ledger' force force') :
    Pact.Interprets pact turns ledger ledger' results (.steps rendering force)
      (.steps rendering' force')
  | drive {N M R N' M' R' : Type} {effects : Agreement S N N'} {results : Agreement S M M'}
    {driven : Agreement S R R'} {rendering : Rendering K type N M}
    {rendering' : Rendering L type N' M'}
    (renders : pact.Renders effects results ledger ledger' rendering rendering')
    {driver : Step K N M → Run K R} {driver' : Step L N' M' → Run L R'}
    (drives : pact.Drives effects results driven turns ledger ledger' driver driver') :
    Pact.Interprets pact turns ledger ledger' driven (.drive rendering driver)
      (.drive rendering' driver')
  | defer {render : S.Effect → Run K (Deferred K (Packed S))}
    {render' : S.Effect → Run L (Deferred L (Packed S))}
    (hrender : ∀ effect,
      pact.Steady (pact.deferred .equal) ledger ledger' (render effect) (render' effect)) :
    Pact.Interprets pact turns ledger ledger' .equal (.defer render) (.defer render')

/-- **Programs whose codes are abreast are carried out abreast.** -/
theorem Pact.Interprets.carryOut (keeps : pact.Keeps ledger ledger') {turns : Nat}
    {values : Agreement S R R'} {interpreter : Interpreter K type R}
    {interpreter' : Interpreter L type R'}
    (h : pact.Interprets turns ledger ledger' values interpreter interpreter')
    {program program' : Program S type}
    (hcodes : pact.Codes ledger ledger' program.code program'.code type) :
    pact.Steady values ledger ledger' (interpreter.carryOut turns program)
      (interpreter'.carryOut turns program') := by
  cases h with
  | tryRun hhandler => exact hcodes.tryRunIn keeps hhandler turns
  | run hhandler => exact hcodes.runIn keeps hhandler turns
  | fold renders combines => exact hcodes.fold keeps renders combines turns
  | steps renders forces =>
    have hdrives : pact.Drives _ values values turns ledger ledger' _ _ :=
      forces.drives turns turns
    refine (hcodes.steps keeps renders turns).bind ?_ ?_
    · intro step hstep
      rw [Steps.first_eq] at hstep
      exact hdrives.grows hstep
    · exact fun step step' first second hsteps => hdrives.abreast first second hsteps
  | drive renders drives => exact hcodes.driveIn keeps renders drives
  | defer hrender => exact hcodes.deferIn keeps hrender turns

end FreePrograms
