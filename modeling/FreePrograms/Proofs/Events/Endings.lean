/-
# What a run tells at its end

A run with a handler tells in one span what its handler tells, call after call, and then its own
end, with the number of calls that it made itself; of a halt it tells nothing
(`Program.tryRunIn_adds`).  Steps that are driven tell their end in the same way, with the number of
steps that were forced (`Step.runIn_adds`).

A run tells that the program finished before its value is taken at the type of the program.  That
this cannot fail is a matter of types.  It cannot if the run goes beside another one
(`Program.Proper`), as runs of programs of trees do (`Program.Follows.proper`).
-/
import FreePrograms.Proofs.Events.Records
import FreePrograms.Proofs.Run.Interpreters
import FreePrograms.Proofs.Tree.Beside

namespace FreePrograms

variable {S : Signature} {K : Host S} {type : S.Ty} {α β E N M R Failure : Type}

/-! ## 1. Runs with a handler -/

/-- What the function told in a call. -/
def Call.told (function : E → Run K β) (call : Call K E) : List Event :=
  (Run.last (function call.effect call.session)).events.toList.drop call.session.events.size

/-- What is told of a result: nothing of a halt. -/
def Run.ending (tell : α → Event) : EStateM.Result (Halt S) (Session K) α → Option Event
  | .ok a _ => some (tell a)
  | .error _ _ => none

theorem Run.ending_inside (tell : α → Event) (span : Span) (work : Run K α) (session : Session K) :
    Run.ending tell (Run.inside span work session) =
      Run.ending tell (work (session.told (.enter span))) := by
  rw [Run.inside_eq]
  cases work (session.told (.enter span)) <;> rfl

/-- The work was done in a span of its own: it told what was told inside, and last its end. -/
def Run.Spanned (span : Span) (inside : List Event) (tell : α → Event) (session : Session K)
    (result : EStateM.Result (Halt S) (Session K) α) : Prop :=
  session.Adds (.enter span :: (inside ++ (Run.ending tell result).toList ++ [.leave span]))
    (Run.last result)

/-- The end of a run with a handler after so many calls. -/
def handledEnd (calls : Nat) : Except Failure α → Event
  | .ok _ => .programFinished calls
  | .error _ => .handlerFailed calls

/-- What the function told in a call is of this manner, and comes after all that was told before. -/
def Call.Tells (manner : Manner) (function : E → Run K β) (call : Call K E) : Prop :=
  manner.Fits (call.told function) ∧
    call.session.Adds (call.told function) (Run.last (function call.effect call.session))

theorem Run.Tells.call {manner : Manner} {good : β → Prop} {function : E → Run K β}
    {call : Call K E} (h : Run.Tells manner good (function call.effect)) :
    call.Tells manner function := by
  obtain ⟨told, hfits, hadds⟩ := h.adds call.session
  rw [Call.Tells, Call.told, hadds.drop_eq]
  exact ⟨hfits, hadds⟩

section Handlers

variable {manner : Manner} {handler : Handler K Failure}

/-- **A run tells what its handler tells, and then its end**, with the calls counted. -/
theorem Code.Runs.adds (hhandler : ∀ effect, Run.Tells manner Any (handler effect))
    {turns effects : Nat} {code : Code S} {session : Session K} {calls : List (Call K S.Effect)}
    {result : EStateM.Result (Halt S) (Session K) (Except Failure (Packed S))}
    (h : Code.Runs handler turns effects code session calls result) :
    session.Adds (calls.flatMap (Call.told handler) ++
      (Run.ending (handledEnd (effects + calls.length)) result).toList) (Run.last result) := by
  have hcall := fun call : Call K S.Effect => (hhandler call.effect).call.2
  induction h with
  | exhausted => exact .refl _
  | stuck advance => exact Code.advance_adds advance
  | finished advance => exact (Code.advance_adds advance).trans (.event _ _)
  | @refused _ effects _ _ asked last waiting _ advance call =>
    have htold := hcall ⟨waiting.effect, asked⟩
    rw [call] at htold
    have hall := ((Code.advance_adds advance).trans htold).trans
      (.event last (.handlerFailed (effects + 1)))
    simpa [Run.ending, handledEnd] using hall
  | @struck _ _ _ _ asked last waiting _ advance call =>
    have htold := hcall ⟨waiting.effect, asked⟩
    rw [call] at htold
    simpa [Run.ending] using (Code.advance_adds advance).trans htold
  | @misanswered _ _ _ _ asked _ _ waiting _ _ advance call taken =>
    have htold := hcall ⟨waiting.effect, asked⟩
    rw [call] at htold
    have hall := ((Code.advance_adds advance).trans htold).trans (Waiting.answer_adds taken)
    simpa [Run.ending] using hall
  | @answered _ effects _ _ _ asked _ _ waiting _ calls _ advance call taken _ ih =>
    have htold := hcall ⟨waiting.effect, asked⟩
    rw [call] at htold
    have hall :=
      (((Code.advance_adds advance).trans htold).trans (Waiting.answer_adds taken)).trans ih
    have hcount : effects + 1 + calls.length = effects + (calls.length + 1) := by omega
    rw [hcount] at hall
    simpa using hall

end Handlers

/-- The run with the handler goes beside another one, of a program that does the same, with a
handler that does, and under a pact by which neither side breaks. -/
inductive Program.Proper (program : Program S type) (handler : Handler K Failure)
    (session : Session K) : Prop
  | intro {L : Host S} {pact : Pact K L} {ledger ledger' : Ledger (Frame S)}
    {program' : Program S type} {handler' : Handler L Failure} {session' : Session L}
    (whole : ∀ halt host, ¬ pact.breaks halt host) (keeps : pact.Keeps ledger ledger')
    (codes : pact.Codes ledger ledger' program.code program'.code type)
    (steady : ∀ effect, pact.Steady .equal ledger ledger' (handler effect) (handler' effect))
    (agrees : session.memo.Agrees ledger) (agrees' : session'.memo.Agrees ledger')
    (together : pact.hosts ledger session.host session'.host)

section Programs

variable {manner : Manner} {handler : Handler K Failure} {turns : Nat} {program : Program S type}
  {session : Session K}

/-- So it does if the program is one of a tree, and the handler does the same on sessions that
differ in their tables only. -/
theorem Program.Follows.proper {ledger : Ledger (Frame S)} {tree : Tree S type} {trees : Trees S}
    (follows : program.Follows ledger tree) (keeps : K.Keeps ledger trees)
    (agrees : session.memo.Agrees ledger)
    (steady : ∀ effect,
      (K.equal fun _ => True).Steady .equal ledger ledger (handler effect) (handler effect)) :
    program.Proper handler session := by
  have hkeeps : (K.equal fun _ => True).Keeps ledger ledger :=
    keeps.keeps keeps (trees.failsWith_any.beside fun _ _ => trivial)
  have hcodes : (K.equal fun _ => True).Codes ledger ledger program.code program.code type :=
    follows.codes follows (tree.failsWith_any.beside fun _ _ => trivial)
  exact .intro (fun _ _ h => h) hkeeps hcodes steady agrees agrees rfl

/-- The value that is told of has the type of the program. -/
theorem Program.Proper.value_type (h : program.Proper handler session) {value : Packed S}
    {last : Session K} (hresult : program.code.handle handler turns 0
      (session.told (.enter .run)) = .ok (.ok value) last) : value.type = type := by
  obtain ⟨whole, keeps, codes, steady, agrees, agrees', together⟩ := h
  rename_i L pact ledger ledger' program' handler' session'
  have hagrees : (session.told (.enter .run)).memo.Agrees ledger := agrees
  have htogether : pact.hosts ledger (session.told (.enter .run)).host session'.host := together
  have hresults := (codes.handle keeps steady turns 0).results (List.prefix_refl _)
    (List.prefix_refl _) hagrees agrees' htogether
  rw [hresult] at hresults
  generalize program'.code.handle handler' turns 0 session' = result' at hresults
  cases hresults with
  | ok _ _ _ _ _ both => exact both.2 value rfl
  | broken _ _ breaks _ => exact absurd breaks (whole _ _)

/-- Unless the value is not of the type of the program, the end that is told is that of the
result. -/
theorem Program.ending_ended {count : Nat}
    {result : EStateM.Result (Halt S) (Session K) (Except Failure (Packed S))}
    (h : ∀ last, Program.ended type result = .error (.mismatch .result type) last →
      ∀ value last', result = .ok (.ok value) last' → value.type = type) :
    Run.ending (handledEnd count) (Program.ended type result) =
      Run.ending (handledEnd count) result := by
  match result with
  | .error halt last => rfl
  | .ok (.error failure) last => rfl
  | .ok (.ok value) last =>
    have htype : value.type = type := by
      by_cases heq : value.type = type
      · exact heq
      · have hended : Program.ended type (.ok (.ok value) last :
            EStateM.Result (Halt S) (Session K) (Except Failure (Packed S))) =
              .error (.mismatch .result type) (last.told (.leave .run)) := by
          rw [ended, Packed.unpack_of_ne .result heq]
        exact h _ hended value last rfl
    obtain ⟨inner, value⟩ := value
    obtain rfl : inner = type := htype
    rw [ended, Packed.unpack_self]
    rfl

/-- What a run tells, where the end is that of its loop. -/
theorem Program.handled_adds (hhandler : ∀ effect, Run.Tells manner Any (handler effect))
    (turns : Nat) (program : Program S type) (session : Session K) :
    session.Adds (.enter .run ::
      ((program.calls turns handler session).flatMap (Call.told handler) ++
        (Run.ending (handledEnd (program.calls turns handler session).length)
          (program.code.handle handler turns 0 (session.told (.enter .run)))).toList ++
        [.leave .run]))
      (Run.last (program.tryRunIn turns handler session)) := by
  have hadds := (Code.runs handler turns 0 program.code (session.told (.enter .run))).adds hhandler
  rw [Nat.zero_add] at hadds
  rw [Program.tryRunIn_eq_ended, Program.last_ended]
  exact hadds.span

/-- **A run that may be refused tells one end**, in its own span and when all else was told: of a
value that the program finished, of a refusal that the handler failed, of a halt nothing. -/
theorem Program.tryRunIn_adds (hhandler : ∀ effect, Run.Tells manner Any (handler effect))
    (hproper : ∀ last, program.tryRunIn turns handler session
      = .error (.mismatch .result type) last → program.Proper handler session) :
    Run.Spanned .run ((program.calls turns handler session).flatMap (Call.told handler))
      (handledEnd (program.calls turns handler session).length) session
      (program.tryRunIn turns handler session) := by
  have hadds := program.handled_adds hhandler turns session
  rw [Run.Spanned]
  rw [Program.tryRunIn_eq_ended] at hproper hadds ⊢
  rw [Program.ending_ended fun last hended _ _ => (hproper last hended).value_type]
  exact hadds

/-! ## 2. Runs that cannot be refused -/

theorem Run.last_answering (handler : S.Effect → Run K (Packed S)) (effect : S.Effect)
    (session : Session K) :
    Run.last ((answering handler : Handler K Failure) effect session) =
      Run.last (handler effect session) := by
  rw [answering]
  cases h : handler effect session with
  | error halt last =>
    rw [bind_of_error h]
    rfl
  | ok answer last =>
    rw [bind_of_ok h]
    rfl

theorem Run.last_accepted (result : EStateM.Result (Halt S) (Session K) (Except Empty α)) :
    Run.last (Run.accepted result) = Run.last result := by
  match result with
  | .ok (.ok a) last => rfl
  | .error halt last => rfl

theorem Run.ending_accepted (count : Nat)
    (result : EStateM.Result (Halt S) (Session K) (Except Empty α)) :
    Run.ending (fun _ => .programFinished count) (Run.accepted result) =
      Run.ending (handledEnd count) result := by
  match result with
  | .ok (.ok a) last => rfl
  | .error halt last => rfl

theorem Run.Tells.answering {handler : S.Effect → Run K (Packed S)} {effect : S.Effect}
    (h : Run.Tells manner Any (handler effect)) :
    Run.Tells manner Any ((FreePrograms.answering handler : Handler K Failure) effect) :=
  h.bind fun _ _ => .pure trivial

/-- **A run that cannot be refused tells one end** in the same way: of a value that the program
finished, of a halt nothing. -/
theorem Program.runIn_adds {handler : S.Effect → Run K (Packed S)}
    (hhandler : ∀ effect, Run.Tells manner Any (handler effect))
    (hproper : ∀ last, program.runIn turns handler session = .error (.mismatch .result type) last →
      program.Proper (answering handler : Handler K Empty) session) :
    Run.Spanned .run
      ((program.calls turns (answering handler : Handler K Empty) session).flatMap
        (Call.told handler))
      (fun _ => .programFinished
        (program.calls turns (answering handler : Handler K Empty) session).length)
      session (program.runIn turns handler session) := by
  have htold : Call.told (answering handler : Handler K Empty) = Call.told handler := by
    funext call
    rw [Call.told, Call.told, Run.last_answering]
  rw [Program.runIn_eq_accepted] at hproper ⊢
  rw [Run.Spanned, Run.last_accepted, Run.ending_accepted, ← htold]
  refine Program.tryRunIn_adds (fun effect => (hhandler effect).answering) fun last h => ?_
  exact hproper last (by rw [h]; rfl)

end Programs

/-! ## 3. Steps that are driven -/

/-- Forces the effect of a step and goes on with the answer. -/
def Step.turn (force : N → Run K (Packed S)) : Step K N M → Run K (Step K N M)
  | .done value => return .done value
  | .next effect resume => do answer resume (← force effect)

/-- The steps whose effects are forced when steps are driven, in their order. -/
def Step.forced (force : N → Run K (Packed S)) :
    Nat → Step K N M → Session K → List (Call K (Step K N M))
  | 0, _, _ => []
  | _ + 1, .done _, _ => []
  | turns + 1, .next effect resume, session =>
    ⟨.next effect resume, session⟩ ::
      match (Step.next effect resume).turn force session with
      | .ok step session => step.forced force turns session
      | .error _ _ => []

theorem Step.drive_next (force : N → Run K (Packed S)) (turns effects : Nat) (effect : N)
    (resume : Packed S → Session K → EStateM.Result (Halt S) (Session K) (Step K N M)) :
    (Step.next effect resume).drive force (turns + 1) effects =
      (Step.next effect resume).turn force >>= Step.drive force turns (effects + 1) := by
  rw [Step.drive, turn, bind_assoc]

/-- What driving steps comes to after so many effects: the steps that are forced, and the result. -/
inductive Step.Drives (force : N → Run K (Packed S)) :
    Nat → Nat → Step K N M → Session K → List (Call K (Step K N M)) →
      EStateM.Result (Halt S) (Session K) M → Prop
  | exhausted {effects : Nat} {step : Step K N M} {session : Session K} :
    Drives force 0 effects step session [] (.error .exhausted session)
  | finished {turns effects : Nat} {value : M} {session : Session K} :
    Drives force (turns + 1) effects (.done value) session []
      (.ok value (session.told (.stepsFinished effects)))
  /-- To force the effect halts, or to go on with its answer. -/
  | struck {turns effects : Nat} {effect : N}
    {resume : Packed S → Session K → EStateM.Result (Halt S) (Session K) (Step K N M)}
    {session last : Session K} {halt : Halt S}
    (turn : (Step.next effect resume).turn force session = .error halt last) :
    Drives force (turns + 1) effects (.next effect resume) session [⟨.next effect resume, session⟩]
      (.error halt last)
  | forced {turns effects : Nat} {effect : N}
    {resume : Packed S → Session K → EStateM.Result (Halt S) (Session K) (Step K N M)}
    {step : Step K N M} {session onward : Session K} {calls : List (Call K (Step K N M))}
    {result : EStateM.Result (Halt S) (Session K) M}
    (turn : (Step.next effect resume).turn force session = .ok step onward)
    (rest : Drives force turns (effects + 1) step onward calls result) :
    Drives force (turns + 1) effects (.next effect resume) session
      (⟨.next effect resume, session⟩ :: calls) result

section Steps

variable {manner : Manner} {force : N → Run K (Packed S)}

/-- **To drive steps is one of these**, with the steps that are forced. -/
theorem Step.drives (force : N → Run K (Packed S)) (turns effects : Nat) (step : Step K N M)
    (session : Session K) :
    Step.Drives force turns effects step session (step.forced force turns session)
      (step.drive force turns effects session) := by
  induction turns generalizing effects step session with
  | zero => exact .exhausted
  | succ turns ih =>
    cases step with
    | done value => exact .finished
    | next effect resume =>
      rw [Step.drive_next, Step.forced]
      cases hturn : (Step.next effect resume).turn force session with
      | error halt last =>
        rw [bind_of_error hturn]
        exact .struck hturn
      | ok step onward =>
        rw [bind_of_ok hturn]
        exact .forced hturn (ih (effects + 1) step onward)

/-- The loop tells what its steps tell, and then its end, with the steps counted. -/
theorem Step.Drives.adds {turns effects : Nat} {step : Step K N M} {session : Session K}
    {calls : List (Call K (Step K N M))} {result : EStateM.Result (Halt S) (Session K) M}
    (h : Step.Drives force turns effects step session calls result)
    (hcalls : ∀ call ∈ calls, call.Tells manner (Step.turn force)) :
    session.Adds (calls.flatMap (Call.told (Step.turn force)) ++
      (Run.ending (fun _ => .stepsFinished (effects + calls.length)) result).toList)
      (Run.last result) := by
  induction h with
  | exhausted => exact .refl _
  | finished => exact .event _ _
  | struck turn =>
    have hfirst := (hcalls _ List.mem_cons_self).2
    rw [turn] at hfirst
    simpa [Run.ending] using hfirst
  | @forced _ effects _ _ _ _ _ calls _ turn _ ih =>
    have hfirst := (hcalls _ List.mem_cons_self).2
    rw [turn] at hfirst
    have hrest := ih fun call hcall => hcalls call (List.mem_cons_of_mem _ hcall)
    have hcount : effects + 1 + calls.length = effects + (calls.length + 1) := by omega
    rw [hcount] at hrest
    simpa using hfirst.trans hrest

/-- A step that goes on in a manner tells in it when its effect is forced. -/
theorem Habit.Goes.turn {first : N → Prop} {last : M → Prop} {times : Nat} {effect : N}
    {resume : Packed S → Session K → EStateM.Result (Halt S) (Session K) (Step K N M)}
    (hforce : ∀ effect, first effect → Run.Tells manner Any (force effect))
    (h : (telling manner).Goes first last (times + 1) (.next effect resume)) :
    Run.Tells manner ((telling manner).Goes first last times)
      ((Step.next effect resume).turn force) :=
  (hforce effect h.1).bind fun answer _ => h.2 answer

/-- Steps that go on in a manner tell in it when they are forced, and end with what is said of
them. -/
theorem Step.Drives.tells {first : N → Prop} {last : M → Prop} {turns effects times : Nat}
    {step : Step K N M} {session : Session K} {calls : List (Call K (Step K N M))}
    {result : EStateM.Result (Halt S) (Session K) M}
    (h : Step.Drives force turns effects step session calls result)
    (hforce : ∀ effect, first effect → Run.Tells manner Any (force effect))
    (hgoes : (telling manner).Goes first last times step) :
    (∀ call ∈ calls, call.Tells manner (Step.turn force)) ∧
      ∀ value final, result = .ok value final → last value := by
  induction h generalizing times with
  | exhausted => simp
  | finished =>
    refine ⟨by simp, ?_⟩
    rintro value final ⟨⟩
    exact hgoes.of_done
  | struck turn =>
    cases times with
    | zero => exact hgoes.elim
    | succ times =>
      refine ⟨?_, by simp⟩
      simpa using (hgoes.turn hforce).call
  | forced turn _ ih =>
    cases times with
    | zero => exact hgoes.elim
    | succ times =>
      have hturn := hgoes.turn hforce
      obtain ⟨hcalls, hvalue⟩ := ih (hturn.value turn)
      refine ⟨?_, hvalue⟩
      simpa using ⟨hturn.call, hcalls⟩

/-- **Steps that are driven tell one end**, in their own span and when all else was told: of a value
that the steps finished, of a halt nothing. -/
theorem Step.runIn_adds (turns : Nat) (step : Step K N M) (session : Session K)
    (hsteps : ∀ call ∈ step.forced force turns (session.told (.enter .steps)),
      call.Tells manner (Step.turn force)) :
    Run.Spanned .steps
      ((step.forced force turns (session.told (.enter .steps))).flatMap
        (Call.told (Step.turn force)))
      (fun _ => .stepsFinished (step.forced force turns (session.told (.enter .steps))).length)
      session (step.runIn turns force session) := by
  have hadds := (Step.drives force turns 0 step (session.told (.enter .steps))).adds hsteps
  rw [Nat.zero_add] at hadds
  rw [Run.Spanned, Step.runIn, Run.last_inside, Run.ending_inside]
  exact hadds.span

end Steps

end FreePrograms
