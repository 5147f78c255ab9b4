/-
# The calls of a handler

A run with a handler asks the handler for one effect after the other.  `Code.calls` lists what it
asks for, each time with the session in which it asks, so what a call did is what the handler does
on that session.

`Code.Runs` says once what a run can come to: it has no turn left, a frame cannot be applied, the
program is finished, the handler refuses, halts, or gives an answer that the frame of the effect
does not take, or it gives one with which the run goes on.  Every run is one of these, with its
calls (`Code.runs`), and what is shown of runs below goes by induction on them:

* `Code.Runs.guarded_pass` and `Code.Runs.guarded_refuse`: a handler that refuses some calls and
  leaves the others to another handler runs as that one does, up to the first call that it refuses;
* `Code.Runs.chain`: the state of the host goes from call to call, and nothing else changes it, if
  the host takes no note of functions that are applied;
* `Call.Chain.keeps`: so what the handler keeps of that state is kept along the calls.
-/
import FreePrograms.Proofs.Run.Abreast

namespace FreePrograms

variable {S : Signature} {K : Host S} {type : S.Ty} {α β E Failure Refusal : Type}

/-! ## 1. Calls -/

/-- A call of a function that is handed in: what it is asked for, and the session in which it is
asked. -/
structure Call {S : Signature} (K : Host S) (E : Type) where
  effect : E
  session : Session K

/-- A call of the handler for the effect, and the program that goes on with the answer. -/
def Waiting.serve (handler : Handler K Failure) (waiting : Waiting S) :
    Run K (Except Failure (Code S)) := do
  match ← handler waiting.effect with
  | .ok answer => return .ok (← waiting.answer answer)
  | .error failure => return .error failure

/-- The calls of the handler in a run, in their order. -/
def Code.calls (handler : Handler K Failure) : Nat → Code S → Session K → List (Call K S.Effect)
  | 0, _, _ => []
  | turns + 1, code, session =>
    match code.advance turns session with
    | .ok (.waiting waiting) asked =>
      ⟨waiting.effect, asked⟩ ::
        match waiting.serve handler asked with
        | .ok (.ok code) session => code.calls handler turns session
        | _ => []
    | _ => []

/-- The calls of the handler in a run of the program. -/
def Program.calls (turns : Nat) (program : Program S type) (handler : Handler K Failure)
    (session : Session K) : List (Call K S.Effect) :=
  program.code.calls handler turns (session.told (.enter .run))

/-- What a run in so many turns comes to after so many effects: its calls and its result. -/
inductive Code.Runs (handler : Handler K Failure) :
    Nat → Nat → Code S → Session K → List (Call K S.Effect) →
      EStateM.Result (Halt S) (Session K) (Except Failure (Packed S)) → Prop
  | exhausted {effects : Nat} {code : Code S} {session : Session K} :
    Runs handler 0 effects code session [] (.error .exhausted session)
  /-- A frame cannot be applied. -/
  | stuck {turns effects : Nat} {code : Code S} {session last : Session K} {halt : Halt S}
    (advance : code.advance turns session = .error halt last) :
    Runs handler (turns + 1) effects code session [] (.error halt last)
  | finished {turns effects : Nat} {code : Code S} {session last : Session K} {value : Packed S}
    (advance : code.advance turns session = .ok (.finished value) last) :
    Runs handler (turns + 1) effects code session []
      (.ok (.ok value) (last.told (.programFinished effects)))
  | refused {turns effects : Nat} {code : Code S} {session asked last : Session K}
    {waiting : Waiting S} {failure : Failure}
    (advance : code.advance turns session = .ok (.waiting waiting) asked)
    (call : handler waiting.effect asked = .ok (.error failure) last) :
    Runs handler (turns + 1) effects code session [⟨waiting.effect, asked⟩]
      (.ok (.error failure) (last.told (.handlerFailed (effects + 1))))
  /-- The handler halts. -/
  | struck {turns effects : Nat} {code : Code S} {session asked last : Session K}
    {waiting : Waiting S} {halt : Halt S}
    (advance : code.advance turns session = .ok (.waiting waiting) asked)
    (call : handler waiting.effect asked = .error halt last) :
    Runs handler (turns + 1) effects code session [⟨waiting.effect, asked⟩] (.error halt last)
  /-- The frame of the effect does not take the answer. -/
  | misanswered {turns effects : Nat} {code : Code S} {session asked answered last : Session K}
    {waiting : Waiting S} {answer : Packed S} {halt : Halt S}
    (advance : code.advance turns session = .ok (.waiting waiting) asked)
    (call : handler waiting.effect asked = .ok (.ok answer) answered)
    (taken : waiting.answer answer answered = .error halt last) :
    Runs handler (turns + 1) effects code session [⟨waiting.effect, asked⟩] (.error halt last)
  | answered {turns effects : Nat} {code next : Code S}
    {session asked answered onward : Session K} {waiting : Waiting S} {answer : Packed S}
    {calls : List (Call K S.Effect)}
    {result : EStateM.Result (Halt S) (Session K) (Except Failure (Packed S))}
    (advance : code.advance turns session = .ok (.waiting waiting) asked)
    (call : handler waiting.effect asked = .ok (.ok answer) answered)
    (taken : waiting.answer answer answered = .ok next onward)
    (rest : Runs handler turns (effects + 1) next onward calls result) :
    Runs handler (turns + 1) effects code session (⟨waiting.effect, asked⟩ :: calls) result

/-- **Every run is one of these**, with the calls that it makes. -/
theorem Code.runs (handler : Handler K Failure) (turns effects : Nat) (code : Code S)
    (session : Session K) :
    Code.Runs handler turns effects code session (code.calls handler turns session)
      (code.handle handler turns effects session) := by
  induction turns generalizing effects code session with
  | zero => exact .exhausted
  | succ turns ih =>
    rw [Code.handle_succ, Code.calls]
    cases hadvance : code.advance turns session with
    | error halt last =>
      rw [bind_of_error hadvance]
      exact .stuck hadvance
    | ok stop asked =>
      rw [bind_of_ok hadvance]
      cases stop with
      | finished value => exact .finished hadvance
      | waiting waiting =>
        dsimp only [Code.serve, Waiting.serve]
        cases hcall : handler waiting.effect asked with
        | error halt last =>
          rw [bind_of_error hcall, bind_of_error hcall]
          exact .struck hadvance hcall
        | ok result answered =>
          rw [bind_of_ok hcall, bind_of_ok hcall]
          cases result with
          | error failure => exact .refused hadvance hcall
          | ok answer =>
            dsimp only
            cases htaken : waiting.answer answer answered with
            | error halt last =>
              rw [bind_of_error htaken, bind_of_error htaken]
              exact .misanswered hadvance hcall htaken
            | ok next onward =>
              rw [bind_of_ok htaken, bind_of_ok htaken]
              exact .answered hadvance hcall htaken (ih (effects + 1) next onward)

/-- **A run comes to one thing only**: what it does, with the calls that it makes. -/
theorem Code.Runs.eq {handler : Handler K Failure} {turns effects : Nat} {code : Code S}
    {session : Session K} {calls : List (Call K S.Effect)}
    {result : EStateM.Result (Halt S) (Session K) (Except Failure (Packed S))}
    (h : Code.Runs handler turns effects code session calls result) :
    code.calls handler turns session = calls ∧
      code.handle handler turns effects session = result := by
  induction h with
  | exhausted => exact ⟨rfl, rfl⟩
  | stuck advance =>
    rw [Code.calls, Code.handle_succ, advance, bind_of_error advance]
    exact ⟨rfl, rfl⟩
  | finished advance =>
    rw [Code.calls, Code.handle_succ, advance, bind_of_ok advance]
    exact ⟨rfl, rfl⟩
  | refused advance call =>
    rw [Code.calls, Code.handle_succ, advance, bind_of_ok advance]
    dsimp only [Code.serve, Waiting.serve]
    rw [bind_of_ok call, bind_of_ok call]
    exact ⟨rfl, rfl⟩
  | struck advance call =>
    rw [Code.calls, Code.handle_succ, advance, bind_of_ok advance]
    dsimp only [Code.serve, Waiting.serve]
    rw [bind_of_error call, bind_of_error call]
    exact ⟨rfl, rfl⟩
  | misanswered advance call taken =>
    rw [Code.calls, Code.handle_succ, advance, bind_of_ok advance]
    dsimp only [Code.serve, Waiting.serve]
    rw [bind_of_ok call, bind_of_ok call]
    dsimp only
    rw [bind_of_error taken, bind_of_error taken]
    exact ⟨rfl, rfl⟩
  | answered advance call taken rest ih =>
    rw [Code.calls, Code.handle_succ, advance, bind_of_ok advance]
    dsimp only [Code.serve, Waiting.serve]
    rw [bind_of_ok call, bind_of_ok call]
    dsimp only
    rw [bind_of_ok taken, bind_of_ok taken]
    exact ⟨congrArg _ ih.1, ih.2⟩

/-- The end of a run of a program: its value is taken at the type of the program, and the span is
left. -/
def Program.ended (type : S.Ty) :
    EStateM.Result (Halt S) (Session K) (Except Failure (Packed S)) →
      EStateM.Result (Halt S) (Session K) (Except Failure (S.El type))
  | .ok (.ok value) last =>
    match value.unpack type .result with
    | .ok value => .ok (.ok value) (last.told (.leave .run))
    | .error halt => .error halt (last.told (.leave .run))
  | .ok (.error failure) last => .ok (.error failure) (last.told (.leave .run))
  | .error halt last => .error halt (last.told (.leave .run))

theorem Program.last_ended
    (result : EStateM.Result (Halt S) (Session K) (Except Failure (Packed S))) :
    Run.last (Program.ended type result) = (Run.last result).told (.leave .run) := by
  match result with
  | .error halt last => rfl
  | .ok (.error failure) last => rfl
  | .ok (.ok value) last =>
    rw [ended]
    cases value.unpack type .result <;> rfl

theorem Program.tryRunIn_eq_ended (turns : Nat) (program : Program S type)
    (handler : Handler K Failure) (session : Session K) :
    program.tryRunIn turns handler session =
      Program.ended type (program.code.handle handler turns 0 (session.told (.enter .run))) := by
  rw [Program.tryRunIn_eq, Run.inside_eq]
  cases hresult : program.code.handle handler turns 0 (session.told (.enter .run)) with
  | error halt last => rw [bind_of_error hresult, ended]
  | ok result last =>
    rw [bind_of_ok hresult]
    cases result with
    | error failure => rfl
    | ok value =>
      rw [ended]
      dsimp only [unpacked]
      cases hvalue : value.unpack type .result with
      | ok value => rfl
      | error halt => rfl

/-- A result that cannot be a refusal. -/
def Run.accepted : EStateM.Result (Halt S) (Session K) (Except Empty α) →
    EStateM.Result (Halt S) (Session K) α
  | .ok (.ok a) session => .ok a session
  | .error halt session => .error halt session

theorem Program.runIn_eq_accepted (turns : Nat) (program : Program S type)
    (handler : S.Effect → Run K (Packed S)) (session : Session K) :
    program.runIn turns handler session =
      Run.accepted (program.tryRunIn turns (answering handler) session) := by
  rw [Program.runIn_eq]
  cases hresult : program.tryRunIn turns (answering handler : Handler K Empty) session with
  | error halt last =>
    rw [bind_of_error hresult]
    rfl
  | ok result last =>
    rw [bind_of_ok hresult]
    cases result with
    | ok value => rfl
    | error failure => cases failure

theorem Run.eq_of_accepted {result : EStateM.Result (Halt S) (Session K) (Except Empty α)} {a : α}
    {last : Session K} (h : Run.accepted result = .ok a last) : result = .ok (.ok a) last := by
  match result with
  | .ok (.ok _) _ =>
    cases h
    rfl
  | .error _ _ => cases h

/-! ## 2. Handlers that refuse some calls -/

/-- The handler that refuses some calls, by what is asked and in which session, and leaves the
others to another handler. -/
def guarded (refuse : S.Effect → Session K → Option Refusal)
    (handler : S.Effect → Run K (Packed S)) : Handler K Refusal := fun effect session =>
  match refuse effect session with
  | some refusal => .ok (.error refusal) session
  | none => answering handler effect session

/-- A result that cannot be a refusal, where there can be refusals. -/
def Run.unrefused : EStateM.Result (Halt S) (Session K) (Except Empty α) →
    EStateM.Result (Halt S) (Session K) (Except Refusal α)
  | .ok (.ok a) session => .ok (.ok a) session
  | .error halt session => .error halt session

namespace Code.Runs

variable {turns effects : Nat} {code : Code S} {session : Session K}
  {calls : List (Call K S.Effect)} {refuse : S.Effect → Session K → Option Refusal}
  {handler : S.Effect → Run K (Packed S)}
  {result : EStateM.Result (Halt S) (Session K) (Except Empty (Packed S))}

theorem answering_ok {effect : S.Effect} {answer : Except Empty (Packed S)}
    {session last : Session K} (h : answering handler effect session = .ok answer last)
    (hpass : refuse effect session = none) :
    ∃ value, answer = .ok value ∧ guarded refuse handler effect session = .ok (.ok value) last := by
  rw [guarded, hpass]
  cases hcall : handler effect session with
  | error halt last' =>
    rw [answering, bind_of_error hcall] at h
    cases h
  | ok value last' =>
    rw [answering, bind_of_ok hcall] at h
    cases h
    exact ⟨value, rfl, bind_of_ok hcall⟩

theorem answering_error {effect : S.Effect} {halt : Halt S} {session last : Session K}
    (h : (answering handler effect : Run K (Except Empty (Packed S))) session = .error halt last)
    (hpass : refuse effect session = none) :
    guarded refuse handler effect session = .error halt last := by
  rw [guarded, hpass]
  cases hcall : handler effect session with
  | error halt' last' =>
    rw [answering, bind_of_error hcall] at h
    cases h
    exact bind_of_error hcall
  | ok value last' =>
    rw [answering, bind_of_ok hcall] at h
    cases h

/-- **A run none of whose calls are refused** is the run without refusals. -/
theorem guarded_pass (h : Code.Runs (answering handler) turns effects code session calls result)
    (hpass : ∀ call ∈ calls, refuse call.effect call.session = none) :
    Code.Runs (guarded refuse handler) turns effects code session calls (Run.unrefused result) := by
  induction h with
  | exhausted => exact .exhausted
  | stuck advance => exact .stuck advance
  | finished advance => exact .finished advance
  | @refused _ _ _ _ _ _ _ failure => cases failure
  | struck advance call =>
    exact .struck advance (answering_error call (hpass _ List.mem_cons_self))
  | misanswered advance call taken =>
    obtain ⟨value, heq, hcall⟩ := answering_ok call (hpass _ List.mem_cons_self)
    cases heq
    exact .misanswered advance hcall taken
  | answered advance call taken _ ih =>
    obtain ⟨value, heq, hcall⟩ := answering_ok call (hpass _ List.mem_cons_self)
    cases heq
    have hrest := ih fun call hmem => hpass call (List.mem_cons_of_mem _ hmem)
    exact .answered advance hcall taken hrest

/-- A call that is refused is the last one. -/
theorem refused_at {asked : Session K} {waiting : Waiting S} {refusal : Refusal}
    (advance : code.advance turns session = .ok (.waiting waiting) asked)
    (hrefuse : refuse waiting.effect asked = some refusal) :
    Code.Runs (guarded refuse handler) (turns + 1) effects code session [⟨waiting.effect, asked⟩]
      (.ok (.error refusal) (asked.told (.handlerFailed (effects + 1)))) :=
  .refused advance (by rw [guarded, hrefuse])

/-- **A run ends at the first call that is refused**, in the session of this call. -/
theorem guarded_refuse {earlier later : List (Call K S.Effect)} {call : Call K S.Effect}
    {refusal : Refusal} (h : Code.Runs (answering handler) turns effects code session calls result)
    (hcalls : calls = earlier ++ call :: later)
    (hpass : ∀ call ∈ earlier, refuse call.effect call.session = none)
    (hrefuse : refuse call.effect call.session = some refusal) :
    Code.Runs (guarded refuse handler) turns effects code session (earlier ++ [call])
      (.ok (.error refusal)
        (call.session.told (.handlerFailed (effects + earlier.length + 1)))) := by
  induction h generalizing earlier with
  | exhausted | stuck | finished => simp at hcalls
  | refused advance | struck advance | misanswered advance =>
    obtain ⟨rfl, heq⟩ := List.append_eq_singleton_iff.mp hcalls.symm |>.resolve_right (by simp)
    obtain ⟨rfl, -⟩ := List.cons.inj heq
    exact refused_at advance hrefuse
  | answered advance hcall taken _ ih =>
    cases earlier with
    | nil =>
      obtain ⟨rfl, -⟩ := List.cons.inj hcalls
      exact refused_at advance hrefuse
    | cons first earlier =>
      obtain ⟨rfl, hrest⟩ := List.cons.inj hcalls
      obtain ⟨value, heq, hguarded⟩ := answering_ok hcall (hpass _ List.mem_cons_self)
      cases heq
      have hlast := ih hrest fun other hmem => hpass other (List.mem_cons_of_mem _ hmem)
      have hcount : ∀ n, n + 1 + earlier.length + 1 = n + (earlier.length + 1) + 1 := by
        intro n
        omega
      rw [hcount] at hlast
      exact .answered advance hguarded taken hlast

end Code.Runs

theorem Program.ended_unrefused
    (result : EStateM.Result (Halt S) (Session K) (Except Empty (Packed S))) :
    Program.ended type (Run.unrefused result : EStateM.Result _ _ (Except Refusal _)) =
      Run.unrefused (Program.ended type result) := by
  match result with
  | .error halt last => rfl
  | .ok (.ok value) last =>
    dsimp only [Run.unrefused, ended]
    cases value.unpack type .result <;> rfl

section Guarded

variable {turns : Nat} {program : Program S type} {handler : S.Effect → Run K (Packed S)}
  {refuse : S.Effect → Session K → Option Refusal} {session : Session K}

/-- A program none of whose calls are refused runs as it does without refusals. -/
theorem Program.tryRunIn_guarded_pass
    (hpass : ∀ call ∈ program.calls turns (answering handler : Handler K Empty) session,
      refuse call.effect call.session = none) :
    program.tryRunIn turns (guarded refuse handler) session =
      Run.unrefused (program.tryRunIn turns (answering handler) session) := by
  have hruns := Code.runs (answering handler : Handler K Empty) turns 0 program.code
    (session.told (.enter .run))
  have hguarded := (hruns.guarded_pass hpass).eq.2
  rw [Program.tryRunIn_eq_ended, hguarded, Program.tryRunIn_eq_ended, ended_unrefused]

/-- A program ends at its first call that is refused. -/
theorem Program.tryRunIn_guarded_refuse {earlier later : List (Call K S.Effect)}
    {call : Call K S.Effect} {refusal : Refusal}
    (hcalls : program.calls turns (answering handler : Handler K Empty) session
      = earlier ++ call :: later)
    (hpass : ∀ call ∈ earlier, refuse call.effect call.session = none)
    (hrefuse : refuse call.effect call.session = some refusal) :
    program.tryRunIn turns (guarded refuse handler) session = .ok (.error refusal)
      ((call.session.told (.handlerFailed (earlier.length + 1))).told (.leave .run)) := by
  have hruns := Code.runs (answering handler : Handler K Empty) turns 0 program.code
    (session.told (.enter .run))
  have hguarded := (hruns.guarded_refuse hcalls hpass hrefuse).eq.2
  rw [Program.tryRunIn_eq_ended, hguarded, ended, Nat.zero_add]

end Guarded

/-! ## 3. Hosts that take no note of functions -/

/-- The host with itself; one state has come no less far than another if it is the same. -/
def Host.still (K : Host S) (heedless : K.Heedless) : Pact K K :=
  { K.equal fun _ => True with
    since := fun t s => s = t
    since_hosts := id
    since_observe := by
      rintro s _ callback rfl
      exact heedless callback s }

theorem Pact.Grows.host_eq {heedless : K.Heedless} {good : α → Prop} {work : Run K α}
    (h : (K.still heedless).Grows good work) (session : Session K) :
    (Run.last (work session)).host = session.host := by
  have hwork := h session.host session rfl
  cases hresult : work session with
  | ok a last =>
    rw [hresult] at hwork
    exact hwork.1
  | error halt last =>
    rw [hresult] at hwork
    exact hwork

theorem Host.Heedless.advance (heedless : K.Heedless) {turns : Nat} {code : Code S}
    {session : Session K} {result : EStateM.Result (Halt S) (Session K) (Stop S)}
    (h : code.advance turns session = result) : (Run.last result).host = session.host := by
  subst h
  exact (Pact.Grows.advance turns code : (K.still heedless).Grows _ _).host_eq session

theorem Host.Heedless.answer (heedless : K.Heedless) {waiting : Waiting S} {answer : Packed S}
    {session : Session K} {result : EStateM.Result (Halt S) (Session K) (Code S)}
    (h : waiting.answer answer session = result) : (Run.last result).host = session.host := by
  subst h
  exact (Pact.Grows.answer waiting answer : (K.still heedless).Grows _ _).host_eq session

/-- From one state of the host to another by calls of the function alone. -/
inductive Call.Chain (function : E → Run K β) : K.State → List (Call K E) → K.State → Prop
  | nil (host : K.State) : Chain function host [] host
  | cons {first last : K.State} {call : Call K E} {calls : List (Call K E)}
    (asked : call.session.host = first)
    (rest : Chain function (Run.last (function call.effect call.session)).host calls last) :
    Chain function first (call :: calls) last

namespace Call.Chain

variable {function : E → Run K β} {first last : K.State} {calls : List (Call K E)}

/-- What the calls keep is so at each of them and in the end. -/
theorem keeps (kept : K.State → Prop)
    (hkept : ∀ effect session, kept session.host → kept (Run.last (function effect session)).host)
    (h : Chain function first calls last) (hfirst : kept first) :
    kept last ∧ ∀ call ∈ calls, kept call.session.host := by
  induction h with
  | nil host => exact ⟨hfirst, by simp⟩
  | @cons _ last call calls asked _ ih =>
    subst asked
    obtain ⟨hlast, hcalls⟩ := ih (hkept call.effect call.session hfirst)
    refine ⟨hlast, fun other hother => ?_⟩
    rcases List.mem_cons.mp hother with rfl | hother
    · exact hfirst
    · exact hcalls other hother

/-- Up to a call there are the calls before it. -/
theorem before {earlier later : List (Call K E)} {call : Call K E}
    (h : Chain function first (earlier ++ call :: later) last) :
    Chain function first earlier call.session.host := by
  induction earlier generalizing first with
  | nil =>
    cases h with
    | cons asked _ => exact asked ▸ .nil _
  | cons other earlier ih =>
    cases h with
    | cons asked rest => exact .cons asked (ih rest)

end Call.Chain

/-- **The state of the host goes from call to call**, and nothing else changes it. -/
theorem Code.Runs.chain (heedless : K.Heedless) {handler : Handler K Failure} {turns effects : Nat}
    {code : Code S} {session : Session K} {calls : List (Call K S.Effect)}
    {result : EStateM.Result (Halt S) (Session K) (Except Failure (Packed S))}
    (h : Code.Runs handler turns effects code session calls result) :
    Call.Chain handler session.host calls (Run.last result).host := by
  induction h with
  | exhausted => exact .nil _
  | stuck advance | finished advance =>
    rw [← heedless.advance advance]
    exact .nil _
  | refused advance call | struck advance call =>
    refine .cons (heedless.advance advance) ?_
    rw [call]
    exact .nil _
  | misanswered advance call taken =>
    refine .cons (heedless.advance advance) ?_
    rw [call, Run.last_ok, ← heedless.answer taken]
    exact .nil _
  | answered advance call taken _ ih =>
    refine .cons (heedless.advance advance) ?_
    rw [call, Run.last_ok, ← heedless.answer taken]
    exact ih

/-- So it does in a run of a program. -/
theorem Program.tryRunIn_chain (heedless : K.Heedless) (turns : Nat) (program : Program S type)
    (handler : Handler K Failure) (session : Session K) :
    Call.Chain handler session.host (program.calls turns handler session)
      (Run.last (program.tryRunIn turns handler session)).host := by
  rw [Program.tryRunIn_eq_ended, Program.last_ended]
  exact (Code.runs handler turns 0 program.code (session.told (.enter .run))).chain heedless

end FreePrograms
