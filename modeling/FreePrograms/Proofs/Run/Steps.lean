/-
# Steps of a run on a session

What a computation does on a given session is read off here, one step at a time: the first of two
steps gives a value or halts, a step that makes a program takes its names or fails, and a span only
tells that it is entered and left.
-/
import FreePrograms.Run.Hosted

namespace FreePrograms

variable {S : Signature} {K : Host S} {α β Failure : Type} {a : S.Ty}

section Bind

variable {ε σ : Type} {work : EStateM ε σ α} {next : α → EStateM ε σ β} {s s' : σ}

theorem bind_of_ok {a : α} (h : work s = .ok a s') : (work >>= next) s = next a s' := by
  change EStateM.bind work next s = next a s'
  rw [EStateM.bind, h]

theorem bind_of_error {e : ε} (h : work s = .error e s') : (work >>= next) s = .error e s' := by
  change EStateM.bind work next s = .error e s'
  rw [EStateM.bind, h]

end Bind

/-- The session as a run leaves it. -/
def Run.last : EStateM.Result (Halt S) (Session K) α → Session K
  | .ok _ session => session
  | .error _ session => session

@[simp] theorem Run.last_ok (a : α) (session : Session K) :
    Run.last (.ok a session : EStateM.Result (Halt S) (Session K) α) = session := rfl

@[simp] theorem Run.last_error (halt : Halt S) (session : Session K) :
    Run.last (.error halt session : EStateM.Result (Halt S) (Session K) α) = session := rfl

/-- The host takes no note of the functions applied. -/
def Host.Heedless (K : Host S) : Prop := ∀ callback host, K.observe callback host = host

/-- A computation of the host goes on as one on sessions. -/
theorem Run.hosted_bind (work : Hosted K α) (next : α → Hosted K β) :
    Run.hosted (work >>= next) = Run.hosted work >>= fun a => Run.hosted (next a) := by
  funext session
  cases h : work session.host with
  | ok a host =>
    have hsession : Run.hosted work session = .ok a { session with host := host } := by
      rw [Run.hosted, h]
    rw [bind_of_ok hsession, Run.hosted, bind_of_ok h]
    rfl
  | error halt host =>
    have hsession : Run.hosted work session = .error halt { session with host := host } := by
      rw [Run.hosted, h]
    rw [bind_of_error hsession, Run.hosted, bind_of_error h]

/-- Steps that made something, on a session. -/
theorem Run.building_of_ok {steps : Building S α} {made : α} {next : Cell}
    {session : Session K} (h : steps session.memo.next = .ok (made, next)) :
    Run.building steps session
      = .ok made { session with memo := { session.memo with next := next } } := by
  obtain ⟨⟨first, tails, collapses⟩, schedule, pops, events, host⟩ := session
  have hsteps : steps first = .ok (made, next) := h
  rw [Run.building, hsteps]

theorem Run.building_of_error {steps : Building S α} {halt : Halt S}
    {session : Session K} (h : steps session.memo.next = .error halt) :
    (Run.building steps : Run K α) session = .error halt session := by
  obtain ⟨⟨first, tails, collapses⟩, schedule, pops, events, host⟩ := session
  have hsteps : steps first = .error halt := h
  rw [Run.building, hsteps]

/-- The session once an event was told. -/
def Session.told (session : Session K) (event : Event) : Session K :=
  { session with events := session.events.push event }

/-- The session once the host noted a function. -/
def Session.observed (session : Session K) (callback : Callback S) : Session K :=
  { session with host := K.observe callback session.host }

/-- The session once names were taken up to the given one. -/
def Session.named (session : Session K) (next : Cell) : Session K :=
  { session with memo := { session.memo with next := next } }

/-- **A span only tells** that it is entered and left. -/
theorem Run.inside_eq (span : Span) (work : Run K α) (session : Session K) :
    Run.inside span work session =
      match work (session.told (.enter span)) with
      | .ok a session => .ok a (session.told (.leave span))
      | .error halt session => .error halt (session.told (.leave span)) := by
  have hattempt : Run.attempt work (session.told (.enter span)) =
      match work (session.told (.enter span)) with
      | .ok a session => .ok (.ok a) session
      | .error halt session => .ok (.error halt) session := rfl
  have hinside : Run.inside span work session = (do
      let result ← attempt work
      tell (.leave span)
      result : Run K α) (session.told (.enter span)) := rfl
  rw [hinside]
  cases h : work (session.told (.enter span)) with
  | ok a session' =>
    rw [h] at hattempt
    rw [bind_of_ok hattempt]
    rfl
  | error halt session' =>
    rw [h] at hattempt
    rw [bind_of_ok hattempt]
    rfl

theorem Run.last_inside (span : Span) (work : Run K α) (session : Session K) :
    Run.last (Run.inside span work session) =
      (Run.last (work (session.told (.enter span)))).told (.leave span) := by
  rw [Run.inside_eq]
  cases work (session.told (.enter span)) <;> rfl

/-- A value that comes out of a span came in it. -/
theorem Run.exists_of_inside {span : Span} {work : Run K α} {session last : Session K} {a : α}
    (h : Run.inside span work session = .ok a last) :
    ∃ middle, work (session.told (.enter span)) = .ok a middle := by
  rw [Run.inside_eq] at h
  cases hwork : work (session.told (.enter span)) with
  | ok b middle =>
    rw [hwork] at h
    cases h
    exact ⟨middle, rfl⟩
  | error halt middle =>
    rw [hwork] at h
    cases h

/-- What a turn of a run with a handler does once the program stopped. -/
def Code.serve (handler : Handler K Failure) (turns effects : Nat) :
    Stop S → Run K (Except Failure (Packed S))
  | .finished value => do
    Run.tell (.programFinished effects)
    return .ok value
  | .waiting waiting => do
    match ← handler waiting.effect with
    | .ok answer =>
      let code ← waiting.answer answer
      code.handle handler turns (effects + 1)
    | .error failure =>
      Run.tell (.handlerFailed (effects + 1))
      return .error failure

theorem Code.handle_succ (handler : Handler K Failure) (turns effects : Nat) (code : Code S) :
    code.handle handler (turns + 1) effects
      = code.advance turns >>= Code.serve handler turns effects := by
  rw [Code.handle]
  refine bind_congr ?_
  intro stop
  cases stop with
  | finished value => rfl
  | waiting waiting => rfl

/-- The end of a whole run: its value at the type of the program. -/
def Program.unpacked (a : S.Ty) : Except Failure (Packed S) → Run K (Except Failure (S.El a))
  | .ok value => do return .ok (← value.unpack a .result)
  | .error failure => return .error failure

theorem Program.tryRunIn_eq (turns : Nat) (program : Program S a) (handler : Handler K Failure) :
    program.tryRunIn turns handler
      = Run.inside .run (program.code.handle handler turns 0 >>= Program.unpacked a) := by
  refine congrArg (Run.inside .run) (bind_congr ?_)
  intro result
  cases result with
  | ok value => rfl
  | error failure => rfl

/-- The handler that answers every effect, as one that could refuse. -/
def answering (handler : S.Effect → Run K (Packed S)) : Handler K Failure :=
  fun effect => return .ok (← handler effect)

/-- The value, where no refusal is possible. -/
def Program.accepted {α : Type} : Except Empty α → Run K α
  | .ok value => return value

/-- A run with a handler that answers every effect is one with that handler as one that could
refuse. -/
theorem Program.runIn_eq (turns : Nat) (program : Program S a)
    (handler : S.Effect → Run K (Packed S)) :
    program.runIn turns handler = program.tryRunIn turns (answering handler) >>= accepted := by
  refine bind_congr ?_
  intro result
  cases result with
  | ok value => rfl
  | error failure => cases failure

end FreePrograms
