/-
# The first refusal ends a run

A handler that may refuse is set beside one that never does, and that does the same wherever the
first one answers (`StandsIn`).  A run with the first handler makes the calls that a run with the
second one makes, in the same sessions, until a call is refused (`Code.Runs.calls_prefix`).

A call that is refused is the last one.  The refusal is the result of the run, and the session is as
that call left it but for two events that are told (`Code.Runs.of_refused`).  If no call is refused,
the run with the second handler does the same to its end (`Code.Runs.unrefused`).

A session has in it the state of the host, with whatever the host noted of the functions that were
applied, the table of tails, and the number of frames that were taken off.  So nothing is applied
between the refusal and the end of the run, and no tail is asked for.
-/
import FreePrograms.Proofs.Run.Calls
import FreePrograms.Proofs.Tree.Ways

namespace FreePrograms

variable {S : Signature} {K : Host S} {type : S.Ty} {Failure : Type}

/-- The second handler answers whatever the first one answers, and changes the session as it
does. -/
def StandsIn (handler : Handler K Failure) (obliging : S.Effect → Run K (Packed S)) : Prop :=
  ∀ effect session answer last,
    handler effect session = .ok (.ok answer) last → obliging effect session = .ok answer last

/-- What the handler makes of the call. -/
def Call.outcome (call : Call K S.Effect) (handler : Handler K Failure) :
    EStateM.Result (Halt S) (Session K) (Except Failure (Packed S)) :=
  handler call.effect call.session

/-! ## 1. Runs side by side -/

namespace Code

variable {turns : Nat} {code : Code S} {session asked : Session K} {waiting : Waiting S}

/-- The effect at which a code stops is asked for first. -/
theorem calls_asked (handler : Handler K Failure)
    (advance : code.advance turns session = .ok (.waiting waiting) asked) :
    ∃ later, code.calls handler (turns + 1) session = ⟨waiting.effect, asked⟩ :: later := by
  rw [calls, advance]
  exact ⟨_, rfl⟩

/-- After an answer that is taken come the calls of the code that took it. -/
theorem calls_answered {handler : Handler K Failure} {answer : Packed S} {next : Code S}
    {answered onward : Session K}
    (advance : code.advance turns session = .ok (.waiting waiting) asked)
    (call : handler waiting.effect asked = .ok (.ok answer) answered)
    (taken : waiting.answer answer answered = .ok next onward) :
    code.calls handler (turns + 1) session
      = ⟨waiting.effect, asked⟩ :: next.calls handler turns onward := by
  rw [calls, advance]
  dsimp only [Waiting.serve]
  rw [bind_of_ok call]
  dsimp only
  rw [bind_of_ok taken]
  rfl

end Code

/-- An answer of the second handler, as one that could have been refused. -/
theorem answering_of_ok {Refusal : Type} {obliging : S.Effect → Run K (Packed S)}
    {effect : S.Effect} {session last : Session K} {answer : Packed S}
    (h : obliging effect session = .ok answer last) :
    (answering obliging : Handler K Refusal) effect session = .ok (.ok answer) last :=
  bind_of_ok h

namespace Code.Runs

variable {turns effects : Nat} {code : Code S} {session : Session K}
  {calls : List (Call K S.Effect)} {handler : Handler K Failure}
  {obliging : S.Effect → Run K (Packed S)}
  {result : EStateM.Result (Halt S) (Session K) (Except Failure (Packed S))}

/-- **The calls of a run are the first ones of the run that is never refused.** -/
theorem calls_prefix (stands : StandsIn handler obliging)
    (h : Code.Runs handler turns effects code session calls result) :
    calls <+: code.calls (answering obliging : Handler K Empty) turns session := by
  induction h with
  | exhausted | stuck advance | finished advance => exact List.nil_prefix
  | refused advance | struck advance | misanswered advance =>
    obtain ⟨later, hcalls⟩ := calls_asked (answering obliging : Handler K Empty) advance
    rw [hcalls]
    exact List.cons_prefix_cons.mpr ⟨rfl, List.nil_prefix⟩
  | answered advance call taken _ ih =>
    rw [calls_answered advance (answering_of_ok (stands _ _ _ _ call)) taken]
    exact List.cons_prefix_cons.mpr ⟨rfl, ih⟩

/-- **A call that is refused ends the run.**  All calls before it were answered. -/
theorem of_refused {call : Call K S.Effect} {failure : Failure} {last : Session K}
    (h : Code.Runs handler turns effects code session calls result) (hmem : call ∈ calls)
    (hrefused : call.outcome handler = .ok (.error failure) last) :
    ∃ earlier, calls = earlier ++ [call] ∧
      (∀ other ∈ earlier, ∃ answer after, other.outcome handler = .ok (.ok answer) after) ∧
      result = .ok (.error failure) (last.told (.handlerFailed (effects + calls.length))) := by
  induction h with
  | exhausted | stuck advance | finished advance => cases hmem
  | refused advance hcall =>
    obtain rfl := List.mem_singleton.mp hmem
    cases hcall.symm.trans hrefused
    exact ⟨[], rfl, by simp, rfl⟩
  | struck advance hcall | misanswered advance hcall =>
    obtain rfl := List.mem_singleton.mp hmem
    cases hcall.symm.trans hrefused
  | @answered _ effects _ _ _ _ _ _ _ _ calls _ advance hcall taken _ ih =>
    rcases List.mem_cons.mp hmem with rfl | hmem
    · cases hcall.symm.trans hrefused
    · obtain ⟨earlier, rfl, hearlier, rfl⟩ := ih hmem
      have hcount : effects + 1 + (earlier ++ [call]).length
          = effects + (earlier ++ [call]).length.succ := by omega
      refine ⟨_ :: earlier, rfl, ?_, by rw [hcount]; rfl⟩
      intro other hother
      rcases List.mem_cons.mp hother with rfl | hother
      · exact ⟨_, _, hcall⟩
      · exact hearlier other hother

/-- A run that ends with a refusal had it from a call. -/
theorem exists_refused {failure : Failure} {final : Session K}
    (h : Code.Runs handler turns effects code session calls (.ok (.error failure) final)) :
    ∃ call ∈ calls, ∃ last, call.outcome handler = .ok (.error failure) last := by
  generalize hresult : (EStateM.Result.ok (.error failure) final :
    EStateM.Result (Halt S) (Session K) (Except Failure (Packed S))) = result at h
  induction h with
  | exhausted | stuck | finished | struck | misanswered => cases hresult
  | refused advance hcall =>
    cases hresult
    exact ⟨_, List.mem_cons_self, _, hcall⟩
  | answered _ _ _ _ ih =>
    obtain ⟨call, hmem, hcall⟩ := ih hresult
    exact ⟨call, List.mem_cons_of_mem _ hmem, hcall⟩

/-- **A run none of whose calls is refused** is a run with the second handler, if this one halts
where the first one does. -/
theorem unrefused (stands : StandsIn handler obliging)
    (h : Code.Runs handler turns effects code session calls result)
    (hpass : ∀ call ∈ calls, ∀ failure last, call.outcome handler ≠ .ok (.error failure) last)
    (hhalts : ∀ call ∈ calls, ∀ halt last, call.outcome handler = .error halt last →
      obliging call.effect call.session = .error halt last) :
    ∃ plain, result = Run.unrefused plain ∧
      Code.Runs (answering obliging : Handler K Empty) turns effects code session calls plain := by
  induction h with
  | exhausted => exact ⟨.error _ _, rfl, .exhausted⟩
  | stuck advance => exact ⟨.error _ _, rfl, .stuck advance⟩
  | finished advance => exact ⟨.ok (.ok _) _, rfl, .finished advance⟩
  | refused advance call => exact absurd call (hpass _ List.mem_cons_self _ _)
  | struck advance call =>
    have hcall := hhalts _ List.mem_cons_self _ _ call
    exact ⟨.error _ _, rfl, .struck advance (bind_of_error hcall)⟩
  | misanswered advance call taken =>
    exact ⟨.error _ _, rfl,
      .misanswered advance (answering_of_ok (stands _ _ _ _ call)) taken⟩
  | answered advance call taken _ ih =>
    obtain ⟨plain, hplain, hruns⟩ := ih
      (fun other hother => hpass other (List.mem_cons_of_mem _ hother))
      (fun other hother => hhalts other (List.mem_cons_of_mem _ hother))
    exact ⟨plain, hplain, .answered advance (answering_of_ok (stands _ _ _ _ call)) taken hruns⟩

end Code.Runs

/-- A run that cannot be refused, where there can be refusals. -/
theorem Program.unrefused_tryRunIn (turns : Nat) (program : Program S type)
    (obliging : S.Effect → Run K (Packed S)) (session : Session K) :
    (Run.unrefused (program.tryRunIn turns (answering obliging) session) :
        EStateM.Result _ _ (Except Failure (S.El type)))
      = (do return .ok (← program.runIn turns obliging) : Run K (Except Failure (S.El type)))
          session := by
  have haccepted := program.runIn_eq_accepted turns obliging session
  match hresult : program.tryRunIn turns (answering obliging : Handler K Empty) session with
  | .ok (.ok value) last =>
    rw [hresult, Run.accepted] at haccepted
    rw [bind_of_ok haccepted]
    rfl
  | .error halt last =>
    rw [hresult, Run.accepted] at haccepted
    rw [bind_of_error haccepted]
    rfl

/-- A program is refused only what its code was refused. -/
theorem Program.refused_of_ended {failure : Failure} {final : Session K}
    {result : EStateM.Result (Halt S) (Session K) (Except Failure (Packed S))}
    (h : Program.ended type result = .ok (.error failure) final) :
    ∃ last, result = .ok (.error failure) last := by
  rcases result with ⟨other | value, last⟩ | ⟨halt, last⟩
  · cases h
    exact ⟨last, rfl⟩
  · rw [Program.ended] at h
    split at h <;> cases h
  · cases h

/-! ## 2. Programs -/

/-- **The first refusal ends a run.**  Take any program, any session and any handler that may
refuse, and one beside it that never refuses and does the same wherever the first one answers.

The calls of the first handler are the first calls of the second one, for the same effects in the
same sessions.  A call that is refused is the last one, and all before it were answered; the result
of the run is this refusal, and the session is the one that this call left, where two events are
told and nothing else happens.  A refusal that is the result came from a call.

If no call is refused, and the second handler halts where the first one does, the two runs make the
same calls and come to the same result in the same session. -/
theorem Program.ends_at_refusal (turns : Nat) (program : Program S type)
    {handler : Handler K Failure} {obliging : S.Effect → Run K (Packed S)}
    (stands : StandsIn handler obliging) (session : Session K) :
    program.calls turns handler session
        <+: program.calls turns (answering obliging : Handler K Empty) session ∧
    (∀ call ∈ program.calls turns handler session, ∀ failure last,
      call.outcome handler = .ok (.error failure) last →
        ∃ earlier, program.calls turns handler session = earlier ++ [call] ∧
          (∀ other ∈ earlier, ∃ answer after, other.outcome handler = .ok (.ok answer) after) ∧
          program.tryRunIn turns handler session = .ok (.error failure)
            ((last.told (.handlerFailed (earlier.length + 1))).told (.leave .run))) ∧
    (∀ failure final, program.tryRunIn turns handler session = .ok (.error failure) final →
      ∃ call ∈ program.calls turns handler session, ∃ last,
        call.outcome handler = .ok (.error failure) last) ∧
    ((∀ call ∈ program.calls turns handler session, ∀ failure last,
        call.outcome handler ≠ .ok (.error failure) last) →
      (∀ call ∈ program.calls turns handler session, ∀ halt last,
        call.outcome handler = .error halt last →
          obliging call.effect call.session = .error halt last) →
      program.calls turns handler session
          = program.calls turns (answering obliging : Handler K Empty) session ∧
        program.tryRunIn turns handler session
          = (do return .ok (← program.runIn turns obliging) : Run K (Except Failure (S.El type)))
              session) := by
  have hruns := Code.runs handler turns 0 program.code (session.told (.enter .run))
  refine ⟨hruns.calls_prefix stands, ?_, ?_, ?_⟩
  · intro call hmem failure last hrefused
    obtain ⟨earlier, hcalls, hearlier, hresult⟩ := hruns.of_refused hmem hrefused
    rw [Nat.zero_add, hcalls, List.length_append, List.length_singleton] at hresult
    refine ⟨earlier, hcalls, hearlier, ?_⟩
    rw [Program.tryRunIn_eq_ended, hresult, Program.ended]
  · intro failure final hfinal
    rw [Program.tryRunIn_eq_ended] at hfinal
    obtain ⟨last, hlast⟩ := Program.refused_of_ended hfinal
    rw [hlast] at hruns
    exact hruns.exists_refused
  · intro hpass hhalts
    obtain ⟨plain, hplain, hobliging⟩ := hruns.unrefused stands hpass hhalts
    obtain ⟨hcalls, hresult⟩ := hobliging.eq
    refine ⟨hcalls.symm, ?_⟩
    rw [Program.tryRunIn_eq_ended, hplain, Program.ended_unrefused, ← hresult,
      ← Program.tryRunIn_eq_ended, Program.unrefused_tryRunIn]

/-- Does every job, also when there is none that it would still do. -/
def oblige : Jobs.Effect → Hosted busyHost (Packed Jobs.signature) := fun _ jobs =>
  .ok Jobs.unitAnswer (jobs - 1)

/-- It does the same as the one that tires, where that one does the job. -/
theorem tire_oblige : StandsIn tire.noting.onSession
    (onSessions (K := busyHost.noting) (noted (K := busyHost) oblige)) := by
  rintro effect ⟨memo, schedule, pops, events, jobs, journal⟩ answer last hanswer
  cases jobs with
  | zero => cases hanswer
  | succ jobs =>
    cases hanswer
    rfl

/-- The third job is refused, and a host that does every job has done the same up to there. -/
theorem busy_ends_at_third : ∃ enough, ∀ turns, enough ≤ turns → ∃ earlier call last,
    busy.1.calls turns tire.noting.onSession (.startAt busy.2 (2, [])) = earlier ++ [call] ∧
    earlier ++ [call] <+: busy.1.calls turns
      (answering (onSessions (K := busyHost.noting) (noted (K := busyHost) oblige)) :
        Handler busyHost.noting Empty) (.startAt busy.2 (2, [])) ∧
    call.outcome tire.noting.onSession = .ok (.error "tired") last ∧
    last.host = (0, [.handled .job1, .applied (.kept 0), .handled .job1, .applied (.kept 0),
      .handled .job1]) := by
  have hrun : busyTree.runIn 2 busyTrees tire.noting (2, [])
      = .ok (.error "tired") (0, [.handled .job1, .applied (.kept 0), .handled .job1,
        .applied (.kept 0), .handled .job1]) := rfl
  obtain ⟨enough, h⟩ := (busy_standsFor 2).tryRunIn_eq tire.noting
    (.inr fun host h => by cases hrun.symm.trans h)
  refine ⟨enough, fun turns hturns => ?_⟩
  have hhost := (h turns hturns).trans hrun
  obtain ⟨hfirst, hlast, hcall, -⟩ :=
    Program.ends_at_refusal turns busy.1 tire_oblige (.startAt busy.2 (2, []))
  cases hresult : busy.1.tryRunIn turns tire.noting.onSession (.startAt busy.2 (2, [])) with
  | error halt final =>
    rw [hresult] at hhost
    cases hhost
  | ok result final =>
    rw [hresult] at hhost
    obtain ⟨rfl, hfinal⟩ := EStateM.Result.ok.inj hhost
    obtain ⟨call, hmem, last, hrefused⟩ := hcall _ _ hresult
    obtain ⟨earlier, hcalls, -, hend⟩ := hlast call hmem _ _ hrefused
    cases hresult.symm.trans hend
    exact ⟨earlier, call, last, hcalls, hcalls ▸ hfirst, hrefused, hfinal⟩

end FreePrograms
