/-
# The account of a run

What a run tells is one account: it enters its span, tells what its functions tell, one call after
the other, tells its end, and leaves the span.  The end is told once if the run gives a value, and
not at all if it halts; it says how many calls the run made itself.  What was shown of each kind of
run is put together here (`Program.tells_one_end`).

Only of a run that halts at a mismatch of its result, after the end was told, something more has to
be asked: that the program is proper, so that there can be no such halt.  Programs on the shelf of a
client are, with clients as their handlers (`World.Beside.proper`).
-/
import FreePrograms.Jobs.Workshop
import FreePrograms.Proofs.Clients.Apart
import FreePrograms.Proofs.Events.Nesting

namespace FreePrograms

variable {S : Signature} {K : Host S} {type : S.Ty}

/-! ## 1. Programs that are proper -/

/-- **With a handler of the host** the run of a program of a tree tells its end and nothing else. -/
theorem Program.Follows.tells_end_only {Failure : Type} {ledger : Ledger (Frame S)}
    {program : Program S type} {tree : Tree S type} {trees : Trees S} {session : Session K}
    (follows : program.Follows ledger tree) (keeps : K.Keeps ledger trees)
    (agrees : session.memo.Agrees ledger) (handler : HostHandler K Failure) (turns : Nat) :
    Run.Spanned .run [] (handledEnd (program.calls turns handler.onSession session).length) session
      (program.tryRunIn turns handler.onSession session) := by
  have hsilent : ∀ effect, Run.Tells .silent Any (handler.onSession effect) :=
    fun effect => .hosted (handler effect)
  have hproper : program.Proper handler.onSession session :=
    follows.proper keeps agrees fun effect =>
      .hosted (fun _ _ _ _ => trivial) ledger ledger
  have htold : (program.calls turns handler.onSession session).flatMap
      (Call.told handler.onSession) = [] :=
    Manner.silent.flatMap fun call _ => (hsilent call.effect).call.1
  rw [← htold]
  exact Program.tryRunIn_adds hsilent fun _ _ => hproper

/-- **A program on the shelf is proper** with a client as its handler.  The worlds together and
apart go together, as they do in whatever a client does (`Client.perform_abreast`). -/
theorem World.Beside.proper {σ Failure : Type} {kept : List ((type : S.Ty) × Program S type)}
    {base ledger : Ledger (Frame S)} {session : Session (Host.together σ kept)}
    {world' : (Host.apart σ kept).State} (together : World.Beside base ledger session.host world')
    (keeps : (Setting.pact σ kept base).Keeps base base) (first : base <+: ledger)
    (agrees : session.memo.Agrees ledger) {place : Nat} {program : Program S type}
    (hplace : session.host.programs.item place = some ⟨type, program⟩) (turns : Nat)
    (handler : S.Effect → Client S σ (Except Failure (Packed S))) :
    program.Proper (fun effect => do
      Setting.noteEffect effect
      (handler effect).perform (Setting.together σ kept turns) turns) session := by
  have hitem := together.programs.item place
  rw [hplace] at hitem
  generalize world'.programs.item place = item' at hitem
  cases hitem with
  | @some _ _ tree follows =>
    obtain ⟨own, given, -, follows'⟩ := tree.build_follows base
    have hcodes := follows.codes_same follows'
    have hagrees : (⟨own.length, {}, 0⟩ : Memo (Frame S)).Agrees own :=
      Memo.agrees_empty.mono List.nil_prefix
    have hsteady : ∀ effect, (Setting.pact σ kept base).Steady .equal ledger own _ _ :=
      fun effect => Setting.noted_steady effect fun hlater =>
        (handler effect).perform_abreast keeps turns (first.trans hlater)
    have hwhole : ∀ halt host, ¬ (Setting.pact σ kept base).breaks halt host := fun _ _ h => h
    have htogether : (Setting.pact σ kept base).hosts ledger session.host
        ({ Session.startAt 0 world' with memo := ⟨own.length, {}, 0⟩ } :
          Session (Host.apart σ kept)).host := together
    exact .intro hwhole (keeps.mono first given) hcodes hsteady agrees hagrees htogether

/-! ## 2. The accounts -/

/-- **A run tells one end of its own, in its own span.**  Functions that are handed in can tell
whatever they like, as long as they do not take back what was told; in what manner they tell can
then be said of what the run tells between the bounds of its span.

A run with a handler tells in its span what the handler told in each call, and last its end with the
number of these calls: that the program finished if it gives a value, that the handler failed if it
gives a refusal, and nothing if it halts.  So it is if the handler cannot refuse.  Steps that are
driven tell in their span what each turn told, and last that they finished, with the number of steps
that were forced there, if they give a value.  Runs that a handler makes inside are runs too: they
have an account of their own, which is a part of what the handler told, and their calls are not
among the calls counted here.

A fold tells nothing but what its functions tell, and so does a fold into steps.  A fold that is
driven, or that makes a deferred computation, tells nothing more than that its span is entered and
left.

Spans are entered and left in pairs, also if a run halts, and each end is told last of all in a span
of its kind, where all that was entered inside is left (`Orderly`).  So it is in every interpreter
if it is so of the functions, and in everything that a client does, whose functions make programs,
run them and catch halts to any depth. -/
theorem Program.tells_one_end (turns : Nat) (program : Program S type) (session : Session K) :
    (∀ {Failure : Type} (manner : Manner) (handler : Handler K Failure),
      (∀ effect, Run.Tells manner Any (handler effect)) →
      (∀ last, program.tryRunIn turns handler session = .error (.mismatch .result type) last →
        program.Proper handler session) →
      let calls := program.calls turns handler session
      manner.Fits (calls.flatMap (Call.told handler)) ∧
        Run.Spanned .run (calls.flatMap (Call.told handler)) (handledEnd calls.length) session
          (program.tryRunIn turns handler session)) ∧
    (∀ (manner : Manner) (handler : S.Effect → Run K (Packed S)),
      (∀ effect, Run.Tells manner Any (handler effect)) →
      (∀ last, program.runIn turns handler session = .error (.mismatch .result type) last →
        program.Proper (answering handler : Handler K Empty) session) →
      let calls := program.calls turns (answering handler : Handler K Empty) session
      manner.Fits (calls.flatMap (Call.told handler)) ∧
        Run.Spanned .run (calls.flatMap (Call.told handler))
          (fun _ => .programFinished calls.length) session (program.runIn turns handler session)) ∧
    (∀ {N M : Type} (manner : Manner) (step : Step K N M) (force : N → Run K (Packed S)),
      let calls := step.forced force turns (session.told (.enter .steps))
      (∀ call ∈ calls, call.Tells manner (Step.turn force)) →
      manner.Fits (calls.flatMap (Call.told (Step.turn force))) ∧
        Run.Spanned .steps (calls.flatMap (Call.told (Step.turn force)))
          (fun _ => .stepsFinished calls.length) session (step.runIn turns force session)) ∧
    (∀ {N M R : Type} (manner : Manner) (first : N → Prop) (last : M → Prop)
      (rendering : Rendering K type N M), rendering.Tells manner first last →
      (∀ combine : N → (Packed S → Run K M) → Run K M,
        (∀ effect rest, first effect → (∀ answer, Run.Tells manner last (rest answer)) →
          Run.Tells manner last (combine effect rest)) →
        Run.Tells manner last (program.foldIn turns rendering combine)) ∧
      Run.Tells manner ((telling manner).Goes first last turns)
        (program.stepsIn turns rendering) ∧
      ∀ driver : Step K N M → Run K R,
        (∀ step, (telling manner).Goes first last turns step →
          Run.Tells manner Any (driver step)) →
        ∃ told, manner.Fits told ∧ session.Adds (.enter .drive :: (told ++ [.leave .drive]))
          (Run.last (program.driveIn turns rendering driver session))) ∧
    (∀ (manner : Manner) (render : S.Effect → Run K (Deferred K (Packed S))),
      (∀ effect, Run.Tells manner Any (render effect)) →
      ∃ told, manner.Fits told ∧ session.Adds (.enter .drive :: (told ++ [.leave .drive]))
        (Run.last (program.deferIn turns render session))) ∧
    (∀ {R : Type} (interpreter : Interpreter K type R), interpreter.Orderly turns →
      Run.Tells .orderly Any (interpreter.carryOut turns program)) ∧
    ∀ {σ α : Type} (kept : List ((type : S.Ty) × Program S type)) (client : Client S σ α),
      Run.Tells .orderly Any (client.perform (Setting.together σ kept turns) turns) := by
  refine ⟨?_, ?_, ?_, ?_, ?_, ?_, ?_⟩
  · intro Failure manner handler hhandler hproper
    refine ⟨manner.flatMap fun call _ => ?_, Program.tryRunIn_adds hhandler hproper⟩
    exact (hhandler call.effect).call.1
  · intro manner handler hhandler hproper
    refine ⟨manner.flatMap fun call _ => ?_, Program.runIn_adds hhandler hproper⟩
    exact (hhandler call.effect).call.1
  · intro N M manner step force calls hsteps
    refine ⟨manner.flatMap fun call hcall => ?_, Step.runIn_adds turns step session hsteps⟩
    exact (hsteps call hcall).1
  · intro N M R manner first last rendering renders
    refine ⟨fun combine hcombine => ?_, ?_, fun driver hdriver => ?_⟩
    · exact (telling manner).fold renders.effect renders.result (hcombine _ _) turns program.code
    · exact (telling manner).steps renders.effect renders.result turns program.code
    · exact program.driveIn_adds renders hdriver session
  · intro manner render hrender
    exact program.deferIn_adds hrender turns session
  · intro R interpreter horderly
    exact horderly.carryOut program
  · intro σ α kept client
    exact client.perform_orderly turns

namespace Jobs

/-- Refuses every effect. -/
def refuseAll : Handler host Refused := fun _ => return .error (Refused.quotaExceeded 0)

/-- Answers the first job once a run of the second one was refused, which it starts; refuses the
second job, and halts at any other. -/
def delegate : Handler host Refused
  | .job1 => do
    let _ ← job2.tryRunIn 2 refuseAll
    return .ok unitAnswer
  | .job2 => return .error (Refused.quotaExceeded 1)
  | _ => throw .exhausted

theorem delegate_orderly (effect : Effect) : Run.Tells .orderly Any (delegate effect) := by
  have hrefused : Run.Tells .orderly Any (job2.tryRunIn 2 refuseAll) :=
    job2.tryRunIn_orderly (fun _ => .pure trivial) 2
  cases effect with
  | job1 => exact hrefused.andThen fun _ => .pure trivial
  | job2 => exact Run.Tells.pure trivial
  | special name => exact Run.Tells.throw .exhausted
  | print message => exact Run.Tells.throw .exhausted
  | read type view => exact Run.Tells.throw .exhausted

/-- A run that is answered by a run inside, which is refused; one that is refused, and one that
halts. -/
theorem delegated_told :
    (Session.startAt 0 .start : Session host).Adds
      [.enter .run, .enter .run, .handlerFailed 1, .leave .run, .programFinished 1, .leave .run]
      (Run.last (job1.tryRunIn 3 delegate (.startAt 0 .start))) ∧
    (Session.startAt 0 .start : Session host).Adds [.enter .run, .handlerFailed 1, .leave .run]
      (Run.last (job2.tryRunIn 3 delegate (.startAt 0 .start))) ∧
    (Session.startAt 0 .start : Session host).Adds [.enter .run, .leave .run]
      (Run.last ((print "").tryRunIn 3 delegate (.startAt 0 .start))) := by
  have htold := fun (program : Program signature Ty.unit) hproper =>
    ((Program.tells_one_end 3 program (.startAt 0 Workshop.start)).1 .orderly delegate
      delegate_orderly hproper).2
  refine ⟨htold job1 ?_, htold job2 ?_, htold (print "") ?_⟩
  · rintro last ⟨⟩
  · rintro last ⟨⟩
  · rintro last ⟨⟩

end Jobs

end FreePrograms
