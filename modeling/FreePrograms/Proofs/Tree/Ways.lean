/-
# Every way to run a program comes to its tree

All ways to run a program with a handler that answers every effect do what one loop does
(`Program.runBy_alike`), and the run with such a handler comes to the run of the tree.  So the ways
agree on every session, and for a program of a tree they agree even on sessions that have nothing in
common but the state of the host: what the table knows, and who else holds the nodes that are popped,
makes no difference (`Program.ways_agree`).
-/
import FreePrograms.Proofs.Run.Ways
import FreePrograms.Proofs.Tree.Run

namespace FreePrograms

variable {S : Signature} {K : Host S} {type : S.Ty} {Failure α : Type}

/-! ## 1. Handlers that answer every effect -/

/-- The handler that answers every effect out of the state of the host, as one that could refuse. -/
def answered (handler : S.Effect → Hosted K (Packed S)) : HostHandler K Failure :=
  fun effect => return .ok (← handler effect)

/-- The handler on sessions. -/
def onSessions (handler : S.Effect → Hosted K α) (effect : S.Effect) : Run K α :=
  Run.hosted (handler effect)

/-- The handler that notes each effect. -/
def noted (handler : S.Effect → Hosted K α) (effect : S.Effect) : Hosted K.noting α :=
  (handler effect).noting effect

theorem onSessions_alike (handler : S.Effect → Hosted K α) (effect : S.Effect) :
    Run.Alike (onSessions handler effect) (onSessions handler effect) :=
  .hosted (handler effect)

/-- It is the same to answer on sessions, and to answer and then go to sessions. -/
theorem answering_onSessions (handler : S.Effect → Hosted K (Packed S)) (effect : S.Effect) :
    (answering (onSessions handler) effect : Run K (Except Failure (Packed S)))
      = Run.hosted (answered handler effect) := by
  rw [answered, Run.hosted_bind]
  rfl

theorem answering_means (handler : S.Effect → Hosted K (Packed S)) (effect : S.Effect) :
    (answering (onSessions handler) effect : Run K (Except Failure (Packed S))).Means
      (answered handler effect) := by
  rw [answering_onSessions]
  exact Run.hosted_means (answered handler effect)

/-! ## 2. Every way -/

/-- **With enough turns a program runs as its tree in every way.** -/
theorem Program.StandsFor.runBy_eq {program : Program S type} {tree : Tree S type} {trees : Trees S}
    {session : Session K} (stands : program.StandsFor tree trees session)
    (handler : S.Effect → Hosted K (Packed S)) {depth : Nat}
    (ends : tree.Ends depth trees (answered handler : HostHandler K Empty) session.host) :
    ∃ enough, ∀ turns, enough ≤ turns → ∀ way : Way (onSessions handler) type,
      hostResult (program.runBy turns way session)
        = (tree.runIn depth trees (answered handler)).value session.host := by
  obtain ⟨follows, keeps, agrees⟩ := stands
  obtain ⟨enough, hlands⟩ := follows.lands keeps (answering_means handler) agrees ends
  refine ⟨enough, ?_⟩
  intro turns hturns way
  have hquiet := onSessions_alike handler
  have hway := (program.runBy_alike hquiet turns way).trans (program.runIn_alike hquiet turns).symm
  rw [hway.hostResult_eq session]
  exact program.hostResult_runIn turns (onSessions handler) (hlands turns hturns).hostResult_eq

/-- **All ways to run a program agree.**  Take any program, any handler that answers every effect,
with a value of whatever type, or halts, and any session.  In any number of turns, each way to run
the program ends with the same value or halt, in the same state of the host and with the same
journal as the run with the handler; and that run ends in the same way, with its value accepted, if
the handler could refuse and does not.

If the program stands for a tree and its run ends, this is so even if one run is made on another
session, which has the state of the host in common with the first and nothing else: another table of
tails, and other owners of the nodes that are popped. -/
theorem Program.ways_agree (program : Program S type) (handler : S.Effect → Hosted K (Packed S))
    (session : Session K.noting) :
    (∀ turns (way : Way (onSessions (noted handler)) type),
      hostResult (program.runBy turns way session)
        = hostResult (program.runIn turns (onSessions (noted handler)) session)) ∧
    (∀ turns (Failure : Type),
      hostResult (program.tryRunIn turns
          (answering (onSessions (noted handler)) : Handler K.noting Failure) session)
        = hostResult ((do
            return .ok (← program.runIn turns (onSessions (noted handler))) :
              Run K.noting (Except Failure (S.El type))) session)) ∧
    (∀ {tree : Tree S type} {trees : Trees S} (depth : Nat) (session' : Session K.noting),
      program.StandsFor tree trees session → program.StandsFor tree trees session' →
      session'.host = session.host →
      tree.Ends depth trees (answered (noted handler) : HostHandler K.noting Empty) session.host →
      ∃ enough, ∀ turns, enough ≤ turns → ∀ way : Way (onSessions (noted handler)) type,
        hostResult (program.runBy turns way session')
          = hostResult (program.runIn turns (onSessions (noted handler)) session)) := by
  have hquiet := onSessions_alike (noted handler)
  refine ⟨?_, ?_, ?_⟩
  · intro turns way
    have hway := (program.runBy_alike hquiet turns way).trans
      (program.runIn_alike hquiet turns).symm
    exact hway.hostResult_eq session
  · intro turns Failure
    have hrun := (program.runIn_alike hquiet turns).symm
    have haccepted := hrun.bind fun value =>
      Run.Alike.pure (.ok value : Except Failure (S.El type))
    exact ((program.tryRunIn_alike hquiet turns).trans haccepted).hostResult_eq session
  · intro tree trees depth session' stands stands' hhost ends
    obtain ⟨enough, hrun⟩ := stands.runBy_eq (noted handler) ends
    rw [← hhost] at ends
    obtain ⟨enough', hrun'⟩ := stands'.runBy_eq (noted handler) ends
    refine ⟨max enough enough', ?_⟩
    intro turns hturns way
    have hfirst := hrun turns (by omega) .run
    rw [hrun' turns (by omega) way, hhost]
    exact hfirst.symm

/-- Does the jobs that it will still do; then it answers with a value of another type. -/
def misanswer : Jobs.Effect → Hosted busyHost (Packed Jobs.signature) := fun _ jobs =>
  match jobs with
  | 0 => .ok ⟨Jobs.Ty.count, (7 : Nat)⟩ 0
  | jobs + 1 => .ok Jobs.unitAnswer jobs

/-- The handler on sessions, with a journal. -/
abbrev misanswering : Jobs.Effect → Run busyHost.noting (Packed Jobs.signature) :=
  onSessions (K := busyHost.noting) (noted (K := busyHost) misanswer)

/-- The program that goes on to itself halts at the wrong answer in every way, also where nothing
else has the nodes that are popped. -/
theorem busy_in_every_way :
    ∃ enough, ∀ turns, enough ≤ turns → ∀ way : Way (S := Jobs.signature) misanswering Jobs.Ty.unit,
      hostResult (busy.1.runBy turns way
          { Session.startAt busy.2 (1, []) with schedule := fun _ => .unique })
        = hostResult (busy.1.runIn turns misanswering (.startAt busy.2 (1, []))) := by
  have hrun : (busyTree.runIn (K := busyHost.noting) 2 busyTrees
      (answered (K := busyHost.noting) (noted (K := busyHost) misanswer)) :
        Hosted busyHost.noting (Except Empty Unit)) (1, [])
          = .error (.mismatch .answer Jobs.Ty.unit)
            (0, [.handled .job1, .applied (.kept 0), .handled .job1]) := rfl
  obtain ⟨-, -, hsessions⟩ := Program.ways_agree (K := busyHost) busy.1 misanswer
    (.startAt busy.2 (1, []))
  obtain ⟨follows, keeps, agrees⟩ := busy_standsFor 1
  exact hsessions 2 { Session.startAt busy.2 (1, []) with schedule := fun _ => .unique }
    ⟨follows, keeps, agrees⟩ ⟨follows, keeps, agrees⟩ rfl
    (Or.inr fun host h => by cases hrun.symm.trans h)

end FreePrograms
