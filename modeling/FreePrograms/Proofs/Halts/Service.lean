/-
# Services

A host serves a program by functions that work on its state: to answer effects, to render them, to
force what was rendered, to finish the result, to combine (`Service`).  It keeps a record of all
that is invoked, with what is given and with the state that is found; functions of the program,
which are applied in between, are recorded as well (`Host.recording`).

A function may halt in place of what it would do.  `Strikes` says where: it is asked at each
invocation of a function of the host, and can depend on all that was invoked up to then.
-/
import FreePrograms.Proofs.Run.Interpreters

namespace FreePrograms

variable {S : Signature} {K : Host S} {type : S.Ty} {N M R α : Type}
  {kept : Nat → Option ((type : S.Ty) × Program S type)}

/-! ## 1. The record of a host -/

/-- A function that is invoked, with what it is given. -/
inductive Duty (S : Signature) (N M : Type) where
  /-- The handler is given an effect. -/
  | answer (effect : S.Effect)
  | render (effect : S.Effect)
  | force (effect : N)
  | finish (value : Packed S)
  /-- The combination is given a rendered effect, and the rest of the fold. -/
  | combine (effect : N)
  /-- The combination gets the fold of the rest, for which it gave an answer. -/
  | conclude (effect : N) (rest : M)
  /-- A function of the program is applied. -/
  | applied (callback : Callback S)

/-- Whether the function is one of the host. -/
def Duty.isHosts : Duty S N M → Bool
  | .applied _ => false
  | _ => true

/-- A function that is invoked, with the state in which it finds the host. -/
structure Invocation (K : Host S) (N M : Type) where
  duty : Duty S N M
  state : K.State

/-- The host with a record of all that is invoked, and with other programs to keep. -/
def Host.recording (K : Host S) (N M : Type)
    (kept : Nat → Option ((type : S.Ty) × Program S type)) : Host S where
  State := K.State × List (Invocation K N M)
  observe callback := fun (state, record) =>
    (K.observe callback state, record ++ [⟨.applied callback, K.observe callback state⟩])
  kept := kept

/-- Where functions of the host halt in place of what they would do: with which halt, and in which
state they leave the host.  The record goes up to the invocation. -/
abbrev Strikes (K : Host S) (N M : Type) := List (Invocation K N M) → Option (Halt S × K.State)

/-- No function halts in place of what it would do. -/
def Strikes.never : Strikes K N M := fun _ => none

/-- Invokes a function of the host. -/
def Hosted.invoke (kept : Nat → Option ((type : S.Ty) × Program S type)) (strikes : Strikes K N M)
    (duty : Duty S N M) (work : Hosted K α) : Hosted (K.recording N M kept) α :=
  fun host =>
    let record := host.2 ++ [⟨duty, host.1⟩]
    match strikes record with
    | some (halt, last) => .error halt (last, record)
    | none =>
      match work host.1 with
      | .ok a last => .ok a (last, record)
      | .error halt last => .error halt (last, record)

/-- Invokes a function of the host, in a run. -/
def Run.invoke (strikes : Strikes K N M) (duty : Duty S N M) (work : Hosted K α) :
    Run (K.recording N M kept) α :=
  Run.hosted (work.invoke kept strikes duty)

/-! ## 2. Services -/

/-- A way to carry out programs of the given type, by functions on the state of the host. -/
inductive Service {S : Signature} (K : Host S) (type : S.Ty) (N M : Type) : Type → Type 1
  /-- The run with a handler that may refuse. -/
  | tryRun {Failure : Type} (answer : S.Effect → Hosted K (Except Failure (Packed S))) :
    Service K type N M (Except Failure (S.El type))
  /-- The run with a handler that answers every effect. -/
  | run (answer : S.Effect → Hosted K (Packed S)) : Service K type N M (S.El type)
  /-- The fold.  To combine a rendered effect with the rest is to give the fold at once, or to give
  an answer for the rest and conclude from its fold. -/
  | fold (render : S.Effect → Hosted K N) (finish : S.El type → Hosted K M)
    (combine : N → Hosted K (Except M (Packed S))) (conclude : N → M → Hosted K M) :
    Service K type N M M
  /-- The fold into deferred computations that are chained; the whole one is forced. -/
  | chain (render : S.Effect → Hosted K N) (force : N → Hosted K (Packed S)) :
    Service K type N M (S.El type)
  /-- The fold into steps, which are driven to their end. -/
  | steps (render : S.Effect → Hosted K N) (finish : S.El type → Hosted K M)
    (force : N → Hosted K (Packed S)) : Service K type N M M
  /-- The fold into steps that gives the first one to a driver, which drives them to their end. -/
  | drive (render : S.Effect → Hosted K N) (finish : S.El type → Hosted K M)
    (force : N → Hosted K (Packed S)) : Service K type N M M
  /-- The fold into one deferred computation, which is forced. -/
  | defer (render : S.Effect → Hosted K N) (force : N → Hosted K (Packed S)) :
    Service K type N M (S.El type)

namespace Service

/-- Renders effects, and finishes the result. -/
def rendering (strikes : Strikes K N M) (render : S.Effect → Hosted K N)
    (finish : S.El type → Hosted K M) : Rendering (K.recording N M kept) type N M where
  effect effect := Run.invoke strikes (.render effect) (render effect)
  result value := Run.invoke strikes (.finish ⟨type, value⟩) (finish value)

/-- Renders effects into computations that force them. -/
def deferring (strikes : Strikes K N M) (render : S.Effect → Hosted K N)
    (force : N → Hosted K (Packed S)) (effect : S.Effect) :
    Run (K.recording N M kept) (Deferred (K.recording N M kept) (Packed S)) := do
  let rendered ← Run.invoke strikes (.render effect) (render effect)
  return ⟨Run.invoke strikes (.force rendered) (force rendered)⟩

/-- Goes on with what a rendered effect was combined to: the fold, or an answer for the rest. -/
def concluded (strikes : Strikes K N M) (conclude : N → M → Hosted K M) (effect : N)
    (rest : Packed S → Run (K.recording N M kept) M) :
    Except M (Packed S) → Run (K.recording N M kept) M
  | .error value => return value
  | .ok answer => do
    let value ← rest answer
    Run.invoke strikes (.conclude effect value) (conclude effect value)

/-- Combines a rendered effect with the rest. -/
def combination (strikes : Strikes K N M) (combine : N → Hosted K (Except M (Packed S)))
    (conclude : N → M → Hosted K M) (effect : N) (rest : Packed S → Run (K.recording N M kept) M) :
    Run (K.recording N M kept) M := do
  concluded strikes conclude effect rest
    (← Run.invoke strikes (.combine effect) (combine effect))

/-- Carries out the program, in at most so many turns. -/
def perform (turns : Nat) (strikes : Strikes K N M) (program : Program S type) :
    Service K type N M R → Run (K.recording N M kept) R
  | .tryRun answer =>
    program.tryRunIn turns fun effect => Run.invoke strikes (.answer effect) (answer effect)
  | .run answer =>
    program.runIn turns fun effect => Run.invoke strikes (.answer effect) (answer effect)
  | .fold render finish combine conclude =>
    program.foldIn turns (rendering strikes render finish) (combination strikes combine conclude)
  | .chain render force => do
    let deferred ← program.foldIn turns
      ⟨deferring strikes render force, fun value => return .now value⟩
      fun effect rest => return effect.bind rest
    deferred.force
  | .steps render finish force => do
    let step ← program.stepsIn turns (rendering strikes render finish)
    step.runIn turns fun effect => Run.invoke strikes (.force effect) (force effect)
  | .drive render finish force =>
    program.driveIn turns (rendering strikes render finish) fun step =>
      step.runIn turns fun effect => Run.invoke strikes (.force effect) (force effect)
  | .defer render force => do
    (← program.deferIn turns (deferring strikes render force)).force

end Service

/-! ## 3. What is said of runs that are struck -/

/-- At no invocation of a function of the host that is on the record it is struck. -/
def Strikes.Spares (strikes : Strikes K N M) (record : List (Invocation K N M)) : Prop :=
  ∀ before invocation, before ++ [invocation] <+: record → invocation.duty.isHosts →
    strikes (before ++ [invocation]) = none

/-- The function that was invoked last halted in place of what it would do, and those before it did
not.  It is one of the host, or one of the program, of which it is given to what it may come. -/
inductive Strikes.Struck (strikes : Strikes K N M) (spoils : Callback S → Halt S → Prop)
    (halt : Halt S) : K.State × List (Invocation K N M) → Prop
  | duty {before : List (Invocation K N M)} {invocation : Invocation K N M} {state : K.State}
    (spared : strikes.Spares before) (hosts : invocation.duty.isHosts)
    (strikes_at : strikes (before ++ [invocation]) = some (halt, state)) :
    Struck strikes spoils halt (state, before ++ [invocation])
  | function {before : List (Invocation K N M)} {callback : Callback S} {state : K.State}
    (spared : strikes.Spares before) (spoils_at : spoils callback halt) :
    Struck strikes spoils halt (state, before ++ [⟨.applied callback, state⟩])

/-- The value or the halt of a run, and how it leaves the host. -/
def Run.seen : EStateM.Result (Halt S) (Session K) α → Except (Halt S) α × K.State
  | .ok a session => (.ok a, session.host)
  | .error halt session => (.error halt, session.host)

/-- The session with another host. -/
def Session.handOver (session : Session K) {L : Host S} (host : L.State) : Session L :=
  ⟨session.memo, session.schedule, session.pops, session.events, host⟩

end FreePrograms
