/-
# Computations of the host alone

What a host hands in to answer effects works on the host's own state: it may change that state and
it may halt, and it knows nothing of the tables and events of a session.  Such a computation is
`Hosted`, and `Run.hosted` carries it out on a session, of which everything but the state of the
host stays what it was.  `hostResult` is what the host sees of a computation on sessions.

A host can keep a journal beside its state (`Host.noting`): the effects that it handled, and the
functions that it saw applied and references that it saw followed, in one order.
-/
import FreePrograms.Run.Handle

namespace FreePrograms

/-- A computation on the state of the host that may halt. -/
abbrev Hosted {S : Signature} (K : Host S) := EStateM (Halt S) K.State

/-- What answers effects out of the state of the host: a value, or a refusal. -/
abbrev HostHandler {S : Signature} (K : Host S) (Failure : Type) :=
  S.Effect → Hosted K (Except Failure (Packed S))

variable {S : Signature} {K : Host S} {α β Failure : Type}

/-! ## 1. Steps of the host, and what it sees of a session -/

namespace Hosted

/-- A result or a halt. -/
def except (result : Except (Halt S) α) : Hosted K α := fun host =>
  match result with
  | .ok a => .ok a host
  | .error halt => .error halt host

/-- Lets the host note a function that is about to be applied. -/
def observe (callback : Callback S) : Hosted K Unit := fun host => .ok () (K.observe callback host)

/-- Goes on with the value; a refusal is the result. -/
def andThen (work : Hosted K (Except Failure α)) (next : α → Hosted K (Except Failure β)) :
    Hosted K (Except Failure β) := do
  match ← work with
  | .ok a => next a
  | .error failure => return .error failure

end Hosted

/-- The computation on a session, of which it changes the state of the host only. -/
def Run.hosted (work : Hosted K α) : Run K α := fun session =>
  match work session.host with
  | .ok a host => .ok a { session with host := host }
  | .error halt host => .error halt { session with host := host }

/-- The handler on sessions. -/
def HostHandler.onSession (handler : HostHandler K Failure) : Handler K Failure :=
  fun effect => Run.hosted (handler effect)

/-- A result on sessions as the host sees it: the value or the halt, and the state of the host. -/
def hostResult (result : EStateM.Result (Halt S) (Session K) α) :
    EStateM.Result (Halt S) K.State α :=
  match result with
  | .ok a session => .ok a session.host
  | .error halt session => .error halt session.host

/-! ## 2. The journal of a host -/

/-- What a host notes in its journal. -/
inductive Happening (S : Signature) where
  /-- An effect was about to be handled. -/
  | handled (effect : S.Effect)
  /-- A function was about to be applied, or a reference to be followed. -/
  | applied (callback : Callback S)

/-- The host that keeps a journal beside its state. -/
def Host.noting (K : Host S) : Host S where
  State := K.State × List (Happening S)
  observe callback := fun (state, journal) =>
    (K.observe callback state, journal ++ [.applied callback])
  kept := K.kept

/-- Handles an effect and notes it. -/
def Hosted.noting (effect : S.Effect) (work : Hosted K α) : Hosted K.noting α :=
  fun (state, journal) =>
    match work state with
    | .ok a state => .ok a (state, journal ++ [.handled effect])
    | .error halt state => .error halt (state, journal ++ [.handled effect])

/-- The handler that notes each effect. -/
def HostHandler.noting (handler : HostHandler K Failure) : HostHandler K.noting Failure :=
  fun effect => (handler effect).noting effect

end FreePrograms
