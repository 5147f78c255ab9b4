/-
# Sessions

A `Session` is everything that runs may change: the table of known tails that all programs share,
the events told so far, and the state of the host.  A run is a function of the session
(`Run`); one that halts leaves the session as it is at that moment, with every open span told to be
left.

The host sees each function of a program that is applied, and each reference to a kept program that
is followed: `Host.observe` is told what is applied to what, before it is applied.  So whatever holds
of the host's state for every `observe` holds of the applications, their arguments and their order.

Whether the node of a sequence that is popped has other owners is not a matter of its contents.
The session carries a `schedule` that says so for each pop, in turn.
-/
import FreePrograms.Program.Basic
import FreePrograms.Run.Event
import FreePrograms.Sequence.Memo

namespace FreePrograms

/-- A function of a program, as it is applied. -/
inductive Callback (S : Signature) where
  /-- The function of a bind to its input. -/
  | bind (provenance : Provenance) (input : Packed S)
  /-- The function that makes a value out of an answer. -/
  | decode (answer : Packed S)
  /-- The reference to what is kept at a place, followed whatever the input. -/
  | kept (place : Nat)

/-- What runs serve: a state, what it notes of the functions applied, and the programs kept for
frames to go on with, by their place. -/
structure Host (S : Signature) where
  State : Type
  observe : Callback S → State → State
  kept : Nat → Option ((type : S.Ty) × Program S type)

/-- What runs may change. -/
structure Session {S : Signature} (K : Host S) where
  memo : Memo (Frame S)
  schedule : Nat → Ownership
  pops : Nat
  events : Array Event
  host : K.State

/-- A computation on a session that may halt. -/
abbrev Run {S : Signature} (K : Host S) := EStateM (Halt S) (Session K)

variable {S : Signature} {K : Host S} {α : Type}

/-- The session in which nothing has happened and `next` is the next name; every pop takes its
node to be shared. -/
def Session.startAt (next : Cell) (host : K.State) : Session K :=
  ⟨⟨next, {}, 0⟩, fun _ => .shared, 0, #[], host⟩

/-- The session in which nothing has happened. -/
def Session.start (host : K.State) : Session K := Session.startAt 0 host

namespace Run

/-! ## 1. Steps on parts of the session -/

/-- Steps that take names. -/
@[inline] def naming (steps : Naming α) : Run K α := fun ⟨memo, schedule, pops, events, host⟩ =>
  let (result, memo) := Memo.naming steps memo
  .ok result ⟨memo, schedule, pops, events, host⟩

/-- Steps that make programs.  When they fail no name is taken. -/
@[inline] def building (steps : Building S α) : Run K α :=
  fun ⟨⟨next, tails, collapses⟩, schedule, pops, events, host⟩ =>
    match steps next with
    | .ok (result, next) => .ok result ⟨⟨next, tails, collapses⟩, schedule, pops, events, host⟩
    | .error halt => .error halt ⟨⟨next, tails, collapses⟩, schedule, pops, events, host⟩

/-- A result or a halt. -/
@[inline] def except (result : Except (Halt S) α) : Run K α := fun session =>
  match result with
  | .ok a => .ok a session
  | .error halt => .error halt session

instance : MonadLift Naming (Run K) := ⟨naming⟩

instance : MonadLift (Building S) (Run K) := ⟨building⟩

instance : MonadLift (Except (Halt S)) (Run K) := ⟨except⟩

/-- Takes the first frame off a sequence that is given up. -/
@[inline] def pop (frames : Sequence (Frame S)) : Run K (Option (Frame S × Sequence (Frame S))) :=
  fun ⟨memo, schedule, pops, events, host⟩ =>
    let (popped, memo) := frames.pop (schedule pops) memo
    .ok popped ⟨memo, schedule, pops + 1, events, host⟩

/-- The code of the program kept at a place, if it is of the expected type. -/
def kept (place : Nat) (expected : S.Ty) : Run K (Code S) :=
  match K.kept place with
  | some ⟨type, program⟩ => if type = expected then pure program.code else throw (.absent place)
  | none => throw (.absent place)

/-- Reads the state of the host. -/
@[inline] def host : Run K K.State := fun session => .ok session.host session

/-- Reads the events told so far. -/
@[inline] def events : Run K (Array Event) := fun session => .ok session.events session

/-- Changes the state of the host. -/
@[inline] def onHost (change : K.State → K.State) : Run K Unit :=
  fun ⟨memo, schedule, pops, events, host⟩ =>
    .ok () ⟨memo, schedule, pops, events, change host⟩

/-- Lets the host note a function that is about to be applied. -/
@[inline] def observe (callback : Callback S) : Run K Unit := onHost (K.observe callback)

/-- Tells an event. -/
@[inline] def tell (event : Event) : Run K Unit :=
  fun ⟨memo, schedule, pops, events, host⟩ =>
    .ok () ⟨memo, schedule, pops, events.push event, host⟩

/-- Forgets the events told so far. -/
def clearEvents : Run K Unit := fun ⟨memo, schedule, pops, _, host⟩ =>
  .ok () ⟨memo, schedule, pops, #[], host⟩

/-- Halts at a fault of a function that the host handed in. -/
@[inline] def fault (fault : S.Fault) : Run K α := throw (.fault fault)

/-! ## 2. Spans and halts -/

/-- The result of a computation, or why it halted; the session goes on either way. -/
@[inline] def attempt (work : Run K α) : Run K (Except (Halt S) α) := fun session =>
  match work session with
  | .ok a session => .ok (.ok a) session
  | .error halt session => .ok (.error halt) session

/-- Does a part of the work inside a span, which is left also when that part halts. -/
@[inline] def inside (span : Span) (work : Run K α) : Run K α := do
  tell (.enter span)
  let result ← attempt work
  tell (.leave span)
  result

end Run

end FreePrograms
