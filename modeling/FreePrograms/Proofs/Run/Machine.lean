/-
# Histories of the plain stack machine

A history is the list of turns that the machine took: a pending frame was applied to a value, or an
effect was answered, and the program that was returned brought frames of its own, which were put
before the others.  `Stack.Goes` leads from one stack and session to another by such turns; between
two turns something may happen to the session, and the relation says what.

No frame is lost, doubled or put aside (`Stack.Goes.accounts`): the frames that were pending in the
beginning, with those that were brought, are the ones that were applied and the ones that are
pending in the end, each as often.
-/
import FreePrograms.Run.Stack
import FreePrograms.Proofs.Run.Steps

namespace FreePrograms

variable {S : Signature} {K : Host S}

/-! ## 1. Turns and histories -/

/-- A turn of the machine, and the frames of the program that was returned. -/
inductive Turn (S : Signature) where
  /-- A frame that was pending is applied to the value. -/
  | applied (frame : Frame S) (value : Packed S) (brought : List (Frame S))
  /-- The effect is answered, and its own frame takes the answer. -/
  | answered (effect : S.Effect) (answer : Packed S) (brought : List (Frame S))

namespace Turn

/-- The pending frame that was applied, and to what. -/
def application? : Turn S → Option (Frame S × Packed S)
  | applied frame value _ => some (frame, value)
  | answered .. => none

/-- The frames that came to be pending. -/
def brought : Turn S → List (Frame S)
  | applied _ _ brought => brought
  | answered _ _ brought => brought

/-- The effect that was answered, and with what. -/
def answer? : Turn S → Option (S.Effect × Packed S)
  | applied .. => none
  | answered effect answer _ => some (effect, answer)

end Turn

/-- Turns of the machine, in their order. -/
abbrev History (S : Signature) := List (Turn S)

namespace History

/-- The applications of pending frames, in their order. -/
def applications (history : History S) : List (Frame S × Packed S) :=
  history.filterMap Turn.application?

/-- The frames that came to be pending on the way. -/
def brought (history : History S) : List (Frame S) := history.flatMap Turn.brought

/-- The effects that were answered, each with its answer. -/
def answers (history : History S) : List (S.Effect × Packed S) := history.filterMap Turn.answer?

variable {frame : Frame S} {value answer : Packed S} {effect : S.Effect} {frames : List (Frame S)}
  {history : History S}

@[simp] theorem applications_nil : applications ([] : History S) = [] := rfl

@[simp] theorem applications_applied :
    applications (.applied frame value frames :: history)
      = (frame, value) :: applications history := rfl

@[simp] theorem applications_answered :
    applications (.answered effect answer frames :: history) = applications history := rfl

@[simp] theorem brought_nil : brought ([] : History S) = [] := rfl

@[simp] theorem brought_cons (turn : Turn S) :
    brought (turn :: history) = turn.brought ++ brought history := rfl

@[simp] theorem answers_nil : answers ([] : History S) = [] := rfl

@[simp] theorem answers_applied :
    answers (.applied frame value frames :: history) = answers history := rfl

@[simp] theorem answers_answered :
    answers (.answered effect answer frames :: history) = (effect, answer) :: answers history := rfl

@[simp] theorem answers_append (first second : History S) :
    answers (first ++ second) = answers first ++ answers second := List.filterMap_append

end History

namespace Stack

/-- From one stack and session to another by turns of the machine.  Before and after each turn what
the relation says may happen to the session. -/
inductive Goes (between : Session K → Session K → Prop) :
    Stack S → Session K → History S → Stack S → Session K → Prop
  | here {stack : Stack S} {session : Session K} : Goes between stack session [] stack session
  | meanwhile {stack stack' : Stack S} {session later last : Session K} {history : History S}
    (happens : between session later) (rest : Goes between stack later history stack' last) :
    Goes between stack session history stack' last
  | applied {value : Packed S} {frame : Frame S} {pending : List (Frame S)} {code : Code S}
    {stack' : Stack S} {session later last : Session K} {history : History S}
    (apply : frame.apply value session = .ok code later)
    (rest : Goes between (returned code pending) later history stack' last) :
    Goes between ⟨.value value, frame :: pending⟩ session
      (.applied frame value code.frames.toList :: history) stack' last
  | answered {effect : S.Effect} {frame : Frame S} {pending : List (Frame S)} {answer : Packed S}
    {code : Code S} {stack' : Stack S} {session later last : Session K} {history : History S}
    (apply : frame.apply answer session = .ok code later)
    (rest : Goes between (returned code pending) later history stack' last) :
    Goes between ⟨.ask effect frame, pending⟩ session
      (.answered effect answer code.frames.toList :: history) stack' last

namespace Goes

variable {between between' : Session K → Session K → Prop} {stack middle stack' : Stack S}
  {session later last : Session K} {history history' : History S}

/-- One way after the other. -/
theorem trans (h : Goes between stack session history middle later)
    (h' : Goes between middle later history' stack' last) :
    Goes between stack session (history ++ history') stack' last := by
  induction h with
  | here => exact h'
  | meanwhile happens _ ih => exact .meanwhile happens (ih h')
  | applied apply _ ih => exact .applied apply (ih h')
  | answered apply _ ih => exact .answered apply (ih h')

theorem mono (himp : ∀ session later, between session later → between' session later)
    (h : Goes between stack session history stack' last) :
    Goes between' stack session history stack' last := by
  induction h with
  | here => exact .here
  | meanwhile happens _ ih => exact .meanwhile (himp _ _ happens) ih
  | applied apply _ ih => exact .applied apply ih
  | answered apply _ ih => exact .answered apply ih

/-- Frames brought before the pending ones are pending or brought, in either order. -/
theorem brought_before (pending brought later : List (Frame S)) :
    (pending ++ (brought ++ later)).Perm (brought ++ pending ++ later) := by
  rw [← List.append_assoc]
  exact List.perm_append_comm.append_right later

/-- **No frame is lost and none comes from nowhere.**  Those that ever were pending are those that
were applied and those that still are pending, each as often. -/
theorem accounts (h : Goes between stack session history stack' last) :
    (stack.pending ++ history.brought).Perm
      (history.applications.map Prod.fst ++ stack'.pending) := by
  induction h with
  | here => rw [History.brought_nil, List.append_nil, History.applications_nil]; exact .refl _
  | meanwhile _ _ ih => exact ih
  | applied _ _ ih =>
    rw [History.brought_cons, History.applications_applied]
    exact ((brought_before _ _ _).trans ih).cons _
  | answered _ _ ih =>
    rw [History.brought_cons, History.applications_answered]
    exact (brought_before _ _ _).trans ih

end Goes

/-! ## 2. Where the machine stands -/

/-- The machine stands still: at an effect, or at a value with nothing pending. -/
def stopped : Stack S → Option (Stop S)
  | ⟨.ask effect frame, pending⟩ => some (.waiting effect frame pending)
  | ⟨.value value, []⟩ => some (.finished value)
  | ⟨.value _, _ :: _⟩ => none

end Stack

/-! ## 3. Changes of the table alone -/

/-- Nothing but the table of tails changed, and how many frames were taken off sequences. -/
def Session.Tabled (session later : Session K) : Prop :=
  later = { session with memo := later.memo, pops := later.pops }

theorem Run.pop_tabled {frames : Sequence (Frame S)} {session last : Session K}
    {popped : Option (Frame S × Sequence (Frame S))}
    (h : Run.pop frames session = .ok popped last) : session.Tabled last := by
  cases h
  rfl

theorem Run.naming_tabled {α : Type} {steps : Naming α} {session last : Session K} {made : α}
    (h : Run.naming steps session = .ok made last) : session.Tabled last := by
  cases h
  rfl

end FreePrograms
