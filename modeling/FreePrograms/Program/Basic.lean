/-
# Programs as data

A program is a node, either a value or an effect that is asked for, and a sequence of frames, each
of which waits for what comes before it.  Binding never looks at the node: it adds one frame at the
far end of the sequence, so every program is built in one step a combinator, however binds are
nested.

Inside (`Code`) types are forgotten.  `Program S type` is a code with the result type remembered
beside it, and the functions of this module are the only ones that make one, so the frames of a
program fit end to end.

The function of a frame may take names for the nodes that it makes and it may fail, but it does not
touch what runs know.

A frame can also stand for a program that is kept elsewhere, at a place given by a number.  It is
looked up when the frame is applied, so kept programs can go on to each other in a circle.
-/
import FreePrograms.Signature
import FreePrograms.Sequence.Basic

namespace FreePrograms

/-- Whose function a frame applies. -/
inductive Provenance where
  /-- The function was handed in to be applied to a result. -/
  | given
  /-- The frame was put in to fit two programs together. -/
  | glue
  deriving DecidableEq

mutual

/-- A program whose result type is forgotten. -/
inductive Code (S : Signature) : Type where
  | mk (node : Node S) (frames : Sequence (Frame S))

/-- What a program starts with. -/
inductive Node (S : Signature) : Type where
  | value (value : Packed S)
  /-- An effect, and the frame that takes its answer. -/
  | ask (effect : S.Effect) (frame : Frame S)

/-- A continuation whose input and output types are forgotten. -/
inductive Frame (S : Signature) : Type where
  /-- Applies a function to an input of the given type. -/
  | bind (provenance : Provenance) (input : S.Ty)
      (function : S.El input → Cell → Except (Halt S) (Code S × Cell))
  /-- Takes the answer to an effect, which must be of the given type. -/
  | expect (result : S.Ty)
  /-- Makes a value of the given type out of the answer to an effect. -/
  | decode (result : S.Ty) (function : Packed S → Except (Halt S) (S.El result))
  /-- Goes on with the program kept at a place, which must be of the given type, whatever the
  input. -/
  | kept (place : Nat) (result : S.Ty)

end

namespace Code

variable {S : Signature}

/-- What the program starts with. -/
def node : Code S → Node S
  | mk node _ => node

/-- The frames still waiting. -/
def frames : Code S → Sequence (Frame S)
  | mk _ frames => frames

/-- A value with no frame waiting for it. -/
def ofValue (type : S.Ty) (value : S.El type) : Code S := mk (.value ⟨type, value⟩) .empty

end Code

/-- Steps that make programs: they may take names and they may fail. -/
abbrev Building (S : Signature) := StateT Cell (Except (Halt S))

instance {S : Signature} : MonadLift Naming (Building S) := ⟨fun steps next => .ok (steps next)⟩

/-- A program that yields a value of the given type. -/
structure Program (S : Signature) (type : S.Ty) where
  code : Code S

namespace Program

variable {S : Signature} {a b : S.Ty}

/-! ## 1. Making programs -/

/-- The program that yields a value and asks for nothing. -/
def pure (value : S.El a) : Program S a := ⟨.ofValue a value⟩

/-- The program that asks for an effect and yields its answer, which must be of type `a`. -/
def lift (effect : S.Effect) : Program S a := ⟨.mk (.ask effect (.expect a)) .empty⟩

/-- The program that asks for an effect and yields what `decode` makes of its answer. -/
def liftWith (effect : S.Effect) (decode : Packed S → Except (Halt S) (S.El a)) : Program S a :=
  ⟨.mk (.ask effect (.decode a decode)) .empty⟩

/-- Puts a frame behind a program; types are the caller's care. -/
def attach (program : Program S a) (frame : Frame S) : Naming (Program S b) := do
  return ⟨.mk program.code.node (← program.code.frames.snoc frame)⟩

/-- Goes on with a program that depends on the result. -/
def bindAs (provenance : Provenance) (program : Program S a)
    (function : S.El a → Building S (Program S b)) : Naming (Program S b) :=
  let code (value : S.El a) : Building S (Code S) := do return (← function value).code
  program.attach (.bind provenance a code)

/-- Goes on with the program that the given function makes of the result. -/
def bind (program : Program S a) (function : S.El a → Building S (Program S b)) :
    Naming (Program S b) :=
  program.bindAs .given function

/-- Another name for `bind`. -/
def andThen (program : Program S a) (function : S.El a → Building S (Program S b)) :
    Naming (Program S b) :=
  program.bind function

/-- Yields what the given function makes of the result. -/
def map (program : Program S a) (function : S.El a → Except (Halt S) (S.El b)) :
    Naming (Program S b) :=
  program.bind fun value => do return pure (← function value)

/-- Goes on with `next` whatever the result. -/
def followedBy (program : Program S a) (next : Program S b) : Naming (Program S b) :=
  program.bindAs .glue fun _ => return next

/-- Goes on with the program kept at that place, which must be of type `b`, whatever the result. -/
def followedByKept (program : Program S a) (place : Nat) : Naming (Program S b) :=
  program.attach (.kept place b)

/-- Yields the result at another type, by a plain conversion. -/
def convert (program : Program S a) (conversion : S.El a → S.El b) : Naming (Program S b) :=
  program.bindAs .glue fun value => return pure (conversion value)

/-! ## 2. Looking at a program without running it -/

/-- Whether the program is a value with nothing waiting for it. -/
def isDone (program : Program S a) : Bool :=
  match program.code.node with
  | .value _ => program.code.frames.isEmpty
  | .ask .. => false

/-- Whether the program starts with an effect. -/
def isSuspended (program : Program S a) : Bool :=
  match program.code.node with
  | .value _ => false
  | .ask .. => true

/-- What is shown of a program: the effect that it starts with, if it does, and whether any frame
is waiting. -/
structure Outline (S : Signature) where
  effect : Option S.Effect
  pending : Bool

/-- What is shown of the program. -/
def outline (program : Program S a) : Outline S :=
  let pending := !program.code.frames.isEmpty
  match program.code.node with
  | .value _ => ⟨none, pending⟩
  | .ask effect _ => ⟨some effect, pending⟩

end Program

end FreePrograms
