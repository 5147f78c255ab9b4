/-
# The plain stack machine

A `Stack` is what a program starts with and a plain list of frames.  Its machine takes the first
frame off the list, applies it and puts the frames of the program it returns, in their order, before
the others.  `Code.stack` forgets how a program holds its frames.

The machine shares the application of one frame with the runs of programs (`Frame.apply`); what it
does not have is sequences, their sharing and their table.
-/
import FreePrograms.Run.Advance

namespace FreePrograms

/-- What a program starts with, and its frames as a list. -/
structure Stack (S : Signature) where
  node : Node S
  pending : List (Frame S)

variable {S : Signature} {K : Host S}

/-- The same program with its frames as a list. -/
def Code.stack (code : Code S) : Stack S := ⟨code.node, code.frames.toList⟩

namespace Stack

/-- The machine stopped: at a value with nothing pending, or at an effect, what takes its answer
and what is pending. -/
inductive Stop (S : Signature) where
  | finished (value : Packed S)
  | waiting (effect : S.Effect) (frame : Frame S) (pending : List (Frame S))

/-- Puts the frames of a program that was returned before those that are pending. -/
def returned (code : Code S) (pending : List (Frame S)) : Stack S :=
  ⟨code.node, code.frames.toList ++ pending⟩

/-- Runs the machine, for at most so many turns, until it stops. -/
def run : Nat → Stack S → Run K (Stop S)
  | 0, _ => throw .exhausted
  | _ + 1, ⟨.ask effect frame, pending⟩ => return .waiting effect frame pending
  | _ + 1, ⟨.value value, []⟩ => return .finished value
  | turns + 1, ⟨.value value, frame :: pending⟩ => do
    let code ← frame.apply value
    run turns (returned code pending)

end Stack

/-- Where an advanced program stopped, with its frames as a list. -/
def Stop.stack : Stop S → Stack.Stop S
  | finished value => .finished value
  | waiting ⟨effect, frame, pending⟩ => .waiting effect frame pending.toList

end FreePrograms
