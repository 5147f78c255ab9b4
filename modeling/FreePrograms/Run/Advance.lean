/-
# Running a program to its next effect

`Code.advance` applies frames while the program starts with a value: it takes the first frame off
the sequence, applies it, and links what is left behind the frames of the program it returns.  It
stops at the final value or at the next effect, with the frames not yet applied (`Waiting`).

The sequences are linked and split again at every step; the order in which frames are applied is
that of a plain stack.
-/
import FreePrograms.Run.Session

namespace FreePrograms

/-- A program stopped at an effect: what is asked for, what takes the answer, and the frames that
wait after that. -/
structure Waiting (S : Signature) where
  effect : S.Effect
  frame : Frame S
  pending : Sequence (Frame S)

/-- A program that cannot go on by itself. -/
inductive Stop (S : Signature) where
  | finished (value : Packed S)
  | waiting (waiting : Waiting S)

variable {S : Signature} {K : Host S}

/-- Applies a frame to what it waits for. -/
def Frame.apply (value : Packed S) : Frame S → Run K (Code S)
  | bind provenance input function => do
    let argument ← value.unpack input .input
    Run.observe (.bind provenance value)
    Run.building (function argument)
  | expect result => do
    let answer ← value.unpack result .answer
    return .ofValue result answer
  | decode result function => do
    Run.observe (.decode value)
    let decoded ← function value
    return .ofValue result decoded
  | kept place result => do
    Run.observe (.kept place)
    Run.kept place result

/-- Puts further frames behind those of a program. -/
def Code.append (code : Code S) (frames : Sequence (Frame S)) : Naming (Code S) := do
  return .mk code.node (← code.frames.link frames)

/-- Goes on with the answer to the effect. -/
def Waiting.answer (waiting : Waiting S) (answer : Packed S) : Run K (Code S) := do
  let code ← waiting.frame.apply answer
  code.append waiting.pending

/-- Applies frames up to the next effect or the final value, in at most so many turns. -/
def Code.advance : Nat → Code S → Run K (Stop S)
  | 0, _ => throw .exhausted
  | _ + 1, mk (.ask effect frame) frames => return .waiting ⟨effect, frame, frames⟩
  | turns + 1, mk (.value value) frames => do
    match ← Run.pop frames with
    | none => return .finished value
    | some (frame, rest) =>
      let code ← frame.apply value
      let code ← code.append rest
      advance turns code

end FreePrograms
