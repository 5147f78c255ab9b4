/-
# Spans and events

A run tells when it enters and leaves a part of its work (a `Span`) and how it ended.  The counts
are those of the run that tells them: what runs inside its handler do is told by those runs.
-/

namespace FreePrograms

/-- A part of the work of a run. -/
inductive Span where
  /-- A program is run with a handler. -/
  | run
  /-- A program is folded into steps, and a driver has the first of them. -/
  | drive
  /-- Steps are driven to their end. -/
  | steps
  deriving DecidableEq

/-- The name of a span. -/
def Span.name : Span → String
  | run => "execute"
  | drive => "fold_with_unwind"
  | steps => "run_steps"

/-- What a run tells. -/
inductive Event where
  | enter (span : Span)
  | leave (span : Span)
  /-- A program yielded its result after so many effects. -/
  | programFinished (effects : Nat)
  /-- A handler refused an effect, the last of so many. -/
  | handlerFailed (effects : Nat)
  /-- Steps were driven to their end after so many effects. -/
  | stepsFinished (effects : Nat)
  deriving DecidableEq

/-- The text of an event. -/
def Event.text : Event → String
  | enter span => "> " ++ span.name
  | leave span => "< " ++ span.name
  | programFinished effects => "program finished effects=" ++ toString effects
  | handlerFailed effects => "handler failed effects=" ++ toString effects
  | stepsFinished effects => "steps finished effects=" ++ toString effects

end FreePrograms
