/-
# The report of the job language

The report runs five programs one after the other and writes what they print and yield: both jobs
and their count, the count alone, both jobs and their count deferred, the same under a quota of one
job, and as many numbered jobs as the first argument says.

What the report logs beside that depends on the level: nothing, the start and end of every run, or
the events that the runs tell.
-/
import FreePrograms.Ample
import FreePrograms.Jobs.Workshop

namespace FreePrograms.Jobs

/-! ## 1. The length of the cycle -/

/-- Why a text is no length. -/
inductive LengthError where
  | empty
  | invalidDigit
  | tooLarge

/-- The wording of an error. -/
def LengthError.message : LengthError → String
  | empty => "cannot parse integer from empty string"
  | invalidDigit => "invalid digit found in string"
  | tooLarge => "number too large to fit in target type"

/-- Reads digits behind a number; the first that is none, or leads beyond 64 bits, is the error. -/
def readDigits : List Char → Nat → Except LengthError UInt64
  | [], n => .ok n.toUInt64
  | c :: rest, n =>
    if c.isDigit then
      let n := n * 10 + (c.toNat - '0'.toNat)
      if n < UInt64.size then readDigits rest n else .error .tooLarge
    else .error .invalidDigit

/-- Reads an unsigned 64-bit number: digits, with a plus sign before them or not. -/
def readLength (text : String) : Except LengthError UInt64 :=
  match text.toList with
  | [] => .error .empty
  | ['+'] => .error .invalidDigit
  | '+' :: digits => readDigits digits 0
  | digits => readDigits digits 0

/-- The length of the cycle where no length is given. -/
def defaultLength : UInt64 := 1000000

/-! ## 2. What is logged -/

/-- What is logged beside the output of the runs. -/
inductive LogLevel where
  | off
  /-- The start and the end of every run. -/
  | runs
  /-- The events that runs tell. -/
  | events
  deriving DecidableEq

/-- The line for an event that ends a run. -/
def eventLine? (event : Event) : Option String :=
  match event with
  | .enter _ | .leave _ => none
  | .programFinished _ | .handlerFailed _ =>
    some ("DEBUG execute\x7bresult=\"usize\"\x7d: catfree::control::interpret: " ++ event.text)
  | .stepsFinished _ =>
    some ("DEBUG run_steps\x7bresult=\"catfree::control::deferred::Deferred<usize>\"\x7d: "
      ++ "catfree::control::step: " ++ event.text)

/-- Logs the events told since the last time, if they are to be logged. -/
def logEvents (level : LogLevel) : Run host Unit := do
  let events ← Run.events
  Run.clearEvents
  if level = .events then
    for event in events do
      match eventLine? event with
      | some line => writeLine line
      | none => pure ()

/-- Logs a line about the runs. -/
def logInfo (level : LogLevel) (line : String) : Run host Unit := do
  if level = .runs then writeLine ("INFO lang: " ++ line)

/-- Logs a warning. -/
def logWarning (level : LogLevel) (line : String) : Run host Unit := do
  if level = .runs then writeLine ("WARN lang: " ++ line)

/-- Logs the start and the end of a run. -/
def logRun (level : LogLevel) (name : String) (run : Run host Unit) : Run host Unit := do
  logInfo level ("[run start] " ++ name)
  run
  logInfo level ("[run finished] " ++ name)

/-! ## 3. The report -/

/-- Writes the result of a run, after what it logged. -/
def writeResult (level : LogLevel) (name : String) (result : Nat) : Run host Unit := do
  logEvents level
  writeLine (name ++ " executed with result: " ++ toString result)

/-- The length that the first argument gives. -/
def cycleLength (level : LogLevel) (arguments : List String) : Run host UInt64 := do
  match arguments with
  | [] => return defaultLength
  | argument :: _ =>
    match readLength argument with
    | .ok length => return length
    | .error error =>
      logWarning level ("invalid cycle length: " ++ error.message)
      logInfo level ("Using default cycle length " ++ toString defaultLength.toNat)
      return defaultLength

/-- Runs the five programs. -/
def runReport (level : LogLevel) (arguments : List String) : Run host Unit := do
  let length ← cycleLength level arguments
  logRun level "do_stuff" do
    writeResult level "do_stuff" (← runNow ample (← bothJobs))
  logRun level "check_about_jobs" do
    writeResult level "check_about_jobs" (← runNow ample (← countJobs))
  logRun level "deferred do_stuff" do
    let deferred ← runLater ample (← bothJobs)
    writeLine "deferred was constructed"
    writeResult level "do_stuff" (← deferred.force)
  logRun level "quota do_stuff" do
    match ← runWithin ample (← bothJobs) 1 with
    | .ok result => writeResult level "do_stuff" result
    | .error refused =>
      logEvents level
      writeLine ("do_stuff failed: " ++ refused.message)
  logRun level "cycle" do
    writeResult level "cycle" (← runNow ample (← numberedJobs ample length))

/-- The lines of the report. -/
def report (level : LogLevel) (arguments : List String) : List String :=
  match runReport level arguments (Session.start Workshop.start) with
  | .ok _ session | .error _ session => session.host.lines.toList

end FreePrograms.Jobs
