/-
# The job language

A small language of programs that do jobs, print messages and read what was done so far.  Its
programs are ordinary programs over the signature `Jobs.signature`; how the jobs are really done is
a matter of its hosts.

The numbered jobs are a program that unfolds from a number, one job at a time.
-/
import FreePrograms.Program.Unfold

namespace FreePrograms.Jobs

/-- The result types of job programs. -/
inductive Ty where
  | unit
  /-- How many jobs were done. -/
  | count
  /-- How far a cycle still has to go. -/
  | length
  deriving DecidableEq

/-- The values of a result type. -/
abbrev Ty.El : Ty → Type
  | unit => Unit
  | count => Nat
  | length => UInt64

/-- What a reader sees: the names of the jobs done so far. -/
structure Context where
  jobsDone : Array String

/-- The effects of job programs. -/
inductive Effect where
  | job1
  | job2
  | special (name : String)
  | print (message : String)
  /-- To be answered by what the given view makes of the context. -/
  | read (type : Ty) (view : Context → type.El)

/-- Job programs; no function of theirs can fail. -/
abbrev signature : Signature := ⟨Ty, Ty.El, inferInstance, Effect, Empty⟩

/-- The name under which an effect is recorded as a job, if it is one. -/
def Effect.job? : Effect → Option String
  | job1 => some "job1"
  | job2 => some "job2"
  | special name => some name
  | print _ | read .. => none

/-! ## 1. Programs -/

/-- Does the first job. -/
def job1 : Program signature Ty.unit := .lift Effect.job1

/-- Does the second job. -/
def job2 : Program signature Ty.unit := .lift Effect.job2

/-- Does a job of the given name. -/
def namedJob (name : String) : Program signature Ty.unit := .lift (Effect.special name)

/-- Prints a message. -/
def print (message : String) : Program signature Ty.unit := .lift (Effect.print message)

/-- Reads something of the context. -/
def read (type : Ty) (view : Context → type.El) : Program signature type :=
  .lift (Effect.read type view)

/-- What is printed of a number of jobs. -/
def jobsMessage (count : Nat) : String :=
  if 0 < count then toString count ++ " jobs is done, wow!" else "no jobs yet"

/-- Reads how many jobs were done, prints it and yields it. -/
def countJobs : Naming (Program signature Ty.count) :=
  let jobs (context : Context) : Nat := context.jobsDone.size
  let tellCount (count : signature.El Ty.count) : Building signature (Program signature Ty.count) :=
    (print (jobsMessage count)).map fun _ => .ok count
  (read Ty.count jobs).bind tellCount

/-- Does both jobs and counts. -/
def bothJobs : Naming (Program signature Ty.count) := do
  let count ← countJobs
  (← job1.followedBy job2).followedBy count

/-- One numbered job of as many as the length says, while some remain; it yields how many remain
then. -/
def countdown (length remaining : UInt64) :
    Building signature (Option (Program signature Ty.length)) := do
  if 0 < remaining then
    let name := "In Cycle Job (" ++ toString (length - remaining).toNat ++ ")"
    return some (← (namedJob name).map fun _ => .ok (remaining - 1))
  else return none

/-- Does as many numbered jobs as the length says, in at most so many rounds, and counts. -/
def numberedJobs (rounds : Nat) (length : UInt64) :
    Building signature (Program signature Ty.count) := do
  let jobs ← Program.unfold Ty.length (countdown length) rounds length
  jobs.followedBy (← countJobs)

end FreePrograms.Jobs
