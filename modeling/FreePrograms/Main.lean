/-
# The command line of the job language

The first argument is the length of the cycle.
-/
import FreePrograms.Jobs.Report

/-- Writes the report, with the start and the end of every run. -/
def main (arguments : List String) : IO Unit := do
  for line in FreePrograms.Jobs.report .runs arguments do
    IO.println line
