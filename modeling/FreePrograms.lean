import FreePrograms.Main
import FreePrograms.Program.Tree
import FreePrograms.Proofs.Clients.Apart
import FreePrograms.Proofs.Clients.Client
import FreePrograms.Proofs.Contents.Comparison
import FreePrograms.Proofs.CountedList.Versions
import FreePrograms.Proofs.Events.Accounts
import FreePrograms.Proofs.Events.Endings
import FreePrograms.Proofs.Events.Nesting
import FreePrograms.Proofs.Events.Records
import FreePrograms.Proofs.Events.Spans
import FreePrograms.Proofs.Halts.Quiet
import FreePrograms.Proofs.Halts.Service
import FreePrograms.Proofs.Halts.Struck
import FreePrograms.Proofs.Jobs.Cycle
import FreePrograms.Proofs.Jobs.Quota
import FreePrograms.Proofs.Queue.History
import FreePrograms.Proofs.Queue.Removals
import FreePrograms.Proofs.Queue.Reversals
import FreePrograms.Proofs.Run.Abreast
import FreePrograms.Proofs.Run.Alike
import FreePrograms.Proofs.Run.Blind
import FreePrograms.Proofs.Run.Calls
import FreePrograms.Proofs.Run.Chains
import FreePrograms.Proofs.Run.Codes
import FreePrograms.Proofs.Run.Habits
import FreePrograms.Proofs.Run.Interpreters
import FreePrograms.Proofs.Run.Laziness
import FreePrograms.Proofs.Run.Machine
import FreePrograms.Proofs.Run.Oblivious
import FreePrograms.Proofs.Run.Openings
import FreePrograms.Proofs.Run.Patience
import FreePrograms.Proofs.Run.Refusals
import FreePrograms.Proofs.Run.Stacked
import FreePrograms.Proofs.Run.Steps
import FreePrograms.Proofs.Run.Termination
import FreePrograms.Proofs.Run.Total
import FreePrograms.Proofs.Run.Unwinding
import FreePrograms.Proofs.Run.Watching
import FreePrograms.Proofs.Run.Ways
import FreePrograms.Proofs.Sequence.Coherent
import FreePrograms.Proofs.Sequence.Collapse
import FreePrograms.Proofs.Sequence.Filling
import FreePrograms.Proofs.Sequence.History
import FreePrograms.Proofs.Sequence.Ledger
import FreePrograms.Proofs.Sequence.Nodes
import FreePrograms.Proofs.Sequence.Sharing
import FreePrograms.Proofs.Sequence.Split
import FreePrograms.Proofs.Tree.Beside
import FreePrograms.Proofs.Tree.Follows
import FreePrograms.Proofs.Tree.Inspection
import FreePrograms.Proofs.Tree.Laws
import FreePrograms.Proofs.Tree.Machine
import FreePrograms.Proofs.Tree.Run
import FreePrograms.Proofs.Tree.Settles
import FreePrograms.Proofs.Tree.Turns
import FreePrograms.Proofs.Tree.Types
import FreePrograms.Proofs.Tree.Unfolding
import FreePrograms.Proofs.Tree.Ways
import FreePrograms.Run.Stack
import FreePrograms.Script.Deferreds
import FreePrograms.Script.Lists
import FreePrograms.Script.Queues
import FreePrograms.Script.Runs
import FreePrograms.Script.Sequences
import FreePrograms.Script.Steps
