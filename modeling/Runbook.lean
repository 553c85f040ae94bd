import Runbook.Main
import Runbook.Proofs.Plan.Graph
import Runbook.Proofs.Run.Change
import Runbook.Proofs.Run.Invariant
import Runbook.Proofs.Plan.Order
import Runbook.Proofs.Plan.Wave
import Runbook.Proofs.Run.Turn
import Runbook.Proofs.Run.Course
import Runbook.Proofs.Reference
import Runbook.Proofs.Substitution
import Runbook.Proofs.Run.Influence
import Runbook.Proofs.Run.Agreement
import Runbook.Proofs.Run.Confluence
import Runbook.Proofs.Run.Determinacy
import Runbook.Proofs.Run.Wave
import Runbook.Proofs.Run.Answer
import Runbook.Proofs.Plan.Cycle
import Runbook.Proofs.Plan.Rules
import Runbook.Proofs.Plan.Record
import Runbook.Proofs.Plan.Check
import Runbook.Proofs.Plan.Collect
import Runbook.Proofs.Run.Start
import Runbook.Proofs.Run.Accepted
import Runbook.Proofs.Run.Unguarded
import Runbook.Proofs.Run.Reading
import Runbook.Proofs.Run.History
import Runbook.Proofs.Run.Interleaving
import Runbook.Proofs.Files
import Runbook.Proofs.Log.Append
import Runbook.Proofs.Log.Replay
import Runbook.Proofs.Plan.Priority
import Runbook.Proofs.Plan.Topological
import Runbook.Proofs.Plan.Chain
import Runbook.Proofs.Run.Bookkeeping
import Runbook.Proofs.Guard.Comparison
import Runbook.Proofs.Guard.Grammar
import Runbook.Proofs.Guard.Reader
import Runbook.Proofs.Guard.Derivation
import Runbook.Proofs.Guard.Cut
import Runbook.Proofs.Guard.Quoted
import Runbook.Proofs.Json.Literal
import Runbook.Proofs.Json.RoundTrip
import Runbook.Proofs.Json.Distinct
import Runbook.Proofs.Json.Shorter
import Runbook.Proofs.Log.RoundTrip
import Runbook.Proofs.Run.Output
import Runbook.Proofs.Run.Inserted
import Runbook.Proofs.Guard.Words
import Runbook.Proofs.Run.Unavailable
import Runbook.Proofs.Guard.Height
import Runbook.Proofs.Guard.Depth
import Runbook.Proofs.Guard.Chained
import Runbook.Proofs.Guard.Break
import Runbook.Proofs.Prompt
import Runbook.Proofs.Plan.Fence
import Runbook.Proofs.Plan.Findings
import Runbook.Proofs.Run.Registered
import Runbook.Proofs.Run.Malformed
import Runbook.Proofs.Tool.Environment
import Runbook.Proofs.Calendar.Date
import Runbook.Proofs.Calendar.Stamp
import Runbook.Proofs.Plan.Tally
import Runbook.Proofs.Guard.Scan
import Runbook.Proofs.Guard.Offset
import Runbook.Proofs.Run.LastResult
