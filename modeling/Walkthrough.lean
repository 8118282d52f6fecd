import Walkthrough.Main
import Walkthrough.Proofs.Checks
import Walkthrough.Proofs.Ledger
import Walkthrough.Proofs.Record
import Walkthrough.Proofs.Spread
import Walkthrough.Proofs.Order
import Walkthrough.Proofs.Flow
import Walkthrough.Proofs.Runs
import Walkthrough.Proofs.Session
import Walkthrough.Proofs.Eligible
import Walkthrough.Proofs.Render
import Walkthrough.Proofs.Restart
import Walkthrough.Proofs.Attempt
import Walkthrough.Proofs.Steady
import Walkthrough.Proofs.Rounds
import Walkthrough.Proofs.Freshness
import Walkthrough.Proofs.Schedule
import Walkthrough.Proofs.Summary
import Walkthrough.Proofs.Atomic
import Walkthrough.Proofs.Guard
import Walkthrough.Proofs.Walk
import Walkthrough.Proofs.Text
import Walkthrough.Proofs.Reference
import Walkthrough.Proofs.Placeholder
import Walkthrough.Proofs.Rewriting
import Walkthrough.Proofs.Traverse
import Walkthrough.Proofs.Endpoint
import Walkthrough.Proofs.Filling
import Walkthrough.Proofs.Quoting
import Walkthrough.Proofs.Words
import Walkthrough.Proofs.Command
import Walkthrough.Proofs.Refusal
import Walkthrough.Proofs.Options
import Walkthrough.Proofs.Graph
import Walkthrough.Proofs.Rendering
import Walkthrough.Proofs.WriteOnce
import Walkthrough.Proofs.Unlock
import Walkthrough.Proofs.Gate
import Walkthrough.Proofs.Warning
import Walkthrough.Proofs.Dialogue
import Walkthrough.Proofs.Chronicle
import Walkthrough.Proofs.Exit
import Walkthrough.Proofs.Inlay
import Walkthrough.Proofs.Verbatim
import Walkthrough.Proofs.Relabel
import Walkthrough.Proofs.Reorder
import Walkthrough.Proofs.Sections
import Walkthrough.Proofs.Renaming
import Walkthrough.Proofs.Arrange
import Walkthrough.Proofs.Cycle
import Walkthrough.Proofs.Queue
import Walkthrough.Proofs.Turns
import Walkthrough.Proofs.Taking
import Walkthrough.Proofs.Leftover
import Walkthrough.Proofs.RuleOrder
import Walkthrough.Proofs.Retry
import Walkthrough.Proofs.Attached
import Walkthrough.Proofs.Literal
import Walkthrough.Proofs.Preview
import Walkthrough.Proofs.Returns
import Walkthrough.Proofs.Path
import Walkthrough.Proofs.Referring
import Walkthrough.Proofs.Bytes
import Walkthrough.Proofs.Archive
import Walkthrough.Proofs.Prompter
import Walkthrough.Proofs.Addressing
import Walkthrough.Proofs.Pairing
import Walkthrough.Proofs.KeyOrder
import Walkthrough.Proofs.Json
import Walkthrough.Proofs.Fields
import Walkthrough.Proofs.Base64
import Walkthrough.Proofs.Headers
import Walkthrough.Proofs.Absolute
import Walkthrough.Proofs.Discovery
