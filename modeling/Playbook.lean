import Playbook.Main
import Playbook.Memory.Document
import Playbook.Proofs.Config.Variables
import Playbook.Proofs.Definition.Document
import Playbook.Proofs.Definition.Ratios
import Playbook.Proofs.Definition.WellFormed
import Playbook.Proofs.Hierarchy.Outline
import Playbook.Proofs.Hierarchy.Snapshot
import Playbook.Proofs.Hierarchy.View
import Playbook.Proofs.Json.Numeral
import Playbook.Proofs.Json.Query
import Playbook.Proofs.Json.Record
import Playbook.Proofs.Json.Text
import Playbook.Proofs.Keys
import Playbook.Proofs.Memory
import Playbook.Proofs.Node
import Playbook.Proofs.Number.Integers
import Playbook.Proofs.Registry.Order
import Playbook.Proofs.Run.Accounts
import Playbook.Proofs.Run.Brackets
import Playbook.Proofs.Run.Cancellation
import Playbook.Proofs.Run.Deeds
import Playbook.Proofs.Run.Dispatches
import Playbook.Proofs.Run.Emissions
import Playbook.Proofs.Run.Footprint
import Playbook.Proofs.Run.Inert
import Playbook.Proofs.Run.Isolation
import Playbook.Proofs.Run.Outputs
import Playbook.Proofs.Run.Prompts
import Playbook.Proofs.Run.Recovery
import Playbook.Proofs.Run.Replay
import Playbook.Proofs.Run.Soundness
import Playbook.Proofs.Run.Thoughts
import Playbook.Proofs.RunLog
import Playbook.Proofs.RunLog.Shutdown
import Playbook.Proofs.Sessions.Restart
import Playbook.Proofs.Template.Arguments
import Playbook.Proofs.Template.Placeholders
import Playbook.Proofs.Text.Truncation
import Playbook.Proofs.Time
import Playbook.Proofs.Trim
