import WorldScript.Main
import WorldScript.Machine.Unload
import WorldScript.Proofs.Waits.Registry
import WorldScript.Proofs.Execution.Effects
import WorldScript.Proofs.Machine.Runs
import WorldScript.Proofs.Waits.Fates
import WorldScript.Proofs.World.Time
import WorldScript.Proofs.World.Calls
import WorldScript.Proofs.Machine.Agreement
import WorldScript.Proofs.World.Carriers
import WorldScript.Proofs.World.CarriersInTime
import WorldScript.Proofs.Code.Readers
import WorldScript.Proofs.Machine.Wakeups
import WorldScript.Proofs.Code.Containers
import WorldScript.Proofs.Code.Fitting
import WorldScript.Proofs.Script.Limits
import WorldScript.Proofs.Execution.Discipline
import WorldScript.Proofs.Execution.Faults
import WorldScript.Proofs.Machine.Safety
import WorldScript.Proofs.Machine.Suspension
import WorldScript.Proofs.Waits.OneMap
import WorldScript.Proofs.Machine.Isolation
import WorldScript.Proofs.Execution.Brackets
import WorldScript.Proofs.Machine.Brackets
import WorldScript.Proofs.Source.Grammar
import WorldScript.Proofs.Source.Scanning
import WorldScript.Proofs.Source.Reading
import WorldScript.Proofs.Source.Lines
import WorldScript.Proofs.Source.Assembling
import WorldScript.Proofs.Source.Strings
import WorldScript.Proofs.World.Ledger
import WorldScript.Proofs.Machine.Teardown
import WorldScript.Proofs.Machine.Order
import WorldScript.Proofs.Machine.Orphans
import WorldScript.Proofs.Execution.Renaming
import WorldScript.Proofs.Machine.Renaming
import WorldScript.Proofs.Machine.Reset
import WorldScript.Proofs.Machine.Finality
import WorldScript.Proofs.World.Destructions
import WorldScript.Proofs.Machine.Deeds
import WorldScript.Proofs.Machine.Destruction
import WorldScript.Proofs.Machine.Staleness
import WorldScript.Proofs.Execution.Reloading
import WorldScript.Proofs.Machine.Reloading
import WorldScript.Proofs.World.Pauses
import WorldScript.Proofs.Machine.Pauses
import WorldScript.Proofs.World.Dialogs
import WorldScript.Proofs.Execution.Dialogs
import WorldScript.Proofs.Machine.Answers
import WorldScript.Proofs.Machine.Dialogs
import WorldScript.Proofs.Machine.Tokens
import WorldScript.Proofs.World.Commands
import WorldScript.Proofs.Execution.Commands
import WorldScript.Proofs.Machine.Pursuits
import WorldScript.Proofs.Machine.Commands
import WorldScript.Proofs.Code.Truncation
import WorldScript.Proofs.Code.Streams
import WorldScript.Proofs.Execution.Outcomes
import WorldScript.Proofs.Machine.Slices
import WorldScript.Proofs.Machine.Passes
import WorldScript.Proofs.Waits.Independence
import WorldScript.Proofs.Execution.Jumps
import WorldScript.Proofs.Execution.WaitFlags
import WorldScript.Proofs.Machine.WaitFlags
import WorldScript.Proofs.Binary32.Rounding
import WorldScript.Proofs.Binary32.Order
import WorldScript.Proofs.Binary32.Whole
import WorldScript.Proofs.Execution.Mismatches
import WorldScript.Proofs.Execution.Truth
import WorldScript.Proofs.Execution.Rolls
import WorldScript.Proofs.Execution.Attributes
import WorldScript.Proofs.World.Attacks
import WorldScript.Proofs.Machine.Attacks
import WorldScript.Proofs.World.Hits
import WorldScript.Proofs.Decimal.Shortest
import WorldScript.Proofs.Source.Numerals
import WorldScript.Proofs.Source.Reassembly
import WorldScript.Proofs.Code.Labels
import WorldScript.Proofs.Execution.Conversions
import WorldScript.Proofs.Machine.Existence
import WorldScript.Proofs.Execution.Misfits
