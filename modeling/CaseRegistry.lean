import CaseRegistry.Main
import CaseRegistry.Store.Faults
import CaseRegistry.Proofs.Item.Continuity
import CaseRegistry.Proofs.Item.Stamps
import CaseRegistry.Proofs.Case.Continuity
import CaseRegistry.Proofs.Case.Consistency
import CaseRegistry.Proofs.Ledger.Records
import CaseRegistry.Proofs.Sync.Dispatch
import CaseRegistry.Proofs.Sync.Following
import CaseRegistry.Proofs.Sync.Cycle
import CaseRegistry.Proofs.Sync.History
import CaseRegistry.Proofs.Sync.Retry
import CaseRegistry.Proofs.Sync.Shared
import CaseRegistry.Proofs.Sync.Lasting
import CaseRegistry.Proofs.Sync.Concurrent
import CaseRegistry.Proofs.Sync.Reaching
import CaseRegistry.Proofs.Sync.Polling
import CaseRegistry.Proofs.Sync.Recorded
import CaseRegistry.Proofs.Sync.Rollback
import CaseRegistry.Proofs.Sync.Routine
import CaseRegistry.Proofs.Sync.Nodes
import CaseRegistry.Proofs.Sync.Callers
import CaseRegistry.Proofs.Sync.Unrolling
import CaseRegistry.Proofs.Sync.Loops
import CaseRegistry.Proofs.Sync.Uniform
import CaseRegistry.Proofs.Sync.Statistics
import CaseRegistry.Proofs.Store.Table
import CaseRegistry.Proofs.Case.Items
import CaseRegistry.Proofs.Case.Runs
import CaseRegistry.Proofs.Case.FourEyes
import CaseRegistry.Proofs.Case.WriteOnce
import CaseRegistry.Proofs.Case.Rejection
import CaseRegistry.Proofs.Case.Acknowledgement
import CaseRegistry.Proofs.Case.Listing
import CaseRegistry.Proofs.Case.Authority
import CaseRegistry.Proofs.Case.Delivery
import CaseRegistry.Proofs.Case.Frame
import CaseRegistry.Proofs.Case.Creation
import CaseRegistry.Proofs.Case.Confirmation
import CaseRegistry.Proofs.Case.Cancellation
import CaseRegistry.Proofs.Case.Visibility
import CaseRegistry.Proofs.Atomic.Action
import CaseRegistry.Proofs.Atomic.Items
import CaseRegistry.Proofs.Atomic.Cases
import CaseRegistry.Proofs.Atomic.Stores
import CaseRegistry.Proofs.Changes.Shapes
import CaseRegistry.Proofs.Changes.Delta
import CaseRegistry.Proofs.Changes.Merge
import CaseRegistry.Proofs.Changes.Accounts
import CaseRegistry.Proofs.Changes.Patch
import CaseRegistry.Proofs.Changes.Grouping
import CaseRegistry.Proofs.Format.RoundTrip
import CaseRegistry.Proofs.Replay.Summary
import CaseRegistry.Proofs.Replay.Chains
import CaseRegistry.Proofs.Text.Hex
import CaseRegistry.Proofs.Format.SealHash
import CaseRegistry.Proofs.Changes.References
import CaseRegistry.Proofs.Ledger.Kinds
import CaseRegistry.Proofs.Sync.Identifiers
