import QivenContext.Library.Enumeration
import QivenContext.Library.Wire
import QivenContext.Library.HashChain
import QivenContext.Library.Transition
import QivenContext.Library.Layered
import QivenContext.Library.Extension
import QivenContext.Library.Words
import QivenContext.Library.Greedy
import QivenContext.Library.Lines
import QivenContext.Library.Lockstep
import QivenContext.Library.Find
import QivenContext.Library.Online
import QivenContext.Text
import QivenContext.Cognition
import QivenContext.Genesis
import QivenContext.Foundation
import QivenContext.Serialize
import QivenContext.Deserialize
import QivenContext.Store
import QivenContext.Transaction
import QivenContext.Gates
import QivenContext.Service
import QivenContext.Participants
import QivenContext.Control
import QivenContext.Bundle
import QivenContext.Sizes
import QivenContext.Codec
import QivenContext.Accepted
import QivenContext.Apply
import QivenContext.Growth
import QivenContext.Steps
import QivenContext.Committed
import QivenContext.Reference
import QivenContext.Scenario
import QivenContext.Canonical
import QivenContext.Legacy
import QivenContext.Refusal
import QivenContext.Fresh
import QivenContext.Wrap
import QivenContext.History
import QivenContext.Durable
import QivenContext.Review
import QivenContext.Idempotency
import QivenContext.Authority
import QivenContext.Lease
import QivenContext.Principal
import QivenContext.Readers
import QivenContext.Quarantine
import QivenContext.Transport
import QivenContext.Boot
import QivenContext.Ids
import QivenContext.Supersession
import QivenContext.Chain
import QivenContext.AppendOnly
import QivenContext.Lifecycle
import QivenContext.Numeral
import QivenContext.Boundary
import QivenContext.Closing
import QivenContext.Handoff
import QivenContext.Binding
import QivenContext.Emptied
import QivenContext.Views
import QivenContext.Readiness
import QivenContext.Replay
import QivenContext.Freeze
import QivenContext.Work
import QivenContext.Normalize
import QivenContext.Packet
import QivenContext.Marking
import QivenContext.Superseded
import QivenContext.Budget
import QivenContext.ViewRefs
import QivenContext.Unblock
import QivenContext.Amend
import QivenContext.Render
import QivenContext.Invocation
import QivenContext.Reach
import QivenContext.StoreHistory
import QivenContext.Preimage
import QivenContext.Turns
import QivenContext.Designation
import QivenContext.Contention
import QivenContext.Atomic
import QivenContext.Fencing
import QivenContext.Continuation
import QivenContext.Restart
import QivenContext.Progress
import QivenContext.Checkpoint
import QivenContext.Artifact
import QivenContext.Shared
import QivenContext.Diagnosis
import QivenContext.Ledger
import QivenContext.Recounted
import QivenContext.Convergence
import QivenContext.Inherited
