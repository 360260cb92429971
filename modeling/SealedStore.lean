import SealedStore.Address
import SealedStore.Backend.Basic
import SealedStore.Backend.KeyValue
import SealedStore.Backend.Memory
import SealedStore.CommandLine.Arguments
import SealedStore.CommandLine.Execution
import SealedStore.Config.Basic
import SealedStore.Config.Document
import SealedStore.Config.Json
import SealedStore.Config.Variable
import SealedStore.Curve.Point
import SealedStore.Curve.Signature
import SealedStore.Decimal
import SealedStore.Dispatch
import SealedStore.Draft
import SealedStore.Duration
import SealedStore.Engine.Basic
import SealedStore.Engine.Intake
import SealedStore.Error
import SealedStore.Fault
import SealedStore.Fixture
import SealedStore.Hash.Keccak
import SealedStore.Hash.Sha
import SealedStore.Hex
import SealedStore.Hub
import SealedStore.Json.Basic
import SealedStore.Json.Edit
import SealedStore.Json.Excess
import SealedStore.Json.Fields
import SealedStore.Json.Parser
import SealedStore.Json.Printer
import SealedStore.Json.Shape
import SealedStore.Json.Token
import SealedStore.Logging
import SealedStore.Main
import SealedStore.Metrics
import SealedStore.Network
import SealedStore.Node
import SealedStore.Octets
import SealedStore.Outbox
import SealedStore.Proofs.Accounting
import SealedStore.Proofs.Authentic
import SealedStore.Proofs.Backend.Contents
import SealedStore.Proofs.Backend.Contract
import SealedStore.Proofs.Backend.Entries
import SealedStore.Proofs.Backend.Equivalence
import SealedStore.Proofs.Backend.History
import SealedStore.Proofs.Backend.Index
import SealedStore.Proofs.Backend.KeyValue
import SealedStore.Proofs.Backend.Listing
import SealedStore.Proofs.Backend.Registration
import SealedStore.Proofs.Backend.Storage
import SealedStore.Proofs.Backend.WriteOnce
import SealedStore.Proofs.Confidentiality
import SealedStore.Proofs.Config.Overlay
import SealedStore.Proofs.Config.RoundTrip
import SealedStore.Proofs.Dispatch
import SealedStore.Proofs.Draft
import SealedStore.Proofs.Draft.Call
import SealedStore.Proofs.Draft.Listing
import SealedStore.Proofs.Draft.Order
import SealedStore.Proofs.Draft.Race
import SealedStore.Proofs.Draft.Reads
import SealedStore.Proofs.Duration
import SealedStore.Proofs.Engine.Abort
import SealedStore.Proofs.Engine.Commit
import SealedStore.Proofs.Engine.Crash
import SealedStore.Proofs.Engine.Deposit
import SealedStore.Proofs.Engine.Effect
import SealedStore.Proofs.Engine.Intake
import SealedStore.Proofs.Engine.Simulation
import SealedStore.Proofs.Engine.Storage
import SealedStore.Proofs.FanOut
import SealedStore.Proofs.Interleaving
import SealedStore.Proofs.Isolation
import SealedStore.Proofs.Json.Exact
import SealedStore.Proofs.Json.Literal
import SealedStore.Proofs.Json.Neat
import SealedStore.Proofs.Json.RoundTrip
import SealedStore.Proofs.Lifecycle.Balance
import SealedStore.Proofs.Lifecycle.Call
import SealedStore.Proofs.Lifecycle.Race
import SealedStore.Proofs.Outbox
import SealedStore.Proofs.Outbox.Queue
import SealedStore.Proofs.Overlay
import SealedStore.Proofs.Provenance
import SealedStore.Proofs.Record.Identity
import SealedStore.Proofs.Record.Json
import SealedStore.Proofs.Record.Signed
import SealedStore.Proofs.Record.Wire
import SealedStore.Proofs.Redis.Expiry
import SealedStore.Proofs.Replication.Access
import SealedStore.Proofs.Replication.Convergence
import SealedStore.Proofs.Replication.Deliverable
import SealedStore.Proofs.Replication.Echo
import SealedStore.Proofs.Replication.Fates
import SealedStore.Proofs.Replication.Filter
import SealedStore.Proofs.Replication.Independent
import SealedStore.Proofs.Replication.Published
import SealedStore.Proofs.Replication.Recovery
import SealedStore.Proofs.Replication.Redelivery
import SealedStore.Proofs.Reserved
import SealedStore.Proofs.Rooted
import SealedStore.Proofs.Sample.Batch
import SealedStore.Proofs.Sample.Exchange
import SealedStore.Proofs.Sample.Node
import SealedStore.Proofs.Session
import SealedStore.Proofs.Session.Deeds
import SealedStore.Proofs.Session.Listings
import SealedStore.Proofs.Session.Operation
import SealedStore.Proofs.Session.Simulation
import SealedStore.Proofs.Session.Upkeep
import SealedStore.Proofs.Shutdown
import SealedStore.Proofs.Step
import SealedStore.Proofs.StorageKeys
import SealedStore.Proofs.Toml.Document
import SealedStore.Proofs.Toml.Quoted
import SealedStore.Proofs.Transaction.Json
import SealedStore.Quantity
import SealedStore.Record.Basic
import SealedStore.Record.Identity
import SealedStore.Record.Json
import SealedStore.Redis.Client
import SealedStore.Redis.Url
import SealedStore.Redis.Url.Host
import SealedStore.Redis.Url.Path
import SealedStore.Shutdown
import SealedStore.Signer
import SealedStore.Step
import SealedStore.Table
import SealedStore.Text.Blank
import SealedStore.Text.Lowercase
import SealedStore.Text.Percent
import SealedStore.Toml.Basic
import SealedStore.Toml.Printer
import SealedStore.Toml.Quoted
import SealedStore.Toml.Reader
import SealedStore.Toml.Scalar
import SealedStore.Toml.Table
import SealedStore.Topic
import SealedStore.Transaction.Basic
import SealedStore.Transaction.Json
import SealedStore.Transaction.Rlp
import SealedStore.Transaction.Sender
import SealedStore.Uuid
