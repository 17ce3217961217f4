import Noezema.Lib.Run
import Noezema.Lib.Leads
import Noezema.Lib.AsOf
import Noezema.Lib.Datetime
import Noezema.Lib.Reach
import Noezema.Lib.Files
import Noezema.Lib.Except
import Noezema.Lib.Entries
import Noezema.Lib.References
import Noezema.Lib.Objects
import Noezema.Lib.UnionFind
import Noezema.Lib.Partition
import Noezema.Lib.Cursor
import Noezema.Lib.UniqueMatch
import Noezema.Lib.Truncation
import Noezema.Lib.Scan
import Noezema.Lib.Uuid
import Noezema.Lib.UrlSplit
import Noezema.Lib.IpAddress
import Noezema.Lib.FloatArith
import Noezema.Lib.Traced
import Noezema.Memory.Store
import Noezema.Memory.Queue
import Noezema.Memory.Dependencies
import Noezema.Memory.Closure
import Noezema.Memory.Cascade
import Noezema.Memory.BarrierRows
import Noezema.Memory.CascadeCalls
import Noezema.Memory.Scope
import Noezema.Memory.HostScope
import Noezema.Memory.Rules
import Noezema.Memory.Environment
import Noezema.Memory.SourceGraph
import Noezema.Memory.Evidence
import Noezema.Memory.Lineage
import Noezema.Memory.Assembly
import Noezema.Memory.Runtime
import Noezema.Memory.Reference
import Noezema.Memory.Staging
import Noezema.Memory.Apply
import Noezema.Memory.Changes
import Noezema.Memory.Dispute
import Noezema.Memory.Regrouping
import Noezema.Memory.Admission
import Noezema.Memory.Worker
import Noezema.Memory.DisputeCancel
import Noezema.Memory.Activation
import Noezema.Memory.PostPublish
import Noezema.Memory.Lane
import Noezema.Memory.OnlineChange
import Noezema.Memory.Fencing
import Noezema.Memory.Resumption
import Noezema.Memory.Rerun
import Noezema.Memory.Manifest
import Noezema.Memory.Offline
import Noezema.Memory.System
import Noezema.Memory.Resolutions
import Noezema.Memory.Coverage
import Noezema.Memory.BasisInForce
import Noezema.Memory.HeadWrites
import Noezema.Memory.EffectiveHeads
import Noezema.Memory.CarriedScope
import Noezema.Memory.Invalidations
import Noezema.Memory.ActingDependencies
import Noezema.Memory.GraphRevision
import Noezema.Memory.Counterevidence
import Noezema.Memory.Validation
import Noezema.Memory.LinkRevocations
import Noezema.Memory.LastEvidence
import Noezema.Memory.LinkCancel
import Noezema.Memory.Preview
import Noezema.Memory.SourceClosure
import Noezema.Memory.SourceBasis
import Noezema.Memory.ClaimUniqueness
import Noezema.Memory.Domains
import Noezema.Memory.ReverifyCoverage
import Noezema.Memory.ReverifyReference
import Noezema.Commit.Session
import Noezema.Commit.Reconciler
import Noezema.Commit.Boundary
import Noezema.Commit.Protocol
import Noezema.Commit.Outcome
import Noezema.Commit.Questions
import Noezema.Commit.Verdict
import Noezema.Host.Journal
import Noezema.Host.Resume
import Noezema.Host.PolicyChange
import Noezema.Host.Candidates
import Noezema.Cognition.Retrieval
import Noezema.Cognition.ContextPack
import Noezema.Cognition.NamedSources
import Noezema.Cognition.TokenCount
import Noezema.Cognition.PackBudgets
import Noezema.Cognition.ReliedClaims
import Noezema.Cognition.CuratorBoundary
import Noezema.Cognition.CuratorStaging
import Noezema.Cognition.ReliedSession
import Noezema.Cognition.SourceCoverage
import Noezema.Cognition.ValueDuplicate
import Noezema.Cognition.PeriodGate
import Noezema.Memory.AdmittedEdges
import Noezema.Memory.HostRecords
import Noezema.Evaluation.Tables
import Noezema.Evaluation.Repetition
import Noezema.Evaluation.Gates
import Noezema.Evaluation.Rates
import Noezema.Research.SsrfGuard
import Noezema.Research.Fetch
import Noezema.Research.Egress
import Noezema.Research.Normalization
import Noezema.Research.ValueAttribution
import Noezema.Lib.Readings
import Noezema.Lib.Rounding
import Noezema.Research.MeasuredValues
import Noezema.Cognition.AnchoredValues
import Noezema.Cognition.AssertionWindows
import Noezema.Gc.Tables
import Noezema.Gc.Sweep
import Noezema.Gc.Referential
import Noezema.Evaluation.BlindSample
import Noezema.Policy.Paths
import Noezema.Policy.Similarity
import Noezema.Artifacts.Store
import Noezema.Backup.Service
import Noezema.Backup.History
import Noezema.Backup.Restorable
import Noezema.Web.ForecastSeries
import Noezema.Lib.Grants
import Noezema.Commit.StateMachine
import Noezema.Commit.Lease
import Noezema.Commit.Admission
import Noezema.Memory.WriterGate
import Noezema.Lib.OrderedLocks
import Noezema.Commit.Locks
import Noezema.Host.WakeScheduler
import Noezema.Host.WakeNode
import Noezema.Explorer.Broker
import Noezema.Explorer.Gates
import Noezema.Explorer.Loop
import Noezema.Explorer.Plan
import Noezema.Gateway.Chat
import Noezema.Lib.LoggedWindow
import Noezema.Research.Search
import Noezema.Lib.JsonOrder
import Noezema.Lib.JsonText
import Noezema.Domain.Canonical
import Noezema.Lib.Numbering
import Noezema.Domain.Audit
import Noezema.Policy.Engine
import Noezema.Explorer.Authority
import Noezema.Lib.JsonSchema
import Noezema.Gateway.SchemaCompat
import Noezema.Lib.SelfDelimiting
import Noezema.Artifacts.Freeze
import Noezema.Sandbox.Cleanup
import Noezema.Cognition.QuestionQueue
