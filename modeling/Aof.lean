import Aof.Proof.ReadinessGate
import Aof.Proof.OrderIndependence
import Aof.Proof.Confluence
import Aof.Proof.Enforcement
import Aof.Proof.OneSession
import Aof.Proof.NeverLost
import Aof.Proof.LeaseExclusion
import Aof.Proof.ProjectPolls
import Aof.Proof.LeaseClearing
import Aof.Proof.BoundedRetries
import Aof.Proof.FaithfulRun
import Aof.Proof.SpawnHandover
import Aof.Proof.DelegationDepth
import Aof.Proof.Suppression
import Aof.Proof.PermissionIsolation
import Aof.Proof.OneReview
import Aof.Proof.CursorCompleteness
import Aof.Proof.UninterruptedHandlers
import Aof.Proof.TerminalTasks
import Aof.Proof.MigrationOrder
import Aof.Proof.SnapshotRoundTrip
import Aof.Proof.RecordedChunks
import Aof.Proof.SyncCompleteness
import Aof.Proof.RollbackRestores
import Aof.Proof.ResumedMigration
import Aof.Proof.UpdateAtomicity
import Aof.Proof.CycleCheck
import Aof.Proof.ReadyHops
import Aof.Proof.Timeouts
import Aof.Proof.CircularDeps
import Aof.Proof.DispatchSpacing
import Aof.Proof.EscalationSticks
import Aof.Proof.ProtocolLocks
import Aof.Store.ContentHash
import Aof.Proof.LifecycleErrors
import Aof.Proof.AllOrNothing
import Aof.Proof.DeliverySettlement
import Aof.Proof.AttemptCount
import Aof.Proof.ChunkSize
import Aof.Proof.TextRanking
import Aof.Proof.ProjectField
import Aof.Proof.RouteEviction
import Aof.Proof.OpenclawFrame
import Aof.Proof.ContextBudget
import Aof.Proof.OrgCycles
import Aof.Proof.MemoryFilters
import Aof.Proof.SessionTrace
import Aof.Context.Resolvers
import Aof.Trace.TraceWriter
import Aof.Proof.ResourceUpdates
import Aof.Proof.WakeSlots
import Aof.Proof.DispatchOutcome
import Aof.Proof.KanbanRebuild
import Aof.Proof.RunLength
import Aof.Proof.TaskEvolution
import Aof.Proof.MessageRun
import Aof.Proof.Restart
