import SubagentBridge.Library.Interleaving
import SubagentBridge.Library.JsonLaws
import SubagentBridge.Library.HashChain
import SubagentBridge.Library.Text
import SubagentBridge.Library.TextLines
import SubagentBridge.Storage.AuditLedger
import SubagentBridge.Storage.AuditLedgerLaws
import SubagentBridge.Storage.AuditLedgerRuns
import SubagentBridge.Storage.Redaction
import SubagentBridge.Domain.Contracts
import SubagentBridge.Domain.Engine
import SubagentBridge.Planner.Budget
import SubagentBridge.Planner.TaskDag
import SubagentBridge.Qa.Adjudication
import SubagentBridge.Team.Coordinator
import SubagentBridge.Team.CoordinatorLaws
import SubagentBridge.Team.Provenance
import SubagentBridge.Team.Dependencies
import SubagentBridge.Approval.OperatorBoundary
import SubagentBridge.Approval.OperatorBoundaryLaws
import SubagentBridge.Approval.OperatorBoundaryRuns
import SubagentBridge.Domain.TeamContracts
import SubagentBridge.Library.PathResolution
import SubagentBridge.Library.Paths
import SubagentBridge.Library.Plays
import SubagentBridge.Storage.TeamStore
import SubagentBridge.Team.Supervisor
import SubagentBridge.Team.TeamManager
import SubagentBridge.Recovery.CrashRecovery
import SubagentBridge.Recovery.ResumeTask
import SubagentBridge.Recovery.Supervisors
import SubagentBridge.Recovery.Discipline
import SubagentBridge.Recovery.DisciplineLaws
import SubagentBridge.Recovery.Rows
import SubagentBridge.Recovery.SupervisorRuns
import SubagentBridge.Recovery.ResumeExclusion
import SubagentBridge.Recovery.Inspection
import SubagentBridge.Recovery.ClaimRelease
import SubagentBridge.Recovery.ResumePlan
import SubagentBridge.Recovery.FinishedWork
import SubagentBridge.Recovery.ItemIdentity
import SubagentBridge.Recovery.TerminalStatus
import SubagentBridge.Recovery.SteeringHistory
import SubagentBridge.Recovery.Deduplication
import SubagentBridge.Recovery.AmbiguousItems
import SubagentBridge.Recovery.Handoffs
import SubagentBridge.Library.Solo
import SubagentBridge.Recovery.AcceptedHandoff
import SubagentBridge.Recovery.ArtifactFiles
import SubagentBridge.Recovery.GenuineHandoff
import SubagentBridge.Recovery.StrandedWork
import SubagentBridge.Team.TeamIdentity
import SubagentBridge.Library.Escrow
import SubagentBridge.Planner.DurableBudget
import SubagentBridge.Planner.DurableBudgetLaws
import SubagentBridge.Planner.DurableBudgetRuns
import SubagentBridge.Team.TreeUpdates
import SubagentBridge.Team.FailedBegins
import SubagentBridge.Team.FixRounds
import SubagentBridge.Team.Reservations
import SubagentBridge.Team.ReturnedCalls
import SubagentBridge.Team.StaleDispatches
import SubagentBridge.Approval.DecisionProofs
import SubagentBridge.Approval.VerifiedOperatorAuthority
import SubagentBridge.Approval.ProvenTickets
import SubagentBridge.Approval.DecisionRecords
import SubagentBridge.Approval.FailedResolutions
import SubagentBridge.Messaging.Bus
import SubagentBridge.Messaging.BusRuns
import SubagentBridge.Execution.Checkout
import SubagentBridge.Execution.QaReport
import SubagentBridge.Execution.ScopedWorkspace
import SubagentBridge.Library.Service
import SubagentBridge.Storage.SqliteStore
import SubagentBridge.Execution.NativeRuntime
import SubagentBridge.Server.CommandGate
import SubagentBridge.Server.Tools
import SubagentBridge.Server.ToolLaws
import SubagentBridge.Server.VerifiedEvidence
import SubagentBridge.Server.LifecycleLaws
import SubagentBridge.Server.LifecycleStages
import SubagentBridge.Server.LifecycleSoundness
import SubagentBridge.Server.Allowlist
import SubagentBridge.Server.GatedCommands
import SubagentBridge.Server.SingleUse
import SubagentBridge.Planner.TaskDagLaws
import SubagentBridge.Library.Topological
import SubagentBridge.Planner.TaskOrder
import SubagentBridge.Server.Records
import SubagentBridge.Library.GuardedService
import SubagentBridge.Server.Deeds
import SubagentBridge.Server.InterruptedWork
import SubagentBridge.Server.RunStatus
import SubagentBridge.Execution.WorkerBudget
import SubagentBridge.Execution.CheckoutStatus
import SubagentBridge.Execution.WorkingDirectory
import SubagentBridge.Execution.WorkspaceFiles
import SubagentBridge.Execution.WorktreeCleanup
import SubagentBridge.Execution.WorktreeListing
import SubagentBridge.Execution.WorktreeManager
import SubagentBridge.Execution.TaskAnswers
import SubagentBridge.Execution.AnsweredTasks
import SubagentBridge.Approval.IssuedTickets
import SubagentBridge.Library.Skipping
import SubagentBridge.Approval.LedgerIndependence
import SubagentBridge.Domain.DispatchAttempts
import SubagentBridge.Storage.RecoveryClosure
import SubagentBridge.Models.NineRouter
import SubagentBridge.Models.RequestBudget
import SubagentBridge.Team.RosterCapacity
import SubagentBridge.Team.ChannelMessages
import SubagentBridge.Team.LeadHistory
import SubagentBridge.Execution.TreeIdentity
import SubagentBridge.Execution.StreamReaderLaws
import SubagentBridge.Library.Locks
import SubagentBridge.Execution.WorkerProcess
import SubagentBridge.Execution.WorkerProcesses
import SubagentBridge.Execution.TaskClaims
import SubagentBridge.Execution.TaskCalls
import SubagentBridge.Execution.ProcessFrames
import SubagentBridge.Execution.OutstandingTasks
import SubagentBridge.Execution.TaskRuns
import SubagentBridge.Library.Threads
import SubagentBridge.Execution.WorkerThreads
import SubagentBridge.Execution.WorkerReplies
import SubagentBridge.Execution.Interrupts
import SubagentBridge.Execution.ServedProcesses
