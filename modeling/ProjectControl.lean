import ProjectControl.Resumption
import ProjectControl.CompactRecord
import ProjectControl.CompactStore
import ProjectControl.CompactIntent
import ProjectControl.CompactHost
import ProjectControl.CompactCoordinate
import ProjectControl.CompactSteps
import ProjectControl.CompactEffects
import ProjectControl.CompactTools
import ProjectControl.CompactPhaseOrder
import ProjectControl.CompactKeys
import ProjectControl.CompactFinish
import ProjectControl.ResumptionAlone
import ProjectControl.CompactAlone
import ProjectControl.CompactProgress
import ProjectControl.CompactRenewal
import ProjectControl.NativeWorkflow
import ProjectControl.CompactRecovery
import ProjectControl.CompactPolling
import ProjectControl.CompactAtMostOnce
import ProjectControl.CommandJournal
import ProjectControl.CommandSupervisor
import ProjectControl.CommandExecutor
import ProjectControl.CommandSafety
import ProjectControl.CommandThreads
import ProjectControl.HandoffFence
import ProjectControl.HandoffRetry
import ProjectControl.SqlTable
import ProjectControl.Transaction
import ProjectControl.HostRegistry
import ProjectControl.HostStatements
import ProjectControl.HostCoordinator
import ProjectControl.HostTransactions
import ProjectControl.HostOwners
import ProjectControl.HostCommits
import ProjectControl.HostReclaim
import ProjectControl.HostResidency
import ProjectControl.PacketReferences
import ProjectControl.CompactFreshness
import ProjectControl.PacketGoals
import ProjectControl.HostAttempts
import ProjectControl.HostAdmission
import ProjectControl.HostFence
import ProjectControl.HostPreemption
import ProjectControl.HostBundles
import ProjectControl.ProcessIdentity
import ProjectControl.MetadataRemoval
import ProjectControl.CompactOperations
import ProjectControl.DenyBoundary
import ProjectControl.ChildIdentity
import ProjectControl.ImpactTrace
import ProjectControl.TokenRuns
import ProjectControl.WorkingTree
import ProjectControl.ResponseBudget
import ProjectControl.Preledger
import ProjectControl.PreledgerLowering
import ProjectControl.Substitution
import ProjectControl.ExportText
import ProjectControl.ExportRedaction
import ProjectControl.Frames
import ProjectControl.BuildIdentity
import ProjectControl.CommandSandbox
import ProjectControl.ExpiringCache
import ProjectControl.SnapshotBuilder
import ProjectControl.SchedulerValues
import ProjectControl.SchedulerRequirements
import ProjectControl.SchedulerGrants
import ProjectControl.WorkflowSummary
import ProjectControl.Values
import ProjectControl.Base64
import ProjectControl.Cursors
import ProjectControl.GitPathspec
import ProjectControl.Paging
import ProjectControl.EnvelopeBudget
import ProjectControl.PagedReads
import ProjectControl.ChildOperations
import ProjectControl.BoundedInspection
import ProjectControl.FirstFit
import ProjectControl.TaskPacket
import ProjectControl.ContextExpansion
import ProjectControl.EnvelopeExits
import ProjectControl.OutputRedaction
import ProjectControl.RedactedEnvelopes
import ProjectControl.Walks
import ProjectControl.Reconcile
import ProjectControl.CriticalPath
import ProjectControl.ParallelGroups
import ProjectControl.Lines
import ProjectControl.SourceRanges
import ProjectControl.Keyed
import ProjectControl.AtomicCutover
import ProjectControl.Markers
import ProjectControl.RoutingSection
import ProjectControl.PacketJobs
import ProjectControl.WireSize
import ProjectControl.PacketHints
import ProjectControl.Segments
import ProjectControl.AuditRotation
import ProjectControl.FirstCuts
import ProjectControl.TerminalMasks
import ProjectControl.SortedKeys
import ProjectControl.PythonText
import ProjectControl.AuditEvents
import ProjectControl.ContextAnchors
import ProjectControl.JsonRewriting
import ProjectControl.TracePreview
import ProjectControl.Loops
import ProjectControl.ContextLength
import ProjectControl.JsonPlaces
import ProjectControl.WholeMatches
import ProjectControl.PayloadMask
import ProjectControl.HopSearch
import ProjectControl.ProjectGraph
import ProjectControl.DisjointSets
import ProjectControl.NvlinkIslands
import ProjectControl.HostSelection
import ProjectControl.Agreement
import ProjectControl.PreledgerPlan
import ProjectControl.PreledgerOrder
import ProjectControl.TraceOmissions
import ProjectControl.PayloadTrimming
import ProjectControl.TrimmedValues
import ProjectControl.PayloadObjects
import ProjectControl.PayloadCalls
import ProjectControl.SectionPages
import ProjectControl.AuthorityPages
import ProjectControl.AdminProposals
import ProjectControl.AdminAgreement
import ProjectControl.StampedReads
import ProjectControl.TraceIndex
import ProjectControl.TraceProviders
import ProjectControl.JsonIndent
import ProjectControl.FrontDoor
