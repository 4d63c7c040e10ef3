import FreshDocs.Analyzer
import FreshDocs.Artifacts.Basic
import FreshDocs.Artifacts.Cache
import FreshDocs.Artifacts.Dependencies
import FreshDocs.Artifacts.Snapshots
import FreshDocs.Batch.History
import FreshDocs.Batch.Plan
import FreshDocs.Batch.Regenerator
import FreshDocs.Batch.Scheduler
import FreshDocs.Batch.Settings
import FreshDocs.Batch.Strategy
import FreshDocs.Change.Event
import FreshDocs.CommandLine
import FreshDocs.Decimal.Binary
import FreshDocs.Decimal.Shortest
import FreshDocs.Decimal.Style
import FreshDocs.Digest.Basic
import FreshDocs.Digest.Compression
import FreshDocs.Digest.Tree
import FreshDocs.Engine
import FreshDocs.Feed
import FreshDocs.Files.Fault
import FreshDocs.Files.Stamp
import FreshDocs.Files.Tree
import FreshDocs.Health.Monitor
import FreshDocs.Health.Sample
import FreshDocs.Health.Settings
import FreshDocs.Json.Fields
import FreshDocs.Json.Printer
import FreshDocs.Json.Reader
import FreshDocs.Json.Value
import FreshDocs.Main
import FreshDocs.Path.Basic
import FreshDocs.Project
import FreshDocs.Proofs.ArtifactContents
import FreshDocs.Proofs.ArtifactDependencies
import FreshDocs.Proofs.ArtifactDrops
import FreshDocs.Proofs.ArtifactInvalidation
import FreshDocs.Proofs.ArtifactReads
import FreshDocs.Proofs.ArtifactRequests
import FreshDocs.Proofs.ArtifactReturns
import FreshDocs.Proofs.BatchAccounting
import FreshDocs.Proofs.BatchAnswers
import FreshDocs.Proofs.BatchAttempts
import FreshDocs.Proofs.BatchChronicle
import FreshDocs.Proofs.BatchClocks
import FreshDocs.Proofs.BatchInvalidation
import FreshDocs.Proofs.BatchMoves
import FreshDocs.Proofs.BatchPhases
import FreshDocs.Proofs.BatchPledges
import FreshDocs.Proofs.BatchPortions
import FreshDocs.Proofs.BatchRecord
import FreshDocs.Proofs.BatchReplays
import FreshDocs.Proofs.BatchRuns
import FreshDocs.Proofs.BatchShutdown
import FreshDocs.Proofs.BatchStores
import FreshDocs.Proofs.BatchTrace
import FreshDocs.Proofs.BatchTurns
import FreshDocs.Proofs.BatchViews
import FreshDocs.Proofs.BatchWaits
import FreshDocs.Proofs.BatchWindows
import FreshDocs.Proofs.BatchWorkspace
import FreshDocs.Proofs.CalendarDays
import FreshDocs.Proofs.CascadeOrder
import FreshDocs.Proofs.ChangeTexts
import FreshDocs.Proofs.DependencyCascade
import FreshDocs.Proofs.DependencyEdges
import FreshDocs.Proofs.DigestTexts
import FreshDocs.Proofs.DigitTexts
import FreshDocs.Proofs.EngineRuns
import FreshDocs.Proofs.EngineShutdown
import FreshDocs.Proofs.EngineWaits
import FreshDocs.Proofs.FailedRequests
import FreshDocs.Proofs.FileContents
import FreshDocs.Proofs.FileTrees
import FreshDocs.Proofs.FullPublications
import FreshDocs.Proofs.HealthTables
import FreshDocs.Proofs.HubCalls
import FreshDocs.Proofs.HubClients
import FreshDocs.Proofs.HubConflicts
import FreshDocs.Proofs.HubDeliveries
import FreshDocs.Proofs.HubDetection
import FreshDocs.Proofs.HubFates
import FreshDocs.Proofs.HubFlushes
import FreshDocs.Proofs.HubIds
import FreshDocs.Proofs.HubLanes
import FreshDocs.Proofs.HubLedger
import FreshDocs.Proofs.HubMessages
import FreshDocs.Proofs.HubNotices
import FreshDocs.Proofs.HubPending
import FreshDocs.Proofs.HubRegister
import FreshDocs.Proofs.HubRenaming
import FreshDocs.Proofs.HubSeparation
import FreshDocs.Proofs.HubSides
import FreshDocs.Proofs.HubSights
import FreshDocs.Proofs.HubSteps
import FreshDocs.Proofs.HubWithholding
import FreshDocs.Proofs.ImportCascades
import FreshDocs.Proofs.JsonMembers
import FreshDocs.Proofs.JsonTexts
import FreshDocs.Proofs.PathAnchors
import FreshDocs.Proofs.PathDescents
import FreshDocs.Proofs.PathKeys
import FreshDocs.Proofs.PathWalks
import FreshDocs.Proofs.ProjectAnswers
import FreshDocs.Proofs.ProjectContents
import FreshDocs.Proofs.ProjectFreshness
import FreshDocs.Proofs.ProjectSnapshots
import FreshDocs.Proofs.ProjectSources
import FreshDocs.Proofs.ProjectSteps
import FreshDocs.Proofs.ProjectStores
import FreshDocs.Proofs.Publications
import FreshDocs.Proofs.PublisherBatches
import FreshDocs.Proofs.PublisherCalls
import FreshDocs.Proofs.ReadCounters
import FreshDocs.Proofs.SectionBatches
import FreshDocs.Proofs.SectionDocuments
import FreshDocs.Proofs.SectionReads
import FreshDocs.Proofs.SectionRegistry
import FreshDocs.Proofs.ServiceFreshness
import FreshDocs.Proofs.ServiceRuns
import FreshDocs.Proofs.ServiceSnapshots
import FreshDocs.Proofs.SettingsDefaults
import FreshDocs.Proofs.SettingsLeaves
import FreshDocs.Proofs.SnapshotAnswers
import FreshDocs.Proofs.SnapshotChecks
import FreshDocs.Proofs.SnapshotContents
import FreshDocs.Proofs.SnapshotCoverage
import FreshDocs.Proofs.SnapshotReads
import FreshDocs.Proofs.SortedMaps
import FreshDocs.Proofs.SourceFigures
import FreshDocs.Proofs.SourceSpellings
import FreshDocs.Proofs.SourceTallies
import FreshDocs.Proofs.SourceTotals
import FreshDocs.Proofs.StoreBalance
import FreshDocs.Proofs.StoreCoherence
import FreshDocs.Proofs.StoreContents
import FreshDocs.Proofs.StoreReads
import FreshDocs.Proofs.StoreRecency
import FreshDocs.Proofs.StoreSteps
import FreshDocs.Proofs.StoreSweeps
import FreshDocs.Proofs.TemplateFilling
import FreshDocs.Proofs.TimestampTexts
import FreshDocs.Proofs.WireMessages
import FreshDocs.Publisher
import FreshDocs.Render.Markdown
import FreshDocs.Sections.Basic
import FreshDocs.Settings
import FreshDocs.Source.Imports
import FreshDocs.Source.Language
import FreshDocs.Source.Stats
import FreshDocs.Source.Tally
import FreshDocs.Store.Basic
import FreshDocs.Store.Limits
import FreshDocs.Sync.Client
import FreshDocs.Sync.Conflict
import FreshDocs.Sync.Hub
import FreshDocs.Sync.Message
import FreshDocs.Sync.Pulse
import FreshDocs.Sync.Revision
import FreshDocs.Sync.Settings
import FreshDocs.Text.Blank
import FreshDocs.Text.Csv
import FreshDocs.Text.Hex
import FreshDocs.Text.Inspect
import FreshDocs.Text.Lines
import FreshDocs.Text.Replace
import FreshDocs.Text.Split
import FreshDocs.Text.Word
import FreshDocs.Time.Calendar
import FreshDocs.Time.Clockwork
import FreshDocs.Time.Rfc3339
import FreshDocs.Time.Timestamp
import FreshDocs.Toml.Reader
import FreshDocs.Toml.Scalar
import FreshDocs.Toml.Tree
import FreshDocs.Uuid
import FreshDocs.Workspace
