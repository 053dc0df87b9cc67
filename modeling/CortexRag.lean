import CortexRag.Rows
import CortexRag.Overwriting
import CortexRag.Runs
import CortexRag.DocumentTransactions
import CortexRag.VersionHistory
import CortexRag.SoftDelete
import CortexRag.LostUpdates
import CortexRag.ConcurrentUploads
import CortexRag.Workers
import CortexRag.JobProtocol
import CortexRag.StrandedJobs
import CortexRag.TerminalJobs
import CortexRag.ActiveJobs
import CortexRag.RetryCounts
import CortexRag.Chat
import CortexRag.ConversationLog
import CortexRag.Programs
import CortexRag.Service
import CortexRag.ServiceSteps
import CortexRag.ServiceSound
import CortexRag.ServiceOutcomes
import CortexRag.LiveDocuments
import CortexRag.Duplicates
import CortexRag.ProcessedRows
import CortexRag.CompletedRuns
import CortexRag.ProcessedVersions
import CortexRag.StatusAgreement
import CortexRag.Indexing
import CortexRag.Retrieval
import CortexRag.TenantViews
import CortexRag.TenantRows
import CortexRag.TwinCalls
import CortexRag.TenantIsolation
import CortexRag.Confluence
import CortexRag.Refusals
import CortexRag.RetryLoop
import CortexRag.Json
import CortexRag.Metadata
import CortexRag.StoredRows
import CortexRag.Migrations
import CortexRag.MigratedReads
import CortexRag.StorageKeys
import CortexRag.ReadPaths
import CortexRag.SortedPages
import CortexRag.Paging
import CortexRag.HistoryWindow
import CortexRag.JobStateMachine
import CortexRag.TrimmedLists
import CortexRag.RelatedLists
import CortexRag.MetadataRoundTrip
import CortexRag.MigratedWrites
import CortexRag.ParsedRows
import CortexRag.StoredMetadata
import CortexRag.JsonText
import CortexRag.JsonEquality
import CortexRag.Downgrades
import CortexRag.MigratedRuns
import CortexRag.RoundTrips
import CortexRag.UploadPolicy
import CortexRag.CatalogueRefinement
import CortexRag.PublishedEvents
import CortexRag.Provenance
import CortexRag.CodeBlocks
import CortexRag.WebPage
import CortexRag.IngestionOutcomes
import CortexRag.Dialogue
import CortexRag.Channels
