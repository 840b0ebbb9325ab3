import Makolet.Lib.System
import Makolet.Domain.Enums
import Makolet.Lib.Outcome
import Makolet.Lib.Table
import Makolet.Lib.Timeline
import Makolet.Normalized.Schema
import Makolet.Normalized.Observations
import Makolet.Normalized.Gtin
import Makolet.Normalized.HistoryAgreement
import Makolet.Normalized.Promotions
import Makolet.Normalized.Apply
import Makolet.Normalized.Watermarks
import Makolet.Normalized.Corroboration
import Makolet.Ingestion.Repository
import Makolet.Lib.Process
import Makolet.Ingestion.Lifecycle
import Makolet.Ingestion.Ownership
import Makolet.Ingestion.Resume
import Makolet.Ingestion.Applied
import Makolet.Ingestion.Failures
import Makolet.Ingestion.Transfers
import Makolet.Collection.Ledger
import Makolet.Collection.Bookkeeping
import Makolet.Collection.Charging
import Makolet.Collection.Repository
import Makolet.Collection.Collector
import Makolet.Collection.World
import Makolet.Collection.Checkpoint
import Makolet.Collection.Bounds
import Makolet.Ingestion.Calls
import Makolet.Collection.Calls
import Makolet.Collection.Bootstrap
import Makolet.Collection.Maxima
import Makolet.Collection.Stops
import Makolet.Collection.Retries
import Makolet.Maintenance.Eligibility
import Makolet.Maintenance.Rebuild
import Makolet.Maintenance.World
import Makolet.Maintenance.Checkpoints
import Makolet.Maintenance.Barrier
import Makolet.Ingestion.Rediscovery
import Makolet.Lib.FileSystem
import Makolet.Archive.Local
import Makolet.Archive.Puts
import Makolet.Archive.World
import Makolet.Archive.Reads
import Makolet.Normalized.Keys
import Makolet.Normalized.Absence
import Makolet.Normalized.Snapshots
import Makolet.Normalized.Drops
import Makolet.Normalized.Reobservations
import Makolet.Normalized.Proposals
import Makolet.Normalized.Rosters
import Makolet.Normalized.Clocks
import Makolet.Normalized.Instants
import Makolet.Maintenance.Sequence
import Makolet.Maintenance.Admission
import Makolet.Maintenance.Replays
import Makolet.Parsing.Stage
import Makolet.Parsing.Attempts
import Makolet.Parsing.Reuse
import Makolet.Parsing.Finalize
import Makolet.Parsing.Agreement
import Makolet.Lib.Paging
import Makolet.Sources.Common
import Makolet.Sources.Adapters
import Makolet.Sources.Coverage
import Makolet.Sources.Partitions
import Makolet.Lib.Tasks
import Makolet.Worker.Model
import Makolet.Worker.Continuous
import Makolet.Worker.Once
import Makolet.Worker.Stranding
import Makolet.Backup.Bucket
import Makolet.Backup.Restore
import Makolet.Backup.Safety
import Makolet.Backup.Leftovers
import Makolet.Lib.Text
import Makolet.Lib.Bytes
import Makolet.Lib.Compact
import Makolet.Lib.Parquet
import Makolet.Export.Models
import Makolet.Export.Values
import Makolet.Export.Parquet
import Makolet.Export.ParquetMetadata
import Makolet.Export.ParquetPages
import Makolet.Export.ParquetFile
import Makolet.Export.ParquetSizes
import Makolet.Export.ParquetBudget
import Makolet.Export.ParquetRoundTrip
import Makolet.Parsing.TokenGuard
import Makolet.Parsing.TokenRuns
import Makolet.Parsing.TokenFeeds
import Makolet.Parsing.TokenSplits
import Makolet.Parsing.Records
import Makolet.Parsing.Provenance
import Makolet.Parsing.Drain
import Makolet.Parsing.Documents
import Makolet.Parsing.Scoping
import Makolet.Parsing.RecordEvents
import Makolet.Parsing.StoreContext
import Makolet.Parsing.ZipDirectory
import Makolet.Lib.Incremental
import Makolet.Parsing.Streams
import Makolet.Lib.Backtracking
import Makolet.Domain.Datetimes
import Makolet.Domain.Filenames
import Makolet.Domain.CompactStamps
import Makolet.Domain.StampedFilenames
import Makolet.Domain.Identifiers
import Makolet.Lib.Offsets
import Makolet.Domain.Calendar
import Makolet.Domain.Zones
import Makolet.Domain.Quantities
import Makolet.Batching.Events
import Makolet.Batching.Loop
import Makolet.Batching.Copy
import Makolet.Export.BatchBound
import Makolet.Export.Dataset
import Makolet.Lib.Keyset
import Makolet.Queries.CurrentPrices
import Makolet.Downloads.FtpTls
import Makolet.Lib.Percent
import Makolet.Domain.Urls
import Makolet.Sources.Identity
import Makolet.Downloads.FtpTargets
import Makolet.Queries.Cursors
import Makolet.Lib.Spacing
import Makolet.Queries.CitySearch
import Makolet.Lib.Stateful
import Makolet.Downloads.HttpTransfers
import Makolet.Downloads.PinnedTransfers
import Makolet.Batching.RecordFit
import Makolet.Parsing.CentralDirectory
import Makolet.Archive.Framing
import Makolet.Lib.Json
import Makolet.Backup.ManifestSize
import Makolet.Lib.Lines
import Makolet.Sources.FtpListing
import Makolet.Lib.Encodings
import Makolet.Parsing.SecurityMarkers
import Makolet.Lib.JsonSyntax
import Makolet.Sources.JsonShape
import Makolet.Sources.JsonValues
import Makolet.Sources.JsonListing
import Makolet.Lib.Substitution
import Makolet.Observability.Redaction
import Makolet.Observability.HiddenValues
import Makolet.Observability.SanitizedTexts
import Makolet.Lib.Ranges
import Makolet.Catalog.Review
import Makolet.Catalog.Represented
import Makolet.Catalog.Generation
import Makolet.Catalog.Protocol
import Makolet.Catalog.Decisions
import Makolet.Catalog.Listing
import Makolet.Lib.Decoders
import Makolet.Parsing.EncodingProbe
import Makolet.Capacity.Guard
