import IngestKit.Persistence.Events
import IngestKit.Event.Batch
import IngestKit.Event.NumericRange
import IngestKit.Event.RoundTrip
import IngestKit.Event.UnicodeScan
import IngestKit.Replay.Closed
import IngestKit.Messaging.Drained
import IngestKit.Messaging.Quarantine
import IngestKit.Messaging.RecordKey
import IngestKit.Messaging.Safety
import IngestKit.Api.AllOrNothing
import IngestKit.Api.Eviction
import IngestKit.Config.ApiKeys
import IngestKit.Consumer.Readiness
import IngestKit.Consumer.Shutdown
import IngestKit.Service.Diagnostics
import IngestKit.Benchmark.BacklogCounts
import IngestKit.Benchmark.CaseDelivery
import IngestKit.Benchmark.ConnectionCounts
import IngestKit.Benchmark.Conservation
import IngestKit.Benchmark.DatabaseGrid
import IngestKit.Benchmark.Handoff
import IngestKit.Benchmark.PendingObserver
import IngestKit.Benchmark.Population
import IngestKit.Benchmark.StudyStatus
import IngestKit.Benchmark.Writers
import IngestKit.Archive.Preserved
import IngestKit.Artifacts.Durability
import IngestKit.Artifacts.Verify
import IngestKit.Benchmark.Progress
import IngestKit.Outbox.Stored
import IngestKit.Runenv.Startup
