import PartnerHub.Lib.System
import PartnerHub.Lib.Table
import PartnerHub.Lib.Slots
import PartnerHub.Lib.PartitionLog
import PartnerHub.Domain.Status
import PartnerHub.Domain.Records
import PartnerHub.Domain.Rules
import PartnerHub.Domain.Text
import PartnerHub.Domain.Wire
import PartnerHub.Outbound.Store
import PartnerHub.Outbound.Processor
import PartnerHub.Outbound.Replay
import PartnerHub.Outbound.Accept
import PartnerHub.Outbound.Operations
import PartnerHub.Outbound.AttemptNumbers
import PartnerHub.Outbound.DeadLetterRounds
import PartnerHub.Outbound.AttemptBounds
import PartnerHub.Outbound.SlaFacts
import PartnerHub.Outbound.Transactions
import PartnerHub.Outbound.StatusHistory
import PartnerHub.Outbound.WriteOnce
import PartnerHub.Outbound.ReplayDesk
import PartnerHub.Outbound.DeadLetterRecords
import PartnerHub.Outbound.ReplayOnce
import PartnerHub.Outbound.Approvals
import PartnerHub.Outbound.Pipeline
import PartnerHub.Outbound.Carriers
import PartnerHub.Outbound.Completion
import PartnerHub.Outbound.OutboxRelays
import PartnerHub.Outbound.Notifications
import PartnerHub.Outbound.Consumer
import PartnerHub.Outbound.Enqueue
import PartnerHub.Outbound.StrictDuplicate
import PartnerHub.Inbound.Ingest
import PartnerHub.Inbound.Deduplication
import PartnerHub.Inbound.Publication
import PartnerHub.Circuit.Breaker
import PartnerHub.Circuit.LeavingOpen
import PartnerHub.Circuit.Pause
import PartnerHub.Relay.Batch
import PartnerHub.Relay.Locks
import PartnerHub.Relay.Safety
import PartnerHub.Relay.PublishOrder
import PartnerHub.Secrets.SigningSecrets
import PartnerHub.Secrets.Rotation
import PartnerHub.Outbound.FinishedMessages
import PartnerHub.Lib.TokenBucket
import PartnerHub.RateLimit.TokenBucket
import PartnerHub.RateLimit.Concurrent
import PartnerHub.Circuit.Sequential
import PartnerHub.Circuit.ThreeStates
import PartnerHub.Outbound.HalfOpenProbe
import PartnerHub.PartnerApi.DeliveryStatus
import PartnerHub.Outbound.FanOut
import PartnerHub.Lib.ExpiringCache
import PartnerHub.Outbound.AcceptPathDict
import PartnerHub.Outbound.CacheTransparency
import PartnerHub.Outbound.CacheInvalidation
import PartnerHub.Outbound.WireIdentity
import PartnerHub.Outbound.OneIdentity
import PartnerHub.Secrets.InboundSignature
import PartnerHub.Secrets.RotationWindow
import PartnerHub.Secrets.SignatureAcceptance
import PartnerHub.RateLimit.Outage
import PartnerHub.Outbound.BulkReplay
import PartnerHub.Lib.Json.Decode
import PartnerHub.Lib.Json.Scanner
import PartnerHub.Lib.Json.Grammar
import PartnerHub.Lib.Json.Encode
import PartnerHub.Lib.Json.Quote
import PartnerHub.Lib.Json.RoundTrip
import PartnerHub.Lib.Json.Loaded
import PartnerHub.Lib.Json.Bytes
import PartnerHub.Inbound.EventBody
import PartnerHub.Inbound.Request
import PartnerHub.Inbound.Uninterrupted
import PartnerHub.Inbound.WholeRequests
import PartnerHub.Outbound.CacheKeys
import PartnerHub.Lib.NearestRank
import PartnerHub.Lib.GroupBy
import PartnerHub.Analytics.Metrics
import PartnerHub.Analytics.Views
import PartnerHub.Analytics.Agreement
import PartnerHub.Outbound.KeyLengths
import PartnerHub.Relay.PublishAttempts
import PartnerHub.Domain.Datetime
import PartnerHub.Kafka.Envelopes
import PartnerHub.Kafka.PayloadBytes
import PartnerHub.Kafka.InboundRecord
import PartnerHub.Outbound.ScheduledRetries
import PartnerHub.Lib.Pages
import PartnerHub.Outbound.Listing
import PartnerHub.PartnerApi.IssuedKeys
import PartnerHub.Lib.Progress
import PartnerHub.Outbound.Shutdown
