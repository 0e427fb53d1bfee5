import WebhookInbox.Library.Transition
import WebhookInbox.Library.FoldTrace
import WebhookInbox.Library.Linq
import WebhookInbox.Library.Table
import WebhookInbox.Library.Hex
import WebhookInbox.Library.Utf8
import WebhookInbox.Library.NetString
import WebhookInbox.Domain.Entities
import WebhookInbox.Api.Http
import WebhookInbox.Api.Signatures
import WebhookInbox.Api.Verdicts
import WebhookInbox.Api.Binding
import WebhookInbox.Api.Layout
import WebhookInbox.Api.GitHub
import WebhookInbox.Api.Idempotency
import WebhookInbox.Api.Redis
import WebhookInbox.Api.Inbox
import WebhookInbox.Api.Verified
import WebhookInbox.Api.Keys
import WebhookInbox.Api.Resent
import WebhookInbox.Api.Ingestion
import WebhookInbox.Worker.Options
import WebhookInbox.Worker.Context
import WebhookInbox.Worker.Processor
import WebhookInbox.Worker.Delivery
import WebhookInbox.Worker.Pass
import WebhookInbox.Worker.Retries
import WebhookInbox.Worker.Cap
import WebhookInbox.Worker.Order
import WebhookInbox.Worker.Recovery
import WebhookInbox.Worker.Agreement
import WebhookInbox.Worker.Log
import WebhookInbox.Worker.Interrupted
import WebhookInbox.Worker.Backoff
import WebhookInbox.Worker.Progress
import WebhookInbox.Worker.Endpoints
import WebhookInbox.Library.Endless
import WebhookInbox.Worker.Quiescence
import WebhookInbox.Api.RateLimiting
import WebhookInbox.Library.Interleaving
import WebhookInbox.Library.Simulation
import WebhookInbox.Library.NumberedLog
import WebhookInbox.Worker.Automaton
import WebhookInbox.Worker.Cluster
import WebhookInbox.Library.Service
import WebhookInbox.Library.Utf16
import WebhookInbox.Library.Base64
import WebhookInbox.Library.Json
import WebhookInbox.Library.Paging
import WebhookInbox.Api.InMemory
import WebhookInbox.Api.Stores
import WebhookInbox.Api.Timestamps
import WebhookInbox.Api.Events
import WebhookInbox.Api.Slices
import WebhookInbox.Api.Details
import WebhookInbox.Api.Payloads
import WebhookInbox.Worker.Work
import WebhookInbox.Worker.Schedule
import WebhookInbox.Worker.Labels
import WebhookInbox.Worker.Bodies
import WebhookInbox.Worker.Contention
import WebhookInbox.Worker.Receipts
import WebhookInbox.Worker.Origin
import WebhookInbox.Worker.Drain
import WebhookInbox.Worker.DeliveryLoop
import WebhookInbox.Api.Received
import WebhookInbox.Api.Window
import WebhookInbox.Api.Handlers
import WebhookInbox.Api.Linearization
import WebhookInbox.Deployment.System
import WebhookInbox.Deployment.Provenance
import WebhookInbox.Deployment.Custody
import WebhookInbox.Deployment.View
import WebhookInbox.Deployment.Service
import WebhookInbox.Deployment.Settlement
import WebhookInbox.UI.Events
import WebhookInbox.UI.Loads
import WebhookInbox.UI.LineEnds
import WebhookInbox.UI.EventDetails
import WebhookInbox.Deployment.Browsing
import WebhookInbox.Deployment.Concurrent
import WebhookInbox.LoadTest.Requests
import WebhookInbox.LoadTest.Loops
import WebhookInbox.LoadTest.Verdicts
import WebhookInbox.LoadTest.Agreement
import WebhookInbox.LoadTest.Replays
