import NamedData.Face.Link
import NamedData.Main
import NamedData.Proofs.SortedMap
import NamedData.Proofs.Replay
import NamedData.Proofs.Face.Table
import NamedData.Proofs.Name.Index
import NamedData.Proofs.Name.Order
import NamedData.Proofs.Name.Grammar
import NamedData.Proofs.Name.RoundTrip
import NamedData.Proofs.Fib.NextHops
import NamedData.Proofs.Fib.Entries
import NamedData.Proofs.Fib.RouteMap
import NamedData.Proofs.Fib.Ties
import NamedData.Proofs.ContentStore.Lookup
import NamedData.Proofs.ContentStore.Queues
import NamedData.Proofs.ContentStore.RecencyLists
import NamedData.Proofs.ContentStore.Replacement
import NamedData.Proofs.ContentStore.Answers
import NamedData.Proofs.DeadNonceList.Operations
import NamedData.Proofs.DeadNonceList.Memory
import NamedData.Proofs.DeadNonceList.Remembered
import NamedData.Proofs.DeadNonceList.Bounds
import NamedData.Proofs.Time.RoundTrips
import NamedData.Proofs.Pit.Table
import NamedData.Proofs.Pit.Entry
import NamedData.Proofs.Pit.Records
import NamedData.Proofs.Pit.Requests
import NamedData.Proofs.Timer.Queue
import NamedData.Proofs.Timer.Agenda
import NamedData.Proofs.Pit.Timers
import NamedData.Proofs.Forwarder.Effects
import NamedData.Proofs.Forwarder.Actions
import NamedData.Proofs.Forwarder.Arrival
import NamedData.Proofs.Forwarder.Expiry
import NamedData.Proofs.Forwarder.Polling
import NamedData.Proofs.Forwarder.ReceiveInterest
import NamedData.Proofs.Forwarder.Counters
import NamedData.Proofs.Forwarder.ReceiveData
import NamedData.Proofs.Forwarder.GracePeriod
import NamedData.Proofs.Forwarder.DeadNonces
import NamedData.Proofs.Pit.Census
import NamedData.Proofs.Pit.Handles
import NamedData.Proofs.Pit.CreationOrder
import NamedData.Proofs.Run
import NamedData.Proofs.Routing
import NamedData.Proofs.LocationRegistration
import NamedData.Proofs.RouteSettings
import NamedData.Proofs.EntryProperty
import NamedData.Proofs.Lifecycle
import NamedData.Proofs.TimerLapses
import NamedData.Proofs.Scope
import NamedData.Proofs.Ingress
import NamedData.Proofs.FlowBalance
import NamedData.Proofs.Retention
import NamedData.Proofs.Renewal
import NamedData.Proofs.Delivery
import NamedData.Proofs.LoopSuppression
import NamedData.Proofs.Refusal
import NamedData.Proofs.Upstream
import NamedData.Proofs.PendingLoops
import NamedData.Proofs.CachedAnswer
import NamedData.Proofs.WakeUps
import NamedData.Proofs.StoreUse
import NamedData.Proofs.PathRetrace
import NamedData.Proofs.Addressee
import NamedData.Proofs.Localhop
import NamedData.Proofs.CacheHit
import NamedData.Proofs.ValidationData
import NamedData.Proofs.Forwarder.Tally
import NamedData.Proofs.CountersTrue
import NamedData.Proofs.LatestRequest
import NamedData.Proofs.BestRoute
import NamedData.Proofs.KnownNames
import NamedData.Proofs.Exchange
import NamedData.Proofs.BenchmarkRun
