import NamedData.Json.Value
import NamedData.Service
import NamedData.Time.RoundTrips
import NamedData.Time.Span

/-!
# The benchmark

An application on the node asks for one name after the other, and a neighbour that is the
next hop for all of them answers every Interest it is sent. The application waits for one
packet after each Interest, for as long as an Interest stands.

## Main definitions

* `Benchmark.start`, `Benchmark.exchange` and `Benchmark.run`
* `Benchmark.report`, the lines that are printed
-/
namespace NamedData

/-- A benchmark under way. -/
structure Benchmark where
  service : Service
  /-- The face of the application. -/
  consumer : FaceId
  /-- The face of the neighbour. -/
  producer : FaceId
  /-- The names asked for extend this one. -/
  under : Name
  /-- How long the application waits. -/
  patience : Millis
  sent : Nat := 0
  answered : Nat := 0

namespace Benchmark

/-- The link of the application's face. -/
def consumerLink : Nat := 0

/-- The link of the neighbour's face. -/
def producerLink : Nat := 1

/-- The content of every answer: the text `benchmark`. -/
def content : List UInt8 := (Component.ofChars ['b', 'e', 'n', 'c', 'h', 'm', 'a', 'r', 'k']).bytes

/-- A node with the given settings, the two faces and the route to the neighbour. -/
def start (c : Config) (under : Name) : Except Config.Error Benchmark := do
  let fw ← Forwarder.ofConfig c (.cycle 0 []) 0
  let (consumer, fw) := fw.addFace true consumerLink
  let (producer, fw) := fw.addFace false producerLink
  let fw := fw.addRoute ⟨under, producer, 0⟩
  return {
    service := { forwarder := fw }
    consumer, producer, under
    patience := c.interestLifetime.toNat }

/-- The packets that went onto a link, earliest first. -/
def packetsOn (link : Nat) (events : List Event) : List Packet :=
  events.filterMap fun
    | .sent face packet => if face.link = link then some packet else none
    | _ => none

/-- The answer of the neighbour to a packet. -/
def reply : Packet → Option Data
  | .interest i => some { name := i.name, content }
  | .data _ => none

/-- One Interest, the answers of the neighbour, and the wait for a packet. With an answer
the exchange takes one millisecond. -/
def exchange (b : Benchmark) : Benchmark :=
  let hooks := Strategy.bestRoute.hooks
  let i : Interest :=
    { name := b.under.append (.ofChars (Nat.toDigits 10 b.sent)), nonce := UInt32.ofNat b.sent }
  let s := b.service.handle hooks (.interestReceived b.consumer i)
  let replies := (packetsOn producerLink s.forwarder.events).filterMap reply
  let s := replies.foldl (fun s d => s.handle hooks (.dataReceived b.producer d)) s
  let isAnswered := !(packetsOn consumerLink s.forwarder.events).isEmpty
  let s := s.sleep hooks (if isAnswered then 1 else b.patience)
  { b with
    service := { s with forwarder := { s.forwarder with journal := [] } }
    sent := b.sent + 1
    answered := if isAnswered then b.answered + 1 else b.answered }

/-- A number of exchanges. -/
def run (b : Benchmark) (count : Nat) : Benchmark := Nat.repeat exchange count b

/-- How long the exchanges took, in nanoseconds. -/
structure Timing where
  total : Nat
  /-- The times of the exchanges that were answered. -/
  roundTrips : RoundTrips

/-- A heading with a line under it. -/
def heading (title : String) : List String :=
  ["", title, String.ofList (List.replicate title.length '-')]

/-- How often per second something happened that happened `count` times in `nanos`
nanoseconds, with two places. -/
def rate (count nanos : Nat) : String :=
  let hundredths := (2 * (count * 100 * 1000000000) + nanos) / (2 * nanos)
  Decimal.positional ⟨hundredths, -2⟩

/-- The lines about the times. -/
def Timing.report (t : Timing) : List String :=
  ("Total time: " ++ formatSpan t.total) ::
    match t.roundTrips.min?, t.roundTrips.mean?, t.roundTrips.percentile? 99, t.roundTrips.max? with
    | some least, some mean, some high, some most =>
      ["RTT min/avg/p99/max: " ++ formatSpan least ++ " / " ++ formatSpan mean ++ " / " ++
          formatSpan high ++ " / " ++ formatSpan most,
        "Throughput: " ++ rate t.roundTrips.count t.total ++ " exchanges/second"]
    | _, _, _, _ => []

end Benchmark

/-- The counters as an object. -/
def Counters.toJson (n : Counters) : Json :=
  .object [
    ("in_interests", .integer n.inInterests.toNat),
    ("out_interests", .integer n.outInterests.toNat),
    ("in_data", .integer n.inData.toNat),
    ("out_data", .integer n.outData.toNat),
    ("cs_hits", .integer n.csHits.toNat),
    ("cs_misses", .integer n.csMisses.toNat),
    ("interest_loops", .integer n.interestLoops.toNat),
    ("unsolicited_data", .integer n.unsolicitedData.toNat)]

/-- The lines that a benchmark prints in the end. -/
def Benchmark.report (b : Benchmark) (timing : Timing) : List String :=
  let fw := b.service.stop Strategy.bestRoute.hooks
  heading "Benchmark Results" ++
    ["Interests sent: " ++ toString b.sent,
      "Data received: " ++ toString b.answered,
      "Timeouts: " ++ toString (b.sent - b.answered)] ++
    timing.report ++
    heading "Forwarder Counters" ++
    [fw.counters.toJson.pretty, "Pending PIT entries: " ++ toString fw.pit.size]

end NamedData
