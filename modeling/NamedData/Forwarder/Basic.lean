import NamedData.Config.Basic
import NamedData.ContentStore
import NamedData.Counters
import NamedData.DeadNonceList
import NamedData.Forwarder.Event

/-!
# The state of a node

A forwarder owns every table of a node, its timers and its clock. What it has done
towards the outside is kept in its journal, the latest event first.

## Main definitions

* `Forwarder`, and `Forwarder.ofConfig`, a new node with its static routes
* `Forwarder.addFace`, `Forwarder.reserveFace` and `Forwarder.removeFace`
* `Forwarder.cancelTimers`, `Forwarder.armUnsatisfy` and `Forwarder.armStraggler`, the
  timers of an entry
-/
namespace NamedData

/-- An endless supply of random nonces. -/
structure NonceSource where
  tape : Nat → Nonce
  /-- How many were drawn. -/
  drawn : Nat := 0

namespace NonceSource

/-- The next nonce. -/
def draw (s : NonceSource) : Nonce × NonceSource :=
  (s.tape s.drawn, { s with drawn := s.drawn + 1 })

/-- The nonces `first :: rest` over and over. -/
def cycle (first : Nonce) (rest : List Nonce) : NonceSource where
  tape k := (first :: rest).getD (k % (rest.length + 1)) first

end NonceSource

/-- The state of a node. -/
structure Forwarder where
  faces : FaceTable := .empty
  fib : Fib := .empty
  pit : Pit := {}
  store : ContentStore := {}
  deadNonces : DeadNonceList := {}
  timers : TimerQueue TimerEvent := {}
  /-- How long an entry stays after it was answered or given up. -/
  stragglerTime : Millis := 100
  /-- The number of observers. -/
  observers : Nat := 0
  nonces : NonceSource
  counters : Counters := {}
  /-- What the node has done, latest first. -/
  journal : List Event := []

namespace Forwarder

/-- A node with the given settings and without routes. -/
def build (c : Config) (nonces : NonceSource) (observers : Nat) : Forwarder where
  pit := .withDefaultLifetime c.interestLifetime.toNat
  store := .withCapacity c.storeCapacity.toNat
  deadNonces :=
    { lifetime := c.deadNonceLifetime.toNat, capacity := c.deadNonceCapacity.toNat }
  stragglerTime := c.stragglerTime.toNat
  observers
  nonces

/-- A route becomes a next hop. -/
def addRoute (fw : Forwarder) (r : Route) : Forwarder :=
  { fw with fib := fw.fib.addNextHop r.name r.face r.cost }

/-- A node with the given settings and their static routes. -/
def ofConfig (c : Config) (nonces : NonceSource) (observers : Nat) :
    Except Config.Error Forwarder := do
  c.validate
  let routes ← c.parsedRoutes
  return routes.foldl addRoute (build c nonces observers)

/-- The time that the node's clock shows. -/
def now (fw : Forwarder) : Instant := fw.timers.now

/-- The deadline of the timer that fires first. -/
def nextDeadline? (fw : Forwarder) : Option Instant := fw.timers.nextDeadline?

/-- What the node has done, earliest first. -/
def events (fw : Forwarder) : List Event := fw.journal.reverse

/-- Write an event into the journal. -/
def record (e : Event) (fw : Forwarder) : Forwarder := { fw with journal := e :: fw.journal }

def log (i : Incident) (fw : Forwarder) : Forwarder := fw.record (.logged i)

def count (c : Counter) (fw : Forwarder) : Forwarder :=
  { fw with counters := fw.counters.increment c }

/-- An Interest leaves through `face`. -/
def emitInterest (face : Face) (i : Interest) (fw : Forwarder) : Forwarder :=
  (fw.record (.sent face (.interest i))).count .outInterests

/-- Data leaves through `face`. -/
def emitData (face : Face) (d : Data) (fw : Forwarder) : Forwarder :=
  (fw.record (.sent face (.data d))).count .outData

/-! ## Faces -/

/-- Register a face under the next number, and say which it is. Where `FaceTable.add` fails,
the node stays as it was. -/
def addFace (fw : Forwarder) (isLocal : Bool) (link : Nat) : FaceId × Forwarder :=
  let (id, faces) := fw.faces.add isLocal link
  (id, { fw with faces })

/-- Register a face under a reserved number. -/
def reserveFace (fw : Forwarder) (id : FaceId) (isLocal : Bool) (link : Nat) :
    Except FaceTable.Refusal Forwarder := do
  let faces ← fw.faces.reserve id isLocal link
  return { fw with faces }

/-- Forget a face and withdraw it from every route. Nothing happens if there is none. -/
def removeFace (id : FaceId) (fw : Forwarder) : Forwarder :=
  if fw.faces.contains id then
    { fw with faces := fw.faces.remove id, fib := fw.fib.removeFace id }
  else fw

/-! ## The timers of an entry -/

/-- Forget the timer `id`, if there is one. -/
def cancel (id : Option TimerId) (fw : Forwarder) : Forwarder :=
  match id with
  | none => fw
  | some id => { fw with timers := fw.timers.cancel id }

/-- Take away the timers of an entry. -/
def cancelTimers (h : Pit.Handle) (fw : Forwarder) : Forwarder :=
  match fw.pit.get? h with
  | none => fw
  | some e =>
    let fw := (fw.cancel e.unsatisfyTimer).cancel e.stragglerTimer
    { fw with
      pit := fw.pit.modify h fun e => { e with unsatisfyTimer := none, stragglerTimer := none } }

/-- Let the entry expire when its last request does. Without requests nothing happens. -/
def armUnsatisfy (h : Pit.Handle) (fw : Forwarder) : Forwarder :=
  match fw.pit.get? h with
  | none => fw
  | some e =>
    match e.lastExpiry? with
    | none => fw
    | some expiry =>
      let fw := fw.cancel e.unsatisfyTimer
      let (id, timers) := fw.timers.schedule (expiry - fw.now) (.unsatisfy h)
      { fw with timers, pit := fw.pit.modify h fun e => { e with unsatisfyTimer := some id } }

/-- Let the entry go after the grace period. -/
def armStraggler (h : Pit.Handle) (satisfied : Bool) (freshness : Option Millis)
    (fw : Forwarder) : Forwarder :=
  match fw.pit.get? h with
  | none => fw
  | some e =>
    let fw := fw.cancel e.stragglerTimer
    let (id, timers) := fw.timers.schedule fw.stragglerTime (.straggler h satisfied freshness)
    { fw with timers, pit := fw.pit.modify h fun e => { e with stragglerTimer := some id } }

/-! ## Listeners -/

/-- Tell every observer, in the order of their numbers. -/
def tellObservers (notice : Notice) (fw : Forwarder) : Forwarder :=
  (List.range fw.observers).foldl (fun fw k => fw.record (.told (.observer k) notice)) fw

end Forwarder

/-- How the pipeline reaches its strategy. -/
structure Hooks where
  /-- Hand over an Interest that wants to be forwarded. -/
  receive : Incoming Interest → Fib.Entry → Pit.Handle → Forwarder → Forwarder
  /-- Tell about an entry that is about to be answered or whose time is over. -/
  tell : Notice → Forwarder → Forwarder

namespace Hooks

/-- The hooks while the strategy is busy: reaching for it is an incident. -/
def absent : Hooks where
  receive _ _ _ fw := fw.log .strategyReentered
  tell _ fw := fw.log .strategyReentered

end Hooks

namespace Forwarder

/-- Tell the observers and then the strategy. -/
def notify (hooks : Hooks) (notice : Notice) (fw : Forwarder) : Forwarder :=
  hooks.tell notice (fw.tellObservers notice)

end Forwarder

end NamedData
