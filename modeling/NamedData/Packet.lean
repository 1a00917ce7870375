import NamedData.Face.Id
import NamedData.Name.Uri

/-!
# Packets

An Interest asks for Data under a name, and Data answers it. Packets are plain values:
what a node knows about one of them in addition, such as the face it came in on, travels
beside it.

Times are whole milliseconds without a bound. This is an idealisation in two ways. A system
clock counts in finer steps. And it has a last point in time: a node that adds a length to a
time and gets beyond that fails there and then, and is in no state afterwards. Here every
sum is there, and it is the sum of the system where that has one.

## Main definitions

* `Interest`, `Data` and `Interest.Accepts`
* `Incoming`, a packet with the face it arrived on
* `Packet`, either kind
-/
namespace NamedData

/-- A point in time, in whole milliseconds since the clock was started. -/
abbrev Instant := Nat

/-- A length of time in whole milliseconds. -/
abbrev Millis := Nat

/-- A number that tells forwarding attempts of one Interest apart. -/
abbrev Nonce := UInt32

/-- A request for Data. -/
structure Interest where
  name : Name
  nonce : Nonce := 0
  /-- How long the request stands. Without it the node's default applies. -/
  lifetime : Option Millis := none
  /-- Data under a longer name may answer. -/
  canBePrefix : Bool := false
  /-- Cached Data that has gone stale may not answer. -/
  mustBeFresh : Bool := false
  /-- The request asks the content store even while an equal one is pending. -/
  validation : Bool := false
  /-- The request goes straight to the best next hop and leaves nothing behind. -/
  locationRegistration : Bool := false
  /-- The faces a validation request arrived on, one per hop, oldest first. -/
  path : List FaceId := []
deriving DecidableEq, Inhabited

/-- Named content. -/
structure Data where
  name : Name
  content : List UInt8 := []
  /-- How long the content stays fresh in a cache. Without it, forever. -/
  freshness : Option Millis := none
  signature : List UInt8 := []
  /-- The content belongs to a validation request. -/
  validation : Bool := false
  /-- The content is pushed along `pathBack`. -/
  publishment : Bool := false
  /-- A pushed packet that removes the name from every cache on its way. -/
  expiration : Bool := false
  /-- The node may keep the content and announce itself for it. -/
  eligibility : Bool := false
  /-- The hops a pushed packet still has to take. The last of them is the next. -/
  pathBack : List FaceId := []
deriving DecidableEq, Inhabited

/-- The name of the Data answers the Interest: it extends the Interest's name where that
is allowed, and else equals it. -/
def Interest.Accepts (i : Interest) (d : Data) : Prop :=
  if i.canBePrefix then i.name.IsPrefixOf d.name else i.name = d.name

instance (i : Interest) (d : Data) : Decidable (i.Accepts d) :=
  inferInstanceAs (Decidable (ite _ _ _))

/-- A packet and the face it arrived on. -/
structure Incoming (π : Type) where
  face : FaceId
  packet : π
deriving DecidableEq

/-- A packet of either kind. -/
inductive Packet
  | interest (i : Interest)
  | data (d : Data)
deriving DecidableEq

namespace Packet

def name : Packet → Name
  | interest i => i.name
  | data d => d.name

/-- The word for the kind of packet. -/
def kind : Packet → String
  | interest _ => "Interest"
  | data _ => "Data"

end Packet

end NamedData
