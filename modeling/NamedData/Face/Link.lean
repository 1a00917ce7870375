import NamedData.Packet

/-!
# Links

A link takes the packets a face sends and keeps them until the other end takes them out.
When the other end hangs up, what waits is lost and further packets go nowhere.

## Main definitions

* `Link`, with `send`, `drain` and `hangUp`
-/
namespace NamedData

/-- The far side of a face. -/
inductive Link
  /-- The other end listens. The packets it has not taken yet, oldest first. -/
  | listening (waiting : List Packet)
  /-- The other end is gone. -/
  | hungUp
deriving DecidableEq

namespace Link

/-- A link on which nothing was sent yet. -/
def fresh : Link := listening []

/-- Put a packet onto the link. -/
def send (p : Packet) : Link → Link
  | listening waiting => listening (waiting ++ [p])
  | hungUp => hungUp

/-- The packets that wait on the link, oldest first. -/
def waiting : Link → List Packet
  | listening waiting => waiting
  | hungUp => []

/-- The link after the other end took everything out. -/
def drain : Link → Link
  | listening _ => listening []
  | hungUp => hungUp

/-- The link after the other end left. -/
def hangUp (_ : Link) : Link := hungUp

end Link

end NamedData
