import NamedData.Name.Index
import NamedData.Packet

/-!
# Dead nonce list

After an entry of the pending Interest table is gone, the list remembers which nonces the
node sent out under its name, so that a copy that loops back is still recognised. A pair
of name and nonce is forgotten one lifetime after it was last added, or earlier when the
list is over its capacity.

The queue holds one stamp for each time a pair was added. When a pair is added again its
older stamp stays behind in the queue until it comes to the front, or until the queue is
twice as long as the capacity.

## Main definitions

* `DeadNonceList`, with `add` and `Has`
-/
namespace NamedData

namespace DeadNonceList

/-- A name and nonce, and when the pair was added. -/
structure Stamp where
  time : Instant
  name : Name
  nonce : Nonce
deriving DecidableEq

end DeadNonceList

/-- The nonces that were sent out lately. -/
structure DeadNonceList where
  /-- How long a pair is remembered. -/
  lifetime : Millis := 6000
  /-- How many pairs are remembered. -/
  capacity : Nat := 65536
  /-- The stamps in the order of their addition. -/
  queue : List DeadNonceList.Stamp := []
  /-- When each pair was added last. -/
  index : NameIndex (SortedMap Nonce Instant) := ∅
  /-- The number of pairs in the index. -/
  size : Nat := 0
deriving DecidableEq

namespace DeadNonceList

def isEmpty (l : DeadNonceList) : Bool := l.size == 0

/-- When the pair was added last. -/
def addedAt? (l : DeadNonceList) (name : Name) (nonce : Nonce) : Option Instant :=
  (l.index.get? name).bind (·.get? nonce)

/-- The pair was added less than a lifetime before `now`. -/
def Has (l : DeadNonceList) (name : Name) (nonce : Nonce) (now : Instant) : Prop :=
  ∃ t ∈ l.addedAt? name nonce, now - t < l.lifetime

instance (l : DeadNonceList) (name : Name) (nonce : Nonce) (now : Instant) :
    Decidable (l.Has name nonce now) :=
  inferInstanceAs (Decidable (∃ t ∈ l.addedAt? name nonce, now - t < l.lifetime))

/-- The stamp is the latest of its pair. -/
def IsCurrent (l : DeadNonceList) (s : Stamp) : Prop := l.addedAt? s.name s.nonce = some s.time

instance (l : DeadNonceList) (s : Stamp) : Decidable (l.IsCurrent s) :=
  inferInstanceAs (Decidable (_ = _))

/-- Remove the pair of `s` from the index, unless it was added again later. -/
def forget (l : DeadNonceList) (s : Stamp) : DeadNonceList :=
  match l.index.get? s.name with
  | none => l
  | some nonces =>
    if nonces.get? s.nonce = some s.time then
      let rest := nonces.erase s.nonce
      { l with
        index := if rest.isEmpty then l.index.erase s.name else l.index.insert s.name rest
        size := l.size - 1 }
    else l

/-- Take the stamps off the front of the queue that are a lifetime old. -/
def purge (l : DeadNonceList) (now : Instant) : DeadNonceList :=
  let old := fun s : Stamp => decide (l.lifetime ≤ now - s.time)
  (l.queue.takeWhile old).foldl forget { l with queue := l.queue.dropWhile old }

/-- Drop the stamps of pairs that were added again later. -/
def compact (l : DeadNonceList) : DeadNonceList :=
  { l with queue := l.queue.filter fun s => l.IsCurrent s }

/-- Take stamps off the front of `queue` until the list is within its capacity. -/
def trim (l : DeadNonceList) : List Stamp → DeadNonceList
  | [] => { l with queue := [] }
  | s :: rest =>
    if l.size ≤ l.capacity then { l with queue := s :: rest } else (l.forget s).trim rest

/-- Record the time of a pair in the index. -/
def record (l : DeadNonceList) (s : Stamp) : DeadNonceList :=
  let nonces := (l.index.get? s.name).getD ∅
  { l with
    index := l.index.insert s.name (nonces.insert s.nonce s.time)
    size := if nonces.contains s.nonce then l.size else l.size + 1 }

/-- Remember that `nonce` was sent out under `name`. -/
def add (l : DeadNonceList) (name : Name) (nonce : Nonce) (now : Instant) : DeadNonceList :=
  let l := l.purge now
  if l.capacity = 0 ∨ l.addedAt? name nonce = some now then l
  else
    let s : Stamp := ⟨now, name, nonce⟩
    let l := l.record s
    let l := { l with queue := l.queue ++ [s] }
    let l := if 2 * l.capacity < l.queue.length then l.compact else l
    l.trim l.queue

end DeadNonceList

end NamedData
