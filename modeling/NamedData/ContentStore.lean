import NamedData.Name.Index
import NamedData.Packet

/-!
# Content store

The store keeps Data by name, up to a capacity. Data that nobody asked for is dropped
before anything that was asked for, and within either kind what was used least recently
goes first. A lookup prefers the smallest name that answers.

Uses are numbered. Each kind has a queue of names by the numbers of their last uses, so the
first name in a queue is the one to drop.

## Main definitions

* `ContentStore`, with `insert`, `find`, `erase` and `setCapacity`
-/
namespace NamedData

namespace ContentStore

/-- A stored packet. -/
structure Entry where
  data : Data
  /-- When the Data turns stale, if ever. -/
  staleAt : Option Instant
  /-- Nobody asked for the Data. -/
  unsolicited : Bool
  /-- The number of its last use. -/
  seq : Nat
deriving DecidableEq

/-- The Data has not turned stale yet. -/
def Entry.IsFresh (e : Entry) (now : Instant) : Prop := ∀ t ∈ e.staleAt, now < t

instance (e : Entry) (now : Instant) : Decidable (e.IsFresh now) :=
  inferInstanceAs (Decidable (∀ t ∈ e.staleAt, now < t))

/-- The entry may answer `i`, as far as freshness goes. -/
def Entry.Serves (e : Entry) (i : Interest) (now : Instant) : Prop :=
  i.mustBeFresh = true → e.IsFresh now

instance (e : Entry) (i : Interest) (now : Instant) : Decidable (e.Serves i now) :=
  inferInstanceAs (Decidable (i.mustBeFresh = true → e.IsFresh now))

end ContentStore

/-- A cache of Data by name. -/
structure ContentStore where
  entries : NameIndex ContentStore.Entry := ∅
  /-- The names of Data that was asked for, by their last uses. -/
  solicited : SortedMap Nat Name := ∅
  /-- The names of Data that nobody asked for, by their last uses. -/
  unsolicited : SortedMap Nat Name := ∅
  capacity : Nat := 1000
  /-- The number the next use gets. -/
  nextSeq : Nat := 0
deriving DecidableEq

namespace ContentStore

def withCapacity (capacity : Nat) : ContentStore := { capacity }

/-- The number of stored packets. -/
def size (cs : ContentStore) : Nat := cs.entries.size

def isEmpty (cs : ContentStore) : Bool := cs.entries.isEmpty

/-- Data under exactly `name` is stored. -/
def contains (cs : ContentStore) (name : Name) : Bool := cs.entries.contains name

/-- Take the use `seq` out of the queue for its kind. -/
def dequeue (cs : ContentStore) (seq : Nat) (unsolicited : Bool) : ContentStore :=
  if unsolicited then { cs with unsolicited := cs.unsolicited.erase seq }
  else { cs with solicited := cs.solicited.erase seq }

/-- Take the last use of `name` out of its queue, if Data is stored under it. -/
def release (cs : ContentStore) (name : Name) : ContentStore :=
  match cs.entries.get? name with
  | none => cs
  | some e => cs.dequeue e.seq e.unsolicited

/-- Put `name` into the queue for its kind, under the use `seq`. -/
def enqueue (cs : ContentStore) (seq : Nat) (unsolicited : Bool) (name : Name) : ContentStore :=
  if unsolicited then { cs with unsolicited := cs.unsolicited.insert seq name }
  else { cs with solicited := cs.solicited.insert seq name }

/-- Store the entry `e` under `name`, as used now. -/
def put (cs : ContentStore) (name : Name) (e : Entry) : ContentStore :=
  { cs.enqueue cs.nextSeq e.unsolicited name with
    entries := cs.entries.insert name { e with seq := cs.nextSeq }
    nextSeq := cs.nextSeq + 1 }

/-- A place in one of the queues. -/
structure Place where
  seq : Nat
  unsolicited : Bool
  name : Name

/-- The places in the order in which they are given up. -/
def places (cs : ContentStore) : List Place :=
  cs.unsolicited.toList.map (fun b => ⟨b.1, true, b.2⟩) ++
    cs.solicited.toList.map fun b => ⟨b.1, false, b.2⟩

/-- Give up `p` and the packet that is there. -/
def drop (cs : ContentStore) (p : Place) : ContentStore :=
  { cs.dequeue p.seq p.unsolicited with entries := cs.entries.erase p.name }

/-- Give up one place after the other until no more than the capacity is stored. -/
def trim (cs : ContentStore) : List Place → ContentStore
  | [] => cs
  | p :: rest => if cs.size ≤ cs.capacity then cs else (cs.drop p).trim rest

/-- Drop packets until no more than the capacity is stored. -/
def evictExcess (cs : ContentStore) : ContentStore := cs.trim cs.places

/-- Store `d` in place of older Data of its name. It counts as asked for if either of
them was. -/
def insert (cs : ContentStore) (d : Data) (unsolicited : Bool) (now : Instant) : ContentStore :=
  if cs.capacity = 0 then cs
  else
    let mark := ((cs.entries.get? d.name).map Entry.unsolicited).getD true && unsolicited
    let entry : Entry := ⟨d, d.freshness.map (now + ·), mark, cs.nextSeq⟩
    ((cs.release d.name).put d.name entry).evictExcess

/-- Count a use of the Data under `name`. -/
def touch (cs : ContentStore) (name : Name) : ContentStore :=
  match cs.entries.get? name with
  | none => { cs with nextSeq := cs.nextSeq + 1 }
  | some e => (cs.release name).put name e

/-- The entry that answers `i`: the one of its exact name or, where a longer name may
answer, the first one in name order. -/
def lookup (cs : ContentStore) (i : Interest) (now : Instant) : Option Entry :=
  if i.canBePrefix then
    let extensions := (cs.entries.bindingsFrom i.name).takeWhile fun b => i.name.IsPrefixOf b.1
    (extensions.find? fun b => b.2.Serves i now).map Prod.snd
  else (cs.entries.get? i.name).filter (·.Serves i now)

/-- The Data that answers `i`, and the store after this use of it. -/
def find (cs : ContentStore) (i : Interest) (now : Instant) : Option Data × ContentStore :=
  match cs.lookup i now with
  | none => (none, cs)
  | some e => (some e.data, cs.touch e.data.name)

/-- Remove the Data under exactly `name`. -/
def erase (cs : ContentStore) (name : Name) : ContentStore :=
  { cs.release name with entries := cs.entries.erase name }

/-- Change the capacity, and drop what is over it. -/
def setCapacity (cs : ContentStore) (capacity : Nat) : ContentStore :=
  { cs with capacity }.evictExcess

end ContentStore

end NamedData
