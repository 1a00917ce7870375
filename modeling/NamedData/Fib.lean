import NamedData.Face.Id
import NamedData.Name.Index

/-!
# Forwarding information base

The base says through which faces Interests under a name prefix may leave, and at what
cost. It always has an entry for the root, perhaps without next hops, so that a lookup
cannot fail. Any other entry goes away with its last next hop.

## Main definitions

* `NextHop`, and `NextHops`, a list of them in ascending cost
* `Fib.Entry`, the next hops of one prefix
* `Fib`, with `addNextHop`, `removeNextHop` and `removeFace`
* `Fib.longestPrefixMatch`, the entry that decides for a name
-/
namespace NamedData

/-- A face that Interests may leave through. Lower costs are preferred. -/
structure NextHop where
  face : FaceId
  cost : UInt64
deriving DecidableEq

/-- The next hops of an entry, cheapest first. -/
abbrev NextHops := List NextHop

namespace NextHops

/-- Put a next hop before the first one that is at least as expensive. -/
def insertByCost (hop : NextHop) : NextHops → NextHops
  | [] => [hop]
  | h :: rest => if hop.cost ≤ h.cost then hop :: h :: rest else h :: insertByCost hop rest

/-- The next hops in ascending cost. Those of one cost keep their order. -/
def sortByCost (hops : NextHops) : NextHops := hops.foldr insertByCost []

/-- The face is one of the next hops. -/
def Has (hops : NextHops) (face : FaceId) : Prop := ∃ h ∈ hops, h.face = face

instance (hops : NextHops) (face : FaceId) : Decidable (hops.Has face) :=
  inferInstanceAs (Decidable (∃ h ∈ hops, h.face = face))

/-- Give the next hop `face` the cost `cost`, or append it if it is new, and sort. -/
def set (hops : NextHops) (face : FaceId) (cost : UInt64) : NextHops :=
  sortByCost <|
    if hops.Has face then hops.map fun h => if h.face = face then { h with cost } else h
    else hops ++ [⟨face, cost⟩]

/-- The next hops other than `face`. -/
def without (hops : NextHops) (face : FaceId) : NextHops := hops.filter (·.face ≠ face)

end NextHops

namespace Fib

/-- A name prefix and its next hops. -/
structure Entry where
  /-- The prefix that the entry covers. -/
  name : Name
  nextHops : NextHops := []
deriving DecidableEq

namespace Entry

/-- The face is a next hop of the entry. -/
def HasNextHop (e : Entry) (face : FaceId) : Prop := e.nextHops.Has face

instance (e : Entry) (face : FaceId) : Decidable (e.HasNextHop face) :=
  inferInstanceAs (Decidable (e.nextHops.Has face))

/-- Make `face` a next hop, or change its cost if it is one. -/
def addNextHop (e : Entry) (face : FaceId) (cost : UInt64) : Entry :=
  { e with nextHops := e.nextHops.set face cost }

/-- Withdraw `face`, and say whether it was a next hop. -/
def removeNextHop (e : Entry) (face : FaceId) : Bool × Entry :=
  let rest := e.nextHops.without face
  (rest.length != e.nextHops.length, { e with nextHops := rest })

/-- The entry, unless it has no next hops. -/
def nonempty? (e : Entry) : Option Entry := if e.nextHops.isEmpty then none else some e

end Entry

end Fib

/-- Next hops by name prefix. -/
structure Fib where
  /-- The entry of the root. -/
  root : Fib.Entry := { name := .root }
  /-- The entries of the longer prefixes. -/
  routes : NameIndex Fib.Entry := ∅
deriving DecidableEq

namespace Fib

/-- The base that has the empty root entry only. -/
def empty : Fib := {}

/-- The number of entries, the root's included. -/
def size (fib : Fib) : Nat := fib.routes.size + 1

/-- The entries, in name order. -/
def entries (fib : Fib) : List Entry := fib.root :: fib.routes.toList.map Prod.snd

/-- Make `face` a next hop of `name`, or change its cost if it is one. -/
def addNextHop (fib : Fib) (name : Name) (face : FaceId) (cost : UInt64) : Fib :=
  if name.isRoot then { fib with root := fib.root.addNextHop face cost }
  else
    let e := (fib.routes.get? name).getD { name }
    { fib with routes := fib.routes.insert name (e.addNextHop face cost) }

/-- The entry for exactly `name`. -/
def find? (fib : Fib) (name : Name) : Option Entry :=
  if name.isRoot then some fib.root else fib.routes.get? name

/-- Withdraw `face` from the next hops of `name`, and say whether it was one. -/
def removeNextHop (fib : Fib) (name : Name) (face : FaceId) : Bool × Fib :=
  if name.isRoot then
    let (removed, root) := fib.root.removeNextHop face
    (removed, { fib with root })
  else
    match fib.routes.get? name with
    | none => (false, fib)
    | some e =>
      let (removed, rest) := e.removeNextHop face
      match rest.nonempty? with
      | none => (removed, { fib with routes := fib.routes.erase name })
      | some rest => (removed, { fib with routes := fib.routes.insert name rest })

/-- Withdraw `face` from every entry. -/
def removeFace (fib : Fib) (face : FaceId) : Fib where
  root := (fib.root.removeNextHop face).2
  routes := fib.routes.filterMap fun _ e => (e.removeNextHop face).2.nonempty?

/-- The entry for the longest prefix of `name` that has one. -/
def longestPrefixMatch (fib : Fib) (name : Name) : Entry :=
  match fib.routes.longestPrefixMatch name with
  | some (_, e) => e
  | none => fib.root

end Fib

end NamedData
