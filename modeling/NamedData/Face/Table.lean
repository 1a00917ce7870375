import NamedData.Face.Id
import NamedData.SortedMap

/-!
# The face table

A face connects the node to an application on it, in which case it is local, or to
another node. What leaves through a face goes onto the link the face was made for. The
link stays with the face, so it tells two faces apart that had the same number at
different times.

The table picks each number once. Unlike the counters and the generations of slots, its
count does not come round: the call that would count past the largest number fails before
the face is registered. So no face ever has the number that stands for no face.

## Main definitions

* `Face`, `FaceTable`
* `FaceTable.add`, which picks the number, and `FaceTable.reserve`, which is given one
* `FaceTable.Refusal`, why a number was not reserved
-/
namespace NamedData

/-- A registered face. -/
structure Face where
  id : FaceId
  /-- The face connects an application on this node. -/
  isLocal : Bool
  /-- The link that packets for this face go onto. -/
  link : Nat
deriving DecidableEq

/-- The registered faces by number. -/
structure FaceTable where
  faces : SortedMap FaceId Face := ∅
  /-- The number the next face gets. -/
  nextId : FaceId := .firstUnreserved
deriving DecidableEq

namespace FaceTable

/-- The reasons to refuse a reserved number. -/
inductive Refusal
  /-- The number is not in the reserved range. -/
  | notReserved (id : FaceId)
  /-- A face has the number. -/
  | alreadyRegistered (id : FaceId)
deriving DecidableEq

def Refusal.message : Refusal → String
  | notReserved id => "face " ++ toString id ++ ": not a reserved face id"
  | alreadyRegistered id => "face " ++ toString id ++ ": already registered"

def empty : FaceTable := {}

def get? (t : FaceTable) (id : FaceId) : Option Face := t.faces.get? id

def contains (t : FaceTable) (id : FaceId) : Bool := t.faces.contains id

def size (t : FaceTable) : Nat := t.faces.size

def isEmpty (t : FaceTable) : Bool := t.faces.isEmpty

/-- The numbers of the registered faces, smallest first. -/
def ids (t : FaceTable) : List FaceId := t.faces.keys

/-- Register a face under the next free number, and say which it is. If the count cannot go
on after it, the call fails and leaves the table as it was, and `FaceId.invalid` stands for
the answer that does not come. -/
def add (t : FaceTable) (isLocal : Bool) (link : Nat) : FaceId × FaceTable :=
  match t.nextId.next? with
  | none => (.invalid, t)
  | some next => (t.nextId, ⟨t.faces.insert t.nextId ⟨t.nextId, isLocal, link⟩, next⟩)

/-- Register a face under the reserved number `id`. -/
def reserve (t : FaceTable) (id : FaceId) (isLocal : Bool) (link : Nat) :
    Except Refusal FaceTable :=
  if ¬ id.IsReserved then .error (.notReserved id)
  else if t.contains id then .error (.alreadyRegistered id)
  else .ok { t with faces := t.faces.insert id ⟨id, isLocal, link⟩ }

/-- Forget the face with number `id`. -/
def remove (t : FaceTable) (id : FaceId) : FaceTable := { t with faces := t.faces.erase id }

end FaceTable

end NamedData
