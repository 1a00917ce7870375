import NamedData.Name.Index
import NamedData.Pit.Entry

/-!
# Pending Interest table

Entries live in numbered slots. A handle names a slot and its generation. Erasing an
entry moves the slot to the next generation, so a handle resolves to the entry it was
given out for or to nothing. Freed slots are used again, the one freed last first.

## Main definitions

* `Pit.Handle`, `Pit`
* `Pit.insert`, `Pit.erase`, `Pit.take`, `Pit.get?`, `Pit.modify`
* `Pit.find?`, the entry of a name, and `Pit.dataMatches`, the entries that Data satisfies
-/
namespace NamedData

namespace Pit

/-- A reference to an entry that may have gone. -/
structure Handle where
  /-- The number of the slot. It stands for a 32-bit word, which is faithful as long as fewer
  than `2 ^ 32` slots are held at once, and that is assumed. -/
  index : Nat
  generation : UInt32
deriving DecidableEq

instance : ToString Handle where
  toString h :=
    "PitHandle \x7b index: " ++ toString h.index ++ ", generation: " ++
      toString h.generation.toNat ++ " \x7d"

/-- A place for an entry. -/
structure Slot where
  /-- How often the slot was emptied, as a 32-bit word. -/
  generation : UInt32 := 0
  entry : Option Entry
deriving DecidableEq

end Pit

/-- The entries that stand for Interests without an answer. -/
structure Pit where
  slots : Array Pit.Slot := #[]
  /-- The empty slots, the one freed last first. -/
  free : List Nat := []
  byName : NameIndex Pit.Handle := ∅
  /-- The serial number of the next entry. -/
  nextSerial : Nat := 0
  /-- The lifetime of Interests that carry none. -/
  defaultLifetime : Millis := 4000
deriving DecidableEq

namespace Pit

def withDefaultLifetime (lifetime : Millis) : Pit := { defaultLifetime := lifetime }

/-- The number of entries. -/
def size (pit : Pit) : Nat := pit.byName.size

def isEmpty (pit : Pit) : Bool := pit.byName.isEmpty

/-- The slot that `h` refers to, if it is still of the same generation. -/
def slot? (pit : Pit) (h : Handle) : Option Slot :=
  pit.slots[h.index]?.filter (·.generation = h.generation)

/-- The entry that `h` was given out for, unless it was erased. -/
def get? (pit : Pit) (h : Handle) : Option Entry := (pit.slot? h).bind Slot.entry

/-- Change the entry that `h` refers to, if there is one. -/
def modify (pit : Pit) (h : Handle) (f : Entry → Entry) : Pit :=
  match pit.get? h with
  | none => pit
  | some e => { pit with slots := pit.slots.modify h.index fun s => { s with entry := some (f e) } }

/-- The handle of the entry for exactly `name`. -/
def find? (pit : Pit) (name : Name) : Option Handle := pit.byName.get? name

/-- Find the entry for the name of `i`, or create it. The answer says which, and whether
the entry is new. -/
def insert (pit : Pit) (i : Interest) : Handle × Bool × Pit :=
  match pit.find? i.name with
  | some h => (h, false, pit)
  | none =>
    let entry : Entry :=
      { interest := i, defaultLifetime := pit.defaultLifetime, serial := pit.nextSerial }
    match pit.free with
    | index :: free =>
      let generation := (pit.slots[index]?.map Slot.generation).getD 0
      let h : Handle := ⟨index, generation⟩
      (h, true,
        { pit with
          slots := pit.slots.modify index fun s => { s with entry := some entry }
          free
          byName := pit.byName.insert i.name h
          nextSerial := pit.nextSerial + 1 })
    | [] =>
      let h : Handle := ⟨pit.slots.size, 0⟩
      (h, true,
        { pit with
          slots := pit.slots.push { entry := some entry }
          byName := pit.byName.insert i.name h
          nextSerial := pit.nextSerial + 1 })

/-- Remove the entry that `h` refers to. Nothing happens if it is gone. -/
def erase (pit : Pit) (h : Handle) : Pit :=
  match pit.get? h with
  | none => pit
  | some e =>
    { pit with
      slots := pit.slots.modify h.index fun s => ⟨s.generation + 1, none⟩
      free := h.index :: pit.free
      byName := pit.byName.erase e.name }

/-- Remove the entry that `h` refers to and hand it over, if there is one. -/
def take (pit : Pit) (h : Handle) : Option Entry × Pit :=
  match pit.get? h with
  | none => (none, pit)
  | some e => (some e, pit.erase h)

/-- Put a numbered handle before the first one with a larger number. -/
def insertBySerial (x : Nat × Handle) : List (Nat × Handle) → List (Nat × Handle)
  | [] => [x]
  | y :: rest => if x.1 ≤ y.1 then x :: y :: rest else y :: insertBySerial x rest

/-- The entries that `d` satisfies, in the order of their creation: the entry for its
exact name, and those for shorter names whose Interest allows it. -/
def dataMatches (pit : Pit) (d : Data) : List Handle :=
  let found := (pit.byName.prefixMatches d.name).filterMap fun (name, h) =>
    (pit.get? h).bind fun e =>
      if name.size = d.name.size ∨ e.interest.canBePrefix then some (e.serial, h) else none
  (found.foldr insertBySerial []).map Prod.snd

end Pit

end NamedData
