import NamedData.Packet
import NamedData.Face.Table
import NamedData.Timer.Queue

/-!
# Pending Interests

An entry of the pending Interest table remembers who asked for a name and whom the node
asked in turn. It has one in-record per face an Interest came in on and one out-record
per face it went out on, and it holds at most one timer of each of two kinds.

## Main definitions

* `Pit.InRecord`, `Pit.OutRecord`, `Pit.Entry`
* `Pit.refresh`, which adds or refreshes a record, as `Pit.Entry.receivedOn` and
  `Pit.Entry.sentOn` do
* `Pit.Entry.findNonce`, where a nonce was seen before
* `Pit.Entry.ViolatesScope`, whether an Interest may not leave through a face
-/
namespace NamedData.Pit

/-- A face that asked, with the Interest it sent last. -/
structure InRecord where
  face : FaceId
  /-- The face was local when the record was last refreshed. -/
  isLocal : Bool
  lastNonce : Nonce
  lastRenewed : Instant
  expiry : Instant
  interest : Interest
deriving DecidableEq

/-- A face that was asked. -/
structure OutRecord where
  face : FaceId
  lastNonce : Nonce
  lastRenewed : Instant
  expiry : Instant
deriving DecidableEq

/-- Put `r` in the place of the first record of its face, or behind all others if its face has
none. -/
def refresh {ρ : Type} (face : ρ → FaceId) (r : ρ) : List ρ → List ρ
  | [] => [r]
  | s :: rest => if face s = face r then r :: rest else s :: refresh face r rest

/-- Where an entry has seen a nonce. -/
inductive NonceSeen
  /-- Nowhere. -/
  | never
  /-- Only in records of the face in question. -/
  | sameFace
  /-- In a record of another face. -/
  | otherFace
deriving DecidableEq

/-- Go through the faces whose records carry a nonce, up to the first one other than `face`.
What was found before is `seen`. -/
def NonceSeen.scan (face : FaceId) (seen : NonceSeen) : List FaceId → NonceSeen
  | [] => seen
  | f :: rest => if f = face then scan face .sameFace rest else .otherFace

/-- What the node knows about a pending Interest. -/
structure Entry where
  /-- The Interest that created the entry. -/
  interest : Interest
  inRecords : List InRecord := []
  outRecords : List OutRecord := []
  /-- The timer for the case that no Data comes. -/
  unsatisfyTimer : Option TimerId := none
  /-- The timer for the grace period before the entry goes. -/
  stragglerTimer : Option TimerId := none
  /-- The lifetime of Interests that carry none. -/
  defaultLifetime : Millis
  /-- The number of the entry, in order of creation. -/
  serial : Nat
deriving DecidableEq

namespace Entry

def name (e : Entry) : Name := e.interest.name

/-- Somebody waits for an answer. -/
def isPending (e : Entry) : Bool := !e.inRecords.isEmpty

def inRecord? (e : Entry) (face : FaceId) : Option InRecord := e.inRecords.find? (·.face = face)

def outRecord? (e : Entry) (face : FaceId) : Option OutRecord :=
  e.outRecords.find? (·.face = face)

/-- How long an Interest stands on this entry. -/
def lifetimeOf (e : Entry) (i : Interest) : Millis := i.lifetime.getD e.defaultLifetime

/-- The faces of the records that carry `nonce`, those of the in-records first. -/
def facesWith (e : Entry) (nonce : Nonce) : List FaceId :=
  (e.inRecords.filter (·.lastNonce = nonce)).map InRecord.face ++
    (e.outRecords.filter (·.lastNonce = nonce)).map OutRecord.face

/-- Where `nonce` was seen, as asked by `face`. -/
def findNonce (e : Entry) (nonce : Nonce) (face : FaceId) : NonceSeen :=
  .scan face .never (e.facesWith nonce)

/-- Add the in-record for an Interest that came in, or refresh the one its face has. -/
def receivedOn (e : Entry) (face : FaceId) (isLocal : Bool) (i : Interest) (now : Instant) :
    Entry :=
  let record : InRecord := ⟨face, isLocal, i.nonce, now, now + e.lifetimeOf i, i⟩
  { e with inRecords := refresh InRecord.face record e.inRecords }

/-- Add the out-record for an Interest that was sent, or refresh the one its face has. -/
def sentOn (e : Entry) (face : FaceId) (i : Interest) (now : Instant) : Entry :=
  let record : OutRecord := ⟨face, i.nonce, now, now + e.lifetimeOf i⟩
  { e with outRecords := refresh OutRecord.face record e.outRecords }

def deleteInRecords (e : Entry) : Entry := { e with inRecords := [] }

def deleteOutRecord (e : Entry) (face : FaceId) : Entry :=
  { e with outRecords := e.outRecords.filter (·.face ≠ face) }

/-- A face that was asked may still answer. -/
def HasUnexpiredOutRecords (e : Entry) (now : Instant) : Prop :=
  ∃ r ∈ e.outRecords, now < r.expiry

instance (e : Entry) (now : Instant) : Decidable (e.HasUnexpiredOutRecords now) :=
  inferInstanceAs (Decidable (∃ r ∈ e.outRecords, now < r.expiry))

/-- The latest expiry of an in-record. -/
def lastExpiry? (e : Entry) : Option Instant := (e.inRecords.map InRecord.expiry).max?

/-- The faces that still wait for an answer. -/
def waitingFaces (e : Entry) (now : Instant) : List FaceId :=
  (e.inRecords.filter (now < ·.expiry)).map InRecord.face

/-- Sending the Interest to `face` would cross a border that its name forbids: a name
under `/localhost` stays on the node, and one under `/localhop` leaves it only if every
request came from the node itself. -/
def ViolatesScope (e : Entry) (face : Face) : Prop :=
  face.isLocal = false ∧
    (e.name.IsLocalhost ∨ (e.name.IsLocalhop ∧ ∃ r ∈ e.inRecords, r.isLocal = false))

instance (e : Entry) (face : Face) : Decidable (e.ViolatesScope face) :=
  inferInstanceAs (Decidable (_ ∧ _))

/-- The record `r` is to be preferred to `s` as the request to pass on to `out`: a request
from another face before one from `out` itself, then the one renewed later, then the one that
stands later in the list. -/
def Supersedes (out : FaceId) (r s : InRecord) : Prop :=
  if r.face ≠ out ∧ s.face = out then True
  else if r.face = out ∧ s.face ≠ out then False
  else s.lastRenewed ≤ r.lastRenewed

instance (out : FaceId) (r s : InRecord) : Decidable (Supersedes out r s) :=
  inferInstanceAs (Decidable (ite _ _ (ite _ _ _)))

/-- The request that is passed on to `out`. -/
def requestFor? (e : Entry) (out : FaceId) : Option InRecord :=
  e.inRecords.foldl
    (fun best r =>
      match best with
      | none => some r
      | some s => if Supersedes out r s then some r else some s)
    none

end Entry

end NamedData.Pit
