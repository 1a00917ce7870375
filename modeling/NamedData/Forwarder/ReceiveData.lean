import NamedData.Forwarder.Expiry
import NamedData.Forwarder.ReceiveInterest

/-!
# Data that arrives

Data that arrives answers every entry it satisfies, and goes to each face that still
waits on one of them. Data that nobody waits for is kept only if it came from an
application on the node. Pushed Data retraces the path of a request.

## Main definitions

* `Forwarder.receiveData`
* `Forwarder.receivePublishment`, the way of pushed Data
-/
namespace NamedData.Forwarder

/-- Put Data into the content store. -/
def storeData (d : Data) (unsolicited : Bool) (fw : Forwarder) : Forwarder :=
  { fw with store := fw.store.insert d unsolicited fw.now }

/-- Pushed Data takes the last hop off its path. The node keeps it as ordinary Data, or
drops what it has of the name if the packet says so. -/
def receivePublishment (d : Data) (fw : Forwarder) : Forwarder :=
  let onward := { d with pathBack := d.pathBack.dropLast }
  let fw :=
    match d.pathBack.getLast? with
    | none => fw
    | some out => fw.sendData onward out
  if d.expiration then { fw with store := fw.store.erase d.name }
  else fw.storeData { onward with publishment := false } false

/-- The first copy of eligible content is announced to the node it came from. -/
def storeEligible (face : Face) (d : Data) (fw : Forwarder) : Forwarder :=
  let fw :=
    if fw.store.contains d.name then fw
    else
      let (nonce, nonces) := fw.nonces.draw
      { fw with nonces }.emitInterest face
        { name := d.name, nonce, validation := true, locationRegistration := true }
  fw.storeData d false

/-- Data that nobody waits for. -/
def receiveUnsolicited (face : Face) (d : Data) (fw : Forwarder) : Forwarder :=
  let fw := fw.count .unsolicitedData
  if face.isLocal then fw.storeData d true else fw

/-- Answer one entry: the requests are done with, and the entry stays for the grace
period. -/
def satisfy (hooks : Hooks) (d : Incoming Data) (fw : Forwarder) (h : Pit.Handle) : Forwarder :=
  let freshness := d.packet.freshness
  let fw := (fw.cancelTimers h).notifySatisfying hooks h d
  let fw := fw.recordDeadNonces h true freshness (some d.face)
  { fw with pit := fw.pit.modify h fun e => e.deleteInRecords.deleteOutRecord d.face }.armStraggler
    h true freshness

/-- The faces that wait on one of the entries, each once, smallest number first. -/
def waitingFaces (entries : List Pit.Handle) (fw : Forwarder) : List FaceId :=
  let faces := entries.flatMap fun h => ((fw.pit.get? h).map (·.waitingFaces fw.now)).getD []
  (faces.foldl (fun set f => set.insert f ()) (∅ : SortedMap FaceId Unit)).keys

/-- Data arrives on the face `inFace`. -/
def receiveData (hooks : Hooks) (inFace : FaceId) (d : Data) (fw : Forwarder) : Forwarder :=
  let fw := fw.count .inData
  match fw.faces.get? inFace with
  | none => fw.log (.dataFromUnknownFace inFace d.name)
  | some face =>
    if d.validation ∧ d.publishment then fw.receivePublishment d
    else if face.isLocal = false ∧ d.name.IsLocalhost then fw
    else
      match fw.pit.dataMatches d with
      | [] => fw.receiveUnsolicited face d
      | entries =>
        let fw :=
          if d.validation ∧ d.eligibility then fw.storeEligible face d
          else if d.validation then fw
          else fw.storeData d false
        let out := (fw.waitingFaces entries).filter (· ≠ inFace)
        let fw := entries.foldl (satisfy hooks ⟨inFace, d⟩) fw
        out.foldl (fun fw f => fw.sendData d f) fw

end NamedData.Forwarder
