import NamedData.Forwarder.Basic

/-!
# Interests that arrive

An Interest that arrives is dropped as a loop, answered from the content store, joined to
an entry that already waits, or handed to the strategy. A location registration takes a
way of its own.

## Main definitions

* `Forwarder.receiveInterest`
* `Forwarder.registerLocation`, the way of a location registration
-/
namespace NamedData.Forwarder

/-- Send a location registration to the cheapest next hop other than the face it came
from. It leaves nothing behind. -/
def registerLocation (inFace : Face) (i : Interest) (fw : Forwarder) : Forwarder :=
  if inFace.isLocal = false ∧ i.name.IsLocalhost then fw
  else
    match (fw.fib.longestPrefixMatch i.name).nextHops.find? (·.face ≠ inFace.id) with
    | none => fw
    | some hop =>
      match fw.faces.get? hop.face with
      | none => fw.log (.registrationToUnknownFace hop.face i.name)
      | some out =>
        if out.isLocal = false ∧ i.name.IsLocalhost then fw else fw.emitInterest out i

/-- The Interest was seen before: it is dropped, with the entry if it created one. -/
def dropLoop (h : Pit.Handle) (isNew : Bool) (fw : Forwarder) : Forwarder :=
  let fw := fw.count .interestLoops
  if isNew then { fw with pit := fw.pit.erase h } else fw

/-- Data leaves through the face `out`, unless there is no such face or the name may not
leave through it. -/
def sendData (d : Data) (out : FaceId) (fw : Forwarder) : Forwarder :=
  if ¬ out.IsValid then fw.log (.dataToInvalidFace d.name)
  else
    match fw.faces.get? out with
    | none => fw.log (.dataToUnknownFace out d.name)
    | some face => if face.isLocal = false ∧ d.name.IsLocalhost then fw else fw.emitData face d

/-- The entry is about to be answered with `d`. -/
def notifySatisfying (hooks : Hooks) (h : Pit.Handle) (d : Incoming Data) (fw : Forwarder) :
    Forwarder :=
  match fw.pit.get? h with
  | none => fw
  | some e => fw.notify hooks (.satisfying h e d)

/-- The content store answers. The other faces that asked for the entry keep waiting. -/
def answerFromStore (hooks : Hooks) (face : FaceId) (h : Pit.Handle) (d : Data)
    (fw : Forwarder) : Forwarder :=
  let fw := fw.notifySatisfying hooks h ⟨.contentStore, d⟩
  let stillPending := (fw.pit.get? h).any Pit.Entry.isPending
  let fw := if stillPending then fw.armUnsatisfy h else fw.armStraggler h true d.freshness
  fw.sendData d face

/-- The request is added to its entry and handed to the strategy. -/
def joinEntry (hooks : Hooks) (face : Face) (i : Interest) (h : Pit.Handle) (fw : Forwarder) :
    Forwarder :=
  let fw :=
    { fw with pit := fw.pit.modify h (·.receivedOn face.id face.isLocal i fw.now) }.armUnsatisfy h
  hooks.receive ⟨face.id, i⟩ (fw.fib.longestPrefixMatch i.name) h fw

/-- Look for an answer in the content store, and else wait for one. -/
def answerOrJoin (hooks : Hooks) (face : Face) (i : Interest) (h : Pit.Handle)
    (fw : Forwarder) : Forwarder :=
  match fw.store.find i fw.now with
  | (some d, store) =>
    ({ fw with store }.count .csHits).answerFromStore hooks face.id h d
  | (none, store) => ({ fw with store }.count .csMisses).joinEntry hooks face i h

/-- An Interest arrives on the face `inFace`. -/
def receiveInterest (hooks : Hooks) (inFace : FaceId) (i : Interest) (fw : Forwarder) :
    Forwarder :=
  let fw := fw.count .inInterests
  match fw.faces.get? inFace with
  | none => fw.log (.interestFromUnknownFace inFace i.name)
  | some face =>
    let i := if i.validation then { i with path := i.path ++ [inFace] } else i
    if i.locationRegistration then fw.registerLocation face i
    else if face.isLocal = false ∧ i.name.IsLocalhost then fw
    else
      let (h, isNew, pit) := fw.pit.insert i
      let fw := { fw with pit }
      match fw.pit.get? h with
      | none => fw
      | some e =>
        if e.findNonce i.nonce inFace ≠ .never ∨ fw.deadNonces.Has i.name i.nonce fw.now then
          fw.dropLoop h isNew
        else
          let fw := fw.cancelTimers h
          if e.isPending ∧ i.validation = false then fw.joinEntry hooks face i h
          else fw.answerOrJoin hooks face i h

end NamedData.Forwarder
