import NamedData.Forwarder.Basic

/-!
# What a strategy may do with an entry

A strategy sends the Interest of an entry on through a face, or gives the entry up.

## Main definitions

* `Forwarder.sendInterest`
* `Forwarder.rejectInterest`
-/
namespace NamedData.Forwarder

/-- Send the Interest of an entry through the face `out`. The copy that is sent is the
one that came in last from another face, or else the one from `out` itself. With
`newNonce` it gets a fresh nonce. -/
def sendInterest (h : Pit.Handle) (out : FaceId) (newNonce : Bool) (fw : Forwarder) :
    Forwarder :=
  match fw.pit.get? h with
  | none => fw.log (.sendForGoneEntry h)
  | some e =>
    if ¬ out.IsValid then fw.log (.sendToInvalidFace e.name)
    else
      match fw.faces.get? out with
      | none => fw.log (.sendToUnknownFace out e.name)
      | some face =>
        if e.ViolatesScope face then fw
        else
          match e.requestFor? out with
          | none => fw.log (.sendWithoutRequest out e.name)
          | some request =>
            let (interest, nonces) :=
              if newNonce then
                let (nonce, nonces) := fw.nonces.draw
                ({ request.interest with nonce }, nonces)
              else (request.interest, fw.nonces)
            { fw with nonces, pit := fw.pit.modify h (·.sentOn out interest fw.now) }.emitInterest
              face interest

/-- Give an entry up. This is refused while a face that was asked may still answer. -/
def rejectInterest (h : Pit.Handle) (fw : Forwarder) : Forwarder :=
  match fw.pit.get? h with
  | none => fw.log (.rejectOfGoneEntry h)
  | some e =>
    if e.HasUnexpiredOutRecords fw.now then fw.log (.rejectOfForwarded e.name)
    else (fw.cancelTimers h).armStraggler h false none

end NamedData.Forwarder
