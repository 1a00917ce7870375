import NamedData.Forwarder.ReceiveData
import NamedData.Forwarder.SendInterest

/-!
# Strategies

A strategy decides what happens to an Interest that wants to be forwarded. Its decision is
a plan: actions to perform one after the other, where what comes next may depend on the
state of the node at that point. While a plan runs the strategy is busy. A plan that lets
a packet arrive or polls the timers runs the pipeline without a strategy.

## Main definitions

* `Action`, `Plan` and `Plan.run`
* `Strategy`, and `Strategy.hooks`, which connects it to the pipeline
* `Strategy.bestRoute`, which tries the cheapest usable next hop
-/
namespace NamedData

/-- What a plan may do. -/
inductive Action
  /-- Send the Interest of an entry through a face. -/
  | send (entry : Pit.Handle) (face : FaceId) (newNonce : Bool)
  /-- Give an entry up. -/
  | reject (entry : Pit.Handle)
  /-- Let an Interest arrive on a face. -/
  | interest (face : FaceId) (i : Interest)
  /-- Let Data arrive on a face. -/
  | data (face : FaceId) (d : Data)
  /-- Remove a face. -/
  | close (face : FaceId)
  /-- Fire the timers due by a time. -/
  | poll (t : Instant)
deriving DecidableEq

def Action.perform : Action → Forwarder → Forwarder
  | send entry face newNonce, fw => fw.sendInterest entry face newNonce
  | reject entry, fw => fw.rejectInterest entry
  | interest face i, fw => fw.receiveInterest .absent face i
  | data face d, fw => fw.receiveData .absent face d
  | close face, fw => fw.removeFace face
  | poll t, fw => fw.pollTimers .absent t

/-- Actions in order. -/
inductive Plan
  /-- Nothing is left to do. -/
  | done
  /-- Perform an action, then go on. -/
  | act (a : Action) (rest : Plan)
  /-- Go on as the state of the node suggests. -/
  | look (choose : Forwarder → Plan)

namespace Plan

def run : Plan → Forwarder → Forwarder
  | done, fw => fw
  | act a rest, fw => rest.run (a.perform fw)
  | look choose, fw => (choose fw).run fw

/-- Perform the actions of `p`, then those of `q`. -/
def append (p q : Plan) : Plan :=
  match p with
  | done => q
  | act a rest => act a (rest.append q)
  | look choose => look fun fw => (choose fw).append q

instance : Append Plan := ⟨append⟩

/-- Perform the given actions. -/
def ofList (actions : List Action) : Plan := actions.foldr act done

/-- The plan sends and rejects, and does nothing else. -/
inductive Forwards : Plan → Prop
  | done : Forwards done
  | send {entry face newNonce rest} (h : Forwards rest) :
    Forwards (act (.send entry face newNonce) rest)
  | reject {entry rest} (h : Forwards rest) : Forwards (act (.reject entry) rest)
  | look {choose} (h : ∀ fw, Forwards (choose fw)) : Forwards (look choose)

end Plan

/-- What decides about Interests that want to be forwarded. -/
structure Strategy where
  /-- The plan for an Interest, given the route of its name and its entry. -/
  receive : Incoming Interest → Fib.Entry → Pit.Handle → Plan

namespace Strategy

/-- The pipeline's way to a strategy that is not busy. -/
def hooks (s : Strategy) : Hooks where
  receive i route h fw :=
    (s.receive i route h).run (fw.record (.told .strategy (.received i route h)))
  tell notice fw := fw.record (.told .strategy notice)

/-- The next hop can take the Interest of the entry, which came in on `inFace`. -/
def Usable (fw : Forwarder) (e : Pit.Entry) (inFace : FaceId) (hop : NextHop) : Prop :=
  hop.face ≠ inFace ∧ ∃ face ∈ fw.faces.get? hop.face, ¬ e.ViolatesScope face

instance (fw : Forwarder) (e : Pit.Entry) (inFace : FaceId) (hop : NextHop) :
    Decidable (Usable fw e inFace hop) :=
  inferInstanceAs (Decidable (_ ∧ ∃ face ∈ fw.faces.get? hop.face, ¬ e.ViolatesScope face))

/-- Send each Interest to the cheapest usable next hop, and give it up if there is none. -/
def bestRoute : Strategy where
  receive i route h := .look fun fw =>
    match fw.pit.get? h with
    | none => .done
    | some e =>
      match route.nextHops.find? fun hop => Usable fw e i.face hop with
      | some hop => .act (.send h hop.face false) .done
      | none => .act (.reject h) .done

end Strategy

end NamedData
