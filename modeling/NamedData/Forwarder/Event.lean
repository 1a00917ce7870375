import NamedData.Face.Table
import NamedData.Fib
import NamedData.Pit.Table

/-!
# What a node does, as events

Everything that a node does towards the outside is an event: a packet that leaves through
a face, a notice to the strategy or an observer, or an incident worth logging.

## Main definitions

* `TimerEvent`, what a timer of the node says when it fires
* `Notice` and `Listener`, what is told and to whom
* `Incident`, with its text
* `Event`
-/
namespace NamedData

/-- What a timer says when it fires. -/
inductive TimerEvent
  /-- No Data came before the last request for the entry expired. -/
  | unsatisfy (entry : Pit.Handle)
  /-- The grace period of an entry is over, which was answered with Data of the given
  freshness or given up. -/
  | straggler (entry : Pit.Handle) (satisfied : Bool) (freshness : Option Millis)
deriving DecidableEq

/-- Who is told what the pipeline does. -/
inductive Listener
  | strategy
  /-- One of the observers, which are numbered from 0. -/
  | observer (number : Nat)
deriving DecidableEq

/-- What a listener is told. -/
inductive Notice
  /-- An Interest wants to be forwarded. -/
  | received (interest : Incoming Interest) (route : Fib.Entry) (handle : Pit.Handle)
  /-- An entry is about to be answered. -/
  | satisfying (handle : Pit.Handle) (entry : Pit.Entry) (data : Incoming Data)
  /-- The time of an entry is over. -/
  | expiring (handle : Pit.Handle) (entry : Pit.Entry)
deriving DecidableEq

/-- Something that the pipeline refuses to do and that is worth logging. -/
inductive Incident
  | interestFromUnknownFace (face : FaceId) (name : Name)
  | registrationToUnknownFace (face : FaceId) (name : Name)
  | sendForGoneEntry (handle : Pit.Handle)
  | sendToInvalidFace (name : Name)
  | sendToUnknownFace (face : FaceId) (name : Name)
  | sendWithoutRequest (face : FaceId) (name : Name)
  | rejectOfGoneEntry (handle : Pit.Handle)
  | rejectOfForwarded (name : Name)
  | dataFromUnknownFace (face : FaceId) (name : Name)
  | dataToInvalidFace (name : Name)
  | dataToUnknownFace (face : FaceId) (name : Name)
  | strategyReentered
deriving DecidableEq

namespace Incident

/-- The strategy made a mistake. All other incidents are warnings. -/
def isError : Incident → Bool
  | rejectOfForwarded _ | strategyReentered => true
  | _ => false

def text : Incident → String
  | interestFromUnknownFace face name =>
    "onIncomingInterest: unknown face " ++ toString face ++ " for " ++ toString name
  | registrationToUnknownFace face name =>
    "onLocationRegistration face=" ++ toString face ++ " unknown, interest=" ++ toString name
  | sendForGoneEntry h => "onOutgoingInterest: PIT entry " ++ toString h ++ " is gone"
  | sendToInvalidFace name => "onOutgoingInterest face=invalid interest=" ++ toString name
  | sendToUnknownFace face name =>
    "onOutgoingInterest face=" ++ toString face ++ " unknown, interest=" ++ toString name
  | sendWithoutRequest face name =>
    "onOutgoingInterest face=" ++ toString face ++ " interest=" ++ toString name ++
      " has no in-record"
  | rejectOfGoneEntry h => "onInterestReject: PIT entry " ++ toString h ++ " is gone"
  | rejectOfForwarded name =>
    "onInterestReject interest=" ++ toString name ++ " cannot reject forwarded Interest"
  | dataFromUnknownFace face name =>
    "onIncomingData: unknown face " ++ toString face ++ " for " ++ toString name
  | dataToInvalidFace name => "onOutgoingData face=invalid data=" ++ toString name
  | dataToUnknownFace face name =>
    "onOutgoingData face=" ++ toString face ++ " unknown, data=" ++ toString name
  | strategyReentered => "strategy re-entered the pipeline through a hook"

/-- The line that a log shows. -/
def line (i : Incident) : String := (if i.isError then "ERROR " else "WARN ") ++ i.text

end Incident

/-- Something that a node does towards the outside. -/
inductive Event
  /-- A packet leaves through a face. -/
  | sent (face : Face) (packet : Packet)
  | told (listener : Listener) (notice : Notice)
  | logged (incident : Incident)
deriving DecidableEq

end NamedData
