import NamedData.Strategy

/-!
# The service loop

A service runs a node by the clock. It wakes up when a face reports something and when a
timer is due, and in either case lets the timers that are due fire first.

## Main definitions

* `FaceEvent`, what a face reports
* `Service`, with `Service.handle` and `Service.sleep`
-/
namespace NamedData

/-- What a face reports. -/
inductive FaceEvent
  | interestReceived (face : FaceId) (i : Interest)
  | dataReceived (face : FaceId) (d : Data)
  | closed (face : FaceId)
deriving DecidableEq

/-- A node that is run by the clock. -/
structure Service where
  forwarder : Forwarder
  /-- What the clock shows. The node's own clock shows when it was last woken up. -/
  clock : Instant := 0

namespace Service

/-- What an event does to a node. -/
def apply (hooks : Hooks) : FaceEvent → Forwarder → Forwarder
  | .interestReceived face i, fw => fw.receiveInterest hooks face i
  | .dataReceived face d, fw => fw.receiveData hooks face d
  | .closed face, fw => fw.removeFace face

/-- The service wakes up and lets the timers that are due fire. -/
def wake (hooks : Hooks) (s : Service) : Service :=
  { s with forwarder := s.forwarder.pollTimers hooks s.clock }

/-- A face reports `e`. A timer that `e` makes due at once fires after it. -/
def handle (hooks : Hooks) (e : FaceEvent) (s : Service) : Service :=
  let s := s.wake hooks
  { s with forwarder := apply hooks e s.forwarder }.wake hooks

/-- Wake up at each deadline up to `t`, at most `n` times. -/
def wakeUntil (hooks : Hooks) (t : Instant) : Nat → Service → Service
  | 0, s => s
  | n + 1, s =>
    match s.forwarder.nextDeadline? with
    | none => s
    | some deadline =>
      if deadline ≤ t then
        wakeUntil hooks t n ({ s with clock := max s.clock deadline }.wake hooks)
      else s

/-- Let `duration` pass. The service wakes up for each timer that is due in it. -/
def sleep (hooks : Hooks) (duration : Millis) (s : Service) : Service :=
  let t := s.clock + duration
  { s.wakeUntil hooks t s.forwarder.timers.size with clock := t }

/-- The faces are gone, so the service stops and hands over the node. -/
def stop (hooks : Hooks) (s : Service) : Forwarder := (s.wake hooks).forwarder

end Service

end NamedData
