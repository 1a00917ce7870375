import NamedData.Packet
import NamedData.SortedMap

/-!
# One-shot timers

A timer queue has a clock that its owner moves forward, and a set of pending timers, each
with a deadline and an event. Timers are numbered in the order they were scheduled. They
come out by deadline, and by number among equal deadlines.

The order in which the timers come out is kept apart from their events. A timer that is cancelled
loses its event at once, but it stays in the order until it is the first in it.

## Main definitions

* `TimerQueue`, with `schedule`, `cancel`, `advanceTo`
* `TimerQueue.prune`, which takes timers without events off the front
* `TimerQueue.popDue`, which takes out the first timer due by a given time and moves the
  clock to its deadline, and `TimerQueue.popExpired`, which does so for the present time
-/
namespace NamedData

/-- The number of a timer. -/
abbrev TimerId := Nat

/-- When a timer comes out: by deadline, then by number. -/
structure Due where
  deadline : Instant
  id : TimerId
deriving DecidableEq

namespace Due

instance : Ord Due := ⟨compareLex (compareOn deadline) (compareOn id)⟩

instance : Std.TransOrd Due :=
  inferInstanceAs (Std.TransCmp (compareLex (compareOn deadline) (compareOn id)))

instance : Std.LawfulEqOrd Due where
  eq_of_compare {a b} h := by
    obtain ⟨hd, hi⟩ := Ordering.then_eq_eq.mp h
    cases a; cases b
    have hd := Std.LawfulEqOrd.eq_of_compare hd
    have hi := Std.LawfulEqOrd.eq_of_compare hi
    simp only at hd hi
    rw [hd, hi]

end Due

/-- Pending timers with events of type `ε`, and a clock. -/
structure TimerQueue (ε : Type) where
  now : Instant := 0
  /-- The number the next timer gets. -/
  nextId : TimerId := 0
  /-- The order in which the timers come out, cancelled ones included. -/
  heap : SortedMap Due Unit := ∅
  /-- The events of the pending timers. -/
  live : SortedMap TimerId ε := ∅
deriving DecidableEq

namespace TimerQueue

variable {ε : Type}

/-- A queue without timers whose clock shows `start`. -/
def startingAt (start : Instant) : TimerQueue ε := { now := start }

/-- The number of pending timers. -/
def size (q : TimerQueue ε) : Nat := q.live.size

def isEmpty (q : TimerQueue ε) : Bool := q.live.isEmpty

/-- The timer `id` is pending. -/
def isScheduled (q : TimerQueue ε) (id : TimerId) : Bool := q.live.contains id

/-- The deadline of the timer that comes out first. -/
def nextDeadline? (q : TimerQueue ε) : Option Instant := q.heap.keys.head?.map Due.deadline

/-- Take timers off the front until the first one is pending. -/
def prune (q : TimerQueue ε) : TimerQueue ε :=
  { q with heap := q.heap.dropWhile fun due => !q.live.contains due.id }

/-- Let `event` come out `delay` from now. -/
def schedule (q : TimerQueue ε) (delay : Millis) (event : ε) : TimerId × TimerQueue ε :=
  (q.nextId,
    { q with
      nextId := q.nextId + 1
      heap := q.heap.insert ⟨q.now + delay, q.nextId⟩ ()
      live := q.live.insert q.nextId event })

/-- Forget the timer `id`. Nothing happens if it is not pending. -/
def cancel (q : TimerQueue ε) (id : TimerId) : TimerQueue ε :=
  if q.live.contains id then { q with live := q.live.erase id }.prune else q

/-- Move the clock to `t`, unless it shows a later time. -/
def advanceTo (q : TimerQueue ε) (t : Instant) : TimerQueue ε := { q with now := max q.now t }

/-- The queue once the timer at `due` has come out. -/
def leave (q : TimerQueue ε) (due : Due) : TimerQueue ε :=
  { q with heap := q.heap.erase due, live := q.live.erase due.id }.prune

/-- Take out the first timer if its deadline is not after `t`, and move the clock to the
deadline. -/
def popDue (q : TimerQueue ε) (t : Instant) : Option (TimerId × ε × TimerQueue ε) :=
  match q.heap.toList with
  | [] => none
  | (due, _) :: _ =>
    if due.deadline ≤ t then
      (q.live.get? due.id).map (due.id, ·, (q.advanceTo due.deadline).leave due)
    else none

/-- Take out the first timer if its deadline has come. -/
def popExpired (q : TimerQueue ε) : Option (TimerId × ε × TimerQueue ε) := q.popDue q.now

end TimerQueue

end NamedData
