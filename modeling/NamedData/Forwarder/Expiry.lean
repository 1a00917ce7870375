import NamedData.Forwarder.Basic

/-!
# Timers that fire

An entry goes when one of its timers fires. The nonces that were sent out for it are
remembered as dead if a copy could still loop back and be forwarded again.

## Main definitions

* `Forwarder.recordDeadNonces`
* `Forwarder.finalize`, the end of an entry
* `Forwarder.handleTimer`, what a timer that fires does
* `Forwarder.pollTimers`, which fires every timer due by a given time
-/
namespace NamedData.Forwarder

/-- The nonces of an entry have to be remembered: it was not answered, or the answer goes
stale within the lifetime of a dead nonce and the Interest does not take stale Data. -/
def NeedsDeadNonces (fw : Forwarder) (e : Pit.Entry) (satisfied : Bool)
    (freshness : Option Millis) : Prop :=
  satisfied = false ∨
    (e.interest.mustBeFresh = true ∧ ∃ t ∈ freshness, t < fw.deadNonces.lifetime)

instance (fw : Forwarder) (e : Pit.Entry) (satisfied : Bool) (freshness : Option Millis) :
    Decidable (fw.NeedsDeadNonces e satisfied freshness) :=
  inferInstanceAs (Decidable (_ ∨ _))

/-- Remember the nonces that were sent out for an entry, where this is needed. If a face
answered, only the nonce sent to it is remembered. -/
def recordDeadNonces (h : Pit.Handle) (satisfied : Bool) (freshness : Option Millis)
    (answeredBy : Option FaceId) (fw : Forwarder) : Forwarder :=
  match fw.pit.get? h with
  | none => fw
  | some e =>
    if fw.NeedsDeadNonces e satisfied freshness then
      let records := e.outRecords.filter fun r => ∀ face ∈ answeredBy, face = r.face
      { fw with
        deadNonces :=
          records.foldl (fun list r => list.add e.name r.lastNonce fw.now) fw.deadNonces }
    else fw

/-- The end of an entry. -/
def finalize (h : Pit.Handle) (satisfied : Bool) (freshness : Option Millis)
    (fw : Forwarder) : Forwarder :=
  match fw.pit.get? h with
  | none => fw
  | some _ =>
    let fw := (fw.recordDeadNonces h satisfied freshness none).cancelTimers h
    { fw with pit := fw.pit.erase h }

/-- The time of an entry is over. -/
def expire (hooks : Hooks) (h : Pit.Handle) (fw : Forwarder) : Forwarder :=
  match fw.pit.get? h with
  | none => fw
  | some e => (fw.notify hooks (.expiring h e)).finalize h false none

/-- Do what the event of the timer `id` says. An event whose entry is gone or does not
hold the timer says nothing. -/
def handleTimer (hooks : Hooks) (id : TimerId) (event : TimerEvent) (fw : Forwarder) :
    Forwarder :=
  match event with
  | .unsatisfy h =>
    match fw.pit.get? h with
    | none => fw
    | some e =>
      if e.unsatisfyTimer = some id then
        { fw with pit := fw.pit.modify h fun e => { e with unsatisfyTimer := none } }.expire hooks h
      else fw
  | .straggler h satisfied freshness =>
    match fw.pit.get? h with
    | none => fw
    | some e =>
      if e.stragglerTimer = some id then
        { fw with pit := fw.pit.modify h fun e => { e with stragglerTimer := none } }.finalize
          h satisfied freshness
      else fw

/-- Fire the timers due by `t` one after the other, at most `n` of them, each with the
clock at its deadline. -/
def fireDue (hooks : Hooks) (t : Instant) : Nat → Forwarder → Forwarder
  | 0, fw => fw
  | n + 1, fw =>
    match fw.timers.popDue t with
    | none => fw
    | some (id, event, timers) =>
      fireDue hooks t n ({ fw with timers }.handleTimer hooks id event)

/-- Fire every timer due by `t`, by deadline and then in the order of scheduling, and move
the clock to `t`. No timer that fires schedules another one, so the number of pending
timers bounds how many there are. -/
def pollTimers (hooks : Hooks) (t : Instant) (fw : Forwarder) : Forwarder :=
  let fw := fw.fireDue hooks t fw.timers.size
  { fw with timers := fw.timers.advanceTo t }

end NamedData.Forwarder
