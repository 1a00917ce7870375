import NamedData.Proofs.Forwarder.Polling
import NamedData.Service

/-!
# Wake-ups of the service

A service may be woken up when no timer is due and no face has reported anything. Such wake-ups
do not matter: of a service that attends to events and wake-ups in order, the node in the end is
what it is with the events alone, down to every packet and every notice in the journal. Nor do the
wake-ups at the deadlines matter, for the timers that are due fire before an event in any case. A
node that has been polled at some time is, for whatever comes later, as good as one that has not.

## Main definitions

* `Occasion` and `Service.attend`: an event or a wake-up, and what the service does then
* `Service.runUntil`: a schedule of occasions is attended to, and then the service stops
* `Service.react`: what an event does to a service that never wakes up for a timer
* `Schedule.InOrder`: what comes after an event is not before it
* `Service.SameFrom`: two services cannot be told apart from a time on

## Main statements

* `Service.SameFrom.wakeUp` and `Service.SameFrom.event`, and from them
  `Service.runUntil_eq_react` for a whole schedule
* `Service.wakeUps_absorbed`
-/
namespace NamedData

/-- What makes a service do something. -/
inductive Occasion
  | event (e : FaceEvent)
  /-- No face has reported anything. -/
  | wakeUp
deriving DecidableEq

namespace Occasion

def isEvent : Occasion → Bool
  | event _ => true
  | wakeUp => false

end Occasion

/-- Occasions with their times. -/
abbrev Schedule := List (Instant × Occasion)

namespace Schedule

/-- What comes after an event is not before it, and nothing comes after `stop`. A wake-up may
claim a time before one of the occasions before it: the clock does not go back for it. -/
structure InOrder (schedule : Schedule) (stop : Instant) : Prop where
  le_event : schedule.Pairwise fun a b => b.2.isEvent → a.1 ≤ b.1
  le_stop : ∀ x ∈ schedule, x.1 ≤ stop

/-- The events alone. -/
def events (schedule : Schedule) : Schedule := schedule.filter (·.2.isEvent)

theorem InOrder.events {schedule : Schedule} {stop : Instant} (horder : schedule.InOrder stop) :
    schedule.events.InOrder stop where
  le_event := horder.le_event.filter _
  le_stop x hx := horder.le_stop x (List.mem_of_mem_filter hx)

end Schedule

namespace Service

variable {hooks : Hooks} {s : Strategy} {service service' : Service} {t t' stop : Instant}

/-- The service sleeps until `x.1`, with a wake-up at each deadline, and attends to `x.2`. -/
def attend (hooks : Hooks) (service : Service) (x : Instant × Occasion) : Service :=
  let service := service.sleep hooks (x.1 - service.clock)
  match x.2 with
  | .event e => service.handle hooks e
  | .wakeUp => service.wake hooks

/-- The node of a service that attends to a schedule and stops at `stop`. -/
def runUntil (hooks : Hooks) (schedule : Schedule) (stop : Instant) (service : Service) :
    Forwarder :=
  let service := schedule.foldl (attend hooks) service
  (service.sleep hooks (stop - service.clock)).stop hooks

/-- The node as the service finds it when its clock shows `t`. -/
def nodeAt (hooks : Hooks) (t : Instant) (service : Service) : Forwarder :=
  service.forwarder.pollTimers hooks (max service.clock t)

/-- An event happens to a service that does not wake up before. The timers that are due by then
fire first. -/
def react (hooks : Hooks) (service : Service) (x : Instant × Occasion) : Service :=
  match x.2 with
  | .event e =>
    { forwarder := apply hooks e (service.nodeAt hooks x.1), clock := max service.clock x.1 }
  | .wakeUp => service

/-- From `t` on the two services show the same time and the same node. -/
structure SameFrom (hooks : Hooks) (t : Instant) (service service' : Service) : Prop where
  clock : max service.clock t = max service'.clock t
  node : service.nodeAt hooks t = service'.nodeAt hooks t

namespace SameFrom

theorem refl (hooks : Hooks) (t : Instant) (service : Service) :
    SameFrom hooks t service service := ⟨rfl, rfl⟩

theorem trans {service'' : Service} (h : SameFrom hooks t service service')
    (h' : SameFrom hooks t service' service'') : SameFrom hooks t service service'' :=
  ⟨h.clock.trans h'.clock, h.node.trans h'.node⟩

/-- The service is the same from any later time on. -/
theorem mono (ht : t ≤ t') (h : SameFrom s.hooks t service service') :
    SameFrom s.hooks t' service service' := by
  have hmax : ∀ c, max c t' = max (max c t) t' := by
    intro c
    rw [Nat.max_assoc, Nat.max_eq_right ht]
  have hclock : max service.clock t' = max service'.clock t' := by
    rw [hmax, hmax service'.clock, h.clock]
  -- a poll at `t` comes before the poll at `t'` without effect, and there the nodes agree
  have hpoll : ∀ service : Service,
      service.nodeAt s.hooks t' =
        (service.nodeAt s.hooks t).pollTimers s.hooks (max service.clock t') := by
    intro service
    have hle : max service.clock t ≤ max service.clock t' := hmax _ ▸ Nat.le_max_left _ _
    rw [nodeAt, nodeAt, Forwarder.pollTimers_pollTimers s hle]
  exact ⟨hclock, by rw [hpoll, hpoll service', h.node, hclock]⟩

end SameFrom

/-! ## Sleeping and waking up -/

/-- Once the clock may show `t`, a wake-up up to then is forgotten. -/
theorem sameFrom_wake (d : Instant) (hd : d ≤ t) (service : Service) :
    SameFrom s.hooks t ({ service with clock := max service.clock d }.wake s.hooks) service := by
  have hclock : max (max service.clock d) t = max service.clock t := by
    rw [Nat.max_assoc, Nat.max_eq_right hd]
  refine ⟨hclock, ?_⟩
  simp only [nodeAt, wake, hclock]
  exact Forwarder.pollTimers_pollTimers s (hclock ▸ Nat.le_max_left _ _) _

theorem sameFrom_wakeUntil (n : Nat) (t : Instant) (service : Service) :
    SameFrom s.hooks t (service.wakeUntil s.hooks t n) service := by
  induction n generalizing service with
  | zero => exact .refl _ _ _
  | succ n ih =>
    rw [wakeUntil]
    split
    · exact .refl _ _ _
    · next d _ =>
      split
      · next hd => exact (ih _).trans (sameFrom_wake d hd service)
      · exact .refl _ _ _

theorem sleep_eq (t : Instant) (service : Service) :
    service.sleep hooks (t - service.clock) =
      { service.wakeUntil hooks (max service.clock t) service.forwarder.timers.size with
        clock := max service.clock t } := by
  have hadd : ∀ c d : Nat, c + (d - c) = max c d := fun c d => by omega
  rw [sleep, hadd]

/-- The service wakes up when it has slept until `t`: the wake-ups until then are forgotten. -/
theorem wake_sleep (t : Instant) (service : Service) :
    (service.sleep s.hooks (t - service.clock)).wake s.hooks =
      { forwarder := service.nodeAt s.hooks t, clock := max service.clock t } := by
  have hsame := sameFrom_wakeUntil (s := s) service.forwarder.timers.size (max service.clock t)
    service
  have hnode := hsame.node
  rw [nodeAt, nodeAt, hsame.clock, ← Nat.max_assoc, Nat.max_self] at hnode
  rw [wake, sleep_eq, nodeAt, ← hnode]

/-! ## Schedules -/

/-- A wake-up makes no difference from its time on. -/
theorem SameFrom.wakeUp (t : Instant) (service : Service) :
    SameFrom s.hooks t (service.attend s.hooks (t, .wakeUp)) service := by
  have hclock : max (max service.clock t) t = max service.clock t := by
    rw [Nat.max_assoc, Nat.max_self]
  simp only [attend, wake_sleep]
  refine ⟨hclock, ?_⟩
  simp only [nodeAt, hclock]
  exact Forwarder.pollTimers_pollTimers s (Nat.le_refl _) _

/-- Once an event has happened, it makes no difference who has slept until then. -/
theorem SameFrom.event (h : SameFrom s.hooks t service service') (e : FaceEvent) :
    SameFrom s.hooks t (service.attend s.hooks (t, .event e))
      (service'.react s.hooks (t, .event e)) := by
  have hclock : max (max service'.clock t) t = max service'.clock t := by
    rw [Nat.max_assoc, Nat.max_self]
  simp only [attend, react, handle, wake_sleep, h.clock, h.node]
  refine ⟨rfl, ?_⟩
  simp only [nodeAt, wake, hclock]
  exact Forwarder.pollTimers_pollTimers s (Nat.le_refl _) _

/-- Of two services that are the same before the first event of a schedule, one attends to all of
it and the other one to no wake-up. They are the same in the end. -/
theorem nodeAt_attendAll {schedule : Schedule} (horder : schedule.InOrder stop)
    (hsame : SameFrom s.hooks t service service') (hstop : t ≤ stop)
    (hevents : ∀ x ∈ schedule, x.2.isEvent → t ≤ x.1) :
    (schedule.foldl (attend s.hooks) service).nodeAt s.hooks stop =
      (schedule.foldl (react s.hooks) service').nodeAt s.hooks stop := by
  induction schedule generalizing t service service' with
  | nil => exact (hsame.mono hstop).node
  | cons x rest ih =>
    obtain ⟨hx, hrest⟩ := List.pairwise_cons.mp horder.le_event
    obtain ⟨hxstop, hreststop⟩ := List.forall_mem_cons.mp horder.le_stop
    obtain ⟨hxevent, hrestevents⟩ := List.forall_mem_cons.mp hevents
    obtain ⟨d, occasion⟩ := x
    rw [List.foldl_cons, List.foldl_cons]
    cases occasion with
    | event e => exact ih ⟨hrest, hreststop⟩ ((hsame.mono (hxevent rfl)).event e) hxstop hx
    | wakeUp =>
      -- from the wake-up on the services are still the same
      have hsame' := ((SameFrom.wakeUp d service).mono (Nat.le_max_right t d)).trans
        (hsame.mono (Nat.le_max_left t d))
      exact ih ⟨hrest, hreststop⟩ hsame' (Nat.max_le.mpr ⟨hstop, hxstop⟩)
        fun y hy hevent => Nat.max_le.mpr ⟨hrestevents y hy hevent, hx y hy hevent⟩

/-- **The service is its node, polled at the events** of the schedule and when it stops. -/
theorem runUntil_eq_react {schedule : Schedule} (horder : schedule.InOrder stop)
    (service : Service) : service.runUntil s.hooks schedule stop =
      (schedule.foldl (react s.hooks) service).nodeAt s.hooks stop := by
  rw [runUntil, Service.stop, wake_sleep]
  exact nodeAt_attendAll horder (.refl s.hooks 0 service) (Nat.zero_le _) fun _ _ _ => Nat.zero_le _

theorem foldl_react_events (schedule : Schedule) (service : Service) :
    schedule.events.foldl (react hooks) service = schedule.foldl (react hooks) service := by
  induction schedule generalizing service with
  | nil => rfl
  | cons x rest ih =>
    obtain ⟨t, occasion⟩ := x
    cases occasion with
    | event e => exact ih _
    | wakeUp => exact ih _

/-- **Further wake-ups do not matter.** An earlier poll is absorbed by a later one. A service that
attends to a schedule in order ends with the node that it ends with if it attends to the events of
the schedule alone: the tables, the timers, the clock and the counters are the same, and so is the
journal with every packet and every notice. This is the node that the service would end with if it
never woke up for a timer either. -/
theorem wakeUps_absorbed (s : Strategy) :
    (∀ (fw : Forwarder) (t₁ t₂ : Instant), t₁ ≤ t₂ →
      (fw.pollTimers s.hooks t₁).pollTimers s.hooks t₂ = fw.pollTimers s.hooks t₂) ∧
    ∀ (service : Service) (schedule : Schedule) (stop : Instant), schedule.InOrder stop →
      service.runUntil s.hooks schedule stop = service.runUntil s.hooks schedule.events stop ∧
      service.runUntil s.hooks schedule stop =
        (schedule.events.foldl (react s.hooks) service).nodeAt s.hooks stop := by
  refine ⟨fun fw t₁ t₂ ht => Forwarder.pollTimers_pollTimers s ht fw, ?_⟩
  intro service schedule stop horder
  rw [runUntil_eq_react horder, runUntil_eq_react horder.events, foldl_react_events]
  exact ⟨rfl, rfl⟩

/-- A service with two faces and a route to the second one. -/
def twoFaces : Service where
  forwarder :=
    let fw := ((Forwarder.build {} (.cycle 0 []) 1).addFace true 0).2
    (fw.addFace false 1).2.addRoute ⟨⟨[]⟩, ⟨257⟩, 0⟩

/-- A request that nobody answers, a closed face, and wake-ups around the end of the request. -/
def sleepless : Schedule :=
  [(3, .wakeUp), (5, .event (.interestReceived ⟨256⟩ { name := ⟨[.ofChars ['a']]⟩, nonce := 5 })),
    (4005, .wakeUp), (2000, .wakeUp), (4200, .wakeUp), (5000, .event (.closed ⟨256⟩))]

/-- The node of the two faces is told of one request and of its end, with the wake-ups as without
them, and also where it is polled in between directly. -/
theorem sleepless_absorbed :
    (twoFaces.forwarder.pollTimers Strategy.bestRoute.hooks 3).pollTimers
        Strategy.bestRoute.hooks 4 =
      twoFaces.forwarder.pollTimers Strategy.bestRoute.hooks 4 ∧
    sleepless.InOrder 5000 ∧ sleepless.events.length = 2 ∧
    twoFaces.runUntil Strategy.bestRoute.hooks sleepless 5000 =
      twoFaces.runUntil Strategy.bestRoute.hooks sleepless.events 5000 ∧
    (twoFaces.runUntil Strategy.bestRoute.hooks sleepless 5000).journal.length = 4 := by
  have horder : sleepless.InOrder 5000 := ⟨by decide, by decide⟩
  have habsorbed := wakeUps_absorbed Strategy.bestRoute
  exact ⟨habsorbed.1 _ _ _ (by decide), horder, by decide, (habsorbed.2 _ _ _ horder).1,
    by decide⟩

end Service

end NamedData
