import NamedData.Proofs.Ingress
import NamedData.Proofs.LoopSuppression
import NamedData.Proofs.Pit.Handles

/-!
# What the pipeline refuses

A packet may come in where it is not allowed or was seen before, a strategy may ask for what
cannot be done, and a timer may fire for an entry that no longer holds it. The pipeline
refuses all of these, at different depths, and each time nothing comes of it but a count or
a line in the log. An Interest that loops may have created an entry by then, which goes
again.

## Main definitions

* `Forwarder.SendRefused` and `Forwarder.TimerRefused`
* `Forwarder.Refuses`, everything that is refused, with the counters that move
* `Forwarder.Unmoved`, a node of which only counters and the log have changed
* `Forwarder.InService`, the nodes that the pipeline works on

The main statement is `Forwarder.unmoved_of_inService`.
-/
namespace NamedData

/-- The timer of the entry that the event is about. -/
def TimerEvent.timerOf (event : TimerEvent) (e : Pit.Entry) : Option TimerId :=
  match event with
  | .unsatisfy _ => e.unsatisfyTimer
  | .straggler .. => e.stragglerTimer

namespace Pit.Entry

theorem requestFor?_eq_none {e : Entry} (hnone : e.inRecords = []) (out : FaceId) :
    e.requestFor? out = none := by
  rw [requestFor?, hnone]
  rfl

end Pit.Entry

namespace Forwarder

variable {hooks : Hooks} {fw fw' : Forwarder} {h : Pit.Handle} {e : Pit.Entry} {f out : FaceId}
  {face : Face} {i : Interest} {d : Data} {id : TimerId} {event : TimerEvent}
  {counted : List Counter}

/-- The Interest of the entry `h` cannot be sent through the face `out`. -/
inductive SendRefused (fw : Forwarder) (h : Pit.Handle) (out : FaceId) : Prop
  | goneEntry (hget : fw.pit.get? h = none)
  | invalidFace (hvalid : ¬ out.IsValid)
  | unknownFace (hface : fw.faces.get? out = none)
  | outOfScope {e : Pit.Entry} {face : Face} (hget : fw.pit.get? h = some e)
    (hface : fw.faces.get? out = some face) (hscope : e.ViolatesScope face)
  | withoutRequest {e : Pit.Entry} (hget : fw.pit.get? h = some e) (hnone : e.inRecords = [])

/-- The timer `id` fires for an entry that is gone or does not hold it. -/
inductive TimerRefused (fw : Forwarder) (id : TimerId) (event : TimerEvent) : Prop
  | goneEntry (hget : fw.pit.get? event.entry = none)
  | notHeld {e : Pit.Entry} (hget : fw.pit.get? event.entry = some e)
    (hid : event.timerOf e ≠ some id)

/-- The pipeline refuses something. The counters that move are listed in order, and the last
argument is the node that results. -/
inductive Refuses (hooks : Hooks) (fw : Forwarder) : List Counter → Forwarder → Prop
  | interestFromUnknownFace {f : FaceId} {i : Interest} (hface : fw.faces.get? f = none) :
    Refuses hooks fw [.inInterests] (fw.receiveInterest hooks f i)
  | interestOutOfScope {f : FaceId} {face : Face} {i : Interest}
    (hface : fw.faces.get? f = some face) (hscope : face.isLocal = false ∧ i.name.IsLocalhost) :
    Refuses hooks fw [.inInterests] (fw.receiveInterest hooks f i)
  | loop {f : FaceId} {face : Face} {i : Interest} (hface : fw.faces.get? f = some face)
    (hreg : i.locationRegistration = false)
    (hscope : ¬ (face.isLocal = false ∧ i.name.IsLocalhost)) (hloop : fw.IsLoop f i) :
    Refuses hooks fw [.inInterests, .interestLoops] (fw.receiveInterest hooks f i)
  | dataFromUnknownFace {f : FaceId} {d : Data} (hface : fw.faces.get? f = none) :
    Refuses hooks fw [.inData] (fw.receiveData hooks f d)
  | dataOutOfScope {f : FaceId} {face : Face} {d : Data} (hface : fw.faces.get? f = some face)
    (hpush : ¬ d.IsPushed) (hscope : face.isLocal = false ∧ d.name.IsLocalhost) :
    Refuses hooks fw [.inData] (fw.receiveData hooks f d)
  | unsolicitedData {f : FaceId} {face : Face} {d : Data} (hface : fw.faces.get? f = some face)
    (hpush : ¬ d.IsPushed) (hremote : face.isLocal = false) (hscope : ¬ d.name.IsLocalhost)
    (hnone : fw.pit.dataMatches d = []) :
    Refuses hooks fw [.inData, .unsolicitedData] (fw.receiveData hooks f d)
  | send {h : Pit.Handle} {out : FaceId} {newNonce : Bool} (hr : fw.SendRefused h out) :
    Refuses hooks fw [] (fw.sendInterest h out newNonce)
  | rejectOfGoneEntry {h : Pit.Handle} (hget : fw.pit.get? h = none) :
    Refuses hooks fw [] (fw.rejectInterest h)
  | rejectOfForwarded {h : Pit.Handle} {e : Pit.Entry} (hget : fw.pit.get? h = some e)
    (hout : e.HasUnexpiredOutRecords fw.now) :
    Refuses hooks fw [] (fw.rejectInterest h)
  | timer {id : TimerId} {event : TimerEvent} (hr : fw.TimerRefused id event) :
    Refuses hooks fw [] (fw.handleTimer hooks id event)

/-- Only the counters `counted` have moved, and only incidents were written into the journal:
nothing was sent, and neither the strategy nor an observer was told anything. All that is in the
tables is as before. -/
structure Unmoved (counted : List Counter) (fw fw' : Forwarder) : Prop where
  eq_update : fw' = { fw with
    pit := fw'.pit
    counters := counted.foldl .increment fw.counters
    journal := fw'.journal }
  get? : ∀ h, fw'.pit.get? h = fw.pit.get? h
  find? : ∀ n, fw'.pit.find? n = fw.pit.find? n
  size : fw'.pit.size = fw.pit.size
  defaultLifetime : fw'.pit.defaultLifetime = fw.pit.defaultLifetime
  journal : ∃ incidents : List Incident, fw'.journal = incidents.map .logged ++ fw.journal

namespace Unmoved

theorem counts (counted : List Counter) (fw : Forwarder) :
    Unmoved counted fw { fw with counters := counted.foldl .increment fw.counters } :=
  ⟨rfl, fun _ => rfl, fun _ => rfl, rfl, rfl, [], rfl⟩

theorem logs (counted : List Counter) (incident : Incident) (fw : Forwarder) :
    Unmoved counted fw
      ({ fw with counters := counted.foldl .increment fw.counters }.log incident) :=
  ⟨rfl, fun _ => rfl, fun _ => rfl, rfl, rfl, [incident], rfl⟩

end Unmoved

/-! ## Each refusal -/

theorem unmoved_sendInterest (hr : fw.SendRefused h out) (newNonce : Bool) :
    Unmoved [] fw (fw.sendInterest h out newNonce) := by
  unfold sendInterest
  cases hget : fw.pit.get? h with
  | none => exact .logs [] _ fw
  | some e =>
    by_cases hvalid : out.IsValid
    · simp only [hvalid, not_true, if_false]
      cases hface : fw.faces.get? out with
      | none => exact .logs [] _ fw
      | some face =>
        by_cases hscope : e.ViolatesScope face
        · simp only [if_pos hscope]
          exact .counts [] fw
        · have hrequest : e.requestFor? out = none := by
            cases hr with
            | goneEntry hget' => rw [hget] at hget'; cases hget'
            | invalidFace hvalid' => exact absurd hvalid hvalid'
            | unknownFace hface' => rw [hface] at hface'; cases hface'
            | outOfScope hget' hface' hscope' =>
              obtain rfl := Option.some.inj (hget.symm.trans hget')
              obtain rfl := Option.some.inj (hface.symm.trans hface')
              exact absurd hscope' hscope
            | withoutRequest hget' hnone =>
              obtain rfl := Option.some.inj (hget.symm.trans hget')
              exact Pit.Entry.requestFor?_eq_none hnone out
          simp only [if_neg hscope, hrequest]
          exact .logs [] _ fw
    · simp only [hvalid, not_false_eq_true, if_true]
      exact .logs [] _ fw

theorem unmoved_rejectInterest (hno : ¬ fw.RejectTakesEffect h) :
    Unmoved [] fw (fw.rejectInterest h) := by
  unfold rejectInterest
  cases hget : fw.pit.get? h with
  | none => exact .logs [] _ fw
  | some e =>
    have hout : e.HasUnexpiredOutRecords fw.now := by
      by_contra hexpired
      exact hno ⟨e, hget, hexpired⟩
    simp only [if_pos hout]
    exact .logs [] _ fw

theorem unmoved_handleTimer (hr : fw.TimerRefused id event) (hooks : Hooks) :
    Unmoved [] fw (fw.handleTimer hooks id event) := by
  have hsame : fw.handleTimer hooks id event = fw := by
    cases hr with
    | goneEntry hget =>
      cases event with
      | unsatisfy h =>
        have hget : fw.pit.get? h = none := hget
        simp only [handleTimer, hget]
      | straggler h satisfied freshness =>
        have hget : fw.pit.get? h = none := hget
        simp only [handleTimer, hget]
    | @notHeld e hget hid =>
      cases event with
      | unsatisfy h =>
        have hget : fw.pit.get? h = some e := hget
        have hid : e.unsatisfyTimer ≠ some id := hid
        simp only [handleTimer, hget, if_neg hid]
      | straggler h satisfied freshness =>
        have hget : fw.pit.get? h = some e := hget
        have hid : e.stragglerTimer ≠ some id := hid
        simp only [handleTimer, hget, if_neg hid]
  rw [hsame]
  exact .counts [] fw

/-- The entry that a looping Interest has created goes again. -/
theorem Unmoved.of_newLoop (wf : fw.pit.WellFormed) {pit : Pit}
    (c : Pit.Created fw.pit i h pit) :
    Unmoved [.inInterests, .interestLoops] fw
      ({ fw.count .inInterests with pit := pit.erase h }.count .interestLoops) where
  eq_update := rfl
  get? := c.get?_erase
  find? := c.find?_erase
  size := by
    have hget : ∀ h', (pit.erase h).get? h' = fw.pit.get? h' := c.get?_erase
    have hsize := (Pit.wellFormed_erase (h := h) (c.wellFormed wf)).size_eq_ncard
    simp only [hget, ← wf.size_eq_ncard] at hsize
    exact hsize
  defaultLifetime := (Pit.defaultLifetime_erase pit h).trans c.defaultLifetime_eq
  journal := ⟨[], rfl⟩

theorem unmoved_loop (wf : fw.pit.WellFormed) (hface : fw.faces.get? f = some face)
    (hreg : i.locationRegistration = false)
    (hscope : ¬ (face.isLocal = false ∧ i.name.IsLocalhost)) (hloop : fw.IsLoop f i)
    (hooks : Hooks) :
    Unmoved [.inInterests, .interestLoops] fw (fw.receiveInterest hooks f i) := by
  obtain ⟨h, pit, e, hplaced, hget⟩ := Pit.exists_placed wf (i.arrivedOn f)
  have adm : Admitted fw f i face h pit e := ⟨hface, hreg, hscope, hplaced, hget⟩
  cases hplaced with
  | found hins _ =>
    rw [adm.receiveInterest_of_loop hloop hins]
    exact .counts _ fw
  | created hins c =>
    rw [adm.receiveInterest_of_loop hloop hins]
    exact .of_newLoop wf c

/-- What is refused leaves a node with a well-formed table unmoved. -/
theorem Refuses.unmoved (wf : fw.pit.WellFormed) (hr : Refuses hooks fw counted fw') :
    Unmoved counted fw fw' := by
  cases hr with
  | @interestFromUnknownFace f i hface =>
    have hface' : (fw.count .inInterests).faces.get? f = none := hface
    simp only [receiveInterest, hface']
    exact .logs [.inInterests] _ fw
  | interestOutOfScope hface hscope =>
    rw [receiveInterest_of_localhost hface hscope.1 hscope.2]
    exact .counts [.inInterests] fw
  | loop hface hreg hscope hloop => exact unmoved_loop wf hface hreg hscope hloop hooks
  | @dataFromUnknownFace f d hface =>
    rw [receiveData_of_unknownFace hface]
    exact .logs [.inData] _ fw
  | dataOutOfScope hface hpush hscope =>
    rw [receiveData_of_localhost hface hscope.1 hscope.2 hpush]
    exact .counts [.inData] fw
  | unsolicitedData hface hpush hremote hscope hnone =>
    rw [receiveData_of_face hface, if_neg hpush, if_neg (fun hc => hscope hc.2), hnone]
    simp only [receiveUnsolicited, hremote, Bool.false_eq_true, if_false]
    exact .counts [.inData, .unsolicitedData] fw
  | send hr => exact unmoved_sendInterest hr _
  | rejectOfGoneEntry hget =>
    refine unmoved_rejectInterest ?_
    rintro ⟨e, hget', _⟩
    rw [hget] at hget'
    cases hget'
  | rejectOfForwarded hget hout =>
    refine unmoved_rejectInterest ?_
    rintro ⟨e, hget', hexpired⟩
    obtain rfl := Option.some.inj (hget.symm.trans hget')
    exact hexpired hout
  | timer hr => exact unmoved_handleTimer hr hooks

theorem Refuses.counted_subset (hr : Refuses hooks fw counted fw') :
    counted ⊆ [.inInterests, .interestLoops, .inData, .unsolicitedData] := by
  cases hr <;> simp

/-! ## Nodes in service -/

/-- The node is reachable, or it is polling its timers and has just taken one out of the
queue. -/
inductive InService : Forwarder → Prop
  | reachable {fw : Forwarder} (hfw : Reachable fw) : InService fw
  | polling {fw : Forwarder} {id : TimerId} {event : TimerEvent} {q : TimerQueue TimerEvent}
    (hfw : Reachable fw) (s : ForwardingStrategy) (t : Instant) (n : Nat)
    (hpop : (fw.fireDue s.hooks t n).timers.popDue t = some (id, event, q)) :
    InService { fw.fireDue s.hooks t n with timers := q }

/-- Timers stay in order from one that fires to the next. -/
theorem timersHeld_fireDue (inv : TimersHeld none fw.pit fw.timers) (s : Strategy) (t : Instant)
    (n : Nat) :
    TimersHeld none (fw.fireDue s.hooks t n).pit (fw.fireDue s.hooks t n).timers := by
  induction n generalizing fw with
  | zero => exact inv
  | succ n ih =>
    rw [fireDue]
    cases hpop : fw.timers.popDue t with
    | none => exact inv
    | some popped => exact ih (fired_handleTimer inv hpop s).timersHeld

theorem InService.wellFormed (hfw : InService fw) : fw.pit.WellFormed := by
  cases hfw with
  | reachable hfw => exact hfw.timersHeld.pit_wellFormed
  | polling hfw s t n _ => exact (timersHeld_fireDue hfw.timersHeld s.toStrategy t n).pit_wellFormed

/-- **Everything the pipeline refuses is without effect.** Whatever listens, the entries with
their records and timers, the content store, the dead nonce list, the routes, the faces, the
timer queue, the clock and the source of nonces are as before. Nothing was sent and nobody was
told. Only the counters of arrivals, loops and unsolicited Data move. -/
theorem unmoved_of_inService (hfw : InService fw) (hr : Refuses hooks fw counted fw') :
    Unmoved counted fw fw' ∧
      counted ⊆ [.inInterests, .interestLoops, .inData, .unsolicitedData] :=
  ⟨hr.unmoved hfw.wellFormed, hr.counted_subset⟩

/-- A request comes back five seconds after its entry has ended. It creates an entry, which
goes again. -/
theorem unmoved_unanswered :
    Unmoved [.inInterests, .interestLoops]
      ((build {} (.cycle 0 []) 0).run (unanswered ++ [⟨.idle, .poll 4000⟩, ⟨.idle, .poll 9000⟩]))
      (((build {} (.cycle 0 []) 0).run
          (unanswered ++ [⟨.idle, .poll 4000⟩, ⟨.idle, .poll 9000⟩])).receiveInterest
        ForwardingStrategy.idle.hooks ⟨257⟩ { name := ⟨[.ofChars ['a']]⟩, nonce := 5 }) := by
  have hface : ((build {} (.cycle 0 []) 0).run
      (unanswered ++ [⟨.idle, .poll 4000⟩, ⟨.idle, .poll 9000⟩])).faces.get? ⟨257⟩ =
        some ⟨⟨257⟩, false, 1⟩ := by decide
  have hservice := InService.reachable ((Reachable.of_isNew (isNew_build (.cycle 0 []) 0)).run
    (unanswered ++ [⟨.idle, .poll 4000⟩, ⟨.idle, .poll 9000⟩]))
  exact (unmoved_of_inService hservice
    (.loop hface rfl (by decide) (.inr (by decide)))).1

end Forwarder

end NamedData
