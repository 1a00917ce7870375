import NamedData.Forwarder.ReceiveData
import NamedData.Forwarder.SendInterest
import NamedData.Proofs.Pit.Requests
import NamedData.Proofs.Pit.Timers
import NamedData.Strategy

/-!
# What the parts of the pipeline change

A node has a setup (its faces, routes and parameters) that no packet and no timer
changes, and a list of what it has sent. Most parts of the pipeline send nothing. Some of
these only tell or log something, and leave the tables and timers alone as well. Others
only set or cancel timers, and leave all but these and their entries alone.

## Main definitions

* `Forwarder.sent`, what the node has sent, earliest first
* `Forwarder.SameSetup`, `Forwarder.Silent` and `Forwarder.Quiet`, three relations between
  a node before and after, each stronger than the one before it
* `Forwarder.Rescheduled`, another one that is stronger than `Forwarder.Silent`
-/
namespace NamedData

/-- The packet that leaves with an event, and its face. -/
def Event.sent? : Event → Option (Face × Packet)
  | sent face p => some (face, p)
  | told .. | logged _ => none

namespace Forwarder

variable {fw fw' fw'' : Forwarder} {h : Pit.Handle} {e : Pit.Entry}

/-- What the node has sent and through which face, earliest first. -/
def sent (fw : Forwarder) : List (Face × Packet) := fw.events.filterMap Event.sent?

theorem sent_record (event : Event) (fw : Forwarder) :
    (fw.record event).sent = fw.sent ++ event.sent?.toList := by
  simp only [sent, events, record, List.reverse_cons, List.filterMap_append]
  cases event <;> rfl

@[simp] theorem sent_emitInterest (face : Face) (i : Interest) (fw : Forwarder) :
    (fw.emitInterest face i).sent = fw.sent ++ [(face, .interest i)] :=
  sent_record _ fw

@[simp] theorem sent_emitData (face : Face) (d : Data) (fw : Forwarder) :
    (fw.emitData face d).sent = fw.sent ++ [(face, .data d)] :=
  sent_record _ fw

/-! ## Three degrees of restraint -/

/-- The faces, routes and parameters of the node are the same. -/
structure SameSetup (fw fw' : Forwarder) : Prop where
  faces : fw'.faces = fw.faces
  fib : fw'.fib = fw.fib
  stragglerTime : fw'.stragglerTime = fw.stragglerTime
  observers : fw'.observers = fw.observers
  defaultLifetime : fw'.pit.defaultLifetime = fw.pit.defaultLifetime

/-- Nothing was sent, and the setup is the same. -/
structure Silent (fw fw' : Forwarder) : Prop extends SameSetup fw fw' where
  sent : fw'.sent = fw.sent

/-- Something was told, logged or counted, and nothing else happened. -/
structure Quiet (fw fw' : Forwarder) : Prop where
  eq_update : fw' = { fw with journal := fw'.journal, counters := fw'.counters }
  sent : fw'.sent = fw.sent

/-- Timers were set or cancelled. Only these and the entries differ, and the clock shows the
same. -/
structure Rescheduled (fw fw' : Forwarder) : Prop where
  eq_update : fw' = { fw with pit := fw'.pit, timers := fw'.timers }
  now : fw'.now = fw.now
  defaultLifetime : fw'.pit.defaultLifetime = fw.pit.defaultLifetime

theorem SameSetup.refl (fw : Forwarder) : SameSetup fw fw := ⟨rfl, rfl, rfl, rfl, rfl⟩

theorem SameSetup.trans (h : SameSetup fw fw') (h' : SameSetup fw' fw'') : SameSetup fw fw'' where
  faces := h'.faces.trans h.faces
  fib := h'.fib.trans h.fib
  stragglerTime := h'.stragglerTime.trans h.stragglerTime
  observers := h'.observers.trans h.observers
  defaultLifetime := h'.defaultLifetime.trans h.defaultLifetime

theorem Silent.refl (fw : Forwarder) : Silent fw fw := ⟨.refl fw, rfl⟩

theorem Silent.trans (h : Silent fw fw') (h' : Silent fw' fw'') : Silent fw fw'' :=
  ⟨h.toSameSetup.trans h'.toSameSetup, h'.sent.trans h.sent⟩

namespace Quiet

theorem refl (fw : Forwarder) : Quiet fw fw := ⟨rfl, rfl⟩

theorem trans (h : Quiet fw fw') (h' : Quiet fw' fw'') : Quiet fw fw'' where
  eq_update := h'.eq_update.trans (by rw [h.eq_update])
  sent := h'.sent.trans h.sent

theorem pit (h : Quiet fw fw') : fw'.pit = fw.pit := by rw [h.eq_update]

theorem timers (h : Quiet fw fw') : fw'.timers = fw.timers := by rw [h.eq_update]

theorem silent (h : Quiet fw fw') : Silent fw fw' where
  faces := by rw [h.eq_update]
  fib := by rw [h.eq_update]
  stragglerTime := by rw [h.eq_update]
  observers := by rw [h.eq_update]
  defaultLifetime := by rw [h.eq_update]
  sent := h.sent

end Quiet

namespace Rescheduled

theorem refl (fw : Forwarder) : Rescheduled fw fw := ⟨rfl, rfl, rfl⟩

theorem trans (h : Rescheduled fw fw') (h' : Rescheduled fw' fw'') : Rescheduled fw fw'' where
  eq_update := h'.eq_update.trans (by rw [h.eq_update])
  now := h'.now.trans h.now
  defaultLifetime := h'.defaultLifetime.trans h.defaultLifetime

theorem store (h : Rescheduled fw fw') : fw'.store = fw.store := by rw [h.eq_update]

theorem deadNonces (h : Rescheduled fw fw') : fw'.deadNonces = fw.deadNonces := by
  rw [h.eq_update]

theorem silent (h : Rescheduled fw fw') : Silent fw fw' where
  faces := by rw [h.eq_update]
  fib := by rw [h.eq_update]
  stragglerTime := by rw [h.eq_update]
  observers := by rw [h.eq_update]
  defaultLifetime := h.defaultLifetime
  sent := by rw [h.eq_update]; rfl

end Rescheduled

/-! ## Telling, logging, counting -/

theorem quiet_count (c : Counter) (fw : Forwarder) : Quiet fw (fw.count c) := ⟨rfl, rfl⟩

theorem quiet_record {event : Event} (hevent : event.sent? = none) (fw : Forwarder) :
    Quiet fw (fw.record event) := by
  refine ⟨rfl, ?_⟩
  rw [sent_record, hevent]
  exact List.append_nil _

theorem quiet_log (i : Incident) (fw : Forwarder) : Quiet fw (fw.log i) := quiet_record rfl fw

theorem quiet_tellObservers (notice : Notice) (fw : Forwarder) :
    Quiet fw (fw.tellObservers notice) := by
  unfold tellObservers
  induction List.range fw.observers generalizing fw with
  | nil => exact .refl fw
  | cons k rest ih => exact (quiet_record rfl fw).trans (ih _)

theorem quiet_notify (s : Strategy) (notice : Notice) (fw : Forwarder) :
    Quiet fw (fw.notify s.hooks notice) :=
  (quiet_tellObservers notice fw).trans (quiet_record rfl _)

theorem quiet_notifySatisfying (s : Strategy) (h : Pit.Handle) (d : Incoming Data)
    (fw : Forwarder) : Quiet fw (fw.notifySatisfying s.hooks h d) := by
  unfold notifySatisfying
  split
  · exact .refl fw
  · exact quiet_notify s _ fw

/-- Nothing leaves when an entry is changed. -/
theorem silent_modify (h : Pit.Handle) (g : Pit.Entry → Pit.Entry) (fw : Forwarder) :
    Silent fw { fw with pit := fw.pit.modify h g } :=
  ⟨⟨rfl, rfl, rfl, rfl, Pit.defaultLifetime_modify _ _ _⟩, rfl⟩

/-! ## The timers and records of an entry

On a live entry each of these is an update that names the fields it changes. -/

theorem cancel_eq (id : Option TimerId) (fw : Forwarder) :
    fw.cancel id = { fw with timers := fw.timers.cancel? id } := by
  cases id <;> rfl

theorem cancelTimers_eq (hget : fw.pit.get? h = some e) :
    fw.cancelTimers h =
      { fw with
        pit := fw.pit.modify h .unarmed
        timers := (fw.timers.cancel? e.unsatisfyTimer).cancel? e.stragglerTimer } := by
  rw [cancelTimers, hget]
  simp only [cancel_eq]
  rfl

theorem armUnsatisfy_eq (hget : fw.pit.get? h = some e) {x : Instant}
    (hx : e.lastExpiry? = some x) :
    fw.armUnsatisfy h =
      { fw with
        pit := fw.pit.modify h (.armedUnsatisfy fw.timers.nextId)
        timers :=
          ((fw.timers.cancel? e.unsatisfyTimer).schedule (x - fw.now) (.unsatisfy h)).2 } := by
  simp only [armUnsatisfy, hget, hx, cancel_eq, now, TimerQueue.id_schedule,
    TimerQueue.now_cancel?, TimerQueue.nextId_cancel?]
  rfl

theorem armStraggler_eq (hget : fw.pit.get? h = some e) (satisfied : Bool)
    (freshness : Option Millis) :
    fw.armStraggler h satisfied freshness =
      { fw with
        pit := fw.pit.modify h (.armedStraggler fw.timers.nextId)
        timers := ((fw.timers.cancel? e.stragglerTimer).schedule fw.stragglerTime
          (.straggler h satisfied freshness)).2 } := by
  simp only [armStraggler, hget, cancel_eq, TimerQueue.id_schedule, TimerQueue.nextId_cancel?]
  rfl

theorem rescheduled_cancelTimers (h : Pit.Handle) (fw : Forwarder) :
    Rescheduled fw (fw.cancelTimers h) := by
  cases hget : fw.pit.get? h with
  | none => simp only [cancelTimers, hget]; exact .refl fw
  | some e =>
    rw [cancelTimers_eq hget]
    exact ⟨rfl, by simp [now], Pit.defaultLifetime_modify _ _ _⟩

theorem rescheduled_armUnsatisfy (h : Pit.Handle) (fw : Forwarder) :
    Rescheduled fw (fw.armUnsatisfy h) := by
  cases hget : fw.pit.get? h with
  | none => simp only [armUnsatisfy, hget]; exact .refl fw
  | some e =>
    cases hx : e.lastExpiry? with
    | none => simp only [armUnsatisfy, hget, hx]; exact .refl fw
    | some x =>
      rw [armUnsatisfy_eq hget hx]
      exact ⟨rfl, by simp [now], Pit.defaultLifetime_modify _ _ _⟩

theorem rescheduled_armStraggler (h : Pit.Handle) (satisfied : Bool) (freshness : Option Millis)
    (fw : Forwarder) : Rescheduled fw (fw.armStraggler h satisfied freshness) := by
  cases hget : fw.pit.get? h with
  | none => simp only [armStraggler, hget]; exact .refl fw
  | some e =>
    rw [armStraggler_eq hget]
    exact ⟨rfl, by simp [now], Pit.defaultLifetime_modify _ _ _⟩

/-! ### Entries -/

theorem pit_cancelTimers (h : Pit.Handle) (fw : Forwarder) :
    (fw.cancelTimers h).pit = fw.pit.modify h .unarmed := by
  cases hget : fw.pit.get? h with
  | none => rw [cancelTimers, hget, Pit.modify_of_get?_eq_none _ hget]
  | some e => rw [cancelTimers_eq hget]

theorem pit_armUnsatisfy (hget : fw.pit.get? h = some e) (hpending : e.inRecords ≠ []) :
    (fw.armUnsatisfy h).pit = fw.pit.modify h (.armedUnsatisfy fw.timers.nextId) := by
  obtain ⟨x, hx⟩ := Pit.Entry.exists_lastExpiry? hpending
  rw [armUnsatisfy_eq hget hx]

theorem pit_armStraggler (h : Pit.Handle) (satisfied : Bool) (freshness : Option Millis)
    (fw : Forwarder) :
    (fw.armStraggler h satisfied freshness).pit =
      fw.pit.modify h (.armedStraggler fw.timers.nextId) := by
  cases hget : fw.pit.get? h with
  | none => rw [armStraggler, hget, Pit.modify_of_get?_eq_none _ hget]
  | some e => rw [armStraggler_eq hget]

/-! ### Timers stay held -/

theorem timersHeld_cancelTimers {busy : Option Pit.Handle}
    (inv : TimersHeld busy fw.pit fw.timers) (hbusy : busy = none ∨ busy = some h)
    (hget : fw.pit.get? h = some e) :
    TimersHeld (some h) (fw.cancelTimers h).pit (fw.cancelTimers h).timers := by
  rw [cancelTimers_eq hget]
  exact inv.unarm hbusy hget

theorem timersHeld_armUnsatisfy (inv : TimersHeld (some h) fw.pit fw.timers)
    (hget : fw.pit.get? h = some e) (hpending : e.inRecords ≠ []) :
    TimersHeld none (fw.armUnsatisfy h).pit (fw.armUnsatisfy h).timers := by
  obtain ⟨x, hx⟩ := Pit.Entry.exists_lastExpiry? hpending
  rw [armUnsatisfy_eq hget hx, (inv.idle hget rfl).1]
  exact inv.waiting hget hx

theorem timersHeld_armStraggler (inv : TimersHeld (some h) fw.pit fw.timers)
    (hget : fw.pit.get? h = some e) {satisfied : Bool} (freshness : Option Millis)
    (hsat : satisfied = true → e.inRecords = []) :
    TimersHeld none (fw.armStraggler h satisfied freshness).pit
      (fw.armStraggler h satisfied freshness).timers := by
  rw [armStraggler_eq hget, (inv.idle hget rfl).2]
  exact inv.closing hget _ freshness hsat

/-- Only the dead nonce list is touched. -/
theorem recordDeadNonces_eq (h : Pit.Handle) (satisfied : Bool) (freshness : Option Millis)
    (answeredBy : Option FaceId) (fw : Forwarder) :
    ∃ deadNonces,
      fw.recordDeadNonces h satisfied freshness answeredBy = { fw with deadNonces } := by
  unfold recordDeadNonces
  split
  · exact ⟨fw.deadNonces, rfl⟩
  · split
    · exact ⟨_, rfl⟩
    · exact ⟨fw.deadNonces, rfl⟩

theorem silent_recordDeadNonces (h : Pit.Handle) (satisfied : Bool) (freshness : Option Millis)
    (answeredBy : Option FaceId) (fw : Forwarder) :
    Silent fw (fw.recordDeadNonces h satisfied freshness answeredBy) := by
  obtain ⟨deadNonces, heq⟩ := recordDeadNonces_eq h satisfied freshness answeredBy fw
  rw [heq]
  exact ⟨⟨rfl, rfl, rfl, rfl, rfl⟩, rfl⟩

end Forwarder

end NamedData
