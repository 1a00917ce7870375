import NamedData.Proofs.Forwarder.ReceiveInterest

/-!
# What is counted

A node counts a packet when it comes in and when it leaves, and it counts what becomes of an
Interest or of Data in between. All that timers, strategies and listeners add to the counters are
the packets that leave, which stand in the journal.

## Main definitions

* `Event.tally`, how an event is counted
* `Event.IsHandover`, the strategy is handed an Interest
* `Forwarder.Accounted`, the counters have moved by what the journal shows

## Main statements

* `Plan.accounted_run`, `Forwarder.accounted_answerFromStore`
* `Forwarder.Accounted.csHits`: no hit of the content store is counted in between
-/
namespace NamedData

/-- The counter for a packet that leaves. -/
def Packet.counter : Packet → Counter
  | interest _ => .outInterests
  | data _ => .outData

/-- The counts once the event has happened. -/
def Event.tally : Event → Counters → Counters
  | sent _ p, n => n.increment p.counter
  | told .., n | logged _, n => n

theorem Event.csHits_tally (event : Event) (n : Counters) :
    (event.tally n).csHits = n.csHits := by
  cases event with
  | sent face p => cases p <;> rfl
  | told | logged => rfl

/-- The strategy is handed an Interest that wants to be forwarded. -/
def Event.IsHandover : Event → Prop
  | told .strategy (.received ..) => True
  | _ => False

namespace Forwarder

variable {fw fw' fw'' : Forwarder} {h : Pit.Handle} {event : Event}

/-- The events `l` have happened in between, of which the latest comes first. What left was
counted and nothing else was, and the strategy was not handed an Interest. -/
def Accounted (fw fw' : Forwarder) : Prop :=
  ∃ l, fw'.journal = l ++ fw.journal ∧ fw'.counters = l.foldr Event.tally fw.counters ∧
    ∀ event ∈ l, ¬ event.IsHandover

namespace Accounted

theorem of_eq (hjournal : fw'.journal = fw.journal) (hcounters : fw'.counters = fw.counters) :
    Accounted fw fw' :=
  ⟨[], hjournal, hcounters, List.forall_mem_nil _⟩

theorem refl (fw : Forwarder) : Accounted fw fw := of_eq rfl rfl

theorem of_event (hjournal : fw'.journal = event :: fw.journal)
    (hcounters : fw'.counters = event.tally fw.counters) (hevent : ¬ event.IsHandover) :
    Accounted fw fw' :=
  ⟨[event], hjournal, hcounters, List.forall_mem_singleton.mpr hevent⟩

theorem trans (ha : Accounted fw fw') (ha' : Accounted fw' fw'') : Accounted fw fw'' := by
  obtain ⟨l, hjournal, hcounters, hl⟩ := ha
  obtain ⟨l', hjournal', hcounters', hl'⟩ := ha'
  refine ⟨l' ++ l, ?_, ?_, ?_⟩
  · rw [hjournal', hjournal, List.append_assoc]
  · rw [hcounters', hcounters, List.foldr_append]
  · exact List.forall_mem_append.mpr ⟨hl', hl⟩

theorem csHits (ha : Accounted fw fw') : fw'.counters.csHits = fw.counters.csHits := by
  obtain ⟨l, _, hcounters, _⟩ := ha
  have hfold : ∀ l : List Event, (l.foldr Event.tally fw.counters).csHits = fw.counters.csHits := by
    intro l
    induction l with
    | nil => rfl
    | cons event rest ih => exact (event.csHits_tally _).trans ih
  rw [hcounters, hfold]

end Accounted

/-! ## Events -/

theorem accounted_log (i : Incident) (fw : Forwarder) : Accounted fw (fw.log i) :=
  .of_event rfl rfl id

theorem accounted_emitInterest (face : Face) (i : Interest) (fw : Forwarder) :
    Accounted fw (fw.emitInterest face i) :=
  .of_event rfl rfl id

theorem accounted_emitData (face : Face) (d : Data) (fw : Forwarder) :
    Accounted fw (fw.emitData face d) :=
  .of_event rfl rfl id

theorem accounted_tellObservers (notice : Notice) (fw : Forwarder) :
    Accounted fw (fw.tellObservers notice) := by
  unfold tellObservers
  induction List.range fw.observers generalizing fw with
  | nil => exact .refl fw
  | cons k rest ih =>
    have hfirst : Accounted fw (fw.record (.told (.observer k) notice)) := .of_event rfl rfl id
    exact hfirst.trans (ih _)

theorem accounted_notifySatisfying (s : Strategy) (h : Pit.Handle) (d : Incoming Data)
    (fw : Forwarder) : Accounted fw (fw.notifySatisfying s.hooks h d) := by
  unfold notifySatisfying
  split
  · exact .refl fw
  · exact (accounted_tellObservers _ fw).trans (.of_event rfl rfl id)

/-! ## Timers of an entry -/

theorem Rescheduled.accounted (hr : Rescheduled fw fw') : Accounted fw fw' :=
  .of_eq (by rw [hr.eq_update]) (by rw [hr.eq_update])

/-! ## Packets that leave -/

theorem accounted_sendData (d : Data) (out : FaceId) (fw : Forwarder) :
    Accounted fw (fw.sendData d out) := by
  unfold sendData
  split
  · exact accounted_log _ fw
  · split
    · exact accounted_log _ fw
    · split
      · exact .refl fw
      · exact accounted_emitData _ d fw

theorem accounted_registerLocation (face : Face) (i : Interest) (fw : Forwarder) :
    Accounted fw (fw.registerLocation face i) := by
  unfold registerLocation
  split
  · exact .refl fw
  · split
    · exact .refl fw
    · split
      · exact accounted_log _ fw
      · split
        · exact .refl fw
        · exact accounted_emitInterest _ i fw

theorem accounted_sendInterest (h : Pit.Handle) (out : FaceId) (newNonce : Bool) (fw : Forwarder) :
    Accounted fw (fw.sendInterest h out newNonce) := by
  unfold sendInterest
  split
  · exact accounted_log _ fw
  · split
    · exact accounted_log _ fw
    · split
      · exact accounted_log _ fw
      · split
        · exact .refl fw
        · split
          · exact accounted_log _ fw
          · exact .of_event rfl rfl id

theorem accounted_rejectInterest (h : Pit.Handle) (fw : Forwarder) :
    Accounted fw (fw.rejectInterest h) := by
  unfold rejectInterest
  split
  · exact accounted_log _ fw
  · split
    · exact accounted_log _ fw
    · exact ((rescheduled_cancelTimers h fw).trans (rescheduled_armStraggler h _ _ _)).accounted

/-- An answer from the content store is counted if it leaves. -/
theorem accounted_answerFromStore (s : Strategy) (out : FaceId) (h : Pit.Handle) (d : Data)
    (fw : Forwarder) : Accounted fw (fw.answerFromStore s.hooks out h d) := by
  rw [answerFromStore]
  refine Accounted.trans ?_ (accounted_sendData d out _)
  refine (accounted_notifySatisfying s h ⟨.contentStore, d⟩ fw).trans ?_
  split
  · exact (rescheduled_armUnsatisfy h _).accounted
  · exact (rescheduled_armStraggler h _ _ _).accounted

/-! ## Interests that arrive -/

variable {f : FaceId} {i : Interest} {face : Face} {pit : Pit} {e : Pit.Entry}

theorem accounted_openEntry (pit : Pit) (h : Pit.Handle) (fw : Forwarder) :
    Accounted (fw.count .inInterests) (fw.openEntry pit h) :=
  Accounted.trans (.of_eq rfl rfl) (rescheduled_cancelTimers h _).accounted

theorem accounted_enlist (face : Face) (i : Interest) (h : Pit.Handle) (fw : Forwarder) :
    Accounted fw (fw.enlist face i h) :=
  Accounted.trans (.of_eq rfl rfl) (rescheduled_armUnsatisfy h _).accounted

end Forwarder

/-- **A strategy adds what it sends** to the counters. -/
theorem Plan.accounted_run {p : Plan} (hp : p.Forwards) (fw : Forwarder) :
    Forwarder.Accounted fw (p.run fw) :=
  run_induction hp
    (fun h out newNonce ha => ha.trans (Forwarder.accounted_sendInterest h out newNonce _))
    (fun h ha => ha.trans (Forwarder.accounted_rejectInterest h _)) (.refl fw)

end NamedData
