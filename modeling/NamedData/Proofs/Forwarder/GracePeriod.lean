import NamedData.Proofs.Forwarder.ReceiveData

/-!
# The grace period of an answered entry

Data that answers an entry takes its timer away and sets one for the end of the grace period.
The timers of entries that the Data does not match are left alone. So whatever entries one
packet answers, each of them has one timer afterwards, and they are all due at the same time.

## Main definitions

* `Forwarder.InGracePeriod`, an entry was answered
* `Forwarder.Undisturbed`, nothing was done to an entry or to its timer

## Main statements

* `Forwarder.inGracePeriod_receiveData`, for the entries that the Data answers
* `Forwarder.undisturbed_receiveData`, for all others
-/
namespace NamedData

/-- The entry that holds a pending timer is the one that the timer is about. -/
theorem TimersHeld.holds_iff {pit : Pit} {q : TimerQueue TimerEvent} {h : Pit.Handle}
    {e : Pit.Entry} {id : TimerId} {t : Instant} {event : TimerEvent}
    (inv : TimersHeld none pit q) (hget : pit.get? h = some e) (hp : q.Pending id t event) :
    e.Holds id ↔ event.entry = h := by
  constructor
  · exact fun hid => inv.entry_eq_of_holds hget hid hp
  · rintro rfl
    obtain ⟨_, e', hget', hid⟩ := inv.held hp
    obtain rfl := Option.some.inj (hget.symm.trans hget')
    exact hid

namespace Forwarder

variable {fw fw' : Forwarder} {f : FaceId} {h : Pit.Handle} {e : Pit.Entry} {d : Data}
  {face : Face} {id : TimerId} {t : Instant} {event : TimerEvent} {entries : List Pit.Handle}

/-! ## The timers of one entry -/

theorem pending_cancelTimers (inv : TimersHeld none fw.pit fw.timers)
    (hget : fw.pit.get? h = some e) :
    (fw.cancelTimers h).timers.Pending id t event ↔
      event.entry ≠ h ∧ fw.timers.Pending id t event := by
  have hcancel : (fw.cancelTimers h).timers.Pending id t event ↔
      ¬ e.Holds id ∧ fw.timers.Pending id t event := by
    rw [cancelTimers_eq hget, TimerQueue.pending_cancel?, TimerQueue.pending_cancel?,
      Pit.Entry.Holds]
    tauto
  rw [hcancel]
  constructor
  · rintro ⟨hid, hp⟩
    exact ⟨fun hentry => hid ((inv.holds_iff hget hp).mpr hentry), hp⟩
  · rintro ⟨hentry, hp⟩
    exact ⟨fun hid => hentry ((inv.holds_iff hget hp).mp hid), hp⟩

/-- Answering an entry replaces its timer. -/
theorem pending_satisfy (inv : TimersHeld none fw.pit fw.timers) (hget : fw.pit.get? h = some e)
    (s : Strategy) (d : Incoming Data) :
    (satisfy s.hooks d fw h).timers.Pending id t event ↔
      (id = fw.timers.nextId ∧ t = fw.now + fw.stragglerTime ∧
        event = .straggler h true d.packet.freshness) ∨
      event.entry ≠ h ∧ fw.timers.Pending id t event := by
  have hget' := Pit.get?_modify_self
    (f := fun e => e.unarmed.deleteInRecords.deleteOutRecord d.face) hget
  rw [← pit_settle s d] at hget'
  have hwf := (timersHeld_cancelTimers inv (.inl rfl) hget).queue_wellFormed
  have hnext : (fw.cancelTimers h).timers.nextId = fw.timers.nextId := by
    rw [cancelTimers_eq hget, TimerQueue.nextId_cancel?, TimerQueue.nextId_cancel?]
  have hnow : (fw.cancelTimers h).timers.now = fw.now :=
    (rescheduled_cancelTimers h fw).now
  -- the timers of the entry are gone already, so there is none to cancel when the new one is set
  have hidle : (e.unarmed.deleteInRecords.deleteOutRecord d.face).stragglerTimer = none := rfl
  rw [satisfy_eq, armStraggler_eq hget', timers_settle, (silent_settle s d h fw).stragglerTime,
    hidle, TimerQueue.cancel?, TimerQueue.pending_schedule hwf.toSound, hnext, hnow,
    pending_cancelTimers inv hget]

/-- Data does nothing to the timers of an entry that is gone. -/
theorem timers_satisfy_of_get?_eq_none (hget : fw.pit.get? h = none) (s : Strategy)
    (d : Incoming Data) : (satisfy s.hooks d fw h).timers = fw.timers := by
  have hget' : (fw.settle s d h).pit.get? h = none := by
    rw [pit_settle, Pit.modify_of_get?_eq_none _ hget, hget]
  rw [satisfy_eq, armStraggler, hget', timers_settle, cancelTimers, hget]

/-! ## The timers of all entries that are answered -/

theorem pending_satisfy_of_ne (inv : TimersHeld none fw.pit fw.timers) (s : Strategy)
    (d : Incoming Data) (hne : event.entry ≠ h) :
    (satisfy s.hooks d fw h).timers.Pending id t event ↔ fw.timers.Pending id t event := by
  cases hget : fw.pit.get? h with
  | none => rw [timers_satisfy_of_get?_eq_none hget]
  | some e =>
    rw [pending_satisfy inv hget]
    constructor
    · rintro (⟨_, _, rfl⟩ | ⟨_, hp⟩)
      · exact absurd rfl hne
      · exact hp
    · exact fun hp => .inr ⟨hne, hp⟩

theorem pending_foldl_satisfy_of_not_mem (inv : TimersHeld none fw.pit fw.timers) (s : Strategy)
    (d : Incoming Data) (hmem : event.entry ∉ entries) :
    (entries.foldl (satisfy s.hooks d) fw).timers.Pending id t event ↔
      fw.timers.Pending id t event := by
  induction entries generalizing fw with
  | nil => rfl
  | cons h rest ih =>
    rw [List.mem_cons, not_or] at hmem
    rw [List.foldl_cons, ih (timersHeld_satisfy inv s d h) hmem.2,
      pending_satisfy_of_ne inv s d hmem.1]

theorem exists_pending_foldl_satisfy (inv : TimersHeld none fw.pit fw.timers) (s : Strategy)
    (d : Incoming Data) (hmem : h ∈ entries) (hget : fw.pit.get? h = some e) :
    ∃ id, (entries.foldl (satisfy s.hooks d) fw).timers.Pending id (fw.now + fw.stragglerTime)
      (.straggler h true d.packet.freshness) := by
  induction entries generalizing fw e with
  | nil => cases hmem
  | cons g rest ih =>
    have ha := answers_satisfy s d g fw
    have inv' := timersHeld_satisfy inv s d g
    rw [List.foldl_cons, ← ha.now, ← ha.stragglerTime]
    by_cases hrest : h ∈ rest
    · -- a later answer sets the timer that stays, for the same time
      obtain ⟨e', hget'⟩ : ∃ e', (satisfy s.hooks d fw g).pit.get? h = some e' := by
        by_cases heq : h ∈ [g]
        · obtain ⟨_, hget'⟩ := ha.get?_of_mem h heq e hget
          exact ⟨_, hget'⟩
        · exact ⟨e, (ha.get?_of_not_mem h heq).trans hget⟩
      exact ih inv' hrest hget'
    · obtain rfl := (List.mem_cons.mp hmem).resolve_right hrest
      refine ⟨fw.timers.nextId, ?_⟩
      rw [pending_foldl_satisfy_of_not_mem inv' s d hrest, pending_satisfy inv hget, ha.now,
        ha.stragglerTime]
      exact .inl ⟨rfl, rfl, rfl⟩

/-! ## The entries that are answered -/

/-- The entry `e` with the handle `h` was answered by Data from the face `f` and waits for
the grace period to end at `due`. Its requests are gone, and so is what was asked of `f`. -/
def InGracePeriod (fw' : Forwarder) (f : FaceId) (freshness : Option Millis) (due : Instant)
    (h : Pit.Handle) (e : Pit.Entry) : Prop :=
  ∃ id,
    fw'.pit.get? h = some
      { e with
        inRecords := []
        outRecords := e.outRecords.filter (·.face ≠ f)
        unsatisfyTimer := none
        stragglerTimer := some id } ∧
    ∀ id' t event, event.entry = h →
      (fw'.timers.Pending id' t event ↔
        id' = id ∧ t = due ∧ event = .straggler h true freshness)

/-- A node that has answered an entry has one timer for it. -/
theorem inGracePeriod_of_pending (inv : TimersHeld none fw'.pit fw'.timers) {due : Instant}
    {freshness : Option Millis} (hget : fw'.pit.get? h = some (e.satisfied f id))
    (hp : ∃ id, fw'.timers.Pending id due (.straggler h true freshness)) :
    fw'.InGracePeriod f freshness due h e := by
  have hwf := inv.queue_wellFormed
  -- the entry holds one timer, so every pending one about it has the number `id`
  have honly : ∀ {id' t event}, event.entry = h → fw'.timers.Pending id' t event → id' = id := by
    intro id' t event hentry hp'
    rcases (inv.holds_iff hget hp').mpr hentry with hid | hid
    · cases hid
    · exact (Option.some.inj hid).symm
  obtain ⟨id₀, hp⟩ := hp
  obtain rfl := honly rfl hp
  refine ⟨id₀, hget, ?_⟩
  intro id' t event hentry
  constructor
  · intro hp'
    obtain rfl := honly hentry hp'
    exact ⟨rfl, hwf.deadline_unique hp' hp, hwf.event_unique hp' hp⟩
  · rintro ⟨rfl, rfl, rfl⟩
    exact hp

theorem inGracePeriod_answer (inv : TimersHeld none fw.pit fw.timers) (s : Strategy)
    (hmem : h ∈ entries) (hget : fw.pit.get? h = some e) :
    (fw.answer s.hooks f d entries).InGracePeriod f d.freshness (fw.now + fw.stragglerTime) h
      e := by
  have ha := answers_foldl s ⟨f, d⟩ entries fw
  have ho := outward_foldl_sendData d ((fw.waitingFaces entries).filter (· ≠ f))
    (entries.foldl (satisfy s.hooks ⟨f, d⟩) fw)
  have hpit : (fw.answer s.hooks f d entries).pit = _ := ho.pit
  have htimers : (fw.answer s.hooks f d entries).timers = _ := ho.timers
  have inv' := ha.timersHeld inv
  rw [← hpit, ← htimers] at inv'
  obtain ⟨id, hget'⟩ := ha.get?_of_mem h hmem e hget
  rw [← hpit] at hget'
  have hp := exists_pending_foldl_satisfy inv s ⟨f, d⟩ hmem hget
  rw [← htimers] at hp
  exact inGracePeriod_of_pending inv' hget' hp

/-- An entry that is not answered is as before, and so are the timers about it. -/
def Undisturbed (fw fw' : Forwarder) (h : Pit.Handle) : Prop :=
  fw'.pit.get? h = fw.pit.get? h ∧
    ∀ id t event, event.entry = h → (fw'.timers.Pending id t event ↔ fw.timers.Pending id t event)

theorem Untouched.undisturbed (hu : Untouched fw fw') (h : Pit.Handle) : Undisturbed fw fw' h := by
  refine ⟨by rw [hu.pit], ?_⟩
  intro id t event _
  rw [hu.timers]

theorem undisturbed_answer (inv : TimersHeld none fw.pit fw.timers) (s : Strategy)
    (hmem : h ∉ entries) : Undisturbed fw (fw.answer s.hooks f d entries) h := by
  have ho := outward_foldl_sendData d ((fw.waitingFaces entries).filter (· ≠ f))
    (entries.foldl (satisfy s.hooks ⟨f, d⟩) fw)
  refine ⟨?_, ?_⟩
  · rw [answer, ho.pit]
    exact (answers_foldl s ⟨f, d⟩ entries fw).get?_of_not_mem h hmem
  · rintro id t event rfl
    rw [answer, ho.timers]
    exact pending_foldl_satisfy_of_not_mem inv s ⟨f, d⟩ hmem

/-! ## Data that arrives -/

theorem untouched_keepAwaited (face : Face) (d : Data) (fw : Forwarder) :
    Untouched fw ((fw.count .inData).keepAwaited face d) := by
  have hcount : Untouched fw (fw.count .inData) := Outward.untouched rfl
  exact hcount.trans (takenIn_keepAwaited face d (fw.count .inData)).toUntouched

/-- Data that somebody waits for answers the entries that it matches. -/
theorem receiveData_of_awaited (hface : fw.faces.get? f = some face) (hpush : ¬ d.IsPushed)
    (hscope : ¬ (face.isLocal = false ∧ d.name.IsLocalhost)) (hmem : h ∈ fw.pit.dataMatches d)
    (hooks : Hooks) :
    fw.receiveData hooks f d =
      ((fw.count .inData).keepAwaited face d).answer hooks f d (fw.pit.dataMatches d) := by
  rw [receiveData_of_face hface, if_neg hpush, if_neg hscope]
  split
  · next hnil =>
    rw [hnil] at hmem
    cases hmem
  · rfl

/-- **An entry that the Data answers** waits for the grace period to end, and for nothing else. -/
theorem inGracePeriod_receiveData (inv : TimersHeld none fw.pit fw.timers)
    (hface : fw.faces.get? f = some face) (hpush : ¬ d.IsPushed)
    (hscope : ¬ (face.isLocal = false ∧ d.name.IsLocalhost)) (s : Strategy)
    (hget : fw.pit.get? h = some e) (haccepts : e.interest.Accepts d) :
    (fw.receiveData s.hooks f d).InGracePeriod f d.freshness (fw.now + fw.stragglerTime) h e := by
  have hmem := (Pit.mem_dataMatches inv.pit_wellFormed).mpr ⟨e, hget, haccepts⟩
  have hu := untouched_keepAwaited face d fw
  rw [receiveData_of_awaited hface hpush hscope hmem, ← hu.stragglerTime, now, ← hu.timers]
  rw [← hu.pit, ← hu.timers] at inv
  rw [← hu.pit] at hget
  exact inGracePeriod_answer inv s hmem hget

/-- **An entry that the Data does not answer** keeps its records and its timer. -/
theorem undisturbed_receiveData (inv : TimersHeld none fw.pit fw.timers)
    (hface : fw.faces.get? f = some face) (hpush : ¬ d.IsPushed)
    (hscope : ¬ (face.isLocal = false ∧ d.name.IsLocalhost)) (s : Strategy)
    (hother : ∀ e, fw.pit.get? h = some e → ¬ e.interest.Accepts d) :
    Undisturbed fw (fw.receiveData s.hooks f d) h := by
  have hmem : h ∉ fw.pit.dataMatches d := by
    intro hmem
    obtain ⟨e, hget, haccepts⟩ := (Pit.mem_dataMatches inv.pit_wellFormed).mp hmem
    exact hother e hget haccepts
  rw [receiveData_of_face hface, if_neg hpush, if_neg hscope]
  split
  · have hcount : Untouched fw (fw.count .inData) := Outward.untouched rfl
    exact (hcount.trans (receiveUnsolicited_spec face d _).1).undisturbed h
  · have hu := untouched_keepAwaited face d fw
    rw [← hu.pit, ← hu.timers] at inv
    obtain ⟨hpit, htimers⟩ := undisturbed_answer (f := f) (d := d) inv s hmem
    refine ⟨hpit.trans (hu.undisturbed h).1, ?_⟩
    intro id t event hentry
    exact (htimers id t event hentry).trans ((hu.undisturbed h).2 id t event hentry)

end Forwarder

end NamedData
