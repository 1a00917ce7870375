import NamedData.Forwarder.Event
import NamedData.Proofs.Pit.Entry
import NamedData.Proofs.Pit.Table
import NamedData.Proofs.Timer.Queue

/-!
# Entries and their timers

Between two packets every live entry holds one timer, and every pending timer is held by
one live entry. While the pipeline works on an entry it first takes the timers of that
entry away and later arms one of them again, so in between the rule holds of all other
entries. `TimersHeld` is the rule with room for one such entry. The pipeline takes timers
away with `TimersHeld.unarm`, works on the entry with `TimersHeld.modify`, and ends with
`TimersHeld.waiting` or `TimersHeld.closing`, or erases it with `TimersHeld.erase`.

## Main definitions

* `Pit.Entry.Armed`, the entry holds one timer, which the queue has with the right event
* `TimersHeld`
-/
namespace NamedData

/-- The entry that a timer is about. -/
def TimerEvent.entry : TimerEvent → Pit.Handle
  | unsatisfy h => h
  | straggler h _ _ => h

/-- The entry `e` with handle `h` holds exactly one timer, and `q` has it. -/
inductive Pit.Entry.Armed (q : TimerQueue TimerEvent) (h : Pit.Handle) (e : Pit.Entry) : Prop
  /-- The entry has requests and waits for the last of them to expire. If that was before the
  timer was set, the timer is due at once. -/
  | waiting {id : TimerId} {x : Instant} (unsatisfyTimer : e.unsatisfyTimer = some id)
    (stragglerTimer : e.stragglerTimer = none) (lastExpiry : e.lastExpiry? = some x)
    (pending : q.Pending id (max x q.now) (.unsatisfy h))
  /-- The entry waits for the grace period to end. If it was answered, its requests are gone. -/
  | closing {id : TimerId} {deadline : Instant} {satisfied : Bool} {freshness : Option Millis}
    (unsatisfyTimer : e.unsatisfyTimer = none) (stragglerTimer : e.stragglerTimer = some id)
    (inRecords : satisfied = true → e.inRecords = [])
    (pending : q.Pending id deadline (.straggler h satisfied freshness))

namespace Pit.Entry

variable {q q' : TimerQueue TimerEvent} {h : Handle} {e e' : Entry} {id : TimerId}

/-- The timer that an armed entry holds is pending and is about the entry. -/
theorem Armed.pending_of_holds (harmed : e.Armed q h) (hid : e.Holds id) :
    ∃ t event, q.Pending id t event ∧ event.entry = h := by
  cases harmed with
  | waiting hu hs _ hp =>
    rw [Holds, hu, hs] at hid
    rcases hid with hid | hid
    · cases hid
      exact ⟨_, _, hp, rfl⟩
    · cases hid
  | closing hu hs _ hp =>
    rw [Holds, hu, hs] at hid
    rcases hid with hid | hid
    · cases hid
    · cases hid
      exact ⟨_, _, hp, rfl⟩

/-- An armed entry holds one timer only. -/
theorem Armed.eq_of_holds {id' : TimerId} (harmed : e.Armed q h) (hid : e.Holds id)
    (hid' : e.Holds id') : id = id' := by
  cases harmed with
  | waiting hu hs _ _ =>
    simp only [Holds, hu, hs, Option.some.injEq, reduceCtorEq, or_false] at hid hid'
    exact hid.symm.trans hid'
  | closing hu hs _ _ =>
    simp only [Holds, hu, hs, Option.some.injEq, reduceCtorEq, false_or] at hid hid'
    exact hid.symm.trans hid'

/-- The entry stays armed while its timer stays pending and the clock does not pass the
deadline. -/
theorem Armed.mono (harmed : e.Armed q h)
    (hpend : ∀ id t event, event.entry = h → e.Holds id → q.Pending id t event →
      q'.Pending id t event)
    (hnow : q.now ≤ q'.now)
    (hdue : ∀ id t event, event.entry = h → q.Pending id t event → q'.now ≤ t) :
    e.Armed q' h := by
  cases harmed with
  | waiting hu hs hx hp =>
    refine .waiting hu hs hx ?_
    have hp' := hpend _ _ _ rfl (.inl hu) hp
    have hle := hdue _ _ _ rfl hp
    convert hp' using 1
    grind
  | closing hu hs hr hp => exact .closing hu hs hr (hpend _ _ _ rfl (.inr hs) hp)

/-- A change that keeps the timers and the requests of an entry keeps it armed. -/
theorem Armed.congr (harmed : e.Armed q h) (hu : e'.unsatisfyTimer = e.unsatisfyTimer)
    (hs : e'.stragglerTimer = e.stragglerTimer) (hr : e'.inRecords = e.inRecords) :
    e'.Armed q h := by
  cases harmed with
  | waiting hu' hs' hx hp =>
    refine .waiting (hu.trans hu') (hs.trans hs') ?_ hp
    rw [lastExpiry?, hr]
    exact hx
  | closing hu' hs' hr' hp =>
    refine .closing (hu.trans hu') (hs.trans hs') ?_ hp
    intro hsat
    rw [hr]
    exact hr' hsat

end Pit.Entry

/-- Each live entry is armed, and each pending timer is held by the live entry that it is
about. The entry `busy`, if there is one, is exempt and has no timer. -/
structure TimersHeld (busy : Option Pit.Handle) (pit : Pit) (q : TimerQueue TimerEvent) : Prop where
  pit_wellFormed : pit.WellFormed
  queue_wellFormed : q.WellFormed
  armed : ∀ {h e}, pit.get? h = some e → busy ≠ some h → e.Armed q h
  idle : ∀ {h e}, pit.get? h = some e → busy = some h → e.Idle
  held : ∀ {id t event}, q.Pending id t event →
    busy ≠ some event.entry ∧ ∃ e, pit.get? event.entry = some e ∧ e.Holds id

namespace TimersHeld

variable {busy : Option Pit.Handle} {pit pit' : Pit} {q q' : TimerQueue TimerEvent}
  {h : Pit.Handle} {e : Pit.Entry} {id : TimerId} {t : Instant} {event : TimerEvent}
  {g : Pit.Entry → Pit.Entry} {i : Interest}

theorem armed_of_get? (inv : TimersHeld none pit q) (hget : pit.get? h = some e) :
    e.Armed q h :=
  inv.armed hget (Option.some_ne_none h).symm

/-- A pending timer that a live entry holds is about that entry. -/
theorem entry_eq_of_holds (inv : TimersHeld busy pit q) (hget : pit.get? h = some e)
    (hid : e.Holds id) (hp : q.Pending id t event) : event.entry = h := by
  by_cases hbusy : busy = some h
  · exact absurd hid ((inv.idle hget hbusy).not_holds id)
  · obtain ⟨t', event', hp', hentry⟩ := (inv.armed hget hbusy).pending_of_holds hid
    rw [inv.queue_wellFormed.event_unique hp hp']
    exact hentry

/-- The timers of an entry go, and all others stay. -/
theorem release (inv : TimersHeld busy pit q) (hbusy : busy = none ∨ busy = some h)
    (hget : pit.get? h = some e) (hwf : q'.WellFormed) (hnow : q.now ≤ q'.now)
    (hpending : ∀ {id t event}, q'.Pending id t event ↔ ¬ e.Holds id ∧ q.Pending id t event)
    (hkeep : ∀ e, (g e).interest = e.interest) (hidle : (g e).Idle) :
    TimersHeld (some h) (pit.modify h g) q' := by
  -- a timer that two entries hold would be about both
  have hstays : ∀ {id t event}, event.entry ≠ h → q.Pending id t event →
      q'.Pending id t event := by
    intro id t event hne hp
    exact hpending.mpr ⟨fun hid => hne (inv.entry_eq_of_holds hget hid hp), hp⟩
  constructor
  case pit_wellFormed => exact Pit.wellFormed_modify inv.pit_wellFormed hkeep
  case queue_wellFormed => exact hwf
  case armed =>
    intro h' e' hget' hne
    have hne : h' ≠ h := fun heq => hne (heq ▸ rfl)
    rw [Pit.get?_modify_of_ne hne] at hget'
    have hfree : busy ≠ some h' := by
      rcases hbusy with rfl | rfl
      · exact (Option.some_ne_none h').symm
      · exact fun heq => hne (Option.some.inj heq).symm
    refine (inv.armed hget' hfree).mono ?_ hnow ?_
    · intro id t event hentry _ hp
      exact hstays (hentry ▸ hne) hp
    · intro id t event hentry hp
      exact hwf.now_le (hstays (hentry ▸ hne) hp)
  case idle =>
    intro h' e' hget' heq
    cases heq
    rw [Pit.get?_modify_self hget, Option.some.injEq] at hget'
    rw [← hget']
    exact hidle
  case held =>
    intro id t event hp
    obtain ⟨hid, hp⟩ := hpending.mp hp
    obtain ⟨_, e', hget', hid'⟩ := inv.held hp
    have hne : event.entry ≠ h := by
      intro heq
      rw [heq, hget, Option.some.injEq] at hget'
      exact hid (hget' ▸ hid')
    refine ⟨fun heq => hne (Option.some.inj heq).symm, e', ?_, hid'⟩
    rw [Pit.get?_modify_of_ne hne]
    exact hget'

/-- Take the timers of an entry away. -/
theorem unarm (inv : TimersHeld busy pit q) (hbusy : busy = none ∨ busy = some h)
    (hget : pit.get? h = some e) :
    TimersHeld (some h) (pit.modify h .unarmed)
      ((q.cancel? e.unsatisfyTimer).cancel? e.stragglerTimer) := by
  have hwf := TimerQueue.wellFormed_cancel? (TimerQueue.wellFormed_cancel? inv.queue_wellFormed
    e.unsatisfyTimer) e.stragglerTimer
  refine inv.release hbusy hget hwf (by simp) ?_ (fun _ => rfl) ⟨rfl, rfl⟩
  intro id t event
  rw [TimerQueue.pending_cancel?, TimerQueue.pending_cancel?, Pit.Entry.Holds]
  tauto

/-- Change the records of an entry. The requests of an entry that is armed stay. -/
theorem modify (inv : TimersHeld busy pit q)
    (hkeep : ∀ e, (g e).interest = e.interest ∧ (g e).unsatisfyTimer = e.unsatisfyTimer ∧
      (g e).stragglerTimer = e.stragglerTimer)
    (hrec : busy = some h ∨ ∀ e, (g e).inRecords = e.inRecords) :
    TimersHeld busy (pit.modify h g) q := by
  have hlive : ∀ {h' e'}, (pit.modify h g).get? h' = some e' →
      ∃ e, pit.get? h' = some e ∧ (e' = e ∨ h' = h ∧ e' = g e) := by
    intro h' e' hget'
    rw [Pit.get?_modify] at hget'
    by_cases heq : h' = h
    · rw [if_pos heq, Option.map_eq_some_iff] at hget'
      obtain ⟨e, hget, rfl⟩ := hget'
      exact ⟨e, heq ▸ hget, .inr ⟨heq, rfl⟩⟩
    · rw [if_neg heq] at hget'
      exact ⟨e', hget', .inl rfl⟩
  constructor
  case pit_wellFormed => exact Pit.wellFormed_modify inv.pit_wellFormed fun e => (hkeep e).1
  case queue_wellFormed => exact inv.queue_wellFormed
  case armed =>
    intro h' e' hget' hne
    obtain ⟨e, hget, rfl | ⟨rfl, rfl⟩⟩ := hlive hget'
    · exact inv.armed hget hne
    · exact (inv.armed hget hne).congr (hkeep e).2.1 (hkeep e).2.2 (hrec.resolve_left hne e)
  case idle =>
    intro h' e' hget' heq
    obtain ⟨e, hget, rfl | ⟨rfl, rfl⟩⟩ := hlive hget'
    · exact inv.idle hget heq
    · exact ⟨(hkeep e).2.1.trans (inv.idle hget heq).1, (hkeep e).2.2.trans (inv.idle hget heq).2⟩
  case held =>
    intro id t event hp
    obtain ⟨hne, e, hget, hid⟩ := inv.held hp
    refine ⟨hne, ?_⟩
    rw [Pit.get?_modify]
    split
    · next heq =>
      refine ⟨g e, by rw [← heq, hget]; rfl, ?_⟩
      rw [Pit.Entry.Holds, (hkeep e).2.1, (hkeep e).2.2]
      exact hid
    · exact ⟨e, hget, hid⟩

/-- Arm the entry that has no timer. -/
theorem arm (inv : TimersHeld (some h) pit q) (hget : pit.get? h = some e) {delay : Millis}
    (hentry : event.entry = h) (hkeep : ∀ e, (g e).interest = e.interest)
    (hholds : (g e).Holds q.nextId) (harmed : (g e).Armed (q.schedule delay event).2 h) :
    TimersHeld none (pit.modify h g) (q.schedule delay event).2 := by
  have hwf := inv.queue_wellFormed
  constructor
  case pit_wellFormed => exact Pit.wellFormed_modify inv.pit_wellFormed hkeep
  case queue_wellFormed => exact TimerQueue.wellFormed_schedule hwf _ _
  case armed =>
    intro h' e' hget' _
    by_cases heq : h' = h
    · subst heq
      rw [Pit.get?_modify_self hget, Option.some.injEq] at hget'
      rw [← hget']
      exact harmed
    · rw [Pit.get?_modify_of_ne heq] at hget'
      have hne : some h ≠ some h' := fun h => heq (Option.some.inj h).symm
      refine (inv.armed hget' hne).mono ?_ (Nat.le_refl _) ?_
      · exact fun _ _ _ _ _ hp => (TimerQueue.pending_schedule hwf.toSound).mpr (.inr hp)
      · exact fun _ _ _ _ hp => hwf.now_le hp
  case idle => simp
  case held =>
    intro id t event' hp
    refine ⟨(Option.some_ne_none _).symm, ?_⟩
    rcases (TimerQueue.pending_schedule hwf.toSound).mp hp with ⟨rfl, _, rfl⟩ | hp
    · rw [hentry, Pit.get?_modify_self hget]
      exact ⟨g e, rfl, hholds⟩
    · obtain ⟨hne, e', hget', hid⟩ := inv.held hp
      have hne : event'.entry ≠ h := fun heq => hne (heq ▸ rfl)
      rw [Pit.get?_modify_of_ne hne]
      exact ⟨e', hget', hid⟩

/-- Let the entry expire with the last of its requests. -/
theorem waiting (inv : TimersHeld (some h) pit q) (hget : pit.get? h = some e) {x : Instant}
    (hx : e.lastExpiry? = some x) :
    TimersHeld none (pit.modify h (.armedUnsatisfy q.nextId))
      (q.schedule (x - q.now) (.unsatisfy h)).2 := by
  have hp := TimerQueue.pending_schedule_self inv.queue_wellFormed.toSound (x - q.now)
    (.unsatisfy h)
  have hdeadline : q.now + (x - q.now) = max x q.now := by grind
  rw [hdeadline] at hp
  exact inv.arm hget rfl (fun _ => rfl) (.inl rfl) (.waiting rfl (inv.idle hget rfl).2 hx hp)

/-- Let the entry go after the grace period. -/
theorem closing (inv : TimersHeld (some h) pit q) (hget : pit.get? h = some e) (delay : Millis)
    {satisfied : Bool} (freshness : Option Millis)
    (hsat : satisfied = true → e.inRecords = []) :
    TimersHeld none (pit.modify h (.armedStraggler q.nextId))
      (q.schedule delay (.straggler h satisfied freshness)).2 := by
  have hp := TimerQueue.pending_schedule_self inv.queue_wellFormed.toSound delay
    (.straggler h satisfied freshness)
  exact inv.arm hget rfl (fun _ => rfl) (.inr rfl) (.closing (inv.idle hget rfl).1 rfl hsat hp)

/-- Create an entry, which has no timer yet. -/
theorem created (inv : TimersHeld none pit q) (c : Pit.Created pit i h pit') :
    TimersHeld (some h) pit' q where
  pit_wellFormed := c.wellFormed inv.pit_wellFormed
  queue_wellFormed := inv.queue_wellFormed
  armed {h'} e' hget' hne := by
    rw [c.get?_of_ne fun heq => hne (heq ▸ rfl)] at hget'
    exact inv.armed_of_get? hget'
  idle {h'} e' hget' heq := by
    cases heq
    rw [c.get?_self, Option.some.injEq] at hget'
    rw [← hget']
    exact ⟨rfl, rfl⟩
  held hp := by
    obtain ⟨_, e', hget', hid⟩ := inv.held hp
    have hne := c.ne_of_get? hget'
    refine ⟨fun heq => hne (Option.some.inj heq).symm, e', ?_, hid⟩
    rw [c.get?_of_ne hne]
    exact hget'

/-- Erase the entry that has no timer. -/
theorem erase (inv : TimersHeld (some h) pit q) : TimersHeld none (pit.erase h) q where
  pit_wellFormed := Pit.wellFormed_erase inv.pit_wellFormed
  queue_wellFormed := inv.queue_wellFormed
  armed {h'} e' hget' _ := by
    rw [Pit.get?_erase] at hget'
    obtain ⟨hne, hget'⟩ := Option.ite_none_left_eq_some.mp hget'
    exact inv.armed hget' fun heq => hne (Option.some.inj heq).symm
  idle _ heq := absurd heq (Option.some_ne_none _).symm
  held {id t event} hp := by
    obtain ⟨hne, e', hget', hid⟩ := inv.held hp
    refine ⟨(Option.some_ne_none _).symm, e', ?_, hid⟩
    have hne : event.entry ≠ h := fun heq => hne (heq ▸ rfl)
    rw [Pit.get?_erase, if_neg hne]
    exact hget'

/-- A timer comes out of the queue, and the entry that it is about forgets its timers. -/
theorem popped (inv : TimersHeld none pit q) (p : q.Popped t id event q')
    (hkeep : ∀ e, (g e).interest = e.interest) (hidle : ∀ e, pit.get? event.entry = some e →
      (g e).Idle) :
    TimersHeld (some event.entry) (pit.modify event.entry g) q' := by
  obtain ⟨deadline, hpid, _, hnow, _⟩ := p.exists_deadline
  obtain ⟨_, e, hget, hid⟩ := inv.held hpid
  have hlater : q.now ≤ q'.now := hnow ▸ Nat.le_max_left _ _
  refine inv.release (.inl rfl) hget (p.wellFormed inv.queue_wellFormed) hlater ?_ hkeep
    (hidle e hget)
  intro id' t' event'
  -- the entry holds no other timer
  have hholds : e.Holds id' ↔ id' = id := by
    refine ⟨fun hid' => (inv.armed_of_get? hget).eq_of_holds hid' hid, ?_⟩
    rintro rfl
    exact hid
  rw [p.pending_iff, hholds]

/-- The clock moves up to no later than the first deadline. -/
theorem advanceTo (inv : TimersHeld busy pit q)
    (hdue : ∀ id deadline event, q.Pending id deadline event → t ≤ deadline) :
    TimersHeld busy pit (q.advanceTo t) where
  pit_wellFormed := inv.pit_wellFormed
  queue_wellFormed := TimerQueue.wellFormed_advanceTo inv.queue_wellFormed hdue
  armed hget hne := by
    refine (inv.armed hget hne).mono (fun _ _ _ _ _ hp => hp) (Nat.le_max_left _ _) ?_
    exact fun _ _ _ _ hp =>
      Nat.max_le.mpr ⟨inv.queue_wellFormed.now_le hp, hdue _ _ _ hp⟩
  idle := inv.idle
  held := inv.held

end TimersHeld

end NamedData
