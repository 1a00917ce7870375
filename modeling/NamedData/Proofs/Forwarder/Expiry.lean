import NamedData.Proofs.Forwarder.Effects

/-!
# What timers that fire do

A timer that fires takes its entry away, and nothing else happens to the tables. So
polling removes exactly the entries whose timer is due.

## Main definitions

* `Forwarder.Fired`, what one timer does
* `Forwarder.Polled`, what all timers due by a time do, with `polled_pollTimers`
-/
namespace NamedData

namespace Pit.Entry.Armed

variable {q : TimerQueue TimerEvent} {h : Handle} {e : Entry} {id : TimerId} {t : Instant}

/-- A pending timer for the case that no Data comes is the only one of its entry. -/
theorem unsatisfy_of_pending (harmed : e.Armed q h) (wf : q.WellFormed) (hid : e.Holds id)
    (hp : q.Pending id t (.unsatisfy h)) :
    e.unsatisfyTimer = some id ∧ e.stragglerTimer = none := by
  have honly : ∀ id', e.Holds id' → id = id' := fun _ hid' => harmed.eq_of_holds hid hid'
  cases harmed with
  | waiting hu hs _ _ =>
    obtain rfl := honly _ (.inl hu)
    exact ⟨hu, hs⟩
  | closing _ hs _ hp' =>
    obtain rfl := honly _ (.inr hs)
    cases wf.event_unique hp hp'

/-- A pending timer for the grace period is the only one of its entry. -/
theorem straggler_of_pending (harmed : e.Armed q h) (wf : q.WellFormed) (hid : e.Holds id)
    {satisfied : Bool} {freshness : Option Millis}
    (hp : q.Pending id t (.straggler h satisfied freshness)) :
    e.stragglerTimer = some id ∧ e.unsatisfyTimer = none := by
  have honly : ∀ id', e.Holds id' → id = id' := fun _ hid' => harmed.eq_of_holds hid hid'
  cases harmed with
  | waiting hu _ _ hp' =>
    obtain rfl := honly _ (.inl hu)
    cases wf.event_unique hp hp'
  | closing hu hs _ _ =>
    obtain rfl := honly _ (.inr hs)
    exact ⟨hs, hu⟩

end Pit.Entry.Armed

namespace Forwarder

variable {fw fw' fw'' : Forwarder} {h : Pit.Handle} {e : Pit.Entry} {id : TimerId}
  {event : TimerEvent} {q' : TimerQueue TimerEvent} {t : Instant}

/-! ## The end of an entry -/

/-- The entry that is erased at its end has no timer any more. -/
theorem idle_of_get?_cancelTimers (hget : (fw.cancelTimers h).pit.get? h = some e) : e.Idle := by
  rw [pit_cancelTimers, Pit.get?_modify, if_pos rfl, Option.map_eq_some_iff] at hget
  obtain ⟨e', _, rfl⟩ := hget
  exact ⟨rfl, rfl⟩

theorem finalize_eq (hget : fw.pit.get? h = some e) (satisfied : Bool)
    (freshness : Option Millis) :
    ∃ deadNonces, fw.finalize h satisfied freshness =
      { fw with
        deadNonces
        pit := (fw.pit.modify h .unarmed).erase h
        timers := (fw.timers.cancel? e.unsatisfyTimer).cancel? e.stragglerTimer } := by
  obtain ⟨deadNonces, hdead⟩ := recordDeadNonces_eq h satisfied freshness none fw
  have hget' : ({ fw with deadNonces } : Forwarder).pit.get? h = some e := hget
  refine ⟨deadNonces, ?_⟩
  simp only [finalize, hget, hdead, cancelTimers_eq hget']

/-- The timer `id` with the given event came out of the queue, and `q'` was left. Its entry is
gone. -/
structure Fired (event : TimerEvent) (q' : TimerQueue TimerEvent) (fw fw' : Forwarder) : Prop
    extends Silent fw fw' where
  get? : ∀ h, fw'.pit.get? h = if h = event.entry then none else fw.pit.get? h
  timers : fw'.timers = q'
  timersHeld : TimersHeld none fw'.pit fw'.timers

/-- The end of an entry that has just forgotten its timer. -/
theorem fired_finalize (inv : TimersHeld (some h) fw.pit fw.timers)
    (hget : fw.pit.get? h = some e) (hentry : event.entry = h) (satisfied : Bool)
    (freshness : Option Millis) :
    Fired event fw.timers fw (fw.finalize h satisfied freshness) := by
  obtain ⟨deadNonces, heq⟩ := finalize_eq hget satisfied freshness
  have hidle := inv.idle hget rfl
  rw [heq, hidle.1, hidle.2]
  constructor
  case toSilent =>
    have hlifetime : ((fw.pit.modify h .unarmed).erase h).defaultLifetime =
        fw.pit.defaultLifetime := by rw [Pit.defaultLifetime_erase, Pit.defaultLifetime_modify]
    exact ⟨⟨rfl, rfl, rfl, rfl, hlifetime⟩, rfl⟩
  case get? =>
    intro h'
    rw [hentry, Pit.get?_erase, Pit.get?_modify]
    split <;> rfl
  case timers => rfl
  case timersHeld =>
    have hunarm := inv.unarm (.inr rfl) hget
    rw [hidle.1, hidle.2] at hunarm
    exact hunarm.erase

theorem Fired.after (hs : Silent fw fw')
    (hpit : ∀ h, h ≠ event.entry → fw'.pit.get? h = fw.pit.get? h)
    (hfired : Fired event q' fw' fw'') : Fired event q' fw fw'' where
  toSilent := hs.trans hfired.toSilent
  get? h := by
    rw [hfired.get?]
    split
    · rfl
    · next hne => exact hpit h hne
  timers := hfired.timers
  timersHeld := hfired.timersHeld

theorem fired_expire (inv : TimersHeld (some h) fw.pit fw.timers)
    (hget : fw.pit.get? h = some e) (s : Strategy) :
    Fired (.unsatisfy h) fw.timers fw (fw.expire s.hooks h) := by
  have hq := quiet_notify s (.expiring h e) fw
  rw [← hq.pit, ← hq.timers] at inv
  have hget' := hget
  rw [← hq.pit] at hget'
  have hfired : Fired (.unsatisfy h) _ _ _ := fired_finalize inv hget' rfl false none
  rw [hq.timers] at hfired
  simp only [expire, hget]
  exact hfired.after hq.silent fun h' _ => by rw [hq.pit]

/-- The node once a timer has come out of the queue, which left `q'`, and the entry `h` has
forgotten it by `forget`. -/
def released (h : Pit.Handle) (q' : TimerQueue TimerEvent) (forget : Pit.Entry → Pit.Entry)
    (fw : Forwarder) : Forwarder :=
  { fw with timers := q', pit := fw.pit.modify h forget }

/-- A timer for the case that no Data comes is the end of the entry that holds it. -/
theorem handleTimer_unsatisfy (hget : fw.pit.get? h = some e) (hid : e.unsatisfyTimer = some id)
    (hooks : Hooks) :
    fw.handleTimer hooks id (.unsatisfy h) =
      (fw.released h fw.timers fun e => { e with unsatisfyTimer := none }).expire hooks h := by
  simp only [handleTimer, hget, if_pos hid]
  rfl

/-- A timer for the grace period is the end of the entry that holds it. -/
theorem handleTimer_straggler (hget : fw.pit.get? h = some e) (hid : e.stragglerTimer = some id)
    (satisfied : Bool) (freshness : Option Millis) (hooks : Hooks) :
    fw.handleTimer hooks id (.straggler h satisfied freshness) =
      (fw.released h fw.timers fun e => { e with stragglerTimer := none }).finalize h satisfied
        freshness := by
  simp only [handleTimer, hget, if_pos hid]
  rfl

/-- A timer that fires is the end of its entry, if that is live and holds the timer. -/
theorem handleTimer_outcome (hooks : Hooks) (id : TimerId) (event : TimerEvent) (fw : Forwarder) :
    fw.handleTimer hooks id event = fw ∨
      (∃ h e, event = .unsatisfy h ∧ fw.pit.get? h = some e ∧ e.unsatisfyTimer = some id) ∨
      ∃ h satisfied freshness e, event = .straggler h satisfied freshness ∧
        fw.pit.get? h = some e ∧ e.stragglerTimer = some id := by
  cases event with
  | unsatisfy h =>
    cases hget : fw.pit.get? h with
    | none => exact .inl (by simp only [handleTimer, hget])
    | some e =>
      by_cases hid : e.unsatisfyTimer = some id
      · exact .inr (.inl ⟨h, e, rfl, hget, hid⟩)
      · exact .inl (by simp only [handleTimer, hget, if_neg hid])
  | straggler h satisfied freshness =>
    cases hget : fw.pit.get? h with
    | none => exact .inl (by simp only [handleTimer, hget])
    | some e =>
      by_cases hid : e.stragglerTimer = some id
      · exact .inr (.inr ⟨h, satisfied, freshness, e, rfl, hget, hid⟩)
      · exact .inl (by simp only [handleTimer, hget, if_neg hid])

theorem timersHeld_released (inv : TimersHeld none fw.pit fw.timers)
    (p : fw.timers.Popped t id event q') (hget : fw.pit.get? event.entry = some e)
    {g : Pit.Entry → Pit.Entry} (hkeep : ∀ e, (g e).interest = e.interest)
    (hidle : (g e).Idle) :
    TimersHeld (some event.entry) (fw.released event.entry q' g).pit q' := by
  refine inv.popped p hkeep fun e' hget' => ?_
  obtain rfl := Option.some.inj (hget.symm.trans hget')
  exact hidle

/-- Whatever ends the entry then, ends it for the node from before. -/
theorem Fired.of_released {forget : Pit.Entry → Pit.Entry}
    (hfired : Fired event q' (fw.released event.entry q' forget) fw') :
    Fired event q' fw fw' := by
  have hsilent : Silent fw (fw.released event.entry q' forget) :=
    ⟨⟨rfl, rfl, rfl, rfl, Pit.defaultLifetime_modify _ _ _⟩, rfl⟩
  refine hfired.after hsilent fun h' hne => ?_
  rw [released]
  exact Pit.get?_modify_of_ne hne

/-- **A timer that fires** takes the entry away that holds it. -/
theorem fired_handleTimer (inv : TimersHeld none fw.pit fw.timers)
    (hpop : fw.timers.popDue t = some (id, event, q')) (s : Strategy) :
    Fired event q' fw ({ fw with timers := q' }.handleTimer s.hooks id event) := by
  have hwf := inv.queue_wellFormed
  have p := TimerQueue.popped_of_popDue hwf.toSound hpop
  obtain ⟨deadline, hp, _⟩ := p.exists_deadline
  obtain ⟨_, e, hget, hid⟩ := inv.held hp
  have harmed := inv.armed_of_get? hget
  cases event with
  | unsatisfy h =>
    have hget : fw.pit.get? h = some e := hget
    obtain ⟨hu, hs⟩ := harmed.unsatisfy_of_pending hwf hid hp
    have hheld := timersHeld_released inv p hget (g := fun e => { e with unsatisfyTimer := none })
      (fun _ => rfl) ⟨rfl, hs⟩
    rw [@handleTimer_unsatisfy { fw with timers := q' } h e id hget hu]
    exact (fired_expire hheld (Pit.get?_modify_self hget) s).of_released
  | straggler h satisfied freshness =>
    have hget : fw.pit.get? h = some e := hget
    obtain ⟨hs, hu⟩ := harmed.straggler_of_pending hwf hid hp
    have hheld := timersHeld_released inv p hget (g := fun e => { e with stragglerTimer := none })
      (fun _ => rfl) ⟨hu, rfl⟩
    rw [@handleTimer_straggler { fw with timers := q' } h e id hget hs]
    have hfired : Fired (.straggler h satisfied freshness) _ _ _ :=
      fired_finalize hheld (Pit.get?_modify_self hget) rfl satisfied freshness
    exact hfired.of_released

/-! ## Polling -/

/-- All timers due by `t` fired: their entries are gone, and the others are as they were. -/
structure Polled (t : Instant) (fw fw' : Forwarder) : Prop extends Silent fw fw' where
  timersHeld : TimersHeld none fw'.pit fw'.timers
  get?_iff : ∀ h e, fw'.pit.get? h = some e ↔ fw.pit.get? h = some e ∧
    ∀ id deadline event, fw.timers.Pending id deadline event → event.entry = h → t < deadline
  pending_iff : ∀ id deadline event,
    fw'.timers.Pending id deadline event ↔ fw.timers.Pending id deadline event ∧ t < deadline

theorem polled_of_popDue_eq_none (inv : TimersHeld none fw.pit fw.timers)
    (hpop : fw.timers.popDue t = none) : Polled t fw fw := by
  have hlate := (TimerQueue.popDue_eq_none_iff inv.queue_wellFormed.toSound).mp hpop
  constructor
  case toSilent => exact .refl fw
  case timersHeld => exact inv
  case get?_iff =>
    intro h e
    exact ⟨fun hget => ⟨hget, fun id deadline event hp _ => hlate id deadline event hp⟩, And.left⟩
  case pending_iff =>
    intro id deadline event
    exact ⟨fun hp => ⟨hp, hlate id deadline event hp⟩, And.left⟩

/-- One timer fires, and then all others that are due. -/
theorem Fired.polled (inv : TimersHeld none fw.pit fw.timers)
    (p : fw.timers.Popped t id event q') (hfired : Fired event q' fw fw')
    (hpolled : Polled t fw' fw'') : Polled t fw fw'' := by
  obtain ⟨due, hp, hdue, _⟩ := p.exists_deadline
  have hpending : ∀ id' deadline event', fw'.timers.Pending id' deadline event' ↔
      id' ≠ id ∧ fw.timers.Pending id' deadline event' := by
    intro id' deadline event'
    rw [hfired.timers]
    exact p.pending_iff
  -- the timer that fired is the only one of its number, and it was due
  have hother : ∀ id' deadline event', fw.timers.Pending id' deadline event' → t < deadline →
      id' ≠ id := by
    rintro id' deadline event' hp' hlt rfl
    rw [inv.queue_wellFormed.deadline_unique hp' hp] at hlt
    exact absurd hdue (Nat.not_le.mpr hlt)
  constructor
  case toSilent => exact hfired.toSilent.trans hpolled.toSilent
  case timersHeld => exact hpolled.timersHeld
  case get?_iff =>
    intro h e
    rw [hpolled.get?_iff, hfired.get?]
    constructor
    · rintro ⟨hget, hlate⟩
      obtain ⟨hne, hget⟩ := Option.ite_none_left_eq_some.mp hget
      refine ⟨hget, ?_⟩
      intro id' deadline event' hp' hentry
      refine hlate id' deadline event' ((hpending _ _ _).mpr ⟨?_, hp'⟩) hentry
      rintro rfl
      rw [inv.queue_wellFormed.event_unique hp' hp] at hentry
      exact hne hentry.symm
    · rintro ⟨hget, hlate⟩
      have hne : h ≠ event.entry := by
        intro heq
        exact absurd hdue (Nat.not_le.mpr (hlate id due event hp heq.symm))
      refine ⟨by rw [if_neg hne]; exact hget, ?_⟩
      intro id' deadline event' hp' hentry
      exact hlate id' deadline event' ((hpending _ _ _).mp hp').2 hentry
  case pending_iff =>
    intro id' deadline event'
    rw [hpolled.pending_iff, hpending]
    constructor
    · rintro ⟨⟨_, hp'⟩, hlt⟩
      exact ⟨hp', hlt⟩
    · rintro ⟨hp', hlt⟩
      exact ⟨⟨hother id' deadline event' hp' hlt, hp'⟩, hlt⟩

theorem polled_fireDue (inv : TimersHeld none fw.pit fw.timers) (s : Strategy) {n : Nat}
    (hn : fw.timers.size ≤ n) :
    Polled t fw (fw.fireDue s.hooks t n) ∧ max (fw.fireDue s.hooks t n).now t = max fw.now t := by
  induction n generalizing fw with
  | zero =>
    rw [fireDue]
    refine ⟨polled_of_popDue_eq_none inv ?_, rfl⟩
    cases hpop : fw.timers.popDue t with
    | none => rfl
    | some popped =>
      have p := TimerQueue.popped_of_popDue inv.queue_wellFormed.toSound hpop
      exact absurd p.size_lt (Nat.not_lt.mpr (Nat.le_trans hn (Nat.zero_le _)))
  | succ n ih =>
    rw [fireDue]
    cases hpop : fw.timers.popDue t with
    | none => exact ⟨polled_of_popDue_eq_none inv hpop, rfl⟩
    | some popped =>
      obtain ⟨id, event, q'⟩ := popped
      have p := TimerQueue.popped_of_popDue inv.queue_wellFormed.toSound hpop
      have hfired := fired_handleTimer inv hpop s
      have hsize := Nat.lt_of_lt_of_le p.size_lt hn
      rw [← hfired.timers] at hsize
      obtain ⟨hpolled, hnow⟩ := ih hfired.timersHeld (Nat.le_of_lt_succ hsize)
      refine ⟨hfired.polled inv p hpolled, hnow.trans ?_⟩
      obtain ⟨due, _, hdue, hnow', _⟩ := p.exists_deadline
      rw [now, hfired.timers, hnow', Nat.max_assoc, Nat.max_eq_right hdue]
      rfl

/-- **Polling** takes away the entries whose timer is due, and moves the clock. -/
theorem polled_pollTimers (inv : TimersHeld none fw.pit fw.timers) (s : Strategy) (t : Instant) :
    Polled t fw (fw.pollTimers s.hooks t) := by
  obtain ⟨hpolled, _⟩ := polled_fireDue (t := t) inv s (Nat.le_refl _)
  constructor
  case toSilent => exact hpolled.toSilent.trans ⟨⟨rfl, rfl, rfl, rfl, rfl⟩, rfl⟩
  case timersHeld =>
    refine hpolled.timersHeld.advanceTo ?_
    intro id deadline event hp
    exact Nat.le_of_lt ((hpolled.pending_iff _ _ _).mp hp).2
  case get?_iff => exact hpolled.get?_iff
  case pending_iff => exact hpolled.pending_iff

theorem now_pollTimers (inv : TimersHeld none fw.pit fw.timers) (s : Strategy) (t : Instant) :
    (fw.pollTimers s.hooks t).now = max fw.now t :=
  (polled_fireDue inv s (Nat.le_refl _)).2

end Forwarder

end NamedData
