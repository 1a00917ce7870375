import NamedData.Proofs.Forwarder.Polling
import NamedData.Proofs.Lifecycle

/-!
# Entries whose time is over

Polling is a loop within a loop: as long as the first deadline has come, the clock moves to it and
whatever is due then fires, where each timer that fires changes the queue. Both loops end. What they
do is a trace of lapses, one for each timer that is due: the clock shows the deadline, the entry is
still there when the observers and the strategy are told that it expires, and then it is erased. If
it is the grace period that is over, nobody is told.

## Main definitions

* `Forwarder.Drains` and `Forwarder.PollLoop`, the two loops
* `Forwarder.Lapse` and `Forwarder.Lapses`, one timer that fires and one after the other
* `Forwarder.lapsing`, the entries whose timer is due by a time, first to last

## Main statements

* `Forwarder.pollLoop_iff`: the loops end, and polling is what they do
* `Forwarder.lapses_pollTimers`: polling is a trace of lapses
* `Forwarder.reachable_lapsesInOrder`
-/
namespace NamedData

theorem Due.compare_eq_lt_iff {a b : Due} :
    compare a b = .lt ↔ a.deadline < b.deadline ∨ a.deadline = b.deadline ∧ a.id < b.id :=
  Ordering.then_eq_lt.trans
    (or_congr Nat.compare_eq_lt (and_congr Nat.compare_eq_eq Nat.compare_eq_lt))

namespace TimerQueue

variable {ε : Type} {q q' : TimerQueue ε} {id : TimerId} {event : ε} {t d : Instant}

theorem popDue_of_lt_nextDeadline (hlate : ∀ d ∈ q.nextDeadline?, t < d) : q.popDue t = none := by
  rw [popDue]
  cases hheap : q.heap.toList with
  | nil => rfl
  | cons b rest =>
    have hnext : q.nextDeadline? = some b.1.deadline := by
      rw [nextDeadline?, SortedMap.keys, hheap]
      rfl
    exact if_neg (Nat.not_le.mpr (hlate _ hnext))

theorem exists_popDue_of_nextDeadline (sound : q.Sound) (hnext : q.nextDeadline? = some d)
    (hdue : d ≤ t) : ∃ popped, q.popDue t = some popped := by
  rw [sound.nextDeadline?_eq, SortedMap.keys] at hnext
  rw [sound.popDue_eq]
  cases hlist : q.pending.toList with
  | nil =>
    rw [hlist] at hnext
    cases hnext
  | cons b rest =>
    rw [hlist] at hnext
    cases hnext
    exact ⟨_, if_pos hdue⟩

/-- No pending timer is due before the first deadline. -/
theorem nextDeadline_le (sound : q.Sound) (hnext : q.nextDeadline? = some d)
    (hp : q.Pending id t event) : d ≤ t := by
  by_contra hlt
  have hnone : q.popDue t = none := by
    refine popDue_of_lt_nextDeadline fun d' hd' => ?_
    rw [hnext] at hd'
    cases hd'
    exact Nat.lt_of_not_le hlt
  exact Nat.lt_irrefl t ((popDue_eq_none_iff sound).mp hnone _ _ _ hp)

/-- The clock may move to the first deadline before the first timer comes out. -/
theorem popDue_advanceTo_nextDeadline (hnext : q.nextDeadline? = some d) (t : Instant) :
    (q.advanceTo d).popDue t = q.popDue t := by
  rw [nextDeadline?, SortedMap.keys] at hnext
  rw [popDue, popDue]
  have hheap : (q.advanceTo d).heap = q.heap := rfl
  have hlive : (q.advanceTo d).live = q.live := rfl
  rw [hheap, hlive]
  cases hlist : q.heap.toList with
  | nil => rfl
  | cons b rest =>
    rw [hlist] at hnext
    cases hnext
    simp only [advanceTo_advanceTo (Nat.le_refl _)]

/-- A timer whose deadline has come does not move the clock. -/
theorem now_of_popExpired (h : q.popExpired = some (id, event, q')) : q'.now = q.now := by
  rw [popExpired, popDue] at h
  split at h
  · cases h
  · split at h
    · next hdue =>
      obtain ⟨_, _, heq⟩ := Option.map_eq_some_iff.mp h
      cases heq
      exact Nat.max_eq_left hdue
    · cases h

theorem ordered_dueBy (q : TimerQueue ε) (t : Instant) :
    (q.dueBy t).Pairwise fun b b' =>
      b.1.deadline < b'.1.deadline ∨ b.1.deadline = b'.1.deadline ∧ b.1.id < b'.1.id :=
  (q.pending.sorted.imp Due.compare_eq_lt_iff.mp).sublist (List.takeWhile_sublist _)

theorem nodup_dueBy (q : TimerQueue ε) (t : Instant) : (q.dueBy t).Nodup := by
  refine (q.ordered_dueBy t).imp ?_
  rintro b _ hlt rfl
  rcases hlt with hlt | ⟨_, hlt⟩ <;> exact Nat.lt_irrefl _ hlt

end TimerQueue

namespace Forwarder

variable {fw fw' fw₁ : Forwarder} {s : Strategy} {h : Pit.Handle} {e : Pit.Entry} {id : TimerId}
  {event : TimerEvent} {q' : TimerQueue TimerEvent} {t d : Instant}
  {x : Due × TimerEvent} {xs : List (Due × TimerEvent)}

/-! ## The two loops -/

/-- The inner loop: whatever has its deadline behind it fires, until nothing has. -/
inductive Drains (hooks : Hooks) : Forwarder → Forwarder → Prop
  | stop {fw : Forwarder} (hpop : fw.timers.popExpired = none) : Drains hooks fw fw
  | fire {fw fw' : Forwarder} {id : TimerId} {event : TimerEvent} {q' : TimerQueue TimerEvent}
    (hpop : fw.timers.popExpired = some (id, event, q'))
    (hrest : Drains hooks ({ fw with timers := q' }.handleTimer hooks id event) fw') :
    Drains hooks fw fw'

/-- The outer loop: the clock moves from one deadline to the next one as long as that is not after
`t`, and to `t` in the end. -/
inductive PollLoop (hooks : Hooks) (t : Instant) : Forwarder → Forwarder → Prop
  | stop {fw : Forwarder} (hlate : ∀ d ∈ fw.timers.nextDeadline?, t < d) :
    PollLoop hooks t fw { fw with timers := fw.timers.advanceTo t }
  | round {fw fw₁ fw' : Forwarder} {d : Instant} (hnext : fw.timers.nextDeadline? = some d)
    (hdue : d ≤ t)
    (hdrains : Drains hooks { fw with timers := fw.timers.advanceTo d } fw₁)
    (hrest : PollLoop hooks t fw₁ fw') : PollLoop hooks t fw fw'

theorem now_finalize (h : Pit.Handle) (satisfied : Bool) (freshness : Option Millis)
    (fw : Forwarder) : (fw.finalize h satisfied freshness).now = fw.now := by
  cases hget : fw.pit.get? h with
  | none => simp only [finalize, hget]
  | some e =>
    obtain ⟨deadNonces, heq⟩ := finalize_eq hget satisfied freshness
    rw [heq]
    simp only [now, TimerQueue.now_cancel?]

theorem now_handleTimer (s : Strategy) (id : TimerId) (event : TimerEvent) (fw : Forwarder) :
    (fw.handleTimer s.hooks id event).now = fw.now := by
  rcases handleTimer_cases s id event fw with heq | ⟨fw₁, _, _, hfw₁, heq⟩
  · rw [heq]
  · rw [heq, now_finalize, hfw₁]
    rfl

/-- What the inner loop fires, polling fires first. -/
theorem Drains.pollTimers_eq (hdrains : Drains s.hooks fw fw') (hnow : fw.now ≤ t) :
    fw'.pollTimers s.hooks t = fw.pollTimers s.hooks t := by
  induction hdrains with
  | stop _ => rfl
  | @fire fw fw' id event q' hpop _ ih =>
    have hnow' : ({ fw with timers := q' }.handleTimer s.hooks id event).now ≤ t := by
      rw [now_handleTimer]
      exact Nat.le_trans (Nat.le_of_eq (TimerQueue.now_of_popExpired hpop)) hnow
    rw [ih hnow', pollTimers_of_popDue s (TimerQueue.popDue_of_le hnow hpop)]

/-- Moving the clock to the first deadline takes nothing away from polling. -/
theorem pollTimers_advanceTo_nextDeadline (s : Strategy)
    (hnext : fw.timers.nextDeadline? = some d) (hdue : d ≤ t) :
    { fw with timers := fw.timers.advanceTo d }.pollTimers s.hooks t = fw.pollTimers s.hooks t := by
  have hsame := TimerQueue.popDue_advanceTo_nextDeadline hnext t
  cases hpop : fw.timers.popDue t with
  | none =>
    rw [pollTimers_of_popDue_eq_none s hpop,
      pollTimers_of_popDue_eq_none s (hsame.trans hpop), TimerQueue.advanceTo_advanceTo hdue]
  | some popped => rw [pollTimers_of_popDue s hpop, pollTimers_of_popDue s (hsame.trans hpop)]

theorem Drains.timersHeld (hdrains : Drains s.hooks fw fw')
    (inv : TimersHeld none fw.pit fw.timers) : TimersHeld none fw'.pit fw'.timers := by
  induction hdrains with
  | stop _ => exact inv
  | fire hpop _ ih => exact ih (fired_handleTimer inv hpop s).timersHeld

/-- At the first deadline the timers are in order, and the clock has not been there before. -/
theorem timersHeld_advanceTo_nextDeadline (inv : TimersHeld none fw.pit fw.timers)
    (hnext : fw.timers.nextDeadline? = some d) :
    TimersHeld none fw.pit (fw.timers.advanceTo d) ∧ (fw.timers.advanceTo d).now = d := by
  have hwf := inv.queue_wellFormed
  refine ⟨inv.advanceTo fun _ _ _ hp => TimerQueue.nextDeadline_le hwf.toSound hnext hp, ?_⟩
  obtain ⟨⟨id, event, q'⟩, hpop⟩ :=
    TimerQueue.exists_popDue_of_nextDeadline hwf.toSound hnext (Nat.le_refl d)
  obtain ⟨deadline, hp, hle, _⟩ :=
    (TimerQueue.popped_of_popDue hwf.toSound hpop).exists_deadline
  exact Nat.max_eq_right (Nat.le_trans (hwf.now_le hp) hle)

/-- If the loops end, they have done what polling does. -/
theorem PollLoop.eq_pollTimers (hloop : PollLoop s.hooks t fw fw')
    (inv : TimersHeld none fw.pit fw.timers) : fw' = fw.pollTimers s.hooks t := by
  induction hloop with
  | stop hlate =>
    exact (pollTimers_of_popDue_eq_none s (TimerQueue.popDue_of_lt_nextDeadline hlate)).symm
  | @round fw fw₁ fw' d hnext hdue hdrains _ ih =>
    obtain ⟨inv₀, hnow⟩ := timersHeld_advanceTo_nextDeadline inv hnext
    have hfirst := hdrains.pollTimers_eq (Nat.le_trans (Nat.le_of_eq hnow) hdue)
    rw [ih (hdrains.timersHeld inv₀), hfirst, pollTimers_advanceTo_nextDeadline s hnext hdue]

/-- The inner loop ends. -/
theorem exists_drains (s : Strategy) (fw : Forwarder) :
    ∃ fw', Drains s.hooks fw fw' ∧ fw'.timers.size ≤ fw.timers.size := by
  induction hsize : fw.timers.size using Nat.strongRecOn generalizing fw with
  | ind n ih =>
    subst hsize
    cases hpop : fw.timers.popExpired with
    | none => exact ⟨fw, .stop hpop, Nat.le_refl _⟩
    | some popped =>
      obtain ⟨id, event, q'⟩ := popped
      have hlt := size_fired_lt s hpop
      obtain ⟨fw', hdrains, hle⟩ := ih _ hlt _ rfl
      exact ⟨fw', .fire hpop hdrains, Nat.le_trans hle (Nat.le_of_lt hlt)⟩

/-- The outer loop ends: each round fires the timer of the first deadline at least. -/
theorem exists_pollLoop (s : Strategy) (t : Instant) (inv : TimersHeld none fw.pit fw.timers) :
    ∃ fw', PollLoop s.hooks t fw fw' := by
  induction hsize : fw.timers.size using Nat.strongRecOn generalizing fw with
  | ind n ih =>
    subst hsize
    by_cases hlate : ∀ d ∈ fw.timers.nextDeadline?, t < d
    · exact ⟨_, .stop hlate⟩
    simp only [not_forall, Nat.not_lt] at hlate
    obtain ⟨d, hnext, hdue⟩ := hlate
    obtain ⟨inv₀, hnow⟩ := timersHeld_advanceTo_nextDeadline inv hnext
    obtain ⟨⟨id, event, q'⟩, hpop⟩ := TimerQueue.exists_popDue_of_nextDeadline
      inv₀.queue_wellFormed.toSound hnext (Nat.le_of_eq hnow.symm)
    obtain ⟨fw₁, hdrains, hle⟩ := exists_drains s
      ({ fw with timers := q' }.handleTimer s.hooks id event)
    have hround : Drains s.hooks { fw with timers := fw.timers.advanceTo d } fw₁ :=
      .fire hpop hdrains
    have hlt := @size_fired_lt { fw with timers := fw.timers.advanceTo d } _ _ _ _ s hpop
    obtain ⟨fw', hloop⟩ := ih _ (Nat.lt_of_le_of_lt hle hlt) (hround.timersHeld inv₀) rfl
    exact ⟨fw', .round hnext hdue hround hloop⟩

/-- **The loops end**, and what they do is what polling does. -/
theorem pollLoop_iff (s : Strategy) (t : Instant) (inv : TimersHeld none fw.pit fw.timers) :
    PollLoop s.hooks t fw fw' ↔ fw' = fw.pollTimers s.hooks t := by
  refine ⟨fun hloop => hloop.eq_pollTimers inv, ?_⟩
  rintro rfl
  obtain ⟨fw', hloop⟩ := exists_pollLoop s t inv
  rw [← hloop.eq_pollTimers inv]
  exact hloop

/-! ## Lapses -/

/-- The timer of `x` is the one that the live entry `e` holds, and `seen` is the node once it has
come out: the clock shows the deadline, and the entry is still there without a timer. -/
structure ComesDue (x : Due × TimerEvent) (fw : Forwarder) (e : Pit.Entry) (seen : Forwarder) :
    Prop where
  live : fw.pit.get? x.2.entry = some e
  holds : e.Holds x.1.id
  now : seen.now = x.1.deadline
  get? : ∀ h, seen.pit.get? h = if h = x.2.entry then some e.unarmed else fw.pit.get? h
  others : seen = { fw with timers := seen.timers, pit := seen.pit }

/-- The end of the entry `e`. If no Data came for it, the observers and then the strategy are told
first. -/
def conclude (hooks : Hooks) (e : Pit.Entry) (event : TimerEvent) (fw : Forwarder) : Forwarder :=
  match event with
  | .unsatisfy h => (fw.notify hooks (.expiring h e.unarmed)).finalize h false none
  | .straggler h satisfied freshness => fw.finalize h satisfied freshness

/-- One timer fires and its entry goes. -/
structure Lapse (s : Strategy) (x : Due × TimerEvent) (fw fw' : Forwarder) : Prop
    extends Silent fw fw' where
  ends : ∃ e seen, ComesDue x fw e seen ∧ fw' = seen.conclude s.hooks e x.2
  gone : ∀ h, fw'.pit.get? h = if h = x.2.entry then none else fw.pit.get? h
  nextId : fw'.timers.nextId = fw.timers.nextId

/-- The timers fire one after the other. -/
inductive Lapses (s : Strategy) : List (Due × TimerEvent) → Forwarder → Forwarder → Prop
  | nil {fw : Forwarder} : Lapses s [] fw fw
  | cons {fw fw₁ fw' : Forwarder} {x : Due × TimerEvent} {xs : List (Due × TimerEvent)}
    (hlapse : Lapse s x fw fw₁) (hrest : Lapses s xs fw₁ fw') : Lapses s (x :: xs) fw fw'

/-- A timer that comes out is the one of a live entry, and its end is what the timer does. -/
theorem comesDue_of_popDue (inv : TimersHeld none fw.pit fw.timers)
    (hpop : fw.timers.popDue t = some (id, event, q')) (s : Strategy) :
    ∃ due e seen, fw.timers.dueBy t = (due, event) :: q'.dueBy t ∧
      ComesDue (due, event) fw e seen ∧
      { fw with timers := q' }.handleTimer s.hooks id event = seen.conclude s.hooks e event := by
  have hwf := inv.queue_wellFormed
  obtain ⟨due, rfl, hdueBy, hnow⟩ := TimerQueue.dueBy_of_popDue hwf.toSound hpop
  have hmem : (due, event) ∈ fw.timers.dueBy t := by
    rw [hdueBy]
    exact List.mem_cons_self
  obtain ⟨hp, _⟩ := TimerQueue.mem_dueBy.mp hmem
  rw [Nat.max_eq_right (hwf.now_le hp)] at hnow
  obtain ⟨_, e, hget, hid⟩ := inv.held hp
  have harmed := inv.armed_of_get? hget
  change fw.pit.get? event.entry = some e at hget
  -- whichever of its timers the entry forgets, it has no other one
  have hseen : ∀ forget : Pit.Entry → Pit.Entry, forget e = e.unarmed →
      ComesDue (due, event) fw e (fw.released event.entry q' forget) := by
    intro forget hforget
    refine ⟨hget, hid, hnow, fun h => ?_, rfl⟩
    change (fw.pit.modify event.entry forget).get? h = _
    rw [Pit.get?_modify]
    split
    · rw [hget, Option.map_some, hforget]
    · rfl
  cases event with
  | unsatisfy h =>
    obtain ⟨hu, hs⟩ := harmed.unsatisfy_of_pending hwf hid hp
    have hget : fw.pit.get? h = some e := hget
    have hforget : { e with unsatisfyTimer := none } = e.unarmed := by
      simp only [Pit.Entry.unarmed, hs]
    have hget' : (fw.released h q' fun e => { e with unsatisfyTimer := none }).pit.get? h = _ :=
      Pit.get?_modify_self hget
    refine ⟨due, e, _, hdueBy, hseen (fun e => { e with unsatisfyTimer := none }) hforget, ?_⟩
    refine (@handleTimer_unsatisfy { fw with timers := q' } h e due.id hget hu s.hooks).trans ?_
    change (fw.released h q' _).expire s.hooks h = _
    rw [expire, hget', hforget]
    rfl
  | straggler h satisfied freshness =>
    obtain ⟨hs, hu⟩ := harmed.straggler_of_pending hwf hid hp
    have hforget : { e with stragglerTimer := none } = e.unarmed := by
      simp only [Pit.Entry.unarmed, hu]
    refine ⟨due, e, _, hdueBy, hseen (fun e => { e with stragglerTimer := none }) hforget, ?_⟩
    exact @handleTimer_straggler { fw with timers := q' } h e due.id hget hs satisfied freshness _

theorem lapse_of_popDue (inv : TimersHeld none fw.pit fw.timers)
    (hpop : fw.timers.popDue t = some (id, event, q')) (s : Strategy) :
    ∃ due, fw.timers.dueBy t = (due, event) :: q'.dueBy t ∧
      Lapse s (due, event) fw ({ fw with timers := q' }.handleTimer s.hooks id event) := by
  obtain ⟨due, e, seen, hdueBy, hdue, heq⟩ := comesDue_of_popDue inv hpop s
  have hfired := fired_handleTimer inv hpop s
  have p := TimerQueue.popped_of_popDue inv.queue_wellFormed.toSound hpop
  refine ⟨due, hdueBy, hfired.toSilent, ⟨e, seen, hdue, heq⟩, hfired.get?, ?_⟩
  rw [hfired.timers, p.nextId_eq]

/-- **Polling is a trace of lapses**, one for each timer that is due, by deadline and then in the
order of scheduling. The induction is on the number of pending timers. -/
theorem lapses_pollTimers (inv : TimersHeld none fw.pit fw.timers) (s : Strategy) (t : Instant) :
    ∃ fw₁, Lapses s (fw.timers.dueBy t) fw fw₁ ∧
      fw.pollTimers s.hooks t = { fw₁ with timers := fw₁.timers.advanceTo t } := by
  induction hsize : fw.timers.size using Nat.strongRecOn generalizing fw with
  | ind n ih =>
    subst hsize
    cases hpop : fw.timers.popDue t with
    | none =>
      rw [TimerQueue.dueBy_of_popDue_eq_none inv.queue_wellFormed.toSound hpop]
      exact ⟨fw, .nil, pollTimers_of_popDue_eq_none s hpop⟩
    | some popped =>
      obtain ⟨id, event, q'⟩ := popped
      obtain ⟨due, hdueBy, hlapse⟩ := lapse_of_popDue inv hpop s
      have hfired := fired_handleTimer inv hpop s
      obtain ⟨fw₁, hrest, heq⟩ := ih _ (size_fired_lt s hpop) hfired.timersHeld rfl
      rw [hfired.timers] at hrest
      rw [hdueBy, pollTimers_of_popDue s hpop]
      exact ⟨fw₁, .cons hlapse hrest, heq⟩

/-! ## What is told -/

/-- Who is told, first to last. -/
def listeners (fw : Forwarder) : List Listener :=
  (List.range fw.observers).map .observer ++ [.strategy]

/-- What a timer that fires makes known. -/
def lapseNotices (fw : Forwarder) : TimerEvent → List Event
  | .unsatisfy h => (fw.pit.get? h).toList.flatMap fun e =>
    fw.listeners.map fun l => .told l (.expiring h e.unarmed)
  | .straggler .. => []

theorem events_record (event : Event) (fw : Forwarder) :
    (fw.record event).events = fw.events ++ [event] := by
  simp only [events, record, List.reverse_cons]

theorem events_tellObservers (notice : Notice) (fw : Forwarder) :
    (fw.tellObservers notice).events =
      fw.events ++ (List.range fw.observers).map fun k => .told (.observer k) notice := by
  unfold tellObservers
  induction List.range fw.observers generalizing fw with
  | nil => exact (List.append_nil _).symm
  | cons k rest ih => rw [List.foldl_cons, ih, events_record, List.append_assoc]; rfl

theorem events_notify (s : Strategy) (notice : Notice) (fw : Forwarder) :
    (fw.notify s.hooks notice).events =
      fw.events ++ fw.listeners.map fun l => .told l notice := by
  have htell : (fw.notify s.hooks notice).events =
      (fw.tellObservers notice).events ++ [.told .strategy notice] := events_record _ _
  rw [htell, events_tellObservers, listeners, List.map_append, List.map_map, List.append_assoc]
  rfl

theorem events_finalize (h : Pit.Handle) (satisfied : Bool) (freshness : Option Millis)
    (fw : Forwarder) : (fw.finalize h satisfied freshness).events = fw.events := by
  cases hget : fw.pit.get? h with
  | none => simp only [finalize, hget]
  | some e =>
    obtain ⟨deadNonces, heq⟩ := finalize_eq hget satisfied freshness
    rw [heq]
    rfl

theorem Lapse.events (hlapse : Lapse s x fw fw') :
    fw'.events = fw.events ++ fw.lapseNotices x.2 := by
  obtain ⟨e, seen, hdue, rfl⟩ := hlapse.ends
  have hevents : seen.events = fw.events := by
    rw [hdue.others]
    rfl
  have hlisteners : seen.listeners = fw.listeners := by
    rw [hdue.others]
    rfl
  obtain ⟨due, event⟩ := x
  cases event with
  | unsatisfy h =>
    have hlive : fw.pit.get? h = some e := hdue.live
    rw [conclude, events_finalize, events_notify, hevents, hlisteners, lapseNotices, hlive,
      Option.toList_some, List.flatMap_singleton]
  | straggler h satisfied freshness =>
    rw [conclude, events_finalize, hevents, lapseNotices, List.append_nil]

/-- What is said about an entry does not depend on another one that is gone. -/
theorem Lapse.lapseNotices_eq (hlapse : Lapse s x fw fw') (hne : event.entry ≠ x.2.entry) :
    fw'.lapseNotices event = fw.lapseNotices event := by
  cases event with
  | unsatisfy h =>
    have hget : fw'.pit.get? h = fw.pit.get? h := (hlapse.gone h).trans (if_neg hne)
    simp only [lapseNotices, listeners, hget, hlapse.observers]
  | straggler h satisfied freshness => rfl

theorem Lapses.events (hlapses : Lapses s xs fw fw') (hnodup : (xs.map (·.2.entry)).Nodup) :
    fw'.events = fw.events ++ xs.flatMap fun x => fw.lapseNotices x.2 := by
  induction hlapses with
  | nil => exact (List.append_nil _).symm
  | @cons fw fw₁ fw' x xs hlapse _ ih =>
    obtain ⟨hmem, hrest⟩ := List.nodup_cons.mp hnodup
    have hothers : (xs.flatMap fun y => fw₁.lapseNotices y.2) =
        xs.flatMap fun y => fw.lapseNotices y.2 := by
      refine List.flatMap_congr fun y hy => hlapse.lapseNotices_eq fun heq => hmem ?_
      exact List.mem_map.mpr ⟨y, hy, heq⟩
    rw [ih hrest, hlapse.events, hothers, List.append_assoc, List.flatMap_cons]

theorem Lapses.nextId (hlapses : Lapses s xs fw fw') : fw'.timers.nextId = fw.timers.nextId := by
  induction hlapses with
  | nil => rfl
  | cons hlapse _ ih => exact ih.trans hlapse.nextId

/-! ## The entries that go -/

/-- The entries that go when the timers due by `t` fire, first to last. -/
def lapsing (fw : Forwarder) (t : Instant) : List Pit.Handle :=
  (fw.timers.dueBy t).map (·.2.entry)

theorem mem_lapsing_iff (inv : TimersHeld none fw.pit fw.timers) :
    h ∈ fw.lapsing t ↔ ∃ e id deadline event, fw.pit.get? h = some e ∧ e.Holds id ∧
      fw.timers.Pending id deadline event ∧ deadline ≤ t := by
  rw [lapsing, List.mem_map]
  constructor
  · rintro ⟨x, hx, rfl⟩
    obtain ⟨hp, hdue⟩ := TimerQueue.mem_dueBy.mp hx
    obtain ⟨_, e, hget, hid⟩ := inv.held hp
    exact ⟨e, _, _, _, hget, hid, hp, hdue⟩
  · rintro ⟨e, id, deadline, event, hget, hid, hp, hdue⟩
    exact ⟨(⟨deadline, id⟩, event), TimerQueue.mem_dueBy.mpr ⟨hp, hdue⟩,
      inv.entry_eq_of_holds hget hid hp⟩

/-- No entry goes twice: it holds one timer only. -/
theorem nodup_lapsing (inv : TimersHeld none fw.pit fw.timers) (t : Instant) :
    (fw.lapsing t).Nodup := by
  have hwf := inv.queue_wellFormed
  refine List.Nodup.map_on ?_ (TimerQueue.nodup_dueBy _ _)
  rintro ⟨⟨deadline, id⟩, event⟩ hx ⟨⟨deadline', id'⟩, event'⟩ hy hentry
  have hp : fw.timers.Pending id deadline event := (TimerQueue.mem_dueBy.mp hx).1
  have hp' : fw.timers.Pending id' deadline' event' := (TimerQueue.mem_dueBy.mp hy).1
  have hentry : event.entry = event'.entry := hentry
  obtain ⟨_, e, hget, hid⟩ := inv.held hp
  obtain ⟨_, e', hget', hid'⟩ := inv.held hp'
  rw [← hentry, hget, Option.some.injEq] at hget'
  subst hget'
  obtain rfl := (inv.armed_of_get? hget).eq_of_holds hid hid'
  obtain rfl := hwf.deadline_unique hp hp'
  rw [hwf.event_unique hp hp']

theorem get?_pollTimers (inv : TimersHeld none fw.pit fw.timers) (s : Strategy) (t : Instant)
    (h : Pit.Handle) :
    (fw.pollTimers s.hooks t).pit.get? h = if h ∈ fw.lapsing t then none else fw.pit.get? h := by
  refine Option.ext fun e => ?_
  rw [(polled_pollTimers inv s t).get?_iff, Option.ite_none_left_eq_some, and_comm]
  refine and_congr_left fun hget => ?_
  rw [mem_lapsing_iff inv]
  constructor
  · rintro hlate ⟨e', id, deadline, event, hget', hid, hp, hdue⟩
    exact Nat.not_lt.mpr hdue (hlate id deadline event hp (inv.entry_eq_of_holds hget' hid hp))
  · rintro hlate id deadline event hp rfl
    obtain ⟨_, e', hget', hid⟩ := inv.held hp
    exact Nat.lt_of_not_le fun hdue => hlate ⟨e', id, deadline, event, hget', hid, hp, hdue⟩

/-- What polling by `t` does with a strategy. -/
structure LapsesInOrder (s : Strategy) (t : Instant) (fw : Forwarder) : Prop where
  /-- The loops end, and with nothing else. -/
  ends : ∀ fw', PollLoop s.hooks t fw fw' ↔ fw' = fw.pollTimers s.hooks t
  /-- The timers that are due fire one after the other. Then the clock moves to `t`. -/
  trace : ∃ fw₁, Lapses s (fw.timers.dueBy t) fw fw₁ ∧
    fw.pollTimers s.hooks t = { fw₁ with timers := fw₁.timers.advanceTo t }
  /-- They fire by deadline and then in the order of scheduling. -/
  ordered : (fw.timers.dueBy t).Pairwise fun x y =>
    x.1.deadline < y.1.deadline ∨ x.1.deadline = y.1.deadline ∧ x.1.id < y.1.id
  once : (fw.lapsing t).Nodup
  lapsing_iff : ∀ h, h ∈ fw.lapsing t ↔ ∃ e id deadline event, fw.pit.get? h = some e ∧
    e.Holds id ∧ fw.timers.Pending id deadline event ∧ deadline ≤ t
  /-- The entries of these timers go, and all others stay as they are. -/
  get? : ∀ h, (fw.pollTimers s.hooks t).pit.get? h =
    if h ∈ fw.lapsing t then none else fw.pit.get? h
  /-- All other timers stay, and there are no new ones. -/
  pending_iff : ∀ id deadline event, (fw.pollTimers s.hooks t).timers.Pending id deadline event ↔
    fw.timers.Pending id deadline event ∧ t < deadline
  nextId : (fw.pollTimers s.hooks t).timers.nextId = fw.timers.nextId
  /-- Each listener is told once of each entry that no Data came for, and of nothing else. -/
  events : (fw.pollTimers s.hooks t).events =
    fw.events ++ (fw.timers.dueBy t).flatMap fun x => fw.lapseNotices x.2
  sent : (fw.pollTimers s.hooks t).sent = fw.sent
  now : (fw.pollTimers s.hooks t).now = max fw.now t

/-- **Entries lapse in order** when a reachable node is polled, whatever the time. -/
theorem reachable_lapsesInOrder (hfw : Reachable fw) (s : Strategy) (t : Instant) :
    LapsesInOrder s t fw := by
  have inv := hfw.timersHeld
  have hpolled := polled_pollTimers inv s t
  obtain ⟨fw₁, hlapses, heq⟩ := lapses_pollTimers inv s t
  constructor
  case ends => exact fun fw' => pollLoop_iff s t inv
  case trace => exact ⟨fw₁, hlapses, heq⟩
  case ordered => exact TimerQueue.ordered_dueBy _ _
  case once => exact nodup_lapsing inv t
  case lapsing_iff => exact fun h => mem_lapsing_iff inv
  case get? => exact get?_pollTimers inv s t
  case pending_iff => exact hpolled.pending_iff
  case nextId => rw [heq]; exact hlapses.nextId
  case events => rw [heq]; exact hlapses.events (nodup_lapsing inv t)
  case sent => exact hpolled.sent
  case now => exact now_pollTimers inv s t

/-- A node with one observer and one face. Requests for `/a` and `/b` expire at the same time, `/c`
was given up, and `/d` has a long time left. -/
def fourWaiting : Forwarder :=
  (build {} (.cycle 0 []) 1).run
    [⟨.idle, .change (.addFace true 0)⟩,
      ⟨.idle, .interest ⟨256⟩ { name := ⟨[.ofChars ['a']]⟩, nonce := 1, lifetime := some 100 }⟩,
      ⟨.idle, .interest ⟨256⟩ { name := ⟨[.ofChars ['b']]⟩, nonce := 2, lifetime := some 100 }⟩,
      ⟨.bestRoute, .interest ⟨256⟩ { name := ⟨[.ofChars ['c']]⟩, nonce := 3 }⟩,
      ⟨.idle, .interest ⟨256⟩ { name := ⟨[.ofChars ['d']]⟩, nonce := 4, lifetime := some 9000 }⟩]

theorem fourWaiting_lapsesInOrder :
    let fw' := fourWaiting.pollTimers Strategy.idle.hooks 100
    fourWaiting.lapsing 100 = [⟨0, 0⟩, ⟨1, 0⟩, ⟨2, 0⟩] ∧ fw'.pit.get? ⟨2, 0⟩ = none ∧
      fw'.pit.get? ⟨3, 0⟩ = fourWaiting.pit.get? ⟨3, 0⟩ ∧ fw'.now = 100 ∧
      fw'.events.length = fourWaiting.events.length + 4 := by
  have hfw : Reachable fourWaiting := (Reachable.of_isNew (isNew_build _ _)).run _
  have hlapse := reachable_lapsesInOrder hfw .idle 100
  have hlapsing : fourWaiting.lapsing 100 = [⟨0, 0⟩, ⟨1, 0⟩, ⟨2, 0⟩] := by decide
  refine ⟨hlapsing, ?_, ?_, ?_, ?_⟩
  · rw [hlapse.get?, hlapsing]
    exact if_pos (by decide)
  · rw [hlapse.get?, hlapsing]
    exact if_neg (by decide)
  · rw [hlapse.now]
    decide
  · rw [hlapse.events, List.length_append]
    decide

end Forwarder

end NamedData
