import NamedData.Proofs.SortedMap
import NamedData.Timer.Queue

/-!
# The timer queue as a set of timers

The timers in the order of a queue that have an event are pending. Scheduling, cancelling and
taking out the first timer do to the pending timers what their names say, if the first timer in
the order is always pending. Cancelled timers are taken off the front to keep it so.

A timer queue is then seen through `Pending`, which relates the number of a pending timer to
its deadline and event. In a well-formed queue no deadline is before what the clock shows.

## Main definitions

* `TimerQueue.pending`, `TimerQueue.Pending`
* `TimerQueue.Sound`, the order and the events belong together and the first timer is pending
* `TimerQueue.WellFormed`, with `wellFormed_schedule`, `wellFormed_cancel`,
  `Popped.wellFormed` and `wellFormed_advanceTo`
* `TimerQueue.Popped`, what `popDue` does when a timer is due

## Main statements

* `Sound.schedule`, `Sound.cancel`, `Sound.leave`
* `pending_schedule_eq`, `pending_cancel_eq`, `pending_leave`
* `popDue_eq_none_iff`, it fails exactly when no timer is due
-/
namespace NamedData

theorem Due.deadline_le_of_compare_lt {a b : Due} (h : compare a b = .lt) :
    a.deadline ≤ b.deadline := by
  rcases Ordering.then_eq_lt.mp h with hlt | ⟨heq, _⟩
  · exact Nat.le_of_lt (Nat.compare_eq_lt.mp hlt)
  · exact Nat.le_of_eq (Nat.compare_eq_eq.mp heq)

namespace TimerQueue

variable {ε : Type} {q q' : TimerQueue ε} {id id' : TimerId} {t t' : Instant} {event event' : ε}
  {due : Due}

/-! ## The order and the events -/

/-- The pending timers, in the order in which they come out. -/
def pending (q : TimerQueue ε) : SortedMap Due ε :=
  q.heap.filterMap fun due _ => q.live.get? due.id

/-- The timer `id` is pending, with this deadline and event. -/
def Pending (q : TimerQueue ε) (id : TimerId) (deadline : Instant) (event : ε) : Prop :=
  q.pending.get? ⟨deadline, id⟩ = some event

theorem get?_pending_eq_some_iff : q.pending.get? due = some event ↔
    q.heap.contains due = true ∧ q.live.get? due.id = some event := by
  rw [pending, SortedMap.get?_filterMap, Option.bind_eq_some_iff, SortedMap.contains_iff]
  simp

/-- The numbers in the order were given out, each to one timer, and no timer with an event is
missing. -/
structure Consistent (q : TimerQueue ε) : Prop where
  lt_nextId : ∀ {due}, q.heap.contains due = true → due.id < q.nextId
  eq_of_id_eq : ∀ {due due'}, q.heap.contains due = true → q.heap.contains due' = true →
    due.id = due'.id → due = due'
  exists_due : ∀ {id}, q.live.contains id = true → ∃ t, q.heap.contains ⟨t, id⟩ = true

/-- Moreover, the first timer in the order is pending. -/
structure Sound (q : TimerQueue ε) : Prop extends Consistent q where
  live_head : ∀ {due}, q.heap.keys.head? = some due → q.live.contains due.id = true

theorem sound_startingAt (start : Instant) : (startingAt start : TimerQueue ε).Sound where
  lt_nextId := nofun
  eq_of_id_eq := nofun
  exists_due := nofun
  live_head := nofun

theorem Sound.advanceTo (sound : q.Sound) (t : Instant) : (q.advanceTo t).Sound :=
  ⟨⟨sound.lt_nextId, sound.eq_of_id_eq, sound.exists_due⟩, sound.live_head⟩

/-- A pending timer is not taken off the front. -/
theorem contains_heap_prune (hlive : q.live.contains due.id = true) :
    q.prune.heap.contains due = true ↔ q.heap.contains due = true := by
  have hkept : (fun due : Due => !q.live.contains due.id) due = false := by simp [hlive]
  rw [SortedMap.contains_iff, SortedMap.contains_iff]
  exact exists_congr fun _ => SortedMap.get?_dropWhile_eq_some_iff hkept

theorem contains_of_contains_heap_prune (h : q.prune.heap.contains due = true) :
    q.heap.contains due = true := by
  rw [SortedMap.contains_iff] at h ⊢
  exact h.imp fun _ => SortedMap.get?_of_get?_dropWhile

theorem pending_advanceTo (q : TimerQueue ε) (t : Instant) :
    (q.advanceTo t).pending = q.pending := rfl

/-- Taking timers without events off the front does not change what is pending. -/
theorem pending_prune (q : TimerQueue ε) : q.prune.pending = q.pending := by
  refine SortedMap.eq_of_get?_eq fun due => Option.ext fun event => ?_
  rw [get?_pending_eq_some_iff, get?_pending_eq_some_iff]
  refine and_congr_left fun hlive => contains_heap_prune ?_
  exact SortedMap.contains_iff.mpr ⟨event, hlive⟩

theorem Consistent.prune (cons : q.Consistent) : q.prune.Sound where
  lt_nextId h := cons.lt_nextId (contains_of_contains_heap_prune h)
  eq_of_id_eq h h' :=
    cons.eq_of_id_eq (contains_of_contains_heap_prune h) (contains_of_contains_heap_prune h')
  exists_due {id} hlive := by
    obtain ⟨t, hdue⟩ := cons.exists_due hlive
    have hkept : q.live.contains (Due.mk t id).id = true := hlive
    exact ⟨t, (contains_heap_prune hkept).mpr hdue⟩
  live_head hhead := by
    have hlive := SortedMap.not_of_head?_keys_dropWhile hhead
    rwa [Bool.not_eq_false'] at hlive

/-- A timer loses its event. -/
theorem Consistent.eraseLive (cons : q.Consistent) (id : TimerId) :
    { q with live := q.live.erase id }.Consistent where
  lt_nextId := cons.lt_nextId
  eq_of_id_eq := cons.eq_of_id_eq
  exists_due h := cons.exists_due ((SortedMap.contains_erase _ _ _).mp h).2

/-- The order and the events lose a timer. -/
theorem Consistent.erase (cons : q.Consistent) (hdue : q.heap.contains due = true) :
    { q with heap := q.heap.erase due, live := q.live.erase due.id }.Consistent where
  lt_nextId h := cons.lt_nextId ((SortedMap.contains_erase _ _ _).mp h).2
  eq_of_id_eq h h' := cons.eq_of_id_eq ((SortedMap.contains_erase _ _ _).mp h).2
    ((SortedMap.contains_erase _ _ _).mp h').2
  exists_due {id} h := by
    obtain ⟨hne, hlive⟩ := (SortedMap.contains_erase _ _ _).mp h
    obtain ⟨t, hother⟩ := cons.exists_due hlive
    refine ⟨t, (SortedMap.contains_erase _ _ _).mpr ⟨?_, hother⟩⟩
    rintro rfl
    exact hne rfl

/-! ## Scheduling and cancelling -/

theorem Sound.schedule (sound : q.Sound) (delay : Millis) (event : ε) :
    (q.schedule delay event).2.Sound where
  lt_nextId h := by
    rcases (SortedMap.contains_insert _ _ _ _).mp h with rfl | h
    · exact Nat.lt_succ_self _
    · exact Nat.lt_succ_of_lt (sound.lt_nextId h)
  eq_of_id_eq h h' hid := by
    rcases (SortedMap.contains_insert _ _ _ _).mp h with rfl | h <;>
      rcases (SortedMap.contains_insert _ _ _ _).mp h' with rfl | h'
    · rfl
    · exact absurd hid (Nat.ne_of_gt (sound.lt_nextId h'))
    · exact absurd hid (Nat.ne_of_lt (sound.lt_nextId h))
    · exact sound.eq_of_id_eq h h' hid
  exists_due {id} h := by
    rcases (SortedMap.contains_insert _ _ _ _).mp h with rfl | h
    · exact ⟨_, (SortedMap.contains_insert _ _ _ _).mpr (.inl rfl)⟩
    · obtain ⟨t, hdue⟩ := sound.exists_due h
      exact ⟨t, (SortedMap.contains_insert _ _ _ _).mpr (.inr hdue)⟩
  live_head hhead := by
    rcases SortedMap.head?_keys_insert hhead with rfl | hhead
    · exact (SortedMap.contains_insert _ _ _ _).mpr (.inl rfl)
    · exact (SortedMap.contains_insert _ _ _ _).mpr (.inr (sound.live_head hhead))

theorem Sound.cancel (sound : q.Sound) (id : TimerId) : (q.cancel id).Sound := by
  unfold TimerQueue.cancel
  split
  · exact (sound.toConsistent.eraseLive id).prune
  · exact sound

theorem pending_schedule_eq (sound : q.Sound) (delay : Millis) (event : ε) :
    (q.schedule delay event).2.pending = q.pending.insert ⟨q.now + delay, q.nextId⟩ event := by
  refine SortedMap.eq_of_get?_eq fun due => Option.ext fun event' => ?_
  rw [get?_pending_eq_some_iff, SortedMap.get?_insert]
  simp only [TimerQueue.schedule, SortedMap.contains_insert, SortedMap.get?_insert]
  by_cases hnew : due = ⟨q.now + delay, q.nextId⟩
  · simp [hnew]
  · rw [if_neg hnew, get?_pending_eq_some_iff]
    refine (and_congr_left' (or_iff_right hnew)).trans (and_congr_right fun hdue => ?_)
    rw [if_neg (Nat.ne_of_lt (sound.lt_nextId hdue))]

theorem pending_eraseLive (q : TimerQueue ε) (id : TimerId) :
    (q.cancel id).pending = { q with live := q.live.erase id }.pending := by
  unfold TimerQueue.cancel
  split
  · exact pending_prune _
  · next hnot =>
    have hnone : q.live.get? id = none := by simpa [SortedMap.contains] using hnot
    rw [SortedMap.erase_eq_self hnone]

theorem pending_cancel_eq (q : TimerQueue ε) (id : TimerId) :
    (q.cancel id).pending =
      q.pending.filterMap fun due event => if due.id = id then none else some event := by
  refine SortedMap.eq_of_get?_eq fun due => Option.ext fun event => ?_
  rw [pending_eraseLive, get?_pending_eq_some_iff, SortedMap.get?_filterMap,
    Option.bind_eq_some_iff]
  simp only [SortedMap.get?_erase, get?_pending_eq_some_iff]
  by_cases hid : due.id = id <;> simp [hid]

theorem toList_pending_cancel (q : TimerQueue ε) (id : TimerId) :
    (q.cancel id).pending.toList = q.pending.toList.filter fun b => b.1.id ≠ id := by
  rw [pending_cancel_eq, SortedMap.toList_filterMap_ite q.pending fun due => due.id = id]

/-! ## The first timer -/

theorem toList_pending_of_nil (hheap : q.heap.toList = []) : q.pending.toList = [] := by
  simp [pending, SortedMap.filterMap, hheap]

/-- The first timer in the order is the first of those that are pending. -/
theorem Sound.toList_pending (sound : q.Sound) {u : Unit} {rest : List (Due × Unit)}
    (hheap : q.heap.toList = (due, u) :: rest) :
    ∃ event rest', q.live.get? due.id = some event ∧ q.pending.toList = (due, event) :: rest' := by
  have hhead : q.heap.keys.head? = some due := by rw [SortedMap.keys, hheap]; rfl
  obtain ⟨event, hevent⟩ := SortedMap.contains_iff.mp (sound.live_head hhead)
  refine ⟨event, rest.filterMap fun b => (q.live.get? b.1.id).map (b.1, ·), hevent, ?_⟩
  simp [pending, SortedMap.filterMap, hheap, hevent]

theorem Sound.nextDeadline?_eq (sound : q.Sound) :
    q.nextDeadline? = q.pending.keys.head?.map Due.deadline := by
  cases hheap : q.heap.toList with
  | nil => simp [nextDeadline?, SortedMap.keys, hheap, toList_pending_of_nil hheap]
  | cons b rest =>
    obtain ⟨_, _, _, hpending⟩ := sound.toList_pending hheap
    simp [nextDeadline?, SortedMap.keys, hheap, hpending]

theorem Sound.leave (sound : q.Sound) (hdue : q.heap.contains due = true) : (q.leave due).Sound :=
  (sound.toConsistent.erase hdue).prune

/-- A timer that comes out is missing like one that is cancelled. -/
theorem pending_leave (q : TimerQueue ε) (due : Due) :
    (q.leave due).pending = (q.cancel due.id).pending := by
  rw [TimerQueue.leave, pending_prune, pending_eraseLive]
  refine SortedMap.eq_of_get?_eq fun due' => Option.ext fun event => ?_
  rw [get?_pending_eq_some_iff, get?_pending_eq_some_iff]
  refine and_congr_left fun hlive => ?_
  rw [SortedMap.contains_erase]
  refine and_iff_right_of_imp ?_
  rintro - rfl
  simp at hlive

theorem Sound.popDue_eq (sound : q.Sound) (t : Instant) :
    q.popDue t = match q.pending.toList with
      | [] => none
      | (due, event) :: _ =>
        if due.deadline ≤ t then some (due.id, event, (q.advanceTo due.deadline).leave due)
        else none := by
  rw [popDue]
  cases hheap : q.heap.toList with
  | nil => rw [toList_pending_of_nil hheap]
  | cons b rest =>
    obtain ⟨event, _, hevent, hpending⟩ := sound.toList_pending hheap
    simp only [hpending, hevent, Option.map_some]

theorem Sound.perm_ids (sound : q.Sound) : (q.pending.keys.map Due.id).Perm q.live.keys := by
  have hheap : ∀ {due}, due ∈ q.pending.keys →
      q.heap.contains due = true ∧ ∃ event, q.live.get? due.id = some event := by
    intro due hmem
    obtain ⟨event, hget⟩ := SortedMap.mem_keys_iff.mp hmem
    obtain ⟨hdue, hlive⟩ := get?_pending_eq_some_iff.mp hget
    exact ⟨hdue, event, hlive⟩
  have hnodup : (q.pending.keys.map Due.id).Nodup := by
    refine q.pending.nodup_keys.map_on fun due hmem due' hmem' hid => ?_
    exact sound.eq_of_id_eq (hheap hmem).1 (hheap hmem').1 hid
  refine (List.perm_ext_iff_of_nodup hnodup q.live.nodup_keys).mpr fun id => ?_
  rw [List.mem_map, SortedMap.mem_keys_iff]
  constructor
  · rintro ⟨due, hmem, rfl⟩
    exact (hheap hmem).2
  · rintro ⟨event, hlive⟩
    obtain ⟨t, hdue⟩ := sound.exists_due (SortedMap.contains_iff.mpr ⟨event, hlive⟩)
    have hget := get?_pending_eq_some_iff.mpr ⟨hdue, hlive⟩
    exact ⟨_, SortedMap.mem_keys_iff.mpr ⟨event, hget⟩, rfl⟩

theorem Sound.size_eq (sound : q.Sound) : q.size = q.pending.size := by
  have hlength := sound.perm_ids.length_eq
  simp only [SortedMap.keys, List.length_map] at hlength
  exact hlength.symm

theorem Sound.isScheduled_iff (sound : q.Sound) :
    q.isScheduled id = true ↔ ∃ t event, q.Pending id t event := by
  rw [isScheduled, SortedMap.contains_iff_mem_keys, ← sound.perm_ids.mem_iff, List.mem_map]
  constructor
  · rintro ⟨due, hmem, rfl⟩
    obtain ⟨event, hget⟩ := SortedMap.mem_keys_iff.mp hmem
    exact ⟨due.deadline, event, hget⟩
  · rintro ⟨t, event, hget⟩
    exact ⟨_, SortedMap.mem_keys_iff.mpr ⟨event, hget⟩, rfl⟩

theorem Sound.isEmpty_of_not_pending (sound : q.Sound)
    (h : ∀ id t event, ¬ q.Pending id t event) : q.isEmpty = true := by
  refine SortedMap.isEmpty_of_get?_eq_none fun id => ?_
  rw [Option.eq_none_iff_forall_ne_some]
  intro event hlive
  obtain ⟨t, event, hp⟩ := sound.isScheduled_iff.mp (SortedMap.contains_iff.mpr ⟨event, hlive⟩)
  exact h id t event hp

/-! ## Well-formed queues -/

theorem Sound.id_lt (sound : q.Sound) (hp : q.Pending id t event) : id < q.nextId :=
  sound.lt_nextId (get?_pending_eq_some_iff.mp hp).1

theorem Sound.deadline_unique (sound : q.Sound) (hp : q.Pending id t event)
    (hp' : q.Pending id t' event') : t = t' :=
  congrArg Due.deadline (sound.eq_of_id_eq (get?_pending_eq_some_iff.mp hp).1
    (get?_pending_eq_some_iff.mp hp').1 rfl)

theorem Sound.event_unique (sound : q.Sound) (hp : q.Pending id t event)
    (hp' : q.Pending id t' event') : event = event' := by
  obtain rfl := sound.deadline_unique hp hp'
  exact Option.some.inj (hp.symm.trans hp')

/-- No pending timer is overdue. -/
structure WellFormed (q : TimerQueue ε) : Prop extends Sound q where
  now_le : ∀ {id t event}, q.Pending id t event → q.now ≤ t

theorem not_pending_empty : ¬ ({} : TimerQueue ε).Pending id t event :=
  nofun

theorem wellFormed_empty : ({} : TimerQueue ε).WellFormed where
  toSound := sound_startingAt 0
  now_le h := absurd h not_pending_empty

@[simp] theorem now_schedule (q : TimerQueue ε) (delay : Millis) (event : ε) :
    (q.schedule delay event).2.now = q.now := rfl

@[simp] theorem id_schedule (q : TimerQueue ε) (delay : Millis) (event : ε) :
    (q.schedule delay event).1 = q.nextId := rfl

theorem pending_schedule (sound : q.Sound) {delay : Millis} :
    (q.schedule delay event).2.Pending id t event' ↔
      (id = q.nextId ∧ t = q.now + delay ∧ event' = event) ∨ q.Pending id t event' := by
  rw [Pending, pending_schedule_eq sound, SortedMap.get?_insert]
  by_cases heq : (⟨t, id⟩ : Due) = ⟨q.now + delay, q.nextId⟩
  · obtain ⟨rfl, rfl⟩ := Due.mk.inj heq
    have hfresh : ¬ q.Pending q.nextId (q.now + delay) event' :=
      fun hp => Nat.lt_irrefl _ (sound.id_lt hp)
    rw [if_pos rfl, or_iff_left hfresh]
    simp [@eq_comm _ event]
  · rw [if_neg heq]
    refine (or_iff_right ?_).symm
    rintro ⟨rfl, rfl, _⟩
    exact heq rfl

theorem pending_schedule_self (sound : q.Sound) (delay : Millis) (event : ε) :
    (q.schedule delay event).2.Pending q.nextId (q.now + delay) event :=
  (pending_schedule sound).mpr (.inl ⟨rfl, rfl, rfl⟩)

theorem pending_cancel : (q.cancel id').Pending id t event ↔ id ≠ id' ∧ q.Pending id t event := by
  simp only [Pending, pending_cancel_eq, SortedMap.get?_filterMap, Option.bind_eq_some_iff]
  constructor
  · rintro ⟨e, he, hcond⟩
    by_cases heq : id = id'
    · simp [heq] at hcond
    · simp only [heq, if_false, Option.some.injEq] at hcond
      exact ⟨heq, hcond ▸ he⟩
  · rintro ⟨hne, h⟩
    exact ⟨event, h, if_neg hne⟩

@[simp] theorem now_cancel (q : TimerQueue ε) (id : TimerId) : (q.cancel id).now = q.now := by
  unfold TimerQueue.cancel
  split <;> rfl

@[simp] theorem nextId_cancel (q : TimerQueue ε) (id : TimerId) :
    (q.cancel id).nextId = q.nextId := by
  unfold TimerQueue.cancel
  split <;> rfl

theorem wellFormed_schedule (wf : q.WellFormed) (delay : Millis) (event : ε) :
    (q.schedule delay event).2.WellFormed where
  toSound := wf.toSound.schedule delay event
  now_le h := by
    rcases (pending_schedule wf.toSound).mp h with ⟨_, rfl, _⟩ | h
    · exact Nat.le_add_right _ _
    · exact wf.now_le h

theorem wellFormed_cancel (wf : q.WellFormed) (id : TimerId) : (q.cancel id).WellFormed where
  toSound := wf.toSound.cancel id
  now_le h := by
    rw [now_cancel]
    exact wf.now_le (pending_cancel.mp h).2

/-- The queue without the timer `id`, if one is given. -/
def cancel? (q : TimerQueue ε) : Option TimerId → TimerQueue ε
  | none => q
  | some id => q.cancel id

@[simp] theorem now_cancel? (q : TimerQueue ε) (id : Option TimerId) :
    (q.cancel? id).now = q.now := by
  cases id with
  | none => rfl
  | some id => exact now_cancel q id

@[simp] theorem nextId_cancel? (q : TimerQueue ε) (id : Option TimerId) :
    (q.cancel? id).nextId = q.nextId := by
  cases id with
  | none => rfl
  | some id => exact nextId_cancel q id

theorem pending_cancel? {cancelled : Option TimerId} :
    (q.cancel? cancelled).Pending id t event ↔ cancelled ≠ some id ∧ q.Pending id t event := by
  cases cancelled with
  | none => simp [cancel?]
  | some id' =>
    rw [cancel?, pending_cancel, ne_eq, ne_eq, Option.some.injEq, eq_comm]

theorem wellFormed_cancel? (wf : q.WellFormed) (id : Option TimerId) :
    (q.cancel? id).WellFormed := by
  cases id with
  | none => exact wf
  | some id => exact wellFormed_cancel wf id

/-! ## Timers that come out -/

/-- The timer that comes out is the first of those that are pending. -/
theorem exists_of_popDue (sound : q.Sound) (h : q.popDue t = some (id, event, q')) :
    ∃ due rest, id = due.id ∧ q.pending.toList = (due, event) :: rest ∧ due.deadline ≤ t ∧
      q' = (q.advanceTo due.deadline).leave due := by
  rw [sound.popDue_eq] at h
  split at h
  · cases h
  next due e rest hlist =>
  obtain ⟨hle, h⟩ := Option.ite_none_right_eq_some.mp h
  simp only [Option.some.injEq, Prod.mk.injEq] at h
  obtain ⟨rfl, rfl, rfl⟩ := h
  exact ⟨due, rest, rfl, hlist, hle, rfl⟩

theorem popDue_eq_none_iff (sound : q.Sound) :
    q.popDue t = none ↔ ∀ id deadline event, q.Pending id deadline event → t < deadline := by
  simp only [Pending, SortedMap.get?_eq_some_iff, sound.popDue_eq]
  have hsorted := q.pending.sorted
  cases hlist : q.pending.toList with
  | nil => simp
  | cons b rest =>
    obtain ⟨due, e⟩ := b
    rw [hlist, List.pairwise_cons] at hsorted
    simp only
    by_cases hle : due.deadline ≤ t
    · rw [if_pos hle]
      constructor
      · nofun
      · intro h
        exact absurd (h due.id due.deadline e (by simp)) (Nat.not_lt.mpr hle)
    · rw [if_neg hle]
      refine ⟨fun _ => ?_, fun _ => rfl⟩
      intro id deadline event hmem
      rcases List.mem_cons.mp hmem with heq | hmem
      · cases heq
        exact Nat.lt_of_not_le hle
      · have hdue := Due.deadline_le_of_compare_lt (hsorted.1 _ hmem)
        exact Nat.lt_of_lt_of_le (Nat.lt_of_not_le hle) hdue

/-- The timer `id` came out of `q` as the first one due by `t`, and `q'` is what is left. -/
structure Popped (q : TimerQueue ε) (t : Instant) (id : TimerId) (event : ε) (q' : TimerQueue ε) :
    Prop where
  exists_deadline : ∃ deadline, q.Pending id deadline event ∧ deadline ≤ t ∧
    q'.now = max q.now deadline ∧
    ∀ id' deadline' event', q.Pending id' deadline' event' → deadline ≤ deadline'
  pending_iff : ∀ {id' deadline event'},
    q'.Pending id' deadline event' ↔ id' ≠ id ∧ q.Pending id' deadline event'
  nextId_eq : q'.nextId = q.nextId
  size_lt : q'.size < q.size
  sound : q'.Sound

theorem popped_of_popDue (sound : q.Sound) (h : q.popDue t = some (id, event, q')) :
    q.Popped t id event q' := by
  obtain ⟨due, rest, rfl, hlist, hle, rfl⟩ := exists_of_popDue sound h
  have hsorted := q.pending.sorted
  rw [hlist, List.pairwise_cons] at hsorted
  have hfirst : q.Pending due.id due.deadline event :=
    SortedMap.get?_eq_some_iff.mpr (by rw [hlist]; exact List.mem_cons_self)
  obtain ⟨hdue, hlive⟩ := get?_pending_eq_some_iff.mp hfirst
  constructor
  case exists_deadline =>
    refine ⟨due.deadline, hfirst, hle, rfl, ?_⟩
    intro id' deadline' event' h'
    have hmem := SortedMap.get?_eq_some_iff.mp h'
    rw [hlist] at hmem
    rcases List.mem_cons.mp hmem with heq | hmem
    · cases heq
      exact Nat.le_refl _
    · exact Due.deadline_le_of_compare_lt (hsorted.1 _ hmem)
  case pending_iff =>
    intro id' deadline' event'
    rw [Pending, pending_leave]
    exact pending_cancel
  case nextId_eq => rfl
  case size_lt => exact SortedMap.size_erase_lt hlive
  case sound => exact (sound.advanceTo _).leave hdue

theorem Popped.wellFormed (p : q.Popped t id event q') (wf : q.WellFormed) : q'.WellFormed where
  toSound := p.sound
  now_le h := by
    obtain ⟨deadline, _, _, hnow, hfirst⟩ := p.exists_deadline
    have h := (p.pending_iff.mp h).2
    rw [hnow]
    exact Nat.max_le.mpr ⟨wf.now_le h, hfirst _ _ _ h⟩

theorem wellFormed_advanceTo (wf : q.WellFormed)
    (h : ∀ id deadline event, q.Pending id deadline event → t ≤ deadline) :
    (q.advanceTo t).WellFormed where
  toSound := wf.toSound.advanceTo t
  now_le h' := Nat.max_le.mpr ⟨wf.now_le h', h _ _ _ h'⟩

/-! ## All timers that are due -/

/-- The timers due by `t`, in the order in which they come out. -/
def dueBy (q : TimerQueue ε) (t : Instant) : List (Due × ε) :=
  q.pending.toList.takeWhile fun b => b.1.deadline ≤ t

theorem sorted_dueBy (q : TimerQueue ε) (t : Instant) :
    (q.dueBy t).Pairwise fun b b' => b.1.deadline ≤ b'.1.deadline :=
  (q.pending.sorted.imp Due.deadline_le_of_compare_lt).sublist (List.takeWhile_sublist _)

theorem mem_dueBy {b : Due × ε} :
    b ∈ q.dueBy t ↔ q.Pending b.1.id b.1.deadline b.2 ∧ b.1.deadline ≤ t := by
  rw [Pending, SortedMap.get?_eq_some_iff, dueBy]
  have hsorted := q.pending.sorted
  generalize q.pending.toList = bindings at hsorted
  induction bindings with
  | nil => simp
  | cons first rest ih =>
    obtain ⟨hfirst, hrest⟩ := List.pairwise_cons.mp hsorted
    by_cases hle : first.1.deadline ≤ t
    · simp only [List.takeWhile_cons, hle, decide_true, if_true, List.mem_cons, ih hrest]
      constructor
      · rintro (rfl | ⟨hmem, hdue⟩)
        · exact ⟨.inl rfl, hle⟩
        · exact ⟨.inr hmem, hdue⟩
      · rintro ⟨heq | hmem, hdue⟩
        · exact .inl heq
        · exact .inr ⟨hmem, hdue⟩
    · -- all others are due later
      simp only [List.takeWhile_cons, hle, decide_false, Bool.false_eq_true, if_false,
        List.not_mem_nil, false_iff, not_and, List.mem_cons]
      rintro (heq | hmem) hdue
      · exact hle (heq ▸ hdue)
      · exact hle (Nat.le_trans (Due.deadline_le_of_compare_lt (hfirst _ hmem)) hdue)

theorem dueBy_of_popDue_eq_none (sound : q.Sound) (h : q.popDue t = none) : q.dueBy t = [] := by
  rw [List.eq_nil_iff_forall_not_mem]
  intro b hb
  obtain ⟨hp, hdue⟩ := mem_dueBy.mp hb
  exact Nat.not_lt.mpr hdue ((popDue_eq_none_iff sound).mp h _ _ _ hp)

/-- The timer that comes out is the first of those that are due. -/
theorem dueBy_of_popDue (sound : q.Sound) (h : q.popDue t = some (id, event, q')) :
    ∃ due, id = due.id ∧ q.dueBy t = (due, event) :: q'.dueBy t ∧
      q'.now = max q.now due.deadline := by
  obtain ⟨due, rest, rfl, hlist, hle, rfl⟩ := exists_of_popDue sound h
  have hids := sound.perm_ids.nodup_iff.mpr q.live.nodup_keys
  rw [SortedMap.keys, hlist, List.map_cons, List.map_cons, List.nodup_cons] at hids
  have hrest : ((q.advanceTo due.deadline).leave due).pending.toList = rest := by
    rw [pending_leave, toList_pending_cancel, pending_advanceTo, hlist,
      List.filter_cons_of_neg (by simp), List.filter_eq_self]
    intro b hb
    rw [decide_eq_true_eq]
    intro hid
    exact hids.1 (hid ▸ List.mem_map_of_mem (List.mem_map_of_mem hb))
  refine ⟨due, rfl, ?_, rfl⟩
  simp only [dueBy, hlist, List.takeWhile_cons, hle, decide_true, if_true, hrest]

end TimerQueue

end NamedData
