import NamedData.Proofs.Replay
import NamedData.Proofs.Timer.Queue
import Mathlib.Data.List.Nodup

/-!
# The timer queue as an agenda

An agenda is a clock and the set of timers that are still to come out, each with its deadline,
number and event. It has no order of its own: the timer that comes out next is searched among all
of them. A timer queue gives the same reply to every call as the agenda does, so how the queue is
kept does not show.

What is on the agenda can be read off the calls. A timer is on it from the call that schedules it
until it is cancelled or comes out.

## Main definitions

* `Timer`, `Agenda` and its operations
* `TimerQueue.Call`, `TimerQueue.Reply`
* `TimerQueue.Outstanding`, the timers that were scheduled and are still to come out
* `TimerQueue.KeepsAgenda`

## Main statements

* `TimerQueue.Mirrors.perform`, one call
* `TimerQueue.mem_timers_iff_outstanding`
* `TimerQueue.keepsAgenda`, any sequence of calls
-/
namespace NamedData

/-- A timer that was scheduled. -/
structure Timer (ε : Type) where
  deadline : Instant
  id : TimerId
  event : ε

/-- The timer that a queue keeps as `b`. -/
def Timer.ofBinding {ε : Type} (b : Due × ε) : Timer ε := ⟨b.1.deadline, b.1.id, b.2⟩

/-- The timer `x` comes out no later than `y`. -/
def Timer.Precedes {ε : Type} (x y : Timer ε) : Prop :=
  x.deadline < y.deadline ∨ x.deadline = y.deadline ∧ x.id ≤ y.id

instance {ε : Type} (x y : Timer ε) : Decidable (x.Precedes y) :=
  inferInstanceAs (Decidable (_ ∨ _))

/-- Timers that each come out no later than the other have the same number. -/
theorem Timer.Precedes.id_eq {ε : Type} {x y : Timer ε} (hle : x.Precedes y)
    (hge : y.Precedes x) : x.id = y.id := by
  simp only [Precedes] at hle hge
  rcases hle with hle | hle <;> rcases hge with hge | hge
  · exact absurd hle (Nat.lt_asymm hge)
  · exact absurd hge.1 (Nat.ne_of_gt hle)
  · exact absurd hle.1 (Nat.ne_of_gt hge)
  · exact Nat.le_antisymm hle.2 hge.2

/-- A clock, and the timers that are still to come out, in no particular order. -/
structure Agenda (ε : Type) where
  now : Instant
  /-- The number the next timer gets. -/
  nextId : TimerId := 0
  timers : List (Timer ε) := []

namespace Agenda

variable {ε : Type}

/-- An agenda without timers whose clock shows `start`. -/
def startingAt (start : Instant) : Agenda ε := { now := start }

def schedule (a : Agenda ε) (delay : Millis) (event : ε) : TimerId × Agenda ε :=
  (a.nextId,
    { a with nextId := a.nextId + 1, timers := ⟨a.now + delay, a.nextId, event⟩ :: a.timers })

def cancel (a : Agenda ε) (id : TimerId) : Agenda ε :=
  { a with timers := a.timers.filter (·.id ≠ id) }

def advanceTo (a : Agenda ε) (t : Instant) : Agenda ε := { a with now := max a.now t }

def nextDeadline? (a : Agenda ε) : Option Instant := (a.timers.map Timer.deadline).min?

/-- The timer that comes out before all others. -/
def first? (a : Agenda ε) : Option (Timer ε) :=
  a.timers.find? fun x => ∀ y ∈ a.timers, x.Precedes y

/-- Take out the first timer if its deadline has come. -/
def popExpired (a : Agenda ε) : Option (TimerId × ε) × Agenda ε :=
  match a.first? with
  | none => (none, a)
  | some x => if x.deadline ≤ a.now then (some (x.id, x.event), a.cancel x.id) else (none, a)

end Agenda

namespace TimerQueue

variable {ε : Type} {q : TimerQueue ε} {a : Agenda ε} {x : Timer ε}

/-! ## Calls -/

/-- What a timer queue is asked to do, or asked for. -/
inductive Call (ε : Type)
  | schedule (delay : Millis) (event : ε)
  | cancel (id : TimerId)
  | advanceTo (t : Instant)
  | popExpired
  | nextDeadline
  | size
  | isScheduled (id : TimerId)

/-- What it replies. -/
inductive Reply (ε : Type)
  | done
  | scheduled (id : TimerId)
  | popped (timer : Option (TimerId × ε))
  | nextDeadline (t : Option Instant)
  | size (n : Nat)
  | isScheduled (b : Bool)

/-- The number that was given to a timer. -/
def Reply.scheduled? : Reply ε → Option TimerId
  | .scheduled id => some id
  | _ => none

/-- The number of the timer that came out. -/
def Reply.returned? : Reply ε → Option TimerId
  | .popped timer => timer.map Prod.fst
  | _ => none

namespace Call

/-- The time that the clock is moved to. -/
def advance? : Call ε → Option Instant
  | .advanceTo t => some t
  | _ => none

/-- The reply of a timer queue to the call, and the queue after it. -/
def perform : Call ε → TimerQueue ε → Reply ε × TimerQueue ε
  | .schedule delay event, q => (.scheduled (q.schedule delay event).1, (q.schedule delay event).2)
  | .cancel id, q => (.done, q.cancel id)
  | .advanceTo t, q => (.done, q.advanceTo t)
  | .popExpired, q =>
    match q.popExpired with
    | none => (.popped none, q)
    | some (id, event, q') => (.popped (some (id, event)), q')
  | .nextDeadline, q => (.nextDeadline q.nextDeadline?, q)
  | .size, q => (.size q.size, q)
  | .isScheduled id, q => (.isScheduled (q.isScheduled id), q)

/-- The reply of an agenda to the call, and the agenda after it. -/
def onAgenda : Call ε → Agenda ε → Reply ε × Agenda ε
  | .schedule delay event, a => (.scheduled (a.schedule delay event).1, (a.schedule delay event).2)
  | .cancel id, a => (.done, a.cancel id)
  | .advanceTo t, a => (.done, a.advanceTo t)
  | .popExpired, a => (.popped a.popExpired.1, a.popExpired.2)
  | .nextDeadline, a => (.nextDeadline a.nextDeadline?, a)
  | .size, a => (.size a.timers.length, a)
  | .isScheduled id, a => (.isScheduled (a.timers.any (·.id == id)), a)

end Call

/-! ## One call -/

/-- The queue is sound, and it and the agenda have the same clock and the same timers. -/
structure Mirrors (q : TimerQueue ε) (a : Agenda ε) : Prop where
  sound : q.Sound
  now_eq : q.now = a.now
  nextId_eq : q.nextId = a.nextId
  perm : (q.pending.toList.map .ofBinding).Perm a.timers

namespace Mirrors

theorem mem_timers_iff (m : q.Mirrors a) : x ∈ a.timers ↔ q.Pending x.id x.deadline x.event := by
  rw [← m.perm.mem_iff, Pending, SortedMap.get?_eq_some_iff, List.mem_map]
  constructor
  · rintro ⟨b, hb, rfl⟩
    exact hb
  · intro hmem
    exact ⟨_, hmem, rfl⟩

theorem id_lt (m : q.Mirrors a) : ∀ x ∈ a.timers, x.id < a.nextId := by
  intro x hx
  rw [← m.nextId_eq]
  exact m.sound.id_lt (m.mem_timers_iff.mp hx)

/-- A number belongs to one timer. -/
theorem eq_of_id_eq (m : q.Mirrors a) {y : Timer ε} (hx : x ∈ a.timers) (hy : y ∈ a.timers)
    (hid : x.id = y.id) : x = y := by
  have hpx := m.mem_timers_iff.mp hx
  have hpy := m.mem_timers_iff.mp hy
  obtain ⟨deadline, id, event⟩ := x
  obtain rfl : id = y.id := hid
  obtain rfl := m.sound.deadline_unique hpx hpy
  obtain rfl := m.sound.event_unique hpx hpy
  rfl

theorem startingAt (start : Instant) :
    (startingAt start : TimerQueue ε).Mirrors (.startingAt start) where
  sound := sound_startingAt start
  now_eq := rfl
  nextId_eq := rfl
  perm := .refl _

theorem schedule (m : q.Mirrors a) (delay : Millis) (event : ε) :
    (q.schedule delay event).2.Mirrors (a.schedule delay event).2 where
  sound := m.sound.schedule delay event
  now_eq := m.now_eq
  nextId_eq := congrArg (· + 1) m.nextId_eq
  perm := by
    have hnew : q.pending.get? ⟨q.now + delay, q.nextId⟩ = none := by
      rw [Option.eq_none_iff_forall_ne_some]
      exact fun e he => Nat.lt_irrefl _ (m.sound.id_lt he)
    rw [pending_schedule_eq m.sound]
    refine ((SortedMap.perm_toList_insert hnew event).map _).trans ?_
    simp only [List.map_cons, m.now_eq, m.nextId_eq]
    exact m.perm.cons _

theorem cancel (m : q.Mirrors a) (id : TimerId) : (q.cancel id).Mirrors (a.cancel id) where
  sound := m.sound.cancel id
  now_eq := (now_cancel q id).trans m.now_eq
  nextId_eq := (nextId_cancel q id).trans m.nextId_eq
  perm := by
    have hfilter := m.perm.filter fun x => x.id ≠ id
    simp only [List.filter_map] at hfilter
    rw [toList_pending_cancel]
    exact hfilter

theorem advanceTo (m : q.Mirrors a) (t : Instant) : (q.advanceTo t).Mirrors (a.advanceTo t) where
  sound := m.sound.advanceTo t
  now_eq := congrArg (max · t) m.now_eq
  nextId_eq := m.nextId_eq
  perm := m.perm

/-- The smallest binding of the queue is the timer that comes out first. -/
theorem precedes_of_toList_eq (m : q.Mirrors a) {b : Due × ε} {rest : List (Due × ε)}
    (hlist : q.pending.toList = b :: rest) {y : Timer ε} (hy : y ∈ a.timers) :
    (Timer.ofBinding b).Precedes y := by
  have hsorted := q.pending.sorted
  have hmem := SortedMap.get?_eq_some_iff.mp (m.mem_timers_iff.mp hy)
  rw [hlist, List.pairwise_cons] at hsorted
  rw [hlist] at hmem
  rcases List.mem_cons.mp hmem with rfl | hmem
  · exact .inr ⟨rfl, Nat.le_refl _⟩
  · rcases Ordering.then_eq_lt.mp (hsorted.1 _ hmem) with hlt | ⟨heq, hlt⟩
    · exact .inl (Nat.compare_eq_lt.mp hlt)
    · exact .inr ⟨Nat.compare_eq_eq.mp heq, Nat.le_of_lt (Nat.compare_eq_lt.mp hlt)⟩

theorem ofBinding_mem (m : q.Mirrors a) {b : Due × ε} (hb : b ∈ q.pending.toList) :
    Timer.ofBinding b ∈ a.timers :=
  m.mem_timers_iff.mpr (SortedMap.get?_eq_some_iff.mpr hb)

theorem timers_eq_nil (m : q.Mirrors a) (hlist : q.pending.toList = []) : a.timers = [] := by
  have hperm := m.perm
  rw [hlist] at hperm
  exact hperm.nil_eq.symm

theorem first?_eq_some_iff (m : q.Mirrors a) :
    a.first? = some x ↔ x ∈ a.timers ∧ ∀ y ∈ a.timers, x.Precedes y := by
  rw [Agenda.first?, SortedMap.find?_eq_some_iff_of_unique, decide_eq_true_eq]
  -- two that both come out before all others are the same
  intro hx hfirst y hy hfirst'
  rw [decide_eq_true_eq] at hfirst hfirst'
  exact m.eq_of_id_eq hy hx ((hfirst' x hx).id_eq (hfirst y hy))

theorem first?_eq (m : q.Mirrors a) :
    a.first? = q.pending.toList.head?.map Timer.ofBinding := by
  cases hlist : q.pending.toList with
  | nil => simp [Agenda.first?, m.timers_eq_nil hlist]
  | cons b rest =>
    exact m.first?_eq_some_iff.mpr ⟨m.ofBinding_mem (hlist ▸ List.mem_cons_self),
      fun y hy => m.precedes_of_toList_eq hlist hy⟩

theorem nextDeadline?_eq (m : q.Mirrors a) : q.nextDeadline? = a.nextDeadline? := by
  rw [m.sound.nextDeadline?_eq]
  cases hlist : q.pending.toList with
  | nil => simp [Agenda.nextDeadline?, SortedMap.keys, hlist, m.timers_eq_nil hlist]
  | cons b rest =>
    have hmin : a.nextDeadline? = some b.1.deadline := by
      rw [Agenda.nextDeadline?, List.min?_eq_some_iff]
      refine ⟨List.mem_map.mpr ⟨_, m.ofBinding_mem (hlist ▸ List.mem_cons_self), rfl⟩, ?_⟩
      intro t ht
      obtain ⟨y, hy, rfl⟩ := List.mem_map.mp ht
      rcases m.precedes_of_toList_eq hlist hy with hlt | ⟨heq, _⟩
      · exact Nat.le_of_lt hlt
      · exact Nat.le_of_eq heq
    simp [SortedMap.keys, hlist, hmin]

theorem size_eq (m : q.Mirrors a) : q.size = a.timers.length := by
  rw [← m.perm.length_eq, List.length_map]
  exact m.sound.size_eq

theorem isScheduled_eq (m : q.Mirrors a) (id : TimerId) :
    q.isScheduled id = a.timers.any (·.id == id) := by
  rw [Bool.eq_iff_iff, m.sound.isScheduled_iff, List.any_eq_true]
  simp only [beq_iff_eq]
  constructor
  · rintro ⟨t, event, hp⟩
    exact ⟨⟨t, id, event⟩, m.mem_timers_iff.mpr hp, rfl⟩
  · rintro ⟨x, hx, rfl⟩
    exact ⟨_, _, m.mem_timers_iff.mp hx⟩

/-- Taking out a timer when it is due leaves the same timers as cancelling it. -/
theorem leave (m : q.Mirrors a) {b : Due × ε} (hb : b ∈ q.pending.toList)
    (hle : b.1.deadline ≤ q.now) :
    ((q.advanceTo b.1.deadline).leave b.1).Mirrors (a.cancel b.1.id) where
  sound := by
    have hget : q.pending.get? b.1 = some b.2 := SortedMap.get?_eq_some_iff.mpr hb
    exact (m.sound.advanceTo _).leave (get?_pending_eq_some_iff.mp hget).1
  now_eq := (Nat.max_eq_left hle).trans m.now_eq
  nextId_eq := m.nextId_eq
  perm := by
    rw [pending_leave]
    exact ((m.advanceTo b.1.deadline).cancel b.1.id).perm

theorem popExpired (m : q.Mirrors a) :
    (Call.popExpired.perform q).1 = .popped a.popExpired.1 ∧
      (Call.popExpired.perform q).2.Mirrors a.popExpired.2 := by
  have hfirst := m.first?_eq
  cases hlist : q.pending.toList with
  | nil =>
    rw [hlist, List.head?_nil, Option.map_none] at hfirst
    simp only [Call.perform, TimerQueue.popExpired, m.sound.popDue_eq, hlist, Agenda.popExpired,
      hfirst]
    exact ⟨trivial, m⟩
  | cons b rest =>
    rw [hlist, List.head?_cons, Option.map_some] at hfirst
    simp only [Call.perform, TimerQueue.popExpired, m.sound.popDue_eq, hlist, Agenda.popExpired,
      hfirst, ← m.now_eq]
    by_cases hle : b.1.deadline ≤ q.now
    · have hle' : (Timer.ofBinding b).deadline ≤ q.now := hle
      simp only [hle, hle', if_true]
      exact ⟨rfl, m.leave (hlist ▸ List.mem_cons_self) hle⟩
    · have hle' : ¬ (Timer.ofBinding b).deadline ≤ q.now := hle
      simp only [hle, hle', if_false]
      exact ⟨trivial, m⟩

/-- A timer comes out exactly when it is due and before all others. -/
theorem exists_popExpired_iff (m : q.Mirrors a) {id : TimerId} {event : ε} :
    (∃ q', q.popExpired = some (id, event, q')) ↔
      ∃ deadline ≤ q.now, ⟨deadline, id, event⟩ ∈ a.timers ∧
        ∀ y ∈ a.timers, Timer.Precedes ⟨deadline, id, event⟩ y := by
  have hagenda : (∃ q', q.popExpired = some (id, event, q')) ↔
      a.popExpired.1 = some (id, event) := by
    have hreply := m.popExpired.1
    simp only [Call.perform] at hreply
    cases hpop : q.popExpired with
    | none =>
      simp only [hpop, Reply.popped.injEq] at hreply
      simp [← hreply]
    | some popped =>
      simp only [hpop, Reply.popped.injEq] at hreply
      simp [← hreply, Prod.ext_iff]
  rw [hagenda, m.now_eq]
  constructor
  · intro hpop
    simp only [Agenda.popExpired] at hpop
    split at hpop
    · cases hpop
    · next x hfirst =>
      split at hpop
      · next hle =>
        simp only [Option.some.injEq, Prod.mk.injEq] at hpop
        obtain ⟨rfl, rfl⟩ := hpop
        exact ⟨x.deadline, hle, m.first?_eq_some_iff.mp hfirst⟩
      · cases hpop
  · rintro ⟨deadline, hle, hfirst⟩
    simp [Agenda.popExpired, m.first?_eq_some_iff.mpr hfirst, hle]

/-- **One call** gets the same reply from the queue and the agenda. -/
theorem perform (m : q.Mirrors a) (c : Call ε) :
    (c.perform q).1 = (c.onAgenda a).1 ∧ (c.perform q).2.Mirrors (c.onAgenda a).2 := by
  cases c with
  | schedule delay event => exact ⟨congrArg Reply.scheduled m.nextId_eq, m.schedule delay event⟩
  | cancel id => exact ⟨rfl, m.cancel id⟩
  | advanceTo t => exact ⟨rfl, m.advanceTo t⟩
  | popExpired => exact m.popExpired
  | nextDeadline => exact ⟨congrArg Reply.nextDeadline m.nextDeadline?_eq, m⟩
  | size => exact ⟨congrArg Reply.size m.size_eq, m⟩
  | isScheduled id => exact ⟨congrArg Reply.isScheduled (m.isScheduled_eq id), m⟩

end Mirrors

/-- What is on the agenda after a call. -/
theorem Call.mem_onAgenda (c : Call ε) (a : Agenda ε) : x ∈ (c.onAgenda a).2.timers ↔
    (x ∈ a.timers ∧ c ≠ .cancel x.id ∧ (c.onAgenda a).1.returned? ≠ some x.id) ∨
      ∃ delay, c = .schedule delay x.event ∧ x.id = a.nextId ∧ x.deadline = a.now + delay := by
  cases c with
  | schedule delay event =>
    simp only [onAgenda, Agenda.schedule, List.mem_cons, Reply.returned?]
    obtain ⟨deadline, id, event'⟩ := x
    simp only [Timer.mk.injEq]
    constructor
    · rintro (⟨rfl, rfl, rfl⟩ | hx)
      · exact .inr ⟨delay, rfl, rfl, rfl⟩
      · exact .inl ⟨hx, nofun, nofun⟩
    · rintro (⟨hx, _⟩ | ⟨_, heq, rfl, rfl⟩)
      · exact .inr hx
      · cases heq
        exact .inl ⟨rfl, rfl, rfl⟩
  | cancel id => simp [onAgenda, Agenda.cancel, Reply.returned?, @eq_comm _ id x.id]
  | popExpired =>
    simp only [onAgenda, Agenda.popExpired]
    cases hfirst : a.first? with
    | none => simp [Reply.returned?]
    | some y =>
      by_cases hle : y.deadline ≤ a.now
      · simp [hle, Agenda.cancel, Reply.returned?, @eq_comm _ y.id x.id]
      · simp [hle, Reply.returned?]
  | advanceTo | nextDeadline | size | isScheduled =>
    simp [onAgenda, Agenda.advanceTo, Reply.returned?]

/-- Only a timer that is on the agenda is returned. -/
theorem Call.exists_of_returned? {c : Call ε} {id : TimerId}
    (hreturn : (c.onAgenda a).1.returned? = some id) : ∃ x ∈ a.timers, x.id = id := by
  cases c with
  | popExpired =>
    simp only [onAgenda, Agenda.popExpired] at hreturn
    cases hfirst : a.first? with
    | none => simp [hfirst, Reply.returned?] at hreturn
    | some y =>
      by_cases hle : y.deadline ≤ a.now
      · simp only [hfirst, hle, if_true, Reply.returned?, Option.map_some, Option.some.injEq]
          at hreturn
        exact ⟨y, List.mem_of_find?_eq_some hfirst, hreturn⟩
      · simp [hfirst, hle, Reply.returned?] at hreturn
  | schedule | cancel | advanceTo | nextDeadline | size | isScheduled => cases hreturn

/-- Numbers are given out one after the other. -/
theorem Call.nextId_onAgenda (c : Call ε) (a : Agenda ε) :
    (c.onAgenda a).2.nextId = a.nextId + ((c.onAgenda a).1.scheduled?.toList.length) ∧
      ∀ id ∈ (c.onAgenda a).1.scheduled?, id = a.nextId := by
  cases c with
  | popExpired =>
    simp only [onAgenda, Agenda.popExpired]
    cases a.first? with
    | none => simp [Reply.scheduled?]
    | some y => by_cases hle : y.deadline ≤ a.now <;> simp [hle, Agenda.cancel, Reply.scheduled?]
  | schedule | cancel | advanceTo | nextDeadline | size | isScheduled =>
    simp [onAgenda, Agenda.schedule, Agenda.cancel, Agenda.advanceTo, Reply.scheduled?]

theorem Call.now_onAgenda (c : Call ε) (a : Agenda ε) :
    (c.onAgenda a).2.now = c.advance?.toList.foldl max a.now := by
  cases c with
  | popExpired =>
    simp only [onAgenda, Agenda.popExpired]
    cases a.first? with
    | none => rfl
    | some y => by_cases hle : y.deadline ≤ a.now <;> simp [hle, Agenda.cancel, advance?]
  | schedule | cancel | advanceTo | nextDeadline | size | isScheduled => rfl

/-! ## Sequences of calls -/

section Calls

variable {start : Instant} {calls : List (Call ε)} {c : Call ε} {id : TimerId} {event : ε}

/-- The queue that was started at `start`, after the calls. -/
def after (start : Instant) (calls : List (Call ε)) : TimerQueue ε :=
  (replay Call.perform calls (startingAt start)).2

/-- The timer was scheduled by one of the calls, and it was neither cancelled nor returned since. -/
def Outstanding (start : Instant) (calls : List (Call ε)) (x : Timer ε) : Prop :=
  ∃ earlier delay later, calls = earlier ++ .schedule delay x.event :: later ∧
    x.id = (after start earlier).nextId ∧ x.deadline = (after start earlier).now + delay ∧
    .cancel x.id ∉ later ∧
    x.id ∉ (replay Call.perform later ((after start earlier).schedule delay x.event).2).1.filterMap
      Reply.returned?

theorem mirrors_after (start : Instant) (calls : List (Call ε)) :
    (after start calls).Mirrors (replay Call.onAgenda calls (.startingAt start)).2 :=
  (replay_simulates (fun c _ _ m => m.perform c) calls (.startingAt start)).2

/-- What one more call changes: a timer that it cancels or returns is no longer outstanding, and
one that it schedules is. -/
theorem outstanding_concat : Outstanding start (calls ++ [c]) x ↔
    (Outstanding start calls x ∧ c ≠ .cancel x.id ∧
      (c.perform (after start calls)).1.returned? ≠ some x.id) ∨
    ∃ delay, c = .schedule delay x.event ∧ x.id = (after start calls).nextId ∧
      x.deadline = (after start calls).now + delay := by
  have hafter : ∀ earlier delay rest,
      after start (earlier ++ .schedule delay x.event :: rest) =
        (replay Call.perform rest ((after start earlier).schedule delay x.event).2).2 := by
    intro earlier delay rest
    rw [after, replay_append]
    rfl
  constructor
  · rintro ⟨earlier, delay, later, heq, hid, hdue, hkept, hleft⟩
    rcases concat_eq_append_cons_iff.mp heq with ⟨rfl, rfl, rfl⟩ | ⟨rest, rfl, rfl⟩
    · exact .inr ⟨delay, rfl, hid, hdue⟩
    · rw [List.mem_append, List.mem_singleton, not_or] at hkept
      rw [replay_concat, List.filterMap_append, List.mem_append, not_or] at hleft
      refine .inl ⟨⟨earlier, delay, rest, rfl, hid, hdue, hkept.1, hleft.1⟩, Ne.symm hkept.2, ?_⟩
      rw [hafter]
      simpa using hleft.2
  · rintro (⟨⟨earlier, delay, rest, rfl, hid, hdue, hkept, hleft⟩, hcancel, hreturn⟩ | hnew)
    · refine ⟨earlier, delay, rest ++ [c], by simp, hid, hdue, ?_, ?_⟩
      · rw [List.mem_append, List.mem_singleton, not_or]
        exact ⟨hkept, Ne.symm hcancel⟩
      · rw [hafter] at hreturn
        rw [replay_concat, List.filterMap_append, List.mem_append, not_or]
        exact ⟨hleft, by simpa using hreturn⟩
    · obtain ⟨delay, rfl, hid, hdue⟩ := hnew
      exact ⟨calls, delay, [], rfl, hid, hdue, List.not_mem_nil, List.not_mem_nil⟩

/-- **On the agenda** are exactly the timers that were scheduled and neither cancelled nor
returned since. -/
theorem mem_timers_iff_outstanding :
    x ∈ (replay Call.onAgenda calls (.startingAt start)).2.timers ↔ Outstanding start calls x := by
  induction calls using List.reverseRecOn with
  | nil =>
    constructor
    · exact nofun
    · rintro ⟨earlier, _, _, heq, _⟩
      exact absurd heq.symm (List.append_ne_nil_of_right_ne_nil earlier (List.cons_ne_nil _ _))
  | append_singleton calls c ih =>
    have m := mirrors_after start calls
    rw [replay_concat, outstanding_concat, Call.mem_onAgenda, ih, (m.perform c).1, m.nextId_eq,
      m.now_eq]

/-- The clock shows the latest time that it was moved to. -/
theorem now_after (start : Instant) (calls : List (Call ε)) :
    (after start calls).now = (calls.filterMap Call.advance?).foldl max start := by
  rw [(mirrors_after start calls).now_eq]
  induction calls using List.reverseRecOn with
  | nil => rfl
  | append_singleton calls c ih =>
    rw [replay_concat, Call.now_onAgenda, ih, List.filterMap_append, List.foldl_append]
    cases h : c.advance? <;> simp [h]

/-- The numbers that were given out increase. -/
theorem scheduled_increase (start : Instant) (calls : List (Call ε)) :
    let answered := replay Call.onAgenda calls (.startingAt start)
    (answered.1.filterMap Reply.scheduled?).Pairwise (· < ·) ∧
      ∀ id ∈ answered.1.filterMap Reply.scheduled?, id < answered.2.nextId := by
  induction calls using List.reverseRecOn with
  | nil => exact ⟨.nil, List.forall_mem_nil _⟩
  | append_singleton calls c ih =>
    obtain ⟨hsorted, hlt⟩ := ih
    obtain ⟨hnext, hnew⟩ := c.nextId_onAgenda (replay Call.onAgenda calls (.startingAt start)).2
    simp only [replay_concat, List.filterMap_append, hnext]
    cases hreply : (c.onAgenda (replay Call.onAgenda calls (.startingAt start)).2).1.scheduled? with
    | none =>
      simp only [List.filterMap_cons, hreply, List.filterMap_nil, List.append_nil,
        Option.toList_none, List.length_nil, Nat.add_zero]
      exact ⟨hsorted, hlt⟩
    | some id =>
      have hid := hnew id hreply
      simp only [List.filterMap_cons, hreply, List.filterMap_nil, Option.toList_some,
        List.length_singleton, List.pairwise_append, List.mem_append, List.mem_singleton, hid]
      refine ⟨⟨hsorted, List.pairwise_singleton _ _, ?_⟩, ?_⟩
      · rintro id' hid' _ rfl
        exact hlt id' hid'
      · rintro id' (hid' | rfl)
        · exact Nat.lt_succ_of_lt (hlt id' hid')
        · exact Nat.lt_succ_self _

/-- A number that was returned is not on the agenda any more, and will not be given out again. -/
theorem returned_once (start : Instant) (calls : List (Call ε)) :
    let answered := replay Call.onAgenda calls (.startingAt start)
    (answered.1.filterMap Reply.returned?).Nodup ∧
      ∀ id ∈ answered.1.filterMap Reply.returned?,
        id < answered.2.nextId ∧ ∀ x ∈ answered.2.timers, x.id ≠ id := by
  induction calls using List.reverseRecOn with
  | nil => exact ⟨.nil, List.forall_mem_nil _⟩
  | append_singleton calls c ih =>
    obtain ⟨hnodup, hgone⟩ := ih
    have m := mirrors_after start calls
    simp only [replay_concat, List.filterMap_append]
    generalize replay Call.onAgenda calls (.startingAt start) = answered at hnodup hgone m ⊢
    have hlt : ∀ id, id < answered.2.nextId → id < (c.onAgenda answered.2).2.nextId := by
      intro id hid
      rw [(c.nextId_onAgenda answered.2).1]
      exact Nat.lt_add_right _ hid
    have hold : ∀ id ∈ answered.1.filterMap Reply.returned?,
        id < (c.onAgenda answered.2).2.nextId ∧
          ∀ x ∈ (c.onAgenda answered.2).2.timers, x.id ≠ id := by
      intro id hid
      refine ⟨hlt id (hgone id hid).1, ?_⟩
      intro x hx
      rcases (c.mem_onAgenda answered.2).mp hx with ⟨hx, _⟩ | ⟨_, _, heq, _⟩
      · exact (hgone id hid).2 x hx
      · exact heq ▸ Nat.ne_of_gt (hgone id hid).1
    cases hreply : (c.onAgenda answered.2).1.returned? with
    | none =>
      simp only [List.filterMap_cons, hreply, List.filterMap_nil, List.append_nil]
      exact ⟨hnodup, hold⟩
    | some id =>
      obtain ⟨y, hy, rfl⟩ := Call.exists_of_returned? hreply
      simp only [List.filterMap_cons, hreply, List.filterMap_nil, List.mem_append,
        List.mem_singleton]
      constructor
      · refine List.nodup_append.mpr ⟨hnodup, List.nodup_singleton _, ?_⟩
        rintro id hid _ hid' rfl
        exact (hgone id hid).2 y hy (List.mem_singleton.mp hid').symm
      · rintro id (hid | rfl)
        · exact hold id hid
        · refine ⟨hlt _ (m.id_lt y hy), ?_⟩
          intro x hx heq
          rcases (c.mem_onAgenda answered.2).mp hx with ⟨_, _, hne⟩ | ⟨_, _, hnew, _⟩
          · exact hne (heq ▸ hreply)
          · exact Nat.ne_of_lt (m.id_lt y hy) (heq.symm.trans hnew)

/-- What a timer queue that was started at `start` shows after the calls. -/
structure KeepsAgenda (start : Instant) (calls : List (Call ε)) : Prop where
  /-- An agenda gives the same replies. -/
  replies_eq : (replay Call.perform calls (startingAt start)).1 =
    (replay Call.onAgenda calls (.startingAt start)).1
  /-- On the agenda are the timers that were neither cancelled nor returned. -/
  mem_timers_iff : ∀ x, x ∈ (replay Call.onAgenda calls (.startingAt start)).2.timers ↔
    Outstanding start calls x
  /-- The clock shows the latest time that it was moved to. -/
  now_eq : (after start calls).now = (calls.filterMap Call.advance?).foldl max start
  scheduled_increase :
    ((replay Call.perform calls (startingAt start)).1.filterMap Reply.scheduled?).Pairwise (· < ·)
  returned_once :
    ((replay Call.perform calls (startingAt start)).1.filterMap Reply.returned?).Nodup
  /-- The timer that comes out is the first of those that are outstanding, and it is due. -/
  popExpired_iff : ∀ id event, (∃ q', (after start calls).popExpired = some (id, event, q')) ↔
    ∃ deadline ≤ (after start calls).now, Outstanding start calls ⟨deadline, id, event⟩ ∧
      ∀ y, Outstanding start calls y → Timer.Precedes ⟨deadline, id, event⟩ y

/-- **A timer queue keeps an agenda**, whatever it is asked in whatever order. -/
theorem keepsAgenda (start : Instant) (calls : List (Call ε)) : KeepsAgenda start calls := by
  have m := mirrors_after start calls
  have hreplies := (replay_simulates (fun c _ _ m => m.perform c) calls
    (Mirrors.startingAt (ε := ε) start)).1
  refine ⟨hreplies, fun x => mem_timers_iff_outstanding, now_after start calls, ?_, ?_, ?_⟩
  · rw [hreplies]
    exact (scheduled_increase start calls).1
  · rw [hreplies]
    exact (returned_once start calls).1
  · intro id event
    rw [m.exists_popExpired_iff]
    simp only [mem_timers_iff_outstanding]

end Calls

end TimerQueue

end NamedData
