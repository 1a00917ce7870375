import NamedData.Proofs.Forwarder.Expiry

/-!
# Polling in between

To poll the timers at some time and then at a later one is to poll at the later one alone. Each
timer fires with the clock at its own deadline, so what is due by the earlier time fires in the
same order and with the same stamps in either case. This holds of every node, also of one that no
run leads to.

## Main statements

* `Forwarder.pollTimers_of_popDue_eq_none` and `Forwarder.pollTimers_of_popDue`: polling takes one
  timer out after the other until none is due
* `Forwarder.pollTimers_pollTimers`: an earlier poll is absorbed by a later one
-/
namespace NamedData

namespace TimerQueue

variable {ε : Type} {q q' : TimerQueue ε} {id : TimerId} {event : ε} {t t₁ t₂ : Instant}

theorem size_cancel?_le (q : TimerQueue ε) (id : Option TimerId) :
    (q.cancel? id).size ≤ q.size := by
  cases id with
  | none => exact Nat.le_refl _
  | some id =>
    rw [cancel?, cancel]
    split
    · exact List.length_filter_le _ _
    · exact Nat.le_refl _

/-- A timer that comes out is pending no more. -/
theorem size_lt_of_popDue (h : q.popDue t = some (id, event, q')) : q'.size < q.size := by
  rw [popDue] at h
  split at h
  · cases h
  · split at h
    · obtain ⟨event', hlive, heq⟩ := Option.map_eq_some_iff.mp h
      cases heq
      exact SortedMap.size_erase_lt hlive
    · cases h

/-- What is due by a time is due by a later one. -/
theorem popDue_of_le {popped : TimerId × ε × TimerQueue ε} (ht : t₁ ≤ t₂)
    (h : q.popDue t₁ = some popped) : q.popDue t₂ = some popped := by
  rw [popDue] at h ⊢
  split at h
  · cases h
  · next due _ _ hheap =>
    split at h
    · next hdue =>
      simp only [if_pos (Nat.le_trans hdue ht)]
      exact h
    · cases h

theorem advanceTo_advanceTo (ht : t₁ ≤ t₂) : (q.advanceTo t₁).advanceTo t₂ = q.advanceTo t₂ := by
  rw [advanceTo, advanceTo, advanceTo, Nat.max_assoc, Nat.max_eq_right ht]

/-- Where nothing is due by a time, the clock may move to it before the first timer comes out. -/
theorem popDue_advanceTo (h : q.popDue t₁ = none) (t₂ : Instant) :
    (q.advanceTo t₁).popDue t₂ = q.popDue t₂ := by
  rw [popDue] at h
  rw [popDue, popDue]
  have hheap : (q.advanceTo t₁).heap = q.heap := rfl
  have hlive : (q.advanceTo t₁).live = q.live := rfl
  rw [hheap, hlive]
  split
  · rfl
  · next due _ _ hfirst =>
    simp only [hfirst] at h
    by_cases hdue : due.deadline ≤ t₁
    · rw [if_pos hdue, Option.map_eq_none_iff] at h
      rw [h, Option.map_none, Option.map_none]
    · rw [advanceTo_advanceTo (Nat.le_of_not_le hdue)]

end TimerQueue

namespace Forwarder

variable {fw : Forwarder} {id : TimerId} {event : TimerEvent} {q' : TimerQueue TimerEvent}
  {t t₁ t₂ : Instant}

theorem size_finalize_le (h : Pit.Handle) (satisfied : Bool) (freshness : Option Millis)
    (fw : Forwarder) : (fw.finalize h satisfied freshness).timers.size ≤ fw.timers.size := by
  cases hget : fw.pit.get? h with
  | none => simp only [finalize, hget, Nat.le_refl]
  | some e =>
    obtain ⟨deadNonces, heq⟩ := finalize_eq hget satisfied freshness
    rw [heq]
    exact Nat.le_trans (TimerQueue.size_cancel?_le _ _) (TimerQueue.size_cancel?_le _ _)

/-- A timer that fires does nothing, or it ends its entry. Before that the entry has forgotten the
timer, and at most something was told. -/
theorem handleTimer_cases (s : Strategy) (id : TimerId) (event : TimerEvent) (fw : Forwarder) :
    fw.handleTimer s.hooks id event = fw ∨
      ∃ (fw₁ : Forwarder) (satisfied : Bool) (freshness : Option Millis),
        fw₁ = { fw with pit := fw₁.pit, journal := fw₁.journal, counters := fw₁.counters } ∧
          fw.handleTimer s.hooks id event = fw₁.finalize event.entry satisfied freshness := by
  rcases handleTimer_outcome s.hooks id event fw with
    hsame | ⟨h, e, rfl, hget, hid⟩ | ⟨h, satisfied, freshness, e, rfl, hget, hid⟩
  · exact .inl hsame
  · let fw₀ := fw.released h fw.timers fun e => { e with unsatisfyTimer := none }
    have hget₀ : fw₀.pit.get? h = some { e with unsatisfyTimer := none } :=
      Pit.get?_modify_self hget
    have hq := quiet_notify s (.expiring h { e with unsatisfyTimer := none }) fw₀
    refine .inr ⟨fw₀.notify s.hooks (.expiring h { e with unsatisfyTimer := none }), false, none,
      ?_, ?_⟩
    · rw [hq.eq_update]
      rfl
    · rw [handleTimer_unsatisfy hget hid, expire, hget₀]
      rfl
  · exact .inr ⟨_, satisfied, freshness, rfl, handleTimer_straggler hget hid _ _ _⟩

/-- A timer that fires schedules none. -/
theorem size_handleTimer_le (s : Strategy) (id : TimerId) (event : TimerEvent) (fw : Forwarder) :
    (fw.handleTimer s.hooks id event).timers.size ≤ fw.timers.size := by
  rcases handleTimer_cases s id event fw with heq | ⟨fw₁, _, _, hfw₁, heq⟩
  · exact Nat.le_of_eq (congrArg (·.timers.size) heq)
  · have htimers : fw₁.timers = fw.timers := by rw [hfw₁]
    rw [heq, ← htimers]
    exact size_finalize_le _ _ _ _

/-- Fewer timers are pending once one has come out and fired. -/
theorem size_fired_lt (s : Strategy) (hpop : fw.timers.popDue t = some (id, event, q')) :
    ({ fw with timers := q' }.handleTimer s.hooks id event).timers.size < fw.timers.size :=
  Nat.lt_of_le_of_lt (size_handleTimer_le s id event _) (TimerQueue.size_lt_of_popDue hpop)

/-- Any number of steps that reaches for all timers does the same. -/
theorem fireDue_eq_of_size_le (s : Strategy) {n m : Nat} (hn : fw.timers.size ≤ n)
    (hm : fw.timers.size ≤ m) : fw.fireDue s.hooks t n = fw.fireDue s.hooks t m := by
  induction n generalizing fw m with
  | zero =>
    cases m with
    | zero => rfl
    | succ m =>
      rw [fireDue, fireDue]
      cases hpop : fw.timers.popDue t with
      | none => rfl
      | some popped =>
        exact absurd (TimerQueue.size_lt_of_popDue hpop) (by omega)
  | succ n ih =>
    cases hpop : fw.timers.popDue t with
    | none => cases m <;> simp only [fireDue, hpop]
    | some popped =>
      obtain ⟨id, event, q'⟩ := popped
      have hlt := size_fired_lt s hpop
      cases m with
      | zero => omega
      | succ m =>
        simp only [fireDue, hpop]
        exact ih (by omega) (by omega)

theorem pollTimers_of_popDue_eq_none (s : Strategy) (hpop : fw.timers.popDue t = none) :
    fw.pollTimers s.hooks t = { fw with timers := fw.timers.advanceTo t } := by
  have hfire : fw.fireDue s.hooks t fw.timers.size = fw := by
    cases fw.timers.size with
    | zero => rfl
    | succ n => rw [fireDue, hpop]
  rw [pollTimers, hfire]

theorem pollTimers_of_popDue (s : Strategy) (hpop : fw.timers.popDue t = some (id, event, q')) :
    fw.pollTimers s.hooks t =
      ({ fw with timers := q' }.handleTimer s.hooks id event).pollTimers s.hooks t := by
  have hlt := size_fired_lt s hpop
  have hfire : fw.fireDue s.hooks t (fw.timers.size - 1 + 1) =
      fw.fireDue s.hooks t fw.timers.size :=
    fireDue_eq_of_size_le s (by omega) (Nat.le_refl _)
  rw [fireDue, hpop] at hfire
  have hrest := fireDue_eq_of_size_le (t := t) s (Nat.le_sub_one_of_lt hlt) (Nat.le_refl _)
  simp only [pollTimers, ← hfire, hrest]

/-- **An earlier poll is absorbed** by a later one. The induction is on the number of pending
timers: what is due by the earlier time is taken out by both. -/
theorem pollTimers_pollTimers (s : Strategy) (ht : t₁ ≤ t₂) (fw : Forwarder) :
    (fw.pollTimers s.hooks t₁).pollTimers s.hooks t₂ = fw.pollTimers s.hooks t₂ := by
  induction hsize : fw.timers.size using Nat.strongRecOn generalizing fw with
  | ind n ih =>
    subst hsize
    cases hpop : fw.timers.popDue t₁ with
    | none =>
      have hsame := TimerQueue.popDue_advanceTo hpop t₂
      rw [pollTimers_of_popDue_eq_none s hpop]
      cases hnext : fw.timers.popDue t₂ with
      | none =>
        rw [pollTimers_of_popDue_eq_none s hnext,
          pollTimers_of_popDue_eq_none s (hsame.trans hnext), TimerQueue.advanceTo_advanceTo ht]
      | some popped =>
        rw [pollTimers_of_popDue s hnext, pollTimers_of_popDue s (hsame.trans hnext)]
    | some popped =>
      obtain ⟨id, event, q'⟩ := popped
      rw [pollTimers_of_popDue s hpop, pollTimers_of_popDue s (TimerQueue.popDue_of_le ht hpop)]
      exact ih _ (size_fired_lt s hpop) _ rfl

end Forwarder

end NamedData
