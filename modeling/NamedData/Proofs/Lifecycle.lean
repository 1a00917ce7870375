import NamedData.Proofs.Run

/-!
# The life of an entry

Each live entry holds exactly one timer, and each scheduled timer is held by exactly one
live entry. So an entry goes when its own timer fires and not otherwise, and polling far
enough empties the table.

## Main definitions

* `Forwarder.TimersInOrder`

## Main statements

* `Forwarder.gone_of_perform`: an entry goes only when its own timer fires
* `Forwarder.reachable_timersInOrder`
-/
namespace NamedData.Forwarder

variable {fw fw' : Forwarder} {h : Pit.Handle} {e : Pit.Entry}

/-- The entries and the scheduled timers correspond to each other. -/
structure TimersInOrder (fw : Forwarder) : Prop where
  /-- A live entry holds exactly one timer, which is scheduled and is about the entry. -/
  one_timer : ∀ h e, fw.pit.get? h = some e →
    (∃ id deadline, e.unsatisfyTimer = some id ∧ e.stragglerTimer = none ∧
      fw.timers.Pending id deadline (.unsatisfy h)) ∨
    (∃ id deadline satisfied freshness, e.unsatisfyTimer = none ∧ e.stragglerTimer = some id ∧
      fw.timers.Pending id deadline (.straggler h satisfied freshness))
  /-- A scheduled timer is held by exactly one live entry, the one that it is about. -/
  one_holder : ∀ id deadline event, fw.timers.Pending id deadline event →
    ∀ h, (∃ e, fw.pit.get? h = some e ∧ e.Holds id) ↔ h = event.entry
  /-- An entry that waits for Data has requests, and waits for the last of them to expire. If
  that was before the timer was set, the timer is due at once. -/
  waits : ∀ h e id deadline event, fw.pit.get? h = some e → e.unsatisfyTimer = some id →
    fw.timers.Pending id deadline event →
    ∃ x, e.lastExpiry? = some x ∧ deadline = max x fw.now ∧
      e.inRecords ≠ [] ∧ ∀ r ∈ e.inRecords, r.expiry ≤ deadline
  /-- An entry that was answered has no requests. -/
  answered : ∀ h e id deadline freshness, fw.pit.get? h = some e → e.stragglerTimer = some id →
    fw.timers.Pending id deadline (.straggler h true freshness) → e.inRecords = []
  /-- No scheduled timer is overdue. -/
  now_le : ∀ id deadline event, fw.timers.Pending id deadline event → fw.now ≤ deadline

theorem timersInOrder_of_timersHeld (inv : TimersHeld none fw.pit fw.timers) :
    fw.TimersInOrder where
  one_timer h e hget := by
    cases inv.armed_of_get? hget with
    | waiting hu hs _ hp => exact .inl ⟨_, _, hu, hs, hp⟩
    | closing hu hs _ hp => exact .inr ⟨_, _, _, _, hu, hs, hp⟩
  one_holder id deadline event hp h := by
    constructor
    · rintro ⟨e, hget, hid⟩
      exact (inv.entry_eq_of_holds hget hid hp).symm
    · rintro rfl
      exact (inv.held hp).2
  waits h e id deadline event hget hid hp := by
    cases inv.armed_of_get? hget with
    | @waiting id' x hu _ hx hp' =>
      rw [hu, Option.some.injEq] at hid
      subst hid
      have hdeadline := inv.queue_wellFormed.deadline_unique hp hp'
      obtain ⟨⟨r, hr, _⟩, hle⟩ := Pit.Entry.lastExpiry?_eq_some_iff.mp hx
      refine ⟨x, hx, hdeadline, List.ne_nil_of_mem hr, ?_⟩
      intro r' hr'
      rw [hdeadline]
      exact Nat.le_trans (hle r' hr') (Nat.le_max_left _ _)
    | closing hu _ _ _ =>
      rw [hu] at hid
      cases hid
  answered h e id deadline freshness hget hid hp := by
    cases inv.armed_of_get? hget with
    | waiting _ hs _ _ =>
      rw [hs] at hid
      cases hid
    | closing _ hs hnil hp' =>
      rw [hs, Option.some.injEq] at hid
      subst hid
      cases inv.queue_wellFormed.event_unique hp hp'
      exact hnil rfl
  now_le id deadline event hp := inv.queue_wellFormed.now_le hp

/-! ## The end of an entry -/

theorem noneLost_receiveInterest (wf : fw.pit.WellFormed) {s : Strategy}
    (hs : ∀ i route h, (s.receive i route h).Forwards) (f : FaceId) (i : Interest) :
    Pit.NoneLost fw.pit (fw.receiveInterest s.hooks f i).pit := by
  have houtcome := interestOutcome_receiveInterest wf s f i
  generalize fw.receiveInterest s.hooks f i = fw' at houtcome
  cases houtcome with
  | aside _ hget => exact fun h e hlive => ⟨e, (hget h).trans hlive⟩
  | accepted acc _ _ hpit =>
    refine Pit.NoneLost.trans ?_ (Plan.acted_run (hs _ _ _) _).requests.noneLost
    rw [hpit]
    exact acc.placed.noneLost.trans (Pit.noneLost_modify _ _ _)
  | answered adm _ _ _ hpit =>
    rw [hpit]
    exact adm.placed.noneLost.trans (Pit.noneLost_modify _ _ _)

theorem noneLost_receiveData (s : Strategy) (f : FaceId) (d : Data) (fw : Forwarder) :
    Pit.NoneLost fw.pit (fw.receiveData s.hooks f d).pit := by
  intro h e hget
  rcases get?_receiveData s f d fw h with heq | ⟨_, id, heq⟩
  · exact ⟨e, heq.trans hget⟩
  · exact ⟨_, heq.trans (congrArg _ hget)⟩

/-- **An entry goes only when its own timer fires**, and the timer goes with it. -/
theorem gone_of_perform (hfw : Reachable fw) (s : Step) (hget : fw.pit.get? h = some e)
    (hgone : (s.perform fw).pit.get? h = none) :
    ∃ t id deadline event, s.op = .poll t ∧ e.Holds id ∧ event.entry = h ∧ deadline ≤ t ∧
      fw.timers.Pending id deadline event ∧
      ∀ deadline' event', ¬ (s.perform fw).timers.Pending id deadline' event' := by
  have inv := hfw.timersHeld
  have hlost : ¬ Pit.NoneLost fw.pit (s.perform fw).pit := by
    intro hn
    obtain ⟨e', hget'⟩ := hn h e hget
    rw [hgone] at hget'
    cases hget'
  obtain ⟨strategy, op⟩ := s
  cases op with
  | interest f i =>
    exact absurd (noneLost_receiveInterest inv.pit_wellFormed strategy.forwards f i) hlost
  | data f d => exact absurd (noneLost_receiveData strategy.toStrategy f d fw) hlost
  | send h f newNonce =>
    exact absurd (acted_sendInterest h f newNonce fw).requests.noneLost hlost
  | reject h => exact absurd (acted_rejectInterest h fw).requests.noneLost hlost
  | change c =>
    refine absurd ?_ hlost
    rw [Step.perform, (kept_apply c fw).pit]
    exact fun h e hget => ⟨e, hget⟩
  | poll t =>
    have hpolled := polled_pollTimers inv strategy.toStrategy t
    have hdue : ∃ id deadline event, fw.timers.Pending id deadline event ∧
        event.entry = h ∧ deadline ≤ t := by
      by_contra hno
      have hget' := (hpolled.get?_iff h e).mpr ⟨hget, fun id deadline event hp hentry =>
        Nat.lt_of_not_le fun hle => hno ⟨id, deadline, event, hp, hentry, hle⟩⟩
      rw [Step.perform] at hgone
      rw [hgone] at hget'
      cases hget'
    obtain ⟨id, deadline, event, hp, rfl, hle⟩ := hdue
    obtain ⟨_, e', hget', hid⟩ := inv.held hp
    rw [hget, Option.some.injEq] at hget'
    refine ⟨t, id, deadline, event, rfl, hget' ▸ hid, rfl, hle, hp, ?_⟩
    intro deadline' event' hp'
    obtain ⟨hp', hlt⟩ := (hpolled.pending_iff id deadline' event').mp hp'
    rw [inv.queue_wellFormed.deadline_unique hp' hp] at hlt
    exact absurd hle (Nat.not_le.mpr hlt)

/-- An entry that was created just now has no timer. -/
theorem idle_of_insert (wf : fw.pit.WellFormed) {i : Interest} {pit : Pit}
    (hins : fw.pit.insert i = (h, true, pit)) (hget : pit.get? h = some e) : e.Idle := by
  cases hf : fw.pit.find? i.name with
  | some h' =>
    rw [Pit.insert_of_find? hf] at hins
    cases hins
  | none =>
    obtain ⟨h', pit', hins', c⟩ := Pit.insert_created wf hf
    rw [hins'] at hins
    cases hins
    rw [c.get?_self, Option.some.injEq] at hget
    rw [← hget]
    exact ⟨rfl, rfl⟩

/-! ## An empty table -/

/-- Once every timer has fired, nothing is left. -/
theorem isEmpty_pollTimers (inv : TimersHeld none fw.pit fw.timers) (s : Strategy) {t : Instant}
    (hlatest : ∀ id deadline event, fw.timers.Pending id deadline event → deadline ≤ t) :
    (fw.pollTimers s.hooks t).pit.isEmpty = true ∧
      (fw.pollTimers s.hooks t).timers.isEmpty = true := by
  have hpolled := polled_pollTimers inv s t
  have hqueue : ∀ id deadline event,
      ¬ (fw.pollTimers s.hooks t).timers.Pending id deadline event := by
    intro id deadline event hp
    obtain ⟨hp, hlt⟩ := (hpolled.pending_iff id deadline event).mp hp
    exact absurd (hlatest id deadline event hp) (Nat.not_le.mpr hlt)
  constructor
  · refine SortedMap.isEmpty_of_get?_eq_none fun n => ?_
    cases hf : (fw.pollTimers s.hooks t).pit.find? n with
    | none => exact hf
    | some h =>
      -- an entry that is left would hold a timer that is left
      obtain ⟨e, hget, _⟩ := hpolled.timersHeld.pit_wellFormed.exists_of_find? hf
      obtain ⟨id, deadline, hp⟩ : ∃ id deadline event,
          (fw.pollTimers s.hooks t).timers.Pending id deadline event := by
        cases hpolled.timersHeld.armed_of_get? hget with
        | waiting _ _ _ hp => exact ⟨_, _, _, hp⟩
        | closing _ _ _ hp => exact ⟨_, _, _, hp⟩
      obtain ⟨event, hp⟩ := hp
      exact absurd hp (hqueue id deadline event)
  · exact hpolled.timersHeld.queue_wellFormed.isEmpty_of_not_pending hqueue

/-- **Timers and entries belong together** in every reachable node. No entry is erased while it
holds a timer, be it at its end or because it was created by an Interest that loops: an entry
that was there before a step goes only when its own timer fires. Polling up to the latest
deadline leaves no entry and no timer. -/
theorem reachable_timersInOrder (hfw : Reachable fw) :
    fw.TimersInOrder ∧
    (∀ (s : Step) h e, fw.pit.get? h = some e → (s.perform fw).pit.get? h = none →
      ∃ t id deadline event, s.op = .poll t ∧ e.Holds id ∧ event.entry = h ∧ deadline ≤ t ∧
        fw.timers.Pending id deadline event ∧
        ∀ deadline' event', ¬ (s.perform fw).timers.Pending id deadline' event') ∧
    (∀ (fw' : Forwarder) h satisfied freshness e,
      ((fw'.recordDeadNonces h satisfied freshness none).cancelTimers h).pit.get? h = some e →
      e.Idle) ∧
    (∀ i h pit e, fw.pit.insert i = (h, true, pit) → pit.get? h = some e → e.Idle) ∧
    (∀ (s : ForwardingStrategy) t,
      (∀ id deadline event, fw.timers.Pending id deadline event → deadline ≤ t) →
      (fw.pollTimers s.hooks t).pit.isEmpty = true ∧
        (fw.pollTimers s.hooks t).timers.isEmpty = true) := by
  have inv := hfw.timersHeld
  refine ⟨timersInOrder_of_timersHeld inv, ?_, ?_, ?_, ?_⟩
  · exact fun s h e hget hgone => gone_of_perform hfw s hget hgone
  · exact fun fw' h satisfied freshness e hget => idle_of_get?_cancelTimers hget
  · exact fun i h pit e hins hget => idle_of_insert inv.pit_wellFormed hins hget
  · exact fun s t hlatest => isEmpty_pollTimers inv s.toStrategy hlatest

/-- A node with one face, where one request has come in. -/
def firstRequest : Forwarder :=
  (build {} (.cycle 0 []) 0).run
    [⟨.idle, .change (.addFace true 0)⟩,
      ⟨.idle, .interest ⟨256⟩ { name := ⟨[.ofChars ['a']]⟩, nonce := 5 }⟩]

theorem firstRequest_timersInOrder :
    firstRequest.TimersInOrder ∧ firstRequest.pit.isEmpty = false ∧
      firstRequest.timers.isEmpty = false := by
  have hfw : Reachable firstRequest := (Reachable.of_isNew (isNew_build _ _)).run _
  exact ⟨(reachable_timersInOrder hfw).1, by decide, by decide⟩

end NamedData.Forwarder
