import NamedData.Proofs.Run

/-!
# Properties that every entry has

A property of the downstream side of an entry that new entries have, and that requests
which join keep, holds of every live entry of a reachable node.

## Main definitions

* `Pit.All`, `Pit.Entry.Stable`

## Main statements

* `Forwarder.Reachable.entries`: a stable property holds of every live entry
* `Forwarder.Reachable.name_eq`: the requests of an entry bear its name
* `Forwarder.Reachable.locationRegistration_eq`: none of them is a location registration
* `Forwarder.Reachable.defaultLifetime_eq`: entries apply the default lifetime of the node
* `Forwarder.Reachable.nodup_faces`: no face has two requests on an entry
-/
namespace NamedData

/-- The property `P` holds of every live entry. -/
def Pit.All (P : Pit.Entry → Prop) (pit : Pit) : Prop := ∀ h e, pit.get? h = some e → P e

/-- What every step keeps: `P` is about the downstream side, holds of new entries under the
default lifetime `lifetime`, and survives requests that join and Data that answers. A request
bears the name of its entry and is no location registration. -/
structure Pit.Entry.Stable (lifetime : Millis) (P : Pit.Entry → Prop) : Prop where
  congr : ∀ {e e'}, e'.downstream = e.downstream → P e → P e'
  fresh : ∀ i serial, P { interest := i, defaultLifetime := lifetime, serial }
  received : ∀ {e} f isLocal i now, i.name = e.name → i.locationRegistration = false → P e →
    P (e.receivedOn f isLocal i now)
  cleared : ∀ {e}, P e → P e.deleteInRecords

namespace Pit

variable {P : Entry → Prop} {lifetime : Millis} {pit pit' : Pit} {h : Handle} {i : Interest}

theorem All.of_sameRequests (hall : pit.All P) (st : Entry.Stable lifetime P)
    (hs : SameRequests pit pit') : pit'.All P := by
  intro h e' hget'
  obtain ⟨e, hget, hdown⟩ := hs.symm.exists_get? hget'
  exact st.congr hdown.symm (hall h e hget)

theorem All.of_noneNew (hall : pit.All P)
    (hsub : ∀ h e, pit'.get? h = some e → pit.get? h = some e) : pit'.All P :=
  fun h e hget => hall h e (hsub h e hget)

theorem All.modify {g : Entry → Entry} (hall : pit.All P)
    (hg : ∀ e, pit.get? h = some e → P e → P (g e)) : (pit.modify h g).All P := by
  intro h' e' hget'
  rw [get?_modify] at hget'
  split at hget'
  · obtain ⟨e, hget, rfl⟩ := Option.map_eq_some_iff.mp hget'
    exact hg e hget (hall h e hget)
  · exact hall h' e' hget'

theorem All.placed (hall : pit.All P) (st : Entry.Stable pit.defaultLifetime P)
    (hplaced : Placed pit i h pit') : pit'.All P := by
  cases hplaced with
  | found _ _ => exact hall
  | created _ c =>
    intro h' e' hget'
    rw [c.get?_eq] at hget'
    split at hget'
    · rw [← Option.some.inj hget']
      exact st.fresh i pit.nextSerial
    · exact hall h' e' hget'

end Pit

namespace Forwarder

variable {fw fw' : Forwarder} {P : Pit.Entry → Prop} {f : FaceId} {i : Interest} {face : Face}
  {h : Pit.Handle} {pit : Pit} {e : Pit.Entry}

/-- An Interest is placed with the entry of its name. -/
theorem Admitted.name_eq (adm : Admitted fw f i face h pit e) (wf : fw.pit.WellFormed) :
    e.name = i.name := by
  have hget := adm.get?
  rw [← Interest.name_arrivedOn i f]
  cases adm.placed with
  | found _ hf =>
    obtain ⟨e', hget', hname⟩ := wf.exists_of_find? hf
    rw [hget, Option.some.injEq] at hget'
    rw [hget', hname]
  | created _ c =>
    rw [c.get?_self, Option.some.injEq] at hget
    rw [← hget]
    rfl

theorem all_receiveInterest (wf : fw.pit.WellFormed) (hall : fw.pit.All P)
    (st : Pit.Entry.Stable fw.pit.defaultLifetime P) {s : Strategy}
    (hs : ∀ i route h, (s.receive i route h).Forwards) (f : FaceId) (i : Interest) :
    (fw.receiveInterest s.hooks f i).pit.All P := by
  have houtcome := interestOutcome_receiveInterest wf s f i
  generalize fw.receiveInterest s.hooks f i = fw' at houtcome
  cases houtcome with
  | aside _ hget => exact hall.of_noneNew fun h e hget' => (hget h).symm.trans hget'
  | accepted acc _ _ hpit =>
    refine Pit.All.of_sameRequests ?_ st (Plan.acted_run (hs _ _ _) _).requests
    rw [hpit]
    refine (hall.placed st acc.placed).modify fun e' hget' he' => ?_
    rw [acc.get?, Option.some.injEq] at hget'
    subst hget'
    refine st.congr (Pit.Entry.downstream_armedUnsatisfy _) ?_
    refine st.received _ _ _ _ ?_ ?_ (st.congr Pit.Entry.downstream_unarmed he')
    · rw [Interest.name_arrivedOn]
      exact (acc.name_eq wf).symm
    · rw [Interest.locationRegistration_arrivedOn]
      exact acc.request
  | answered adm _ _ _ hpit hdown =>
    rw [hpit]
    exact (hall.placed st adm.placed).modify fun e' _ he' => st.congr (hdown e') he'

theorem all_receiveData (hall : fw.pit.All P) {lifetime : Millis}
    (st : Pit.Entry.Stable lifetime P) (s : Strategy) (f : FaceId) (d : Data) :
    (fw.receiveData s.hooks f d).pit.All P := by
  intro h e' hget'
  rcases get?_receiveData s f d fw h with heq | ⟨_, id, heq⟩
  · exact hall h e' (heq.symm.trans hget')
  · obtain ⟨e, hget, rfl⟩ := Option.map_eq_some_iff.mp (heq.symm.trans hget')
    exact st.congr (Pit.Entry.downstream_satisfied e f id) (st.cleared (hall h e hget))

/-- The node keeps its default lifetime. -/
theorem defaultLifetime_perform (inv : TimersHeld none fw.pit fw.timers) (s : Step) :
    (s.perform fw).pit.defaultLifetime = fw.pit.defaultLifetime := by
  by_cases hs : ∃ c, s.op = .change c
  · obtain ⟨c, hc⟩ := hs
    rw [Step.perform, hc]
    exact congrArg Pit.defaultLifetime (kept_apply c fw).pit
  · exact (sameSetup_perform inv fun c hc => hs ⟨c, hc⟩).defaultLifetime

theorem all_perform (inv : TimersHeld none fw.pit fw.timers) (hall : fw.pit.All P)
    (st : Pit.Entry.Stable fw.pit.defaultLifetime P) (s : Step) : (s.perform fw).pit.All P := by
  obtain ⟨strategy, op⟩ := s
  cases op with
  | interest f i => exact all_receiveInterest inv.pit_wellFormed hall st strategy.forwards f i
  | data f d => exact all_receiveData hall st strategy.toStrategy f d
  | poll t =>
    have hpolled := polled_pollTimers inv strategy.toStrategy t
    exact hall.of_noneNew fun h e hget => ((hpolled.get?_iff h e).mp hget).1
  | send h f newNonce =>
    exact hall.of_sameRequests st (acted_sendInterest h f newNonce fw).requests
  | reject h => exact hall.of_sameRequests st (acted_rejectInterest h fw).requests
  | change c =>
    rw [Step.perform, (kept_apply c fw).pit]
    exact hall

/-- **A stable property holds of every live entry.** It may mention the default lifetime of the
node. -/
theorem Reachable.entries (hfw : Reachable fw) (P : Millis → Pit.Entry → Prop)
    (hst : ∀ lifetime, Pit.Entry.Stable lifetime (P lifetime)) :
    fw.pit.All (P fw.pit.defaultLifetime) := by
  refine hfw.induction (P := fun fw => fw.pit.All (P fw.pit.defaultLifetime)) ?_ ?_
  · intro fw hnew h e hget
    rw [hnew.get?_eq_none] at hget
    cases hget
  · intro fw s hfw hall
    have inv := hfw.timersHeld
    rw [defaultLifetime_perform inv s]
    exact all_perform inv hall (hst _) s

/-- Entries apply the default lifetime of the node. -/
theorem Reachable.defaultLifetime_eq (hfw : Reachable fw) (hget : fw.pit.get? h = some e) :
    e.defaultLifetime = fw.pit.defaultLifetime := by
  refine hfw.entries (fun lifetime e => e.defaultLifetime = lifetime) ?_ h e hget
  intro lifetime
  constructor
  case congr => exact fun hdown he => (congrArg Pit.Entry.defaultLifetime hdown :).trans he
  case fresh => exact fun _ _ => rfl
  case received => exact fun _ _ _ _ _ _ he => he
  case cleared => exact fun he => he

/-- The requests of an entry bear its name. -/
theorem Reachable.name_eq (hfw : Reachable fw) (hget : fw.pit.get? h = some e)
    {r : Pit.InRecord} (hr : r ∈ e.inRecords) : r.interest.name = e.name := by
  refine hfw.entries (fun _ e => ∀ r ∈ e.inRecords, r.interest.name = e.name) ?_ h e hget r hr
  intro _
  constructor
  case congr =>
    intro e e' hdown he r hr
    rw [Pit.Entry.inRecords_eq_of_downstream hdown] at hr
    rw [he r hr, Pit.Entry.name, Pit.Entry.name, Pit.Entry.interest_eq_of_downstream hdown]
  case fresh => simp
  case received =>
    intro e f isLocal i now hname _ he r hr
    rcases Pit.Entry.mem_receivedOn hr with rfl | hr
    · exact hname
    · exact he r hr
  case cleared => simp [Pit.Entry.deleteInRecords]

/-- No request of an entry is a location registration. -/
theorem Reachable.locationRegistration_eq (hfw : Reachable fw) (hget : fw.pit.get? h = some e)
    {r : Pit.InRecord} (hr : r ∈ e.inRecords) : r.interest.locationRegistration = false := by
  refine hfw.entries (fun _ e => ∀ r ∈ e.inRecords, r.interest.locationRegistration = false) ?_
    h e hget r hr
  intro _
  constructor
  case congr =>
    intro e e' hdown he r hr
    rw [Pit.Entry.inRecords_eq_of_downstream hdown] at hr
    exact he r hr
  case fresh => simp
  case received =>
    intro e f isLocal i now _ hreg he r hr
    rcases Pit.Entry.mem_receivedOn hr with rfl | hr
    · exact hreg
    · exact he r hr
  case cleared => simp [Pit.Entry.deleteInRecords]

/-- No face has two requests on an entry. -/
theorem Reachable.nodup_faces (hfw : Reachable fw) (hget : fw.pit.get? h = some e) :
    (e.inRecords.map Pit.InRecord.face).Nodup := by
  refine hfw.entries (fun _ e => (e.inRecords.map Pit.InRecord.face).Nodup) ?_ h e hget
  intro _
  constructor
  case congr =>
    intro e e' hdown he
    rwa [Pit.Entry.inRecords_eq_of_downstream hdown]
  case fresh => exact fun _ _ => List.nodup_nil
  case received => exact fun _ _ _ _ _ _ he => Pit.nodup_refresh he
  case cleared => exact fun _ => List.nodup_nil

end Forwarder

end NamedData
