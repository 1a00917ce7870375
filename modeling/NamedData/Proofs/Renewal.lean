import Mathlib.Data.List.Induction
import NamedData.Proofs.Retention

/-!
# Where a request comes from

A request on a live entry was left by an Interest that arrived, and a later Interest from the same
face takes its place. So the request tells what its face has sent last for the entry, and it can be
traced back over a run to the step in which that came in.

## Main definitions

* `Step.Renews`, an Interest becomes the request of its face on an entry
* `Forwarder.LastRenewal`, the last step of a run in which this happens

## Main statements

* `Forwarder.renewed_or_kept`: what a step does to a request
* `Forwarder.exists_lastRenewal`: every request has a last renewal
-/
namespace NamedData

/-- The Interest `i` arrives on the face `face`, which has the number `f`, and becomes its request
on the entry `h`. -/
def Step.Renews (f : FaceId) (h : Pit.Handle) (i : Interest) (face : Face) (s : Step)
    (fw : Forwarder) : Prop :=
  s.op = .interest f i ∧ ∃ pit e, fw.Accepted f i face h pit e

namespace Pit

variable {pit pit' : Pit} {h : Handle} {e : Entry} {r : InRecord}

theorem SameRequests.exists_mem_inRecords (hs : SameRequests pit pit')
    (hget : pit'.get? h = some e) (hr : r ∈ e.inRecords) :
    ∃ e', pit.get? h = some e' ∧ r ∈ e'.inRecords := by
  obtain ⟨e', hget', hdown⟩ := hs.symm.exists_get? hget
  rw [← Entry.inRecords_eq_of_downstream hdown] at hr
  exact ⟨e', hget', hr⟩

end Pit

namespace Forwarder

variable {fw : Forwarder} {h : Pit.Handle} {e : Pit.Entry} {f : FaceId} {i : Interest} {face : Face}
  {r : Pit.InRecord} {s : Step} {before later : List Step}

/-- The run comes to the step `s` after the steps `before`. In that step the Interest `i` becomes
the request that the face with the number `f` has on the entry `h`, and in the steps `later` none
takes its place. -/
structure LastRenewal (f : FaceId) (h : Pit.Handle) (i : Interest) (face : Face)
    (before : List Step) (s : Step) (later : List Step) (fw : Forwarder) : Prop where
  renews : s.Renews f h i face (fw.run before)
  last : Throughout (fun s fw => ∀ i face, ¬ s.Renews f h i face fw) later
    (s.perform (fw.run before))

/-! ## One step -/

/-- Data, timers, strategies and the owner leave no requests. -/
theorem exists_mem_inRecords_of_perform (hfw : Reachable fw) (hs : ∀ f i, s.op ≠ .interest f i)
    (hget : (s.perform fw).pit.get? h = some e) (hr : r ∈ e.inRecords) :
    ∃ e', fw.pit.get? h = some e' ∧ r ∈ e'.inRecords := by
  obtain ⟨strategy, op⟩ := s
  cases op with
  | interest f i => exact absurd rfl (hs f i)
  | data f d =>
    rcases get?_receiveData strategy.toStrategy f d fw h with heq | ⟨_, id, heq⟩
    · exact ⟨e, heq.symm.trans hget, hr⟩
    · -- an entry that is answered has no request left
      obtain ⟨e₀, _, rfl⟩ := Option.map_eq_some_iff.mp (heq.symm.trans hget)
      cases hr
  | poll t =>
    have hpolled := polled_pollTimers hfw.timersHeld strategy.toStrategy t
    exact ⟨e, ((hpolled.get?_iff h e).mp hget).1, hr⟩
  | send h' out newNonce =>
    exact (acted_sendInterest h' out newNonce fw).requests.exists_mem_inRecords hget hr
  | reject h' => exact (acted_rejectInterest h' fw).requests.exists_mem_inRecords hget hr
  | change c => exact ⟨e, (congrArg (Pit.get? · h) (kept_apply c fw).pit).symm.trans hget, hr⟩

theorem Accepted.nodup_faces {pit : Pit} {e₀ : Pit.Entry} (acc : Accepted fw f i face h pit e₀)
    (hfw : Reachable fw) : (e₀.inRecords.map Pit.InRecord.face).Nodup := by
  have hget := acc.get?
  cases acc.placed with
  | found _ _ => exact hfw.nodup_faces hget
  | created _ c =>
    rw [c.get?_self, Option.some.injEq] at hget
    rw [← hget]
    exact List.nodup_nil

/-- The entry of an accepted Interest has its request, and the requests of other faces that it had
before. -/
theorem Accepted.renewed_or_kept {pit : Pit} {e₀ : Pit.Entry}
    (acc : Accepted fw f i face h pit e₀) (hfw : Reachable fw) (strategy : ForwardingStrategy)
    (hget : (fw.receiveInterest strategy.hooks f i).pit.get? h = some e) (hr : r ∈ e.inRecords) :
    r = fw.requestBy f face.isLocal i ∨
      r.face ≠ f ∧ ∃ e', fw.pit.get? h = some e' ∧ r ∈ e'.inRecords := by
  obtain ⟨fw₁, id, _, _, hpit, _, heq⟩ := acc.exists_run strategy.toStrategy
  rw [heq] at hget
  obtain ⟨e₁, hget₁, hr⟩ :=
    (Plan.acted_run (strategy.forwards _ _ _) fw₁).requests.exists_mem_inRecords hget hr
  rw [hpit, Pit.get?_modify_self acc.get?, Option.some.injEq] at hget₁
  subst hget₁
  rcases (Pit.Entry.mem_receivedOn_iff (acc.nodup_faces hfw)).mp hr with hnew | ⟨hold, hother⟩
  · exact .inl (hnew.trans (acc.requestOf_eq hfw))
  · rw [hfw.id_eq_of_get? acc.registered] at hother
    exact .inr ⟨hother, e₀, acc.placed.get?_of_mem_inRecords acc.get? hold, hold⟩

/-- **What a step does to a request.** The request was left by the Interest that arrives, or it was
there before and the step leaves it alone. -/
theorem renewed_or_kept (hfw : Reachable fw) (s : Step)
    (hget : (s.perform fw).pit.get? h = some e) (hr : r ∈ e.inRecords) :
    (∃ i face, s.Renews r.face h i face fw ∧ r = fw.requestBy r.face face.isLocal i) ∨
      (∀ i face, ¬ s.Renews r.face h i face fw) ∧
        ∃ e', fw.pit.get? h = some e' ∧ r ∈ e'.inRecords := by
  by_cases hs : ∃ f i, s.op = .interest f i ∧ fw.Accepts f i h
  · obtain ⟨f, i, hop, face, pit, e₀, acc⟩ := hs
    simp only [Step.perform, hop] at hget
    rcases acc.renewed_or_kept hfw s.strategy hget hr with heq | ⟨hother, hkept⟩
    · obtain rfl : r.face = f := by rw [heq, requestBy]
      exact .inl ⟨i, face, ⟨hop, pit, e₀, acc⟩, heq⟩
    · refine .inr ⟨fun i' face' hrenews => hother ?_, hkept⟩
      exact (Op.interest.inj (hrenews.1.symm.trans hop)).1
  · refine .inr ⟨fun i face hrenews => hs ⟨_, i, hrenews.1, face, hrenews.2⟩, ?_⟩
    by_cases hinterest : ∃ f i, s.op = .interest f i
    · obtain ⟨f, i, hop⟩ := hinterest
      simp only [Step.perform, hop] at hget
      by_contra hnew
      exact hs ⟨f, i, hop, accepts_of_mem_inRecords hfw s.strategy hget hr
        fun e' hget' hr' => hnew ⟨e', hget', hr'⟩⟩
    · exact exists_mem_inRecords_of_perform hfw (fun f i hop => hinterest ⟨f, i, hop⟩) hget hr

theorem LastRenewal.concat (hlast : LastRenewal f h i face before s later fw) {s' : Step}
    (hs' : ∀ i face, ¬ s'.Renews f h i face (fw.run (before ++ s :: later))) :
    LastRenewal f h i face before s (later ++ [s']) fw where
  renews := hlast.renews
  last := by
    rw [run_append] at hs'
    exact throughout_append.mpr ⟨hlast.last, hs', trivial⟩

/-- **Every request has a last renewal.** It is what the Interest has left that arrived then. -/
theorem exists_lastRenewal (hnew : IsNew fw) (steps : List Step)
    (hget : (fw.run steps).pit.get? h = some e) (hr : r ∈ e.inRecords) :
    ∃ before s later i face, steps = before ++ s :: later ∧
      LastRenewal r.face h i face before s later fw ∧
      r = (fw.run before).requestBy r.face face.isLocal i := by
  induction steps using List.reverseRecOn generalizing e with
  | nil =>
    rw [run_nil, hnew.get?_eq_none] at hget
    cases hget
  | append_singleton steps s' ih =>
    have hfw := (Reachable.of_isNew hnew).run steps
    rw [run_append, run_cons, run_nil] at hget
    rcases renewed_or_kept hfw s' hget hr with ⟨i, face, hrenews, heq⟩ | ⟨hkept, e', hget', hr'⟩
    · exact ⟨steps, s', [], i, face, rfl, ⟨hrenews, trivial⟩, heq⟩
    · obtain ⟨before, s, later, i, face, rfl, hlast, heq⟩ := ih hget' hr'
      refine ⟨before, s, later ++ [s'], i, face, ?_, hlast.concat hkept, heq⟩
      rw [List.append_assoc, List.cons_append]

end Forwarder

end NamedData
