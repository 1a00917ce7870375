import NamedData.Proofs.CachedAnswer
import NamedData.Proofs.ContentStore.Replacement
import NamedData.Proofs.Forwarder.Polling

/-!
# How a node uses its content store

The pipeline works on the content store by the calls of the store, at most one in each step: an
Interest is looked up, Data is stored or its name is removed. So the store of a node is what calls
have made of a new one, as long as the owner of the node does not put anything else in its place.

## Main definitions

* `ContentStore.IsMade`, a store that calls have made
* `ContentStore.Use`, one call or none
* `Forwarder.Maintained`, a node whose owner leaves it a content store

## Main statements

* `Forwarder.use_perform`: what one step does to the store
* `Forwarder.Maintained.isMade_store`
* `ContentStore.IsMade.exists_entry_insert`: Data that was asked for is stored
-/
namespace NamedData

namespace ContentStore

variable {cs cs' : ContentStore}

/-- The store was new once, and has got some calls since. -/
def IsMade (cs : ContentStore) : Prop := ∃ capacity calls, cs = after capacity calls

/-- The store has got one call or none. -/
inductive Use (cs : ContentStore) : ContentStore → Prop
  | none : Use cs cs
  | call (c : Call) : Use cs (c.perform cs).2

namespace Use

theorem insert (cs : ContentStore) (d : Data) (unsolicited : Bool) (now : Instant) :
    Use cs (cs.insert d unsolicited now) :=
  .call (.insert d unsolicited now)

theorem find {i : Interest} {now : Instant} {d : Option Data}
    (hfind : cs.find i now = (d, cs')) : Use cs cs' := by
  have huse : Use cs (cs.find i now).2 := .call (.find i now)
  rwa [hfind] at huse

theorem erase (cs : ContentStore) (n : Name) : Use cs (cs.erase n) := .call (.erase n)

end Use

namespace IsMade

theorem withCapacity (capacity : Nat) : (withCapacity capacity).IsMade := ⟨capacity, [], rfl⟩

theorem use (hmade : cs.IsMade) (huse : cs.Use cs') : cs'.IsMade := by
  obtain ⟨capacity, calls, rfl⟩ := hmade
  cases huse with
  | none => exact ⟨capacity, calls, rfl⟩
  | call c => exact ⟨capacity, calls ++ [c], by rw [after, after, replay_concat]⟩

/-- Data is stored under its own name. -/
theorem name_eq (hmade : cs.IsMade) {n : Name} {c : Entry} (hget : cs.entries.get? n = some c) :
    c.data.name = n := by
  obtain ⟨capacity, calls, rfl⟩ := hmade
  obtain ⟨_, m, _⟩ := replay_mirrors capacity calls
  exact m.name_eq hget

end IsMade

end ContentStore

namespace Forwarder

variable {fw fw' : Forwarder} {h : Pit.Handle} {f : FaceId} {i : Interest} {d : Data}

/-! ## What a step does to the store -/

theorem Quiet.store (hq : Quiet fw fw') : fw'.store = fw.store := by rw [hq.eq_update]

theorem Outward.store (ho : Outward fw fw') : fw'.store = fw.store := by rw [ho]

theorem store_sendInterest (h : Pit.Handle) (out : FaceId) (newNonce : Bool) (fw : Forwarder) :
    (fw.sendInterest h out newNonce).store = fw.store := by
  rcases sendInterest_cases h out newNonce fw with hq | ⟨_, _, _, _, _, _, _, _, _, heq⟩
  · exact hq.store
  · rw [heq]
    rfl

theorem store_rejectInterest (h : Pit.Handle) (fw : Forwarder) :
    (fw.rejectInterest h).store = fw.store := by
  by_cases heff : fw.RejectTakesEffect h
  · exact (rescheduled_rejectInterest heff).store
  · exact (quiet_rejectInterest heff).store

theorem store_run {p : Plan} (hp : p.Forwards) (fw : Forwarder) : (p.run fw).store = fw.store :=
  Plan.run_induction (P := fun fw' => fw'.store = fw.store) hp
    (fun h out newNonce heq => (store_sendInterest h out newNonce _).trans heq)
    (fun h heq => (store_rejectInterest h _).trans heq) rfl

theorem store_finalize (h : Pit.Handle) (satisfied : Bool) (freshness : Option Millis)
    (fw : Forwarder) : (fw.finalize h satisfied freshness).store = fw.store := by
  cases hget : fw.pit.get? h with
  | none => rw [finalize, hget]
  | some e =>
    obtain ⟨deadNonces, heq⟩ := finalize_eq hget satisfied freshness
    rw [heq]

theorem store_handleTimer (s : Strategy) (id : TimerId) (event : TimerEvent) (fw : Forwarder) :
    (fw.handleTimer s.hooks id event).store = fw.store := by
  rcases handleTimer_cases s id event fw with heq | ⟨fw₁, _, _, hfw₁, heq⟩
  · rw [heq]
  · rw [heq, store_finalize, hfw₁]

theorem store_pollTimers (s : Strategy) (t : Instant) (fw : Forwarder) :
    (fw.pollTimers s.hooks t).store = fw.store := by
  have hfire : ∀ n, (fw.fireDue s.hooks t n).store = fw.store := by
    intro n
    induction n generalizing fw with
    | zero => rfl
    | succ n ih =>
      rw [fireDue]
      split
      · rfl
      · rw [ih, store_handleTimer]
  rw [pollTimers]
  exact hfire _

theorem store_enlist (face : Face) (i : Interest) (h : Pit.Handle) (fw : Forwarder) :
    (fw.enlist face i h).store = fw.store :=
  (rescheduled_armUnsatisfy h _).store

theorem store_answerFromStore (s : Strategy) (out : FaceId) (h : Pit.Handle) (d : Data)
    (fw : Forwarder) : (fw.answerFromStore s.hooks out h d).store = fw.store := by
  have hq := quiet_notifySatisfying s h ⟨.contentStore, d⟩ fw
  rw [answerFromStore, (outward_sendData _ _ _).store]
  split
  · exact (rescheduled_armUnsatisfy h _).store.trans hq.store
  · exact (rescheduled_armStraggler h _ _ _).store.trans hq.store

theorem use_receiveInterest (wf : fw.pit.WellFormed) (s : ForwardingStrategy) (f : FaceId)
    (i : Interest) : fw.store.Use (fw.receiveInterest s.hooks f i).store := by
  have harrival := arrival_receiveInterest wf s.hooks f i
  generalize fw.receiveInterest s.hooks f i = fw' at harrival
  cases harrival with
  | unknownFace | outOfScope | loop | newLoop => exact .none
  | registration =>
    rw [(outward_registerLocation _ _ _).store]
    exact .none
  | @accepted face h pit e fw₁ acc hquiet =>
    rw [receive_hooks, store_run (s.forwards _ _ _), (quiet_record rfl _).store, store_enlist,
      hquiet.store, store_openEntry]
    exact .none
  | answered _ _ _ hstore =>
    rw [store_answerFromStore]
    exact .find hstore

theorem store_keepAwaited (face : Face) (d : Data) (fw : Forwarder) :
    (fw.keepAwaited face d).store =
      if d.validation = true ∧ d.eligibility = false then fw.store
      else fw.store.insert d false fw.now := by
  unfold keepAwaited storeEligible storeData
  cases hvalidation : d.validation with
  | false => simp
  | true =>
    cases heligibility : d.eligibility with
    | false => simp
    | true =>
      simp only [and_self, if_true, and_false, Bool.true_eq_false, if_false]
      split <;> rfl

/-- **What arriving Data makes of the store.** Pushed Data is stored or removes what is stored. Of
other Data the store gets what is waited for, unless it belongs to a validation request and is not
eligible, and what comes from an application on the node. -/
theorem store_receiveData {face : Face} (hface : fw.faces.get? f = some face) (s : Strategy)
    (d : Data) :
    (fw.receiveData s.hooks f d).store =
      if d.IsPushed then fw.storeOfPushed d
      else if face.isLocal = false ∧ d.name.IsLocalhost then fw.store
      else if fw.pit.dataMatches d = [] then
        if face.isLocal then fw.store.insert d true fw.now else fw.store
      else if d.validation = true ∧ d.eligibility = false then fw.store
      else fw.store.insert d false fw.now := by
  rw [receiveData_of_face hface]
  split
  · obtain ⟨_, _, _, heq⟩ := receivePublishment_eq d (fw.count .inData)
    rw [heq]
    rfl
  · split
    · rfl
    · split
      · next hnil =>
        rw [if_pos hnil, receiveUnsolicited]
        split <;> rfl
      · next hne =>
        rw [if_neg (by simpa using hne), store_answer, store_keepAwaited]
        rfl

theorem use_receiveData (s : Strategy) (f : FaceId) (d : Data) (fw : Forwarder) :
    fw.store.Use (fw.receiveData s.hooks f d).store := by
  cases hface : fw.faces.get? f with
  | none =>
    rw [receiveData_of_unknownFace hface]
    exact .none
  | some face =>
    rw [store_receiveData hface]
    split
    · unfold storeOfPushed
      split
      · exact .erase _ _
      · exact .insert _ _ _ _
    · split
      · exact .none
      · split
        · split
          · exact .insert _ _ _ _
          · exact .none
        · split
          · exact .none
          · exact .insert _ _ _ _

/-- **A step calls the store once at most**, unless it is a change by the owner. -/
theorem use_perform (wf : fw.pit.WellFormed) {s : Step} (hs : ∀ c, s.op ≠ .change c) :
    fw.store.Use (s.perform fw).store := by
  obtain ⟨strategy, op⟩ := s
  cases op with
  | interest f i => exact use_receiveInterest wf strategy f i
  | data f d => exact use_receiveData strategy.toStrategy f d fw
  | poll t =>
    rw [Step.perform, store_pollTimers]
    exact .none
  | send h f newNonce =>
    rw [Step.perform, store_sendInterest]
    exact .none
  | reject h =>
    rw [Step.perform, store_rejectInterest]
    exact .none
  | change c => exact absurd rfl (hs c)

/-! ## Nodes in good hands -/

end Forwarder

/-- Where the owner changes the store, the result is a store again. -/
def Step.KeepsStore (s : Step) : Prop :=
  ∀ change, s.op = .change (.store change) → ∀ cs : ContentStore, cs.IsMade → (change cs).IsMade

namespace Forwarder

variable {fw : Forwarder} {s : Step}

/-- The node was new once, and what its owner has changed since has left it a content store. -/
def Maintained (fw : Forwarder) : Prop :=
  ∃ fw₀ steps, IsNew fw₀ ∧ (∀ s ∈ steps, s.KeepsStore) ∧ fw₀.run steps = fw

theorem isMade_store_of_isNew (hnew : IsNew fw) : fw.store.IsMade := by
  obtain ⟨c, nonces, observers, fib, rfl⟩ := hnew.exists_eq
  exact .withCapacity _

theorem isMade_store_perform (wf : fw.pit.WellFormed) (hmade : fw.store.IsMade)
    (hs : s.KeepsStore) : (s.perform fw).store.IsMade := by
  by_cases hchange : ∃ c, s.op = .change c
  · obtain ⟨c, hc⟩ := hchange
    rw [Step.perform, hc]
    cases c with
    | addFace | routes => exact hmade
    | reserveFace id isLocal link =>
      change ((fw.reserveFace id isLocal link).toOption.getD fw).store.IsMade
      rw [reserveFace_eq]
      exact hmade
    | removeFace id =>
      change (fw.removeFace id).store.IsMade
      unfold removeFace
      split
      · exact hmade
      · exact hmade
    | store change => exact hs change hc fw.store hmade
  · exact hmade.use (use_perform wf fun c hc => hchange ⟨c, hc⟩)

namespace Maintained

theorem reachable (hfw : Maintained fw) : Reachable fw := by
  obtain ⟨fw₀, steps, hnew, _, hrun⟩ := hfw
  exact ⟨fw₀, steps, hnew, hrun⟩

/-- **The store of a maintained node** is what calls have made of a new one. -/
theorem isMade_store (hfw : Maintained fw) : fw.store.IsMade := by
  obtain ⟨fw₀, steps, hnew, hsteps, rfl⟩ := hfw
  have hstart : Reachable fw₀ ∧ fw₀.store.IsMade := ⟨.of_isNew hnew, isMade_store_of_isNew hnew⟩
  clear hnew
  induction steps generalizing fw₀ with
  | nil => exact hstart.2
  | cons s rest ih =>
    obtain ⟨hs, hrest⟩ := List.forall_mem_cons.mp hsteps
    have wf := hstart.1.timersHeld.pit_wellFormed
    exact ih _ hrest ⟨hstart.1.perform s, isMade_store_perform wf hstart.2 hs⟩

end Maintained

end Forwarder

end NamedData
