import NamedData.Proofs.Run
import NamedData.Proofs.Forwarder.DeadNonces

/-!
# Loops after an entry has ended

An entry may end before a copy of the Interest that was sent out for it comes back. The nonces of
an entry that ends without an answer are remembered, so that the copy is dropped as a loop for as
long as the dead nonce list has the nonce. That is for the lifetime of the list, however the node
goes on, unless in that time as many other pairs are added as the list has room for.

## Main definitions

* `Forwarder.stamps`, what a run adds to the dead nonce list
* `Forwarder.DroppedAsLoop`
* `Forwarder.EndsUnsatisfied`

## Main statements

* `Forwarder.deadNonces_run`, `Forwarder.spans_run`: the additions of a run and their times
* `Forwarder.droppedAsLoop_of_endsUnsatisfied`
-/
namespace NamedData

open DeadNonceList (Stamp)

/-! ## Times of additions -/

namespace DeadNonceList

variable {stamps stamps' : List Stamp} {t t' t'' : Instant}

/-- The stamps are in the order of their times, from `t` to `t'`. -/
structure Spans (stamps : List Stamp) (t t' : Instant) : Prop where
  sorted : stamps.Pairwise fun s s' => s.time ≤ s'.time
  ge : ∀ s ∈ stamps, t ≤ s.time
  le : ∀ s ∈ stamps, s.time ≤ t'

namespace Spans

theorem nil (t t' : Instant) : Spans [] t t' := ⟨.nil, nofun, nofun⟩

theorem append (hs : Spans stamps t t') (hs' : Spans stamps' t' t'') (hle : t ≤ t')
    (hle' : t' ≤ t'') : Spans (stamps ++ stamps') t t'' where
  sorted := List.pairwise_append.mpr
    ⟨hs.sorted, hs'.sorted, fun _ hx _ hy => Nat.le_trans (hs.le _ hx) (hs'.ge _ hy)⟩
  ge s hx := (List.mem_append.mp hx).elim (hs.ge s) fun hx => Nat.le_trans hle (hs'.ge s hx)
  le s hx := (List.mem_append.mp hx).elim (fun hx => Nat.le_trans (hs.le s hx) hle') (hs'.le s)

/-- Stamps of one time are in order. -/
theorem of_time_eq (h : ∀ s ∈ stamps, s.time = t) : Spans stamps t t where
  sorted := List.pairwise_of_forall_mem_list fun s hx s' hy =>
    Nat.le_of_eq ((h s hx).trans (h s' hy).symm)
  ge s hx := Nat.le_of_eq (h s hx).symm
  le s hx := Nat.le_of_eq (h s hx)

end Spans

end DeadNonceList

/-! ## What a run adds -/

/-- What a step adds to the dead nonce list, in the order of the additions. -/
def Step.stamps (s : Step) (fw : Forwarder) : List Stamp :=
  match s.op with
  | .data f d => fw.answerStamps f d
  | .poll t => fw.expiryStamps t
  | .interest .. | .send .. | .reject _ | .change _ => []

namespace Forwarder

variable {fw fw' : Forwarder} {h : Pit.Handle} {e : Pit.Entry} {r : Pit.OutRecord} {t : Instant}
  {f : FaceId} {face : Face} {i : Interest}

theorem deadNonces_apply (c : Change) (fw : Forwarder) :
    (c.apply fw).deadNonces = fw.deadNonces := by
  cases c with
  | reserveFace id isLocal link =>
    change ((fw.reserveFace id isLocal link).toOption.getD fw).deadNonces = fw.deadNonces
    rw [reserveFace_eq]
  | removeFace id =>
    simp only [Change.apply, removeFace]
    split <;> rfl
  | addFace | routes | store => rfl

theorem deadNonces_perform (inv : TimersHeld none fw.pit fw.timers) (s : Step) :
    (s.perform fw).deadNonces = fw.deadNonces.addAll (s.stamps fw) := by
  obtain ⟨strategy, op⟩ := s
  cases op with
  | interest f i => exact deadNonces_receiveInterest inv.pit_wellFormed strategy.forwards f i
  | data f d => exact deadNonces_receiveData inv.pit_wellFormed strategy.toStrategy f d
  | poll t => exact deadNonces_pollTimers inv strategy.toStrategy t
  | send h f newNonce => exact deadNonces_sendInterest h f newNonce fw
  | reject h => exact deadNonces_rejectInterest h fw
  | change c => exact deadNonces_apply c fw

/-- What a run adds to the dead nonce list, in the order of the additions. -/
def stamps : List Step → Forwarder → List Stamp
  | [], _ => []
  | s :: rest, fw => s.stamps fw ++ stamps rest (s.perform fw)

theorem stamps_append (steps steps' : List Step) (fw : Forwarder) :
    fw.stamps (steps ++ steps') = fw.stamps steps ++ (fw.run steps).stamps steps' := by
  induction steps generalizing fw with
  | nil => rfl
  | cons s rest ih => rw [List.cons_append, stamps, ih, stamps, List.append_assoc, run_cons]

/-- A run adds its stamps to the dead nonce list one after the other, and nothing else. -/
theorem deadNonces_run (hfw : Reachable fw) (steps : List Step) :
    (fw.run steps).deadNonces = fw.deadNonces.addAll (fw.stamps steps) := by
  induction steps generalizing fw with
  | nil => rfl
  | cons s rest ih =>
    rw [run_cons, ih (hfw.perform s), deadNonces_perform hfw.timersHeld, stamps,
      DeadNonceList.addAll_append]

/-! ## When a run adds it -/

theorem time_of_mem_deadStamps {satisfied : Bool} {freshness : Option Millis}
    {answeredBy : Option FaceId} {s : Stamp}
    (hs : s ∈ fw.deadStamps h satisfied freshness answeredBy t) : s.time = t := by
  unfold deadStamps at hs
  split at hs
  · cases hs
  · split at hs
    · obtain ⟨_, _, rfl⟩ := List.mem_map.mp hs
      rfl
    · cases hs

theorem time_of_mem_endStamps {event : TimerEvent} {s : Stamp}
    (hs : s ∈ fw.endStamps event t) : s.time = t := by
  cases event <;> exact time_of_mem_deadStamps hs

theorem spans_answerStamps (f : FaceId) (d : Data) (fw : Forwarder) :
    DeadNonceList.Spans (fw.answerStamps f d) fw.now fw.now := by
  refine .of_time_eq fun s hs => ?_
  unfold answerStamps at hs
  split at hs
  · obtain ⟨_, _, hs⟩ := List.mem_flatMap.mp hs
    exact time_of_mem_deadStamps hs
  · cases hs

theorem spans_expiryStamps (inv : TimersHeld none fw.pit fw.timers) (t : Instant) :
    DeadNonceList.Spans (fw.expiryStamps t) fw.now (max fw.now t) := by
  constructor
  case sorted =>
    refine List.pairwise_flatMap.mpr ⟨fun b _ => ?_, ?_⟩
    · exact (DeadNonceList.Spans.of_time_eq fun s hs => time_of_mem_endStamps hs).sorted
    · refine (TimerQueue.sorted_dueBy fw.timers t).imp fun hle x hx y hy => ?_
      rw [time_of_mem_endStamps hx, time_of_mem_endStamps hy]
      exact hle
  case ge =>
    intro s hs
    obtain ⟨b, hb, hs⟩ := List.mem_flatMap.mp hs
    rw [time_of_mem_endStamps hs]
    exact inv.queue_wellFormed.now_le (TimerQueue.mem_dueBy.mp hb).1
  case le =>
    intro s hs
    obtain ⟨b, hb, hs⟩ := List.mem_flatMap.mp hs
    rw [time_of_mem_endStamps hs]
    exact Nat.le_trans (TimerQueue.mem_dueBy.mp hb).2 (Nat.le_max_right _ _)

theorem spans_stamps (inv : TimersHeld none fw.pit fw.timers) (s : Step) :
    DeadNonceList.Spans (s.stamps fw) fw.now (s.perform fw).now := by
  rw [now_perform inv]
  obtain ⟨strategy, op⟩ := s
  cases op with
  | data f d => exact spans_answerStamps f d fw
  | poll t => exact spans_expiryStamps inv t
  | interest | send | reject | change => exact .nil _ _

/-- A run adds to the dead nonce list in the order of time. -/
theorem spans_run (hfw : Reachable fw) (steps : List Step) :
    DeadNonceList.Spans (fw.stamps steps) fw.now (fw.run steps).now := by
  induction steps generalizing fw with
  | nil => exact .nil _ _
  | cons s rest ih =>
    have hnext := hfw.perform s
    exact (spans_stamps hfw.timersHeld s).append (ih hnext) (now_le_perform hfw.timersHeld s)
      (now_le_run hnext rest)

/-- The pairs that a run adds to the dead nonce list from the time `t` on. Those that were added
at `t` all count: a pair that is added once more at one time keeps its place in the list, so that
the others may have come after it. -/
def pairsSince (t : Instant) (steps : List Step) (fw : Forwarder) : Finset (Name × Nonce) :=
  (((fw.stamps steps).filter fun s => t ≤ s.time).map Stamp.pair).toFinset

theorem mem_pairsSince {p : Name × Nonce} {steps : List Step} :
    p ∈ fw.pairsSince t steps ↔ ∃ s ∈ fw.stamps steps, t ≤ s.time ∧ s.pair = p := by
  simp [pairsSince, and_assoc]

/-- **A pair that a new node adds to its dead nonce list stays there for the lifetime of the list**,
unless it adds as many other pairs from then on as the list has room for. -/
theorem has_of_mem_stamps (hnew : IsNew fw) {steps : List Step} {s : Stamp}
    (hs : s ∈ fw.stamps steps) (hlate : (fw.run steps).now < s.time + fw.deadNonces.lifetime)
    (hfew : ((fw.pairsSince s.time steps).erase s.pair).card < fw.deadNonces.capacity) :
    (fw.run steps).deadNonces.Has s.name s.nonce (fw.run steps).now := by
  have hfw := Reachable.of_isNew hnew
  have hspans := spans_run hfw steps
  have hempty : fw.deadNonces =
      { lifetime := fw.deadNonces.lifetime, capacity := fw.deadNonces.capacity } := by
    obtain ⟨c, nonces, observers, fib, rfl⟩ := hnew.exists_eq
    rfl
  rw [deadNonces_run hfw, hempty]
  refine DeadNonceList.has_addAll hspans.sorted hs hspans.le hlate hfew fun s' hs' ht hne => ?_
  exact Finset.mem_erase.mpr ⟨hne, mem_pairsSince.mpr ⟨s', hs', ht, rfl⟩⟩

/-! ## Loops -/

/-- The Interest was counted as a loop, and nothing else has come of it: nothing was sent, no
strategy was told, and the entries and their timers are as before. -/
structure DroppedAsLoop (fw fw' : Forwarder) : Prop where
  eq_update : fw' = { fw with
    pit := fw'.pit
    counters := (fw.counters.increment .inInterests).increment .interestLoops }
  get? : ∀ h, fw'.pit.get? h = fw.pit.get? h
  find? : ∀ n, fw'.pit.find? n = fw.pit.find? n

/-- Every Interest that loops is dropped. -/
theorem droppedAsLoop_receiveInterest (wf : fw.pit.WellFormed) (hooks : Hooks)
    (hface : fw.faces.get? f = some face) (hreg : i.locationRegistration = false)
    (hscope : ¬ (face.isLocal = false ∧ i.name.IsLocalhost)) (hloop : fw.IsLoop f i) :
    DroppedAsLoop fw (fw.receiveInterest hooks f i) := by
  have harrival := arrival_receiveInterest wf hooks f i
  generalize fw.receiveInterest hooks f i = fw' at harrival
  cases harrival with
  | unknownFace hnone =>
    rw [hface] at hnone
    cases hnone
  | registration _ hreg' =>
    rw [hreg] at hreg'
    cases hreg'
  | outOfScope hface' _ hscope' =>
    obtain rfl := Option.some.inj (hface.symm.trans hface')
    exact absurd hscope' hscope
  | loop => exact ⟨rfl, fun _ => rfl, fun _ => rfl⟩
  | newLoop _ c => exact ⟨rfl, c.get?_erase, c.find?_erase⟩
  | accepted acc => exact absurd hloop acc.notLoop
  | answered _ hloop' => exact absurd hloop hloop'

/-- The entry ends at `t` without an answer: either its requests will all have expired then, or it
was given up and its grace period will be over. -/
def EndsUnsatisfied (fw : Forwarder) (h : Pit.Handle) (t : Instant) : Prop :=
  ∃ id event, fw.timers.Pending id t event ∧
    (event = .unsatisfy h ∨ ∃ freshness, event = .straggler h false freshness)

theorem mem_expiryStamps (hget : fw.pit.get? h = some e) (hr : r ∈ e.outRecords)
    (hends : fw.EndsUnsatisfied h t) {t' : Instant} (hdue : t ≤ t') :
    ⟨t, e.name, r.lastNonce⟩ ∈ fw.expiryStamps t' := by
  obtain ⟨id, event, hp, hevent⟩ := hends
  refine List.mem_flatMap.mpr ⟨(⟨t, id⟩, event), TimerQueue.mem_dueBy.mpr ⟨hp, hdue⟩, ?_⟩
  have hdead : ∀ freshness, ⟨t, e.name, r.lastNonce⟩ ∈ fw.deadStamps h false freshness none t := by
    intro freshness
    have hneeds : fw.NeedsDeadNonces e false freshness := .inl rfl
    simp only [deadStamps, hget, if_pos hneeds]
    refine List.mem_map.mpr ⟨r, List.mem_filter.mpr ⟨hr, ?_⟩, rfl⟩
    simp
  rcases hevent with rfl | ⟨freshness, rfl⟩
  · exact hdead none
  · exact hdead freshness

/-- The entry is gone once the time has come. -/
theorem EndsUnsatisfied.get?_eq_none (inv : TimersHeld none fw.pit fw.timers)
    (hends : fw.EndsUnsatisfied h t) (s : Strategy) {t' : Instant} (hdue : t ≤ t') :
    (fw.pollTimers s.hooks t').pit.get? h = none := by
  obtain ⟨id, event, hp, hevent⟩ := hends
  have hentry : event.entry = h := by
    rcases hevent with rfl | ⟨_, rfl⟩ <;> rfl
  cases hget : (fw.pollTimers s.hooks t').pit.get? h with
  | none => rfl
  | some e =>
    have hstays := (((polled_pollTimers inv s t').get?_iff h e).mp hget).2
    exact absurd (hstays _ _ _ hp hentry) (Nat.not_lt.mpr hdue)

/-- **A copy of an Interest that was sent out is dropped as a loop after its entry has ended.** A
new node has come to an entry `e`, which ends at the time `t` without an answer. The node polls
its timers then or later, so that the entry is gone, and goes on in any way. Until the lifetime
of the dead nonce list after `t` is over, and while fewer other pairs than the list has room for
were added from `t` on, every Interest with the name of the entry and a nonce that was sent out
for it is dropped. -/
theorem droppedAsLoop_of_endsUnsatisfied {fw₀ : Forwarder} {past later : List Step}
    {s : ForwardingStrategy} {t' : Instant} (hnew : IsNew fw₀)
    (hget : (fw₀.run past).pit.get? h = some e) (hr : r ∈ e.outRecords)
    (hends : (fw₀.run past).EndsUnsatisfied h t) (hdue : t ≤ t')
    (hrun : fw₀.run (past ++ ⟨s, .poll t'⟩ :: later) = fw)
    (hlate : fw.now < t + fw₀.deadNonces.lifetime)
    (hfew : ((fw₀.pairsSince t (past ++ ⟨s, .poll t'⟩ :: later)).erase
      (e.name, r.lastNonce)).card < fw₀.deadNonces.capacity)
    (hface : fw.faces.get? f = some face) (hreg : i.locationRegistration = false)
    (hscope : ¬ (face.isLocal = false ∧ i.name.IsLocalhost))
    (hname : i.name = e.name) (hnonce : i.nonce = r.lastNonce) (hooks : Hooks) :
    ((⟨s, .poll t'⟩ : Step).perform (fw₀.run past)).pit.get? h = none ∧
      DroppedAsLoop fw (fw.receiveInterest hooks f i) := by
  have hpast : Reachable (fw₀.run past) := (Reachable.of_isNew hnew).run past
  have hfw : Reachable fw := ⟨fw₀, _, hnew, hrun⟩
  have hmem : ⟨t, e.name, r.lastNonce⟩ ∈ fw₀.stamps (past ++ ⟨s, .poll t'⟩ :: later) := by
    rw [stamps_append, List.mem_append, stamps, List.mem_append]
    exact .inr (.inl (mem_expiryStamps hget hr hends hdue))
  have hloop : fw.IsLoop f i := by
    right
    subst hrun
    rw [hname, hnonce]
    exact has_of_mem_stamps hnew hmem hlate hfew
  exact ⟨hends.get?_eq_none hpast.timersHeld s.toStrategy hdue,
    droppedAsLoop_receiveInterest hfw.timersHeld.pit_wellFormed hooks hface hreg hscope hloop⟩

/-- A request is sent on to another node, which does not answer. -/
def unanswered : List Step :=
  [⟨.idle, .change (.addFace true 0)⟩, ⟨.idle, .change (.addFace false 1)⟩,
    ⟨.idle, .change (.routes (·.addNextHop .root ⟨257⟩ 1))⟩,
    ⟨.bestRoute, .interest ⟨256⟩ { name := ⟨[.ofChars ['a']]⟩, nonce := 5 }⟩]

/-- The entry has ended after four seconds. Five seconds later the request comes back. -/
theorem unanswered_droppedAsLoop :
    DroppedAsLoop
      ((build {} (.cycle 0 []) 0).run (unanswered ++ [⟨.idle, .poll 4000⟩, ⟨.idle, .poll 9000⟩]))
      (((build {} (.cycle 0 []) 0).run
          (unanswered ++ [⟨.idle, .poll 4000⟩, ⟨.idle, .poll 9000⟩])).receiveInterest
        ForwardingStrategy.idle.hooks ⟨257⟩ { name := ⟨[.ofChars ['a']]⟩, nonce := 5 }) := by
  have hasked : (((build {} (.cycle 0 []) 0).run unanswered).pit.get? ⟨0, 0⟩).any (fun e =>
      e.name = ⟨[.ofChars ['a']]⟩ ∧ e.outRecords.any (·.lastNonce = 5)) = true := by decide
  obtain ⟨e, hget, he⟩ := (Option.any_eq_true _ _).mp hasked
  obtain ⟨hname, hout⟩ := of_decide_eq_true he
  obtain ⟨r, hr, hnonce⟩ := List.any_eq_true.mp hout
  have hnonce := of_decide_eq_true hnonce
  have hdue : (⟨4000, 0⟩, .unsatisfy ⟨0, 0⟩) ∈
      ((build {} (.cycle 0 []) 0).run unanswered).timers.dueBy 4000 := by decide
  have hends : ((build {} (.cycle 0 []) 0).run unanswered).EndsUnsatisfied ⟨0, 0⟩ 4000 :=
    ⟨_, _, (TimerQueue.mem_dueBy.mp hdue).1, .inl rfl⟩
  have hfew : (((build {} (.cycle 0 []) 0).pairsSince 4000
      (unanswered ++ [⟨.idle, .poll 4000⟩, ⟨.idle, .poll 9000⟩])).erase
        (⟨[.ofChars ['a']]⟩, 5)).card < 65536 := by decide
  rw [← hname, ← hnonce] at hfew
  have hface : ((build {} (.cycle 0 []) 0).run
      (unanswered ++ [⟨.idle, .poll 4000⟩, ⟨.idle, .poll 9000⟩])).faces.get? ⟨257⟩ =
        some ⟨⟨257⟩, false, 1⟩ := by decide
  exact (droppedAsLoop_of_endsUnsatisfied (isNew_build _ _) hget hr hends (Nat.le_refl _) rfl
    (by decide) hfew hface rfl (by decide) hname.symm hnonce.symm _).2

end Forwarder

end NamedData
