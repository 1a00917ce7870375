import NamedData.Proofs.DeadNonceList.Memory
import NamedData.Proofs.Forwarder.Expiry
import NamedData.Proofs.Forwarder.GracePeriod

/-!
# What goes onto the dead nonce list

Two things add to the dead nonce list. A timer that fires leaves the nonces that were sent out
for its entry, and Data that answers an entry leaves the nonce that was sent where the Data came
from, each of them only where it is needed. What is added is written down here as a list of
stamps, in the order of their addition.

## Main definitions

* `Forwarder.deadStamps`, what one entry leaves
* `Forwarder.expiryStamps`, what the timers due by a time leave
* `Forwarder.answerStamps`, what Data leaves

## Main statements

* `Forwarder.deadNonces_pollTimers`
* `Forwarder.deadNonces_receiveData`
* `Forwarder.deadNonces_receiveInterest`: Interests leave the list alone
-/
namespace NamedData.Forwarder

open DeadNonceList (Stamp)

variable {fw fw' : Forwarder} {h : Pit.Handle} {e e' : Pit.Entry} {id : TimerId}
  {event : TimerEvent} {t : Instant}

/-! ## Parts of the pipeline that leave the list alone -/

theorem Quiet.deadNonces (hq : Quiet fw fw') : fw'.deadNonces = fw.deadNonces := by
  rw [hq.eq_update]

theorem Outward.deadNonces (ho : Outward fw fw') : fw'.deadNonces = fw.deadNonces := by rw [ho]

theorem deadNonces_sendInterest (h : Pit.Handle) (out : FaceId) (newNonce : Bool)
    (fw : Forwarder) : (fw.sendInterest h out newNonce).deadNonces = fw.deadNonces := by
  rcases sendInterest_cases h out newNonce fw with
    hq | ⟨_, _, _, _, _, _, _, _, _, heq⟩
  · exact hq.deadNonces
  · rw [heq]
    rfl

theorem deadNonces_rejectInterest (h : Pit.Handle) (fw : Forwarder) :
    (fw.rejectInterest h).deadNonces = fw.deadNonces := by
  by_cases heff : fw.RejectTakesEffect h
  · exact (rescheduled_rejectInterest heff).deadNonces
  · exact (quiet_rejectInterest heff).deadNonces

theorem Plan.deadNonces_run {p : Plan} (hp : p.Forwards) (fw : Forwarder) :
    (p.run fw).deadNonces = fw.deadNonces := by
  refine Plan.run_induction (P := fun fw' => fw'.deadNonces = fw.deadNonces) hp ?_ ?_ rfl
  · exact fun h out newNonce heq => (deadNonces_sendInterest h out newNonce _).trans heq
  · exact fun h heq => (deadNonces_rejectInterest h _).trans heq

theorem deadNonces_answerFromStore (s : Strategy) (f : FaceId) (h : Pit.Handle) (d : Data)
    (fw : Forwarder) : (fw.answerFromStore s.hooks f h d).deadNonces = fw.deadNonces := by
  have hq := quiet_notifySatisfying s h ⟨.contentStore, d⟩ fw
  unfold answerFromStore
  rw [(outward_sendData _ _ _).deadNonces]
  split
  · exact (rescheduled_armUnsatisfy h _).deadNonces.trans hq.deadNonces
  · exact (rescheduled_armStraggler h _ _ _).deadNonces.trans hq.deadNonces

theorem deadNonces_openEntry (pit : Pit) (h : Pit.Handle) (fw : Forwarder) :
    (fw.openEntry pit h).deadNonces = fw.deadNonces :=
  (rescheduled_cancelTimers h _).deadNonces

/-- **Interests leave the dead nonce list alone.** -/
theorem deadNonces_receiveInterest (wf : fw.pit.WellFormed) {s : Strategy}
    (hs : ∀ i route h, (s.receive i route h).Forwards) (f : FaceId) (i : Interest) :
    (fw.receiveInterest s.hooks f i).deadNonces = fw.deadNonces := by
  have harrival := arrival_receiveInterest wf s.hooks f i
  generalize fw.receiveInterest s.hooks f i = fw' at harrival
  cases harrival with
  | unknownFace | outOfScope | loop | newLoop => rfl
  | registration => exact (outward_registerLocation _ _ _).deadNonces
  | accepted _ hq =>
    rw [receive_hooks, Plan.deadNonces_run (hs _ _ _)]
    exact (rescheduled_armUnsatisfy _ _).deadNonces.trans
      (hq.deadNonces.trans (deadNonces_openEntry _ _ fw))
  | answered =>
    rw [deadNonces_answerFromStore]
    exact deadNonces_openEntry _ _ fw

/-! ## What one entry leaves -/

/-- The stamps that the entry `h` leaves on the dead nonce list, if it ends or is answered at
`now`. If a face answered, there is only the one for that face. -/
def deadStamps (h : Pit.Handle) (satisfied : Bool) (freshness : Option Millis)
    (answeredBy : Option FaceId) (now : Instant) (fw : Forwarder) : List Stamp :=
  match fw.pit.get? h with
  | none => []
  | some e =>
    if fw.NeedsDeadNonces e satisfied freshness then
      (e.outRecords.filter fun r => ∀ face ∈ answeredBy, face = r.face).map fun r =>
        ⟨now, e.name, r.lastNonce⟩
    else []

theorem recordDeadNonces_eq_addAll (h : Pit.Handle) (satisfied : Bool)
    (freshness : Option Millis) (answeredBy : Option FaceId) (fw : Forwarder) :
    (fw.recordDeadNonces h satisfied freshness answeredBy).deadNonces =
      fw.deadNonces.addAll (fw.deadStamps h satisfied freshness answeredBy fw.now) := by
  unfold recordDeadNonces deadStamps
  cases fw.pit.get? h with
  | none => rfl
  | some e =>
    dsimp only
    split
    · rw [DeadNonceList.addAll, List.foldl_map]
    · rfl

/-- What an entry leaves does not depend on its timers or on its requests. -/
theorem deadStamps_congr (hget : fw.pit.get? h = some e) (hget' : fw'.pit.get? h = some e')
    (hinterest : e'.interest = e.interest) (hout : e'.outRecords = e.outRecords)
    (hlifetime : fw'.deadNonces.lifetime = fw.deadNonces.lifetime) (satisfied : Bool)
    (freshness : Option Millis) (answeredBy : Option FaceId) (now : Instant) :
    fw'.deadStamps h satisfied freshness answeredBy now =
      fw.deadStamps h satisfied freshness answeredBy now := by
  have hneeds : fw'.NeedsDeadNonces e' satisfied freshness ↔
      fw.NeedsDeadNonces e satisfied freshness := by
    simp only [NeedsDeadNonces, hinterest, hlifetime]
  simp only [deadStamps, hget, hget', hneeds, hout, Pit.Entry.name, hinterest]

/-- An entry that was not touched leaves what it would have left before. -/
theorem deadStamps_of_get?_eq (hget : fw'.pit.get? h = fw.pit.get? h)
    (hlifetime : fw'.deadNonces.lifetime = fw.deadNonces.lifetime) (satisfied : Bool)
    (freshness : Option Millis) (answeredBy : Option FaceId) (now : Instant) :
    fw'.deadStamps h satisfied freshness answeredBy now =
      fw.deadStamps h satisfied freshness answeredBy now := by
  cases hlive : fw.pit.get? h with
  | none => simp only [deadStamps, hget, hlive]
  | some e => exact deadStamps_congr hlive (hget.trans hlive) rfl rfl hlifetime _ _ _ _

/-! ## Timers that fire -/

/-- The stamps that the entry of a timer leaves when the timer fires at `now`. -/
def endStamps (event : TimerEvent) (now : Instant) (fw : Forwarder) : List Stamp :=
  match event with
  | .unsatisfy h => fw.deadStamps h false none none now
  | .straggler h satisfied freshness => fw.deadStamps h satisfied freshness none now

theorem deadNonces_finalize (h : Pit.Handle) (satisfied : Bool) (freshness : Option Millis)
    (fw : Forwarder) :
    (fw.finalize h satisfied freshness).deadNonces =
      fw.deadNonces.addAll (fw.deadStamps h satisfied freshness none fw.now) := by
  cases hget : fw.pit.get? h with
  | none => simp only [finalize, deadStamps, hget]; rfl
  | some e =>
    simp only [finalize, hget]
    rw [← recordDeadNonces_eq_addAll]
    exact (rescheduled_cancelTimers h _).deadNonces

theorem deadNonces_expire (s : Strategy) (h : Pit.Handle) (fw : Forwarder) :
    (fw.expire s.hooks h).deadNonces =
      fw.deadNonces.addAll (fw.deadStamps h false none none fw.now) := by
  cases hget : fw.pit.get? h with
  | none => simp only [expire, deadStamps, hget]; rfl
  | some e =>
    have hq := quiet_notify s (.expiring h e) fw
    have hnow : (fw.notify s.hooks (.expiring h e)).now = fw.now :=
      congrArg TimerQueue.now hq.timers
    have hstamps := deadStamps_of_get?_eq (congrArg (·.get? h) hq.pit)
      (congrArg DeadNonceList.lifetime hq.deadNonces) false none none fw.now
    simp only [expire, hget]
    rw [deadNonces_finalize, hnow, hq.deadNonces, hstamps]

/-- A timer that fires leaves the stamps of its entry, at the time that the clock shows. -/
theorem deadNonces_handleTimer (inv : TimersHeld none fw.pit fw.timers)
    {q' : TimerQueue TimerEvent} (hpop : fw.timers.popDue t = some (id, event, q'))
    (s : Strategy) :
    ({ fw with timers := q' }.handleTimer s.hooks id event).deadNonces =
      fw.deadNonces.addAll (fw.endStamps event q'.now) := by
  have hwf := inv.queue_wellFormed
  have p := TimerQueue.popped_of_popDue hwf.toSound hpop
  obtain ⟨deadline, hp, _⟩ := p.exists_deadline
  obtain ⟨_, e, hget, hid⟩ := inv.held hp
  have harmed := inv.armed_of_get? hget
  cases event with
  | unsatisfy h =>
    have hget : fw.pit.get? h = some e := hget
    obtain ⟨hu, _⟩ := harmed.unsatisfy_of_pending hwf hid hp
    have hget' : (fw.released h q' fun e => { e with unsatisfyTimer := none }).pit.get? h = _ :=
      Pit.get?_modify_self hget
    have hstamps := deadStamps_congr hget hget' rfl rfl rfl false none none q'.now
    rw [@handleTimer_unsatisfy { fw with timers := q' } h e id hget hu, deadNonces_expire,
      endStamps, ← hstamps]
    rfl
  | straggler h satisfied freshness =>
    have hget : fw.pit.get? h = some e := hget
    obtain ⟨hs, _⟩ := harmed.straggler_of_pending hwf hid hp
    have hget' : (fw.released h q' fun e => { e with stragglerTimer := none }).pit.get? h = _ :=
      Pit.get?_modify_self hget
    have hstamps := deadStamps_congr hget hget' rfl rfl rfl satisfied freshness none q'.now
    rw [@handleTimer_straggler { fw with timers := q' } h e id hget hs, deadNonces_finalize,
      endStamps, ← hstamps]
    rfl

/-- The stamps that the timers due by `t` leave when they fire, each at its deadline. -/
def expiryStamps (t : Instant) (fw : Forwarder) : List Stamp :=
  (fw.timers.dueBy t).flatMap fun b => fw.endStamps b.2 b.1.deadline

/-- One timer that fires leaves its stamps, and those of the others are as before. -/
theorem Fired.expiryStamps_eq (inv : TimersHeld none fw.pit fw.timers)
    {q' : TimerQueue TimerEvent} (hpop : fw.timers.popDue t = some (id, event, q'))
    (hfired : Fired event q' fw fw')
    (hlifetime : fw'.deadNonces.lifetime = fw.deadNonces.lifetime) :
    fw.expiryStamps t = fw.endStamps event q'.now ++ fw'.expiryStamps t := by
  obtain ⟨due, rfl, hdue, hnow⟩ := TimerQueue.dueBy_of_popDue inv.queue_wellFormed.toSound hpop
  have hfirst : (due, event) ∈ fw.timers.dueBy t := by
    rw [hdue]
    exact List.mem_cons_self
  obtain ⟨hp, _⟩ := TimerQueue.mem_dueBy.mp hfirst
  have hdeadline : q'.now = due.deadline := by
    rw [hnow]
    exact Nat.max_eq_right (inv.queue_wellFormed.now_le hp)
  rw [expiryStamps, hdue, List.flatMap_cons, hdeadline, expiryStamps, hfired.timers]
  congr 1
  refine List.flatMap_congr fun b hb => ?_
  -- the entry of another timer is still there, so it is not the one that is gone
  have hb := (TimerQueue.mem_dueBy.mp hb).1
  rw [← hfired.timers] at hb
  obtain ⟨_, e, hget, _⟩ := hfired.timersHeld.held hb
  have hsame := hget
  rw [hfired.get?] at hsame
  obtain ⟨_, hsame⟩ := Option.ite_none_left_eq_some.mp hsame
  have hget : fw'.pit.get? b.2.entry = fw.pit.get? b.2.entry := hget.trans hsame.symm
  cases hevent : b.2 with
  | unsatisfy h =>
    rw [hevent] at hget
    exact (deadStamps_of_get?_eq hget hlifetime _ _ _ _).symm
  | straggler h satisfied freshness =>
    rw [hevent] at hget
    exact (deadStamps_of_get?_eq hget hlifetime _ _ _ _).symm

theorem deadNonces_fireDue (inv : TimersHeld none fw.pit fw.timers) (s : Strategy) {n : Nat}
    (hn : fw.timers.size ≤ n) :
    (fw.fireDue s.hooks t n).deadNonces = fw.deadNonces.addAll (fw.expiryStamps t) := by
  have hnone : ∀ {fw : Forwarder}, TimersHeld none fw.pit fw.timers →
      fw.timers.popDue t = none → fw.expiryStamps t = [] := by
    intro fw inv hpop
    rw [expiryStamps, TimerQueue.dueBy_of_popDue_eq_none inv.queue_wellFormed.toSound hpop,
      List.flatMap_nil]
  induction n generalizing fw with
  | zero =>
    cases hpop : fw.timers.popDue t with
    | none => rw [fireDue, hnone inv hpop]; rfl
    | some popped =>
      have p := TimerQueue.popped_of_popDue inv.queue_wellFormed.toSound hpop
      exact absurd p.size_lt (Nat.not_lt.mpr (Nat.le_trans hn (Nat.zero_le _)))
  | succ n ih =>
    rw [fireDue]
    cases hpop : fw.timers.popDue t with
    | none => rw [hnone inv hpop]; rfl
    | some popped =>
      obtain ⟨id, event, q'⟩ := popped
      have p := TimerQueue.popped_of_popDue inv.queue_wellFormed.toSound hpop
      have hfired := fired_handleTimer inv hpop s
      have hdead := deadNonces_handleTimer inv hpop s
      have hsize := Nat.lt_of_lt_of_le p.size_lt hn
      rw [← hfired.timers] at hsize
      have hstamps := hfired.expiryStamps_eq inv hpop
        (by rw [hdead]; exact (DeadNonceList.sameBounds_addAll _ _).lifetime)
      dsimp only
      rw [ih hfired.timersHeld (Nat.le_of_lt_succ hsize), hdead, hstamps,
        DeadNonceList.addAll_append]

/-- **Polling** adds what the entries leave whose timers are due, in the order of the timers. -/
theorem deadNonces_pollTimers (inv : TimersHeld none fw.pit fw.timers) (s : Strategy)
    (t : Instant) :
    (fw.pollTimers s.hooks t).deadNonces = fw.deadNonces.addAll (fw.expiryStamps t) :=
  deadNonces_fireDue inv s (Nat.le_refl _)

/-! ## Data that answers -/

theorem deadNonces_satisfy (s : Strategy) (d : Incoming Data) (h : Pit.Handle)
    (fw : Forwarder) :
    (satisfy s.hooks d fw h).deadNonces =
      fw.deadNonces.addAll
        (fw.deadStamps h true d.packet.freshness (some d.face) fw.now) := by
  have hq := quiet_notifySatisfying s h d (fw.cancelTimers h)
  have hpit : ((fw.cancelTimers h).notifySatisfying s.hooks h d).pit =
      fw.pit.modify h .unarmed := hq.pit.trans (pit_cancelTimers h fw)
  have hdead : ((fw.cancelTimers h).notifySatisfying s.hooks h d).deadNonces = fw.deadNonces :=
    hq.deadNonces.trans (rescheduled_cancelTimers h fw).deadNonces
  have hnow : ((fw.cancelTimers h).notifySatisfying s.hooks h d).now = fw.now :=
    (congrArg TimerQueue.now hq.timers).trans (rescheduled_cancelTimers h fw).now
  have hstamps : ((fw.cancelTimers h).notifySatisfying s.hooks h d).deadStamps h true
      d.packet.freshness (some d.face) fw.now =
      fw.deadStamps h true d.packet.freshness (some d.face) fw.now := by
    have hlifetime := congrArg DeadNonceList.lifetime hdead
    cases hget : fw.pit.get? h with
    | none =>
      refine deadStamps_of_get?_eq ?_ hlifetime _ _ _ _
      rw [hpit, Pit.modify_of_get?_eq_none _ hget]
    | some e =>
      have hget' : ((fw.cancelTimers h).notifySatisfying s.hooks h d).pit.get? h =
          some e.unarmed := by rw [hpit, Pit.get?_modify_self hget]
      exact deadStamps_congr hget hget' rfl rfl hlifetime _ _ _ _
  rw [satisfy_eq, (rescheduled_armStraggler _ _ _ _).deadNonces, settle, recordDeadNonces_eq_addAll,
    hnow, hstamps, hdead]

theorem deadNonces_foldl_satisfy (s : Strategy) (d : Incoming Data) {entries : List Pit.Handle}
    (hnodup : entries.Nodup) (fw : Forwarder) :
    (entries.foldl (satisfy s.hooks d) fw).deadNonces =
      fw.deadNonces.addAll (entries.flatMap fun h =>
        fw.deadStamps h true d.packet.freshness (some d.face) fw.now) := by
  induction entries generalizing fw with
  | nil => rfl
  | cons h rest ih =>
    obtain ⟨hmem, hrest⟩ := List.nodup_cons.mp hnodup
    have ha := answers_satisfy s d h fw
    have hdead := deadNonces_satisfy s d h fw
    have hothers : (rest.flatMap fun h' => (satisfy s.hooks d fw h).deadStamps h' true
        d.packet.freshness (some d.face) fw.now) =
        rest.flatMap fun h' => fw.deadStamps h' true d.packet.freshness (some d.face) fw.now := by
      refine List.flatMap_congr fun h' hmem' => ?_
      refine deadStamps_of_get?_eq (ha.get?_of_not_mem h' ?_) ?_ _ _ _ _
      · rintro heq
        exact hmem (List.mem_singleton.mp heq ▸ hmem')
      · rw [hdead]
        exact (DeadNonceList.sameBounds_addAll _ _).lifetime
    rw [List.foldl_cons, ih hrest, ha.now, hothers, hdead, List.flatMap_cons,
      DeadNonceList.addAll_append]

theorem deadNonces_answer (s : Strategy) (f : FaceId) (d : Data) {entries : List Pit.Handle}
    (hnodup : entries.Nodup) (fw : Forwarder) :
    (fw.answer s.hooks f d entries).deadNonces =
      fw.deadNonces.addAll (entries.flatMap fun h =>
        fw.deadStamps h true d.freshness (some f) fw.now) := by
  rw [answer, (outward_foldl_sendData _ _ _).deadNonces]
  exact deadNonces_foldl_satisfy s ⟨f, d⟩ hnodup fw

/-- The Data is taken to the entries. -/
def Admits (fw : Forwarder) (f : FaceId) (d : Data) : Prop :=
  ¬ d.IsPushed ∧ ∃ face ∈ fw.faces.get? f, ¬ (face.isLocal = false ∧ d.name.IsLocalhost)

instance (fw : Forwarder) (f : FaceId) (d : Data) : Decidable (fw.Admits f d) :=
  inferInstanceAs (Decidable (_ ∧ _))

/-- The stamps that Data from the face `f` leaves. -/
def answerStamps (f : FaceId) (d : Data) (fw : Forwarder) : List Stamp :=
  if fw.Admits f d then
    (fw.pit.dataMatches d).flatMap fun h => fw.deadStamps h true d.freshness (some f) fw.now
  else []

theorem deadNonces_keepAwaited (face : Face) (d : Data) (fw : Forwarder) :
    (fw.keepAwaited face d).deadNonces = fw.deadNonces := by
  unfold keepAwaited storeEligible
  split
  · dsimp only
    split <;> rfl
  · split <;> rfl

theorem deadNonces_receiveUnsolicited (face : Face) (d : Data) (fw : Forwarder) :
    (fw.receiveUnsolicited face d).deadNonces = fw.deadNonces := by
  unfold receiveUnsolicited
  split <;> rfl

theorem deadNonces_receivePublishment (d : Data) (fw : Forwarder) :
    (fw.receivePublishment d).deadNonces = fw.deadNonces := by
  obtain ⟨fw₁, ho, _, heq⟩ := receivePublishment_eq d fw
  rw [heq]
  exact ho.deadNonces

/-- **Data** adds what the entries leave that it answers. -/
theorem deadNonces_receiveData (wf : fw.pit.WellFormed) (s : Strategy) (f : FaceId) (d : Data) :
    (fw.receiveData s.hooks f d).deadNonces = fw.deadNonces.addAll (fw.answerStamps f d) := by
  cases hface : fw.faces.get? f with
  | none =>
    have hno : ¬ fw.Admits f d := by simp [Admits, hface]
    rw [receiveData_of_unknownFace hface, answerStamps, if_neg hno]
    rfl
  | some face =>
    rw [receiveData_of_face hface]
    by_cases hpush : d.IsPushed
    · have hno : ¬ fw.Admits f d := fun hyes => hyes.1 hpush
      rw [if_pos hpush, answerStamps, if_neg hno]
      exact deadNonces_receivePublishment d _
    rw [if_neg hpush]
    by_cases hscope : face.isLocal = false ∧ d.name.IsLocalhost
    · have hno : ¬ fw.Admits f d := by simp [Admits, hface, hscope]
      rw [if_pos hscope, answerStamps, if_neg hno]
      rfl
    have hyes : fw.Admits f d := ⟨hpush, face, hface, hscope⟩
    rw [if_neg hscope, answerStamps, if_pos hyes]
    split
    · next hnil =>
      rw [hnil]
      exact deadNonces_receiveUnsolicited face d _
    · have hu := untouched_keepAwaited face d fw
      have hdead := deadNonces_keepAwaited face d (fw.count .inData)
      have hnow : ((fw.count .inData).keepAwaited face d).now = fw.now :=
        congrArg TimerQueue.now hu.timers
      have hstamps : ((fw.pit.dataMatches d).flatMap fun h =>
          ((fw.count .inData).keepAwaited face d).deadStamps h true d.freshness (some f) fw.now) =
          (fw.pit.dataMatches d).flatMap fun h =>
            fw.deadStamps h true d.freshness (some f) fw.now :=
        List.flatMap_congr fun h _ => deadStamps_of_get?_eq (congrArg (·.get? h) hu.pit)
          (congrArg DeadNonceList.lifetime hdead) _ _ _ _
      rw [deadNonces_answer s f d (Pit.nodup_dataMatches wf d), hnow, hstamps, hdead]
      rfl

end NamedData.Forwarder
