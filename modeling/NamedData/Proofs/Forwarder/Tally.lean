import NamedData.Proofs.CachedAnswer
import NamedData.Proofs.Forwarder.Counters
import NamedData.Proofs.Forwarder.DeadNonces

/-!
# What a packet counts for

An Interest is counted as it comes in. It is then a loop, a hit or a miss of the content store, and
counted as that, unless it gets no further than its face, is a location registration or joins others
that wait. Data is counted as it comes in, and once more if it has got as far as the entries and
nobody waits for it. All else that moves the counters are the packets that leave.

## Main definitions

* `Forwarder.Tallied`, the counters have moved by a list of counters and by what left
* `Forwarder.Uncounted` and `Forwarder.Verdict`, what an Interest is counted as
* `Forwarder.IsUnsolicited`

## Main statements

* `Forwarder.exists_verdict` and `Forwarder.tallied_receiveData`
-/
namespace NamedData

namespace Counters

/-- The count of `c`. -/
def get (n : Counters) : Counter → UInt64
  | .inInterests => n.inInterests
  | .outInterests => n.outInterests
  | .inData => n.inData
  | .outData => n.outData
  | .csHits => n.csHits
  | .csMisses => n.csMisses
  | .interestLoops => n.interestLoops
  | .unsolicitedData => n.unsolicitedData

theorem eq_of_get {n n' : Counters} (h : ∀ c, n.get c = n'.get c) : n = n' := by
  obtain ⟨_, _, _, _, _, _, _, _⟩ := n
  obtain ⟨_, _, _, _, _, _, _, _⟩ := n'
  rw [mk.injEq]
  exact ⟨h .inInterests, h .outInterests, h .inData, h .outData, h .csHits, h .csMisses,
    h .interestLoops, h .unsolicitedData⟩

/-- The counter `c` goes up by one, and all others stay. -/
theorem get_increment (n : Counters) (c c' : Counter) :
    (n.increment c).get c' = n.get c' + .ofNat ([c].count c') := by
  cases c <;> cases c' <;> simp [increment, get]

end Counters

namespace Forwarder

variable {fw fw' fw'' : Forwarder} {s : Strategy} {f : FaceId} {face : Face} {i : Interest}
  {d : Data} {h : Pit.Handle} {e : Pit.Entry} {pit : Pit} {c : Counter} {l l' : List Counter}

/-! ## Timers and Data -/

theorem accounted_recordDeadNonces (h : Pit.Handle) (satisfied : Bool) (freshness : Option Millis)
    (answeredBy : Option FaceId) (fw : Forwarder) :
    Accounted fw (fw.recordDeadNonces h satisfied freshness answeredBy) := by
  obtain ⟨deadNonces, heq⟩ := recordDeadNonces_eq h satisfied freshness answeredBy fw
  rw [heq]
  exact .of_eq rfl rfl

theorem accounted_finalize (h : Pit.Handle) (satisfied : Bool) (freshness : Option Millis)
    (fw : Forwarder) : Accounted fw (fw.finalize h satisfied freshness) := by
  unfold finalize
  split
  · exact .refl fw
  · refine ((accounted_recordDeadNonces h satisfied freshness none fw).trans
      (rescheduled_cancelTimers h _).accounted).trans ?_
    exact .of_eq rfl rfl

theorem accounted_expire (s : Strategy) (h : Pit.Handle) (fw : Forwarder) :
    Accounted fw (fw.expire s.hooks h) := by
  unfold expire
  split
  · exact .refl fw
  · next e _ =>
    have hnotify : Accounted fw (fw.notify s.hooks (.expiring h e)) :=
      (accounted_tellObservers _ fw).trans (.of_event rfl rfl id)
    exact hnotify.trans (accounted_finalize h false none _)

theorem accounted_handleTimer (s : Strategy) (id : TimerId) (event : TimerEvent)
    (fw : Forwarder) : Accounted fw (fw.handleTimer s.hooks id event) := by
  have hreleased : ∀ h forget, Accounted fw (fw.released h fw.timers forget) :=
    fun _ _ => .of_eq rfl rfl
  rcases handleTimer_outcome s.hooks id event fw with
    hsame | ⟨h, e, rfl, hget, hid⟩ | ⟨h, satisfied, freshness, e, rfl, hget, hid⟩
  · rw [hsame]
    exact .refl fw
  · rw [handleTimer_unsatisfy hget hid]
    exact (hreleased h _).trans (accounted_expire s h _)
  · rw [handleTimer_straggler hget hid]
    exact (hreleased h _).trans (accounted_finalize h satisfied freshness _)

theorem accounted_pollTimers (s : Strategy) (t : Instant) (fw : Forwarder) :
    Accounted fw (fw.pollTimers s.hooks t) := by
  have hfire : ∀ (n : Nat) (fw : Forwarder), Accounted fw (fw.fireDue s.hooks t n) := by
    intro n
    induction n with
    | zero => exact fun fw => .refl fw
    | succ n ih =>
      intro fw
      unfold fireDue
      split
      · exact .refl fw
      · next id event timers _ =>
        have hpop : Accounted fw { fw with timers } := .of_eq rfl rfl
        exact (hpop.trans (accounted_handleTimer s id event _)).trans (ih _)
  exact (hfire _ fw).trans (.of_eq rfl rfl)

theorem accounted_keepAwaited (face : Face) (d : Data) (fw : Forwarder) :
    Accounted fw (fw.keepAwaited face d) := by
  unfold keepAwaited
  split
  · unfold storeEligible
    split
    · exact .of_eq rfl rfl
    · have hdraw : Accounted fw { fw with nonces := fw.nonces.draw.2 } := .of_eq rfl rfl
      exact (hdraw.trans (accounted_emitInterest face _ _)).trans (.of_eq rfl rfl)
  · split
    · exact .refl fw
    · exact .of_eq rfl rfl

/-- What accounts for each step of a loop accounts for the loop. -/
theorem Accounted.foldl {α : Type} {step : Forwarder → α → Forwarder}
    (hstep : ∀ fw a, Accounted fw (step fw a)) (as : List α) (fw : Forwarder) :
    Accounted fw (as.foldl step fw) := by
  induction as generalizing fw with
  | nil => exact .refl fw
  | cons a rest ih => exact (hstep fw a).trans (ih _)

theorem accounted_satisfy (s : Strategy) (d : Incoming Data) (fw : Forwarder) (h : Pit.Handle) :
    Accounted fw (satisfy s.hooks d fw h) := by
  rw [satisfy]
  refine Accounted.trans ?_ (rescheduled_armStraggler h true d.packet.freshness _).accounted
  have hcancel := (rescheduled_cancelTimers h fw).accounted
  refine (hcancel.trans (accounted_notifySatisfying s h d _)).trans ?_
  refine Accounted.trans ?_ (.of_eq rfl rfl)
  exact accounted_recordDeadNonces h true d.packet.freshness (some d.face) _

theorem accounted_answer (s : Strategy) (f : FaceId) (d : Data) (entries : List Pit.Handle)
    (fw : Forwarder) : Accounted fw (fw.answer s.hooks f d entries) :=
  (Accounted.foldl (accounted_satisfy s ⟨f, d⟩) entries fw).trans
    (Accounted.foldl (fun fw f => accounted_sendData d f fw) _ _)

theorem accounted_receivePublishment (d : Data) (fw : Forwarder) :
    Accounted fw (fw.receivePublishment d) := by
  have hkept : ∀ {fw₁ : Forwarder} (d' : Data), Accounted fw fw₁ →
      Accounted fw (if d.expiration then { fw₁ with store := fw₁.store.erase d.name }
        else fw₁.storeData d' false) := by
    intro fw₁ d' ha
    split <;> exact ha.trans (.of_eq rfl rfl)
  cases hlast : d.pathBack.getLast? with
  | none =>
    simp only [receivePublishment, hlast]
    exact hkept _ (.refl fw)
  | some out =>
    simp only [receivePublishment, hlast]
    exact hkept _ (accounted_sendData _ out fw)

theorem accounted_apply (c : Change) (fw : Forwarder) : Accounted fw (c.apply fw) := by
  cases c with
  | addFace isLocal link => exact .of_eq rfl rfl
  | reserveFace id isLocal link =>
    change Accounted fw ((fw.reserveFace id isLocal link).toOption.getD fw)
    rw [reserveFace_eq]
    exact .of_eq rfl rfl
  | removeFace id =>
    change Accounted fw (fw.removeFace id)
    unfold removeFace
    split
    · exact .of_eq rfl rfl
    · exact .refl fw
  | routes change => exact .of_eq rfl rfl
  | store change => exact .of_eq rfl rfl

/-! ## Tallies -/

/-- Between the two nodes some packets left, and each counter has gone up by how often it is in
`l` and by the packets that it is for. -/
def Tallied (l : List Counter) (fw fw' : Forwarder) : Prop :=
  ∃ packets, fw'.sent = fw.sent ++ packets ∧ ∀ c, fw'.counters.get c =
    fw.counters.get c + .ofNat (l.count c + packets.countP (·.2.counter = c))

namespace Tallied

theorem of_eq (hsent : fw'.sent = fw.sent) (hcounters : fw'.counters = fw.counters) :
    Tallied [] fw fw' :=
  ⟨[], by rw [hsent, List.append_nil], fun c => by simp [hcounters]⟩

theorem trans (ht : Tallied l fw fw') (ht' : Tallied l' fw' fw'') :
    Tallied (l ++ l') fw fw'' := by
  obtain ⟨packets, hsent, hcounters⟩ := ht
  obtain ⟨packets', hsent', hcounters'⟩ := ht'
  refine ⟨packets ++ packets', by rw [hsent', hsent, List.append_assoc], fun c => ?_⟩
  have hsum : (l ++ l').count c + (packets ++ packets').countP (·.2.counter = c) =
      (l.count c + packets.countP (·.2.counter = c)) +
        (l'.count c + packets'.countP (·.2.counter = c)) := by
    rw [List.count_append, List.countP_append]
    omega
  rw [hcounters', hcounters, hsum, UInt64.ofNat_add _ (l'.count c + _), UInt64.add_assoc]

end Tallied

theorem tallied_count (c : Counter) (fw : Forwarder) : Tallied [c] fw (fw.count c) :=
  ⟨[], (quiet_count c fw).sent.trans (List.append_nil _).symm,
    fun c' => fw.counters.get_increment c c'⟩

theorem get_foldr_tally (events : List Event) (n : Counters) (c : Counter) :
    (events.foldr Event.tally n).get c =
      n.get c + .ofNat ((events.filterMap Event.sent?).countP (·.2.counter = c)) := by
  induction events with
  | nil => simp
  | cons event rest ih =>
    cases event with
    | sent out p =>
      have hcons : ((Event.sent out p :: rest).filterMap Event.sent?).countP (·.2.counter = c) =
          (rest.filterMap Event.sent?).countP (·.2.counter = c) + [p.counter].count c := by
        simp [Event.sent?, List.countP_cons, List.count_cons]
      rw [hcons, List.foldr_cons, Event.tally, Counters.get_increment, ih, UInt64.ofNat_add,
        UInt64.add_assoc]
    | told | logged => exact ih

/-- What is accounted for has been counted as it left. -/
theorem Accounted.tallied (ha : Accounted fw fw') : Tallied [] fw fw' := by
  obtain ⟨events, hjournal, hcounters, _⟩ := ha
  refine ⟨(events.filterMap Event.sent?).reverse, ?_, fun c => ?_⟩
  · simp only [sent, Forwarder.events, hjournal, List.reverse_append, List.filterMap_append,
      List.filterMap_reverse]
  · rw [hcounters, get_foldr_tally, List.countP_reverse, List.count_nil, Nat.zero_add]

/-! ## Interests -/

/-- The Interest is neither a loop nor a hit nor a miss: it gets no further than its face, it is a
location registration, or it joins others that wait. -/
inductive Uncounted (fw : Forwarder) (f : FaceId) (i : Interest) : Prop
  | unknownFace (hface : fw.faces.get? f = none)
  | registration (hreg : i.locationRegistration = true)
  | outOfScope {face : Face} (hface : fw.faces.get? f = some face)
    (hscope : face.isLocal = false ∧ i.name.IsLocalhost)
  | joins {h : Pit.Handle} {e : Pit.Entry} (hloop : ¬ fw.IsLoop f i)
    (hvalidation : i.validation = false) (hfind : fw.pit.find? i.name = some h)
    (hget : fw.pit.get? h = some e) (hwait : e.inRecords ≠ [])

/-- What the Interest is counted as. -/
inductive Verdict (fw : Forwarder) (f : FaceId) (i : Interest) : Option Counter → Prop
  | uncounted (hun : fw.Uncounted f i) : Verdict fw f i none
  | loop (hcounts : ¬ fw.Uncounted f i) (hloop : fw.IsLoop f i) :
    Verdict fw f i (some .interestLoops)
  | hit {c : ContentStore.Entry} (hcounts : ¬ fw.Uncounted f i) (hloop : ¬ fw.IsLoop f i)
    (hstore : fw.store.lookup i fw.now = some c) : Verdict fw f i (some .csHits)
  | miss (hcounts : ¬ fw.Uncounted f i) (hloop : ¬ fw.IsLoop f i)
    (hstore : fw.store.lookup i fw.now = none) : Verdict fw f i (some .csMisses)

/-- The counters of the three verdicts. -/
def verdictCounters : List Counter := [.csHits, .csMisses, .interestLoops]

theorem Verdict.mem {v : Option Counter} (hv : fw.Verdict f i v) :
    ∀ c ∈ v, c ∈ verdictCounters := by
  cases hv <;> simp [verdictCounters]

theorem Verdict.eq_none {v : Option Counter} (hv : fw.Verdict f i v) (hun : fw.Uncounted f i) :
    v = none := by
  cases hv with
  | uncounted _ => rfl
  | loop hcounts _ | hit hcounts _ _ | miss hcounts _ _ => exact absurd hun hcounts

theorem Verdict.exists_eq_some {v : Option Counter} (hv : fw.Verdict f i v)
    (hcounts : ¬ fw.Uncounted f i) : ∃ c, v = some c := by
  cases hv with
  | uncounted hun => exact absurd hun hcounts
  | loop _ _ | hit _ _ _ | miss _ _ _ => exact ⟨_, rfl⟩

/-- An Interest that has got as far as its entry is uncounted only if it joins others there. -/
theorem Admitted.uncounted_iff (adm : Admitted fw f i face h pit e) :
    fw.Uncounted f i ↔ ¬ fw.IsLoop f i ∧ e.isPending ∧ i.validation = false := by
  have hpending : ∀ e : Pit.Entry, e.isPending = true ↔ e.inRecords ≠ [] := by
    intro e
    simp [Pit.Entry.isPending]
  have hget := adm.get?
  constructor
  · intro hun
    cases hun with
    | unknownFace hface =>
      rw [adm.registered] at hface
      cases hface
    | registration hreg =>
      rw [adm.request] at hreg
      cases hreg
    | outOfScope hface hscope =>
      rw [adm.registered, Option.some.injEq] at hface
      exact absurd (hface ▸ hscope) adm.inScope
    | joins hloop hvalidation hfind hget' hwait =>
      refine ⟨hloop, ?_, hvalidation⟩
      cases adm.placed with
      | found _ hf =>
        rw [Interest.name_arrivedOn, hfind, Option.some.injEq] at hf
        rw [← hf, hget', Option.some.injEq] at hget
        rw [← hget]
        exact (hpending _).mpr hwait
      | created _ c =>
        have hnone := c.find?_eq_none
        rw [Interest.name_arrivedOn, hfind] at hnone
        cases hnone
  · rintro ⟨hloop, hwait, hvalidation⟩
    cases adm.placed with
    | found _ hf =>
      rw [Interest.name_arrivedOn] at hf
      exact .joins hloop hvalidation hf hget ((hpending e).mp hwait)
    | created _ c =>
      rw [c.get?_self, Option.some.injEq] at hget
      exact absurd rfl ((hpending _).mp (hget ▸ hwait))

/-- A strategy that gets an Interest counts what it sends. -/
theorem tallied_receive (s : ForwardingStrategy) (i : Incoming Interest) (route : Fib.Entry)
    (h : Pit.Handle) (fw : Forwarder) : Tallied [] fw (s.hooks.receive i route h fw) := by
  have hhandover : Tallied [] fw (fw.record (.told .strategy (.received i route h))) :=
    .of_eq (quiet_record rfl fw).sent rfl
  exact hhandover.trans (Plan.accounted_run (s.forwards i route h) _).tallied

theorem tallied_openEntry (pit : Pit) (h : Pit.Handle) (fw : Forwarder) :
    Tallied [.inInterests] fw (fw.openEntry pit h) :=
  (tallied_count .inInterests fw).trans (accounted_openEntry pit h fw).tallied

/-- An accepted Interest is counted as a miss if the content store was asked. -/
theorem Accepted.exists_verdict (acc : Accepted fw f i face h pit e) (s : ForwardingStrategy) :
    ∃ v, fw.Verdict f i v ∧
      Tallied (.inInterests :: v.toList) fw (fw.receiveInterest s.hooks f i) := by
  have hstart := tallied_openEntry pit h fw
  have hrest : ∀ fw₁ : Forwarder, Tallied [] fw₁ (s.hooks.receive ⟨face.id, i.arrivedOn f⟩
      (fw.fib.longestPrefixMatch i.name) h (fw₁.enlist face (i.arrivedOn f) h)) :=
    fun fw₁ => (accounted_enlist face (i.arrivedOn f) h fw₁).tallied.trans
      (tallied_receive s _ _ _ _)
  rw [acc.receiveInterest_eq, missStore]
  by_cases hjoin : e.isPending ∧ i.validation = false
  · rw [if_pos hjoin]
    exact ⟨none, .uncounted (acc.uncounted_iff.mpr ⟨acc.notLoop, hjoin⟩), hstart.trans (hrest _)⟩
  · have hstore := acc.unanswered.resolve_left hjoin
    rw [ContentStore.lookup_arrivedOn] at hstore
    rw [if_neg hjoin]
    refine ⟨some .csMisses, .miss ?_ acc.notLoop hstore, ?_⟩
    · exact fun hun => hjoin (acc.uncounted_iff.mp hun).2
    · exact (hstart.trans (tallied_count .csMisses _)).trans (hrest _)

/-- **Each Interest is counted as it comes in**, and once more by its verdict. -/
theorem exists_verdict (wf : fw.pit.WellFormed) (s : ForwardingStrategy) (f : FaceId)
    (i : Interest) :
    ∃ v, fw.Verdict f i v ∧
      Tallied (.inInterests :: v.toList) fw (fw.receiveInterest s.hooks f i) := by
  have hcount := tallied_count .inInterests fw
  have harrival := arrival_receiveInterest wf s.hooks f i
  generalize heq : fw.receiveInterest s.hooks f i = fw' at harrival
  cases harrival with
  | unknownFace hface =>
    exact ⟨none, .uncounted (.unknownFace hface), hcount.trans (accounted_log _ _).tallied⟩
  | @registration face hface hreg =>
    exact ⟨none, .uncounted (.registration hreg),
      hcount.trans (accounted_registerLocation face _ _).tallied⟩
  | outOfScope hface _ hscope => exact ⟨none, .uncounted (.outOfScope hface hscope), hcount⟩
  | loop adm hloop =>
    have hcounts : ¬ fw.Uncounted f i := fun hun => (adm.uncounted_iff.mp hun).1 hloop
    exact ⟨_, .loop hcounts hloop, hcount.trans (tallied_count .interestLoops _)⟩
  | @newLoop face h pit e adm _ hloop =>
    have hcounts : ¬ fw.Uncounted f i := fun hun => (adm.uncounted_iff.mp hun).1 hloop
    have herased : Tallied [.inInterests] fw
        { fw.count .inInterests with pit := pit.erase h } := hcount
    exact ⟨_, .loop hcounts hloop, herased.trans (tallied_count .interestLoops _)⟩
  | accepted acc _ =>
    rw [← heq]
    exact acc.exists_verdict s
  | @answered face h pit e d store adm hloop hask hstore =>
    have hcounts : ¬ fw.Uncounted f i := by
      intro hun
      obtain ⟨_, hpending, hvalidation⟩ := adm.uncounted_iff.mp hun
      simp [hpending, hvalidation] at hask
    obtain ⟨c, hlookup⟩ : ∃ c, fw.store.lookup i fw.now = some c := by
      rw [ContentStore.find, ContentStore.lookup_arrivedOn] at hstore
      split at hstore
      · cases hstore
      · next c hlookup => exact ⟨c, hlookup⟩
    have hopen : Tallied [.inInterests] fw { fw.openEntry pit h with store } :=
      tallied_openEntry pit h fw
    exact ⟨_, .hit hcounts hloop hlookup, (hopen.trans (tallied_count .csHits _)).trans
      (accounted_answerFromStore s.toStrategy face.id h d _).tallied⟩

/-! ## Data -/

theorem tallied_receiveUnsolicited (face : Face) (d : Data) (fw : Forwarder) :
    Tallied [.unsolicitedData] fw (fw.receiveUnsolicited face d) := by
  have hcount := tallied_count .unsolicitedData fw
  unfold receiveUnsolicited
  split
  · exact hcount.trans (.of_eq rfl rfl)
  · exact hcount

/-- Nobody waits for Data that has got as far as the entries. -/
def IsUnsolicited (fw : Forwarder) (f : FaceId) (d : Data) : Prop :=
  fw.Admits f d ∧ fw.pit.dataMatches d = []

instance (fw : Forwarder) (f : FaceId) (d : Data) : Decidable (fw.IsUnsolicited f d) :=
  inferInstanceAs (Decidable (_ ∧ _))

/-- **Data is counted as it comes in**, and once more if it is unsolicited. -/
theorem tallied_receiveData (s : Strategy) (f : FaceId) (d : Data) (fw : Forwarder) :
    Tallied (.inData :: if fw.IsUnsolicited f d then [.unsolicitedData] else []) fw
      (fw.receiveData s.hooks f d) := by
  have hcount := tallied_count .inData fw
  cases hface : fw.faces.get? f with
  | none =>
    have hno : ¬ fw.IsUnsolicited f d := by simp [IsUnsolicited, Admits, hface]
    rw [receiveData_of_unknownFace hface, if_neg hno]
    exact hcount.trans (accounted_log _ _).tallied
  | some face =>
    rw [receiveData_of_face hface]
    by_cases hpush : d.IsPushed
    · have hno : ¬ fw.IsUnsolicited f d := fun hyes => hyes.1.1 hpush
      rw [if_pos hpush, if_neg hno]
      exact hcount.trans (accounted_receivePublishment d _).tallied
    rw [if_neg hpush]
    by_cases hscope : face.isLocal = false ∧ d.name.IsLocalhost
    · have hno : ¬ fw.IsUnsolicited f d := by simp [IsUnsolicited, Admits, hface, hscope]
      rw [if_pos hscope, if_neg hno]
      exact hcount
    have hadmits : fw.Admits f d := ⟨hpush, face, hface, hscope⟩
    rw [if_neg hscope]
    by_cases hun : fw.IsUnsolicited f d
    · rw [if_pos hun, hun.2]
      exact hcount.trans (tallied_receiveUnsolicited face d _)
    · rw [if_neg hun]
      split
      · next hnil => exact absurd ⟨hadmits, hnil⟩ hun
      · exact hcount.trans ((accounted_keepAwaited face d _).trans
          (accounted_answer s f d _ _)).tallied

end Forwarder

end NamedData
