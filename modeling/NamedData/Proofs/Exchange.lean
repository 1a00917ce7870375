import NamedData.Proofs.BestRoute
import NamedData.Proofs.Forwarder.GracePeriod
import NamedData.Proofs.Forwarder.Tally
import NamedData.Proofs.KnownNames
import NamedData.Service

/-!
# A request and its answer

A node has two faces. An application behind the one asks for a name, and the neighbour behind the
other is a next hop for it. If the name is new to the node then the Interest goes to the neighbour
and waits. If the neighbour sends the Data before the Interest expires, it goes to the application.
Nothing else leaves the node, whenever its timers are polled.

## Main definitions

* `Forwarder.Connects`, the two faces
* `Forwarder.Turn`, what a part of an exchange leaves as it is, counts and sends

## Main statements

* `Forwarder.turn_pollTimers`, `Forwarder.turn_request` and `Forwarder.turn_answer`: the parts of
  an exchange
* `Forwarder.Turn.get_counters`
-/
namespace NamedData

/-- The Interest is for exactly its name, and neither a validation request nor a location
registration. -/
structure Interest.IsPlain (i : Interest) : Prop where
  canBePrefix : i.canBePrefix = false
  validation : i.validation = false
  locationRegistration : i.locationRegistration = false

theorem Interest.IsPlain.arrivedOn_eq {i : Interest} (hplain : i.IsPlain) (f : FaceId) :
    i.arrivedOn f = i := by
  rw [arrivedOn, hplain.validation]
  rfl

namespace Forwarder

variable {fw fw' fw'' : Forwarder} {near far : Face} {names names' : List Name}
  {i : Interest} {d : Data} {counted counted' : List Counter}
  {packets packets' : List (Face × Packet)} {pit : Pit} {h : Pit.Handle} {e : Pit.Entry}
  {r : Pit.InRecord}

/-! ## Turns -/

/-- The node keeps its setup, counts `counted`, and sends `packets`, which are counted as well. It
gets to know no other names than `names`. -/
structure Turn (names : List Name) (counted : List Counter) (packets : List (Face × Packet))
    (fw fw' : Forwarder) : Prop extends SameSetup fw fw' where
  timersHeld : TimersHeld none fw'.pit fw'.timers
  sent : fw'.sent = fw.sent ++ packets
  tallied : Tallied counted fw fw'
  knows : ∀ n, fw'.Knows n → n ∈ names ∨ fw.Knows n

namespace Turn

theorem refl (inv : TimersHeld none fw.pit fw.timers) : Turn [] [] [] fw fw where
  toSameSetup := .refl fw
  timersHeld := inv
  sent := (List.append_nil _).symm
  tallied := .of_eq rfl rfl
  knows _ := .inr

theorem trans (ht : Turn names counted packets fw fw')
    (ht' : Turn names' counted' packets' fw' fw'') :
    Turn (names ++ names') (counted ++ counted') (packets ++ packets') fw fw'' where
  toSameSetup := ht.toSameSetup.trans ht'.toSameSetup
  timersHeld := ht'.timersHeld
  sent := by rw [ht'.sent, ht.sent, List.append_assoc]
  tallied := ht.tallied.trans ht'.tallied
  knows n hk := by
    rw [List.mem_append, or_right_comm]
    exact (ht'.knows n hk).elim .inr fun hk => .inl (ht.knows n hk)

/-- **What the counters show** after a turn. -/
theorem get_counters (ht : Turn names counted packets fw fw') (c : Counter) :
    fw'.counters.get c =
      fw.counters.get c + .ofNat (counted.count c + packets.countP (·.2.counter = c)) := by
  obtain ⟨packets', hsent, hcounters⟩ := ht.tallied
  rw [ht.sent, List.append_cancel_left_eq] at hsent
  rw [hsent]
  exact hcounters c

end Turn

/-- Polling sends and counts nothing. -/
theorem turn_pollTimers (inv : TimersHeld none fw.pit fw.timers) (s : Strategy) (t : Instant) :
    Turn [] [] [] fw (fw.pollTimers s.hooks t) := by
  have hpolled := polled_pollTimers inv s t
  constructor
  case toSameSetup => exact hpolled.toSameSetup
  case timersHeld => exact hpolled.timersHeld
  case sent => exact hpolled.sent.trans (List.append_nil _).symm
  case tallied => exact (accounted_pollTimers s t fw).tallied
  case knows => exact fun n hk => .inr (hk.of_pollTimers inv)

/-! ## The two faces -/

/-- The node has the faces `near`, which is that of an application, and `far`, and no others. -/
structure Connects (near far : Face) (fw : Forwarder) : Prop where
  get?_near : fw.faces.get? near.id = some near
  get?_far : fw.faces.get? far.id = some far
  eq_or_eq : ∀ {f face}, fw.faces.get? f = some face → f = near.id ∨ f = far.id
  ne : near.id ≠ far.id
  near_isValid : near.id.IsValid
  far_isValid : far.id.IsValid
  near_isLocal : near.isLocal = true

namespace Connects

theorem of_sameSetup (hc : Connects near far fw) (hs : SameSetup fw fw') :
    Connects near far fw' where
  get?_near := hs.faces ▸ hc.get?_near
  get?_far := hs.faces ▸ hc.get?_far
  eq_or_eq := hs.faces ▸ hc.eq_or_eq
  ne := hc.ne
  near_isValid := hc.near_isValid
  far_isValid := hc.far_isValid
  near_isLocal := hc.near_isLocal

/-- Of all next hops only the far face can take an Interest of the application. -/
theorem exists_find?_usable (hc : Connects near far fw) {hops : NextHops}
    (hhas : hops.Has far.id) (hscope : ¬ e.ViolatesScope far) :
    ∃ hop, hops.find? (fun hop => Strategy.Usable fw e near.id hop) = some hop ∧
      hop.face = far.id := by
  obtain ⟨hop₀, hmem, hface₀⟩ := hhas
  have husable₀ : Strategy.Usable fw e near.id hop₀ :=
    ⟨hface₀ ▸ hc.ne.symm, far, hface₀ ▸ hc.get?_far, hscope⟩
  have hsome : (hops.find? fun hop => Strategy.Usable fw e near.id hop).isSome :=
    List.find?_isSome.mpr ⟨hop₀, hmem, decide_eq_true husable₀⟩
  obtain ⟨hop, hfind⟩ := Option.isSome_iff_exists.mp hsome
  have husable := List.find?_some hfind
  obtain ⟨hne, face, hget, -⟩ := of_decide_eq_true husable
  exact ⟨hop, hfind, (hc.eq_or_eq hget).resolve_left hne⟩

/-- Data that the application waits for goes to it, and to nobody else. -/
theorem flatMap_delivery (hc : Connects near far fw) {out : List FaceId} (hnodup : out.Nodup)
    (hfar : far.id ∉ out) (hnear : near.id ∈ out) (d : Data) :
    out.flatMap (fw.faces.delivery d) = [(near, .data d)] := by
  have hnear' : fw.faces.delivery d near.id = [(near, .data d)] := by
    simp [FaceTable.delivery, hc.near_isValid, hc.get?_near, hc.near_isLocal]
  have hother : ∀ f ∈ out.erase near.id, fw.faces.delivery d f = [] := by
    intro f hf
    obtain ⟨hne, hf⟩ := (hnodup.mem_erase_iff).mp hf
    rw [List.eq_nil_iff_forall_not_mem]
    intro b hb
    obtain ⟨_, face, hget, _⟩ := FaceTable.mem_delivery.mp hb
    rcases hc.eq_or_eq hget with rfl | rfl
    · exact hne rfl
    · exact hfar hf
  have hperm : (out.flatMap (fw.faces.delivery d)).Perm [(near, .data d)] := by
    refine ((List.perm_cons_erase hnear).flatMap_right _).trans ?_
    rw [List.flatMap_cons, hnear', List.flatMap_eq_nil_iff.mpr hother]
    exact List.Perm.refl _
  exact List.perm_singleton.mp hperm

end Connects

/-! ## The request -/

/-- The request of a new name is a miss. -/
theorem tallied_of_not_knows (acc : Accepted fw near.id i near h pit (fw.pit.freshEntry i))
    (hplain : i.IsPlain) (hnew : ¬ fw.Knows i.name) (s : ForwardingStrategy) :
    Tallied [.inInterests, .csMisses] fw (fw.receiveInterest s.hooks near.id i) := by
  obtain ⟨v, hv, htallied⟩ := acc.exists_verdict s
  cases hv with
  | uncounted hun =>
    obtain ⟨-, hpending, -⟩ := acc.uncounted_iff.mp hun
    cases hpending
  | loop _ hloop => exact absurd hloop acc.notLoop
  | hit _ _ hhit =>
    rw [lookup_of_not_knows hplain.canBePrefix hnew] at hhit
    cases hhit
  | miss => exact htallied

/-- The strategy finds the first request of an entry alone in it. -/
theorem exists_run_of_freshEntry (acc : Accepted fw near.id i near h pit (fw.pit.freshEntry i))
    (hplain : i.IsPlain) (s : Strategy) :
    ∃ fw₁ e, Silent fw fw₁ ∧ fw₁.pit.get? h = some e ∧ e.name = i.name ∧
      e.inRecords = [fw.requestBy near.id near.isLocal i] ∧ e.stragglerTimer = none ∧
      fw.receiveInterest s.hooks near.id i =
        (s.receive ⟨near.id, i⟩ (fw.fib.longestPrefixMatch i.name) h).run fw₁ := by
  obtain ⟨fw₁, id, hsilent, -, hpit, -, heq⟩ := acc.exists_run s
  rw [hplain.arrivedOn_eq] at hpit heq
  have hrequest : (fw.pit.freshEntry i).unarmed.requestOf near.id near.isLocal i fw.now =
      fw.requestBy near.id near.isLocal i := by
    rw [requestBy, hplain.arrivedOn_eq]
    rfl
  have hget : fw₁.pit.get? h = some (((fw.pit.freshEntry i).unarmed.receivedOn near.id
      near.isLocal i fw.now).armedUnsatisfy id) := by rw [hpit, Pit.get?_modify_self acc.get?]
  have hfirst : ¬ ∃ r ∈ (fw.pit.freshEntry i).unarmed.inRecords, r.face = near.id := by
    rintro ⟨_, hr, _⟩
    exact List.not_mem_nil hr
  refine ⟨fw₁, _, hsilent, hget, rfl, ?_, rfl, heq⟩
  rw [← hrequest]
  exact Pit.Entry.receivedOn_of_not_mem hfirst

/-- The strategy sends the one request of the application to the neighbour. -/
theorem Connects.run_bestRoute_eq (hc : Connects near far fw) (hget : fw.pit.get? h = some e)
    (hin : e.inRecords = [r]) (hr : r.isLocal = true) (hscope : ¬ e.name.IsLocalhost)
    {route : Fib.Entry} (hroute : route.nextHops.Has far.id) :
    (Strategy.bestRoute.receive ⟨near.id, i⟩ route h).run fw = fw.sendInterest h far.id false ∧
      (fw.sendInterest h far.id false).sent = fw.sent ++ [(far, .interest r.interest)] := by
  have hcross : ¬ e.ViolatesScope far := by
    rintro ⟨-, hlocalhost | ⟨-, r', hr', hforeign⟩⟩
    · exact hscope hlocalhost
    · rw [hin, List.mem_singleton] at hr'
      rw [hr', hr] at hforeign
      cases hforeign
  obtain ⟨hop, hfind, hhop⟩ := hc.exists_find?_usable hroute hcross
  have hchosen : e.requestFor? far.id = some r := by
    rw [Pit.Entry.requestFor?, hin]
    rfl
  constructor
  · rw [run_bestRoute hget]
    simp only [hfind, hhop]
  · rw [sendInterest_eq hget hc.far_isValid hc.get?_far hcross hchosen, sent_emitInterest]
    rfl

/-- **A request of a new name** goes to the neighbour and waits. -/
theorem turn_request (inv : TimersHeld none fw.pit fw.timers) (hc : Connects near far fw)
    (hplain : i.IsPlain) (hscope : ¬ i.name.IsLocalhost)
    (hroute : (fw.fib.longestPrefixMatch i.name).nextHops.Has far.id) (hnew : ¬ fw.Knows i.name) :
    Turn [i.name] [.inInterests, .csMisses] [(far, .interest i)] fw
        (fw.receiveInterest Strategy.bestRoute.hooks near.id i) ∧
      ∃ h e, e.name = i.name ∧
        (fw.receiveInterest Strategy.bestRoute.hooks near.id i).Awaits near.id
          (fw.requestBy near.id near.isLocal i) h e := by
  have wf := inv.pit_wellFormed
  have hforwards := ForwardingStrategy.bestRoute.forwards
  obtain ⟨h, pit, acc⟩ := exists_accepted_of_not_knows wf hc.get?_near
    hplain.locationRegistration (fun hborder => hscope hborder.2) hplain.canBePrefix hnew
  rw [hplain.arrivedOn_eq] at acc
  obtain ⟨fw₁, e, hsilent, hget, hname, hin, hwaiting, hrun⟩ :=
    exists_run_of_freshEntry acc hplain Strategy.bestRoute
  obtain ⟨hsend, hsent⟩ := (hc.of_sameSetup hsilent.toSameSetup).run_bestRoute_eq hget hin
    hc.near_isLocal (hname ▸ hscope) hroute
  rw [hsend] at hrun
  constructor
  · constructor
    case toSameSetup => exact sameSetup_receiveInterest wf hforwards near.id i
    case timersHeld => exact timersHeld_receiveInterest inv hforwards near.id i
    case sent =>
      rw [hrun, hsent, hsilent.sent, requestBy, hplain.arrivedOn_eq]
    case tallied => exact tallied_of_not_knows acc hplain hnew .bestRoute
    case knows =>
      exact fun n hk => (hk.of_receiveInterest wf hforwards).imp_left List.mem_singleton.mpr
  · have hw : fw₁.Awaits near.id (fw.requestBy near.id near.isLocal i) h e := by
      refine ⟨e, hget, rfl, rfl, ?_, hwaiting⟩
      rw [Pit.Entry.inRecord?, hin]
      exact List.find?_cons_of_pos (decide_eq_true rfl)
    rw [hrun]
    exact ⟨h, e, hname, awaits_sendInterest hw h far.id false⟩

/-! ## The answer -/

/-- **Data that answers the request in time** goes to the application. -/
theorem turn_answer (inv : TimersHeld none fw.pit fw.timers) (hc : Connects near far fw)
    (hw : fw.Awaits near.id r h e) (hearly : fw.now < r.expiry) (hname : d.name = e.name)
    (hplain : d.validation = false) (hscope : ¬ d.name.IsLocalhost) (s : Strategy) :
    Turn [d.name] [.inData] [(near, .data d)] fw (fw.receiveData s.hooks far.id d) := by
  have wf := inv.pit_wellFormed
  have hpush : ¬ d.IsPushed := fun hpush => Bool.false_ne_true (hplain ▸ hpush.1)
  have hborder : ¬ (far.isLocal = false ∧ d.name.IsLocalhost) := fun hborder => hscope hborder.2
  obtain ⟨e', hget, ha⟩ := hw
  have hmem : h ∈ fw.pit.dataMatches d := by
    refine (Pit.mem_dataMatches wf).mpr ⟨e', hget, ?_⟩
    have hsame : e'.interest.name = d.name := by rw [ha.interest, hname, Pit.Entry.name]
    exact Pit.accepts_iff.mpr ⟨hsame ▸ List.prefix_rfl, .inl (congrArg Name.size hsame)⟩
  have hnear : near.id ∈ (fw.waitingFaces (fw.pit.dataMatches d)).filter (· ≠ far.id) := by
    obtain ⟨hr, hface⟩ := Pit.Entry.mem_of_inRecord? ha.request
    rw [List.mem_filter, decide_eq_true_eq]
    exact ⟨mem_waitingFaces.mpr ⟨h, hmem, e', hget, r, hr, hearly, hface⟩, hc.ne⟩
  constructor
  case toSameSetup => exact sameSetup_receiveData s far.id d fw
  case timersHeld => exact timersHeld_receiveData inv s far.id d
  case sent =>
    have hu : Untouched fw ((fw.count .inData).keepAwaited far d) := untouched_keepAwaited far d fw
    have ha := answers_foldl s ⟨far.id, d⟩ (fw.pit.dataMatches d)
      ((fw.count .inData).keepAwaited far d)
    have hkept : ((fw.count .inData).keepAwaited far d).sent = fw.sent := by
      simp only [keepAwaited, hplain, Bool.false_eq_true, false_and, if_false]
      rfl
    rw [receiveData_of_awaited hc.get?_far hpush hborder hmem, answer, sent_foldl_sendData,
      ha.sent, ha.faces, hu.faces, hkept, hu.waitingFaces_eq,
      hc.flatMap_delivery ((nodup_waitingFaces _ fw).filter _) (by simp) hnear]
  case tallied =>
    have hno : ¬ fw.IsUnsolicited far.id d := fun hun => List.ne_nil_of_mem hmem hun.2
    have htallied := tallied_receiveData s far.id d fw
    rwa [if_neg hno] at htallied
  case knows => exact fun n hk => (hk.of_receiveData wf).imp_left List.mem_singleton.mpr

end Forwarder

/-! ## By the clock -/

namespace Service

open Forwarder

variable {s : Service} {near far : Face} {i : Interest} {d : Data} {h : Pit.Handle} {e : Pit.Entry}
  {r : Pit.InRecord} {times : List Instant} {strategy : Strategy}

/-- Wake up at `t`, or at once if the clock shows a later time. -/
def wakeAt (hooks : Hooks) (s : Service) (t : Instant) : Service :=
  { s with clock := max s.clock t }.wake hooks

/-- Wake up at each of the given times. -/
def wakeAll (hooks : Hooks) (times : List Instant) (s : Service) : Service :=
  times.foldl (wakeAt hooks) s

/-- The node of the service is sound, and its clock is not ahead of the service's. -/
structure InStep (s : Service) : Prop where
  timersHeld : TimersHeld none s.forwarder.pit s.forwarder.timers
  now_le : s.forwarder.now ≤ s.clock

/-- The request `r` of the face `f` waits in the entry `e` and has not expired yet. -/
structure Awaits (f : FaceId) (r : Pit.InRecord) (h : Pit.Handle) (e : Pit.Entry) (s : Service) :
    Prop where
  awaits : s.forwarder.Awaits f r h e
  early : s.clock < r.expiry

/-- With a wake-up the node's clock catches up. -/
theorem InStep.now_wakeAt (hs : s.InStep) (t : Instant) :
    (s.wakeAt strategy.hooks t).forwarder.now = (s.wakeAt strategy.hooks t).clock := by
  have hnow := now_pollTimers hs.timersHeld strategy (max s.clock t)
  have hle := Nat.le_trans hs.now_le (Nat.le_max_left s.clock t)
  rwa [Nat.max_eq_right hle] at hnow

theorem InStep.wakeAt (hs : s.InStep) (t : Instant) : (s.wakeAt strategy.hooks t).InStep where
  timersHeld := (polled_pollTimers hs.timersHeld strategy _).timersHeld
  now_le := Nat.le_of_eq (hs.now_wakeAt t)

theorem InStep.turn_wakeAt (hs : s.InStep) (t : Instant) :
    Turn [] [] [] s.forwarder (s.wakeAt strategy.hooks t).forwarder :=
  turn_pollTimers hs.timersHeld strategy _

theorem Awaits.wakeAt {f : FaceId} (hw : s.Awaits f r h e) (hs : s.InStep) {t : Instant}
    (ht : t < r.expiry) : (s.wakeAt strategy.hooks t).Awaits f r h e :=
  have hearly : max s.clock t < r.expiry := Nat.max_lt.mpr ⟨hw.early, ht⟩
  ⟨awaits_pollTimers hs.timersHeld strategy hw.awaits hearly, hearly⟩

/-- Any number of wake-ups sends and counts nothing. -/
theorem InStep.wakeAll (hs : s.InStep) (strategy : Strategy) (times : List Instant) :
    (s.wakeAll strategy.hooks times).InStep ∧
      Turn [] [] [] s.forwarder (s.wakeAll strategy.hooks times).forwarder := by
  induction times generalizing s with
  | nil => exact ⟨hs, .refl hs.timersHeld⟩
  | cons t rest ih =>
    obtain ⟨hs', hturn⟩ := ih (hs.wakeAt t)
    exact ⟨hs', (hs.turn_wakeAt t).trans hturn⟩

/-- The request outlives wake-ups before it expires. -/
theorem Awaits.wakeAll {f : FaceId} (hw : s.Awaits f r h e) (hs : s.InStep)
    (htimes : ∀ t ∈ times, t < r.expiry) :
    (s.wakeAll strategy.hooks times).Awaits f r h e := by
  induction times generalizing s with
  | nil => exact hw
  | cons t rest ih =>
    obtain ⟨ht, hrest⟩ := List.forall_mem_cons.mp htimes
    exact ih (hw.wakeAt hs ht) (hs.wakeAt t) hrest

/-- An event finds a node whose timers were polled, and they are polled again after it. -/
theorem handle_eq (hooks : Hooks) (event : FaceEvent) (s : Service) :
    s.handle hooks event =
      ({ s with forwarder := apply hooks event (s.wakeAt hooks s.clock).forwarder } :
        Service).wakeAt hooks s.clock := by
  simp only [handle, wakeAt, wake, Nat.max_self]

/-- **A request of a new name** goes to the neighbour. It is still there when the service has
attended to it. -/
theorem InStep.handle_request (hs : s.InStep) (hc : Connects near far s.forwarder)
    (hplain : i.IsPlain) (hscope : ¬ i.name.IsLocalhost)
    (hroute : (s.forwarder.fib.longestPrefixMatch i.name).nextHops.Has far.id)
    (hnew : ¬ s.forwarder.Knows i.name)
    (hlifetime : 0 < i.lifetime.getD s.forwarder.pit.defaultLifetime) :
    let s' := s.handle Strategy.bestRoute.hooks (.interestReceived near.id i)
    s'.InStep ∧
      Turn [i.name] [.inInterests, .csMisses] [(far, .interest i)] s.forwarder s'.forwarder ∧
      ∃ h e r, e.name = i.name ∧
        r.expiry = s'.clock + i.lifetime.getD s.forwarder.pit.defaultLifetime ∧
        s'.Awaits near.id r h e := by
  intro s'
  let s₁ := s.wakeAt Strategy.bestRoute.hooks s.clock
  have hs₁ : s₁.InStep := hs.wakeAt s.clock
  have hturn₁ : Turn [] [] [] s.forwarder s₁.forwarder := hs.turn_wakeAt s.clock
  have hnow₁ : s₁.forwarder.now = s.clock := (hs.now_wakeAt s.clock).trans (Nat.max_self s.clock)
  have hnew₁ : ¬ s₁.forwarder.Knows i.name := fun hk =>
    hnew ((hturn₁.knows i.name hk).resolve_left List.not_mem_nil)
  obtain ⟨hturn₂, h, e, hname, hw⟩ := turn_request hs₁.timersHeld
    (hc.of_sameSetup hturn₁.toSameSetup) hplain hscope (hturn₁.fib ▸ hroute) hnew₁
  let s₂ : Service :=
    { s with forwarder := s₁.forwarder.receiveInterest Strategy.bestRoute.hooks near.id i }
  have hnow₂ : s₂.forwarder.now = s.clock :=
    (now_perform hs₁.timersHeld ⟨.bestRoute, .interest near.id i⟩).trans hnow₁
  have hs₂ : s₂.InStep := ⟨hturn₂.timersHeld, Nat.le_of_eq hnow₂⟩
  have hexpiry : (s₁.forwarder.requestBy near.id near.isLocal i).expiry =
      s.clock + i.lifetime.getD s.forwarder.pit.defaultLifetime := by
    rw [requestBy, hnow₁, hturn₁.defaultLifetime]
  have hw₂ : s₂.Awaits near.id (s₁.forwarder.requestBy near.id near.isLocal i) h e :=
    ⟨hw, hexpiry ▸ Nat.lt_add_of_pos_right hlifetime⟩
  have hs' : s' = s₂.wakeAt Strategy.bestRoute.hooks s.clock := handle_eq _ _ s
  have hclock : s'.clock = s.clock := by
    rw [hs']
    exact Nat.max_self s.clock
  rw [hclock, hs']
  exact ⟨hs₂.wakeAt s.clock, (hturn₁.trans hturn₂).trans (hs₂.turn_wakeAt s.clock),
    h, e, _, hname, hexpiry, hw₂.wakeAt hs₂ hw₂.early⟩

/-- **Data that answers the request in time** goes to the application. -/
theorem InStep.handle_answer (hs : s.InStep) (hc : Connects near far s.forwarder)
    (hw : s.Awaits near.id r h e) (hname : d.name = e.name) (hplain : d.validation = false)
    (hscope : ¬ d.name.IsLocalhost) :
    let s' := s.handle Strategy.bestRoute.hooks (.dataReceived far.id d)
    s'.InStep ∧ Turn [d.name] [.inData] [(near, .data d)] s.forwarder s'.forwarder := by
  intro s'
  let s₁ := s.wakeAt Strategy.bestRoute.hooks s.clock
  have hs₁ : s₁.InStep := hs.wakeAt s.clock
  have hturn₁ : Turn [] [] [] s.forwarder s₁.forwarder := hs.turn_wakeAt s.clock
  have hnow₁ : s₁.forwarder.now = s.clock := (hs.now_wakeAt s.clock).trans (Nat.max_self s.clock)
  have hw₁ : s₁.Awaits near.id r h e := hw.wakeAt hs hw.early
  have hturn₂ := turn_answer hs₁.timersHeld (hc.of_sameSetup hturn₁.toSameSetup) hw₁.awaits
    (hnow₁ ▸ hw.early) hname hplain hscope Strategy.bestRoute
  let s₂ : Service :=
    { s with forwarder := s₁.forwarder.receiveData Strategy.bestRoute.hooks far.id d }
  have hs₂ : s₂.InStep := by
    refine ⟨hturn₂.timersHeld, Nat.le_of_eq ?_⟩
    exact (now_perform hs₁.timersHeld ⟨.bestRoute, .data far.id d⟩).trans hnow₁
  have hs' : s' = s₂.wakeAt Strategy.bestRoute.hooks s.clock := handle_eq _ _ s
  rw [hs']
  exact ⟨hs₂.wakeAt s.clock, (hturn₁.trans hturn₂).trans (hs₂.turn_wakeAt s.clock)⟩

end Service

end NamedData
