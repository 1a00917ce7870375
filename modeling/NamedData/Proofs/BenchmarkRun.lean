import NamedData.Benchmark
import NamedData.Proofs.Exchange
import NamedData.Proofs.Replay
import NamedData.Proofs.RouteSettings

/-!
# The exchanges of a benchmark

A benchmark asks for one new name after the other. Every answer that comes in time reaches the
application, whatever the earlier exchanges have left in the tables of the node, and whenever the
service wakes up in between: no table holds a name before it is asked for, and the one next hop
that can be used is the neighbour.

## Main definitions

* `Benchmark.Pace` and `Benchmark.exchangeAt`, an exchange with wake-ups at given times
* `Benchmark.Ready`, the invariant between two exchanges
* `Benchmark.AllAnswered`, what a benchmark shows in the end

## Main statements

* `Benchmark.Ready.exchangeAt`, one exchange, and `Benchmark.Ready.replay`, any number of them
* `Benchmark.exists_replay_eq_run`: the benchmark as it runs is one of those
* `Benchmark.exists_start_eq`, and the result, `Benchmark.all_answered`
-/
namespace NamedData

/-! ## The names -/

/-- Different texts are different components. -/
theorem Component.ofChars_injective {s s' : List Char}
    (h : Component.ofChars s = Component.ofChars s') : s = s' := by
  have hbytes : s.utf8Encode = s'.utf8Encode := congrArg (fun c => c.bytes.toByteArray) h
  exact String.ofList_injective (String.toByteArray_inj.mp hbytes)

namespace Benchmark

variable {b : Benchmark}

/-- The name that is asked for after `k` exchanges. -/
def nameAt (b : Benchmark) (k : Nat) : Name := b.under.append (.ofChars (Nat.toDigits 10 k))

/-- The Interest of the next exchange. -/
def request (b : Benchmark) : Interest where
  name := b.nameAt b.sent
  nonce := UInt32.ofNat b.sent

/-- The Data that the neighbour sends after `k` exchanges. -/
def answerAt (b : Benchmark) (k : Nat) : Data where
  name := b.nameAt k
  content := content

theorem nameAt_injective {k k' : Nat} (h : b.nameAt k = b.nameAt k') : k = k' := by
  have hlast := List.append_cancel_left (Name.mk.inj h)
  exact eq_of_toDigits_eq (Component.ofChars_injective (List.singleton_inj.mp hlast))

/-- A number is not the text `localhost`. -/
theorem ofChars_toDigits_ne_localhost (k : Nat) :
    Component.ofChars (Nat.toDigits 10 k) ≠ Name.localhost := by
  intro h
  refine not_mem_toDigits (c := 'l') rfl k ?_
  rw [Component.ofChars_injective h]
  decide

theorem not_isLocalhost_nameAt (hscope : ¬ b.under.IsLocalhost) (k : Nat) :
    ¬ (b.nameAt k).IsLocalhost := by
  unfold Name.IsLocalhost at hscope ⊢
  rw [nameAt, Name.append, List.head?_append]
  cases hhead : b.under.components.head? with
  | none => exact fun h => ofChars_toDigits_ne_localhost k (Option.some.inj h)
  | some first => exact fun h => hscope (hhead.trans h)

/-! ## Exchanges at any pace -/

/-- When the service wakes up in the course of an exchange. -/
structure Pace where
  /-- Before the Interest comes. -/
  before : List Instant
  /-- How long after the Interest. The answer comes at the latest of these. -/
  waiting : List Millis
  /-- After the answer. -/
  after : List Instant
  /-- When the next exchange may begin. -/
  rest : Instant

/-- The answer comes before the Interest expires. -/
def Pace.InTime (p : Pace) (lifetime : Millis) : Prop := ∀ delay ∈ p.waiting, delay < lifetime

/-- The neighbour answers what it has been sent. -/
def withReplies (b : Benchmark) (s : Service) : Service :=
  ((packetsOn producerLink s.forwarder.events).filterMap reply).foldl
    (fun s d => s.handle Strategy.bestRoute.hooks (.dataReceived b.producer d)) s

/-- An exchange is over when the service is in the state `s`. -/
def concluded (b : Benchmark) (isAnswered : Bool) (s : Service) : Benchmark :=
  { b with
    service := { s with forwarder := { s.forwarder with journal := [] } }
    sent := b.sent + 1
    answered := if isAnswered then b.answered + 1 else b.answered }

/-- The service when the neighbour answers the Interest. -/
def askedAt (p : Pace) (b : Benchmark) : Service :=
  let hooks := Strategy.bestRoute.hooks
  let s := (b.service.wakeAll hooks p.before).handle hooks (.interestReceived b.consumer b.request)
  s.wakeAll hooks (p.waiting.map (s.clock + ·))

/-- One exchange with wake-ups at the given times, and what the application receives in it. -/
def exchangeAt (p : Pace) (b : Benchmark) : List Packet × Benchmark :=
  let s := b.withReplies (askedAt p b)
  let received := packetsOn consumerLink s.forwarder.events
  let s := s.wakeAll Strategy.bestRoute.hooks p.after
  (received, b.concluded (!received.isEmpty) { s with clock := max s.clock p.rest })

theorem exchange_eq (b : Benchmark) :
    b.exchange =
      let hooks := Strategy.bestRoute.hooks
      let s := b.withReplies (b.service.handle hooks (.interestReceived b.consumer b.request))
      let isAnswered := !(packetsOn consumerLink s.forwarder.events).isEmpty
      b.concluded isAnswered (s.sleep hooks (if isAnswered then 1 else b.patience)) := by
  unfold exchange concluded withReplies request nameAt
  -- What the node does is the same on both sides and stays folded.
  with_reducible rfl

end Benchmark

/-- A service that sleeps wakes up at certain times. -/
theorem Service.exists_wakeUntil_eq (hooks : Hooks) (t : Instant) (n : Nat) (s : Service) :
    ∃ times, s.wakeUntil hooks t n = s.wakeAll hooks times ∧
      (s.wakeUntil hooks t n).clock ≤ max s.clock t := by
  induction n generalizing s with
  | zero => exact ⟨[], rfl, Nat.le_max_left _ _⟩
  | succ n ih =>
    rw [wakeUntil]
    split
    · exact ⟨[], rfl, Nat.le_max_left _ _⟩
    · next deadline _ =>
      split
      · next hdue =>
        obtain ⟨times, heq, hclock⟩ := ih (s.wakeAt hooks deadline)
        have hclock' : max (s.wakeAt hooks deadline).clock t = max s.clock t := by
          rw [wakeAt, wake, Nat.max_assoc, Nat.max_eq_right hdue]
        exact ⟨deadline :: times, heq, hclock' ▸ hclock⟩
      · exact ⟨[], rfl, Nat.le_max_left _ _⟩

theorem Service.exists_sleep_eq (hooks : Hooks) (duration : Millis) (s : Service) :
    ∃ times t, s.sleep hooks duration =
      ⟨(s.wakeAll hooks times).forwarder, max (s.wakeAll hooks times).clock t⟩ := by
  obtain ⟨times, heq, hclock⟩ :=
    s.exists_wakeUntil_eq hooks (s.clock + duration) s.forwarder.timers.size
  rw [Nat.max_eq_right (Nat.le_add_right _ _), heq] at hclock
  refine ⟨times, s.clock + duration, ?_⟩
  rw [sleep, heq, Nat.max_eq_right hclock]

namespace Benchmark

open Forwarder (Turn)

variable {b : Benchmark} {p : Pace} {paces : List Pace}

/-- **An exchange of the benchmark** is one in which the answer comes at once. -/
theorem exists_exchangeAt_eq (b : Benchmark) :
    ∃ p : Pace, p.waiting = [] ∧ (exchangeAt p b).2 = b.exchange := by
  let hooks := Strategy.bestRoute.hooks
  let s := b.withReplies (b.service.handle hooks (.interestReceived b.consumer b.request))
  let isAnswered := !(packetsOn consumerLink s.forwarder.events).isEmpty
  obtain ⟨times, t, heq⟩ := s.exists_sleep_eq hooks (if isAnswered then 1 else b.patience)
  refine ⟨⟨[], [], times, t⟩, rfl, ?_⟩
  rw [exchange_eq]
  refine Eq.trans ?_ (congrArg (b.concluded isAnswered) heq.symm)
  simp only [exchangeAt, askedAt, List.map_nil, Service.wakeAll, List.foldl_nil, hooks, s,
    isAnswered]

/-! ## One exchange -/

/-- The face of the application. -/
def near (b : Benchmark) : Face := ⟨b.consumer, true, consumerLink⟩

/-- The face of the neighbour. -/
def far (b : Benchmark) : Face := ⟨b.producer, false, producerLink⟩

/-- What one exchange counts. -/
def exchangeCounters : List Counter := [.inInterests, .outInterests, .inData, .outData, .csMisses]

/-- All Interests so far were answered, and the benchmark can go on. -/
structure Ready (b : Benchmark) : Prop where
  inStep : b.service.InStep
  connects : Forwarder.Connects b.near b.far b.service.forwarder
  sent : b.service.forwarder.sent = []
  defaultLifetime : b.service.forwarder.pit.defaultLifetime = b.patience
  patience_pos : 0 < b.patience
  not_isLocalhost : ¬ b.under.IsLocalhost
  /-- The neighbour is a next hop for every name. -/
  routed : ∀ k, (b.service.forwarder.fib.longestPrefixMatch (b.nameAt k)).nextHops.Has b.producer
  /-- No table holds a name that is still to come. -/
  isNew : ∀ k, b.sent ≤ k → ¬ b.service.forwarder.Knows (b.nameAt k)
  answered : b.answered = b.sent
  counters : ∀ c, b.service.forwarder.counters.get c = .ofNat (b.sent * exchangeCounters.count c)

theorem packetsOn_events (link : Nat) (fw : Forwarder) :
    packetsOn link fw.events = (fw.sent.filter (·.1.link = link)).map Prod.snd := by
  unfold packetsOn Forwarder.sent
  induction fw.events with
  | nil => rfl
  | cons event rest ih =>
    cases event
    case sent face packet =>
      by_cases hlink : face.link = link
      · simp [Event.sent?, hlink, ih]
      · simp [Event.sent?, hlink, ih]
    all_goals exact ih

/-- The Interest is with the neighbour, and still waits for the answer. -/
theorem Ready.askedAt (hb : b.Ready) (hp : p.InTime b.patience) :
    (askedAt p b).InStep ∧
      Turn [b.nameAt b.sent] [.inInterests, .csMisses] [(b.far, .interest b.request)]
        b.service.forwarder (askedAt p b).forwarder ∧
      ∃ h e r, e.name = b.nameAt b.sent ∧ (askedAt p b).Awaits b.consumer r h e := by
  let hooks := Strategy.bestRoute.hooks
  let s := b.service.wakeAll hooks p.before
  let s' := s.handle hooks (.interestReceived b.consumer b.request)
  obtain ⟨hs, hturn⟩ := hb.inStep.wakeAll .bestRoute p.before
  have hnew : ¬ s.forwarder.Knows b.request.name := fun hk =>
    hb.isNew b.sent (Nat.le_refl _) ((hturn.knows _ hk).resolve_left List.not_mem_nil)
  have hlifetime : b.request.lifetime.getD s.forwarder.pit.defaultLifetime = b.patience :=
    hturn.defaultLifetime.trans hb.defaultLifetime
  obtain ⟨hs', hturn', h, e, r, hname, hexpiry, hw⟩ := hs.handle_request
    (hb.connects.of_sameSetup hturn.toSameSetup) ⟨rfl, rfl, rfl⟩
    (not_isLocalhost_nameAt hb.not_isLocalhost b.sent) (hturn.fib ▸ hb.routed b.sent) hnew
    (hlifetime ▸ hb.patience_pos)
  rw [hlifetime] at hexpiry
  have hearly : ∀ t ∈ p.waiting.map (s'.clock + ·), t < r.expiry := by
    intro t ht
    obtain ⟨delay, hdelay, rfl⟩ := List.mem_map.mp ht
    exact hexpiry ▸ Nat.add_lt_add_left (hp delay hdelay) s'.clock
  obtain ⟨hs'', hturn''⟩ := hs'.wakeAll .bestRoute (p.waiting.map (s'.clock + ·))
  exact ⟨hs'', (hturn.trans hturn').trans hturn'', h, e, r, hname, hw.wakeAll hs' hearly⟩

/-- The answer is with the application. -/
theorem Ready.withReplies_askedAt (hb : b.Ready) (hp : p.InTime b.patience) :
    let s := b.withReplies (Benchmark.askedAt p b)
    s.InStep ∧
      Turn [b.nameAt b.sent, b.nameAt b.sent] [.inInterests, .csMisses, .inData]
        [(b.far, .interest b.request), (b.near, .data (b.answerAt b.sent))]
        b.service.forwarder s.forwarder := by
  obtain ⟨hs, hturn, h, e, r, hname, hw⟩ := hb.askedAt hp
  have hreplies : (packetsOn producerLink (Benchmark.askedAt p b).forwarder.events).filterMap
      reply = [b.answerAt b.sent] := by
    rw [packetsOn_events, hturn.sent, hb.sent]
    rfl
  obtain ⟨hs', hturn'⟩ := hs.handle_answer (d := b.answerAt b.sent)
    (hb.connects.of_sameSetup hturn.toSameSetup) hw hname.symm rfl
    (not_isLocalhost_nameAt hb.not_isLocalhost b.sent)
  rw [withReplies, hreplies]
  exact ⟨hs', hturn.trans hturn'⟩

/-- What the tables have got to know in the exchange is never asked for again. -/
theorem Ready.concluded (hb : b.Ready) {s : Service} (hs : s.InStep)
    (hturn : Turn [b.nameAt b.sent, b.nameAt b.sent] [.inInterests, .csMisses, .inData]
      [(b.far, .interest b.request), (b.near, .data (b.answerAt b.sent))]
      b.service.forwarder s.forwarder) : (b.concluded true s).Ready where
  inStep := ⟨hs.timersHeld, hs.now_le⟩
  connects := hb.connects.of_sameSetup
    ⟨hturn.faces, hturn.fib, hturn.stragglerTime, hturn.observers, hturn.defaultLifetime⟩
  sent := rfl
  defaultLifetime := hturn.defaultLifetime.trans hb.defaultLifetime
  patience_pos := hb.patience_pos
  not_isLocalhost := hb.not_isLocalhost
  routed := hturn.fib ▸ hb.routed
  isNew k hk hknows := by
    have hknows' : s.forwarder.Knows (b.nameAt k) := by
      refine Forwarder.Knows.of_eq ?_ ?_ ?_ hknows <;> rfl
    -- Only the name just asked for is new to the tables, and its number is in the past.
    rcases hturn.knows _ hknows' with hmem | hknown
    · have hname : b.nameAt k = b.nameAt b.sent := by simpa using hmem
      exact Nat.ne_of_gt hk (nameAt_injective hname)
    · exact hb.isNew k (Nat.le_of_succ_le hk) hknown
  answered := congrArg (· + 1) hb.answered
  counters c := by
    have hcount : [Counter.inInterests, .csMisses, .inData].count c +
        [(b.far, Packet.interest b.request), (b.near, .data (b.answerAt b.sent))].countP
          (·.2.counter = c) = exchangeCounters.count c := by
      cases c <;> rfl
    change s.forwarder.counters.get c = .ofNat ((b.sent + 1) * _)
    rw [hturn.get_counters c, hb.counters c, hcount, ← UInt64.ofNat_add, Nat.succ_mul]

/-- **One exchange.** The application receives the answer to its Interest, and nothing else. -/
theorem Ready.exchangeAt (hb : b.Ready) (hp : p.InTime b.patience) :
    (exchangeAt p b).1 = [.data (b.answerAt b.sent)] ∧ (exchangeAt p b).2.Ready := by
  obtain ⟨hs, hturn⟩ := hb.withReplies_askedAt hp
  have hreceived : packetsOn consumerLink (b.withReplies (Benchmark.askedAt p b)).forwarder.events =
      [.data (b.answerAt b.sent)] := by
    rw [packetsOn_events, hturn.sent, hb.sent]
    rfl
  obtain ⟨hs', hturn'⟩ := hs.wakeAll .bestRoute p.after
  unfold Benchmark.exchangeAt
  simp only [hreceived]
  refine ⟨trivial, hb.concluded ⟨hs'.timersHeld, ?_⟩ (hturn.trans hturn')⟩
  exact Nat.le_trans hs'.now_le (Nat.le_max_left _ _)

/-! ## Any number of exchanges -/

/-- **Exchange after exchange.** The application receives the answers in the order of its
Interests. -/
theorem Ready.replay (hb : b.Ready) (hpaces : ∀ p ∈ paces, p.InTime b.patience) :
    (replay Benchmark.exchangeAt paces b).1 =
        (List.range' b.sent paces.length).map (fun k => [.data (b.answerAt k)]) ∧
      (replay Benchmark.exchangeAt paces b).2.sent = b.sent + paces.length ∧
      (replay Benchmark.exchangeAt paces b).2.Ready := by
  induction paces generalizing b with
  | nil => exact ⟨rfl, rfl, hb⟩
  | cons p rest ih =>
    obtain ⟨hp, hrest⟩ := List.forall_mem_cons.mp hpaces
    obtain ⟨hreceived, hb'⟩ := hb.exchangeAt hp
    obtain ⟨hreplies, hsent, hready⟩ := ih hb' hrest
    rw [replay]
    refine ⟨?_, hsent.trans (Nat.succ_add_eq_add_succ _ _), hready⟩
    rw [hreceived, hreplies]
    rfl

theorem run_succ (n : Nat) (b : Benchmark) : b.run (n + 1) = (b.run n).exchange := by
  rw [run, Nat.repeat, ← run]

/-- **The benchmark** is a sequence of exchanges in which every answer comes at once. -/
theorem exists_replay_eq_run (n : Nat) (b : Benchmark) :
    ∃ paces : List Pace, paces.length = n ∧ (∀ p ∈ paces, p.waiting = []) ∧
      (replay exchangeAt paces b).2 = b.run n := by
  induction n with
  | zero => exact ⟨[], rfl, fun _ hp => absurd hp List.not_mem_nil, rfl⟩
  | succ n ih =>
    obtain ⟨paces, hlength, hwaiting, hrun⟩ := ih
    obtain ⟨p, hp, hexchange⟩ := exists_exchangeAt_eq (b.run n)
    refine ⟨paces ++ [p], by rw [List.length_append, hlength]; rfl, ?_, ?_⟩
    · rw [List.forall_mem_append]
      exact ⟨hwaiting, List.forall_mem_singleton.mpr hp⟩
    · rw [replay_concat, hrun, run_succ]
      exact hexchange

/-! ## The start -/

variable {c : Config} {under : Name}

/-- The two faces of the benchmark are the first ones of the node. -/
theorem connects_of_faces_eq {fw : Forwarder}
    (hfaces : fw.faces = ((FaceTable.empty.add true consumerLink).2.add false producerLink).2) :
    Forwarder.Connects ⟨⟨256⟩, true, consumerLink⟩ ⟨⟨257⟩, false, producerLink⟩ fw where
  get?_near := by
    rw [hfaces]
    decide
  get?_far := by
    rw [hfaces]
    decide
  eq_or_eq := by
    intro f face hget
    rw [hfaces, FaceTable.get?_add, FaceTable.get?_add] at hget
    split at hget
    · next hsecond => exact .inr hsecond.1
    · split at hget
      · next hfirst => exact .inl hfirst.1
      · cases hget
  ne := by decide
  near_isValid := by decide
  far_isValid := by decide
  near_isLocal := rfl

/-- **The benchmark can start**, whatever routes are configured besides its own, unless one of
them is more specific. -/
theorem exists_start_eq (hvalid : c.validate = .ok ()) (hscope : ¬ under.IsLocalhost)
    (hroutes : ∀ n, c.HasPrefix n → under.IsPrefixOf n → n = under) :
    ∃ b : Benchmark, start c under = .ok b ∧ b.under = under ∧
      b.patience = c.interestLifetime.toNat ∧ b.sent = 0 ∧ b.Ready := by
  obtain ⟨fw, hok⟩ := (Forwarder.exists_ofConfig_iff c (.cycle 0 []) 0).mpr hvalid
  have hnew : Forwarder.IsNew fw := ⟨c, _, _, hok⟩
  have inv := Forwarder.timersHeld_of_isNew hnew
  obtain ⟨_, routes, hparsed, hfw⟩ := Forwarder.ofConfig_eq_ok_iff.mp hok
  rw [Forwarder.foldl_addRoute_build] at hfw
  obtain ⟨-, hlifetime, -⟩ := Config.validate_eq_ok_iff.mp hvalid
  subst hfw
  unfold start
  rw [hok]
  refine ⟨_, rfl, rfl, rfl, rfl, ?_⟩
  constructor
  case inStep => exact ⟨inv, Nat.le_refl _⟩
  case connects => exact connects_of_faces_eq rfl
  case sent => rfl
  case defaultLifetime => rfl
  case patience_pos => exact Nat.pos_of_ne_zero fun h => hlifetime (UInt64.toNat_inj.mp h)
  case not_isLocalhost => exact hscope
  case routed =>
    intro k
    refine (Fib.mirrors_after _).has_of_addNextHop (List.prefix_append _ _) (fun p hp => ?_) _ 0
    exact hroutes p ((Config.hasRoute_iff hparsed).mp hp)
  case isNew =>
    intro k _ hk
    refine hnew.not_knows _ (Forwarder.Knows.of_eq ?_ ?_ ?_ hk) <;> rfl
  case answered => rfl
  case counters =>
    intro counter
    rw [Nat.zero_mul]
    cases counter <;> rfl

/-! ## The result -/

/-- The application has sent `n` Interests and has received Data for each of them. In the end the
node has counted every packet twice, when it came and when it left, and a miss for every Interest,
and nothing else. -/
structure AllAnswered (n : Nat) (b : Benchmark) : Prop where
  sent : b.sent = n
  answered : b.answered = n
  counters : (b.service.stop Strategy.bestRoute.hooks).counters =
    { inInterests := .ofNat n, outInterests := .ofNat n, inData := .ofNat n, outData := .ofNat n
      csHits := 0, csMisses := .ofNat n, interestLoops := 0, unsolicitedData := 0 }

theorem Ready.allAnswered (hb : b.Ready) : AllAnswered b.sent b where
  sent := rfl
  answered := hb.answered
  counters := by
    refine Counters.eq_of_get fun c => ?_
    have hturn : Turn [] [] [] b.service.forwarder (b.service.stop Strategy.bestRoute.hooks) :=
      Forwarder.turn_pollTimers hb.inStep.timersHeld .bestRoute b.service.clock
    have hget : (b.service.stop Strategy.bestRoute.hooks).counters.get c =
        .ofNat (b.sent * exchangeCounters.count c) := by
      rw [hturn.get_counters c, hb.counters c]
      exact UInt64.add_zero _
    rw [hget]
    cases c <;> simp [exchangeCounters, Counters.get]

/-- **Every Interest of the benchmark is answered.** Whatever else is configured, and whenever the
service wakes up, the application receives the Data of its Interests, each in its exchange, if no
answer is later than the lifetime of its Interest. -/
theorem all_answered (hvalid : c.validate = .ok ()) (hscope : ¬ under.IsLocalhost)
    (hroutes : ∀ n, c.HasPrefix n → under.IsPrefixOf n → n = under) :
    ∃ b, start c under = .ok b ∧ b.under = under ∧
      (∀ paces : List Pace, (∀ p ∈ paces, p.InTime c.interestLifetime.toNat) →
        (replay exchangeAt paces b).1 =
            (List.range paces.length).map (fun k => [.data (b.answerAt k)]) ∧
          AllAnswered paces.length (replay exchangeAt paces b).2) ∧
      ∀ n, AllAnswered n (b.run n) := by
  obtain ⟨b, hstart, hunder, hpatience, hsent, hready⟩ := exists_start_eq hvalid hscope hroutes
  rw [← hpatience]
  have hreplay (paces : List Pace) (hpaces : ∀ p ∈ paces, p.InTime b.patience) :
      (replay exchangeAt paces b).1 =
          (List.range paces.length).map (fun k => [.data (b.answerAt k)]) ∧
        AllAnswered paces.length (replay exchangeAt paces b).2 := by
    obtain ⟨hreceived, hsent', hready'⟩ := hready.replay hpaces
    rw [hsent, Nat.zero_add] at hsent'
    rw [hsent, ← List.range_eq_range'] at hreceived
    exact ⟨hreceived, hsent' ▸ hready'.allAnswered⟩
  refine ⟨b, hstart, hunder, hreplay, fun n => ?_⟩
  -- The benchmark as it runs has no delays, so all its answers are in time.
  obtain ⟨paces, rfl, hwaiting, hrun⟩ := exists_replay_eq_run n b
  have hpaces : ∀ p ∈ paces, p.InTime b.patience := by
    intro p hp
    rw [Pace.InTime, hwaiting p hp]
    exact List.forall_mem_nil _
  exact hrun ▸ (hreplay paces hpaces).2

/-- Routes for the prefix itself and for a shorter one, also to the faces of the benchmark, and
hardly any room in the tables. -/
def crowded : Config where
  stragglerTime := 0
  deadNonceCapacity := 1
  storeCapacity := 2
  routes := [⟨"/bench", 256, 0⟩, ⟨"/bench", 257, 9⟩, ⟨"/", 256, 3⟩, ⟨"/other/bench", 300, 0⟩]

/-- The first answer comes in the last millisecond, the second one at once. -/
def lateAndEarly : List Pace := [⟨[], [7, 3999], [9000], 20000⟩, ⟨[30000, 5], [], [], 0⟩]

theorem all_answered_crowded :
    let bench : Name := ⟨[.ofChars ['b', 'e', 'n', 'c', 'h']]⟩
    crowded.validate = .ok () ∧ ¬ bench.IsLocalhost ∧
      (∀ n, crowded.HasPrefix n → bench.IsPrefixOf n → n = bench) ∧
      (∀ p ∈ lateAndEarly, p.InTime crowded.interestLifetime.toNat) ∧
      ∃ b, start crowded bench = .ok b ∧
        (replay exchangeAt lateAndEarly b).1 =
          [[.data (b.answerAt 0)], [.data (b.answerAt 1)]] ∧
        AllAnswered 2 (replay exchangeAt lateAndEarly b).2 ∧
        AllAnswered 5 (b.run 5) := by
  intro bench
  have hvalid : crowded.validate = .ok () := by decide
  have hscope : ¬ bench.IsLocalhost := by decide
  have hroutes : ∀ n, crowded.HasPrefix n → bench.IsPrefixOf n → n = bench := by
    rintro n ⟨r, hr, hdenotes⟩ hprefix
    have hread : Name.parse? "/bench" = .ok bench := by decide
    have hroot : Name.parse? "/" = .ok .root := by decide
    have hother : Name.parse? "/other/bench" =
      .ok ⟨[.ofChars ['o', 't', 'h', 'e', 'r'], .ofChars ['b', 'e', 'n', 'c', 'h']]⟩ := by decide
    simp only [crowded, List.mem_cons, List.not_mem_nil, or_false] at hr
    rcases hr with rfl | rfl | rfl | rfl
    · exact Except.ok.inj (hdenotes.symm.trans hread)
    · exact Except.ok.inj (hdenotes.symm.trans hread)
    · obtain rfl := Except.ok.inj (hdenotes.symm.trans hroot)
      exact absurd hprefix (by decide)
    · obtain rfl := Except.ok.inj (hdenotes.symm.trans hother)
      exact absurd hprefix (by decide)
  have hpaces : ∀ p ∈ lateAndEarly, p.InTime crowded.interestLifetime.toNat := by
    unfold Pace.InTime
    decide
  obtain ⟨b, hstart, _, hreplay, hrun⟩ := all_answered hvalid hscope hroutes
  obtain ⟨hreceived, hreplayed⟩ := hreplay lateAndEarly hpaces
  exact ⟨hvalid, hscope, hroutes, hpaces, b, hstart, hreceived, hreplayed, hrun 5⟩

end Benchmark

end NamedData
