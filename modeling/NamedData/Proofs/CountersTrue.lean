import NamedData.Proofs.FlowBalance
import NamedData.Proofs.Forwarder.Tally
import NamedData.Proofs.LocationRegistration

/-!
# The counters tell the truth

A counter of a node shows what has happened since the node was new, as long as that is fewer times
than a 64-bit word can hold: the calls that brought Interests and Data, the packets that were handed
to registered faces, and the Data that nobody waited for. The counters for loops, hits and misses go
up in no other step than the arrival of an Interest, and then only one of them and by one, if at
all.

## Main definitions

* `Step.CountsVerdict`, what becomes of the counters for loops, hits and misses
* `Forwarder.CountersTrue`

## Main statements

* `Forwarder.tallied_perform`: what a step counts
* `Forwarder.registered_of_mem_output`: packets leave through registered faces
* `Forwarder.get_counters_run`: what a run counts
* `Forwarder.counters_true`
-/
namespace NamedData

/-! ## Steps -/

def Packet.isInterest : Packet → Bool
  | interest _ => true
  | data _ => false

theorem Packet.counter_eq_outInterests_iff {p : Packet} :
    p.counter = .outInterests ↔ p.isInterest = true := by
  cases p <;> simp [counter, isInterest]

theorem Packet.counter_eq_outData_iff {p : Packet} : p.counter = .outData ↔ p.isData = true := by
  cases p <;> simp [counter, isData]

/-- The other counters are not for packets that leave. -/
theorem Packet.countP_counter_eq_zero {c : Counter} (hinterests : c ≠ .outInterests)
    (hdata : c ≠ .outData) (packets : List (Face × Packet)) :
    packets.countP (·.2.counter = c) = 0 := by
  rw [List.countP_eq_zero]
  rintro ⟨face, p⟩ _ heq
  cases p with
  | interest i => exact hinterests (of_decide_eq_true heq).symm
  | data d => exact hdata (of_decide_eq_true heq).symm

/-- An Interest arrives. -/
def Op.isInterest : Op → Bool
  | interest .. => true
  | _ => false

/-- Data arrives. -/
def Op.isData : Op → Bool
  | data .. => true
  | _ => false

/-- Data arrives that nobody waits for. -/
def Op.isUnsolicited (fw : Forwarder) : Op → Bool
  | data f d => fw.IsUnsolicited f d
  | _ => false

/-- What a step counts, apart from the verdict on an Interest and the packets that leave. -/
def Step.counts (s : Step) (fw : Forwarder) : List Counter :=
  List.replicate s.op.isInterest.toNat .inInterests ++
    List.replicate s.op.isData.toNat .inData ++
    List.replicate (s.op.isUnsolicited fw).toNat .unsolicitedData

/-- The step counts `c`, apart from the verdict on an Interest and the packets that leave. -/
def Step.countsAs (c : Counter) (s : Step) (fw : Forwarder) : Bool :=
  match c with
  | .inInterests => s.op.isInterest
  | .inData => s.op.isData
  | .unsolicitedData => s.op.isUnsolicited fw
  | _ => false

theorem Step.count_counts (s : Step) (fw : Forwarder) (c : Counter) :
    (s.counts fw).count c = (s.countsAs c fw).toNat := by
  cases c <;> simp [counts, countsAs, List.count_append, List.count_replicate]

/-- The verdict on the Interest that arrives in the step, if one does. -/
inductive Step.Verdict (s : Step) (fw : Forwarder) : Option Counter → Prop
  | interest {f : FaceId} {i : Interest} {v : Option Counter} (hop : s.op = .interest f i)
    (hv : fw.Verdict f i v) : Step.Verdict s fw v
  | other (hop : s.op.isInterest = false) : Step.Verdict s fw none

theorem Step.Verdict.of_interest {s : Step} {fw : Forwarder} {v : Option Counter} {f : FaceId}
    {i : Interest} (hv : s.Verdict fw v) (hop : s.op = .interest f i) : fw.Verdict f i v := by
  cases hv with
  | interest hop' hv =>
    rw [hop] at hop'
    cases hop'
    exact hv
  | other hop' =>
    rw [hop] at hop'
    cases hop'

theorem Step.Verdict.eq_none {s : Step} {fw : Forwarder} {v : Option Counter}
    (hv : s.Verdict fw v) (hop : s.op.isInterest = false) : v = none := by
  cases hv with
  | interest hop' _ =>
    rw [hop'] at hop
    cases hop
  | other _ => rfl

theorem Step.Verdict.count_eq_zero {s : Step} {fw : Forwarder} {v : Option Counter} {c : Counter}
    (hv : s.Verdict fw v) (hc : c ∉ Forwarder.verdictCounters) : v.toList.count c = 0 := by
  rw [List.count_eq_zero, Option.mem_toList]
  intro hmem
  cases hv with
  | interest _ hv => exact hc (hv.mem c hmem)
  | other _ => cases hmem

/-- The step counts the verdict on an Interest that it brings, and no other one. -/
structure Step.CountsVerdict (s : Step) (fw : Forwarder) : Prop where
  once : ∀ f i, s.op = .interest f i → ¬ fw.Uncounted f i →
    ∃ c, fw.Verdict f i (some c) ∧ ∀ c' ∈ Forwarder.verdictCounters,
      (s.perform fw).counters.get c' = fw.counters.get c' + if c' = c then 1 else 0
  uncounted : ∀ f i, s.op = .interest f i → fw.Uncounted f i → ∀ c ∈ Forwarder.verdictCounters,
    (s.perform fw).counters.get c = fw.counters.get c
  others : s.op.isInterest = false → ∀ c ∈ Forwarder.verdictCounters,
    (s.perform fw).counters.get c = fw.counters.get c

theorem FaceTable.exists_get?_of_mem_delivery {faces : FaceTable} {d : Data} {out : FaceId}
    {b : Face × Packet} (hb : b ∈ faces.delivery d out) : ∃ f, faces.get? f = some b.1 := by
  obtain ⟨_, face, hface, _, rfl⟩ := mem_delivery.mp hb
  exact ⟨out, hface⟩

namespace Forwarder

variable {fw fw' : Forwarder} {l l' : List Counter}

theorem tallied_perform (inv : TimersHeld none fw.pit fw.timers) (s : Step) :
    ∃ v, s.Verdict fw v ∧ Tallied (s.counts fw ++ v.toList) fw (s.perform fw) := by
  obtain ⟨strategy, op⟩ := s
  cases op with
  | interest f i =>
    obtain ⟨v, hv, htallied⟩ := exists_verdict inv.pit_wellFormed strategy f i
    exact ⟨v, .interest rfl hv, htallied⟩
  | data f d =>
    refine ⟨none, .other rfl, ?_⟩
    have hcounts : (⟨strategy, .data f d⟩ : Step).counts fw =
        .inData :: if fw.IsUnsolicited f d then [.unsolicitedData] else [] := by
      by_cases hun : fw.IsUnsolicited f d <;>
        simp [Step.counts, Op.isInterest, Op.isData, Op.isUnsolicited, hun]
    rw [Option.toList_none, List.append_nil, hcounts]
    exact tallied_receiveData strategy.toStrategy f d fw
  | poll t => exact ⟨none, .other rfl, (accounted_pollTimers strategy.toStrategy t fw).tallied⟩
  | send h f newNonce => exact ⟨none, .other rfl, (accounted_sendInterest h f newNonce fw).tallied⟩
  | reject h => exact ⟨none, .other rfl, (accounted_rejectInterest h fw).tallied⟩
  | change c => exact ⟨none, .other rfl, (accounted_apply c fw).tallied⟩

/-! ## Registered faces -/

/-- What was sent in between was handed to faces that were registered before. -/
def SendsToFaces (fw fw' : Forwarder) : Prop :=
  ∃ l, fw'.sent = fw.sent ++ l ∧ ∀ b ∈ l, ∃ f, fw.faces.get? f = some b.1

theorem SendsToFaces.of_sent_eq (hsent : fw'.sent = fw.sent) : SendsToFaces fw fw' :=
  ⟨[], hsent.trans (List.append_nil _).symm, List.forall_mem_nil _⟩

theorem Acted.sendsToFaces (a : Acted fw fw') : SendsToFaces fw fw' := by
  obtain ⟨l, hl, hrelays⟩ := a.sent
  refine ⟨l, hl, fun b hb => ?_⟩
  obtain ⟨_, _, _, _, _, _, _, hface, _⟩ := hrelays b hb
  exact hface

theorem sendsToFaces_registration (s : Strategy) (f : FaceId) {i : Interest}
    (hreg : i.locationRegistration = true) (fw : Forwarder) :
    SendsToFaces fw (fw.receiveInterest s.hooks f i) := by
  rcases receiveInterest_of_registration hreg s.hooks f fw with
    hq | ⟨_, out, _, ⟨hop, _, hout, _⟩, heq⟩
  · exact .of_sent_eq hq.sent
  · rw [heq]
    refine ⟨[(out, .interest (i.arrivedOn f))], sent_emitInterest _ _ _, ?_⟩
    intro b hb
    rw [List.mem_singleton.mp hb]
    exact ⟨hop.face, hout⟩

theorem sendsToFaces_receiveInterest (wf : fw.pit.WellFormed) (s : ForwardingStrategy)
    (f : FaceId) (i : Interest) : SendsToFaces fw (fw.receiveInterest s.hooks f i) := by
  by_cases hreg : i.locationRegistration = true
  · exact sendsToFaces_registration s.toStrategy f hreg fw
  have houtcome := interestOutcome_receiveInterest wf s.toStrategy f i
  generalize fw.receiveInterest s.hooks f i = fw' at houtcome
  cases houtcome with
  | @aside _ registered _ _ _ hsent _ hreg' =>
    have hnone : registered = none := by
      by_contra hsome
      exact hreg (hreg' hsome)
    rw [hnone] at hsent
    exact .of_sent_eq (hsent.trans (List.append_nil _))
  | @accepted face h pit e fw₁ id _ hsilent _ _ _ =>
    obtain ⟨l, hl, hfaces⟩ := (Plan.acted_run
      (s.forwards ⟨face.id, i.arrivedOn f⟩ (fw.fib.longestPrefixMatch i.name) h) fw₁).sendsToFaces
    rw [hsilent.faces] at hfaces
    exact ⟨l, by rw [hl, hsilent.sent], hfaces⟩
  | answered _ _ _ _ _ _ _ hsent =>
    refine ⟨_, hsent, fun b hb => ?_⟩
    exact FaceTable.exists_get?_of_mem_delivery hb

theorem sendsToFaces_receiveData (s : Strategy) (f : FaceId) (d : Data) (fw : Forwarder) :
    SendsToFaces fw (fw.receiveData s.hooks f d) := by
  have harrival := dataArrival_receiveData s f d fw
  generalize fw.receiveData s.hooks f d = fw' at harrival
  cases harrival with
  | dropped _ hsent => exact .of_sent_eq hsent
  | pushed _ _ hsent =>
    obtain ⟨out, hsent⟩ := hsent
    refine ⟨_, hsent, fun b hb => ?_⟩
    obtain ⟨_, _, hb⟩ := List.mem_flatMap.mp hb
    exact FaceTable.exists_get?_of_mem_delivery hb
  | @answered face fw₁ fw₂ fw' hface _ _ htaken ha _ hsent =>
    obtain ⟨announced, _, hsent₁⟩ := htaken.sent
    rw [ha.sent, hsent₁, List.append_assoc] at hsent
    refine ⟨_, hsent, fun b hb => ?_⟩
    rcases List.mem_append.mp hb with hb | hb
    · obtain ⟨i, _, rfl⟩ := List.mem_map.mp hb
      exact ⟨f, hface⟩
    · obtain ⟨_, _, hb⟩ := List.mem_flatMap.mp hb
      exact FaceTable.exists_get?_of_mem_delivery hb

theorem sendsToFaces_perform (inv : TimersHeld none fw.pit fw.timers) (s : Step) :
    SendsToFaces fw (s.perform fw) := by
  obtain ⟨strategy, op⟩ := s
  cases op with
  | interest f i => exact sendsToFaces_receiveInterest inv.pit_wellFormed strategy f i
  | data f d => exact sendsToFaces_receiveData strategy.toStrategy f d fw
  | poll t => exact .of_sent_eq (polled_pollTimers inv strategy.toStrategy t).sent
  | send h f newNonce => exact (acted_sendInterest h f newNonce fw).sendsToFaces
  | reject h => exact (acted_rejectInterest h fw).sendsToFaces
  | change c => exact .of_sent_eq (kept_apply c fw).sent

/-- Each packet that a step sends is handed to the face that is registered under its number. -/
theorem registered_of_mem_output (hfw : Reachable fw) (s : Step) :
    ∀ b ∈ s.output fw, fw.faces.get? b.1.id = some b.1 := by
  obtain ⟨l, hl, hfaces⟩ := sendsToFaces_perform hfw.timersHeld s
  rw [Step.output_eq hl]
  intro b hb
  obtain ⟨f, hface⟩ := hfaces b hb
  rw [hfw.id_eq_of_get? hface, hface]

/-! ## Runs -/

/-- In how many steps of the run `p` holds of the step and the node it starts from. -/
def countAlong (p : Step → Forwarder → Bool) : List Step → Forwarder → Nat
  | [], _ => 0
  | s :: rest, fw => (p s fw).toNat + countAlong p rest (s.perform fw)

theorem countAlong_eq_countP (p : Step → Bool) (steps : List Step) (fw : Forwarder) :
    countAlong (fun s _ => p s) steps fw = steps.countP p := by
  induction steps generalizing fw with
  | nil => rfl
  | cons s rest ih =>
    rw [countAlong, ih, List.countP_cons, Nat.add_comm]
    cases p s <;> rfl

theorem countAlong_never (steps : List Step) (fw : Forwarder) :
    countAlong (fun _ _ => false) steps fw = 0 :=
  (countAlong_eq_countP (fun _ => false) steps fw).trans (congrFun List.countP_false steps)

/-- **The counters of a run.** Each counter that is not for a verdict goes up by the steps that
count it and by the packets that left. -/
theorem get_counters_run (hfw : Reachable fw) {c : Counter} (hc : c ∉ verdictCounters)
    (steps : List Step) :
    ∃ packets, (fw.run steps).sent = fw.sent ++ packets ∧
      (fw.run steps).counters.get c = fw.counters.get c +
        .ofNat (countAlong (Step.countsAs c) steps fw + packets.countP (·.2.counter = c)) := by
  induction steps generalizing fw with
  | nil => exact ⟨[], (List.append_nil _).symm, by simp [countAlong]⟩
  | cons s rest ih =>
    obtain ⟨v, hv, packets, hsent, hcounters⟩ := tallied_perform hfw.timersHeld s
    obtain ⟨packets', hsent', hcounters'⟩ := ih (hfw.perform s)
    refine ⟨packets ++ packets', ?_, ?_⟩
    · rw [run_cons, hsent', hsent, List.append_assoc]
    · rw [run_cons, hcounters', hcounters, UInt64.add_assoc, ← UInt64.ofNat_add, countAlong,
        List.countP_append, List.count_append, hv.count_eq_zero hc, Step.count_counts]
      congr 2
      omega

theorem IsNew.get_counters {fw₀ : Forwarder} (hnew : IsNew fw₀) (c : Counter) :
    fw₀.counters.get c = 0 := by
  obtain ⟨_, _, _, _, rfl⟩ := hnew.exists_eq
  cases c <;> rfl

theorem IsNew.sent_eq {fw₀ : Forwarder} (hnew : IsNew fw₀) : fw₀.sent = [] := by
  obtain ⟨_, _, _, _, rfl⟩ := hnew.exists_eq
  rfl

/-- From a new node on, a counter shows the steps that count it and the packets that it is for. -/
theorem IsNew.toNat_get_counters_run {fw₀ : Forwarder} (hnew : IsNew fw₀) {c : Counter}
    (hc : c ∉ verdictCounters) {steps : List Step} {n : Nat}
    (hn : countAlong (Step.countsAs c) steps fw₀ +
      (fw₀.run steps).sent.countP (·.2.counter = c) = n) (hfew : n < UInt64.size) :
    ((fw₀.run steps).counters.get c).toNat = n := by
  obtain ⟨packets, hsent, hcounters⟩ := get_counters_run (.of_isNew hnew) hc steps
  rw [hnew.sent_eq, List.nil_append] at hsent
  rw [hcounters, hnew.get_counters, UInt64.zero_add, ← hsent, hn, UInt64.toNat_ofNat_of_lt' hfew]

/-- A step adds its verdict to the counters for verdicts, and nothing else. -/
theorem exists_counted_verdict (hfw : Reachable fw) (s : Step) :
    ∃ v, s.Verdict fw v ∧ ∀ c ∈ verdictCounters,
      (s.perform fw).counters.get c = fw.counters.get c + .ofNat (v.toList.count c) := by
  obtain ⟨v, hv, packets, _, hcounters⟩ := tallied_perform hfw.timersHeld s
  refine ⟨v, hv, fun c hc => ?_⟩
  have hcounts : (s.countsAs c fw).toNat = 0 ∧ c ≠ .outInterests ∧ c ≠ .outData := by
    simp only [verdictCounters, List.mem_cons, List.not_mem_nil, or_false] at hc
    rcases hc with rfl | rfl | rfl <;> exact ⟨rfl, by decide, by decide⟩
  obtain ⟨hother, hinterests, hdata⟩ := hcounts
  rw [hcounters, List.count_append, Step.count_counts, hother,
    Packet.countP_counter_eq_zero hinterests hdata, Nat.zero_add, Nat.add_zero]

theorem countsVerdict (hfw : Reachable fw) (s : Step) : s.CountsVerdict fw := by
  obtain ⟨v, hv, hcounters⟩ := exists_counted_verdict hfw s
  have hnone : v = none → ∀ c ∈ verdictCounters,
      (s.perform fw).counters.get c = fw.counters.get c := by
    rintro rfl c hc
    rw [hcounters c hc, Option.toList_none, List.count_nil]
    exact UInt64.add_zero _
  constructor
  case once =>
    intro f i hop hcounts
    have hverdict := hv.of_interest hop
    obtain ⟨c, rfl⟩ := hverdict.exists_eq_some hcounts
    refine ⟨c, hverdict, fun c' hc' => ?_⟩
    rw [hcounters c' hc', Option.toList_some, List.count_singleton]
    by_cases heq : c' = c
    · rw [if_pos heq, if_pos (by simp [heq])]
      rfl
    · rw [if_neg heq, if_neg (by simpa using Ne.symm heq)]
      rfl
  case uncounted => exact fun f i hop hun => hnone ((hv.of_interest hop).eq_none hun)
  case others => exact fun hop => hnone (hv.eq_none hop)

/-- The counters of a node that was new and has taken `steps` since. -/
structure CountersTrue (fw₀ : Forwarder) (steps : List Step) : Prop where
  inInterests : steps.countP (·.op.isInterest) < UInt64.size →
    (fw₀.run steps).counters.inInterests.toNat = steps.countP (·.op.isInterest)
  inData : steps.countP (·.op.isData) < UInt64.size →
    (fw₀.run steps).counters.inData.toNat = steps.countP (·.op.isData)
  outInterests : (fw₀.run steps).sent.countP (·.2.isInterest) < UInt64.size →
    (fw₀.run steps).counters.outInterests.toNat = (fw₀.run steps).sent.countP (·.2.isInterest)
  outData : (fw₀.run steps).sent.countP (·.2.isData) < UInt64.size →
    (fw₀.run steps).counters.outData.toNat = (fw₀.run steps).sent.countP (·.2.isData)
  unsolicitedData : countAlong (fun s fw => s.op.isUnsolicited fw) steps fw₀ < UInt64.size →
    (fw₀.run steps).counters.unsolicitedData.toNat =
      countAlong (fun s fw => s.op.isUnsolicited fw) steps fw₀
  /-- What is sent is handed to registered faces. -/
  handed : Throughout (fun s fw => (s.perform fw).sent = fw.sent ++ s.output fw ∧
    ∀ b ∈ s.output fw, fw.faces.get? b.1.id = some b.1) steps fw₀
  /-- Each Interest that is not uncounted has one verdict, which is counted once. -/
  verdicts : Throughout Step.CountsVerdict steps fw₀

theorem throughout_of_reachable {P : Step → Forwarder → Prop}
    (hstep : ∀ fw s, Reachable fw → P s fw) (hfw : Reachable fw) (steps : List Step) :
    Throughout P steps fw := by
  induction steps generalizing fw with
  | nil => trivial
  | cons s rest ih => exact ⟨hstep fw s hfw, ih (hfw.perform s)⟩

/-- **The counters tell the truth**, whatever a new node goes through. -/
theorem counters_true {fw₀ : Forwarder} (hnew : IsNew fw₀) (steps : List Step) :
    CountersTrue fw₀ steps := by
  have hfw := Reachable.of_isNew hnew
  constructor
  case inInterests =>
    refine hnew.toNat_get_counters_run (c := .inInterests) (by decide) ?_
    rw [Packet.countP_counter_eq_zero (c := .inInterests) nofun nofun]
    exact countAlong_eq_countP (·.op.isInterest) steps fw₀
  case inData =>
    refine hnew.toNat_get_counters_run (c := .inData) (by decide) ?_
    rw [Packet.countP_counter_eq_zero (c := .inData) nofun nofun]
    exact countAlong_eq_countP (·.op.isData) steps fw₀
  case outInterests =>
    refine hnew.toNat_get_counters_run (c := .outInterests) (by decide) ?_
    have hnever : countAlong (Step.countsAs .outInterests) steps fw₀ = 0 :=
      countAlong_never steps fw₀
    simp only [hnever, Packet.counter_eq_outInterests_iff, Bool.decide_eq_true, Nat.zero_add]
  case outData =>
    refine hnew.toNat_get_counters_run (c := .outData) (by decide) ?_
    have hnever : countAlong (Step.countsAs .outData) steps fw₀ = 0 := countAlong_never steps fw₀
    simp only [hnever, Packet.counter_eq_outData_iff, Bool.decide_eq_true, Nat.zero_add]
  case unsolicitedData =>
    refine hnew.toNat_get_counters_run (c := .unsolicitedData) (by decide) ?_
    rw [Packet.countP_counter_eq_zero (c := .unsolicitedData) nofun nofun]
    rfl
  case handed =>
    refine throughout_of_reachable (fun fw s hfw => ⟨?_, registered_of_mem_output hfw s⟩) hfw steps
    obtain ⟨l, hl, _⟩ := sendsToFaces_perform hfw.timersHeld s
    rw [Step.output_eq hl, hl]
  case verdicts => exact throughout_of_reachable (fun fw s hfw => countsVerdict hfw s) hfw steps

/-- A request is passed on, comes again, is joined by another one, and is answered. Then the content
store answers, and an application offers Data that nobody asked for. -/
def exchange : List Step :=
  [⟨.idle, .change (.addFace true 0)⟩, ⟨.idle, .change (.addFace false 1)⟩,
    ⟨.idle, .change (.routes (·.addNextHop .root ⟨257⟩ 1))⟩,
    ⟨.bestRoute, .interest ⟨256⟩ { name := ⟨[.ofChars ['a']]⟩, nonce := 5 }⟩,
    ⟨.bestRoute, .interest ⟨257⟩ { name := ⟨[.ofChars ['a']]⟩, nonce := 5 }⟩,
    ⟨.idle, .interest ⟨256⟩ { name := ⟨[.ofChars ['a']]⟩, nonce := 6 }⟩,
    ⟨.bestRoute, .data ⟨257⟩ { name := ⟨[.ofChars ['a']]⟩ }⟩,
    ⟨.bestRoute, .interest ⟨256⟩ { name := ⟨[.ofChars ['a']]⟩, nonce := 7 }⟩,
    ⟨.bestRoute, .data ⟨256⟩ { name := ⟨[.ofChars ['b']]⟩ }⟩]

theorem exchange_counters_true :
    let counters := ((build {} (.cycle 0 []) 0).run exchange).counters
    counters.inInterests.toNat = 4 ∧ counters.outInterests.toNat = 1 ∧
      counters.inData.toNat = 2 ∧ counters.outData.toNat = 2 ∧
      counters.unsolicitedData.toNat = 1 ∧ counters.csHits = 1 ∧ counters.csMisses = 1 ∧
      counters.interestLoops = 1 := by
  have htrue := counters_true (isNew_build (.cycle 0 []) 0) exchange
  have hunsolicited : countAlong (fun s fw => s.op.isUnsolicited fw) exchange
      (build {} (.cycle 0 []) 0) = 1 := by decide
  refine ⟨htrue.inInterests (by decide), ?_, htrue.inData (by decide), ?_, ?_, ?_⟩
  · exact (htrue.outInterests (by decide)).trans (by decide)
  · exact (htrue.outData (by decide)).trans (by decide)
  · rw [htrue.unsolicitedData (by rw [hunsolicited]; decide), hunsolicited]
  · decide

end Forwarder

end NamedData
