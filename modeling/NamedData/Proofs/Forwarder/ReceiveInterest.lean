import NamedData.Proofs.Forwarder.Actions
import NamedData.Proofs.Forwarder.Arrival

/-!
# What arriving Interests change

The pieces that `Forwarder.Arrival` is made of, each with the tables, the timers and the
packets it leaves behind. Put together they leave three outcomes: an Interest is set aside,
it joins its entry and the strategy acts, or the content store answers it.

## Main definitions

* `FaceTable.delivery`, what leaves when Data is sent to a face
* `Forwarder.Outward`, a packet may have left and the tables are as before
* `Forwarder.InterestOutcome`

## Main statements

* `Forwarder.interestOutcome_receiveInterest`
* `Forwarder.timersHeld_receiveInterest`
-/
namespace NamedData

/-- Data for the face `out`, unless there is no such face or the name may not leave through
it. -/
def FaceTable.delivery (faces : FaceTable) (d : Data) (out : FaceId) : List (Face × Packet) :=
  if ¬ out.IsValid then []
  else
    match faces.get? out with
    | none => []
    | some face => if face.isLocal = false ∧ d.name.IsLocalhost then [] else [(face, .data d)]

theorem FaceTable.mem_delivery {faces : FaceTable} {d : Data} {out : FaceId} {b : Face × Packet} :
    b ∈ faces.delivery d out ↔ out.IsValid ∧ ∃ face, faces.get? out = some face ∧
      ¬ (face.isLocal = false ∧ d.name.IsLocalhost) ∧ b = (face, .data d) := by
  unfold delivery
  by_cases hvalid : out.IsValid
  · rw [if_neg (not_not_intro hvalid)]
    cases faces.get? out with
    | none => simp
    | some face =>
      by_cases hscope : face.isLocal = false ∧ d.name.IsLocalhost
      · simp [hscope]
      · simp only [hvalid, true_and, Option.some.injEq, exists_eq_left', hscope,
          not_false_eq_true, if_false, List.mem_singleton]
  · simp [hvalid]

/-- The strategy that does nothing. -/
def Strategy.idle : Strategy where
  receive _ _ _ := .done

namespace Forwarder

variable {fw fw' fw'' : Forwarder}

/-! ## Packets that leave -/

/-- A packet may have left, and else something was logged or counted at most. -/
def Outward (fw fw' : Forwarder) : Prop :=
  fw' = { fw with journal := fw'.journal, counters := fw'.counters }

namespace Outward

theorem trans (ho : Outward fw fw') (ho' : Outward fw' fw'') : Outward fw fw'' := by
  rw [Outward, ho', ho]

theorem pit (ho : Outward fw fw') : fw'.pit = fw.pit := by rw [ho]

theorem timers (ho : Outward fw fw') : fw'.timers = fw.timers := by rw [ho]

theorem sameSetup (ho : Outward fw fw') : SameSetup fw fw' := by
  rw [ho]
  exact ⟨rfl, rfl, rfl, rfl, rfl⟩

end Outward

theorem outward_sendData (d : Data) (out : FaceId) (fw : Forwarder) :
    Outward fw (fw.sendData d out) := by
  unfold sendData
  split
  · rfl
  · split
    · rfl
    · split <;> rfl

theorem sent_sendData (d : Data) (out : FaceId) (fw : Forwarder) :
    (fw.sendData d out).sent = fw.sent ++ fw.faces.delivery d out := by
  unfold sendData FaceTable.delivery
  by_cases hvalid : out.IsValid
  · rw [if_neg (not_not_intro hvalid), if_neg (not_not_intro hvalid)]
    cases fw.faces.get? out with
    | none => exact (quiet_log _ fw).sent.trans (List.append_nil _).symm
    | some face =>
      by_cases hscope : face.isLocal = false ∧ d.name.IsLocalhost
      · simp only [if_pos hscope, List.append_nil]
      · simp only [if_neg hscope, sent_emitData]
  · rw [if_pos hvalid, if_pos hvalid, List.append_nil]
    exact (quiet_log _ fw).sent

/-- A location registration goes out once, through a face that its name may leave through, or
not at all. -/
theorem registerLocation_cases (face : Face) (i : Interest) (fw : Forwarder) :
    Quiet fw (fw.registerLocation face i) ∨
      ∃ out, ¬ (out.isLocal = false ∧ i.name.IsLocalhost) ∧
        fw.registerLocation face i = fw.emitInterest out i := by
  unfold registerLocation
  split
  · exact .inl (.refl fw)
  · split
    · exact .inl (.refl fw)
    · next hop _ =>
      cases hface : fw.faces.get? hop.face with
      | none => exact .inl (quiet_log _ fw)
      | some out =>
        by_cases hscope : out.isLocal = false ∧ i.name.IsLocalhost
        · simp only [if_pos hscope]
          exact .inl (.refl fw)
        · simp only [if_neg hscope]
          exact .inr ⟨out, hscope, rfl⟩

theorem outward_registerLocation (face : Face) (i : Interest) (fw : Forwarder) :
    Outward fw (fw.registerLocation face i) := by
  rcases registerLocation_cases face i fw with hq | ⟨out, _, heq⟩
  · exact hq.eq_update
  · rw [heq]
    rfl

/-! ## Opening an entry -/

variable {f : FaceId} {i : Interest} {face : Face} {h : Pit.Handle} {pit : Pit} {e : Pit.Entry}

namespace Admitted

theorem get?_openEntry (adm : Admitted fw f i face h pit e) :
    (fw.openEntry pit h).pit.get? h = some e.unarmed := by
  rw [pit_openEntry]
  exact Pit.get?_modify_self adm.get?

theorem silent_openEntry (adm : Admitted fw f i face h pit e) :
    Silent fw (fw.openEntry pit h) := by
  have hlifetime : pit.defaultLifetime = fw.pit.defaultLifetime := by
    cases adm.placed with
    | found _ _ => rfl
    | created _ c => exact c.defaultLifetime_eq
  have hpit : Silent fw { fw.count .inInterests with pit } :=
    ⟨⟨rfl, rfl, rfl, rfl, hlifetime⟩, rfl⟩
  exact hpit.trans (rescheduled_cancelTimers h _).silent

theorem timersHeld_openEntry (adm : Admitted fw f i face h pit e)
    (inv : TimersHeld none fw.pit fw.timers) :
    TimersHeld (some h) (fw.openEntry pit h).pit (fw.openEntry pit h).timers := by
  let fw₁ : Forwarder := { fw.count .inInterests with pit }
  have hget : fw₁.pit.get? h = some e := adm.get?
  cases adm.placed with
  | found _ _ =>
    have inv₁ : TimersHeld none fw₁.pit fw₁.timers := inv
    exact timersHeld_cancelTimers inv₁ (.inl rfl) hget
  | created _ c =>
    have inv₁ : TimersHeld (some h) fw₁.pit fw₁.timers := inv.created c
    exact timersHeld_cancelTimers inv₁ (.inr rfl) hget

end Admitted

/-! ## Joining an entry -/

theorem silent_enlist (face : Face) (i : Interest) (h : Pit.Handle) (fw : Forwarder) :
    Silent fw (fw.enlist face i h) :=
  (silent_modify _ _ fw).trans (rescheduled_armUnsatisfy h _).silent

@[simp] theorem now_enlist (face : Face) (i : Interest) (h : Pit.Handle) (fw : Forwarder) :
    (fw.enlist face i h).now = fw.now :=
  (rescheduled_armUnsatisfy h _).now

theorem pit_enlist (hget : fw.pit.get? h = some e) (face : Face) (i : Interest) :
    (fw.enlist face i h).pit = fw.pit.modify h fun e =>
      (e.receivedOn face.id face.isLocal i fw.now).armedUnsatisfy fw.timers.nextId := by
  let fw₁ : Forwarder :=
    { fw with pit := fw.pit.modify h (·.receivedOn face.id face.isLocal i fw.now) }
  have hget₁ : fw₁.pit.get? h = some _ := Pit.get?_modify_self hget
  rw [enlist, pit_armUnsatisfy hget₁ Pit.Entry.receivedOn_ne_nil, Pit.modify_modify]
  rfl

theorem timersHeld_enlist (inv : TimersHeld (some h) fw.pit fw.timers)
    (hget : fw.pit.get? h = some e) (face : Face) (i : Interest) :
    TimersHeld none (fw.enlist face i h).pit (fw.enlist face i h).timers := by
  let fw₁ : Forwarder :=
    { fw with pit := fw.pit.modify h (·.receivedOn face.id face.isLocal i fw.now) }
  have inv₁ : TimersHeld (some h) fw₁.pit fw₁.timers :=
    inv.modify (fun _ => ⟨rfl, rfl, rfl⟩) (.inl rfl)
  have hget₁ : fw₁.pit.get? h = some _ := Pit.get?_modify_self hget
  exact timersHeld_armUnsatisfy inv₁ hget₁ Pit.Entry.receivedOn_ne_nil

/-! ## Answering from the content store -/

/-- The entry `e` is answered for one face. The requests of the other faces stay, and if there
are any, the entry waits on as before. -/
structure Answered (h : Pit.Handle) (e : Pit.Entry) (fw fw' : Forwarder) : Prop
    extends Silent fw fw' where
  now : fw'.now = fw.now
  exists_pit : ∃ g : Pit.Entry → Pit.Entry, fw'.pit = fw.pit.modify h g ∧
    (∀ e, (g e).downstream = e.downstream) ∧
    (e.inRecords ≠ [] → ∀ e, (g e).stragglerTimer = e.stragglerTimer)
  timersHeld : TimersHeld (some h) fw.pit fw.timers → TimersHeld none fw'.pit fw'.timers

theorem exists_answered (hget : fw.pit.get? h = some e) (s : Strategy) (out : FaceId)
    (d : Data) :
    ∃ fw', Answered h e fw fw' ∧ fw.answerFromStore s.hooks out h d = fw'.sendData d out := by
  have hq := quiet_notifySatisfying s h ⟨.contentStore, d⟩ fw
  have hget' := hget
  rw [← hq.pit] at hget'
  refine ⟨_, ?_, by rw [answerFromStore]⟩
  simp only [hget', Option.any_some]
  by_cases hpending : e.isPending = true
  · have hne := Pit.Entry.isPending_iff.mp hpending
    rw [if_pos hpending]
    constructor
    case toSilent => exact hq.silent.trans (rescheduled_armUnsatisfy h _).silent
    case now => exact (rescheduled_armUnsatisfy h _).now.trans hq.acted.now
    case exists_pit =>
      refine ⟨.armedUnsatisfy fw.timers.nextId, ?_, fun _ => rfl, fun _ _ => rfl⟩
      rw [pit_armUnsatisfy hget' hne, hq.pit, hq.timers]
    case timersHeld =>
      intro inv
      rw [← hq.pit, ← hq.timers] at inv
      exact timersHeld_armUnsatisfy inv hget' hne
  · have hnil : e.inRecords = [] := by
      by_contra hne
      exact hpending (Pit.Entry.isPending_iff.mpr hne)
    rw [if_neg hpending]
    constructor
    case toSilent => exact hq.silent.trans (rescheduled_armStraggler h _ _ _).silent
    case now => exact (rescheduled_armStraggler h _ _ _).now.trans hq.acted.now
    case exists_pit =>
      refine ⟨.armedStraggler fw.timers.nextId, ?_, fun _ => rfl, fun hne => absurd hnil hne⟩
      rw [pit_armStraggler, hq.pit, hq.timers]
    case timersHeld =>
      intro inv
      rw [← hq.pit, ← hq.timers] at inv
      exact timersHeld_armStraggler inv hget' d.freshness fun _ => hnil

/-! ## Every Interest -/

/-- What the Interest `i` that arrives on the face `f` does to the node. -/
inductive InterestOutcome (s : Strategy) (f : FaceId) (i : Interest) (fw : Forwarder) :
    Forwarder → Prop
  /-- The entries are left alone. At most a location registration goes out. -/
  | aside {fw' : Forwarder} {registered : Option Face} (hsetup : SameSetup fw fw')
    (hget : ∀ h, fw'.pit.get? h = fw.pit.get? h) (htimers : fw'.timers = fw.timers)
    (hsent : fw'.sent = fw.sent ++
      registered.toList.map fun out => (out, .interest (i.arrivedOn f)))
    (hscope : ∀ out ∈ registered, ¬ (out.isLocal = false ∧ i.name.IsLocalhost))
    (hreg : registered ≠ none → i.locationRegistration = true) :
    InterestOutcome s f i fw fw'
  /-- The request joins its entry, and the strategy acts on the node `fw₁`. -/
  | accepted {face : Face} {h : Pit.Handle} {pit : Pit} {e : Pit.Entry} {fw₁ : Forwarder}
    {id : TimerId} (acc : Accepted fw f i face h pit e) (hsilent : Silent fw fw₁)
    (hnow : fw₁.now = fw.now)
    (hpit : fw₁.pit = pit.modify h fun e =>
      (e.unarmed.receivedOn face.id face.isLocal (i.arrivedOn f) fw.now).armedUnsatisfy id)
    (hidle : fw₁ = fw.receiveInterest Strategy.idle.hooks f i) :
    InterestOutcome s f i fw
      ((s.receive ⟨face.id, i.arrivedOn f⟩ (fw.fib.longestPrefixMatch i.name) h).run fw₁)
  /-- The content store answers, and the entry stays for the other requests. -/
  | answered {face : Face} {h : Pit.Handle} {pit : Pit} {e : Pit.Entry} {d : Data}
    {fw' : Forwarder} {g : Pit.Entry → Pit.Entry} (adm : Admitted fw f i face h pit e)
    (hloop : ¬ fw.IsLoop f i) (hsetup : SameSetup fw fw') (hnow : fw'.now = fw.now)
    (hpit : fw'.pit = pit.modify h g) (hdown : ∀ e, (g e).downstream = e.downstream)
    (hwaits : e.inRecords ≠ [] → ∀ e, (g e).stragglerTimer = none)
    (hsent : fw'.sent = fw.sent ++ fw.faces.delivery d face.id) :
    InterestOutcome s f i fw fw'

/-- A busy strategy is handed the Interest and follows its plan. -/
theorem receive_hooks (s : Strategy) (i : Incoming Interest) (route : Fib.Entry)
    (h : Pit.Handle) (fw : Forwarder) :
    s.hooks.receive i route h fw =
      (s.receive i route h).run (fw.record (.told .strategy (.received i route h))) := rfl

theorem InterestOutcome.ignored {s : Strategy} (hsetup : SameSetup fw fw')
    (hget : ∀ h, fw'.pit.get? h = fw.pit.get? h) (htimers : fw'.timers = fw.timers)
    (hsent : fw'.sent = fw.sent) : InterestOutcome s f i fw fw' :=
  @InterestOutcome.aside s f i fw fw' none hsetup hget htimers
    (hsent.trans (List.append_nil _).symm) (by simp) (absurd rfl)

theorem InterestOutcome.of_quiet {s : Strategy} (hq : Quiet fw fw') :
    InterestOutcome s f i fw fw' :=
  .ignored hq.silent.toSameSetup (fun h => by rw [hq.pit]) hq.timers hq.sent

theorem interestOutcome_registration (s : Strategy) (f : FaceId) (face : Face) (fw : Forwarder)
    (hreg : i.locationRegistration = true) :
    InterestOutcome s f i fw ((fw.count .inInterests).registerLocation face (i.arrivedOn f)) := by
  have hcount := quiet_count .inInterests fw
  rcases registerLocation_cases face (i.arrivedOn f) (fw.count .inInterests) with
    hq | ⟨out, hscope, hemit⟩
  · exact .of_quiet (hcount.trans hq)
  · have ho := Outward.trans hcount.eq_update
      (outward_registerLocation face (i.arrivedOn f) (fw.count .inInterests))
    refine @InterestOutcome.aside s f i fw _ (some out) ho.sameSetup
      (fun h => by rw [ho.pit]) ho.timers ?_ ?_ fun _ => hreg
    · rw [hemit]
      exact sent_emitInterest out _ _
    · intro out' hout
      rw [Interest.name_arrivedOn] at hscope
      rw [← Option.some.inj hout]
      exact hscope

/-- A request that is accepted is in its entry when the strategy gets it, and then the strategy
follows its plan. -/
theorem Accepted.exists_run (acc : Accepted fw f i face h pit e) (s : Strategy) :
    ∃ fw₁ id, Silent fw fw₁ ∧ fw₁.now = fw.now ∧
      fw₁.pit = pit.modify h (fun e =>
        (e.unarmed.receivedOn face.id face.isLocal (i.arrivedOn f) fw.now).armedUnsatisfy id) ∧
      fw₁ = fw.receiveInterest Strategy.idle.hooks f i ∧
      fw.receiveInterest s.hooks f i =
        (s.receive ⟨face.id, i.arrivedOn f⟩ (fw.fib.longestPrefixMatch i.name) h).run fw₁ := by
  obtain ⟨fw₀, hq, hr⟩ := acc.exists_receiveInterest
  have hget := acc.get?_openEntry
  rw [← hq.pit] at hget
  have hnow : fw₀.now = fw.now := hq.acted.now.trans (now_openEntry pit h fw)
  have hpit := pit_enlist hget face (i.arrivedOn f)
  rw [hq.pit, pit_openEntry, Pit.modify_modify, hnow] at hpit
  rw [hr s.hooks, hr Strategy.idle.hooks, receive_hooks, receive_hooks]
  refine ⟨(fw₀.enlist face (i.arrivedOn f) h).record _, _, ?_, ?_, hpit, rfl, rfl⟩
  · have hopen := acc.silent_openEntry.trans hq.silent
    exact (hopen.trans (silent_enlist _ _ _ _)).trans (quiet_record rfl _).silent
  · exact (now_enlist _ _ _ _).trans hnow

theorem interestOutcome_accepted (acc : Accepted fw f i face h pit e) (s : Strategy) :
    InterestOutcome s f i fw (fw.receiveInterest s.hooks f i) := by
  obtain ⟨fw₁, id, hsilent, hnow, hpit, hidle, heq⟩ := acc.exists_run s
  rw [heq]
  exact .accepted acc hsilent hnow hpit hidle

theorem interestOutcome_answered (adm : Admitted fw f i face h pit e) (hloop : ¬ fw.IsLoop f i)
    (s : Strategy) (store : ContentStore) (d : Data) :
    InterestOutcome s f i fw
      (({ fw.openEntry pit h with store }.count .csHits).answerFromStore s.hooks face.id h d) := by
  let fw₁ := { fw.openEntry pit h with store }.count .csHits
  have hopen : Silent fw fw₁ := adm.silent_openEntry.trans ⟨⟨rfl, rfl, rfl, rfl, rfl⟩, rfl⟩
  have hget : fw₁.pit.get? h = some e.unarmed := adm.get?_openEntry
  obtain ⟨fw₂, hanswered, heq⟩ := exists_answered hget s face.id d
  obtain ⟨g, hpit, hdown, hwaits⟩ := hanswered.exists_pit
  have hsilent := hopen.trans hanswered.toSilent
  have ho := outward_sendData d face.id fw₂
  rw [heq]
  refine .answered (d := d) (g := g ∘ .unarmed) adm hloop
    (hsilent.toSameSetup.trans ho.sameSetup) ?_ ?_ ?_ ?_ ?_
  · rw [now, ho.timers]
    exact hanswered.now.trans (now_openEntry pit h fw)
  · have hpit₁ : fw₁.pit = pit.modify h .unarmed := pit_openEntry pit h fw
    rw [ho.pit, hpit, hpit₁, Pit.modify_modify]
  · exact fun e => hdown e.unarmed
  · exact fun hne e => hwaits hne e.unarmed
  · rw [sent_sendData, hsilent.sent, hsilent.faces]

/-- **Every Interest has one of the outcomes of `InterestOutcome`.** -/
theorem interestOutcome_receiveInterest (wf : fw.pit.WellFormed) (s : Strategy) (f : FaceId)
    (i : Interest) : InterestOutcome s f i fw (fw.receiveInterest s.hooks f i) := by
  have hcount := quiet_count .inInterests fw
  have harrival := arrival_receiveInterest wf s.hooks f i
  generalize heq : fw.receiveInterest s.hooks f i = fw' at harrival
  cases harrival with
  | unknownFace _ => exact .of_quiet (hcount.trans (quiet_log _ _))
  | @registration face _ hreg => exact interestOutcome_registration s f face fw hreg
  | outOfScope _ _ _ => exact .of_quiet hcount
  | loop _ _ => exact .of_quiet (hcount.trans (quiet_count .interestLoops _))
  | @newLoop _ h pit _ _ c _ =>
    have hlifetime : (pit.erase h).defaultLifetime = fw.pit.defaultLifetime := by
      rw [Pit.defaultLifetime_erase, c.defaultLifetime_eq]
    exact .ignored ⟨rfl, rfl, rfl, rfl, hlifetime⟩ c.get?_erase rfl rfl
  | accepted acc _ =>
    rw [← heq]
    exact interestOutcome_accepted acc s
  | answered adm hloop _ _ => exact interestOutcome_answered adm hloop s _ _

theorem sameSetup_receiveInterest (wf : fw.pit.WellFormed) {s : Strategy}
    (hs : ∀ i route h, (s.receive i route h).Forwards) (f : FaceId) (i : Interest) :
    SameSetup fw (fw.receiveInterest s.hooks f i) := by
  have houtcome := interestOutcome_receiveInterest wf s f i
  generalize fw.receiveInterest s.hooks f i = fw' at houtcome
  cases houtcome with
  | aside hsetup => exact hsetup
  | accepted _ hsilent => exact hsilent.toSameSetup.trans (Plan.acted_run (hs _ _ _) _).toSameSetup
  | answered _ _ hsetup => exact hsetup

theorem timersHeld_receiveInterest (inv : TimersHeld none fw.pit fw.timers) {s : Strategy}
    (hs : ∀ i route h, (s.receive i route h).Forwards) (f : FaceId) (i : Interest) :
    TimersHeld none (fw.receiveInterest s.hooks f i).pit
      (fw.receiveInterest s.hooks f i).timers := by
  have harrival := arrival_receiveInterest inv.pit_wellFormed s.hooks f i
  generalize fw.receiveInterest s.hooks f i = fw' at harrival
  cases harrival with
  | unknownFace _ => exact inv
  | registration _ _ =>
    rw [(outward_registerLocation _ _ _).pit, (outward_registerLocation _ _ _).timers]
    exact inv
  | outOfScope _ _ _ => exact inv
  | loop _ _ => exact inv
  | newLoop _ c _ => exact (inv.created c).erase
  | accepted acc hq =>
    have hopen := acc.timersHeld_openEntry inv
    have hget := acc.get?_openEntry
    rw [← hq.pit] at hget
    rw [← hq.pit, ← hq.timers] at hopen
    exact Plan.timersHeld_run (hs _ _ _) (timersHeld_enlist hopen hget _ _)
  | @answered face h pit e d store adm _ _ _ =>
    let fw₁ := { fw.openEntry pit h with store }.count .csHits
    have hopen : TimersHeld (some h) fw₁.pit fw₁.timers := adm.timersHeld_openEntry inv
    have hget : fw₁.pit.get? h = some e.unarmed := adm.get?_openEntry
    obtain ⟨fw₂, hanswered, heq⟩ := exists_answered hget s face.id d
    rw [heq, (outward_sendData _ _ _).pit, (outward_sendData _ _ _).timers]
    exact hanswered.timersHeld hopen

end Forwarder

end NamedData
