import NamedData.Proofs.EntryProperty

/-!
# What was sent on for an entry

A strategy sends copies of an Interest on for its entry. The entry notes the nonce of each
copy in the out-record of the face, over the nonce that was there. So as long as the entry is
live and no Data has come from the face, the out-record has the nonce of the last copy, in
whatever order requests join the entry and copies are sent.

## Main definitions

* `copiesThrough`, the Interests among some packets that were sent on under a name
* `Forwarder.copies`, those that a run sends on
* `Step.LeavesAsked`, the entry stays and the face does not answer it
* `Forwarder.Recalls`, the out-record has the nonce of the last copy
* `Forwarder.LastSent`, the last copy for a live entry that the face has not answered

## Main statements

* `Forwarder.Recalls.perform`, `Forwarder.Recalls.run`: what a step keeps, and a run
* `Forwarder.LastSent.exists_outRecord`
-/
namespace NamedData

/-- The Interests under the name `x` among packets, as far as they left through the face `u`.
Location registrations do not count, which are not sent for an entry. -/
def copiesThrough (u : FaceId) (x : Name) (packets : List (Face × Packet)) : List Interest :=
  packets.filterMap fun b =>
    match b.2 with
    | .interest i =>
      if b.1.id = u ∧ i.name = x ∧ i.locationRegistration = false then some i else none
    | .data _ => none

section Copies

variable {u : FaceId} {x : Name}

theorem copiesThrough_append (l l' : List (Face × Packet)) :
    copiesThrough u x (l ++ l') = copiesThrough u x l ++ copiesThrough u x l' :=
  List.filterMap_append

theorem copiesThrough_eq_nil_of_data {l : List (Face × Packet)}
    (hl : ∀ b ∈ l, ∃ d, b.2 = .data d) : copiesThrough u x l = [] := by
  refine List.filterMap_eq_nil_iff.mpr fun b hb => ?_
  obtain ⟨d, hd⟩ := hl b hb
  rw [hd]

theorem copiesThrough_registration (face : Face) {i : Interest}
    (hreg : i.locationRegistration = true) :
    copiesThrough u x [(face, .interest i)] = [] := by
  simp [copiesThrough, hreg]

theorem copiesThrough_singleton (face : Face) {i : Interest}
    (hreg : i.locationRegistration = false) :
    copiesThrough u x [(face, .interest i)] = if face.id = u ∧ i.name = x then [i] else [] := by
  simp only [copiesThrough, List.filterMap_cons, hreg, and_true, List.filterMap_nil]
  by_cases hcopy : face.id = u ∧ i.name = x <;> simp [hcopy]

theorem copiesThrough_delivery (faces : FaceTable) (d : Data) (out : List FaceId) :
    copiesThrough u x (out.flatMap (faces.delivery d)) = [] := by
  refine copiesThrough_eq_nil_of_data fun b hb => ?_
  obtain ⟨_, _, hb⟩ := List.mem_flatMap.mp hb
  obtain ⟨_, face, _, _, rfl⟩ := FaceTable.mem_delivery.mp hb
  exact ⟨d, rfl⟩

theorem mem_copiesThrough {l : List (Face × Packet)} {i : Interest}
    (hi : i ∈ copiesThrough u x l) : i.name = x := by
  obtain ⟨⟨face, p⟩, _, hp⟩ := List.mem_filterMap.mp hi
  cases p with
  | data d => cases hp
  | interest j =>
    obtain ⟨⟨_, hname, _⟩, hj⟩ := Option.ite_none_right_eq_some.mp hp
    rw [← Option.some.inj hj, hname]

end Copies

/-! ## The upstream side of an entry -/

namespace Pit

/-- What an entry stands for, and whom the node asked for it. -/
def Entry.upstream (e : Entry) : Interest × List OutRecord := (e.interest, e.outRecords)

theorem Entry.mem_sentOn {e : Entry} {face : FaceId} {i : Interest} {now : Instant} :
    ∃ r ∈ (e.sentOn face i now).outRecords, r.face = face ∧ r.lastNonce = i.nonce :=
  ⟨_, mem_refresh_self, rfl, rfl⟩

/-- The records of other faces stay. -/
theorem Entry.mem_sentOn_of_ne {e : Entry} {face : FaceId} {i : Interest} {now : Instant}
    {r : OutRecord} (hr : r ∈ e.outRecords) (hne : r.face ≠ face) :
    r ∈ (e.sentOn face i now).outRecords :=
  mem_refresh_of_ne hr hne

/-- An entry that is live under the handle `h` was so before, under the same name and with the
out-records for the face `u` that it has. -/
def KeepsAsked (u : FaceId) (h : Handle) (pit pit' : Pit) : Prop :=
  ∀ e', pit'.get? h = some e' → ∃ e, pit.get? h = some e ∧ e.name = e'.name ∧
    ∀ r ∈ e.outRecords, r.face = u → r ∈ e'.outRecords

namespace KeepsAsked

variable {u : FaceId} {h h' : Handle} {pit pit' pit'' : Pit} {e : Entry}

theorem trans (hk : KeepsAsked u h pit pit') (hk' : KeepsAsked u h pit' pit'') :
    KeepsAsked u h pit pit'' := by
  intro e'' hget''
  obtain ⟨e', hget', hname', hout'⟩ := hk' e'' hget''
  obtain ⟨e, hget, hname, hout⟩ := hk e' hget'
  exact ⟨e, hget, hname.trans hname', fun r hr hface => hout' r (hout r hr hface) hface⟩

/-- Nothing happened to the entry, or it is gone. -/
theorem of_get?_imp (hsub : ∀ e, pit'.get? h = some e → pit.get? h = some e) :
    KeepsAsked u h pit pit' :=
  fun e' hget' => ⟨e', hsub e' hget', rfl, fun _ hr _ => hr⟩

theorem of_get?_eq (hget : pit'.get? h = pit.get? h) : KeepsAsked u h pit pit' :=
  of_get?_imp fun _ hget' => hget.symm.trans hget'

theorem modify {g : Entry → Entry} (hg : ∀ e, (g e).upstream = e.upstream) :
    KeepsAsked u h pit (pit.modify h' g) := by
  intro e' hget'
  rw [get?_modify] at hget'
  split at hget'
  · next heq =>
    obtain ⟨e, hget, rfl⟩ := Option.map_eq_some_iff.mp hget'
    obtain ⟨hinterest, hout⟩ := Prod.mk.inj (hg e)
    refine ⟨e, by rw [heq, hget], ?_, fun r hr _ => ?_⟩
    · rw [Entry.name, Entry.name, hinterest]
    · rw [hout]
      exact hr
  · exact ⟨e', hget', rfl, fun _ hr _ => hr⟩

/-- Placing an Interest does nothing to an entry that is there. -/
theorem placed {i : Interest} (hplaced : Placed pit i h' pit') (hget : pit.get? h = some e) :
    KeepsAsked u h pit pit' := by
  intro e' hget'
  rw [hplaced.get?_of_get? hget, Option.some.injEq] at hget'
  exact ⟨e, hget, by rw [hget'], fun r hr _ => hget' ▸ hr⟩

end KeepsAsked

end Pit

/-- The entry `h` is live before the step, and no Data from the face `u` answers it in the
step. -/
structure Step.LeavesAsked (u : FaceId) (h : Pit.Handle) (s : Step) (fw : Forwarder) : Prop where
  live : ∃ e, fw.pit.get? h = some e
  unanswered : ∀ d, s.op = .data u d → h ∈ fw.pit.dataMatches d → d.IsPushed

namespace Forwarder

variable {fw fw' fw'' : Forwarder} {u f : FaceId} {x : Name} {h : Pit.Handle} {e : Pit.Entry}
  {k : Nat} {i : Interest}

/-! ## Packets that are no copies -/

/-- No Interest was sent on for an entry in between. -/
def SendsNoCopy (fw fw' : Forwarder) : Prop :=
  ∃ l, fw'.sent = fw.sent ++ l ∧ ∀ u x, copiesThrough u x l = []

namespace SendsNoCopy

theorem of_sent_eq (hsent : fw'.sent = fw.sent) : SendsNoCopy fw fw' :=
  ⟨[], hsent.trans (List.append_nil _).symm, fun _ _ => rfl⟩

theorem trans (hs : SendsNoCopy fw fw') (hs' : SendsNoCopy fw' fw'') : SendsNoCopy fw fw'' := by
  obtain ⟨l, hl, hnone⟩ := hs
  obtain ⟨l', hl', hnone'⟩ := hs'
  refine ⟨l ++ l', by rw [hl', hl, List.append_assoc], fun u x => ?_⟩
  rw [copiesThrough_append, hnone, hnone', List.append_nil]

theorem of_delivery {d : Data} (out : List FaceId)
    (hsent : fw'.sent = fw.sent ++ out.flatMap (fw.faces.delivery d)) : SendsNoCopy fw fw' :=
  ⟨_, hsent, fun _ _ => copiesThrough_delivery _ _ _⟩

end SendsNoCopy

theorem sendsNoCopy_sendData (d : Data) (out : FaceId) (fw : Forwarder) :
    SendsNoCopy fw (fw.sendData d out) := by
  refine .of_delivery [out] (d := d) ?_
  rw [List.flatMap_singleton]
  exact sent_sendData d out fw

theorem sendsNoCopy_registerLocation (face : Face) (fw : Forwarder)
    (hreg : i.locationRegistration = true) : SendsNoCopy fw (fw.registerLocation face i) := by
  cases registerLocation_cases face i fw with
  | inl hq => exact .of_sent_eq hq.sent
  | inr hemit =>
    obtain ⟨out, _, heq⟩ := hemit
    rw [heq]
    exact ⟨_, sent_emitInterest out i fw, fun _ _ => copiesThrough_registration out hreg⟩

theorem sendsNoCopy_keepAwaited (face : Face) (d : Data) (fw : Forwarder) :
    SendsNoCopy fw (fw.keepAwaited face d) := by
  unfold keepAwaited
  split
  · unfold storeEligible
    split
    · exact .of_sent_eq rfl
    · exact ⟨_, sent_emitInterest _ _ _, fun _ _ => copiesThrough_registration _ rfl⟩
  · split <;> exact .of_sent_eq rfl

theorem sendsNoCopy_answer (s : Strategy) (f : FaceId) (d : Data) (entries : List Pit.Handle)
    (fw : Forwarder) : SendsNoCopy fw (fw.answer s.hooks f d entries) := by
  have ha := answers_foldl s ⟨f, d⟩ entries fw
  exact SendsNoCopy.trans (.of_sent_eq ha.sent) (.of_delivery _ (sent_foldl_sendData d _ _))

/-- Data brings about no copies. -/
theorem sendsNoCopy_receiveData (s : Strategy) (f : FaceId) (d : Data) (fw : Forwarder) :
    SendsNoCopy fw (fw.receiveData s.hooks f d) := by
  have hcount : SendsNoCopy fw (fw.count .inData) := .of_sent_eq rfl
  cases hface : fw.faces.get? f with
  | none =>
    rw [receiveData_of_unknownFace hface]
    exact hcount.trans (.of_sent_eq (quiet_log _ _).sent)
  | some face =>
    rw [receiveData_of_face hface]
    split
    · obtain ⟨_, out, hsent⟩ := receivePublishment_spec d (fw.count .inData)
      exact hcount.trans (.of_delivery _ hsent)
    · split
      · exact hcount
      · split
        · exact hcount.trans (.of_sent_eq (receiveUnsolicited_spec face d _).2)
        · exact (hcount.trans (sendsNoCopy_keepAwaited face d _)).trans
            (sendsNoCopy_answer s f d _ _)

/-- An answer from the content store touches no out-record. -/
theorem exists_pit_answerFromStore (s : Strategy) (face : FaceId) (h : Pit.Handle) (d : Data)
    (fw : Forwarder) :
    ∃ g : Pit.Entry → Pit.Entry, (fw.answerFromStore s.hooks face h d).pit = fw.pit.modify h g ∧
      ∀ e, (g e).upstream = e.upstream := by
  have hq := quiet_notifySatisfying s h ⟨.contentStore, d⟩ fw
  simp only [answerFromStore, (outward_sendData _ _ _).pit, hq.pit]
  split
  · next hpending =>
    obtain ⟨e, hget, he⟩ := (Option.any_eq_true _ _).mp hpending
    rw [← hq.pit] at hget
    rw [pit_armUnsatisfy hget (Pit.Entry.isPending_iff.mp he), hq.pit]
    exact ⟨_, rfl, fun _ => rfl⟩
  · rw [pit_armStraggler, hq.pit]
    exact ⟨_, rfl, fun _ => rfl⟩

/-! ## The last copy -/

/-- Since it had sent `k` packets the node may have sent copies under the name `x` on through the
face `u`. If it has, the live entry `h` of that name has an out-record for the face with the
nonce of the last one. -/
structure Recalls (k : Nat) (u : FaceId) (x : Name) (h : Pit.Handle) (fw : Forwarder) : Prop where
  reachable : Reachable fw
  length_le : k ≤ fw.sent.length
  recorded : ∀ e i, fw.pit.get? h = some e → e.name = x →
    (copiesThrough u x (fw.sent.drop k)).getLast? = some i →
    ∃ r ∈ e.outRecords, r.face = u ∧ r.lastNonce = i.nonce

namespace Recalls

theorem start (hfw : Reachable fw) (u : FaceId) (x : Name) (h : Pit.Handle) :
    Recalls fw.sent.length u x h fw where
  reachable := hfw
  length_le := Nat.le_refl _
  recorded e i _ _ hlast := by
    rw [List.drop_length] at hlast
    cases hlast

/-- Without a new copy it is enough that the entry keeps the record. If there was no copy yet, the
entry does not matter. -/
theorem of_sendsNoCopy (hr : Recalls k u x h fw) (hfw' : Reachable fw')
    (hs : SendsNoCopy fw fw')
    (hk : copiesThrough u x (fw.sent.drop k) = [] ∨ Pit.KeepsAsked u h fw.pit fw'.pit) :
    Recalls k u x h fw' := by
  obtain ⟨l, hl, hnone⟩ := hs
  have hcopies : copiesThrough u x (fw'.sent.drop k) = copiesThrough u x (fw.sent.drop k) := by
    rw [hl, List.drop_append_of_le_length hr.length_le, copiesThrough_append, hnone,
      List.append_nil]
  constructor
  case reachable => exact hfw'
  case length_le =>
    rw [hl, List.length_append]
    exact Nat.le_add_right_of_le hr.length_le
  case recorded =>
    intro e' i hget' hname hlast
    rw [hcopies] at hlast
    cases hk with
    | inl hnil =>
      rw [hnil] at hlast
      cases hlast
    | inr hkeeps =>
      obtain ⟨e, hget, hname', hout⟩ := hkeeps e' hget'
      obtain ⟨r, hr, hface, hnonce⟩ := hr.recorded e i hget (hname'.trans hname) hlast
      exact ⟨r, hout r hr hface, hface, hnonce⟩

/-- The copy `j` is sent for the entry `h'` and recorded over the one before it. -/
theorem of_copy (hr : Recalls k u x h fw) (hfw' : Reachable fw') {h' : Pit.Handle}
    {e' : Pit.Entry} {face : Face} {j : Interest} {now : Instant}
    (hget' : fw.pit.get? h' = some e') (hname' : j.name = e'.name)
    (hreg : j.locationRegistration = false)
    (hpit : fw'.pit = fw.pit.modify h' (·.sentOn face.id j now))
    (hsent : fw'.sent = fw.sent ++ [(face, .interest j)]) : Recalls k u x h fw' := by
  constructor
  case reachable => exact hfw'
  case length_le =>
    rw [hsent, List.length_append]
    exact Nat.le_add_right_of_le hr.length_le
  case recorded =>
    intro e i hget hname hlast
    rw [hsent, List.drop_append_of_le_length hr.length_le, copiesThrough_append,
      copiesThrough_singleton face hreg] at hlast
    rw [hpit] at hget
    by_cases heq : h = h'
    · subst heq
      rw [Pit.get?_modify_self hget', Option.some.injEq] at hget
      subst hget
      by_cases hface : face.id = u
      · rw [if_pos ⟨hface, hname'.trans hname⟩, List.getLast?_concat, Option.some.injEq] at hlast
        subst hlast hface
        exact Pit.Entry.mem_sentOn
      · rw [if_neg fun hc => hface hc.1, List.append_nil] at hlast
        obtain ⟨r, hmem, hr, hnonce⟩ := hr.recorded e' i hget' hname hlast
        refine ⟨r, Pit.Entry.mem_sentOn_of_ne hmem ?_, hr, hnonce⟩
        rw [hr]
        exact Ne.symm hface
    · -- the copy is for another entry, which has another name
      rw [Pit.get?_modify_of_ne heq] at hget
      have wf := hr.reachable.timersHeld.pit_wellFormed
      have hother : e'.name ≠ x := fun hsame =>
        heq (wf.eq_of_name_eq hget hget' (hname.trans hsame.symm))
      rw [if_neg fun hc => hother (hname'.symm.trans hc.2), List.append_nil] at hlast
      exact hr.recorded e i hget hname hlast

theorem sendInterest (hr : Recalls k u x h fw) (h' : Pit.Handle) (out : FaceId)
    (newNonce : Bool) : Recalls k u x h (fw.sendInterest h' out newNonce) := by
  have hfw' := hr.reachable.perform ⟨.idle, .send h' out newNonce⟩
  simp only [Step.perform] at hfw'
  cases sendInterest_cases h' out newNonce fw with
  | inl hq =>
    exact hr.of_sendsNoCopy hfw' (.of_sent_eq hq.sent) (.inr (.of_get?_eq (by rw [hq.pit])))
  | inr hsends =>
    obtain ⟨e', face, request, nonce, nonces, hget', hface, _, hrequest, heq⟩ := hsends
    have hmem := Pit.Entry.mem_of_requestFor? hrequest
    obtain rfl := hr.reachable.id_eq_of_get? hface
    have hsent : (fw.sendInterest h' face.id newNonce).sent =
        fw.sent ++ [(face, .interest { request.interest with nonce })] := by
      rw [heq]
      exact sent_emitInterest _ _ _
    have hpit : (fw.sendInterest h' face.id newNonce).pit =
        fw.pit.modify h' (·.sentOn face.id { request.interest with nonce } fw.now) := by
      rw [heq]
      rfl
    exact hr.of_copy (j := { request.interest with nonce }) hfw' hget'
      (hr.reachable.name_eq hget' hmem) (hr.reachable.locationRegistration_eq hget' hmem) hpit hsent

theorem rejectInterest (hr : Recalls k u x h fw) (h' : Pit.Handle) :
    Recalls k u x h (fw.rejectInterest h') := by
  have hfw' := hr.reachable.perform ⟨.idle, .reject h'⟩
  simp only [Step.perform] at hfw'
  by_cases heff : fw.RejectTakesEffect h'
  · obtain ⟨id, hpit⟩ := pit_rejectInterest heff
    refine hr.of_sendsNoCopy hfw' ?_ (.inr ?_)
    · exact .of_sent_eq (silent_rejectInterest h' fw).sent
    · rw [hpit]
      exact .modify fun _ => rfl
  · have hq := quiet_rejectInterest heff
    exact hr.of_sendsNoCopy hfw' (.of_sent_eq hq.sent) (.inr (.of_get?_eq (by rw [hq.pit])))

/-- A strategy that sends copies has them recorded. -/
theorem planRun (hr : Recalls k u x h fw) {p : Plan} (hp : p.Forwards) :
    Recalls k u x h (p.run fw) :=
  Plan.run_induction (P := Recalls k u x h) hp
    (fun h' out newNonce hr => hr.sendInterest h' out newNonce)
    (fun h' hr => hr.rejectInterest h') hr

/-- An Interest that arrives does nothing to an out-record before the strategy gets it. -/
theorem receiveInterest (hr : Recalls k u x h fw) (s : ForwardingStrategy) (f : FaceId)
    (i : Interest)
    (hk : copiesThrough u x (fw.sent.drop k) = [] ∨ ∃ e, fw.pit.get? h = some e) :
    Recalls k u x h (fw.receiveInterest s.hooks f i) := by
  have hfw' : Reachable (fw.receiveInterest s.hooks f i) :=
    hr.reachable.perform ⟨s, .interest f i⟩
  have harrival := arrival_receiveInterest hr.reachable.timersHeld.pit_wellFormed s.hooks f i
  generalize heq : fw.receiveInterest s.hooks f i = fw' at harrival hfw'
  cases harrival with
  | unknownFace _ =>
    have hq := (quiet_count .inInterests fw).trans (quiet_log (.interestFromUnknownFace f i.name) _)
    exact hr.of_sendsNoCopy hfw' (.of_sent_eq hq.sent) (.inr (.of_get?_eq (by rw [hq.pit])))
  | @registration face _ hreg =>
    rw [← Interest.locationRegistration_arrivedOn i f] at hreg
    have hs := sendsNoCopy_registerLocation face (fw.count .inInterests) hreg
    refine hr.of_sendsNoCopy hfw' (SendsNoCopy.trans (.of_sent_eq rfl) hs) (.inr (.of_get?_eq ?_))
    rw [(outward_registerLocation _ _ _).pit]
    rfl
  | outOfScope => exact hr.of_sendsNoCopy hfw' (.of_sent_eq rfl) (.inr (.of_get?_eq rfl))
  | loop => exact hr.of_sendsNoCopy hfw' (.of_sent_eq rfl) (.inr (.of_get?_eq rfl))
  | newLoop _ c =>
    exact hr.of_sendsNoCopy hfw' (.of_sent_eq rfl) (.inr (.of_get?_eq (c.get?_erase h)))
  | accepted acc _ =>
    obtain ⟨fw₁, id, hsilent, _, hpit, hidle, hrun⟩ := acc.exists_run s.toStrategy
    have hfw₁ : Reachable fw₁ := hidle ▸ hr.reachable.perform ⟨.idle, .interest f i⟩
    rw [← heq, hrun]
    refine planRun ?_ (s.forwards _ _ _)
    refine hr.of_sendsNoCopy hfw₁ (.of_sent_eq hsilent.sent) (hk.imp_right ?_)
    intro ⟨e, hget⟩
    rw [hpit]
    exact (Pit.KeepsAsked.placed acc.placed hget).trans (.modify fun _ => rfl)
  | @answered face h' pit e' d store adm _ _ _ =>
    let fw₁ := { fw.openEntry pit h' with store }.count .csHits
    have hget₁ : fw₁.pit.get? h' = some e'.unarmed := adm.get?_openEntry
    obtain ⟨fw₂, hanswered, hsend⟩ := exists_answered hget₁ s.toStrategy face.id d
    obtain ⟨g, hpit, hg⟩ := exists_pit_answerFromStore s.toStrategy face.id h' d fw₁
    refine hr.of_sendsNoCopy hfw' ?_ (hk.imp_right ?_)
    · have hopen : fw₁.sent = fw.sent := adm.silent_openEntry.sent
      have hquiet : SendsNoCopy fw fw₂ := .of_sent_eq (hanswered.sent.trans hopen)
      exact hsend ▸ hquiet.trans (sendsNoCopy_sendData d face.id fw₂)
    · intro ⟨e, hget⟩
      have hpit₁ : fw₁.pit = pit.modify h' .unarmed := pit_openEntry pit h' fw
      have hplaced : Pit.KeepsAsked u h fw.pit pit := .placed adm.placed hget
      have hopen : Pit.KeepsAsked u h pit fw₁.pit := hpit₁ ▸ .modify fun _ => rfl
      exact (hplaced.trans hopen).trans (hpit ▸ .modify hg)

/-- Data does nothing to an out-record, unless the face it comes from answers the entry. -/
theorem receiveData (hr : Recalls k u x h fw) (s : ForwardingStrategy) (f : FaceId) (d : Data)
    (hk : copiesThrough u x (fw.sent.drop k) = [] ∨
      (f = u → h ∈ fw.pit.dataMatches d → d.IsPushed)) :
    Recalls k u x h (fw.receiveData s.hooks f d) := by
  have hfw' : Reachable (fw.receiveData s.hooks f d) := hr.reachable.perform ⟨s, .data f d⟩
  refine hr.of_sendsNoCopy hfw' (sendsNoCopy_receiveData s.toStrategy f d fw) (hk.imp_right ?_)
  intro hunanswered
  rcases get?_receiveData s.toStrategy f d fw h with heq | ⟨⟨hpush, hmem⟩, id, heq⟩
  · exact .of_get?_eq heq
  · intro e' hget'
    obtain ⟨e, hget, rfl⟩ := Option.map_eq_some_iff.mp (heq.symm.trans hget')
    refine ⟨e, hget, rfl, fun r hr hface => List.mem_filter.mpr ⟨hr, ?_⟩⟩
    have hne : f ≠ u := fun hsame => hpush (hunanswered hsame hmem)
    rw [decide_eq_true_eq, hface]
    exact Ne.symm hne

/-- **A step** keeps the record of the last copy, if there was one and the step leaves the entry
live and unanswered. -/
theorem perform (hr : Recalls k u x h fw) (s : Step)
    (hk : copiesThrough u x (fw.sent.drop k) = [] ∨ s.LeavesAsked u h fw) :
    Recalls k u x h (s.perform fw) := by
  have hfw' := hr.reachable.perform s
  obtain ⟨strategy, op⟩ := s
  cases op with
  | interest f i => exact hr.receiveInterest strategy f i (hk.imp_right fun hs => hs.live)
  | data f d =>
    refine hr.receiveData strategy f d (hk.imp_right fun hs heq => ?_)
    exact hs.unanswered d (by rw [heq])
  | poll t =>
    have hpolled := polled_pollTimers hr.reachable.timersHeld strategy.toStrategy t
    refine hr.of_sendsNoCopy hfw' (.of_sent_eq hpolled.sent) (.inr (.of_get?_imp ?_))
    exact fun e hget => ((hpolled.get?_iff h e).mp hget).1
  | send h' out newNonce => exact hr.sendInterest h' out newNonce
  | reject h' => exact hr.rejectInterest h'
  | change c =>
    have hkept := kept_apply c fw
    exact hr.of_sendsNoCopy hfw' (.of_sent_eq hkept.sent)
      (.inr (.of_get?_eq (congrArg (Pit.get? · h) hkept.pit)))

theorem run (hr : Recalls k u x h fw) {steps : List Step}
    (hs : Throughout (Step.LeavesAsked u h) steps fw) : Recalls k u x h (fw.run steps) := by
  induction steps generalizing fw with
  | nil => exact hr
  | cons s rest ih => exact ih (hr.perform s (.inr hs.1)) hs.2

end Recalls

/-- The Interests that a run sends on through the face `u` under the name `x`, earliest first. -/
def copies (u : FaceId) (x : Name) (steps : List Step) (fw : Forwarder) : List Interest :=
  copiesThrough u x ((fw.run steps).sent.drop fw.sent.length)

/-- The node has sent the copy `i` on through the face `u` for its live entry `e` with the handle
`h`, and no other one through that face since then. This was in the step `s` or later, where `s`
may have created the entry. The entry has been live since, and the face has not answered it. -/
inductive LastSent (u : FaceId) (h : Pit.Handle) (e : Pit.Entry) (i : Interest) : Forwarder → Prop
  | intro {fw : Forwarder} {s : Step} {later : List Step} (hfw : Reachable fw)
    (hlater : Throughout (Step.LeavesAsked u h) later (s.perform fw))
    (hget : (fw.run (s :: later)).pit.get? h = some e)
    (hlast : (fw.copies u e.name (s :: later)).getLast? = some i) :
    LastSent u h e i (fw.run (s :: later))

namespace LastSent

theorem reachable (hsent : LastSent u h e i fw) : Reachable fw := by
  cases hsent with
  | intro hfw => exact hfw.run _

theorem get? (hsent : LastSent u h e i fw) : fw.pit.get? h = some e := by
  cases hsent with
  | intro _ _ hget _ => exact hget

/-- A copy bears the name of its entry. -/
theorem name_eq (hsent : LastSent u h e i fw) : i.name = e.name := by
  cases hsent with
  | intro _ _ _ hlast => exact mem_copiesThrough (List.mem_of_getLast? hlast)

/-- **The nonce of the last copy is in the out-record** of the face that it was sent through. -/
theorem exists_outRecord (hsent : LastSent u h e i fw) :
    ∃ r ∈ e.outRecords, r.face = u ∧ r.lastNonce = i.nonce := by
  cases hsent with
  | @intro fw s later hfw hlater hget hlast =>
    have hstart := Recalls.start hfw u e.name h
    have hnone : copiesThrough u e.name (fw.sent.drop fw.sent.length) = [] := by
      rw [List.drop_length]
      rfl
    exact ((hstart.perform s (.inl hnone)).run hlater).recorded e i hget rfl hlast

end LastSent

end Forwarder

end NamedData
