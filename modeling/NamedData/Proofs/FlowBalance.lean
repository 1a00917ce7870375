import NamedData.Proofs.Pit.Census
import NamedData.Proofs.Run

/-!
# Flow balance

A face gets no more Data than it has asked for. Each Interest that comes in on a face pays
for one Data packet: it is answered at once, or it leaves a request that the next matching
Data takes away. One Data packet may take away many requests of one face, which gets it once.

Pushed Data is not paid for by anybody and does not count.

## Main definitions

* `dataOn`, the Data packets among those that leave through a face
* `Op.asks`, `Forwarder.delivered`, what a run was asked for and what it delivered

## Main statements

* `Forwarder.balance_perform`: one step keeps the balance
* `Forwarder.delivered_le_asked`
-/
namespace NamedData

def Packet.isData : Packet → Bool
  | interest _ => false
  | data _ => true

/-- How many of the packets are Data for the face `f`. -/
def dataOn (f : FaceId) (packets : List (Face × Packet)) : Nat :=
  packets.countP fun b => b.1.id = f && b.2.isData

/-- The Interest arrives on the face `f` and wants Data. -/
def Op.asks (f : FaceId) : Op → Bool
  | interest g i => g = f && !i.locationRegistration
  | _ => false

/-- Data arrives that is pushed. -/
def Op.isPush : Op → Bool
  | data _ d => d.IsPushed
  | _ => false

/-- How many Data packets the step delivers through the face `f`, unless it pushes Data. -/
def Step.delivered (f : FaceId) (s : Step) (fw : Forwarder) : Nat :=
  if s.op.isPush then 0 else dataOn f (s.output fw)

/-- How many Data packets are delivered through the face `f` in the course of the steps. -/
def Forwarder.delivered (f : FaceId) : List Step → Forwarder → Nat
  | [], _ => 0
  | s :: rest, fw => s.delivered f fw + Forwarder.delivered f rest (s.perform fw)

variable {f : FaceId} {faces : FaceTable} {fw fw' : Forwarder}

/-! ## Data that leaves -/

@[simp] theorem dataOn_nil : dataOn f [] = 0 := rfl

theorem dataOn_append (l l' : List (Face × Packet)) :
    dataOn f (l ++ l') = dataOn f l + dataOn f l' :=
  List.countP_append

theorem dataOn_eq_zero {l : List (Face × Packet)} (hl : ∀ b ∈ l, ∃ i, b.2 = .interest i) :
    dataOn f l = 0 := by
  rw [dataOn, List.countP_eq_zero]
  intro b hb
  obtain ⟨i, hi⟩ := hl b hb
  simp [hi, Packet.isData]

/-- Data for the face `out` leaves through that face only, and once. -/
theorem dataOn_delivery_le (hid : ∀ {out face}, faces.get? out = some face → face.id = out)
    (d : Data) (out : FaceId) : dataOn f (faces.delivery d out) ≤ if out = f then 1 else 0 := by
  unfold FaceTable.delivery
  split
  · exact Nat.zero_le _
  · cases hface : faces.get? out with
    | none => exact Nat.zero_le _
    | some face =>
      dsimp only
      split
      · exact Nat.zero_le _
      · simp [dataOn, Packet.isData, hid hface, List.countP_cons]

theorem dataOn_flatMap_delivery_le
    (hid : ∀ {out face}, faces.get? out = some face → face.id = out) (d : Data)
    (out : List FaceId) : dataOn f (out.flatMap (faces.delivery d)) ≤ out.count f := by
  induction out with
  | nil => exact Nat.le_refl 0
  | cons g rest ih =>
    have hfirst := dataOn_delivery_le (f := f) hid d g
    rw [List.flatMap_cons, dataOn_append, List.count_cons]
    simp only [beq_iff_eq]
    omega

namespace Forwarder

/-- The Data for the face `f` that left in between, and the requests that are left, are paid for
by the requests from before and by `asked` new ones. -/
def Balanced (f : FaceId) (asked : Nat) (fw fw' : Forwarder) : Prop :=
  ∃ l, fw'.sent = fw.sent ++ l ∧
    dataOn f l + fw'.pit.requestsFrom f ≤ fw.pit.requestsFrom f + asked

/-- Nothing that was sent is Data, and no entry got more requests. -/
theorem balanced_of_requestsAt_le {l : List (Face × Packet)} (hsent : fw'.sent = fw.sent ++ l)
    (hl : ∀ b ∈ l, ∃ i, b.2 = .interest i)
    (hle : ∀ h, fw'.pit.requestsAt f h ≤ fw.pit.requestsAt f h) (asked : Nat) :
    Balanced f asked fw fw' := by
  refine ⟨l, hsent, ?_⟩
  have htotal := Pit.requestsFrom_le hle
  rw [dataOn_eq_zero hl]
  omega

theorem Relays.exists_interest {face : Face} {p : Packet} (hrelays : fw.Relays face p) :
    ∃ i, p = .interest i := by
  obtain ⟨_, _, _, _, _, _, _, _, rfl⟩ := hrelays
  exact ⟨_, rfl⟩

/-- A strategy delivers no Data. -/
theorem Acted.balanced (a : Acted fw fw') (f : FaceId) (asked : Nat) :
    Balanced f asked fw fw' := by
  obtain ⟨l, hl, hrelays⟩ := a.sent
  refine balanced_of_requestsAt_le hl (fun b hb => (hrelays b hb).exists_interest) ?_ asked
  exact fun h => Nat.le_of_eq (a.requests.requestsAt_eq f h)

/-! ## Interests -/

/-- A request that joins its entry adds one record at most. -/
theorem balanced_accepted {g : FaceId} {i : Interest} {face : Face} {h : Pit.Handle} {pit : Pit}
    {e : Pit.Entry} (acc : Accepted fw g i face h pit e) (hid : face.id = g) {fw₁ : Forwarder}
    {id : TimerId} (hsilent : Silent fw fw₁)
    (hpit : fw₁.pit = pit.modify h fun e =>
      (e.unarmed.receivedOn face.id face.isLocal (i.arrivedOn g) fw.now).armedUnsatisfy id) :
    Balanced f (if g = f then 1 else 0) fw fw₁ := by
  refine ⟨[], by rw [hsilent.sent, List.append_nil], ?_⟩
  rw [dataOn_nil, Nat.zero_add]
  refine Pit.requestsFrom_add_le (a := 0) h ?_ ?_
  · have hafter := Pit.get?_modify_self (f := fun e : Pit.Entry =>
      (e.unarmed.receivedOn face.id face.isLocal (i.arrivedOn g) fw.now).armedUnsatisfy id) acc.get?
    rw [← hpit] at hafter
    rw [Pit.requestsAt_of_get? hafter, ← acc.placed.requestsAt_eq, Pit.requestsAt_of_get? acc.get?]
    rw [hid]
    simp only [eq_comm (a := g)]
    exact Pit.Entry.countP_receivedOn_le
  · intro h' hne
    have hsame : fw₁.pit.get? h' = pit.get? h' := by rw [hpit, Pit.get?_modify_of_ne hne]
    rw [Pit.requestsAt_congr hsame, acc.placed.requestsAt_eq]

theorem Balanced.acted {asked : Nat} {fw'' : Forwarder} (hb : Balanced f asked fw fw')
    (a : Acted fw' fw'') : Balanced f asked fw fw'' := by
  obtain ⟨l, hl, hle⟩ := hb
  obtain ⟨l', hl', hle'⟩ := a.balanced f 0
  refine ⟨l ++ l', by rw [hl', hl, List.append_assoc], ?_⟩
  rw [dataOn_append]
  omega

theorem balanced_receiveInterest (hfw : Reachable fw) (s : ForwardingStrategy) (g : FaceId)
    (i : Interest) :
    Balanced f (if (Op.interest g i).asks f then 1 else 0) fw (fw.receiveInterest s.hooks g i) := by
  have houtcome := interestOutcome_receiveInterest hfw.timersHeld.pit_wellFormed s.toStrategy g i
  generalize fw.receiveInterest s.hooks g i = fw' at houtcome
  have hasks : ∀ {face h pit e}, Admitted fw g i face h pit e →
      (if (Op.interest g i).asks f then 1 else 0) = if g = f then 1 else 0 := by
    intro face h pit e adm
    simp [Op.asks, adm.request]
  cases houtcome with
  | aside _ hget _ hsent =>
    refine balanced_of_requestsAt_le hsent ?_ ?_ _
    · intro b hb
      obtain ⟨out, _, rfl⟩ := List.mem_map.mp hb
      exact ⟨_, rfl⟩
    · exact fun h => Nat.le_of_eq (Pit.requestsAt_congr (hget h) f)
  | accepted acc hsilent _ hpit =>
    rw [hasks acc.toAdmitted]
    have hid := hfw.id_eq_of_get? acc.registered
    exact (balanced_accepted acc hid hsilent hpit).acted (Plan.acted_run (s.forwards _ _ _) _)
  | @answered face h pit e d _ g' adm _ _ _ hpit hdown _ hsent =>
    rw [hasks adm]
    refine ⟨_, hsent, ?_⟩
    have hdata := dataOn_delivery_le (f := f) hfw.id_eq_of_get? d face.id
    rw [hfw.id_eq_of_get? adm.registered] at hdata
    have hrequests : fw'.pit.requestsFrom f ≤ fw.pit.requestsFrom f := by
      refine Pit.requestsFrom_le fun h' => Nat.le_of_eq ?_
      rw [hpit, (Pit.sameRequests_modify pit h hdown).requestsAt_eq, adm.placed.requestsAt_eq]
    rw [hfw.id_eq_of_get? adm.registered]
    omega

/-! ## Data -/

/-- Data that answers entries takes their requests away. -/
theorem Answers.requestsAt_le {g : FaceId} {entries : List Pit.Handle}
    (ha : Answers g entries fw fw') (f : FaceId) (h : Pit.Handle) :
    fw'.pit.requestsAt f h ≤ if h ∈ entries then 0 else fw.pit.requestsAt f h := by
  cases hget : fw.pit.get? h with
  | none =>
    rw [Pit.requestsAt_of_get?_eq_none (ha.none_of_none h hget)]
    exact Nat.zero_le _
  | some e =>
    split
    · next hmem =>
      obtain ⟨id, hget'⟩ := ha.get?_of_mem h hmem e hget
      rw [Pit.requestsAt_of_get? hget']
      exact Nat.le_refl 0
    · next hmem =>
      exact Nat.le_of_eq (Pit.requestsAt_congr (ha.get?_of_not_mem h hmem) f)

theorem Answers.requestsAt_mono {g : FaceId} {entries : List Pit.Handle}
    (ha : Answers g entries fw fw') (f : FaceId) (h : Pit.Handle) :
    fw'.pit.requestsAt f h ≤ fw.pit.requestsAt f h := by
  refine Nat.le_trans (ha.requestsAt_le f h) ?_
  split
  · exact Nat.zero_le _
  · exact Nat.le_refl _

theorem Answers.requestsFrom_le {g : FaceId} {entries : List Pit.Handle}
    (ha : Answers g entries fw fw') (f : FaceId) :
    fw'.pit.requestsFrom f ≤ fw.pit.requestsFrom f :=
  Pit.requestsFrom_le (ha.requestsAt_mono f)

/-- A face that gets the Data had a request on one of the entries. -/
theorem one_le_requestsAt {entries : List Pit.Handle} (hf : f ∈ fw.waitingFaces entries) :
    ∃ h ∈ entries, 1 ≤ fw.pit.requestsAt f h := by
  obtain ⟨h, hmem, e, hget, r, hr, _, hface⟩ := mem_waitingFaces.mp hf
  refine ⟨h, hmem, ?_⟩
  rw [Pit.requestsAt_of_get? hget]
  exact List.countP_pos_iff.mpr ⟨r, hr, decide_eq_true hface⟩

theorem requestsFrom_receiveData_le (s : Strategy) (g : FaceId) (d : Data) (fw : Forwarder) :
    (fw.receiveData s.hooks g d).pit.requestsFrom f ≤ fw.pit.requestsFrom f := by
  have harrival := dataArrival_receiveData s g d fw
  generalize fw.receiveData s.hooks g d = fw' at harrival
  cases harrival with
  | dropped hu => rw [hu.pit]
  | pushed _ hu => rw [hu.pit]
  | answered _ _ _ htaken ha hu =>
    rw [hu.pit, ← htaken.pit]
    exact ha.requestsFrom_le f

/-- Data that leaves through a face takes at least one request of the face away. -/
theorem balanced_answered {g : FaceId} {d : Data} {entries : List Pit.Handle}
    (hid : ∀ {out face}, fw.faces.get? out = some face → face.id = out)
    (ha : Answers g entries fw fw') :
    dataOn f (((fw.waitingFaces entries).filter (· ≠ g)).flatMap (fw.faces.delivery d)) +
      fw'.pit.requestsFrom f ≤ fw.pit.requestsFrom f := by
  have hdata := dataOn_flatMap_delivery_le (f := f) hid d ((fw.waitingFaces entries).filter (· ≠ g))
  by_cases hf : f ∈ (fw.waitingFaces entries).filter (· ≠ g)
  · have honce : ((fw.waitingFaces entries).filter (· ≠ g)).count f = 1 :=
      List.count_eq_one_of_mem ((nodup_waitingFaces entries fw).filter _) hf
    obtain ⟨h, hmem, hrequest⟩ := one_le_requestsAt (List.mem_of_mem_filter hf)
    have hgone := ha.requestsAt_le f h
    rw [if_pos hmem] at hgone
    have htotal := Pit.requestsFrom_add_le (a := 1) (b := 0) h (by omega) fun h' _ =>
      ha.requestsAt_mono f h'
    omega
  · have hnone := List.count_eq_zero.mpr hf
    have htotal := ha.requestsFrom_le f
    omega

theorem balanced_receiveData (hfw : Reachable fw) (s : Strategy) {g : FaceId} {d : Data}
    (hpush : ¬ d.IsPushed) : Balanced f 0 fw (fw.receiveData s.hooks g d) := by
  have harrival := dataArrival_receiveData s g d fw
  generalize fw.receiveData s.hooks g d = fw' at harrival
  cases harrival with
  | dropped hu hsent =>
    refine balanced_of_requestsAt_le (hsent.trans (List.append_nil _).symm) (by simp) ?_ 0
    exact fun h => Nat.le_of_eq (Pit.requestsAt_congr (by rw [hu.pit]) f)
  | pushed hpush' _ _ => exact absurd hpush' hpush
  | @answered face fw₁ fw₂ fw' _ _ _ htaken ha hu hsent =>
    obtain ⟨announced, _, hsent₁⟩ := htaken.sent
    have hid : ∀ {out face}, fw₁.faces.get? out = some face → face.id = out := by
      intro out face hface
      rw [htaken.faces] at hface
      exact hfw.id_eq_of_get? hface
    have hanswered := balanced_answered (f := f) (d := d) hid ha
    rw [htaken.waitingFaces_eq, htaken.faces, htaken.pit] at hanswered
    refine ⟨_, by rw [hsent, ha.sent, hsent₁, List.append_assoc], ?_⟩
    have hannounced : dataOn f (announced.toList.map fun i => (face, .interest i)) = 0 := by
      refine dataOn_eq_zero fun b hb => ?_
      obtain ⟨i, _, rfl⟩ := List.mem_map.mp hb
      exact ⟨i, rfl⟩
    rw [dataOn_append, hannounced, hu.pit]
    omega

/-! ## Runs -/

/-- Timers that fire take requests away. -/
theorem Polled.requestsAt_le {t : Instant} (hpolled : Polled t fw fw') (f : FaceId)
    (h : Pit.Handle) : fw'.pit.requestsAt f h ≤ fw.pit.requestsAt f h := by
  cases hget : fw'.pit.get? h with
  | none =>
    rw [Pit.requestsAt_of_get?_eq_none hget]
    exact Nat.zero_le _
  | some e =>
    have hget' := ((hpolled.get?_iff h e).mp hget).1
    exact Nat.le_of_eq (Pit.requestsAt_congr (hget.trans hget'.symm) f)

/-- **One step keeps the balance.** What it delivers to a face and the requests that it leaves
are paid for by the requests from before and by the Interest that comes in. -/
theorem balance_perform (hfw : Reachable fw) (s : Step) :
    s.delivered f fw + (s.perform fw).pit.requestsFrom f ≤
      fw.pit.requestsFrom f + if s.op.asks f then 1 else 0 := by
  by_cases hpush : s.op.isPush = true
  · obtain ⟨strategy, op⟩ := s
    cases op with
    | data g d =>
      rw [Step.delivered, if_pos hpush, Nat.zero_add]
      exact Nat.le_add_right_of_le (requestsFrom_receiveData_le strategy.toStrategy g d fw)
    | _ => cases hpush
  · have hbalanced : Balanced f (if s.op.asks f then 1 else 0) fw (s.perform fw) := by
      obtain ⟨strategy, op⟩ := s
      cases op with
      | interest g i => exact balanced_receiveInterest hfw strategy g i
      | data g d =>
        exact balanced_receiveData hfw strategy.toStrategy (by simpa [Op.isPush] using hpush)
      | poll t =>
        have hpolled := polled_pollTimers hfw.timersHeld strategy.toStrategy t
        exact balanced_of_requestsAt_le (hpolled.sent.trans (List.append_nil _).symm) (by simp)
          (hpolled.requestsAt_le f) _
      | send h g newNonce => exact (acted_sendInterest h g newNonce fw).balanced f _
      | reject h => exact (acted_rejectInterest h fw).balanced f _
      | change c =>
        have hkept := kept_apply c fw
        refine balanced_of_requestsAt_le (hkept.sent.trans (List.append_nil _).symm) (by simp) ?_ _
        exact fun h => Nat.le_of_eq (Pit.requestsAt_congr (congrArg (·.get? h) hkept.pit) f)
    obtain ⟨l, hl, hle⟩ := hbalanced
    rw [Step.delivered, if_neg hpush, Step.output_eq hl]
    exact hle

theorem balance_run (hfw : Reachable fw) (steps : List Step) :
    fw.delivered f steps + (fw.run steps).pit.requestsFrom f ≤
      fw.pit.requestsFrom f + steps.countP (·.op.asks f) := by
  induction steps generalizing fw with
  | nil => simp [delivered]
  | cons s rest ih =>
    have hstep := balance_perform (f := f) hfw s
    have hrest := ih (hfw.perform s)
    rw [delivered, run_cons, List.countP_cons]
    omega

/-- **A face gets no more Data than it has asked for**, in no run of a new node. What it has got,
pushed Data aside, and the requests that stand for it make up at most the Interests that it
has sent, location registrations aside. -/
theorem delivered_le_asked (hnew : IsNew fw) (steps : List Step) (f : FaceId) :
    fw.delivered f steps + (fw.run steps).pit.requestsFrom f ≤
      steps.countP (·.op.asks f) := by
  have hempty : fw.pit.requestsFrom f = 0 := by
    have hlive : ∀ h e, fw.pit.get? h = some e → h ∈ (∅ : Finset Pit.Handle) := by
      intro h e hget
      rw [hnew.get?_eq_none] at hget
      cases hget
    rw [Pit.requestsFrom_eq_sum hlive, Finset.sum_empty]
  have hrun := balance_run (f := f) (Reachable.of_isNew hnew) steps
  omega

/-- A face asks a new node, and another face answers. -/
def askAndAnswer : List Step :=
  [⟨.idle, .change (.addFace true 0)⟩, ⟨.idle, .change (.addFace false 1)⟩,
    ⟨.idle, .interest ⟨256⟩ { name := ⟨[.ofChars ['a']]⟩, nonce := 5 }⟩,
    ⟨.idle, .data ⟨257⟩ { name := ⟨[.ofChars ['a']]⟩ }⟩]

/-- Here the one Interest is paid back in full. -/
theorem askAndAnswer_balanced :
    (build {} (.cycle 0 []) 0).delivered ⟨256⟩ askAndAnswer = 1 ∧
      (build {} (.cycle 0 []) 0).delivered ⟨256⟩ askAndAnswer +
        ((build {} (.cycle 0 []) 0).run askAndAnswer).pit.requestsFrom ⟨256⟩ ≤
      askAndAnswer.countP (·.op.asks ⟨256⟩) ∧ askAndAnswer.countP (·.op.asks ⟨256⟩) = 1 :=
  ⟨by decide, delivered_le_asked (isNew_build _ _) askAndAnswer ⟨256⟩, by decide⟩

end Forwarder

end NamedData
