import NamedData.Proofs.Renewal

/-!
# Which request is passed on

A strategy that gets an Interest has the choice of a face, not of the request that is passed on:
that is the one renewed last by another face. The Interest that has just come in was renewed
last, but a clock reading is all that a record keeps of it. Among requests with one reading
those that stand behind in the entry count as later, and a request stands where its face first
asked. So a face that asks again is passed over if others asked for the first time after it and
the clock has not moved since.

## Main definitions

* `Pit.Entry.latest`, the request that counts as renewed last
* `Plan.Reaches`, where a plan comes to
* `Forwarder.HandedOver`, the node as the strategy gets it
* `Forwarder.PassesOnLatest`, what is sent on behalf of an Interest that has just arrived

## Main statements

* `Pit.Entry.requestFor?_eq_latest`
* `Forwarder.Reachable.lastRenewed_le`: no request was renewed in the future
* `Forwarder.latest_passed_on`
* `Forwarder.repeated_passed_over`: the Interest of a face that asks again is not what is sent
-/
namespace NamedData

namespace Pit.Entry

variable {e : Entry} {out : FaceId} {r s : InRecord} {before after : List InRecord}

/-! ## The latest request -/

/-- The request that counts as renewed last, for the face `out`, where `r` was and the requests
`after` stand behind it: the last of these that another face than `out` renewed at the same
time, or else `r`. -/
def latest (out : FaceId) (r : InRecord) (after : List InRecord) : InRecord :=
  (after.filter fun s => s.face ≠ out ∧ s.lastRenewed = r.lastRenewed).getLastD r

theorem latest_eq_self (hafter : ∀ s ∈ after, s.face ≠ out → s.lastRenewed ≠ r.lastRenewed) :
    latest out r after = r := by
  rw [latest, List.filter_eq_nil_iff.mpr, List.getLastD_nil]
  intro s hs hsame
  obtain ⟨hface, htime⟩ := of_decide_eq_true hsame
  exact hafter s hs hface htime

/-- A request of another face than `out` is preferred to those that were not renewed later. -/
theorem supersedes_of_le (hface : r.face ≠ out) (hle : s.lastRenewed ≤ r.lastRenewed) :
    Supersedes out r s := by
  unfold Supersedes
  split
  · trivial
  · split
    · next hr => exact hface hr.1
    · exact hle

/-- It is given up only for another request of this kind. -/
theorem supersedes_iff_of_le (hface : r.face ≠ out) (hle : s.lastRenewed ≤ r.lastRenewed) :
    Supersedes out s r ↔ s.face ≠ out ∧ s.lastRenewed = r.lastRenewed := by
  unfold Supersedes
  rw [if_neg fun hc => hface hc.2]
  by_cases hs : s.face = out
  · simp [hs, hface]
  · simp only [hs, false_and, if_false, ne_eq, not_false_eq_true, true_and]
    exact ⟨fun hge => Nat.le_antisymm hle hge, fun heq => heq ▸ Nat.le_refl _⟩

theorem foldl_supersedes_eq_latest (hface : r.face ≠ out)
    (hbound : ∀ s ∈ after, s.lastRenewed ≤ r.lastRenewed) :
    after.foldl
      (fun best s =>
        match best with
        | none => some s
        | some t => if Supersedes out s t then some s else some t)
      (some r) = some (latest out r after) := by
  induction after generalizing r with
  | nil => rfl
  | cons s rest ih =>
    have hrest : ∀ t ∈ rest, t.lastRenewed ≤ r.lastRenewed :=
      fun t ht => hbound t (List.mem_cons_of_mem _ ht)
    rw [List.foldl_cons]
    simp only [supersedes_iff_of_le hface (hbound s List.mem_cons_self)]
    split
    · next hsame =>
      -- the fold goes on with `s`, which was renewed when `r` was
      rw [ih hsame.1 (by rwa [hsame.2]), latest, latest, hsame.2,
        List.filter_cons_of_pos (by simpa using hsame), List.getLastD_cons]
    · next hother =>
      rw [ih hface hrest, latest, latest, List.filter_cons_of_neg (by simpa using hother)]

/-- **The request that is passed on** is the latest. -/
theorem requestFor?_eq_latest (hin : e.inRecords = before ++ r :: after) (hface : r.face ≠ out)
    (hbound : ∀ s ∈ e.inRecords, s.lastRenewed ≤ r.lastRenewed) :
    e.requestFor? out = some (latest out r after) := by
  rw [hin] at hbound
  rw [requestFor?, hin, List.foldl_append, List.foldl_cons]
  -- whatever is best among the requests before it, `r` is preferred
  rw [← foldl_supersedes_eq_latest hface fun s hs => hbound s (by simp [hs])]
  congr 1
  generalize hbest : before.foldl _ none = best
  cases best with
  | none => rfl
  | some s =>
    have hs : s ∈ before := (mem_of_foldl_supersedes out before none hbest).resolve_left nofun
    exact if_pos (supersedes_of_le hface (hbound s (by simp [hs])))

/-- A request stands where its face first asked, which for a new one is behind all others. -/
theorem exists_receivedOn_eq (e : Entry) (face : FaceId) (isLocal : Bool) (i : Interest)
    (now : Instant) : ∃ before after,
      (e.receivedOn face isLocal i now).inRecords =
        before ++ e.requestOf face isLocal i now :: after ∧
      ((∀ r ∈ e.inRecords, r.face ≠ face) → after = []) := by
  by_cases hmem : ∃ r ∈ e.inRecords, r.face = face
  · obtain ⟨before, after, heq⟩ := List.append_of_mem (mem_receivedOn_self :
      e.requestOf face isLocal i now ∈ (e.receivedOn face isLocal i now).inRecords)
    obtain ⟨r, hr, hface⟩ := hmem
    exact ⟨before, after, heq, fun hnone => absurd hface (hnone r hr)⟩
  · exact ⟨e.inRecords, [], receivedOn_of_not_mem hmem, fun _ => rfl⟩

end Pit.Entry

/-! ## The way of a plan -/

/-- Who follows the plan comes to the rest of it that is left, in some node. -/
inductive Plan.Reaches : Plan → Forwarder → Plan → Forwarder → Prop
  | refl (p : Plan) (fw : Forwarder) : Reaches p fw p fw
  | act {a : Action} {rest p : Plan} {fw fw' : Forwarder} :
    Reaches rest (a.perform fw) p fw' → Reaches (.act a rest) fw p fw'
  | look {choose : Forwarder → Plan} {p : Plan} {fw fw' : Forwarder} :
    Reaches (choose fw) fw p fw' → Reaches (.look choose) fw p fw'

namespace Plan.Reaches

variable {p p' : Plan} {fw fw' : Forwarder}

theorem run_eq (hreaches : Reaches p fw p' fw') : p.run fw = p'.run fw' := by
  induction hreaches with
  | refl => rfl
  | act _ ih => exact ih
  | look _ ih => exact ih

theorem acted (hreaches : Reaches p fw p' fw') (hp : p.Forwards) : Forwarder.Acted fw fw' := by
  induction hreaches with
  | refl => exact (Forwarder.Quiet.refl _).acted
  | act _ ih =>
    cases hp with
    | send hrest => exact (Forwarder.acted_sendInterest _ _ _ _).trans (ih hrest)
    | reject hrest => exact (Forwarder.acted_rejectInterest _ _).trans (ih hrest)
  | look _ ih =>
    cases hp with
    | look hchoose => exact ih (hchoose _)

end Plan.Reaches

namespace Forwarder

variable {fw fw' : Forwarder} {h : Pit.Handle} {e : Pit.Entry} {f out : FaceId} {i : Interest}
  {face : Face} {r : Pit.InRecord} {before after : List Pit.InRecord}

/-- **No request was renewed in the future.** -/
theorem Reachable.lastRenewed_le (hfw : Reachable fw) (hget : fw.pit.get? h = some e)
    (hr : r ∈ e.inRecords) : r.lastRenewed ≤ fw.now := by
  revert h e r
  refine hfw.induction (P := fun fw => ∀ {h e r}, fw.pit.get? h = some e → r ∈ e.inRecords →
    r.lastRenewed ≤ fw.now) ?_ ?_
  · intro fw hnew h e r hget
    rw [hnew.get?_eq_none] at hget
    cases hget
  · intro fw s hfw ih h e r hget hr
    refine Nat.le_trans ?_ (now_le_perform hfw.timersHeld s)
    rcases renewed_or_kept hfw s hget hr with ⟨i, face, _, heq⟩ | ⟨_, e', hget', hr'⟩
    · rw [heq]
      exact Nat.le_refl fw.now
    · exact ih hget' hr'

/-- A face that may take the Interest of an entry gets a request. -/
theorem sendInterest_eq (hget : fw.pit.get? h = some e) (hvalid : out.IsValid)
    (hface : fw.faces.get? out = some face) (hscope : ¬ e.ViolatesScope face)
    (hr : e.requestFor? out = some r) :
    fw.sendInterest h out false =
      { fw with pit := fw.pit.modify h (·.sentOn out r.interest fw.now) }.emitInterest
        face r.interest := by
  simp only [sendInterest, hget, hvalid, hface, hscope, hr, not_true, if_false,
    Bool.false_eq_true]

/-! ## What is passed on -/

/-- In the node `fw'` the strategy is handed the Interest `i` that the face `f` has sent to the node
`fw`. It is the request `r` of the entry `e` with the handle `h` now, and the requests `after` stand
behind it. -/
structure HandedOver (fw fw' : Forwarder) (f : FaceId) (i : Interest) (h : Pit.Handle)
    (e : Pit.Entry) (r : Pit.InRecord) (after : List Pit.InRecord) : Prop where
  silent : Silent fw fw'
  get? : fw'.pit.get? h = some e
  unsatisfyTimer : ∃ id, e.unsatisfyTimer = some id
  face_eq : r.face = f
  interest_eq : r.interest = i.arrivedOn f
  lastRenewed_eq : r.lastRenewed = fw.now
  inRecords_eq : ∃ before, e.inRecords = before ++ r :: after
  lastRenewed_le : ∀ s ∈ e.inRecords, s.lastRenewed ≤ fw.now
  after_eq_nil : (∀ e, fw.pit.get? h = some e → ∀ s ∈ e.inRecords, s.face ≠ f) → after = []

/-- A strategy that does nothing leaves the node as any strategy gets it. -/
theorem Accepts.exists_handedOver (haccepts : fw.Accepts f i h) (hfw : Reachable fw) :
    ∃ e r after, HandedOver fw (fw.receiveInterest Strategy.idle.hooks f i) f i h e r after := by
  obtain ⟨face, pit, e₀, acc⟩ := haccepts
  have hid : face.id = f := hfw.id_eq_of_get? acc.registered
  obtain ⟨fw₁, id, hsilent, _, hpit, hidle, _⟩ := acc.exists_run .idle
  have hold : ∀ s ∈ e₀.inRecords, fw.pit.get? h = some e₀ :=
    fun s hs => acc.placed.get?_of_mem_inRecords acc.get? hs
  obtain ⟨before, after, hin, hnil⟩ := e₀.unarmed.exists_receivedOn_eq face.id face.isLocal
    (i.arrivedOn f) fw.now
  rw [← hidle]
  refine ⟨(e₀.unarmed.receivedOn face.id face.isLocal (i.arrivedOn f) fw.now).armedUnsatisfy id,
    e₀.unarmed.requestOf face.id face.isLocal (i.arrivedOn f) fw.now, after, ?_⟩
  constructor
  case silent => exact hsilent
  case get? => rw [hpit, Pit.get?_modify_self acc.get?]
  case unsatisfyTimer => exact ⟨id, rfl⟩
  case inRecords_eq => exact ⟨before, hin⟩
  case face_eq => exact hid
  case interest_eq => rfl
  case lastRenewed_eq => rfl
  case lastRenewed_le =>
    intro s hs
    rcases Pit.Entry.mem_receivedOn hs with rfl | hs
    · exact Nat.le_refl _
    · exact hfw.lastRenewed_le (hold s hs) hs
  case after_eq_nil =>
    intro hnone
    refine hnil fun s hs => ?_
    rw [hid]
    exact hnone e₀ (hold s hs) s hs

/-- A strategy that is handed an Interest follows its plan. -/
theorem Accepts.receiveInterest_eq (haccepts : fw.Accepts f i h) (hfw : Reachable fw)
    (s : Strategy) :
    fw.receiveInterest s.hooks f i =
      (s.receive ⟨f, i.arrivedOn f⟩ (fw.fib.longestPrefixMatch i.name) h).run
        (fw.receiveInterest Strategy.idle.hooks f i) := by
  obtain ⟨face, pit, e, acc⟩ := haccepts
  obtain ⟨fw₁, _, _, _, _, hidle, heq⟩ := acc.exists_run s
  rw [← hidle, heq, hfw.id_eq_of_get? acc.registered]

/-- An Interest was accepted if it has left a request that was not there before. -/
theorem accepts_of_new (hfw : Reachable fw) (s : ForwardingStrategy)
    (hnew : ∃ r ∈ ((fw.receiveInterest s.hooks f i).pit.get? h).elim [] (·.inRecords),
      r ∉ (fw.pit.get? h).elim [] (·.inRecords)) : fw.Accepts f i h := by
  obtain ⟨r, hr, hnot⟩ := hnew
  cases hget : (fw.receiveInterest s.hooks f i).pit.get? h with
  | none =>
    rw [hget] at hr
    cases hr
  | some e =>
    rw [hget] at hr
    refine accepts_of_mem_inRecords hfw s hget hr fun e' hget' => ?_
    rwa [hget'] at hnot

/-- The strategy comes to send through the first usable next hop. -/
theorem reaches_bestRoute {j : Incoming Interest} {route : Fib.Entry} (hop : NextHop)
    (hfirst : (fw.pit.get? h).bind (fun e =>
      route.nextHops.find? fun hop => Strategy.Usable fw e j.face hop) = some hop) :
    (Strategy.bestRoute.receive j route h).Reaches fw (.act (.send h hop.face false) .done) fw := by
  obtain ⟨e, hget, hfind⟩ := Option.bind_eq_some_iff.mp hfirst
  refine .look ?_
  simp only [hget, hfind]
  exact .refl _ _

/-- Of the requests of the entry the latest is passed on to another face than `f`, also if a
strategy has sent and rejected before. -/
theorem HandedOver.requestFor?_eq {fw₁ : Forwarder} (ho : HandedOver fw fw₁ f i h e r after)
    {e' : Pit.Entry} (hin : e'.inRecords = e.inRecords) (hne : out ≠ f) :
    e'.requestFor? out = some (Pit.Entry.latest out r after) := by
  obtain ⟨before, hsplit⟩ := ho.inRecords_eq
  refine Pit.Entry.requestFor?_eq_latest (hin.trans hsplit) (ho.face_eq ▸ hne.symm) fun s hs => ?_
  rw [ho.lastRenewed_eq]
  exact ho.lastRenewed_le s (hin ▸ hs)

/-- What becomes of it that the Interest of the entry `h` is sent through `out`, in the node `fw'`,
on behalf of the Interest `i` that the face `f` has sent to the node `fw`. -/
structure PassesOnLatest (fw fw' : Forwarder) (f : FaceId) (i : Interest) (h : Pit.Handle)
    (out : FaceId) (face : Face) (r : Pit.InRecord) (after : List Pit.InRecord) : Prop where
  /-- The Interest is the request `r` of its face now. -/
  renewed : r.face = f ∧ r.lastRenewed = fw.now ∧ r.interest = i.arrivedOn f
  in_entry : ∃ e before, fw'.pit.get? h = some e ∧ e.inRecords = before ++ r :: after
  /-- It stands behind all others unless its face had a request on the entry before. -/
  after_eq_nil : (∀ e, fw.pit.get? h = some e → ∀ s ∈ e.inRecords, s.face ≠ f) → after = []
  /-- One Interest leaves, which is that of the latest request. -/
  sent : (fw'.sendInterest h out false).sent =
    fw'.sent ++ [(face, .interest (Pit.Entry.latest out r after).interest)]
  /-- It is the one that has arrived, unless another face than `out` has a request behind it with
  the same clock reading. -/
  sent_own : (∀ s ∈ after, s.face ≠ out → s.lastRenewed ≠ fw.now) →
    (fw'.sendInterest h out false).sent = fw'.sent ++ [(face, .interest (i.arrivedOn f))]

/-- **What is passed on** on behalf of an Interest that has just arrived is the latest request of
its entry. This is the Interest itself, unless its face asks again and another one, whose request
stands behind its own, has asked at the same clock reading. -/
theorem latest_passed_on (hfw : Reachable fw) (s : ForwardingStrategy)
    (haccepts : fw.Accepts f i h) {rest : Plan}
    (hplan : (s.receive ⟨f, i.arrivedOn f⟩ (fw.fib.longestPrefixMatch i.name) h).Reaches
      (fw.receiveInterest Strategy.idle.hooks f i) (.act (.send h out false) rest) fw')
    (hvalid : out.IsValid) (hface : fw'.faces.get? out = some face)
    (hscope : ∀ e, fw'.pit.get? h = some e → ¬ e.ViolatesScope face) (hne : out ≠ f) :
    fw.receiveInterest s.hooks f i = rest.run (fw'.sendInterest h out false) ∧
      ∃ r after, PassesOnLatest fw fw' f i h out face r after := by
  obtain ⟨e, r, after, ho⟩ := haccepts.exists_handedOver hfw
  refine ⟨(haccepts.receiveInterest_eq hfw s.toStrategy).trans hplan.run_eq, r, after, ?_⟩
  -- the plan has not touched the requests on its way
  obtain ⟨e', hget, hdown⟩ := (hplan.acted (s.forwards _ _ _)).requests.exists_get? ho.get?
  have hsame := Pit.Entry.inRecords_eq_of_downstream hdown
  have hsent : (fw'.sendInterest h out false).sent =
      fw'.sent ++ [(face, .interest (Pit.Entry.latest out r after).interest)] := by
    rw [sendInterest_eq hget hvalid hface (hscope e' hget) (ho.requestFor?_eq hsame hne)]
    exact sent_emitInterest face _ _
  constructor
  case renewed => exact ⟨ho.face_eq, ho.lastRenewed_eq, ho.interest_eq⟩
  case in_entry =>
    obtain ⟨before, hin⟩ := ho.inRecords_eq
    exact ⟨e', before, hget, hsame.trans hin⟩
  case after_eq_nil => exact ho.after_eq_nil
  case sent => exact hsent
  case sent_own =>
    intro hafter
    rw [← ho.lastRenewed_eq] at hafter
    rw [hsent, Pit.Entry.latest_eq_self hafter, ho.interest_eq]

/-- A node that has three faces and a route through the last of them. -/
def threeFaces : Forwarder :=
  (build {} (.cycle 0 []) 0).run
    [⟨.idle, .change (.addFace false 0)⟩, ⟨.idle, .change (.addFace false 1)⟩,
      ⟨.idle, .change (.addFace false 2)⟩, ⟨.idle, .change (.routes (·.addNextHop .root ⟨258⟩ 1))⟩]

/-- An Interest with the given nonce. -/
def asking (nonce : Nonce) : Interest where
  name := ⟨[.ofChars ['a']]⟩
  nonce

/-- The Interest arrives, and its strategy sends it through the cheapest usable next hop. -/
def asks (f : FaceId) (nonce : Nonce) : Step := ⟨.bestRoute, .interest f (asking nonce)⟩

/-- The first face has asked. -/
def askedBefore : Forwarder := threeFaces.run [asks ⟨256⟩ 1]

theorem reachable_askedBefore : Reachable askedBefore :=
  ((Reachable.of_isNew (isNew_build _ _)).run _).run _

/-- The second face to ask has its own Interest passed on, at the clock reading of the first. -/
theorem second_passed_on : ∃ sent,
    (askedBefore.receiveInterest ForwardingStrategy.bestRoute.hooks ⟨257⟩ (asking 2)).sent =
      sent ++ [(⟨⟨258⟩, false, 2⟩, .interest (asking 2))] := by
  have haccepts : askedBefore.Accepts ⟨257⟩ (asking 2) ⟨0, 0⟩ :=
    accepts_of_new reachable_askedBefore .idle (by decide)
  obtain ⟨hrun, r, after, hpasses⟩ := latest_passed_on reachable_askedBefore .bestRoute haccepts
    (reaches_bestRoute ⟨⟨258⟩, 1⟩ (by decide)) (by decide)
    (show _ = some ⟨⟨258⟩, false, 2⟩ by decide) (by decide) (by decide)
  have hnil : after = [] := hpasses.after_eq_nil (by decide)
  rw [hrun]
  exact ⟨_, hpasses.sent_own (by simp [hnil])⟩

/-- **The Interest of a face that asks again is not what is sent.** The other face has asked once,
and after it, at the same clock reading. -/
theorem repeated_passed_over :
    let fw := askedBefore.run [asks ⟨257⟩ 2]
    let fw' := fw.receiveInterest Strategy.idle.hooks ⟨256⟩ (asking 3)
    Reachable fw ∧ fw.Accepts ⟨256⟩ (asking 3) ⟨0, 0⟩ ∧
      (Strategy.bestRoute.receive ⟨⟨256⟩, (asking 3).arrivedOn ⟨256⟩⟩
        (fw.fib.longestPrefixMatch (asking 3).name) ⟨0, 0⟩).Reaches fw'
        (.act (.send ⟨0, 0⟩ ⟨258⟩ false) .done) fw' ∧
      (fw'.sendInterest ⟨0, 0⟩ ⟨258⟩ false).sent =
        fw'.sent ++ [(⟨⟨258⟩, false, 2⟩, .interest (asking 2))] := by
  intro fw fw'
  have hfw : Reachable fw := reachable_askedBefore.run _
  refine ⟨hfw, accepts_of_new hfw .idle (by decide), ?_, by decide⟩
  exact reaches_bestRoute ⟨⟨258⟩, 1⟩ (by decide)

end Forwarder

end NamedData
