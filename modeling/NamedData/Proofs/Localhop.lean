import NamedData.Proofs.Delivery
import NamedData.Proofs.Renewal
import NamedData.Proofs.Upstream

/-!
# Names under /localhop

A packet under `/localhop` may cross one link between nodes. So an Interest under such a name that
comes from another node may not go on to a third. A strategy is kept from sending it on as long as
any face that is not local has a request on the entry. A location registration passes by the
entries, and this check does not reach it.

## Main definitions

* `Forwarder.AskedLocally`, the requests on an entry were made on this node

## Main statements

* `Forwarder.interest_of_mem_output`: where an Interest that leaves comes from
* `Forwarder.localhop_leaves_for_local`
* `Forwarder.registration_crosses_localhop`: a location registration goes on to a third node
-/
namespace NamedData

namespace Forwarder

variable {fw : Forwarder} {h : Pit.Handle} {e : Pit.Entry} {f : FaceId} {out : Face}
  {i j : Interest} {d : Data} {s : Step} {steps : List Step}

/-! ## Where an Interest that leaves comes from -/

/-- What a strategy has sent in between may still leave. -/
theorem Acted.relays_of_mem_output {fw' : Forwarder} (a : Acted fw fw')
    (hsent : (out, .interest j) ∈ fw'.sent.drop fw.sent.length) :
    fw'.Relays out (.interest j) := by
  obtain ⟨l, hl, hrelays⟩ := a.sent
  rw [hl, List.drop_left] at hsent
  exact (hrelays _ hsent).of_sameRequests a.faces a.requests

theorem interest_of_receiveInterest (hfw : Reachable fw) (s : ForwardingStrategy)
    (hsent : (out, .interest j) ∈ (fw.receiveInterest s.hooks f i).sent.drop fw.sent.length) :
    (fw.receiveInterest s.hooks f i).Relays out (.interest j) ∨
      i.locationRegistration = true ∧ j = i.arrivedOn f := by
  have houtcome := interestOutcome_receiveInterest hfw.timersHeld.pit_wellFormed s.toStrategy f i
  generalize fw.receiveInterest s.hooks f i = fw' at houtcome hsent ⊢
  cases houtcome with
  | aside _ _ _ hsent' _ hreg =>
    rw [hsent', List.drop_left, List.mem_map] at hsent
    obtain ⟨out', hout, heq⟩ := hsent
    obtain rfl := Packet.interest.inj (Prod.mk.inj heq).2
    exact .inr ⟨hreg (Option.ne_none_iff_exists'.mpr ⟨out', Option.mem_toList.mp hout⟩), rfl⟩
  | accepted _ hsilent =>
    rw [← hsilent.sent] at hsent
    exact .inl ((Plan.acted_run (s.forwards _ _ _) _).relays_of_mem_output hsent)
  | answered _ _ _ _ _ _ _ hsent' =>
    rw [hsent', List.drop_left] at hsent
    cases FaceTable.isData_of_mem_delivery hsent

/-- Data brings about location registrations only, which go back to where it came from. -/
theorem interest_of_receiveData (hfw : Reachable fw) (s : Strategy)
    (hsent : (out, .interest j) ∈ (fw.receiveData s.hooks f d).sent.drop fw.sent.length) :
    f = out.id ∧ j.locationRegistration = true ∧ j.name = d.name := by
  obtain ⟨l, hl, hnone⟩ := sendsNoCopy_receiveData s f d fw
  have hreg : j.locationRegistration = true := by
    rw [hl, List.drop_left] at hsent
    by_contra hcopy
    have hmem : j ∈ copiesThrough out.id j.name l :=
      List.mem_filterMap.mpr ⟨_, hsent, if_pos ⟨rfl, rfl, Bool.not_eq_true _ ▸ hcopy⟩⟩
    rw [hnone] at hmem
    cases hmem
  have harrival := dataArrival_receiveData s f d fw
  generalize fw.receiveData s.hooks f d = fw' at harrival hsent
  cases harrival with
  | dropped _ hsent' => exact absurd hsent (not_mem_output_of_sent_eq hsent')
  | pushed _ _ hsent' =>
    obtain ⟨_, hsent'⟩ := hsent'
    rw [hsent', List.drop_left] at hsent
    obtain ⟨_, _, hmem⟩ := List.mem_flatMap.mp hsent
    cases FaceTable.isData_of_mem_delivery hmem
  | answered hface _ _ htaken ha _ hsent' =>
    obtain ⟨announced, hname, hsent₁⟩ := htaken.sent
    rw [hsent', ha.sent, hsent₁, List.append_assoc, List.drop_left] at hsent
    rcases List.mem_append.mp hsent with hmem | hmem
    · obtain ⟨j', hj', heq⟩ := List.mem_map.mp hmem
      obtain ⟨rfl, hpacket⟩ := Prod.mk.inj heq
      obtain rfl := Packet.interest.inj hpacket
      exact ⟨(hfw.id_eq_of_get? hface).symm, hreg, hname j' (Option.mem_toList.mp hj')⟩
    · obtain ⟨_, _, hmem⟩ := List.mem_flatMap.mp hmem
      cases FaceTable.isData_of_mem_delivery hmem

/-- **An Interest that leaves** is a request of an entry, or a location registration: one that has
just arrived, or one that announces Data to where it has just come from. -/
theorem interest_of_mem_output (hfw : Reachable fw) (s : Step)
    (hsent : (out, .interest j) ∈ s.output fw) :
    (s.perform fw).Relays out (.interest j) ∨
      (∃ f i, s.op = .interest f i ∧ i.locationRegistration = true ∧ j = i.arrivedOn f) ∨
      ∃ d, s.op = .data out.id d ∧ j.locationRegistration = true ∧ j.name = d.name := by
  obtain ⟨strategy, op⟩ := s
  cases op with
  | interest f i =>
    rcases interest_of_receiveInterest hfw strategy hsent with hrelays | ⟨hreg, hj⟩
    · exact .inl hrelays
    · exact .inr (.inl ⟨f, i, rfl, hreg, hj⟩)
  | data f d =>
    obtain ⟨rfl, hreg, hname⟩ := interest_of_receiveData hfw strategy.toStrategy hsent
    exact .inr (.inr ⟨d, rfl, hreg, hname⟩)
  | poll t =>
    have hpolled := polled_pollTimers hfw.timersHeld strategy.toStrategy t
    exact absurd hsent (not_mem_output_of_sent_eq hpolled.sent)
  | send h g newNonce =>
    exact .inl ((acted_sendInterest h g newNonce fw).relays_of_mem_output hsent)
  | reject h => exact .inl ((acted_rejectInterest h fw).relays_of_mem_output hsent)
  | change c => exact absurd hsent (not_mem_output_of_sent_eq (kept_apply c fw).sent)

/-! ## Names under /localhop -/

/-- Each request on the entry `e` with the handle `h` was left by an Interest that came through a
local face, and no other has taken its place. -/
def AskedLocally (h : Pit.Handle) (e : Pit.Entry) (steps : List Step) (fw : Forwarder) : Prop :=
  ∀ r ∈ e.inRecords, ∃ before s later i face, steps = before ++ s :: later ∧
    LastRenewal r.face h i face before s later fw ∧ face.isLocal = true ∧
    r.interest = i.arrivedOn r.face

theorem askedLocally_of_not_violatesScope (hnew : IsNew fw)
    (hget : (fw.run steps).pit.get? h = some e) (hscope : ¬ e.ViolatesScope out)
    (hremote : out.isLocal = false) (hname : e.name.IsLocalhop) : AskedLocally h e steps fw := by
  intro r hr
  obtain ⟨before, s, later, i, face, hsteps, hlast, heq⟩ := exists_lastRenewal hnew steps hget hr
  have hlocal : r.isLocal = true := by
    by_contra hother
    exact hscope ⟨hremote, .inr ⟨hname, r, hr, by simpa using hother⟩⟩
  rw [heq] at hlocal
  exact ⟨before, s, later, i, face, hsteps, hlast, hlocal, congrArg Pit.InRecord.interest heq⟩

/-- **What leaves under /localhop for another node.** It is a copy of a request on an entry all of
whose requests were made on this node, or it is a location registration. Then it has arrived in
the same step, or it announces Data to where it has just come from. -/
theorem localhop_leaves_for_local (hnew : IsNew fw) (steps : List Step) (s : Step)
    (hsent : (out, .interest j) ∈ s.output (fw.run steps)) (hremote : out.isLocal = false)
    (hname : j.name.IsLocalhop) :
    (∃ h e r nonce, (fw.run (steps ++ [s])).pit.get? h = some e ∧ r ∈ e.inRecords ∧
      j = { r.interest with nonce } ∧ j.locationRegistration = false ∧
      AskedLocally h e (steps ++ [s]) fw) ∨
    (∃ f i, s.op = .interest f i ∧ i.locationRegistration = true ∧ j = i.arrivedOn f) ∨
    ∃ d, s.op = .data out.id d ∧ j.locationRegistration = true ∧ j.name = d.name := by
  have hfw := (Reachable.of_isNew hnew).run steps
  have hrun : fw.run (steps ++ [s]) = s.perform (fw.run steps) := run_append steps [s] fw
  rcases interest_of_mem_output hfw s hsent with hrelays | hregistration
  · obtain ⟨h, e, r, nonce, hget, hr, hscope, _, hj⟩ := hrelays
    obtain rfl := Packet.interest.inj hj
    rw [← hrun] at hget
    have hfw' := (Reachable.of_isNew hnew).run (steps ++ [s])
    have hentry : e.name.IsLocalhop := by
      rw [← hfw'.name_eq hget hr]
      exact hname
    exact .inl ⟨h, e, r, nonce, hget, hr, rfl, hfw'.locationRegistration_eq hget hr,
      askedLocally_of_not_violatesScope hnew hget hscope hremote hentry⟩
  · exact .inr hregistration

/-- A node with two faces, the first of which may be local, and with a route through the second. -/
def hopSetup (isLocal : Bool) : List Step :=
  [⟨.idle, .change (.addFace isLocal 0)⟩, ⟨.idle, .change (.addFace false 1)⟩,
    ⟨.idle, .change (.routes (·.addNextHop .root ⟨257⟩ 1))⟩]

/-- An Interest that may cross one link. -/
def hopInterest : Interest where
  name := ⟨[Name.localhop, .ofChars ['x']]⟩
  nonce := 5

/-- An application on the node asks, and its request is the one that leaves. -/
theorem hopSetup_leaves_for_local :
    ∃ h e, ((build {} (.cycle 0 []) 0).run
        (hopSetup true ++ [⟨.bestRoute, .interest ⟨256⟩ hopInterest⟩])).pit.get? h = some e ∧
      e.inRecords ≠ [] ∧
      AskedLocally h e (hopSetup true ++ [⟨.bestRoute, .interest ⟨256⟩ hopInterest⟩])
        (build {} (.cycle 0 []) 0) := by
  have hsent : (⟨⟨257⟩, false, 1⟩, .interest hopInterest) ∈
      (⟨.bestRoute, .interest ⟨256⟩ hopInterest⟩ : Step).output
        ((build {} (.cycle 0 []) 0).run (hopSetup true)) := by decide
  rcases localhop_leaves_for_local (isNew_build _ _) (hopSetup true) _ hsent rfl (by decide) with
    ⟨h, e, r, nonce, hget, hr, _, _, hasked⟩ | ⟨f, i, hop, hreg, _⟩ | ⟨d, hop, _⟩
  · exact ⟨h, e, hget, List.ne_nil_of_mem hr, hasked⟩
  · cases hop
    cases hreg
  · cases hop

/-- **A location registration under /localhop goes on to a third node.** -/
theorem registration_crosses_localhop :
    let fw := (build {} (.cycle 0 []) 0).run (hopSetup false)
    let i := { hopInterest with locationRegistration := true }
    Reachable fw ∧ fw.faces.get? ⟨256⟩ = some ⟨⟨256⟩, false, 0⟩ ∧ i.name.IsLocalhop ∧
      (⟨⟨257⟩, false, 1⟩, .interest i) ∈ (⟨.idle, .interest ⟨256⟩ i⟩ : Step).output fw := by
  intro fw i
  exact ⟨(Reachable.of_isNew (isNew_build _ _)).run _, by decide, by decide, by decide⟩

end Forwarder

end NamedData
