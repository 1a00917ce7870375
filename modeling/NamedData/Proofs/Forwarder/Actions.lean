import NamedData.Proofs.Forwarder.Effects

/-!
# What a strategy can do

A strategy that only sends and rejects works on timers and out-records. Whoever waits on
an entry goes on waiting, and what leaves the node is a request of an entry that may leave
through that face.

## Main definitions

* `Forwarder.Relays`, what may leave on behalf of an entry
* `Forwarder.Acted`, what a strategy may change
* `Forwarder.RejectTakesEffect` and `Plan.GivesUp`

The results about whole plans are `Plan.acted_run`, `Plan.timersHeld_run` and, for an entry
that the plan does not give up, `Plan.get?_run`.
-/
namespace NamedData

namespace Forwarder

variable {fw fw' fw'' : Forwarder} {h : Pit.Handle} {e : Pit.Entry} {face : Face} {p : Packet}

/-- The packet `p` is a request of a live entry, perhaps with another nonce, and may leave
through the registered face `face`. -/
def Relays (fw : Forwarder) (face : Face) (p : Packet) : Prop :=
  ∃ h e r nonce, fw.pit.get? h = some e ∧ r ∈ e.inRecords ∧ ¬ e.ViolatesScope face ∧
    (∃ out, fw.faces.get? out = some face) ∧ p = .interest { r.interest with nonce }

/-- The node after a strategy acted on it. -/
structure Acted (fw fw' : Forwarder) : Prop extends SameSetup fw fw' where
  now : fw'.now = fw.now
  requests : Pit.SameRequests fw.pit fw'.pit
  sent : ∃ l, fw'.sent = fw.sent ++ l ∧ ∀ b ∈ l, fw.Relays b.1 b.2

/-- What may leave depends on the faces and the requests only. -/
theorem Relays.of_sameRequests (hr : fw.Relays face p) (hfaces : fw'.faces = fw.faces)
    (hs : Pit.SameRequests fw.pit fw'.pit) : fw'.Relays face p := by
  obtain ⟨h, e, r, nonce, hget, hr, hscope, ⟨out, hface⟩, rfl⟩ := hr
  obtain ⟨e', hget', hdown⟩ := hs.exists_get? hget
  refine ⟨h, e', r, nonce, hget', ?_, ?_, ⟨out, ?_⟩, rfl⟩
  · rw [Pit.Entry.inRecords_eq_of_downstream hdown]
    exact hr
  · exact mt (Pit.Entry.violatesScope_of_downstream hdown) hscope
  · rw [hfaces]
    exact hface

namespace Acted

theorem relays (a : Acted fw fw') (hr : fw'.Relays face p) : fw.Relays face p :=
  hr.of_sameRequests a.faces.symm a.requests.symm

theorem trans (a : Acted fw fw') (a' : Acted fw' fw'') : Acted fw fw'' where
  toSameSetup := a.toSameSetup.trans a'.toSameSetup
  now := a'.now.trans a.now
  requests := a.requests.trans a'.requests
  sent := by
    obtain ⟨l, hl, hrelays⟩ := a.sent
    obtain ⟨l', hl', hrelays'⟩ := a'.sent
    refine ⟨l ++ l', by rw [hl', hl, List.append_assoc], ?_⟩
    intro b hb
    rcases List.mem_append.mp hb with hb | hb
    · exact hrelays b hb
    · exact a.relays (hrelays' b hb)

/-- Work on timers and out-records that sends nothing. -/
theorem of_silent (hs : Silent fw fw') (hnow : fw'.now = fw.now)
    (hreq : Pit.SameRequests fw.pit fw'.pit) : Acted fw fw' where
  toSameSetup := hs.toSameSetup
  now := hnow
  requests := hreq
  sent := ⟨[], by rw [hs.sent, List.append_nil], List.forall_mem_nil _⟩

end Acted

theorem Quiet.acted (hq : Quiet fw fw') : Acted fw fw' := by
  refine .of_silent hq.silent ?_ ?_
  · rw [now, now, hq.timers]
  · rw [hq.pit]
    exact .refl _

/-! ## Sending -/

/-- A request is sent on, or nothing but a log entry comes of it. -/
theorem sendInterest_cases (h : Pit.Handle) (out : FaceId) (newNonce : Bool) (fw : Forwarder) :
    Quiet fw (fw.sendInterest h out newNonce) ∨
      ∃ e face r nonce nonces, fw.pit.get? h = some e ∧ fw.faces.get? out = some face ∧
        ¬ e.ViolatesScope face ∧ e.requestFor? out = some r ∧
        fw.sendInterest h out newNonce =
          { fw with
            nonces
            pit := fw.pit.modify h (·.sentOn out { r.interest with nonce } fw.now)
          }.emitInterest face { r.interest with nonce } := by
  unfold sendInterest
  cases hget : fw.pit.get? h with
  | none => exact .inl (quiet_log _ fw)
  | some e =>
    by_cases hvalid : out.IsValid
    · cases hface : fw.faces.get? out with
      | none =>
        simp only [not_true, hvalid, if_false]
        exact .inl (quiet_log _ fw)
      | some face =>
        by_cases hscope : e.ViolatesScope face
        · simp only [not_true, hvalid, if_false, if_pos hscope]
          exact .inl (.refl fw)
        · cases hr : e.requestFor? out with
          | none =>
            simp only [not_true, hvalid, if_false, if_neg hscope, hr]
            exact .inl (quiet_log _ fw)
          | some r =>
            simp only [not_true, hvalid, if_false, if_neg hscope, hr]
            right
            cases newNonce with
            | false => exact ⟨e, face, r, r.interest.nonce, fw.nonces, rfl, rfl, hscope, hr, rfl⟩
            | true => exact ⟨e, face, r, _, _, rfl, rfl, hscope, hr, rfl⟩
    · exact .inl (by simpa only [hvalid, not_false_eq_true, if_true] using quiet_log _ fw)

theorem acted_sendInterest (h : Pit.Handle) (out : FaceId) (newNonce : Bool) (fw : Forwarder) :
    Acted fw (fw.sendInterest h out newNonce) := by
  rcases sendInterest_cases h out newNonce fw with
    hq | ⟨e, face, r, nonce, nonces, hget, hface, hscope, hr, heq⟩
  · exact hq.acted
  · rw [heq]
    refine ⟨⟨rfl, rfl, rfl, rfl, Pit.defaultLifetime_modify _ _ _⟩, rfl, ?_,
      [(face, .interest { r.interest with nonce })], ?_, ?_⟩
    · exact Pit.sameRequests_modify _ _ fun _ => Pit.Entry.downstream_sentOn _ _ _
    · exact sent_emitInterest _ _ _
    · intro b hb
      rw [List.mem_singleton.mp hb]
      exact ⟨h, e, r, nonce, hget, Pit.Entry.mem_of_requestFor? hr, hscope, ⟨out, hface⟩, rfl⟩

theorem timersHeld_sendInterest (inv : TimersHeld none fw.pit fw.timers) (h : Pit.Handle)
    (out : FaceId) (newNonce : Bool) :
    TimersHeld none (fw.sendInterest h out newNonce).pit
      (fw.sendInterest h out newNonce).timers := by
  rcases sendInterest_cases h out newNonce fw with
    hq | ⟨e, face, r, nonce, nonces, hget, hface, hscope, hr, heq⟩
  · rw [hq.pit, hq.timers]
    exact inv
  · rw [heq]
    exact inv.modify (fun _ => ⟨rfl, rfl, rfl⟩) (.inr fun _ => rfl)

/-! ## Rejecting -/

/-- The entry is live and no face that was asked for it may still answer. -/
def RejectTakesEffect (fw : Forwarder) (h : Pit.Handle) : Prop :=
  ∃ e, fw.pit.get? h = some e ∧ ¬ e.HasUnexpiredOutRecords fw.now

theorem quiet_rejectInterest (hno : ¬ fw.RejectTakesEffect h) : Quiet fw (fw.rejectInterest h) := by
  unfold rejectInterest
  cases hget : fw.pit.get? h with
  | none => exact quiet_log _ fw
  | some e =>
    have hunexpired : e.HasUnexpiredOutRecords fw.now := by
      by_contra hc
      exact hno ⟨e, hget, hc⟩
    simp only [if_pos hunexpired]
    exact quiet_log _ fw

theorem rejectInterest_of_effect (heff : fw.RejectTakesEffect h) :
    fw.rejectInterest h = (fw.cancelTimers h).armStraggler h false none := by
  obtain ⟨e, hget, hexpired⟩ := heff
  simp only [rejectInterest, hget, if_neg hexpired]

/-- A reject that takes effect turns the entry over to the grace period. -/
theorem pit_rejectInterest (heff : fw.RejectTakesEffect h) :
    ∃ id, (fw.rejectInterest h).pit = fw.pit.modify h fun e => e.unarmed.armedStraggler id := by
  rw [rejectInterest_of_effect heff, pit_armStraggler, pit_cancelTimers, Pit.modify_modify]
  exact ⟨_, rfl⟩

theorem rescheduled_rejectInterest (heff : fw.RejectTakesEffect h) :
    Rescheduled fw (fw.rejectInterest h) := by
  rw [rejectInterest_of_effect heff]
  exact (rescheduled_cancelTimers h fw).trans (rescheduled_armStraggler h false none _)

theorem silent_rejectInterest (h : Pit.Handle) (fw : Forwarder) :
    Silent fw (fw.rejectInterest h) := by
  by_cases heff : fw.RejectTakesEffect h
  · exact (rescheduled_rejectInterest heff).silent
  · exact (quiet_rejectInterest heff).silent

theorem acted_rejectInterest (h : Pit.Handle) (fw : Forwarder) :
    Acted fw (fw.rejectInterest h) := by
  by_cases heff : fw.RejectTakesEffect h
  · obtain ⟨id, hpit⟩ := pit_rejectInterest heff
    refine .of_silent (silent_rejectInterest h fw) (rescheduled_rejectInterest heff).now ?_
    rw [hpit]
    exact Pit.sameRequests_modify _ _ fun _ => Pit.Entry.downstream_armedStraggler _
  · exact (quiet_rejectInterest heff).acted

theorem timersHeld_rejectInterest (inv : TimersHeld none fw.pit fw.timers) (h : Pit.Handle) :
    TimersHeld none (fw.rejectInterest h).pit (fw.rejectInterest h).timers := by
  by_cases heff : fw.RejectTakesEffect h
  · have ⟨e, hget, _⟩ := heff
    have hget' : (fw.cancelTimers h).pit.get? h = some e.unarmed := by
      rw [pit_cancelTimers, Pit.get?_modify_self hget]
    rw [rejectInterest_of_effect heff]
    exact timersHeld_armStraggler (timersHeld_cancelTimers inv (.inl rfl) hget) hget' none (by simp)
  · rw [(quiet_rejectInterest heff).pit, (quiet_rejectInterest heff).timers]
    exact inv

end Forwarder

/-! ## Plans -/

namespace Plan

variable {fw : Forwarder} {p : Plan} {h : Pit.Handle} {e : Pit.Entry}

/-- Somewhere in the plan the entry `h` is rejected, and that takes effect. -/
def GivesUp (h : Pit.Handle) : Plan → Forwarder → Prop
  | done, _ => False
  | act a rest, fw =>
    (a = .reject h ∧ fw.RejectTakesEffect h) ∨ rest.GivesUp h (a.perform fw)
  | look choose, fw => (choose fw).GivesUp h fw

/-- What sending and rejecting keep, a plan that does nothing else keeps. -/
theorem run_induction {P : Forwarder → Prop} (hp : p.Forwards)
    (hsend : ∀ {fw} h out newNonce, P fw → P (fw.sendInterest h out newNonce))
    (hreject : ∀ {fw} h, P fw → P (fw.rejectInterest h)) (hfw : P fw) : P (p.run fw) := by
  induction hp generalizing fw with
  | done => exact hfw
  | send _ ih => exact ih (hsend _ _ _ hfw)
  | reject _ ih => exact ih (hreject _ hfw)
  | look _ ih => exact ih fw hfw

theorem acted_run (hp : p.Forwards) (fw : Forwarder) : Forwarder.Acted fw (p.run fw) := by
  refine run_induction hp ?_ ?_ (Forwarder.Quiet.refl fw).acted
  · exact fun h out newNonce a => a.trans (Forwarder.acted_sendInterest h out newNonce _)
  · exact fun h a => a.trans (Forwarder.acted_rejectInterest h _)

theorem timersHeld_run (hp : p.Forwards) (inv : TimersHeld none fw.pit fw.timers) :
    TimersHeld none (p.run fw).pit (p.run fw).timers :=
  run_induction (P := fun fw => TimersHeld none fw.pit fw.timers) hp
    (fun h out newNonce inv => Forwarder.timersHeld_sendInterest inv h out newNonce)
    (fun h inv => Forwarder.timersHeld_rejectInterest inv h) inv

/-- **An entry that the plan does not give up** keeps everything but its out-records. -/
theorem get?_run (hp : p.Forwards) (hget : fw.pit.get? h = some e) (hkeep : ¬ p.GivesUp h fw) :
    ∃ outRecords, (p.run fw).pit.get? h = some { e with outRecords } := by
  induction hp generalizing fw e with
  | done => exact ⟨e.outRecords, hget⟩
  | @send entry face newNonce rest _ ih =>
    have hstep : ∃ outRecords,
        (fw.sendInterest entry face newNonce).pit.get? h = some { e with outRecords } := by
      rcases Forwarder.sendInterest_cases entry face newNonce fw with
        hq | ⟨e', out, r, nonce, nonces, hget', _, _, _, heq⟩
      · rw [hq.pit]
        exact ⟨e.outRecords, hget⟩
      · rw [heq]
        change ∃ outRecords, (fw.pit.modify entry _).get? h = _
        rw [Pit.get?_modify]
        split
        · next heq =>
          rw [← heq, hget]
          exact ⟨_, rfl⟩
        · exact ⟨e.outRecords, hget⟩
    obtain ⟨outRecords, hget'⟩ := hstep
    obtain ⟨outRecords', hrun⟩ := ih hget' fun hgives => hkeep (.inr hgives)
    exact ⟨outRecords', hrun⟩
  | @reject entry rest _ ih =>
    have hstep : (fw.rejectInterest entry).pit.get? h = some e := by
      by_cases heff : fw.RejectTakesEffect entry
      · have hne : h ≠ entry := by
          rintro rfl
          exact hkeep (.inl ⟨rfl, heff⟩)
        obtain ⟨id, hpit⟩ := Forwarder.pit_rejectInterest heff
        rw [hpit, Pit.get?_modify_of_ne hne]
        exact hget
      · rw [(Forwarder.quiet_rejectInterest heff).pit]
        exact hget
    exact ih hstep fun hgives => hkeep (.inr hgives)
  | look _ ih => exact ih fw hget hkeep

end Plan

end NamedData
