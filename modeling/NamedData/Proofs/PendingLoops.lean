import NamedData.Proofs.LoopSuppression
import NamedData.Proofs.Upstream

/-!
# Loops while an entry is pending

An entry notices a copy of an Interest that comes back by the nonces of its records. The nonce of
the copy that was sent last through a face stays in the record of that face, until Data comes
from there. A copy that was sent through the same face before is forgotten, if it had another
nonce and no other record has it.

## Main statements

* `Forwarder.LastSent.isLoop`: the last copy that was sent is a loop when it comes back
* `Forwarder.lastCopy_dropped`: the last copy does not come to the strategy again
* `Forwarder.earlierCopy_accepted`: the one before it may
-/
namespace NamedData

/-- A nonce that an out-record has was seen, whichever face asks. -/
theorem Pit.Entry.findNonce_ne_never {e : Pit.Entry} {r : Pit.OutRecord}
    (hr : r ∈ e.outRecords) (f : FaceId) : e.findNonce r.lastNonce f ≠ .never :=
  fun hnever => findNonce_eq_never_iff.mp hnever r.face (.inr ⟨r, hr, rfl, rfl⟩)

namespace Forwarder

variable {fw : Forwarder} {u f : FaceId} {face : Face} {h : Pit.Handle} {e : Pit.Entry}
  {i j : Interest}

/-- An Interest with the nonce of the last copy is a loop, whichever face it comes from. -/
theorem LastSent.isLoop (hsent : LastSent u h e j fw) (hname : i.name = e.name)
    (hnonce : i.nonce = j.nonce) (f : FaceId) : fw.IsLoop f i := by
  obtain ⟨r, hr, _, hrecorded⟩ := hsent.exists_outRecord
  refine .inl ⟨h, e, ?_, hsent.get?, ?_⟩
  · rw [hname]
    exact hsent.reachable.timersHeld.pit_wellFormed.find?_name hsent.get?
  · rw [hnonce, ← hrecorded]
    exact Pit.Entry.findNonce_ne_never hr f

/-- **The last copy does not come back to the strategy.** A copy was sent on for an entry through
the face `u`, and no other copy after it through that face. As long as the entry is live and no
Data has come from the face for it, every Interest under its name and with the nonce of the copy
is dropped as a loop, whatever requests have joined and copies were sent elsewhere. Under
`/localhost` it is dropped even before that if it comes from outside. -/
theorem lastCopy_dropped (hsent : LastSent u h e j fw) (hface : fw.faces.get? f = some face)
    (hreg : i.locationRegistration = false) (hname : i.name = e.name)
    (hnonce : i.nonce = j.nonce) (hooks : Hooks) :
    (¬ (face.isLocal = false ∧ i.name.IsLocalhost) →
      DroppedAsLoop fw (fw.receiveInterest hooks f i)) ∧
    (face.isLocal = false ∧ i.name.IsLocalhost →
      fw.receiveInterest hooks f i = fw.count .inInterests) := by
  constructor
  · intro hscope
    have wf := hsent.reachable.timersHeld.pit_wellFormed
    exact droppedAsLoop_receiveInterest wf hooks hface hreg hscope (hsent.isLoop hname hnonce f)
  · intro hscope
    rw [receiveInterest_of_face hface, hreg, if_pos hscope]
    rfl

/-- A node with two faces, the first of which has asked for a name. -/
def askedOnce : Forwarder :=
  (build {} (.cycle 0 []) 0).run
    [⟨.idle, .change (.addFace false 0)⟩, ⟨.idle, .change (.addFace false 1)⟩,
      ⟨.idle, .interest ⟨256⟩ { name := ⟨[.ofChars ['a']]⟩, nonce := 5 }⟩]

theorem reachable_askedOnce : Reachable askedOnce :=
  (Reachable.of_isNew (isNew_build _ _)).run _

/-- The request is sent on through the second face. -/
def passOn : Step := ⟨.idle, .send ⟨0, 0⟩ ⟨257⟩ false⟩

/-- The first face asks again, with another nonce. -/
def askAgain : Step := ⟨.idle, .interest ⟨256⟩ { name := ⟨[.ofChars ['a']]⟩, nonce := 6 }⟩

theorem leavesAsked_askAgain : askAgain.LeavesAsked ⟨257⟩ ⟨0, 0⟩ (passOn.perform askedOnce) where
  live := Option.isSome_iff_exists.mp (by decide)
  unanswered := nofun

/-- The copy that was sent comes back after the first face has asked again. -/
theorem askedOnce_lastCopy_dropped :
    DroppedAsLoop (askedOnce.run [passOn, askAgain])
      ((askedOnce.run [passOn, askAgain]).receiveInterest ForwardingStrategy.idle.hooks ⟨257⟩
        { name := ⟨[.ofChars ['a']]⟩, nonce := 5 }) := by
  have hlive : ((askedOnce.run [passOn, askAgain]).pit.get? ⟨0, 0⟩).any
      (·.name = ⟨[.ofChars ['a']]⟩) = true := by decide
  obtain ⟨e, hget, hname⟩ := (Option.any_eq_true _ _).mp hlive
  have hname := of_decide_eq_true hname
  have hlast : (askedOnce.copies ⟨257⟩ ⟨[.ofChars ['a']]⟩ [passOn, askAgain]).getLast? =
      some { name := ⟨[.ofChars ['a']]⟩, nonce := 5 } := by decide
  rw [← hname] at hlast
  have hlater : Throughout (Step.LeavesAsked ⟨257⟩ ⟨0, 0⟩) [askAgain] (passOn.perform askedOnce) :=
    ⟨leavesAsked_askAgain, trivial⟩
  have hsent := LastSent.intro reachable_askedOnce hlater hget hlast
  have hface : (askedOnce.run [passOn, askAgain]).faces.get? ⟨257⟩ = some ⟨⟨257⟩, false, 1⟩ := by
    decide
  have hdropped := lastCopy_dropped (i := { name := ⟨[.ofChars ['a']]⟩, nonce := 5 }) hsent hface
    rfl hname.symm rfl ForwardingStrategy.idle.hooks
  exact hdropped.1 (by decide)

/-- A node of which two faces are local, and the first of them has asked under `/localhost`. -/
def askedLocally : Forwarder :=
  (build {} (.cycle 0 []) 0).run
    [⟨.idle, .change (.addFace true 0)⟩, ⟨.idle, .change (.addFace true 1)⟩,
      ⟨.idle, .change (.addFace false 2)⟩,
      ⟨.idle, .interest ⟨256⟩ { name := ⟨[Name.localhost]⟩, nonce := 5 }⟩]

/-- **An earlier copy may come back to the strategy.** The request is sent on with the nonce 5, the
first face asks again, and the strategy sends that on as well, with the nonce 6. The entry is
live all the time and the second face has not answered it. The first copy comes back from there,
is not counted as a loop, and the strategy gets it. Nor is a copy under `/localhost` counted as a
loop that comes from outside. -/
theorem earlierCopy_accepted :
    (Reachable askedOnce ∧
      (askedOnce.copies ⟨257⟩ ⟨[.ofChars ['a']]⟩ [passOn]).map Interest.nonce = [5] ∧
      Throughout (Step.LeavesAsked ⟨257⟩ ⟨0, 0⟩) [askAgain, passOn] (passOn.perform askedOnce) ∧
      ((askedOnce.run [passOn, askAgain, passOn]).pit.get? ⟨0, 0⟩).isSome ∧
      (askedOnce.run [passOn, askAgain, passOn]).faces.get? ⟨257⟩ = some ⟨⟨257⟩, false, 1⟩ ∧
      ((askedOnce.run [passOn, askAgain, passOn]).receiveInterest ForwardingStrategy.idle.hooks
        ⟨257⟩ { name := ⟨[.ofChars ['a']]⟩, nonce := 5 }).counters.interestLoops = 0 ∧
      .told .strategy (.received ⟨⟨257⟩, { name := ⟨[.ofChars ['a']]⟩, nonce := 5 }⟩
          (askedOnce.fib.longestPrefixMatch ⟨[.ofChars ['a']]⟩) ⟨0, 0⟩) ∈
        ((askedOnce.run [passOn, askAgain, passOn]).receiveInterest ForwardingStrategy.idle.hooks
          ⟨257⟩ { name := ⟨[.ofChars ['a']]⟩, nonce := 5 }).journal) ∧
    (Reachable askedLocally ∧
      (askedLocally.copies ⟨257⟩ ⟨[Name.localhost]⟩ [passOn]).map Interest.nonce = [5] ∧
      ((askedLocally.run [passOn]).pit.get? ⟨0, 0⟩).isSome ∧
      (askedLocally.run [passOn]).faces.get? ⟨258⟩ = some ⟨⟨258⟩, false, 2⟩ ∧
      ((askedLocally.run [passOn]).receiveInterest ForwardingStrategy.idle.hooks ⟨258⟩
        { name := ⟨[Name.localhost]⟩, nonce := 5 }).counters.interestLoops = 0) := by
  constructor
  · refine ⟨reachable_askedOnce, by decide, ⟨leavesAsked_askAgain, ⟨?_, nofun⟩, trivial⟩,
      by decide, by decide, by decide, by decide⟩
    exact Option.isSome_iff_exists.mp (by decide)
  · exact ⟨(Reachable.of_isNew (isNew_build _ _)).run _, by decide, by decide, by decide,
      by decide⟩

end Forwarder

end NamedData
