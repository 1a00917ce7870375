import NamedData.Proofs.ContentStore.Lookup
import NamedData.Proofs.PendingLoops

/-!
# Copies that the content store answers

When Data answers an entry, the nonce of the copy that was sent to where it comes from is not
always remembered. Unless the Interest that created the entry does not take stale Data and the
Data goes stale soon, the content store is expected to answer a copy that comes back. That is
so if the copy takes stale Data where the creating Interest does, and the Data bears its name or
the copy takes longer names. The copy is another Interest than the creating one, if several have
joined the entry, and then it may find nothing although the Data is still there.

## Main definitions

* `ContentStore.Keeps`, the store has Data since a given time
* `Forwarder.IsAnsweredBy`, Data answers an entry
* `Forwarder.MissesLastCopy`, the nonce of a copy was left out and the store does not answer it

## Main statements

* `Forwarder.IsAnsweredBy.store_receiveData`: Data that answers an entry is stored
* `Forwarder.lastCopy_found`: the store answers the copy
* `Forwarder.sharedBy_missesLastCopy`: it need not if the copy is not what created the entry
-/
namespace NamedData

namespace ContentStore

/-- The store has the Data `d` that came at `t`. -/
def Keeps (cs : ContentStore) (d : Data) (t : Instant) : Prop :=
  ∃ c, cs.entries.get? d.name = some c ∧ c.data = d ∧ c.staleAt = d.freshness.map (t + ·)

/-- What answers an Interest answers it wherever it arrives. -/
theorem lookup_arrivedOn (cs : ContentStore) (i : Interest) (f : FaceId) (now : Instant) :
    cs.lookup (i.arrivedOn f) now = cs.lookup i now := by
  unfold Interest.arrivedOn
  split <;> rfl

end ContentStore

namespace Forwarder

variable {fw : Forwarder} {u : FaceId} {h : Pit.Handle} {e : Pit.Entry} {j : Interest} {d : Data}

/-! ## What Data leaves in the store -/

theorem store_satisfy (s : Strategy) (d : Incoming Data) (h : Pit.Handle) (fw : Forwarder) :
    (satisfy s.hooks d fw h).store = fw.store := by
  have hq := quiet_notifySatisfying s h d (fw.cancelTimers h)
  obtain ⟨deadNonces, hdead⟩ := recordDeadNonces_eq h true d.packet.freshness (some d.face)
    ((fw.cancelTimers h).notifySatisfying s.hooks h d)
  rw [satisfy_eq, (rescheduled_armStraggler _ _ _ _).store]
  simp only [settle, hdead]
  rw [hq.eq_update]
  exact (rescheduled_cancelTimers h fw).store

theorem store_answer (s : Strategy) (u : FaceId) (d : Data) (entries : List Pit.Handle)
    (fw : Forwarder) : (fw.answer s.hooks u d entries).store = fw.store := by
  have hsatisfied : (entries.foldl (satisfy s.hooks ⟨u, d⟩) fw).store = fw.store := by
    induction entries generalizing fw with
    | nil => rfl
    | cons h rest ih => rw [List.foldl_cons, ih, store_satisfy]
  rw [answer, outward_foldl_sendData]
  exact hsatisfied

/-- The Data `d` comes in on the face `u` and answers the entry `h`. It does not belong to a
validation request. -/
structure IsAnsweredBy (fw : Forwarder) (u : FaceId) (d : Data) (h : Pit.Handle) : Prop where
  registered : ∃ face, fw.faces.get? u = some face ∧
    ¬ (face.isLocal = false ∧ d.name.IsLocalhost)
  plain : d.validation = false
  accepted : h ∈ fw.pit.dataMatches d

/-- Data that answers an entry is stored. -/
theorem IsAnsweredBy.store_receiveData (hd : fw.IsAnsweredBy u d h) (s : Strategy) :
    (fw.receiveData s.hooks u d).store = fw.store.insert d false fw.now := by
  obtain ⟨face, hface, hscope⟩ := hd.registered
  have hpush : ¬ d.IsPushed := fun hp => Bool.false_ne_true (hd.plain.symm.trans hp.1)
  have hne : fw.pit.dataMatches d ≠ [] := List.ne_nil_of_mem hd.accepted
  rw [receiveData_of_face hface, if_neg hpush, if_neg hscope]
  split
  · next hnil => exact absurd hnil hne
  · rw [store_answer]
    simp only [keepAwaited, hd.plain, Bool.false_eq_true, false_and, if_false]
    rfl

/-! ## Copies that come back -/

/-- Data that came in at `t` and that the rule for dead nonces relies on does not go stale for an
Interest within the lifetime of a dead nonce. -/
theorem serves_of_rule {c : ContentStore.Entry} {t now : Instant}
    (hrule : ¬ fw.NeedsDeadNonces e true d.freshness)
    (hfresh : j.mustBeFresh = true → e.interest.mustBeFresh = true)
    (hstale : c.staleAt = d.freshness.map (t + ·)) (hlate : now < t + fw.deadNonces.lifetime) :
    c.Serves j now := by
  intro hmust x hx
  rw [hstale] at hx
  obtain ⟨period, hperiod, rfl⟩ := Option.map_eq_some_iff.mp hx
  have hlong : fw.deadNonces.lifetime ≤ period := by
    by_contra hshort
    exact hrule (.inr ⟨hfresh hmust, period, hperiod, Nat.lt_of_not_le hshort⟩)
  exact Nat.lt_of_lt_of_le hlate (Nat.add_le_add_left hlong t)

/-- Data that answers an entry answers the copy that was sent for it, if the copy takes the name. -/
theorem IsAnsweredBy.accepts_lastCopy (hd : fw.IsAnsweredBy u d h) (hsent : LastSent u h e j fw)
    (hname : j.canBePrefix = true ∨ d.name = e.name) : j.Accepts d := by
  have wf := hsent.reachable.timersHeld.pit_wellFormed
  obtain ⟨e', hget, haccepts⟩ := (Pit.mem_dataMatches wf).mp hd.accepted
  obtain rfl := Option.some.inj (hsent.get?.symm.trans hget)
  have hlonger : j.name.IsPrefixOf d.name := hsent.name_eq ▸ (Pit.accepts_iff.mp haccepts).1
  refine Pit.accepts_iff.mpr ⟨hlonger, hname.symm.imp_left fun heq => ?_⟩
  rw [heq, hsent.name_eq]

/-- What the store finds for an Interest now. -/
def findCached (j : Interest) (fw : Forwarder) : Option Data := (fw.store.find j fw.now).1

/-- **The last copy finds an answer.** Data answers an entry on the face that a copy was last sent
through, and its nonce need not be remembered by the rule for dead nonces. The copy asks for
fresh Data only if the creating Interest does, and it takes longer names if the Data has one. Then
the Data is stored, and for the lifetime of a dead nonce, as long as the store has it, the store
answers the copy. So a copy that comes back becomes a request again only if others wait for its
name. -/
theorem lastCopy_found (hsent : LastSent u h e j fw) (hd : fw.IsAnsweredBy u d h)
    (hrule : ¬ fw.NeedsDeadNonces e true d.freshness)
    (hfresh : j.mustBeFresh = true → e.interest.mustBeFresh = true)
    (hname : j.canBePrefix = true ∨ d.name = e.name) (s : ForwardingStrategy) (later : List Step)
    (hlate : (fw.run (⟨s, .data u d⟩ :: later)).now < fw.now + fw.deadNonces.lifetime)
    (hkeeps : (fw.run (⟨s, .data u d⟩ :: later)).store.Keeps d fw.now) :
    (fw.receiveData s.hooks u d).store = fw.store.insert d false fw.now ∧
      ((fw.run (⟨s, .data u d⟩ :: later)).findCached j).isSome ∧
      ∀ f face h' pit e', Accepted (fw.run (⟨s, .data u d⟩ :: later)) f j face h' pit e' →
        e'.isPending = true := by
  have haccepts := hd.accepts_lastCopy hsent hname
  generalize fw.run (⟨s, .data u d⟩ :: later) = fw' at hlate hkeeps ⊢
  obtain ⟨c, hget, _, hstale⟩ := hkeeps
  have hserves := serves_of_rule hrule hfresh hstale hlate
  refine ⟨hd.store_receiveData s.toStrategy, ContentStore.isSome_find hget haccepts hserves, ?_⟩
  intro f face h' pit e' acc
  cases acc.unanswered with
  | inl hpending => exact hpending.1
  | inr hnone =>
    have hfound := ContentStore.isSome_lookup hget haccepts hserves
    rw [ContentStore.lookup_arrivedOn] at hnone
    rw [hnone] at hfound
    cases hfound

/-- A node with three faces, the first two of which have asked with `i` and `j`. -/
def askedBy (i j : Interest) : Forwarder :=
  (build {} (.cycle 0 []) 0).run
    [⟨.idle, .change (.addFace false 0)⟩, ⟨.idle, .change (.addFace false 1)⟩,
      ⟨.idle, .change (.addFace false 2)⟩, ⟨.idle, .interest ⟨256⟩ i⟩,
      ⟨.idle, .interest ⟨257⟩ j⟩]

/-- The last request is sent on through the third face. -/
def passOnLast : Step := ⟨.idle, .send ⟨0, 0⟩ ⟨258⟩ false⟩

/-- The node once a copy is sent on for the entry that `i` and `j` share. -/
def sharedBy (i j : Interest) : Forwarder := (askedBy i j).run [passOnLast]

/-- The entry is that of the first request, and the copy may be the second. -/
theorem lastSent_sharedBy {i j : Interest}
    (hentry : ((sharedBy i j).pit.get? ⟨0, 0⟩).map (·.interest) = some i)
    (hcopy : ((askedBy i j).copies ⟨258⟩ i.name [passOnLast]).getLast? = some j) :
    ∃ e, e.interest = i ∧ LastSent ⟨258⟩ ⟨0, 0⟩ e j (sharedBy i j) := by
  obtain ⟨e, hget, rfl⟩ := Option.map_eq_some_iff.mp hentry
  have hlater : Throughout (Step.LeavesAsked ⟨258⟩ ⟨0, 0⟩) []
      (passOnLast.perform (askedBy e.interest j)) := trivial
  exact ⟨e, rfl, .intro ((Reachable.of_isNew (isNew_build _ _)).run _) hlater hget hcopy⟩

/-- The Data has a longer name, and both requests take it. Almost six seconds later the copy still
finds it. -/
theorem sharedBy_lastCopy_found :
    let i : Interest := { name := ⟨[.ofChars ['a']]⟩, nonce := 1, canBePrefix := true }
    let d : Data := { name := ⟨[.ofChars ['a'], .ofChars ['b']]⟩ }
    (((sharedBy i { i with nonce := 2 }).run
      [⟨.idle, .data ⟨258⟩ d⟩, ⟨.idle, .poll 5999⟩]).findCached { i with nonce := 2 }).isSome := by
  intro i d
  obtain ⟨e, _, hsent⟩ := lastSent_sharedBy (i := i) (j := { i with nonce := 2 })
    (by decide) (by decide)
  have hd : (sharedBy i { i with nonce := 2 }).IsAnsweredBy ⟨258⟩ d ⟨0, 0⟩ :=
    ⟨⟨⟨⟨258⟩, false, 2⟩, by decide⟩, rfl, by decide⟩
  have hrule : ¬ (sharedBy i { i with nonce := 2 }).NeedsDeadNonces e true d.freshness := nofun
  have hkeeps : ((sharedBy i { i with nonce := 2 }).run
      [⟨.idle, .data ⟨258⟩ d⟩, ⟨.idle, .poll 5999⟩]).store.Keeps d
        (sharedBy i { i with nonce := 2 }).now := ⟨⟨d, none, false, 0⟩, by decide⟩
  exact (lastCopy_found hsent hd hrule nofun (.inl rfl) .idle [⟨.idle, .poll 5999⟩] (by decide)
    hkeeps).2.1

/-- The node does not remember the nonce of the copy `j`, which it sent through the face `u`, when
the Data `d` comes in on that face and answers the entry `h`. Some steps later the Data is still
there and the lifetime of a dead nonce is not over. But the store does not find an answer to the
copy, and the strategy gets it again if it comes back. -/
def MissesLastCopy (u : FaceId) (h : Pit.Handle) (j : Interest) (d : Data) (later : List Step)
    (fw : Forwarder) : Prop :=
  let fw' := fw.run (⟨.idle, .data u d⟩ :: later)
  ∃ e, LastSent u h e j fw ∧ fw.IsAnsweredBy u d h ∧ ¬ fw.NeedsDeadNonces e true d.freshness ∧
    fw'.now < fw.now + fw.deadNonces.lifetime ∧ fw'.store.Keeps d fw.now ∧
    fw'.findCached j = none ∧
    ∃ h', .told .strategy (.received ⟨u, j⟩ (fw'.fib.longestPrefixMatch j.name) h') ∈
      (fw'.receiveInterest ForwardingStrategy.idle.hooks u j).journal

/-- **The last copy may find no answer**, if it is not the Interest that created the entry. In the
first case the copy does not take stale Data and the Data goes stale after ten milliseconds. In the
second it takes only Data of its own name, and the Data has a longer one. -/
theorem sharedBy_missesLastCopy :
    MissesLastCopy ⟨258⟩ ⟨0, 0⟩ { name := ⟨[.ofChars ['a']]⟩, nonce := 2, mustBeFresh := true }
      { name := ⟨[.ofChars ['a']]⟩, freshness := some 10 } [⟨.idle, .poll 10⟩]
      (sharedBy { name := ⟨[.ofChars ['a']]⟩, nonce := 1 }
        { name := ⟨[.ofChars ['a']]⟩, nonce := 2, mustBeFresh := true }) ∧
    MissesLastCopy ⟨258⟩ ⟨0, 0⟩ { name := ⟨[.ofChars ['a']]⟩, nonce := 2 }
      { name := ⟨[.ofChars ['a'], .ofChars ['b']]⟩ } []
      (sharedBy { name := ⟨[.ofChars ['a']]⟩, nonce := 1, canBePrefix := true }
        { name := ⟨[.ofChars ['a']]⟩, nonce := 2 }) := by
  constructor
  · obtain ⟨e, he, hsent⟩ := lastSent_sharedBy (i := { name := ⟨[.ofChars ['a']]⟩, nonce := 1 })
      (j := { name := ⟨[.ofChars ['a']]⟩, nonce := 2, mustBeFresh := true }) (by decide) (by decide)
    refine ⟨e, hsent, ⟨⟨⟨⟨258⟩, false, 2⟩, by decide⟩, rfl, by decide⟩, ?_, by decide,
      ⟨⟨{ name := ⟨[.ofChars ['a']]⟩, freshness := some 10 }, some 10, false, 0⟩, by decide⟩,
      by decide, ⟨0, 0⟩, by decide⟩
    simp [NeedsDeadNonces, he]
  · obtain ⟨e, _, hsent⟩ := lastSent_sharedBy
      (i := { name := ⟨[.ofChars ['a']]⟩, nonce := 1, canBePrefix := true })
      (j := { name := ⟨[.ofChars ['a']]⟩, nonce := 2 }) (by decide) (by decide)
    refine ⟨e, hsent, ⟨⟨⟨⟨258⟩, false, 2⟩, by decide⟩, rfl, by decide⟩, ?_, by decide,
      ⟨⟨{ name := ⟨[.ofChars ['a'], .ofChars ['b']]⟩ }, none, false, 0⟩, by decide⟩, by decide,
      ⟨0, 0⟩, by decide⟩
    simp [NeedsDeadNonces]

end Forwarder

end NamedData
