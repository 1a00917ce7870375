import NamedData.Proofs.Forwarder.Counters
import NamedData.Proofs.StoreUse

/-!
# Hits of the content store

When a node counts a hit of the content store, the Interest is answered with what the store has
found, and the strategy does not get it. The name that is found may be longer than that of the
Interest, and so it may lie under `/localhost` where the Interest does not. Then the Data does not
leave through a face that is not local, and the Interest has been used up all the same.

## Main statements

* `Forwarder.exists_answered_of_hit`: where a hit is counted
* `Forwarder.hit_answered`
* `Forwarder.localhostHit_unanswered`: a hit that nothing comes of
-/
namespace NamedData

/-- Data leaves through a registered face, unless the number of the face stands for none or the
name may not leave. -/
theorem FaceTable.delivery_of_get? {faces : FaceTable} {out : FaceId} {face : Face}
    (hface : faces.get? out = some face) (d : Data) :
    faces.delivery d out =
      if out.IsValid ∧ ¬ (face.isLocal = false ∧ d.name.IsLocalhost) then [(face, .data d)]
      else [] := by
  rw [delivery, hface]
  by_cases hvalid : out.IsValid
  · rw [if_neg (not_not_intro hvalid)]
    by_cases hscope : face.isLocal = false ∧ d.name.IsLocalhost
    · rw [if_neg fun hleaves => hleaves.2 hscope]
      exact if_pos hscope
    · rw [if_pos ⟨hvalid, hscope⟩]
      exact if_neg hscope
  · rw [if_pos hvalid, if_neg fun hleaves => hvalid hleaves.1]

namespace Forwarder

variable {fw : Forwarder} {f : FaceId} {i : Interest}

/-- Only an Interest that the content store answers is counted as a hit. -/
theorem exists_answered_of_hit (wf : fw.pit.WellFormed) (s : ForwardingStrategy)
    (hhit : (fw.receiveInterest s.hooks f i).counters.csHits ≠ fw.counters.csHits) :
    ∃ face h pit e d store, Admitted fw f i face h pit e ∧
      fw.store.find (i.arrivedOn f) fw.now = (some d, store) ∧
      fw.receiveInterest s.hooks f i =
        ({ fw.openEntry pit h with store }.count .csHits).answerFromStore s.hooks face.id h d := by
  have harrival := arrival_receiveInterest wf s.hooks f i
  generalize heq : fw.receiveInterest s.hooks f i = fw' at harrival hhit
  cases harrival with
  | unknownFace | outOfScope | loop | newLoop => exact absurd rfl hhit
  | @registration face =>
    have hregister := accounted_registerLocation face (i.arrivedOn f) (fw.count .inInterests)
    exact absurd hregister.csHits hhit
  | @accepted face h pit e fw₁ acc _ =>
    refine absurd ?_ hhit
    rw [← heq, acc.receiveInterest_eq, receive_hooks]
    refine (Plan.accounted_run (s.forwards _ _ _) _).csHits.trans ?_
    refine (accounted_enlist face (i.arrivedOn f) h _).csHits.trans ?_
    have hopen := (accounted_openEntry pit h fw).csHits
    unfold missStore
    split
    · exact hopen
    · exact hopen
  | @answered face h pit e d store adm _ _ hstore =>
    exact ⟨face, h, pit, e, d, store, adm, hstore, rfl⟩

/-- What leaves when the content store answers. -/
theorem Admitted.sent_answerFromStore {face : Face} {h : Pit.Handle} {pit : Pit} {e : Pit.Entry}
    (adm : Admitted fw f i face h pit e) (s : Strategy) (store : ContentStore) (d : Data) :
    (({ fw.openEntry pit h with store }.count .csHits).answerFromStore s.hooks face.id h d).sent =
      fw.sent ++ fw.faces.delivery d face.id := by
  let fw₁ := { fw.openEntry pit h with store }.count .csHits
  have hopen : Silent fw fw₁ := adm.silent_openEntry.trans ⟨⟨rfl, rfl, rfl, rfl, rfl⟩, rfl⟩
  have hget : fw₁.pit.get? h = some e.unarmed := adm.get?_openEntry
  obtain ⟨fw₂, hanswered, hsend⟩ := exists_answered hget s face.id d
  have hsilent := hopen.trans hanswered.toSilent
  rw [hsend, sent_sendData, hsilent.sent, hsilent.faces]

/-- **A counted hit is answered.** The store of a maintained node has Data, under its own name, that
the Interest accepts and that is fresh if it has to be. One packet leaves, which is this Data, and
it leaves through the face that the Interest came through. Nothing leaves if the name lies under
`/localhost` and the face is not local, or if the number of the face stands for no face. The
strategy is not handed the Interest. -/
theorem hit_answered (hfw : Maintained fw) (s : ForwardingStrategy)
    (hhit : (fw.receiveInterest s.hooks f i).counters.csHits ≠ fw.counters.csHits) :
    ∃ face c, fw.faces.get? f = some face ∧
      fw.store.entries.get? c.data.name = some c ∧ i.Accepts c.data ∧
      (i.mustBeFresh = true → c.IsFresh fw.now) ∧
      (⟨s, .interest f i⟩ : Step).output fw =
        (if f.IsValid ∧ ¬ (face.isLocal = false ∧ c.data.name.IsLocalhost)
          then [(face, .data c.data)] else []) ∧
      (fw.receiveInterest s.hooks f i).counters.csHits = fw.counters.csHits + 1 ∧
      ∃ l, (fw.receiveInterest s.hooks f i).journal = l ++ fw.journal ∧
        ∀ event ∈ l, ¬ event.IsHandover := by
  have wf := hfw.reachable.timersHeld.pit_wellFormed
  obtain ⟨face, h, pit, e, d, store, adm, hstore, heq⟩ := exists_answered_of_hit wf s hhit
  obtain ⟨c, hlookup, rfl⟩ : ∃ c, fw.store.lookup i fw.now = some c ∧ c.data = d := by
    rw [ContentStore.find, ContentStore.lookup_arrivedOn] at hstore
    split at hstore
    · cases hstore
    · next c hlookup => exact ⟨c, hlookup, Option.some.inj (Prod.mk.inj hstore).1⟩
  obtain ⟨hget, haccepts, hserves, _⟩ := ContentStore.of_lookup hfw.isMade_store.name_eq hlookup
  let fw₁ := { fw.openEntry pit h with store }.count .csHits
  have hanswer : Accounted fw₁ (fw.receiveInterest s.hooks f i) :=
    heq ▸ accounted_answerFromStore s.toStrategy face.id h c.data fw₁
  refine ⟨face, c, adm.registered, hget, haccepts, hserves, ?_, ?_, ?_⟩
  · have hsent : (fw.receiveInterest s.hooks f i).sent =
        fw.sent ++ fw.faces.delivery c.data f := by
      rw [heq, adm.sent_answerFromStore, hfw.reachable.id_eq_of_get? adm.registered]
    rw [← FaceTable.delivery_of_get? adm.registered c.data]
    exact Step.output_eq hsent
  · rw [hanswer.csHits]
    exact congrArg (· + 1) (accounted_openEntry pit h fw).csHits
  · obtain ⟨l, hjournal, _, hl⟩ := hanswer
    obtain ⟨l', hjournal', _, hl'⟩ := accounted_openEntry pit h fw
    refine ⟨l ++ l', ?_, List.forall_mem_append.mpr ⟨hl, hl'⟩⟩
    rw [hjournal, List.append_assoc]
    exact congrArg (l ++ ·) hjournal'

/-- A node with two faces, the second of which is local. An application has put Data under the name
`n` into the store. -/
def stocked (isLocal : Bool) (n : Name) : Forwarder :=
  (build {} (.cycle 0 []) 0).run
    [⟨.idle, .change (.addFace isLocal 0)⟩, ⟨.idle, .change (.addFace true 1)⟩,
      ⟨.idle, .data ⟨257⟩ { name := n }⟩]

theorem maintained_stocked (isLocal : Bool) (n : Name) : (stocked isLocal n).Maintained := by
  refine ⟨_, _, isNew_build (.cycle 0 []) 0, ?_, rfl⟩
  simp only [List.forall_mem_cons]
  exact ⟨nofun, nofun, nofun, nofun⟩

/-- An Interest that any Data answers. -/
def wantsAny : Interest where
  name := .root
  nonce := 5
  canBePrefix := true

/-- A local face gets what is found. -/
theorem stocked_hit_answered :
    ∃ c : ContentStore.Entry, wantsAny.Accepts c.data ∧
      (⟨.bestRoute, .interest ⟨256⟩ wantsAny⟩ : Step).output
        (stocked true ⟨[Name.localhost, .ofChars ['x']]⟩) = [(⟨⟨256⟩, true, 0⟩, .data c.data)] := by
  have hface : (stocked true ⟨[Name.localhost, .ofChars ['x']]⟩).faces.get? ⟨256⟩ =
      some ⟨⟨256⟩, true, 0⟩ := by decide
  obtain ⟨face, c, hface', _, haccepts, _, houtput, _⟩ :=
    hit_answered (maintained_stocked true ⟨[Name.localhost, .ofChars ['x']]⟩) .bestRoute
      (f := ⟨256⟩) (i := wantsAny) (by decide)
  obtain rfl := Option.some.inj (hface.symm.trans hface')
  exact ⟨c, haccepts, houtput.trans (if_pos ⟨by decide, by simp⟩)⟩

/-- **Nothing comes of a hit** under `/localhost` for another node: it is counted, and no packet
leaves. -/
theorem localhostHit_unanswered :
    let fw := stocked false ⟨[Name.localhost, .ofChars ['x']]⟩
    fw.Maintained ∧ fw.faces.get? ⟨256⟩ = some ⟨⟨256⟩, false, 0⟩ ∧
      (fw.receiveInterest ForwardingStrategy.bestRoute.hooks ⟨256⟩ wantsAny).counters.csHits =
        fw.counters.csHits + 1 ∧
      (⟨.bestRoute, .interest ⟨256⟩ wantsAny⟩ : Step).output fw = [] :=
  ⟨maintained_stocked _ _, by decide, by decide, by decide⟩

end Forwarder

end NamedData
