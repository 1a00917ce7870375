import NamedData.Proofs.EntryProperty
import NamedData.Proofs.FlowBalance
import NamedData.Proofs.Forwarder.GracePeriod

/-!
# Who gets the Data

Data that arrives goes to every face that waits for it, and to each of them once. A face waits
for Data if it has a request that has not expired on an entry whose Interest accepts the Data.
That Interest is the one that created the entry. Requests that joined later bear the same name,
but may differ in whether the name may be a prefix, and then a face may get Data that it did not
ask for, or miss Data that it did.

## Main definitions

* `Step.deliveries`, the Data that a step sends
* `Forwarder.WaitsFor`

## Main statements

* `Forwarder.data_answers_waiting`
* `Forwarder.delivered_iff_creator_accepts`, against the Interests of the requests
-/
namespace NamedData

/-- The Data that a step sends and through which face. -/
def Step.deliveries (s : Step) (fw : Forwarder) : List (Face × Packet) :=
  (s.output fw).filter (·.2.isData)

/-- Two Interests under one name accept the same Data, unless its name is longer than theirs and
only one of them takes longer names. -/
theorem Interest.accepts_congr {i j : Interest} {d : Data} (hname : i.name = j.name)
    (hsame : d.name = i.name ∨ i.canBePrefix = j.canBePrefix) : i.Accepts d ↔ j.Accepts d := by
  rw [Pit.accepts_iff, Pit.accepts_iff, hname]
  rcases hsame with hexact | hsame
  · rw [hname] at hexact
    simp [hexact]
  · rw [hsame]

namespace FaceTable

variable {faces : FaceTable} {d : Data}

/-- Data goes to each of several faces once. -/
theorem ids_flatMap_delivery (hid : ∀ {out face}, faces.get? out = some face → face.id = out)
    (d : Data) (out : List FaceId) :
    ((out.flatMap (faces.delivery d)).map fun b => b.1.id).Sublist out := by
  induction out with
  | nil => exact .slnil
  | cons g rest ih =>
    have hfirst : ((faces.delivery d g).map fun b => b.1.id).Sublist [g] := by
      unfold delivery
      split
      · exact List.nil_sublist _
      · cases hface : faces.get? g with
        | none => exact List.nil_sublist _
        | some face =>
          dsimp only
          split
          · exact List.nil_sublist _
          · rw [List.map_singleton, hid hface]
    rw [List.flatMap_cons, List.map_append]
    exact hfirst.append ih

theorem isData_of_mem_delivery {out : FaceId} {b : Face × Packet}
    (hb : b ∈ faces.delivery d out) : b.2.isData = true := by
  obtain ⟨_, _, _, _, rfl⟩ := mem_delivery.mp hb
  rfl

end FaceTable

namespace Forwarder

variable {fw : Forwarder} {f : FaceId} {h : Pit.Handle} {e : Pit.Entry} {d : Data} {face : Face}

/-- The face `g` has a request that has not expired on a live entry whose Interest accepts the
Data. -/
def WaitsFor (fw : Forwarder) (g : FaceId) (d : Data) : Prop :=
  ∃ h e r, fw.pit.get? h = some e ∧ e.interest.Accepts d ∧
    r ∈ e.inRecords ∧ r.face = g ∧ fw.now < r.expiry

theorem mem_waitingFaces_dataMatches (wf : fw.pit.WellFormed) {g : FaceId} :
    g ∈ fw.waitingFaces (fw.pit.dataMatches d) ↔ fw.WaitsFor g d := by
  simp only [mem_waitingFaces, Pit.mem_dataMatches wf]
  constructor
  · rintro ⟨h, ⟨e, hget, haccepts⟩, e', hget', r, hr, hlt, hface⟩
    obtain rfl := Option.some.inj (hget.symm.trans hget')
    exact ⟨h, e, r, hget, haccepts, hr, hface, hlt⟩
  · rintro ⟨h, e, r, hget, haccepts, hr, hface, hlt⟩
    exact ⟨h, ⟨e, hget, haccepts⟩, e, hget, r, hr, hlt, hface⟩

/-- The Data goes to the faces that wait, other than the one it came from. -/
theorem deliveries_data (hface : fw.faces.get? f = some face) (hpush : ¬ d.IsPushed)
    (hscope : ¬ (face.isLocal = false ∧ d.name.IsLocalhost)) (s : ForwardingStrategy) :
    (⟨s, .data f d⟩ : Step).deliveries fw =
      ((fw.waitingFaces (fw.pit.dataMatches d)).filter (· ≠ f)).flatMap
        (fw.faces.delivery d) := by
  have harrival := dataArrival_receiveData s.toStrategy f d fw
  have hperform : (⟨s, .data f d⟩ : Step).perform fw = fw.receiveData s.hooks f d := rfl
  rw [← hperform] at harrival
  generalize hfw' : (⟨s, .data f d⟩ : Step).perform fw = fw' at harrival
  cases harrival with
  | dropped _ hsent hwhy =>
    have houtput : (⟨s, .data f d⟩ : Step).output fw = [] :=
      Step.output_eq (by rw [hfw', hsent, List.append_nil])
    rcases hwhy with hnone | ⟨face', hface', hscope'⟩ | hnil
    · rw [hface] at hnone
      cases hnone
    · obtain rfl := Option.some.inj (hface.symm.trans hface')
      exact absurd hscope' hscope
    · rw [Step.deliveries, houtput, hnil]
      rfl
  | pushed hpush' => exact absurd hpush' hpush
  | @answered face' fw₁ fw₂ fw' _ _ _ htaken ha _ hsent =>
    obtain ⟨announced, _, hsent₁⟩ := htaken.sent
    have houtput : (⟨s, .data f d⟩ : Step).output fw = _ :=
      Step.output_eq (by rw [hfw', hsent, ha.sent, hsent₁, List.append_assoc])
    -- an announcement is an Interest
    have hannounced : (announced.toList.map fun i => (face', Packet.interest i)).filter
        (·.2.isData) = [] := by
      rw [List.filter_eq_nil_iff]
      intro b hb
      obtain ⟨i, _, rfl⟩ := List.mem_map.mp hb
      exact Bool.false_ne_true
    rw [Step.deliveries, houtput, List.filter_append, hannounced, List.nil_append,
      List.filter_eq_self]
    intro b hb
    obtain ⟨_, _, hb⟩ := List.mem_flatMap.mp hb
    exact FaceTable.isData_of_mem_delivery hb

/-- The Data leaves unchanged, through the faces that wait for it and may get it. -/
theorem mem_deliveries_data (hfw : Reachable fw) (hface : fw.faces.get? f = some face)
    (hpush : ¬ d.IsPushed) (hscope : ¬ (face.isLocal = false ∧ d.name.IsLocalhost))
    (s : ForwardingStrategy) (out : Face) (p : Packet) :
    (out, p) ∈ (⟨s, .data f d⟩ : Step).deliveries fw ↔
      p = .data d ∧ fw.faces.get? out.id = some out ∧ out.id.IsValid ∧ out.id ≠ f ∧
        fw.WaitsFor out.id d ∧ ¬ (out.isLocal = false ∧ d.name.IsLocalhost) := by
  simp only [deliveries_data hface hpush hscope s, List.mem_flatMap, List.mem_filter,
    decide_eq_true_eq, mem_waitingFaces_dataMatches hfw.timersHeld.pit_wellFormed,
    FaceTable.mem_delivery, Prod.mk.injEq]
  constructor
  · rintro ⟨g, ⟨hwaits, hne⟩, hvalid, out', hout, hscope, rfl, rfl⟩
    obtain rfl := hfw.id_eq_of_get? hout
    exact ⟨rfl, hout, hvalid, hne, hwaits, hscope⟩
  · rintro ⟨rfl, hout, hvalid, hne, hwaits, hscope⟩
    exact ⟨out.id, ⟨hwaits, hne⟩, hvalid, out, hout, hscope, rfl, rfl⟩

/-- **Data answers whoever waits for it.** It goes unchanged to every face that waits for it, other
than the one it came from, once to each and to no others. Each entry whose Interest accepts it
has no requests then, keeps what was asked of other faces, and has one timer, for the end of
the grace period. Nothing happens to other entries. -/
theorem data_answers_waiting (hfw : Reachable fw) (hface : fw.faces.get? f = some face)
    (hpush : ¬ d.IsPushed) (hscope : ¬ (face.isLocal = false ∧ d.name.IsLocalhost))
    (s : ForwardingStrategy) :
    (∀ out p, (out, p) ∈ (⟨s, .data f d⟩ : Step).deliveries fw ↔
      p = .data d ∧ fw.faces.get? out.id = some out ∧ out.id.IsValid ∧ out.id ≠ f ∧
        fw.WaitsFor out.id d ∧ ¬ (out.isLocal = false ∧ d.name.IsLocalhost)) ∧
    (((⟨s, .data f d⟩ : Step).deliveries fw).map fun b => b.1.id).Nodup ∧
    (∀ h e, fw.pit.get? h = some e → e.interest.Accepts d →
      (fw.receiveData s.hooks f d).InGracePeriod f d.freshness (fw.now + fw.stragglerTime) h e) ∧
    (∀ h, (∀ e, fw.pit.get? h = some e → ¬ e.interest.Accepts d) →
      Undisturbed fw (fw.receiveData s.hooks f d) h) ∧
    ((∀ h e, fw.pit.get? h = some e → ¬ e.interest.Accepts d) →
      (⟨s, .data f d⟩ : Step).deliveries fw = []) := by
  have inv := hfw.timersHeld
  have hmem := mem_deliveries_data hfw hface hpush hscope s
  refine ⟨hmem, ?_, ?_, ?_, ?_⟩
  · rw [deliveries_data hface hpush hscope]
    exact (FaceTable.ids_flatMap_delivery hfw.id_eq_of_get? d _).nodup
      ((nodup_waitingFaces _ fw).filter _)
  · exact fun h e => inGracePeriod_receiveData inv hface hpush hscope s.toStrategy
  · exact fun h => undisturbed_receiveData inv hface hpush hscope s.toStrategy
  · intro hnone
    rw [List.eq_nil_iff_forall_not_mem]
    rintro ⟨out, p⟩ hb
    obtain ⟨_, _, _, _, ⟨h, e, _, hget, haccepts, _⟩, _⟩ := (hmem out p).mp hb
    exact hnone h e hget haccepts

/-- A node with three faces. One of them has asked for Data under a prefix, and then another for
Data under exactly that name, so that both wait on one entry. -/
def sharedEntry : Forwarder :=
  (build {} (.cycle 0 []) 0).run
    [⟨.idle, .change (.addFace false 0)⟩, ⟨.idle, .change (.addFace false 1)⟩,
      ⟨.idle, .change (.addFace false 2)⟩,
      ⟨.idle, .interest ⟨256⟩ { name := ⟨[.ofChars ['a']]⟩, nonce := 1, canBePrefix := true }⟩,
      ⟨.idle, .interest ⟨257⟩ { name := ⟨[.ofChars ['a']]⟩, nonce := 2 }⟩]

theorem reachable_sharedEntry : Reachable sharedEntry :=
  (Reachable.of_isNew (isNew_build _ _)).run _

/-- Data under a longer name. -/
def longerData : Data where
  name := ⟨[.ofChars ['a'], .ofChars ['b']]⟩

theorem sharedEntry_waitsFor (f : FaceId) (hf : f = ⟨256⟩ ∨ f = ⟨257⟩) :
    sharedEntry.WaitsFor f longerData := by
  have hwf := reachable_sharedEntry.timersHeld.pit_wellFormed
  rcases hf with rfl | rfl
  · exact (mem_waitingFaces_dataMatches hwf).mp (by decide)
  · exact (mem_waitingFaces_dataMatches hwf).mp (by decide)

/-- Both faces get the Data when it comes from the third, and the entry is answered. -/
theorem sharedEntry_answers_waiting :
    (⟨⟨256⟩, false, 0⟩, .data longerData) ∈
        (⟨.idle, .data ⟨258⟩ longerData⟩ : Step).deliveries sharedEntry ∧
      (⟨⟨257⟩, false, 1⟩, .data longerData) ∈
        (⟨.idle, .data ⟨258⟩ longerData⟩ : Step).deliveries sharedEntry ∧
      ∃ e, (sharedEntry.receiveData ForwardingStrategy.idle.hooks ⟨258⟩ longerData).InGracePeriod
        ⟨258⟩ none 100 ⟨0, 0⟩ e := by
  have hface : sharedEntry.faces.get? ⟨258⟩ = some ⟨⟨258⟩, false, 2⟩ := by decide
  have hpush : ¬ longerData.IsPushed := by decide
  have hscope : ¬ (false = false ∧ longerData.name.IsLocalhost) := by decide
  obtain ⟨hmem, _, hanswered, _⟩ :=
    data_answers_waiting reachable_sharedEntry hface hpush hscope .idle
  refine ⟨?_, ?_, ?_⟩
  · exact (hmem _ _).mpr ⟨rfl, by decide, by decide, by decide,
      sharedEntry_waitsFor _ (.inl rfl), by decide⟩
  · exact (hmem _ _).mpr ⟨rfl, by decide, by decide, by decide,
      sharedEntry_waitsFor _ (.inr rfl), by decide⟩
  · have hlive : (sharedEntry.pit.get? ⟨0, 0⟩).any (·.interest.Accepts longerData) = true := by
      decide
    obtain ⟨e, hget, haccepts⟩ := (Option.any_eq_true _ _).mp hlive
    exact ⟨e, hanswered ⟨0, 0⟩ e hget (of_decide_eq_true haccepts)⟩

/-! ## The Interests of the requests -/

/-- **The Interest that created an entry decides who gets the Data**, whatever the Interests of the
requests on it say. They agree with it unless the name of the Data is longer than that of the
entry and just one of the two takes longer names. -/
theorem delivered_iff_creator_accepts (hfw : Reachable fw) (hface : fw.faces.get? f = some face)
    (hpush : ¬ d.IsPushed) {g : FaceId} {out : Face} (hout : fw.faces.get? g = some out)
    (hne : g ≠ f)
    (hlocal : d.name.IsLocalhost → face.isLocal = true ∧ out.isLocal = true)
    (s : ForwardingStrategy) :
    ((out, .data d) ∈ (⟨s, .data f d⟩ : Step).output fw ↔
      g.IsValid ∧ ∃ h e r, fw.pit.get? h = some e ∧ e.interest.Accepts d ∧
        r ∈ e.inRecords ∧ r.face = g ∧ fw.now < r.expiry) ∧
    ∀ h e r, fw.pit.get? h = some e → r ∈ e.inRecords →
      d.name = e.name ∨ r.interest.canBePrefix = e.interest.canBePrefix →
      (e.interest.Accepts d ↔ r.interest.Accepts d) := by
  obtain rfl := hfw.id_eq_of_get? hout
  have hin : ∀ g : Face, (d.name.IsLocalhost → g.isLocal = true) →
      ¬ (g.isLocal = false ∧ d.name.IsLocalhost) := by
    rintro g hg ⟨hremote, hname⟩
    rw [hg hname] at hremote
    cases hremote
  constructor
  · have hdeliveries : (out, .data d) ∈ (⟨s, .data f d⟩ : Step).output fw ↔
        (out, .data d) ∈ (⟨s, .data f d⟩ : Step).deliveries fw := by
      rw [Step.deliveries, List.mem_filter, Packet.isData, and_iff_left rfl]
    rw [hdeliveries, mem_deliveries_data hfw hface hpush (hin face fun hname => (hlocal hname).1) s]
    constructor
    · rintro ⟨_, _, hvalid, _, hwaits, _⟩
      exact ⟨hvalid, hwaits⟩
    · rintro ⟨hvalid, hwaits⟩
      exact ⟨rfl, hout, hvalid, hne, hwaits, hin out fun hname => (hlocal hname).2⟩
  · intro h e r hget hr hsame
    have hname : r.interest.name = e.interest.name := hfw.name_eq hget hr
    refine (Interest.accepts_congr hname ?_).symm
    rw [hname]
    exact hsame

/-- In the shared entry the first request decides for the second. -/
theorem sharedEntry_creator_accepts :
    (⟨⟨257⟩, false, 1⟩, .data longerData) ∈
      (⟨.idle, .data ⟨258⟩ longerData⟩ : Step).output sharedEntry := by
  have hface : sharedEntry.faces.get? ⟨258⟩ = some ⟨⟨258⟩, false, 2⟩ := by decide
  have hout : sharedEntry.faces.get? ⟨257⟩ = some ⟨⟨257⟩, false, 1⟩ := by decide
  have hpush : ¬ longerData.IsPushed := by decide
  have hname : ¬ longerData.name.IsLocalhost := by decide
  have hiff := (delivered_iff_creator_accepts reachable_sharedEntry hface hpush hout (by decide)
    (absurd · hname) .idle).1
  exact hiff.mpr ⟨by decide, sharedEntry_waitsFor _ (.inr rfl)⟩

/-- **A face gets Data that none of its requests accepts**, because it shares an entry with a face
that takes longer names. -/
theorem sharedEntry_delivers_unasked :
    Reachable sharedEntry ∧
      (⟨⟨257⟩, false, 1⟩, .data longerData) ∈
        (⟨.idle, .data ⟨258⟩ longerData⟩ : Step).output sharedEntry ∧
      ∀ h e r, sharedEntry.pit.get? h = some e → r ∈ e.inRecords → r.face = ⟨257⟩ →
        ¬ r.interest.Accepts longerData := by
  refine ⟨(Reachable.of_isNew (isNew_build _ _)).run _, by decide, ?_⟩
  have hall : ∀ b ∈ sharedEntry.pit.live, ∀ r ∈ b.2.inRecords, r.face = ⟨257⟩ →
      ¬ r.interest.Accepts longerData := by decide
  intro h e r hget
  exact hall (h, e) (Pit.mem_live.mpr hget) r

end Forwarder

end NamedData
