import NamedData.Proofs.Routing

/-!
# Location registrations

A location registration says where content can be had. A node passes it on and keeps nothing of
it: no table, no timer and no random number is touched, and nobody is told, also where requests of
the same name wait or Data of the name is stored. It leaves through the cheapest next hop other
than the face it came from, if that is a registered face and the name may come in and leave that
way.

## Main definitions

* `Event.IsTold`
* `Forwarder.LeadsOn`, the next hop that a registration takes

## Main statements

* `Forwarder.exists_event_registerLocation`: the one packet that leaves
* `Forwarder.registration_passes_through`
-/
namespace NamedData

/-- The strategy or an observer was told something. -/
def Event.IsTold : Event → Prop
  | told .. => True
  | sent .. | logged _ => False

namespace Forwarder

variable {fw : Forwarder} {f : FaceId} {face out : Face} {i : Interest} {n : Name} {hop : NextHop}

/-- Of the next hops of the entry that decides about `n`, which are listed by cost, `hop` is the
first one whose face is not `f`. -/
structure LeadsOn (fw : Forwarder) (n : Name) (f : FaceId) (hop : NextHop) : Prop where
  first : ∃ e before after, fw.fib.Decides n e ∧ e.nextHops.Pairwise (·.cost ≤ ·.cost) ∧
    e.nextHops = before ++ hop :: after ∧ ∀ h ∈ before, h.face = f
  ne : hop.face ≠ f

/-- The registration may come in through `face` and leave through `out`. -/
def MayPass (i : Interest) (face out : Face) : Prop :=
  i.name.IsLocalhost → face.isLocal = true ∧ out.isLocal = true

/-- In a routed node the next hops are searched in the order of their costs. -/
theorem Routed.leadsOn_iff (hfw : Routed fw) :
    fw.LeadsOn n f hop ↔
      (fw.fib.longestPrefixMatch n).nextHops.find? (·.face ≠ f) = some hop := by
  obtain ⟨r, m⟩ := hfw.isMade_fib.exists_mirrors
  rw [List.find?_eq_some_iff_append]
  simp only [ne_eq, decide_not, Bool.not_eq_true', decide_eq_false_iff_not, Bool.not_not,
    decide_eq_true_eq]
  constructor
  · rintro ⟨⟨e, before, after, hdecides, _, hhops, hbefore⟩, hne⟩
    rw [m.decides_iff.mp hdecides]
    exact ⟨hne, before, after, hhops, hbefore⟩
  · rintro ⟨hne, before, after, hhops, hbefore⟩
    have hdecides := m.decides_longestPrefixMatch n
    have hfind := m.find?_eq_some_iff.mp hdecides.find?
    have hsorted : (fw.fib.longestPrefixMatch n).nextHops.Pairwise (·.cost ≤ ·.cost) := by
      rw [hfind.1]
      exact (m.valid _).sorted
    exact ⟨⟨_, before, after, hdecides, hsorted, hhops, hbefore⟩, hne⟩

theorem mayPass_iff : MayPass i face out ↔
    ¬ (face.isLocal = false ∧ i.name.IsLocalhost) ∧
      ¬ (out.isLocal = false ∧ i.name.IsLocalhost) := by
  unfold MayPass
  by_cases hname : i.name.IsLocalhost <;> simp [hname]

/-- The registration `i` that comes in through `face` goes on through `out`. -/
def GoesOn (fw : Forwarder) (i : Interest) (face out : Face) : Prop :=
  ∃ hop, (fw.fib.longestPrefixMatch i.name).nextHops.find? (·.face ≠ face.id) = some hop ∧
    fw.faces.get? hop.face = some out ∧ MayPass i face out

theorem GoesOn.eq {out' : Face} (hgoes : fw.GoesOn i face out) (hgoes' : fw.GoesOn i face out') :
    out = out' := by
  obtain ⟨hop, hhop, hout, _⟩ := hgoes
  obtain ⟨hop', hhop', hout', _⟩ := hgoes'
  rw [hhop, Option.some.injEq] at hhop'
  rw [← hhop', hout, Option.some.injEq] at hout'
  exact hout'

/-- A registration that goes on leaves once. -/
theorem registerLocation_of_goesOn (hgoes : fw.GoesOn i face out) :
    fw.registerLocation face i = fw.emitInterest out i := by
  obtain ⟨hop, hhop, hout, hpass⟩ := hgoes
  obtain ⟨hin, hleave⟩ := mayPass_iff.mp hpass
  simp only [registerLocation, if_neg hin, hhop, hout, if_neg hleave]

/-- A registration that does not go on leaves a line in the log at most. -/
theorem registerLocation_of_not_goesOn (hno : ∀ out, ¬ fw.GoesOn i face out) :
    fw.registerLocation face i = fw ∨ ∃ incident, fw.registerLocation face i = fw.log incident := by
  unfold registerLocation
  by_cases hin : face.isLocal = false ∧ i.name.IsLocalhost
  · exact .inl (if_pos hin)
  rw [if_neg hin]
  cases hhop : (fw.fib.longestPrefixMatch i.name).nextHops.find? (·.face ≠ face.id) with
  | none => exact .inl rfl
  | some hop =>
    cases hout : fw.faces.get? hop.face with
    | none =>
      simp only [hout]
      exact .inr ⟨_, rfl⟩
    | some out =>
      have hleave : out.isLocal = false ∧ i.name.IsLocalhost := by
        by_contra hleave
        exact hno out ⟨hop, hhop, hout, mayPass_iff.mpr ⟨hin, hleave⟩⟩
      simp only [hout, if_pos hleave]
      exact .inl trivial

/-- A registration that arrives goes on, or something is counted and logged at most. -/
theorem receiveInterest_of_registration (hreg : i.locationRegistration = true) (hooks : Hooks)
    (f : FaceId) (fw : Forwarder) :
    Quiet fw (fw.receiveInterest hooks f i) ∨
      ∃ face out, fw.faces.get? f = some face ∧
        (fw.count .inInterests).GoesOn (i.arrivedOn f) face out ∧
        fw.receiveInterest hooks f i =
          (fw.count .inInterests).emitInterest out (i.arrivedOn f) := by
  have hcount := quiet_count .inInterests fw
  cases hface : fw.faces.get? f with
  | none =>
    have hface' : (fw.count .inInterests).faces.get? f = none := hface
    simp only [receiveInterest, hface']
    exact .inl (hcount.trans (quiet_log _ _))
  | some face =>
    rw [receiveInterest_of_face hface, if_pos hreg]
    by_cases hway : ∃ out, (fw.count .inInterests).GoesOn (i.arrivedOn f) face out
    · obtain ⟨out, hgoes⟩ := hway
      exact .inr ⟨face, out, rfl, hgoes, registerLocation_of_goesOn hgoes⟩
    · rcases registerLocation_of_not_goesOn (not_exists.mp hway) with heq | ⟨incident, heq⟩
      · rw [heq]
        exact .inl hcount
      · rw [heq]
        exact .inl (hcount.trans (quiet_log _ _))

theorem journal_emitInterest (out : Face) (i : Interest) (fw : Forwarder) :
    (fw.emitInterest out i).journal = .sent out (.interest i) :: fw.journal :=
  rfl

/-- A registration makes one event at most, and tells nobody. -/
theorem exists_event_registerLocation (face : Face) (i : Interest) (fw : Forwarder) :
    ∃ event? : Option Event, (fw.registerLocation face i).journal = event?.toList ++ fw.journal ∧
      (∀ event ∈ event?, ¬ event.IsTold) ∧
      ∀ out p, event? = some (.sent out p) ↔ p = .interest i ∧ fw.GoesOn i face out := by
  by_cases hway : ∃ out, fw.GoesOn i face out
  · obtain ⟨out, hgoes⟩ := hway
    refine ⟨some (.sent out (.interest i)), ?_, ?_, ?_⟩
    · rw [registerLocation_of_goesOn hgoes, journal_emitInterest]
      rfl
    · rintro _ ⟨⟩
      exact id
    intro out' p
    simp only [Option.some.injEq, Event.sent.injEq]
    constructor
    · rintro ⟨rfl, rfl⟩
      exact ⟨rfl, hgoes⟩
    · rintro ⟨rfl, hgoes'⟩
      exact ⟨hgoes.eq hgoes', rfl⟩
  · have hno : ∀ out, ¬ fw.GoesOn i face out := fun out hgoes => hway ⟨out, hgoes⟩
    rcases registerLocation_of_not_goesOn hno with heq | ⟨incident, heq⟩
    · refine ⟨none, ?_, ?_, ?_⟩
      · rw [heq]
        rfl
      · rintro _ ⟨⟩
      · exact fun out p => iff_of_false (by simp) fun hgoes => hno out hgoes.2
    · refine ⟨some (.logged incident), ?_, ?_, ?_⟩
      · rw [heq]
        rfl
      · rintro _ ⟨⟩
        exact id
      · exact fun out p => iff_of_false (by simp) fun hgoes => hno out hgoes.2

/-- In a routed node a registration goes on as it is led. -/
theorem Routed.goesOn_iff (hfw : Routed fw) (hface : fw.faces.get? f = some face) :
    (fw.count .inInterests).GoesOn (i.arrivedOn f) face out ↔
      ∃ hop, fw.LeadsOn i.name f hop ∧ fw.faces.get? hop.face = some out ∧
        MayPass i face out := by
  simp only [GoesOn, MayPass, Interest.name_arrivedOn, hfw.leadsOn_iff,
    hfw.reachable.id_eq_of_get? hface]
  rfl

/-- **A location registration passes through.** Whatever listens, nothing of a routed node changes
but its counters and its journal, and there is at most one new event, which is not that somebody is
told. The registration itself leaves, with the face it came in on at the end of its path if it asks
for validation, and it leaves through the face it is led to exactly if that is registered and the
name may pass. -/
theorem registration_passes_through (hfw : Routed fw) (hface : fw.faces.get? f = some face)
    (hreg : i.locationRegistration = true) (hooks : Hooks) :
    fw.receiveInterest hooks f i = { fw with
      counters := (fw.receiveInterest hooks f i).counters
      journal := (fw.receiveInterest hooks f i).journal } ∧
    (∀ hooks', fw.receiveInterest hooks' f i = fw.receiveInterest hooks f i) ∧
    ∃ event? : Option Event,
      (fw.receiveInterest hooks f i).journal = event?.toList ++ fw.journal ∧
      (∀ event ∈ event?, ¬ event.IsTold) ∧
      ∀ out p, event? = some (.sent out p) ↔ p = .interest (i.arrivedOn f) ∧
        ∃ hop, fw.LeadsOn i.name f hop ∧ fw.faces.get? hop.face = some out ∧
          MayPass i face out := by
  have hregister : ∀ hooks', fw.receiveInterest hooks' f i =
      (fw.count .inInterests).registerLocation face (i.arrivedOn f) := by
    intro hooks'
    rw [receiveInterest_of_face hface, if_pos hreg]
  have houtward := Outward.trans (quiet_count .inInterests fw).eq_update
    (outward_registerLocation face (i.arrivedOn f) (fw.count .inInterests))
  rw [hregister hooks]
  refine ⟨houtward, hregister, ?_⟩
  simp only [← hfw.goesOn_iff hface]
  exact exists_event_registerLocation face (i.arrivedOn f) (fw.count .inInterests)

/-- A node with three faces. Requests for `/a` wait and `/b` is stored, and both lie under a route
that leads back to the first face or on to the second one. -/
def crossing : Forwarder :=
  (build {} (.cycle 0 []) 1).run
    [⟨.idle, .change (.addFace false 0)⟩, ⟨.idle, .change (.addFace false 1)⟩,
      ⟨.idle, .change (.addFace true 2)⟩,
      ⟨.idle, .change (.routes fun fib => (fib.addNextHop .root ⟨257⟩ 7).addNextHop .root ⟨256⟩ 3)⟩,
      ⟨.idle, .interest ⟨258⟩ { name := ⟨[.ofChars ['a']]⟩, nonce := 5 }⟩,
      ⟨.idle, .data ⟨258⟩ { name := ⟨[.ofChars ['b']]⟩ }⟩]

theorem routed_crossing : Routed crossing := by
  refine ⟨_, _, isNew_build (.cycle 0 []) 1, ?_, rfl⟩
  simp only [List.forall_mem_cons]
  refine ⟨nofun, nofun, nofun, ?_, nofun, nofun, nofun⟩
  intro change heq fib hmade
  cases heq
  exact (hmade.perform (.add .root ⟨257⟩ 7)).perform (.add .root ⟨256⟩ 3)

/-- A registration for a name that requests wait for. -/
def announcing : Interest where
  name := ⟨[.ofChars ['a']]⟩
  nonce := 9
  validation := true
  locationRegistration := true

theorem crossing_passes_through :
    let fw' := crossing.receiveInterest Strategy.bestRoute.hooks ⟨256⟩ announcing
    fw'.pit = crossing.pit ∧ fw'.timers = crossing.timers ∧
      fw'.journal = .sent ⟨⟨257⟩, false, 1⟩ (.interest { announcing with path := [⟨256⟩] }) ::
        crossing.journal := by
  have hface : crossing.faces.get? ⟨256⟩ = some ⟨⟨256⟩, false, 0⟩ := by decide
  obtain ⟨hsame, _, event?, hjournal, _, hsent⟩ :=
    registration_passes_through routed_crossing hface (i := announcing) rfl Strategy.bestRoute.hooks
  have hleads : crossing.LeadsOn announcing.name ⟨256⟩ ⟨⟨257⟩, 7⟩ :=
    routed_crossing.leadsOn_iff.mpr (by decide)
  have hevent := (hsent ⟨⟨257⟩, false, 1⟩ (.interest (announcing.arrivedOn ⟨256⟩))).mpr
    ⟨rfl, _, hleads, by decide, by simp [MayPass, announcing, Name.IsLocalhost]; decide⟩
  refine ⟨?_, ?_, ?_⟩
  · rw [hsame]
  · rw [hsame]
  · rw [hjournal, hevent]
    rfl

end Forwarder

end NamedData
