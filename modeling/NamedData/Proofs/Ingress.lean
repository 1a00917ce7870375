import NamedData.Proofs.Run

/-!
# Names under /localhost from outside

A packet under `/localhost` that comes from another node is counted and dropped. Pushed Data is
not looked at in this way: it is stored, or removes what is stored, and an application on the
node may get it.

## Main statements

* `Forwarder.receiveInterest_of_localhost`, `Forwarder.receiveData_of_localhost`: the packet is
  counted and nothing else happens
* `Forwarder.localhost_from_outside`
* `Forwarder.pushed_localhost_comes_in`: pushed Data does come in
-/
namespace NamedData

namespace Forwarder

variable {fw : Forwarder} {f : FaceId} {face : Face} {i : Interest} {d : Data}

/-- No Interest under `/localhost` comes in from outside, a location registration neither. -/
theorem receiveInterest_of_localhost (hface : fw.faces.get? f = some face)
    (hremote : face.isLocal = false) (hname : i.name.IsLocalhost) (hooks : Hooks) :
    fw.receiveInterest hooks f i = fw.count .inInterests := by
  have hscope : face.isLocal = false ∧ i.name.IsLocalhost := ⟨hremote, hname⟩
  have hregistration : (fw.count .inInterests).registerLocation face (i.arrivedOn f) =
      fw.count .inInterests := by
    rw [registerLocation, Interest.name_arrivedOn, if_pos hscope]
  rw [receiveInterest_of_face hface, hregistration, if_pos hscope, ite_self]

/-- No Data under `/localhost` comes in from outside, unless it is pushed. -/
theorem receiveData_of_localhost (hface : fw.faces.get? f = some face)
    (hremote : face.isLocal = false) (hname : d.name.IsLocalhost) (hpush : ¬ d.IsPushed)
    (hooks : Hooks) : fw.receiveData hooks f d = fw.count .inData := by
  rw [receiveData_of_face hface, if_neg hpush, if_pos ⟨hremote, hname⟩]

/-- **Names under /localhost from outside.** An Interest under `/localhost` that comes through a
face that is not local changes one counter and nothing else, whatever its flags and its path. So
does Data, unless it is pushed. Pushed Data changes the content store, and nothing but an
application on this node gets it. -/
theorem localhost_from_outside (hface : fw.faces.get? f = some face)
    (hremote : face.isLocal = false) (hooks : Hooks) :
    (∀ i, i.name.IsLocalhost → fw.receiveInterest hooks f i = fw.count .inInterests) ∧
    (∀ d, d.name.IsLocalhost → ¬ d.IsPushed → fw.receiveData hooks f d = fw.count .inData) ∧
    (∀ d, d.name.IsLocalhost → d.IsPushed →
      ∃ journal counters l,
        fw.receiveData hooks f d = { fw with store := fw.storeOfPushed d, journal, counters } ∧
        (fw.receiveData hooks f d).sent = fw.sent ++ l ∧
        ∀ b ∈ l, b.1.isLocal = true) := by
  refine ⟨?_, ?_, ?_⟩
  · exact fun i hname => receiveInterest_of_localhost hface hremote hname hooks
  · exact fun d hname hpush => receiveData_of_localhost hface hremote hname hpush hooks
  · intro d hname hpush
    obtain ⟨fw₁, ho, hsent, heq⟩ := receivePublishment_eq d (fw.count .inData)
    rw [receiveData_of_face hface, if_pos hpush]
    refine ⟨fw₁.journal, fw₁.counters, d.pathBack.getLast?.toList.flatMap
      (fw.faces.delivery { d with pathBack := d.pathBack.dropLast }), ?_, ?_, ?_⟩
    · rw [heq, ho]
      rfl
    · rw [heq]
      exact hsent
    · intro b hb
      obtain ⟨_, _, hb⟩ := List.mem_flatMap.mp hb
      obtain ⟨_, _, _, hscope, rfl⟩ := FaceTable.mem_delivery.mp hb
      simpa [hname] using hscope

/-- A node with a face to another node and one to an application. -/
def gateway : Forwarder :=
  (build {} (.cycle 0 []) 0).run
    [⟨.idle, .change (.addFace false 0)⟩, ⟨.idle, .change (.addFace true 1)⟩]

/-- Data under `/localhost` that is pushed to the application. -/
def pushedToApplication : Data where
  name := ⟨[Name.localhost, .ofChars ['x']]⟩
  validation := true
  publishment := true
  pathBack := [⟨257⟩]

/-- The gateway drops what another node asks for under `/localhost`, and an answer too. -/
theorem gateway_drops_localhost :
    gateway.receiveInterest ForwardingStrategy.idle.hooks ⟨256⟩
        { name := ⟨[Name.localhost]⟩, nonce := 5 } = gateway.count .inInterests ∧
      gateway.receiveData ForwardingStrategy.idle.hooks ⟨256⟩
        { pushedToApplication with publishment := false } = gateway.count .inData := by
  have hface : gateway.faces.get? ⟨256⟩ = some ⟨⟨256⟩, false, 0⟩ := by decide
  obtain ⟨hinterest, hdata, _⟩ :=
    localhost_from_outside hface rfl ForwardingStrategy.idle.hooks
  exact ⟨hinterest _ (by decide), hdata _ (by decide) (by decide)⟩

/-- **Pushed Data under /localhost comes in from outside**: the application gets it from another
node, and the gateway keeps it. -/
theorem pushed_localhost_comes_in :
    Reachable gateway ∧ gateway.faces.get? ⟨256⟩ = some ⟨⟨256⟩, false, 0⟩ ∧
      pushedToApplication.name.IsLocalhost ∧ gateway.sent = [] ∧
      (gateway.receiveData ForwardingStrategy.idle.hooks ⟨256⟩ pushedToApplication).sent =
        [(⟨⟨257⟩, true, 1⟩, .data { pushedToApplication with pathBack := [] })] ∧
      gateway.store.contains pushedToApplication.name = false ∧
      (gateway.receiveData ForwardingStrategy.idle.hooks ⟨256⟩ pushedToApplication).store.contains
        pushedToApplication.name = true :=
  ⟨(Reachable.of_isNew (isNew_build _ _)).run _, by decide, by decide, by decide, by decide,
    by decide, by decide⟩

end Forwarder

end NamedData
