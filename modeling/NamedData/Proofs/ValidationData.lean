import NamedData.Proofs.StoreUse

/-!
# Data for validation requests

Data that belongs to a validation request is meant to be stored only if it is eligible or is
pushed. Where somebody waits for it this is looked at, and where nobody does it is not: then all
that matters is that the Data comes from an application on the node.

## Main statements

* `Forwarder.store_of_validationData`
* `Forwarder.unasked_validationData_stored`: an application has it stored all the same
-/
namespace NamedData

theorem Pit.dataMatches_eq_nil_iff {pit : Pit} (wf : pit.WellFormed) {d : Data} :
    pit.dataMatches d = [] ↔ ∀ h e, pit.get? h = some e → ¬ e.interest.Accepts d := by
  simp only [List.eq_nil_iff_forall_not_mem, mem_dataMatches wf, not_exists, not_and]

namespace Forwarder

variable {fw : Forwarder} {d : Data}

/-- **Plain validation Data and the content store.** Data that belongs to a validation request and
is neither eligible nor pushed is stored, as Data that nobody has asked for, if it comes through a
local face and no entry waits for it. In all other cases the store stays as it is. -/
theorem store_of_validationData (hfw : Reachable fw) (hvalidation : d.validation = true)
    (heligibility : d.eligibility = false) (hpublishment : d.publishment = false)
    (s : ForwardingStrategy) (f : FaceId) :
    ((∃ face, fw.faces.get? f = some face ∧ face.isLocal = true) →
      (∀ h e, fw.pit.get? h = some e → ¬ e.interest.Accepts d) →
      (fw.receiveData s.hooks f d).store = fw.store.insert d true fw.now) ∧
    ((¬ ∃ face, fw.faces.get? f = some face ∧ face.isLocal = true) ∨
      (∃ h e, fw.pit.get? h = some e ∧ e.interest.Accepts d) →
      (fw.receiveData s.hooks f d).store = fw.store) := by
  have hpush : ¬ d.IsPushed := fun hpush => Bool.false_ne_true (hpublishment.symm.trans hpush.2)
  have hnil := Pit.dataMatches_eq_nil_iff hfw.timersHeld.pit_wellFormed (d := d)
  cases hface : fw.faces.get? f with
  | none =>
    refine ⟨fun ⟨face, hface', _⟩ => (nomatch hface'), fun _ => ?_⟩
    rw [receiveData_of_unknownFace hface]
    rfl
  | some face =>
    rw [store_receiveData hface, if_neg hpush]
    constructor
    · rintro ⟨face', hface', hlocal⟩ hnone
      obtain rfl := Option.some.inj hface'
      rw [if_neg (by simp [hlocal]), if_pos (hnil.mpr hnone), if_pos hlocal]
    · intro hwhy
      split
      · rfl
      · split
        · next hempty =>
          refine if_neg fun hlocal => ?_
          rcases hwhy with hremote | ⟨h, e, hget, haccepts⟩
          · exact hremote ⟨face, rfl, hlocal⟩
          · exact hnil.mp hempty h e hget haccepts
        · exact if_pos ⟨hvalidation, heligibility⟩

/-- A node with a local face and another one. -/
def cornerNode : Forwarder :=
  (build {} (.cycle 0 []) 0).run
    [⟨.idle, .change (.addFace true 0)⟩, ⟨.idle, .change (.addFace false 1)⟩]

theorem reachable_cornerNode : Reachable cornerNode :=
  (Reachable.of_isNew (isNew_build _ _)).run _

/-- Data that belongs to a validation request. -/
def validationData : Data where
  name := ⟨[.ofChars ['a']]⟩
  validation := true

/-- From another node it is not stored. -/
theorem cornerNode_store_of_validationData :
    (cornerNode.receiveData ForwardingStrategy.idle.hooks ⟨257⟩ validationData).store =
      cornerNode.store := by
  have hface : cornerNode.faces.get? ⟨257⟩ = some ⟨⟨257⟩, false, 1⟩ := by decide
  have hstore :=
    (store_of_validationData reachable_cornerNode (d := validationData) rfl rfl rfl .idle ⟨257⟩).2
  refine hstore (.inl ?_)
  rintro ⟨face, hface', hlocal⟩
  rw [hface, Option.some.injEq] at hface'
  rw [← hface'] at hlocal
  cases hlocal

/-- **An application has validation Data stored** that nobody has asked for, although it is neither
eligible nor pushed. -/
theorem unasked_validationData_stored :
    Reachable cornerNode ∧ cornerNode.faces.get? ⟨256⟩ = some ⟨⟨256⟩, true, 0⟩ ∧
      validationData.validation = true ∧ validationData.eligibility = false ∧
      validationData.publishment = false ∧
      cornerNode.store.contains validationData.name = false ∧
      (cornerNode.receiveData ForwardingStrategy.idle.hooks ⟨256⟩ validationData).store.contains
        validationData.name = true :=
  ⟨reachable_cornerNode, by decide, rfl, rfl, rfl, by decide, by decide⟩

end Forwarder

end NamedData
