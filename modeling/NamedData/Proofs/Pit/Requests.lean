import NamedData.Proofs.Pit.Entry
import NamedData.Proofs.Pit.Table

/-!
# Who waits on the entries

The downstream side of an entry is what the node knows about those who asked: the
Interest that created the entry and its in-records. Timers and out-records come and go
without a change to it.

## Main definitions

* `Pit.Entry.downstream`, an entry without its timers and out-records
* `Pit.SameRequests`, the live entries and their downstream sides are the same
* `Pit.NoneLost`, no live entry has gone
-/
namespace NamedData.Pit

namespace Entry

variable {e e' : Entry}

/-- The entry as far as those who asked for it go. -/
def downstream (e : Entry) : Entry :=
  { e with outRecords := [], unsatisfyTimer := none, stragglerTimer := none }

@[simp] theorem downstream_unarmed : e.unarmed.downstream = e.downstream := rfl

@[simp] theorem downstream_armedUnsatisfy (id : TimerId) :
    (e.armedUnsatisfy id).downstream = e.downstream := rfl

@[simp] theorem downstream_armedStraggler (id : TimerId) :
    (e.armedStraggler id).downstream = e.downstream := rfl

@[simp] theorem downstream_sentOn (f : FaceId) (i : Interest) (now : Instant) :
    (e.sentOn f i now).downstream = e.downstream := rfl

theorem interest_eq_of_downstream (h : e.downstream = e'.downstream) :
    e.interest = e'.interest := (congrArg interest h :)

theorem inRecords_eq_of_downstream (h : e.downstream = e'.downstream) :
    e.inRecords = e'.inRecords := (congrArg inRecords h :)

/-- Where an Interest may go depends on the downstream side only. -/
theorem violatesScope_of_downstream (h : e.downstream = e'.downstream) {face : Face}
    (hv : e.ViolatesScope face) : e'.ViolatesScope face := by
  unfold ViolatesScope name at hv ⊢
  rw [← interest_eq_of_downstream h, ← inRecords_eq_of_downstream h]
  exact hv

end Entry

variable {pit pit' pit'' : Pit} {h : Handle} {e : Entry} {g : Entry → Entry}

/-- The same entries live in both tables, and they differ in timers and out-records at most. -/
def SameRequests (pit pit' : Pit) : Prop :=
  ∀ h, (pit'.get? h).map Entry.downstream = (pit.get? h).map Entry.downstream

namespace SameRequests

theorem refl (pit : Pit) : SameRequests pit pit := fun _ => rfl

theorem trans (hs : SameRequests pit pit') (hs' : SameRequests pit' pit'') :
    SameRequests pit pit'' := fun h => (hs' h).trans (hs h)

theorem symm (hs : SameRequests pit pit') : SameRequests pit' pit := fun h => (hs h).symm

theorem exists_get? (hs : SameRequests pit pit') (hget : pit.get? h = some e) :
    ∃ e', pit'.get? h = some e' ∧ e'.downstream = e.downstream := by
  have := hs h
  rwa [hget, Option.map_some, Option.map_eq_some_iff] at this

end SameRequests

theorem sameRequests_modify (pit : Pit) (h : Handle)
    (hg : ∀ e, (g e).downstream = e.downstream) : SameRequests pit (pit.modify h g) := by
  intro h'
  rw [get?_modify]
  split
  · next heq =>
    rw [heq, Option.map_map]
    exact congrArg (Option.map · (pit.get? h)) (funext hg)
  · rfl

/-- Every entry that lives in `pit` lives in `pit'`. -/
def NoneLost (pit pit' : Pit) : Prop := ∀ h e, pit.get? h = some e → ∃ e', pit'.get? h = some e'

theorem NoneLost.trans (hn : NoneLost pit pit') (hn' : NoneLost pit' pit'') :
    NoneLost pit pit'' := by
  intro h e hget
  obtain ⟨e', hget'⟩ := hn h e hget
  exact hn' h e' hget'

theorem SameRequests.noneLost (hs : SameRequests pit pit') : NoneLost pit pit' := by
  intro h e hget
  obtain ⟨e', hget', _⟩ := hs.exists_get? hget
  exact ⟨e', hget'⟩

theorem noneLost_modify (pit : Pit) (h : Handle) (g : Entry → Entry) :
    NoneLost pit (pit.modify h g) := by
  intro h' e hget
  rw [get?_modify, hget]
  split
  · next heq =>
    rw [← heq, hget]
    exact ⟨g e, rfl⟩
  · exact ⟨e, rfl⟩

end NamedData.Pit
