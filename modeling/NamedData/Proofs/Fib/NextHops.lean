import NamedData.Fib
import Mathlib.Data.List.Sort

/-!
# Lists of next hops

A list of next hops is valid if each face is in it once and the costs ascend. Setting the cost of a
face and withdrawing a face keep a list valid, and change what they say and nothing else.

## Main definitions

* `NextHops.Valid`

## Main statements

* `NextHops.sortByCost_eq_insertionSort`
* `NextHops.mem_set`, `NextHops.valid_set`
* `NextHops.mem_without`, `NextHops.valid_without`
-/
namespace NamedData.NextHops

variable {hops : NextHops} {hop : NextHop} {face : FaceId} {cost : UInt64}

/-- Each face is listed once, and no next hop costs less than the one before it. -/
structure Valid (hops : NextHops) : Prop where
  nodup : (hops.map NextHop.face).Nodup
  sorted : hops.Pairwise fun h h' => h.cost ≤ h'.cost

theorem valid_nil : Valid [] := ⟨.nil, .nil⟩

/-- One next hop costs no more than another. -/
def CostLE (h h' : NextHop) : Prop := h.cost ≤ h'.cost

instance : DecidableRel CostLE := fun h h' => inferInstanceAs (Decidable (h.cost ≤ h'.cost))

instance : Std.Total CostLE := ⟨fun h h' => UInt64.le_total h.cost h'.cost⟩

instance : IsTrans NextHop CostLE := ⟨fun _ _ _ => UInt64.le_trans⟩

theorem insertByCost_eq_orderedInsert (hop : NextHop) (hops : NextHops) :
    insertByCost hop hops = hops.orderedInsert CostLE hop := by
  induction hops with
  | nil => rfl
  | cons h rest ih =>
    by_cases hle : hop.cost ≤ h.cost <;> simp [insertByCost, List.orderedInsert, CostLE, hle, ih]

/-- Next hops are sorted by inserting one after the other. -/
theorem sortByCost_eq_insertionSort (hops : NextHops) :
    hops.sortByCost = hops.insertionSort CostLE := by
  have hinsert : insertByCost = List.orderedInsert CostLE :=
    funext fun hop => funext fun hops => insertByCost_eq_orderedInsert hop hops
  rw [sortByCost, hinsert]
  rfl

theorem perm_sortByCost (hops : NextHops) : hops.sortByCost.Perm hops := by
  rw [sortByCost_eq_insertionSort]
  exact List.perm_insertionSort CostLE hops

theorem sorted_sortByCost (hops : NextHops) :
    hops.sortByCost.Pairwise fun h h' => h.cost ≤ h'.cost := by
  rw [sortByCost_eq_insertionSort]
  exact List.pairwise_insertionSort CostLE hops

/-! ## Setting a cost -/

/-- Afterwards the face has the new cost, and the other faces have theirs. -/
theorem mem_set : hop ∈ hops.set face cost ↔
    hop = ⟨face, cost⟩ ∨ hop ∈ hops ∧ hop.face ≠ face := by
  rw [set, (perm_sortByCost _).mem_iff]
  split
  · next hhas =>
    obtain ⟨h, hmem, hface⟩ := hhas
    simp only [List.mem_map]
    constructor
    · rintro ⟨h', hmem', rfl⟩
      by_cases heq : h'.face = face
      · exact .inl (by simp [heq])
      · exact .inr (by simp [heq, hmem'])
    · rintro (rfl | ⟨hmem', hne⟩)
      · exact ⟨h, hmem, by simp [hface]⟩
      · exact ⟨hop, hmem', by simp [hne]⟩
  · next hnew =>
    rw [List.mem_append, List.mem_singleton, or_comm]
    refine or_congr_right (Iff.symm (and_iff_left_of_imp ?_))
    rintro hmem rfl
    exact hnew ⟨hop, hmem, rfl⟩

/-- A new cost leaves the faces where they are. -/
theorem map_face_update (hops : NextHops) (face : FaceId) (cost : UInt64) :
    (hops.map fun h => if h.face = face then { h with cost } else h).map NextHop.face =
      hops.map NextHop.face := by
  rw [List.map_map]
  refine List.map_congr_left fun h _ => ?_
  simp only [Function.comp]
  split <;> rfl

theorem valid_set (valid : hops.Valid) (face : FaceId) (cost : UInt64) :
    (hops.set face cost).Valid where
  nodup := by
    rw [set, ((perm_sortByCost _).map _).nodup_iff]
    split
    · rw [map_face_update]
      exact valid.nodup
    · next hnew =>
      rw [List.map_append, List.nodup_append]
      refine ⟨valid.nodup, List.nodup_singleton _, ?_⟩
      rintro f hf f' hf' rfl
      obtain ⟨h, hmem, hface⟩ := List.mem_map.mp hf
      exact hnew ⟨h, hmem, hface.trans (List.mem_singleton.mp hf')⟩
  sorted := sorted_sortByCost _

theorem set_ne_nil (hops : NextHops) (face : FaceId) (cost : UInt64) :
    hops.set face cost ≠ [] :=
  List.ne_nil_of_mem (mem_set.mpr (.inl rfl))

/-! ## Withdrawing a face -/

theorem mem_without : hop ∈ hops.without face ↔ hop ∈ hops ∧ hop.face ≠ face := by
  simp [without]

theorem valid_without (valid : hops.Valid) (face : FaceId) : (hops.without face).Valid where
  nodup := valid.nodup.sublist (List.filter_sublist.map _)
  sorted := valid.sorted.sublist List.filter_sublist

theorem without_eq_self (hnot : ¬ hops.Has face) : hops.without face = hops := by
  refine List.filter_eq_self.mpr fun h hmem => decide_eq_true ?_
  exact fun hface => hnot ⟨h, hmem, hface⟩

@[simp] theorem without_without (hops : NextHops) (face : FaceId) :
    (hops.without face).without face = hops.without face := by
  simp [without]

/-- A next hop was withdrawn exactly if fewer are left. -/
theorem length_without_ne_iff : (hops.without face).length ≠ hops.length ↔ hops.Has face := by
  rw [ne_eq, without, List.length_filter_eq_length_iff]
  simp [Has]

end NamedData.NextHops
