import NamedData.Proofs.Forwarder.Arrival
import Mathlib.Algebra.BigOperators.Group.List.Basic
import Mathlib.Algebra.BigOperators.Group.Finset.Basic
import Mathlib.Algebra.Order.BigOperators.Group.Finset

/-!
# The requests of a face over the whole table

A face may have a request on many entries at once. Their number over all live entries is a
sum over handles, so two tables are compared one handle at a time.

## Main definitions

* `Pit.live`, the live entries with their handles
* `Pit.requestsFrom`, the number of requests of a face over all live entries

## Main statements

* `Pit.mem_live`, `Pit.nodup_live`: each live entry is listed once
* `Pit.requestsFrom_add_le`: how a change to one entry carries over to the whole table
-/
namespace NamedData.Pit

variable {pit pit' : Pit} {h : Handle} {e : Entry} {f : FaceId}

/-! ## The live entries -/

/-- The entry in the slot with the given number, with its handle. -/
def Slot.live? (index : Nat) (s : Slot) : Option (Handle × Entry) :=
  s.entry.map fun e => (⟨index, s.generation⟩, e)

/-- The live entries with their handles, in the order of their slots. -/
def live (pit : Pit) : List (Handle × Entry) :=
  pit.slots.toList.zipIdx.filterMap fun s => s.1.live? s.2

theorem mem_live : (h, e) ∈ pit.live ↔ pit.get? h = some e := by
  simp only [live, List.mem_filterMap, Slot.live?, Option.map_eq_some_iff, Prod.mk.injEq,
    get?_eq_some_iff]
  constructor
  · rintro ⟨⟨⟨g, entry⟩, k⟩, hmem, e', he, rfl, rfl⟩
    rw [List.mk_mem_zipIdx_iff_getElem?, Array.getElem?_toList] at hmem
    simp only at he
    rw [hmem, he]
  · intro hs
    refine ⟨(⟨h.generation, some e⟩, h.index), ?_, e, rfl, rfl, rfl⟩
    rw [List.mk_mem_zipIdx_iff_getElem?, Array.getElem?_toList]
    exact hs

theorem Slot.index_of_live? {k : Nat} {s : Slot} {b : Handle × Entry}
    (hb : s.live? k = some b) : b.1.index = k := by
  obtain ⟨e, _, rfl⟩ := Option.map_eq_some_iff.mp hb
  rfl

theorem nodup_live (pit : Pit) : (pit.live.map Prod.fst).Nodup := by
  rw [live, List.Nodup, List.pairwise_map, List.pairwise_filterMap]
  have hnumbers : (pit.slots.toList.zipIdx.map Prod.snd).Nodup := by
    rw [List.zipIdx_map_snd]
    exact List.nodup_range'
  rw [List.Nodup, List.pairwise_map] at hnumbers
  refine hnumbers.imp ?_
  intro a a' hne b hb b' hb' heq
  apply hne
  rw [← Slot.index_of_live? hb, ← Slot.index_of_live? hb', heq]

/-! ## Requests of a face -/

/-- The number of requests of the face `f` on the entry with the handle `h`. -/
def requestsAt (pit : Pit) (f : FaceId) (h : Handle) : Nat :=
  match pit.get? h with
  | none => 0
  | some e => e.inRecords.countP (·.face = f)

/-- The number of requests of the face `f` over all live entries. -/
def requestsFrom (pit : Pit) (f : FaceId) : Nat :=
  (pit.live.flatMap (·.2.inRecords)).countP (·.face = f)

theorem requestsAt_of_get? (hget : pit.get? h = some e) :
    pit.requestsAt f h = e.inRecords.countP (·.face = f) := by
  rw [requestsAt, hget]

theorem requestsAt_of_get?_eq_none (hget : pit.get? h = none) : pit.requestsAt f h = 0 := by
  rw [requestsAt, hget]

theorem requestsAt_congr (hget : pit'.get? h = pit.get? h) (f : FaceId) :
    pit'.requestsAt f h = pit.requestsAt f h := by
  rw [requestsAt, requestsAt, hget]

/-- An entry that is created has no requests yet. -/
theorem Placed.requestsAt_eq {i : Interest} {h' : Handle} (hplaced : Placed pit i h' pit')
    (f : FaceId) (h : Handle) : pit'.requestsAt f h = pit.requestsAt f h := by
  cases hplaced with
  | found _ _ => rfl
  | created _ c =>
    by_cases heq : h = h'
    · subst heq
      rw [requestsAt_of_get? c.get?_self, requestsAt_of_get?_eq_none c.unused]
      rfl
    · exact requestsAt_congr (c.get?_of_ne heq) f

theorem SameRequests.requestsAt_eq (hs : SameRequests pit pit') (f : FaceId) (h : Handle) :
    pit'.requestsAt f h = pit.requestsAt f h := by
  cases hget : pit.get? h with
  | none =>
    have hnone := hs h
    rw [hget, Option.map_none, Option.map_eq_none_iff] at hnone
    rw [requestsAt_of_get?_eq_none hget, requestsAt_of_get?_eq_none hnone]
  | some e =>
    obtain ⟨e', hget', hdown⟩ := hs.exists_get? hget
    rw [requestsAt_of_get? hget, requestsAt_of_get? hget', Entry.inRecords_eq_of_downstream hdown]

/-- The requests over all entries are the sum over any handles that include the live ones. -/
theorem requestsFrom_eq_sum {handles : Finset Handle}
    (hlive : ∀ h e, pit.get? h = some e → h ∈ handles) :
    pit.requestsFrom f = ∑ h ∈ handles, pit.requestsAt f h := by
  have hsub : (pit.live.map Prod.fst).toFinset ⊆ handles := by
    intro h hmem
    obtain ⟨b, hb, rfl⟩ := List.mem_map.mp (List.mem_toFinset.mp hmem)
    exact hlive b.1 b.2 (mem_live.mp hb)
  have hgone : ∀ h ∈ handles, h ∉ (pit.live.map Prod.fst).toFinset → pit.requestsAt f h = 0 := by
    intro h _ hnot
    refine requestsAt_of_get?_eq_none ?_
    cases hget : pit.get? h with
    | none => rfl
    | some e =>
      have hmem := List.mem_map_of_mem (f := Prod.fst) (mem_live.mpr hget)
      exact absurd (List.mem_toFinset.mpr hmem) hnot
  have hat : ∀ b ∈ pit.live, b.2.inRecords.countP (·.face = f) = pit.requestsAt f b.1 :=
    fun b hb => (requestsAt_of_get? (mem_live.mp hb)).symm
  rw [← Finset.sum_subset hsub hgone, List.sum_toFinset _ pit.nodup_live, List.map_map,
    requestsFrom, List.countP_flatMap]
  exact congrArg List.sum (List.map_congr_left hat)

/-- Two tables are compared one handle at a time. Where a change goes beyond `≤`, it is at
one handle. -/
theorem requestsFrom_add_le {a b : Nat} (h : Handle)
    (hat : pit'.requestsAt f h + a ≤ pit.requestsAt f h + b)
    (hother : ∀ h', h' ≠ h → pit'.requestsAt f h' ≤ pit.requestsAt f h') :
    pit'.requestsFrom f + a ≤ pit.requestsFrom f + b := by
  let handles : Finset Handle :=
    Insert.insert h ((pit.live.map Prod.fst).toFinset ∪ (pit'.live.map Prod.fst).toFinset)
  have hself : h ∈ handles := Finset.mem_insert_self _ _
  have hlive : ∀ h e, pit.get? h = some e → h ∈ handles := by
    intro h e hget
    have hmem := List.mem_map_of_mem (f := Prod.fst) (mem_live.mpr hget)
    exact Finset.mem_insert_of_mem (Finset.mem_union_left _ (List.mem_toFinset.mpr hmem))
  have hlive' : ∀ h e, pit'.get? h = some e → h ∈ handles := by
    intro h e hget
    have hmem := List.mem_map_of_mem (f := Prod.fst) (mem_live.mpr hget)
    exact Finset.mem_insert_of_mem (Finset.mem_union_right _ (List.mem_toFinset.mpr hmem))
  have hrest : ∑ h' ∈ handles.erase h, pit'.requestsAt f h' ≤
      ∑ h' ∈ handles.erase h, pit.requestsAt f h' :=
    Finset.sum_le_sum fun h' hmem => hother h' (Finset.ne_of_mem_erase hmem)
  rw [requestsFrom_eq_sum hlive, requestsFrom_eq_sum hlive', ← Finset.add_sum_erase _ _ hself,
    ← Finset.add_sum_erase _ _ hself]
  omega

theorem requestsFrom_le (hall : ∀ h, pit'.requestsAt f h ≤ pit.requestsAt f h) :
    pit'.requestsFrom f ≤ pit.requestsFrom f :=
  requestsFrom_add_le (a := 0) (b := 0) ⟨0, 0⟩ (hall _) fun h _ => hall h

end NamedData.Pit
