import NamedData.SortedMap
import Mathlib.Data.List.Nodup

/-!
# Finite maps: bindings, keys and size

The lookup function and the list of bindings say the same: `get? k` yields `a` exactly
when `(k, a)` is a binding. From this follow what `filterMap` does to a lookup, and that
every key is listed once.

## Main statements

* `get?_eq_some_iff`, lookups against bindings
* `eq_of_get?_eq`, maps are determined by their lookups
* `get?_filterMap`, `get?_modify`
* `mem_keys_iff`, `nodup_keys`
* `size_erase_lt`, a binding that is removed makes the map smaller
* `contains_insert`, `contains_erase`
* `get?_dropWhile_eq_some_iff`, what is left when bindings are removed from the front
* `perm_toList_insert`, `toList_insert_of_lt`, `toList_filterMap_ite`
* `find?_eq_some_iff_of_unique`, a search for the one member that will do
* `isLE_of_find?_eq_some`, a search in key order finds the smallest key
-/
namespace NamedData.SortedMap

universe u v w

variable {κ : Type u} {α : Type v} {β : Type w} [Ord κ] [Std.LawfulEqOrd κ]

/-- Keys that compare as less are different. -/
theorem ne_of_compare_lt {a b : κ} (h : compare a b = .lt) : a ≠ b := by
  rintro rfl
  rw [Std.ReflOrd.compare_self] at h
  cases h

theorem nodup_keys (m : SortedMap κ α) : m.keys.Nodup := by
  rw [keys, List.Nodup, List.pairwise_map]
  exact m.sorted.imp ne_of_compare_lt

/-- Two bindings of one key are equal. -/
theorem eq_of_mem_toList {m : SortedMap κ α} {k : κ} {a b : α} (ha : (k, a) ∈ m.toList)
    (hb : (k, b) ∈ m.toList) : a = b := by
  have hinj := List.inj_on_of_nodup_map m.nodup_keys ha hb rfl
  exact congrArg Prod.snd hinj

theorem get?_eq_some_iff {m : SortedMap κ α} {k : κ} {a : α} :
    m.get? k = some a ↔ (k, a) ∈ m.toList := by
  constructor
  · intro h
    obtain ⟨⟨k', a'⟩, hfind, rfl⟩ := Option.map_eq_some_iff.mp h
    have hk := List.find?_some hfind
    obtain rfl := Std.LawfulEqOrd.eq_of_compare (eq_of_beq hk)
    exact List.mem_of_find?_eq_some hfind
  · intro h
    cases hfind : m.toList.find? (fun b => compare b.1 k == .eq) with
    | none =>
      have := List.find?_eq_none.mp hfind (k, a) h
      simp [Std.ReflOrd.compare_self] at this
    | some b =>
      have hk := List.find?_some hfind
      have hb := List.mem_of_find?_eq_some hfind
      obtain ⟨k', a'⟩ := b
      obtain rfl := Std.LawfulEqOrd.eq_of_compare (eq_of_beq hk)
      simp [get?, hfind, eq_of_mem_toList hb h]

theorem get?_eq_none_iff {m : SortedMap κ α} {k : κ} :
    m.get? k = none ↔ ∀ a, (k, a) ∉ m.toList := by
  simp only [← get?_eq_some_iff, Option.eq_none_iff_forall_not_mem, Option.mem_def]

@[simp] theorem get?_filterMap (f : κ → α → Option β) (m : SortedMap κ α) (k : κ) :
    (m.filterMap f).get? k = (m.get? k).bind (f k) := by
  apply Option.ext
  intro b
  rw [get?_eq_some_iff, Option.bind_eq_some_iff]
  simp only [filterMap, List.mem_filterMap, Option.map_eq_some_iff, Prod.mk.injEq]
  constructor
  · rintro ⟨⟨k', a⟩, hmem, _, hf, rfl, rfl⟩
    exact ⟨a, get?_eq_some_iff.mpr hmem, hf⟩
  · rintro ⟨a, ha, hf⟩
    exact ⟨(k, a), get?_eq_some_iff.mp ha, b, hf, rfl, rfl⟩

@[simp] theorem get?_modify [DecidableEq κ] (m : SortedMap κ α) (k k' : κ) (f : α → α) :
    (m.modify k f).get? k' = if k' = k then (m.get? k').map f else m.get? k' := by
  rw [modify, get?_filterMap]
  by_cases hk : k' = k
  · subst hk
    cases m.get? k' <;> simp [Std.ReflOrd.compare_self]
  · have hcompare : compare k' k ≠ .eq := fun heq => hk (Std.LawfulEqOrd.eq_of_compare heq)
    simp [hk, hcompare]

/-- Maps that bind every key alike are equal. -/
theorem eq_of_get?_eq [Std.TransOrd κ] {m m' : SortedMap κ α} (h : ∀ k, m.get? k = m'.get? k) :
    m = m' := by
  have hnodup : ∀ m : SortedMap κ α, m.toList.Nodup := fun m => m.nodup_keys.of_map _
  have hperm : m.toList.Perm m'.toList := by
    refine (List.perm_ext_iff_of_nodup (hnodup m) (hnodup m')).mpr ?_
    rintro ⟨k, a⟩
    rw [← get?_eq_some_iff, ← get?_eq_some_iff, h]
  refine ext (hperm.eq_of_pairwise ?_ m.sorted m'.sorted)
  intro a b _ _ hab hba
  exact absurd rfl (ne_of_compare_lt (Std.TransCmp.lt_trans hab hba))

theorem erase_eq_self [Std.TransOrd κ] [DecidableEq κ] {m : SortedMap κ α} {k : κ}
    (h : m.get? k = none) : m.erase k = m := by
  refine eq_of_get?_eq fun k' => ?_
  rw [get?_erase]
  split
  · next heq => rw [heq, h]
  · rfl

theorem insert_erase [Std.TransOrd κ] [DecidableEq κ] (m : SortedMap κ α) (k : κ) (a : α) :
    (m.erase k).insert k a = m.insert k a := by
  refine eq_of_get?_eq fun k' => ?_
  rw [get?_insert, get?_insert, get?_erase]
  split <;> rfl

theorem mem_keys_iff {m : SortedMap κ α} {k : κ} : k ∈ m.keys ↔ ∃ a, m.get? k = some a := by
  simp only [keys, List.mem_map, get?_eq_some_iff]
  constructor
  · rintro ⟨⟨k', a⟩, h, rfl⟩
    exact ⟨a, h⟩
  · rintro ⟨a, h⟩
    exact ⟨(k, a), h, rfl⟩

omit [Std.LawfulEqOrd κ] in
theorem contains_iff {m : SortedMap κ α} {k : κ} : m.contains k = true ↔ ∃ a, m.get? k = some a :=
  Option.isSome_iff_exists

theorem contains_iff_mem_keys {m : SortedMap κ α} {k : κ} : m.contains k = true ↔ k ∈ m.keys :=
  contains_iff.trans mem_keys_iff.symm

@[simp] theorem contains_insert [Std.TransOrd κ] [DecidableEq κ] (m : SortedMap κ α) (k k' : κ)
    (a : α) : (m.insert k a).contains k' = true ↔ k' = k ∨ m.contains k' = true := by
  rw [contains, get?_insert]
  split
  · next heq => simp [heq]
  · next hne => simp [hne, contains]

@[simp] theorem contains_erase [DecidableEq κ] (m : SortedMap κ α) (k k' : κ) :
    (m.erase k).contains k' = true ↔ k' ≠ k ∧ m.contains k' = true := by
  rw [contains, get?_erase]
  split
  · next heq => simp [heq]
  · next hne => simp [hne, contains]

theorem size_erase_lt {m : SortedMap κ α} {k : κ} {a : α} (h : m.get? k = some a) :
    (m.erase k).size < m.size := by
  refine List.length_filter_lt_length_iff_exists.mpr ⟨(k, a), get?_eq_some_iff.mp h, ?_⟩
  simp [Std.ReflOrd.compare_self]

/-- A map without bindings is empty. -/
theorem isEmpty_of_get?_eq_none {m : SortedMap κ α} (h : ∀ k, m.get? k = none) :
    m.isEmpty = true := by
  rw [isEmpty, List.isEmpty_iff, List.eq_nil_iff_forall_not_mem]
  rintro ⟨k, a⟩ hmem
  exact get?_eq_none_iff.mp (h k) a hmem

/-- An empty map binds no key. -/
theorem get?_of_isEmpty {m : SortedMap κ α} (h : m.isEmpty = true) (k : κ) : m.get? k = none := by
  rw [isEmpty, List.isEmpty_iff] at h
  rw [get?_eq_none_iff, h]
  exact fun _ => List.not_mem_nil

theorem get?_of_get?_dropWhile {m : SortedMap κ α} {p : κ → Bool} {k : κ} {a : α}
    (h : (m.dropWhile p).get? k = some a) : m.get? k = some a :=
  get?_eq_some_iff.mpr ((List.dropWhile_sublist _).mem (get?_eq_some_iff.mp h))

/-- Bindings go from the front as long as their key has the property, and no others. -/
theorem get?_dropWhile_eq_some_iff {m : SortedMap κ α} {p : κ → Bool} {k : κ} {a : α}
    (hk : p k = false) : (m.dropWhile p).get? k = some a ↔ m.get? k = some a := by
  refine ⟨get?_of_get?_dropWhile, ?_⟩
  simp only [get?_eq_some_iff, dropWhile]
  intro h
  rw [← List.takeWhile_append_dropWhile (p := fun b => p b.1) (l := m.toList),
    List.mem_append] at h
  refine h.resolve_left fun hfront => ?_
  rw [List.all_eq_true.mp List.all_takeWhile _ hfront] at hk
  cases hk

omit [Std.LawfulEqOrd κ] in
/-- The first key that is left does not have the property. -/
theorem not_of_head?_keys_dropWhile {m : SortedMap κ α} {p : κ → Bool} {k : κ}
    (h : (m.dropWhile p).keys.head? = some k) : p k = false := by
  obtain ⟨b, hb, rfl⟩ := Option.map_eq_some_iff.mp (List.head?_map.symm.trans h)
  have hfirst := List.head?_dropWhile_not (fun b => p b.1) m.toList
  rw [dropWhile] at hb
  rw [hb] at hfirst
  exact hfirst

omit [Std.LawfulEqOrd κ] in
/-- A new binding is put between the others. -/
theorem perm_insertBinding {k : κ} {a : α} {l : List (κ × α)}
    (hnew : ∀ b ∈ l, compare k b.1 ≠ .eq) : (insertBinding k a l).Perm ((k, a) :: l) := by
  induction l with
  | nil => exact .refl _
  | cons b rest ih =>
    have hrest := ih fun c hc => hnew c (List.mem_cons_of_mem _ hc)
    unfold insertBinding
    split
    · exact .refl _
    · next heq => exact absurd heq (hnew b List.mem_cons_self)
    · exact (hrest.cons b).trans (.swap _ _ _)

theorem head?_keys_insert [Std.TransOrd κ] {m : SortedMap κ α} {k k' : κ}
    {a : α} (h : (m.insert k a).keys.head? = some k') : k' = k ∨ m.keys.head? = some k' := by
  obtain ⟨l, hsorted⟩ := m
  cases l with
  | nil => exact .inl (Option.some.inj h).symm
  | cons b rest =>
    simp only [keys, insert, insertBinding] at h
    split at h
    · exact .inl (Option.some.inj h).symm
    · exact .inl (Option.some.inj h).symm
    · exact .inr h

theorem perm_toList_insert [Std.TransOrd κ] {m : SortedMap κ α} {k : κ} (hnew : m.get? k = none)
    (a : α) : (m.insert k a).toList.Perm ((k, a) :: m.toList) := by
  refine perm_insertBinding fun b hb heq => ?_
  obtain rfl := Std.LawfulEqOrd.eq_of_compare heq
  exact get?_eq_none_iff.mp hnew b.2 hb

/-- A key that comes after all others is put at the end. -/
theorem toList_insert_of_lt [Std.TransOrd κ] {m : SortedMap κ α} {k : κ}
    (hlast : ∀ b ∈ m.toList, compare b.1 k = .lt) (a : α) :
    (m.insert k a).toList = m.toList ++ [(k, a)] := by
  obtain ⟨l, hsorted⟩ := m
  simp only [insert] at hlast ⊢
  clear hsorted
  induction l with
  | nil => rfl
  | cons b rest ih =>
    have hgt := Std.OrientedCmp.gt_of_lt (hlast b List.mem_cons_self)
    simp only [insertBinding, hgt, List.cons_append]
    rw [ih fun c hc => hlast c (List.mem_cons_of_mem _ hc)]

omit [Ord κ] [Std.LawfulEqOrd κ] in
/-- A search finds what it looks for wherever that stands, if no other member would do. -/
theorem find?_eq_some_iff_of_unique {l : List κ} {q : κ → Bool} {x : κ}
    (hunique : x ∈ l → q x = true → ∀ y ∈ l, q y = true → y = x) :
    l.find? q = some x ↔ x ∈ l ∧ q x = true := by
  constructor
  · intro hfind
    exact ⟨List.mem_of_find?_eq_some hfind, List.find?_some hfind⟩
  · rintro ⟨hx, hq⟩
    cases hfind : l.find? q with
    | none => exact absurd hq (List.find?_eq_none.mp hfind x hx)
    | some y => rw [hunique hx hq y (List.mem_of_find?_eq_some hfind) (List.find?_some hfind)]

omit [Std.LawfulEqOrd κ] in
/-- A search in key order stops at the smallest key. -/
theorem isLE_of_find?_eq_some [Std.TransOrd κ] {l : List (κ × α)} {q : κ × α → Bool}
    {b b' : κ × α} (hsorted : l.Pairwise fun a b => compare a.1 b.1 = .lt)
    (hfind : l.find? q = some b) (hb' : b' ∈ l) (hq : q b' = true) :
    (compare b.1 b'.1).isLE = true := by
  obtain ⟨-, before, after, rfl, hbefore⟩ := List.find?_eq_some_iff_append.mp hfind
  rw [List.pairwise_append, List.pairwise_cons] at hsorted
  rcases List.mem_append.mp hb' with hb' | hb'
  · have hnot := hbefore b' hb'
    rw [hq] at hnot
    cases hnot
  · rcases List.mem_cons.mp hb' with rfl | hb'
    · exact Std.ReflOrd.isLE_rfl
    · rw [hsorted.2.1.1 b' hb']
      rfl

omit [Std.LawfulEqOrd κ] in
/-- Bindings that are kept or dropped by their key. -/
theorem toList_filterMap_ite (m : SortedMap κ α) (drop : κ → Prop) [DecidablePred drop] :
    (m.filterMap fun k a => if drop k then none else some a).toList =
      m.toList.filter fun b => ¬ drop b.1 := by
  simp only [filterMap, ← List.filterMap_eq_filter]
  congr
  funext b
  by_cases h : drop b.1 <;> simp [h, Option.guard]

end NamedData.SortedMap
