import NamedData.ContentStore
import NamedData.Proofs.Name.Order
import NamedData.Proofs.SortedMap

/-!
# What the content store finds

An Interest that takes longer names is looked up by a scan, which starts at the name of the
Interest and stops at the first name that does not extend it. Names are ordered so that the
extensions of a name come directly after it, so the scan misses none of them.

## Main statements

* `ContentStore.extensions_eq`: the scan goes through the stored extensions of the name
* `ContentStore.isSome_lookup`: stored Data that may answer is enough for an answer
* `ContentStore.of_lookup`: the answer is the stored Data of the smallest name that may answer
-/
namespace NamedData

namespace ContentStore

variable {cs : ContentStore} {i : Interest} {d : Data} {now : Instant} {c : Entry} {n : Name}

/-- The scan for an Interest goes through the stored extensions of its name. -/
theorem extensions_eq (cs : ContentStore) (n : Name) :
    (cs.entries.bindingsFrom n).takeWhile (fun b => n.IsPrefixOf b.1) =
      cs.entries.toList.filter fun b => n.IsPrefixOf b.1 :=
  Name.takeWhile_dropWhile_eq_filter cs.entries.sorted n

theorem mem_extensions (hget : cs.entries.get? n = some c) (hn : i.name.IsPrefixOf n) :
    (n, c) ∈ cs.entries.toList.filter fun b => i.name.IsPrefixOf b.1 :=
  List.mem_filter.mpr ⟨SortedMap.get?_eq_some_iff.mp hget, decide_eq_true hn⟩

/-- **Stored Data answers** an Interest that accepts it, unless it is stale and the Interest does
not take stale Data. The answer may be other Data. -/
theorem isSome_lookup (hget : cs.entries.get? d.name = some c) (haccepts : i.Accepts d)
    (hserves : c.Serves i now) : (cs.lookup i now).isSome := by
  unfold Interest.Accepts at haccepts
  unfold lookup
  cases hlonger : i.canBePrefix with
  | false =>
    rw [hlonger] at haccepts
    have hname : i.name = d.name := haccepts
    simp [hname, hget, hserves]
  | true =>
    rw [hlonger] at haccepts
    have hname : i.name.IsPrefixOf d.name := haccepts
    rw [if_pos rfl, extensions_eq, Option.isSome_map, List.find?_isSome]
    exact ⟨(d.name, c), mem_extensions hget hname, decide_eq_true hserves⟩

/-- **What is found** is stored Data that may answer, and no stored Data of a smaller name may. -/
theorem of_lookup (hname : ∀ {n c}, cs.entries.get? n = some c → c.data.name = n)
    (hlookup : cs.lookup i now = some c) :
    cs.entries.get? c.data.name = some c ∧ i.Accepts c.data ∧ c.Serves i now ∧
      ∀ n' c', cs.entries.get? n' = some c' → i.Accepts c'.data → c'.Serves i now →
        (compare c.data.name n').isLE = true := by
  unfold lookup at hlookup
  cases hlonger : i.canBePrefix with
  | false =>
    have haccepts : ∀ d, i.Accepts d ↔ i.name = d.name := fun d => by
      simp [Interest.Accepts, hlonger]
    rw [if_neg (by simp [hlonger])] at hlookup
    obtain ⟨hget, hserves⟩ := Option.filter_eq_some_iff.mp hlookup
    rw [hname hget, haccepts, hname hget]
    refine ⟨hget, rfl, of_decide_eq_true hserves, fun n' c' hget' haccepts' _ => ?_⟩
    rw [haccepts, hname hget'] at haccepts'
    rw [haccepts']
    exact Std.ReflOrd.isLE_rfl
  | true =>
    have haccepts : ∀ d, i.Accepts d ↔ i.name.IsPrefixOf d.name := fun d => by
      simp [Interest.Accepts, hlonger]
    rw [if_pos hlonger, extensions_eq, Option.map_eq_some_iff] at hlookup
    obtain ⟨⟨n, c⟩, hfind, rfl⟩ := hlookup
    obtain ⟨hbinding, hprefix⟩ := List.mem_filter.mp (List.mem_of_find?_eq_some hfind)
    have hserves := List.find?_some hfind
    rw [decide_eq_true_eq] at hserves hprefix
    have hget := SortedMap.get?_eq_some_iff.mpr hbinding
    rw [haccepts, hname hget]
    refine ⟨hget, hprefix, hserves, fun n' c' hget' haccepts' hserves' => ?_⟩
    rw [haccepts, hname hget'] at haccepts'
    have hsorted := cs.entries.sorted.filter fun b => i.name.IsPrefixOf b.1
    exact SortedMap.isLE_of_find?_eq_some hsorted hfind (mem_extensions hget' haccepts')
      (decide_eq_true hserves')

theorem isSome_find (hget : cs.entries.get? d.name = some c) (haccepts : i.Accepts d)
    (hserves : c.Serves i now) : (cs.find i now).1.isSome := by
  obtain ⟨c', hlookup⟩ := Option.isSome_iff_exists.mp (isSome_lookup hget haccepts hserves)
  rw [find, hlookup]
  rfl

end ContentStore

end NamedData
