import NamedData.Proofs.Fib.Entries
import NamedData.Proofs.Replay
import Mathlib.Data.Set.Card

/-!
# The forwarding base as a map of routes

A plain map says for every prefix and every face at what cost Interests may leave, if at all. The
forwarding base shows such a map: it has an entry for each prefix with a route, and one for the
root, and the next hops of an entry are the routes of its prefix, cheapest first.

## Main definitions

* `RouteMap`, and `Fib.Call`, a change to a base or to a plain map
* `Fib.Mirrors`
* `Fib.after`, `Fib.routesAfter`, the base and the plain map after a sequence of changes
* `Fib.Announced`, the next hops that were added and neither changed nor removed since
* `Fib.ShowsRoutes`, what a base shows of a plain map

## Main statements

* `Fib.Mirrors.perform`, one change
* `Fib.Mirrors.removeFace_eq`, a face is withdrawn prefix by prefix, or at once
* `Fib.showsRoutes_after`, any sequence of changes
-/
namespace NamedData

/-- At what cost Interests under a prefix may leave through a face, if they may. -/
abbrev RouteMap := Name → FaceId → Option UInt64

/-- There is a route for the prefix. -/
def RouteMap.HasRoute (r : RouteMap) (n : Name) : Prop := ∃ f cost, r n f = some cost

namespace Fib

variable {fib : Fib} {r : RouteMap} {n : Name} {f : FaceId} {cost : UInt64}

/-! ## Changes -/

/-- A change to the routes. -/
inductive Call
  | add (n : Name) (f : FaceId) (cost : UInt64)
  | remove (n : Name) (f : FaceId)
  | removeFace (f : FaceId)

namespace Call

def perform : Call → Fib → Fib
  | .add n f cost, fib => fib.addNextHop n f cost
  | .remove n f, fib => (fib.removeNextHop n f).2
  | .removeFace f, fib => fib.removeFace f

/-- The same change to a plain map. -/
def onMap : Call → RouteMap → RouteMap
  | .add n f cost, r => fun n' f' => if n' = n ∧ f' = f then some cost else r n' f'
  | .remove n f, r => fun n' f' => if n' = n ∧ f' = f then none else r n' f'
  | .removeFace f, r => fun n' f' => if f' = f then none else r n' f'

end Call

/-! ## One change -/

/-- The base has the routes of the plain map, in valid lists. -/
structure Mirrors (fib : Fib) (r : RouteMap) : Prop where
  wellFormed : fib.WellFormed
  valid : ∀ n, (fib.nextHops n).Valid
  mem_iff : ∀ {n hop}, hop ∈ fib.nextHops n ↔ r n hop.face = some hop.cost

theorem nextHops_empty (n : Name) : empty.nextHops n = [] := by
  by_cases hroot : n = .root
  · rw [hroot]
    rfl
  · rw [nextHops_of_ne _ hroot]
    rfl

theorem mirrors_empty : empty.Mirrors fun _ _ => none where
  wellFormed := wellFormed_empty
  valid n := nextHops_empty n ▸ NextHops.valid_nil
  mem_iff := by simp [nextHops_empty]

namespace Mirrors

theorem addNextHop (m : fib.Mirrors r) (n : Name) (f : FaceId) (cost : UInt64) :
    (fib.addNextHop n f cost).Mirrors ((Call.add n f cost).onMap r) where
  wellFormed := wellFormed_addNextHop m.wellFormed n f cost
  valid n' := by
    rw [nextHops_addNextHop]
    split
    · exact NextHops.valid_set (m.valid n) f cost
    · exact m.valid n'
  mem_iff := by
    intro n' hop
    rw [nextHops_addNextHop]
    simp only [Call.onMap]
    by_cases hn : n' = n
    · subst hn
      rw [if_pos rfl, NextHops.mem_set, m.mem_iff]
      obtain ⟨f', cost'⟩ := hop
      by_cases hf : f' = f <;> simp [hf, @eq_comm _ cost' cost]
    · simp [hn, m.mem_iff]

theorem removeNextHop (m : fib.Mirrors r) (n : Name) (f : FaceId) :
    (fib.removeNextHop n f).2.Mirrors ((Call.remove n f).onMap r) where
  wellFormed := wellFormed_removeNextHop m.wellFormed n f
  valid n' := by
    rw [nextHops_removeNextHop]
    split
    · exact NextHops.valid_without (m.valid n) f
    · exact m.valid n'
  mem_iff := by
    intro n' hop
    rw [nextHops_removeNextHop]
    simp only [Call.onMap]
    by_cases hn : n' = n
    · subst hn
      rw [if_pos rfl, NextHops.mem_without, m.mem_iff]
      by_cases hf : hop.face = f <;> simp [hf]
    · simp [hn, m.mem_iff]

theorem removeFace (m : fib.Mirrors r) (f : FaceId) :
    (fib.removeFace f).Mirrors ((Call.removeFace f).onMap r) where
  wellFormed := wellFormed_removeFace m.wellFormed f
  valid n := by
    rw [nextHops_removeFace]
    exact NextHops.valid_without (m.valid n) f
  mem_iff := by
    intro n hop
    rw [nextHops_removeFace, NextHops.mem_without, m.mem_iff]
    simp only [Call.onMap]
    by_cases hf : hop.face = f <;> simp [hf]

/-- **One change** does the same to the base and to the plain map. -/
theorem perform (m : fib.Mirrors r) (c : Call) : (c.perform fib).Mirrors (c.onMap r) := by
  cases c with
  | add n f cost => exact m.addNextHop n f cost
  | remove n f => exact m.removeNextHop n f
  | removeFace f => exact m.removeFace f

/-! ## What a base shows -/

theorem hasRoute_iff (m : fib.Mirrors r) : r.HasRoute n ↔ fib.nextHops n ≠ [] := by
  constructor
  · rintro ⟨f, cost, hroute⟩
    have hmem : ⟨f, cost⟩ ∈ fib.nextHops n := m.mem_iff.mpr hroute
    exact List.ne_nil_of_mem hmem
  · intro hne
    obtain ⟨hop, hmem⟩ := List.exists_mem_of_ne_nil _ hne
    exact ⟨hop.face, hop.cost, m.mem_iff.mp hmem⟩

theorem has_iff (m : fib.Mirrors r) : (fib.nextHops n).Has f ↔ ∃ cost, r n f = some cost := by
  constructor
  · rintro ⟨hop, hmem, rfl⟩
    exact ⟨hop.cost, m.mem_iff.mp hmem⟩
  · rintro ⟨cost, hroute⟩
    exact ⟨⟨f, cost⟩, m.mem_iff.mpr hroute, rfl⟩

theorem get?_eq_some_iff (m : fib.Mirrors r) {e : Entry} :
    fib.routes.get? n = some e ↔ e = ⟨n, fib.nextHops n⟩ ∧ n ≠ .root ∧ r.HasRoute n := by
  rw [m.hasRoute_iff]
  by_cases hroot : n = .root
  · rw [hroot, m.wellFormed.get?_root]
    simp
  · rw [m.wellFormed.get?_eq_some_iff hroot, and_iff_right hroot]

theorem root_eq (m : fib.Mirrors r) : fib.root = ⟨.root, fib.nextHops .root⟩ := by
  rw [nextHops_root, ← m.wellFormed.name_root]

/-- There is an entry for the root and for each prefix with a route. -/
theorem find?_eq_some_iff (m : fib.Mirrors r) {e : Entry} :
    fib.find? n = some e ↔ e = ⟨n, fib.nextHops n⟩ ∧ (n = .root ∨ r.HasRoute n) := by
  by_cases hroot : n = .root
  · subst hroot
    have hfind : fib.find? .root = some fib.root := rfl
    rw [hfind, Option.some.injEq, m.root_eq, @eq_comm _ _ e]
    simp
  · have hfind : fib.find? n = fib.routes.get? n := if_neg (by simpa using hroot)
    rw [hfind, m.get?_eq_some_iff, or_iff_right hroot, and_iff_right hroot]

/-- The entries are those that can be found by their prefix. -/
theorem mem_entries_iff (m : fib.Mirrors r) {e : Entry} :
    e ∈ fib.entries ↔ fib.find? e.name = some e := by
  rw [m.find?_eq_some_iff, entries, List.mem_cons, List.mem_map]
  constructor
  · rintro (rfl | ⟨⟨n, e⟩, hmem, rfl⟩)
    · rw [m.root_eq]
      exact ⟨rfl, .inl rfl⟩
    · obtain ⟨rfl, -, hroute⟩ := m.get?_eq_some_iff.mp (SortedMap.get?_eq_some_iff.mpr hmem)
      exact ⟨rfl, .inr hroute⟩
  · rintro ⟨he, hcover⟩
    by_cases hroot : e.name = .root
    · left
      rw [he, hroot, m.root_eq]
    · refine .inr ⟨(e.name, e), ?_, rfl⟩
      exact SortedMap.get?_eq_some_iff.mp
        (m.get?_eq_some_iff.mpr ⟨he, hroot, hcover.resolve_left hroot⟩)

theorem nodup_entries (m : fib.Mirrors r) : (fib.entries.map Entry.name).Nodup := by
  have hnames : fib.entries.map Entry.name = .root :: fib.routes.keys := by
    rw [entries, List.map_cons, m.wellFormed.name_root, List.map_map, SortedMap.keys]
    refine congrArg _ (List.map_congr_left fun b hb => ?_)
    exact m.wellFormed.name_eq (SortedMap.get?_eq_some_iff.mpr hb)
  rw [hnames, List.nodup_cons]
  refine ⟨?_, SortedMap.nodup_keys _⟩
  simp [SortedMap.mem_keys_iff, m.wellFormed.get?_root]

theorem size_eq (m : fib.Mirrors r) : fib.size = {n | n ≠ .root ∧ r.HasRoute n}.ncard + 1 := by
  have hset : {n | n ≠ .root ∧ r.HasRoute n} = ↑fib.routes.keys.toFinset := by
    ext n
    simp [SortedMap.mem_keys_iff, m.get?_eq_some_iff]
  rw [hset, Set.ncard_coe_finset, List.toFinset_card_of_nodup (SortedMap.nodup_keys _),
    SortedMap.keys, List.length_map]
  rfl

/-- Withdrawing a next hop tells whether there was one. -/
theorem removeNextHop_iff (m : fib.Mirrors r) :
    (fib.removeNextHop n f).1 = true ↔ ∃ cost, r n f = some cost := by
  have hbase : (fib.removeNextHop n f).1 = true ↔ (fib.nextHops n).Has f := by
    by_cases hroot : n = .root
    · subst hroot
      exact Entry.removeNextHop_iff
    · rw [Fib.removeNextHop, if_neg (by simpa using hroot), nextHops_of_ne fib hroot]
      cases fib.routes.get? n with
      | none => simp [NextHops.Has]
      | some e =>
        refine Iff.trans ?_ Entry.removeNextHop_iff
        dsimp only
        cases (e.removeNextHop f).2.nonempty? <;> rfl
  rw [hbase, m.has_iff]

/-- The entry that decides for a name is that of its longest prefix with a route, or the root's. -/
theorem longestPrefixMatch_spec (m : fib.Mirrors r) (n : Name) :
    let e := fib.longestPrefixMatch n
    fib.find? e.name = some e ∧ e.name.IsPrefixOf n ∧
      ∀ p, p.IsPrefixOf n → p ≠ .root → r.HasRoute p → p.size ≤ e.name.size := by
  cases hfound : fib.routes.longestPrefixMatch n with
  | none =>
    have he : fib.longestPrefixMatch n = fib.root := by rw [longestPrefixMatch, hfound]
    rw [he]
    dsimp only
    rw [m.wellFormed.name_root]
    refine ⟨rfl, n.root_isPrefixOf, fun p hp hne hroute => ?_⟩
    have hget := NameIndex.longestPrefixMatch_eq_none_iff.mp hfound p hp
    rw [m.get?_eq_some_iff.mpr ⟨rfl, hne, hroute⟩] at hget
    cases hget
  | some found =>
    obtain ⟨p, e⟩ := found
    have he : fib.longestPrefixMatch n = e := by rw [longestPrefixMatch, hfound]
    obtain ⟨hp, hget, hlongest⟩ := NameIndex.of_longestPrefixMatch hfound
    obtain ⟨rfl, -, hroute⟩ := m.get?_eq_some_iff.mp hget
    rw [he]
    refine ⟨m.find?_eq_some_iff.mpr ⟨rfl, .inr hroute⟩, hp, fun q hq hne hroute' => ?_⟩
    exact hlongest q _ hq (m.get?_eq_some_iff.mpr ⟨rfl, hne, hroute'⟩)

end Mirrors

/-! ## Withdrawing a face prefix by prefix -/

theorem wellFormed_foldl_removeNextHop (wf : fib.WellFormed) (f : FaceId) (names : List Name) :
    (names.foldl (fun fib n => (fib.removeNextHop n f).2) fib).WellFormed := by
  induction names generalizing fib with
  | nil => exact wf
  | cons n rest ih => exact ih (wellFormed_removeNextHop wf n f)

theorem nextHops_foldl_removeNextHop (fib : Fib) (f : FaceId) (names : List Name) (n : Name) :
    (names.foldl (fun fib n => (fib.removeNextHop n f).2) fib).nextHops n =
      if n ∈ names then (fib.nextHops n).without f else fib.nextHops n := by
  induction names generalizing fib with
  | nil => rfl
  | cons n' rest ih =>
    rw [List.foldl_cons, ih, nextHops_removeNextHop]
    by_cases hn : n = n' <;> by_cases hrest : n ∈ rest <;> simp [hn, hrest]

/-- **Withdrawing a face** from every prefix that has a route through it withdraws it from the
base, whatever the order of the prefixes. -/
theorem Mirrors.removeFace_eq (m : fib.Mirrors r) {names : List Name}
    (hnames : ∀ n cost, r n f = some cost → n ∈ names) :
    names.foldl (fun fib n => (fib.removeNextHop n f).2) fib = fib.removeFace f := by
  refine ext_nextHops (wellFormed_foldl_removeNextHop m.wellFormed f names)
    (wellFormed_removeFace m.wellFormed f) fun n => ?_
  rw [nextHops_foldl_removeNextHop, nextHops_removeFace]
  split
  · rfl
  · next hnot =>
    refine (NextHops.without_eq_self fun hhas => hnot ?_).symm
    obtain ⟨cost, hroute⟩ := m.has_iff.mp hhas
    exact hnames n cost hroute

/-! ## Sequences of changes -/

section Calls

variable {calls : List Call} {c : Call}

/-- The base after the changes. -/
def after (calls : List Call) : Fib := calls.foldl (fun fib c => c.perform fib) empty

/-- The plain map after the changes. -/
def routesAfter (calls : List Call) : RouteMap := calls.foldl (fun r c => c.onMap r) fun _ _ => none

/-- The change says whether Interests under the prefix may leave through the face. -/
def Call.Concerns (n : Name) (f : FaceId) : Call → Prop
  | .add n' f' _ | .remove n' f' => n' = n ∧ f' = f
  | .removeFace f' => f' = f

/-- One of the changes added the next hop with the cost, and none changed or removed it since. -/
def Announced (calls : List Call) (n : Name) (f : FaceId) (cost : UInt64) : Prop :=
  ∃ earlier later, calls = earlier ++ .add n f cost :: later ∧ ∀ c ∈ later, ¬ c.Concerns n f

theorem Call.onMap_eq_some_iff : c.onMap r n f = some cost ↔
    c = .add n f cost ∨ ¬ c.Concerns n f ∧ r n f = some cost := by
  cases c with
  | add n' f' cost' =>
    simp only [onMap, Concerns, Call.add.injEq, @eq_comm _ n, @eq_comm _ f]
    by_cases h : n' = n ∧ f' = f
    · simp [h]
    · simp [h, ← and_assoc]
  | remove n' f' =>
    simp only [onMap, Concerns, @eq_comm _ n, @eq_comm _ f]
    by_cases h : n' = n ∧ f' = f <;> simp [h]
  | removeFace f' =>
    simp only [onMap, Concerns, @eq_comm _ f]
    by_cases h : f' = f <;> simp [h]

theorem announced_concat : Announced (calls ++ [c]) n f cost ↔
    c = .add n f cost ∨ ¬ c.Concerns n f ∧ Announced calls n f cost := by
  constructor
  · rintro ⟨earlier, later, heq, hlater⟩
    rcases concat_eq_append_cons_iff.mp heq with ⟨-, -, rfl⟩ | ⟨rest, rfl, rfl⟩
    · exact .inl rfl
    · refine .inr ⟨hlater c (by simp), earlier, rest, rfl, ?_⟩
      exact fun c' hc' => hlater c' (List.mem_append_left _ hc')
  · rintro (rfl | ⟨hc, earlier, later, rfl, hlater⟩)
    · exact ⟨calls, [], rfl, List.forall_mem_nil _⟩
    · refine ⟨earlier, later ++ [c], by simp, ?_⟩
      rw [List.forall_mem_append, List.forall_mem_singleton]
      exact ⟨hlater, hc⟩

/-- **In the plain map** is what was added and neither changed nor removed since. -/
theorem routesAfter_eq_some_iff : routesAfter calls n f = some cost ↔ Announced calls n f cost := by
  induction calls using List.reverseRecOn with
  | nil =>
    constructor
    · exact nofun
    · rintro ⟨earlier, _, heq, _⟩
      exact absurd heq.symm (List.append_ne_nil_of_right_ne_nil earlier (List.cons_ne_nil _ _))
  | append_singleton calls c ih =>
    rw [announced_concat, ← ih, routesAfter, List.foldl_concat, Call.onMap_eq_some_iff]
    rfl

theorem mirrors_after (calls : List Call) : (after calls).Mirrors (routesAfter calls) := by
  induction calls using List.reverseRecOn with
  | nil => exact mirrors_empty
  | append_singleton calls c ih =>
    rw [after, routesAfter, List.foldl_concat, List.foldl_concat]
    exact ih.perform c

end Calls

/-- What a base shows of a plain map. -/
structure ShowsRoutes (fib : Fib) (r : RouteMap) : Prop where
  /-- There is an entry for the root and for each prefix with a route. -/
  find?_isSome_iff : ∀ n, (fib.find? n).isSome ↔ n = .root ∨ r.HasRoute n
  /-- Its next hops are the routes of the prefix, each face once, the cheapest first. -/
  find?_spec : ∀ n, ∀ e ∈ fib.find? n, e.name = n ∧ e.nextHops.Valid ∧
    ∀ hop, hop ∈ e.nextHops ↔ r n hop.face = some hop.cost
  /-- The entry that decides for a name is that of its longest prefix with a route, or the
  root's. -/
  longestPrefixMatch_spec : ∀ n, let e := fib.longestPrefixMatch n
    fib.find? e.name = some e ∧ e.name.IsPrefixOf n ∧
      ∀ p, p.IsPrefixOf n → p ≠ .root → r.HasRoute p → p.size ≤ e.name.size
  /-- Withdrawing a next hop tells whether there was one. -/
  removeNextHop_iff : ∀ n f, (fib.removeNextHop n f).1 = true ↔ ∃ cost, r n f = some cost
  /-- A face can be withdrawn prefix by prefix, in any order. -/
  removeFace_eq : ∀ f (names : List Name), (∀ n cost, r n f = some cost → n ∈ names) →
    names.foldl (fun fib n => (fib.removeNextHop n f).2) fib = fib.removeFace f
  size_eq : fib.size = {n | n ≠ .root ∧ r.HasRoute n}.ncard + 1
  /-- Each entry is listed once. -/
  nodup_entries : (fib.entries.map Entry.name).Nodup
  mem_entries_iff : ∀ e, e ∈ fib.entries ↔ fib.find? e.name = some e

theorem Mirrors.showsRoutes (m : fib.Mirrors r) : fib.ShowsRoutes r where
  find?_isSome_iff n := by simp [Option.isSome_iff_exists, m.find?_eq_some_iff]
  find?_spec n e he := by
    obtain ⟨rfl, -⟩ := m.find?_eq_some_iff.mp he
    exact ⟨rfl, m.valid n, fun _ => m.mem_iff⟩
  longestPrefixMatch_spec := m.longestPrefixMatch_spec
  removeNextHop_iff _ _ := m.removeNextHop_iff
  removeFace_eq _ _ hnames := m.removeFace_eq hnames
  size_eq := m.size_eq
  nodup_entries := m.nodup_entries
  mem_entries_iff _ := m.mem_entries_iff

/-- **A forwarding base shows the routes** that were announced and not withdrawn since, whatever
changes were made in whatever order. -/
theorem showsRoutes_after (calls : List Call) :
    (after calls).ShowsRoutes (routesAfter calls) ∧
      ∀ n f cost, routesAfter calls n f = some cost ↔ Announced calls n f cost :=
  ⟨(mirrors_after calls).showsRoutes, fun _ _ _ => routesAfter_eq_some_iff⟩

end Fib

end NamedData
