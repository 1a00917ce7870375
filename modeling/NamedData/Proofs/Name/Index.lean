import NamedData.Name.Index
import NamedData.Proofs.SortedMap
import Mathlib.Data.List.Induction
import Mathlib.Logic.Function.Basic

/-!
# Asking a table for the prefixes of a name

The prefixes of a name are listed from the root to the full name, each one component longer than
the one before. A query looks up each of them, so it misses no entry whose name is a prefix and
finds no other, however many entries there are and whatever changes have led to them. Asking from
the end, the first prefix that has an entry is the longest.

## Main definitions

* `NameIndex.Call`, a change to a table, with `perform`, what it does to the table, and `onMap`,
  what it does to a plain map from names to values
* `NameIndex.AnswersAs`, the queries are answered from such a map

## Main statements

* `Name.pairwise_size_prefixes`
* `NameIndex.longestPrefixMatch_eq_some_iff`, `NameIndex.longestPrefixMatch_eq_none_iff`
* `NameIndex.get?_perform`, one change, and `NameIndex.answersAs_after`, any sequence of them
-/
namespace NamedData

namespace Name

variable {n : Name}

@[simp] theorem isRoot_iff : n.isRoot = true ↔ n = root := by
  cases n
  simp [isRoot, root]

theorem root_isPrefixOf (n : Name) : root.IsPrefixOf n := List.nil_prefix

/-- Each prefix of a name is shorter than those after it. -/
theorem pairwise_size_prefixes (n : Name) : n.prefixes.Pairwise fun p q => p.size < q.size := by
  rw [prefixes, List.pairwise_map]
  refine List.pairwise_lt_range.imp_of_mem ?_
  intro k k' hk hk' hlt
  simp only [List.mem_range, size] at hk hk'
  simp only [size, take, List.length_take]
  omega

/-- A name has one prefix of each size. -/
theorem IsPrefixOf.eq_of_size_eq {p q : Name} (hp : p.IsPrefixOf n) (hq : q.IsPrefixOf n)
    (hsize : p.size = q.size) : p = q := by
  have hpq := List.prefix_of_prefix_length_le hp hq (Nat.le_of_eq hsize)
  exact congrArg Name.mk (hpq.eq_of_length hsize)

end Name

namespace NameIndex

universe u

variable {α : Type u} {t : NameIndex α} {n p : Name} {a : α}

/-! ## Queries -/

theorem entry?_eq_some_iff {q : Name} : t.entry? q = some (p, a) ↔ q = p ∧ t.get? p = some a := by
  simp only [NameIndex.entry?, Option.map_eq_some_iff, Prod.mk.injEq]
  constructor
  · rintro ⟨_, hget, rfl, rfl⟩
    exact ⟨rfl, hget⟩
  · rintro ⟨rfl, hget⟩
    exact ⟨a, hget, rfl, rfl⟩

theorem mem_prefixMatches : (p, a) ∈ t.prefixMatches n ↔ p.IsPrefixOf n ∧ t.get? p = some a := by
  simp only [prefixMatches, List.mem_filterMap, entry?_eq_some_iff, Name.mem_prefixes]
  constructor
  · rintro ⟨_, hp, rfl, hget⟩
    exact ⟨hp, hget⟩
  · rintro ⟨hp, hget⟩
    exact ⟨p, hp, rfl, hget⟩

/-- The entries are found in the order of the prefixes. -/
theorem pairwise_size_prefixMatches (t : NameIndex α) (n : Name) :
    (t.prefixMatches n).Pairwise fun b c => b.1.size < c.1.size := by
  refine n.pairwise_size_prefixes.filterMap _ ?_
  rintro p q hlt ⟨p', a⟩ ha ⟨q', b⟩ hb
  obtain ⟨rfl, -⟩ := entry?_eq_some_iff.mp ha
  obtain ⟨rfl, -⟩ := entry?_eq_some_iff.mp hb
  exact hlt

/-- Both queries look up the same prefixes, from either end. -/
theorem longestPrefixMatch_eq_getLast? (t : NameIndex α) (n : Name) :
    t.longestPrefixMatch n = (t.prefixMatches n).getLast? :=
  List.getLast?_filterMap.symm

theorem longestPrefixMatch_eq_none_iff :
    t.longestPrefixMatch n = none ↔ ∀ p, p.IsPrefixOf n → t.get? p = none := by
  simp [longestPrefixMatch, entry?, Name.mem_prefixes]

/-- What is found is an entry, and no longer prefix has one. -/
theorem of_longestPrefixMatch (h : t.longestPrefixMatch n = some (p, a)) :
    p.IsPrefixOf n ∧ t.get? p = some a ∧
      ∀ q b, q.IsPrefixOf n → t.get? q = some b → q.size ≤ p.size := by
  rw [longestPrefixMatch_eq_getLast?] at h
  obtain ⟨hp, hget⟩ := mem_prefixMatches.mp (List.mem_of_getLast? h)
  refine ⟨hp, hget, fun q b hq hgetq => ?_⟩
  obtain ⟨shorter, hlist⟩ := List.getLast?_eq_some_iff.mp h
  have hmem : (q, b) ∈ shorter ++ [(p, a)] := hlist ▸ mem_prefixMatches.mpr ⟨hq, hgetq⟩
  have hsizes := t.pairwise_size_prefixMatches n
  rw [hlist, List.pairwise_append] at hsizes
  rcases List.mem_append.mp hmem with hshorter | hlast
  · exact Nat.le_of_lt (hsizes.2.2 _ hshorter _ List.mem_cons_self)
  · cases List.mem_singleton.mp hlast
    exact Nat.le_refl _

/-- **The longest prefix** that has an entry is found. -/
theorem longestPrefixMatch_eq_some_iff :
    t.longestPrefixMatch n = some (p, a) ↔
      p.IsPrefixOf n ∧ t.get? p = some a ∧
        ∀ q b, q.IsPrefixOf n → t.get? q = some b → q.size ≤ p.size := by
  refine ⟨of_longestPrefixMatch, ?_⟩
  rintro ⟨hp, hget, hlongest⟩
  cases hfound : t.longestPrefixMatch n with
  | none =>
    rw [longestPrefixMatch_eq_none_iff.mp hfound p hp] at hget
    cases hget
  | some found =>
    obtain ⟨p', a'⟩ := found
    obtain ⟨hp', hget', hlongest'⟩ := of_longestPrefixMatch hfound
    have hsize := Nat.le_antisymm (hlongest p' a' hp' hget') (hlongest' p a hp hget)
    obtain rfl := hp'.eq_of_size_eq hp hsize
    rw [hget'] at hget
    rw [Option.some.inj hget]

/-! ## Changes -/

/-- A change to a table. -/
inductive Call (α : Type u)
  | insert (n : Name) (a : α)
  | remove (n : Name)
  /-- The value under `n`, if there is one, is changed in its place. -/
  | update (n : Name) (f : α → α)
  /-- Every entry is visited once, in whatever order, and `f` says what becomes of each: the value
  that it has from then on, or none if it goes. -/
  | retain (f : Name → α → Option α)

namespace Call

def perform : Call α → NameIndex α → NameIndex α
  | insert n a, t => SortedMap.insert t n a
  | remove n, t => SortedMap.erase t n
  | update n f, t => SortedMap.modify t n f
  | retain f, t => SortedMap.filterMap f t

/-- What the call means for a map from names to values. -/
def onMap : Call α → (Name → Option α) → Name → Option α
  | insert n a, m => Function.update m n (some a)
  | remove n, m => Function.update m n none
  | update n f, m => Function.update m n ((m n).map f)
  | retain f, m => fun p => (m p).bind (f p)

end Call

/-- **One change** does to the lookup what it means for a map. -/
theorem get?_perform (c : Call α) (t : NameIndex α) : (c.perform t).get? = c.onMap t.get? := by
  funext p
  cases c with
  | insert n a => simp [Call.perform, Call.onMap, Function.update_apply]
  | remove n => simp [Call.perform, Call.onMap, Function.update_apply]
  | update n f =>
    simp only [Call.perform, Call.onMap, Function.update_apply, SortedMap.get?_modify]
    split
    · next heq => rw [heq]
    · rfl
  | retain f => simp [Call.perform, Call.onMap]

/-- The table after the calls, which was empty before. -/
def after (calls : List (Call α)) : NameIndex α := calls.foldl (fun t c => c.perform t) ∅

/-- The map that the calls describe. -/
def mapAfter (calls : List (Call α)) : Name → Option α :=
  calls.foldl (fun m c => c.onMap m) fun _ => none

theorem get?_after (calls : List (Call α)) : (after calls).get? = mapAfter calls := by
  induction calls using List.reverseRecOn with
  | nil => rfl
  | append_singleton calls c ih =>
    rw [after, List.foldl_concat, ← after, get?_perform, ih, mapAfter, mapAfter, List.foldl_concat]

/-- The table has the entries of the map `m`, and its queries are answered from them. -/
structure AnswersAs (m : Name → Option α) (t : NameIndex α) : Prop where
  mem_toList_iff : ∀ p a, (p, a) ∈ t.toList ↔ m p = some a
  /-- All entries under prefixes of a name are found, and no others. -/
  mem_prefixMatches_iff :
    ∀ n p a, (p, a) ∈ t.prefixMatches n ↔ p.IsPrefixOf n ∧ m p = some a
  /-- They come in the order of their length, and so each of them once. -/
  sizes_lt : ∀ n, (t.prefixMatches n).Pairwise fun b c => b.1.size < c.1.size
  /-- The last one, if there is one, is the answer to the other query. -/
  longestPrefixMatch_eq : ∀ n, t.longestPrefixMatch n = (t.prefixMatches n).getLast?

/-- **Queries by prefix** after any sequence of changes. -/
theorem answersAs_after (calls : List (Call α)) : AnswersAs (mapAfter calls) (after calls) where
  mem_toList_iff p a := by rw [← SortedMap.get?_eq_some_iff, get?_after]
  mem_prefixMatches_iff n p a := by rw [mem_prefixMatches, get?_after]
  sizes_lt := pairwise_size_prefixMatches _
  longestPrefixMatch_eq := longestPrefixMatch_eq_getLast? _

end NameIndex

end NamedData
