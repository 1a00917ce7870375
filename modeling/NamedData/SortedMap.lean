/-!
# Finite maps in key order

A map is the list of its bindings in strictly increasing key order. The order makes
the list unique: two maps with the same bindings are equal, so whole tables can be
compared with `=`.

## Main definitions

* `SortedMap κ α`, with `get?`, `insert`, `erase`, `modify`, `filterMap` and `dropWhile`
* `SortedMap.bindingsFrom`, the bindings at or after a key

The main statements say what each operation does to `get?`.
-/
namespace NamedData

universe u v w

/-- A finite map from `κ` to `α`, kept as its bindings in strictly increasing key order. -/
structure SortedMap (κ : Type u) (α : Type v) [Ord κ] where
  /-- The bindings, smallest key first. -/
  toList : List (κ × α)
  sorted : toList.Pairwise fun a b => compare a.1 b.1 = .lt
deriving DecidableEq

namespace SortedMap

variable {κ : Type u} {α : Type v} {β : Type w} [Ord κ]

@[ext] theorem ext {m n : SortedMap κ α} (h : m.toList = n.toList) : m = n := by
  cases m; cases n; cases h; rfl

/-- The map without bindings. -/
def empty : SortedMap κ α := ⟨[], .nil⟩

instance : EmptyCollection (SortedMap κ α) := ⟨empty⟩
instance : Inhabited (SortedMap κ α) := ⟨empty⟩

/-- The number of bindings. -/
def size (m : SortedMap κ α) : Nat := m.toList.length

def isEmpty (m : SortedMap κ α) : Bool := m.toList.isEmpty

/-- The keys, smallest first. -/
def keys (m : SortedMap κ α) : List κ := m.toList.map Prod.fst

/-- The value bound to `k`, if any. -/
def get? (m : SortedMap κ α) (k : κ) : Option α :=
  (m.toList.find? fun b => compare b.1 k == .eq).map Prod.snd

def contains (m : SortedMap κ α) (k : κ) : Bool := (m.get? k).isSome

/-- Put a binding in its place, replacing a binding of the same key. -/
def insertBinding (k : κ) (a : α) : List (κ × α) → List (κ × α)
  | [] => [(k, a)]
  | b :: rest =>
    match compare k b.1 with
    | .lt => (k, a) :: b :: rest
    | .eq => (k, a) :: rest
    | .gt => b :: insertBinding k a rest

theorem mem_insertBinding {k : κ} {a : α} {l : List (κ × α)} {b : κ × α}
    (h : b ∈ insertBinding k a l) : b = (k, a) ∨ b ∈ l := by
  induction l with
  | nil => simpa [insertBinding] using h
  | cons c rest ih =>
    unfold insertBinding at h
    split at h <;> simp only [List.mem_cons] at h ⊢
    · exact h
    · rcases h with h | h
      · exact .inl h
      · exact .inr (.inr h)
    · rcases h with h | h
      · exact .inr (.inl h)
      · rcases ih h with h | h
        · exact .inl h
        · exact .inr (.inr h)

section Ordered

variable [Std.TransOrd κ] [Std.LawfulEqOrd κ]

theorem sorted_insertBinding (k : κ) (a : α) {l : List (κ × α)}
    (h : l.Pairwise fun a b => compare a.1 b.1 = .lt) :
    (insertBinding k a l).Pairwise fun a b => compare a.1 b.1 = .lt := by
  induction l with
  | nil => simp [insertBinding]
  | cons c rest ih =>
    obtain ⟨hc, hrest⟩ := List.pairwise_cons.mp h
    unfold insertBinding
    split
    · next hlt =>
      refine List.pairwise_cons.mpr ⟨?_, h⟩
      intro b hb
      rcases List.mem_cons.mp hb with rfl | hb
      · exact hlt
      · exact Std.TransCmp.lt_trans hlt (hc b hb)
    · next heq =>
      rw [Std.LawfulEqOrd.eq_of_compare heq]
      exact List.pairwise_cons.mpr ⟨hc, hrest⟩
    · next hgt =>
      refine List.pairwise_cons.mpr ⟨?_, ih hrest⟩
      intro b hb
      rcases mem_insertBinding hb with rfl | hb
      · exact Std.OrientedCmp.lt_of_gt hgt
      · exact hc b hb

/-- Bind `k` to `a`, replacing a binding it has. -/
def insert (m : SortedMap κ α) (k : κ) (a : α) : SortedMap κ α :=
  ⟨insertBinding k a m.toList, sorted_insertBinding k a m.sorted⟩

end Ordered

/-- Remove the binding of `k`, if there is one. -/
def erase (m : SortedMap κ α) (k : κ) : SortedMap κ α :=
  ⟨m.toList.filter fun b => compare b.1 k != .eq, m.sorted.filter _⟩

/-- Keep the bindings for which `f` yields a value, with that value. -/
def filterMap (f : κ → α → Option β) (m : SortedMap κ α) : SortedMap κ β where
  toList := m.toList.filterMap fun b => (f b.1 b.2).map (b.1, ·)
  sorted := by
    refine m.sorted.filterMap _ ?_
    intro a b hab c hc d hd
    obtain ⟨_, _, rfl⟩ := Option.map_eq_some_iff.mp hc
    obtain ⟨_, _, rfl⟩ := Option.map_eq_some_iff.mp hd
    exact hab

/-- Change the value bound to `k`, if there is one. -/
def modify (m : SortedMap κ α) (k : κ) (f : α → α) : SortedMap κ α :=
  m.filterMap fun k' a => some (if compare k' k == .eq then f a else a)

/-- Remove bindings from the front as long as their key has the property `p`. -/
def dropWhile (p : κ → Bool) (m : SortedMap κ α) : SortedMap κ α :=
  ⟨m.toList.dropWhile fun b => p b.1, m.sorted.sublist (List.dropWhile_sublist _)⟩

/-- The bindings whose key is `k` or comes after it, smallest first. -/
def bindingsFrom (m : SortedMap κ α) (k : κ) : List (κ × α) :=
  m.toList.dropWhile fun b => compare b.1 k == .lt

@[simp] theorem toList_empty : (∅ : SortedMap κ α).toList = [] := rfl
@[simp] theorem get?_empty (k : κ) : (∅ : SortedMap κ α).get? k = none := rfl

section Lookup

variable [DecidableEq κ] [Std.TransOrd κ] [Std.LawfulEqOrd κ]

theorem find?_insertBinding (k k' : κ) (a : α) {l : List (κ × α)}
    (h : l.Pairwise fun a b => compare a.1 b.1 = .lt) :
    ((insertBinding k a l).find? fun b => compare b.1 k' == .eq).map Prod.snd =
      if k' = k then some a else (l.find? fun b => compare b.1 k' == .eq).map Prod.snd := by
  induction l with
  | nil =>
    by_cases hk : k' = k
    · subst hk; simp [insertBinding]
    · have : compare k k' ≠ .eq := fun he => hk (Std.LawfulEqOrd.eq_of_compare he).symm
      simp [insertBinding, hk, this]
  | cons c rest ih =>
    obtain ⟨_, hrest⟩ := List.pairwise_cons.mp h
    by_cases hk : k' = k
    · subst hk
      unfold insertBinding
      split
      · simp
      · simp
      · next hgt =>
        have : compare c.1 k' ≠ .eq := by
          rw [Std.OrientedCmp.lt_of_gt hgt]; decide
        simpa [List.find?_cons, this] using ih hrest
    · have hne : compare k k' ≠ .eq := fun he => hk (Std.LawfulEqOrd.eq_of_compare he).symm
      unfold insertBinding
      split
      · simp [List.find?_cons, hne, hk]
      · next heq =>
        have hc : compare c.1 k' ≠ .eq := by
          rw [← Std.LawfulEqOrd.eq_of_compare heq]; exact hne
        simp [hne, hc, hk]
      · by_cases hc : compare c.1 k' = .eq
        · simp [hc, hk]
        · simpa [List.find?_cons, hc, hk] using ih hrest

@[simp] theorem get?_insert (m : SortedMap κ α) (k k' : κ) (a : α) :
    (m.insert k a).get? k' = if k' = k then some a else m.get? k' :=
  find?_insertBinding k k' a m.sorted

omit [Std.TransOrd κ] in
@[simp] theorem get?_erase (m : SortedMap κ α) (k k' : κ) :
    (m.erase k).get? k' = if k' = k then none else m.get? k' := by
  unfold get? erase
  by_cases hk : k' = k
  · subst hk
    have : (m.toList.filter fun b => compare b.1 k' != .eq).find?
        (fun b => compare b.1 k' == .eq) = none := by
      simp [List.find?_eq_none]
    simp [this]
  · have : ∀ b : κ × α, (compare b.1 k' == .eq) = true → (compare b.1 k != .eq) = true := by
      intro b hb
      have := Std.LawfulEqOrd.eq_of_compare (eq_of_beq hb)
      subst this
      simp only [bne_iff_ne, ne_eq]
      exact fun he => hk (Std.LawfulEqOrd.eq_of_compare he)
    simp only [hk, if_false, List.find?_filter]
    congr 2
    funext b
    cases hb : (compare b.1 k' == .eq)
    · simp
    · simp [this b hb]

end Lookup

end SortedMap

end NamedData
