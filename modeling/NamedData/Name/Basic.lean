/-!
# Names

A name is a sequence of components, and a component is a string of bytes, possibly
empty. Names are ordered component by component, so that every name comes directly
before its extensions.

## Main definitions

* `Component`, `Name`, with the order `compare`
* `Name.IsPrefixOf`, the prefix relation, and `Name.prefixes`
* `Name.IsLocalhost` and `Name.IsLocalhop`, the two scopes that a first component sets
-/
namespace NamedData

/-- One component of a name: a string of bytes. -/
structure Component where
  bytes : List UInt8
deriving DecidableEq, Inhabited

namespace Component

instance : Ord Component := ⟨compareOn bytes⟩

instance : Std.TransOrd Component := inferInstanceAs (Std.TransCmp (compareOn bytes))

instance : Std.LawfulEqOrd Component where
  eq_of_compare {a b} h := by
    cases a; cases b
    exact congrArg _ (Std.LawfulEqOrd.eq_of_compare h)

/-- The component that holds the text `s` in UTF-8. -/
def ofChars (s : List Char) : Component := ⟨s.flatMap String.utf8EncodeChar⟩

end Component

/-- A hierarchical name. -/
structure Name where
  components : List Component
deriving DecidableEq, Inhabited

namespace Name

instance : Ord Name := ⟨compareOn components⟩

instance : Std.TransOrd Name := inferInstanceAs (Std.TransCmp (compareOn components))

instance : Std.LawfulEqOrd Name where
  eq_of_compare {a b} h := by
    cases a; cases b
    exact congrArg _ (Std.LawfulEqOrd.eq_of_compare h)

/-- The name without components. -/
def root : Name := ⟨[]⟩

/-- The number of components. -/
def size (n : Name) : Nat := n.components.length

def isRoot (n : Name) : Bool := n.components.isEmpty

/-- The component at position `i`, counted from 0. -/
def get? (n : Name) (i : Nat) : Option Component := n.components[i]?

/-- The name `n` with one more component. -/
def append (n : Name) (c : Component) : Name := ⟨n.components ++ [c]⟩

/-- The first `k` components of `n`, or all of them if it has fewer. -/
def take (n : Name) (k : Nat) : Name := ⟨n.components.take k⟩

/-- The name `b` starts with the components of `a`. Every name is a prefix of itself. -/
def IsPrefixOf (a b : Name) : Prop := a.components <+: b.components

instance (a b : Name) : Decidable (a.IsPrefixOf b) :=
  inferInstanceAs (Decidable (a.components <+: b.components))

/-- The prefixes of `n`, shortest first. -/
def prefixes (n : Name) : List Name := (List.range (n.size + 1)).map n.take

/-! ## Scopes -/

/-- The component `localhost`, under which nothing crosses a face that is not local. -/
def localhost : Component := .ofChars ['l', 'o', 'c', 'a', 'l', 'h', 'o', 's', 't']

/-- The component `localhop`, under which a packet crosses at most one link. -/
def localhop : Component := .ofChars ['l', 'o', 'c', 'a', 'l', 'h', 'o', 'p']

/-- The name lies under `/localhost`. -/
def IsLocalhost (n : Name) : Prop := n.components.head? = some localhost

/-- The name lies under `/localhop`. -/
def IsLocalhop (n : Name) : Prop := n.components.head? = some localhop

instance (n : Name) : Decidable n.IsLocalhost :=
  inferInstanceAs (Decidable (n.components.head? = some localhost))

instance (n : Name) : Decidable n.IsLocalhop :=
  inferInstanceAs (Decidable (n.components.head? = some localhop))

theorem mem_prefixes {p n : Name} : p ∈ n.prefixes ↔ p.IsPrefixOf n := by
  simp only [prefixes, List.mem_map, List.mem_range, IsPrefixOf, List.prefix_iff_eq_take]
  constructor
  · rintro ⟨k, hk, rfl⟩
    have : k ≤ n.components.length := Nat.lt_succ_iff.mp hk
    simp [take, List.length_take, Nat.min_eq_left this]
  · intro h
    refine ⟨p.components.length, ?_, ?_⟩
    · have := congrArg List.length h
      simp only [List.length_take] at this
      simp only [size]
      omega
    · cases p
      simpa [take] using h.symm

end Name

end NamedData
