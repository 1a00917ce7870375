import NamedData.Name.Basic
import NamedData.SortedMap

/-!
# Tables by name

A `NameIndex` stores values under exact names and is asked by prefix: for every entry
whose name is a prefix of a given name, or for the longest of them. A query looks up
each prefix of the name.

## Main definitions

* `NameIndex.prefixMatches`, the entries under prefixes of a name, shortest first
* `NameIndex.longestPrefixMatch`
-/
namespace NamedData

/-- A table of values by name. -/
abbrev NameIndex (α : Type u) := SortedMap Name α

namespace NameIndex

variable {α : Type u}

/-- The entry stored under exactly `n`, with its name. -/
def entry? (t : NameIndex α) (n : Name) : Option (Name × α) := (t.get? n).map (n, ·)

/-- The entries whose name is a prefix of `n`, shortest first. -/
def prefixMatches (t : NameIndex α) (n : Name) : List (Name × α) :=
  n.prefixes.filterMap t.entry?

/-- The entry under the longest prefix of `n`. -/
def longestPrefixMatch (t : NameIndex α) (n : Name) : Option (Name × α) :=
  n.prefixes.reverse.findSome? t.entry?

end NameIndex

end NamedData
