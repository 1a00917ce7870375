/-!
# Face identifiers

A face is known by a 32-bit number. The largest number stands for no face, one number
marks Data that came out of the content store, and the numbers up to 255 are kept for
faces that are registered by hand.

## Main definitions

* `FaceId`, with `FaceId.invalid` and `FaceId.contentStore`
* `FaceId.IsValid`, `FaceId.IsReserved`
-/
namespace NamedData

/-- The number of a face. -/
structure FaceId where
  number : UInt32
deriving DecidableEq, Inhabited

namespace FaceId

instance : Ord FaceId := ⟨compareOn number⟩

instance : Std.TransOrd FaceId := inferInstanceAs (Std.TransCmp (compareOn number))

instance : Std.LawfulEqOrd FaceId where
  eq_of_compare {a b} h := by
    cases a; cases b
    exact congrArg _ (Std.LawfulEqOrd.eq_of_compare h)

/-- The number that names no face. -/
def invalid : FaceId := ⟨4294967295⟩

/-- The face that Data from the content store is said to arrive on. -/
def contentStore : FaceId := ⟨254⟩

/-- The largest reserved number. -/
def maxReserved : FaceId := ⟨255⟩

/-- The first number that is not reserved. -/
def firstUnreserved : FaceId := ⟨maxReserved.number + 1⟩

/-- The number that follows `f`. The largest is followed by none. -/
def next? (f : FaceId) : Option FaceId := if f = invalid then none else some ⟨f.number + 1⟩

def IsValid (f : FaceId) : Prop := f ≠ invalid

/-- The number is kept for faces that are registered by hand. -/
def IsReserved (f : FaceId) : Prop := f.number ≤ maxReserved.number

instance (f : FaceId) : Decidable f.IsValid := inferInstanceAs (Decidable (f ≠ invalid))

instance (f : FaceId) : Decidable f.IsReserved :=
  inferInstanceAs (Decidable (f.number ≤ maxReserved.number))

instance : ToString FaceId where
  toString f :=
    if f = invalid then "FaceId(invalid)"
    else if f = contentStore then "FaceId(contentstore)"
    else "FaceId(" ++ toString f.number.toNat ++ ")"

end FaceId

end NamedData
