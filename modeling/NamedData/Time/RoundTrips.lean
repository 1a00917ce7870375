/-!
# Round-trip times

A summary of measured times, in nanoseconds.

## Main definitions

* `RoundTrips`, the samples in ascending order
* `RoundTrips.mean?` and `RoundTrips.percentile?`
-/
namespace NamedData

/-- Measured times in ascending order. -/
structure RoundTrips where
  sorted : List Nat
deriving DecidableEq

namespace RoundTrips

/-- Put a time before the first one that is not smaller. -/
def insertSample (t : Nat) : List Nat → List Nat
  | [] => [t]
  | s :: rest => if t ≤ s then t :: s :: rest else s :: insertSample t rest

/-- The summary of the given times. -/
def ofSamples (samples : List Nat) : RoundTrips := ⟨samples.foldr insertSample []⟩

def count (r : RoundTrips) : Nat := r.sorted.length

def min? (r : RoundTrips) : Option Nat := r.sorted.head?

def max? (r : RoundTrips) : Option Nat := r.sorted.getLast?

/-- The mean, rounded down. The count is taken as a number of 32 bits. -/
def mean? (r : RoundTrips) : Option Nat :=
  if r.sorted.isEmpty then none
  else some (r.sorted.foldl (· + ·) 0 / (UInt32.ofNat r.count).toNat)

/-- The nearest-rank percentile: the smallest time that at least `p` percent of the times
do not exceed. Above 100 percent it is the largest. -/
def percentile? (r : RoundTrips) (p : Nat) : Option Nat :=
  let rank := (min p 100 * r.count + 99) / 100
  r.sorted[rank - 1]?

end RoundTrips

end NamedData
