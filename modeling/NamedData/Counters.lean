/-!
# Counters

A node counts the packets it handles. Each counter is a 64-bit word that only goes up.

## Main definitions

* `Counter`, what is counted
* `Counters`, the counts, with `Counters.increment`
-/
namespace NamedData

/-- What a node counts. -/
inductive Counter
  | inInterests
  | outInterests
  | inData
  | outData
  | csHits
  | csMisses
  | interestLoops
  | unsolicitedData
deriving DecidableEq

/-- The counts of a node. -/
structure Counters where
  inInterests : UInt64 := 0
  outInterests : UInt64 := 0
  inData : UInt64 := 0
  outData : UInt64 := 0
  csHits : UInt64 := 0
  csMisses : UInt64 := 0
  interestLoops : UInt64 := 0
  unsolicitedData : UInt64 := 0
deriving DecidableEq

namespace Counters

/-- One more of `c`. -/
def increment (n : Counters) : Counter → Counters
  | .inInterests => { n with inInterests := n.inInterests + 1 }
  | .outInterests => { n with outInterests := n.outInterests + 1 }
  | .inData => { n with inData := n.inData + 1 }
  | .outData => { n with outData := n.outData + 1 }
  | .csHits => { n with csHits := n.csHits + 1 }
  | .csMisses => { n with csMisses := n.csMisses + 1 }
  | .interestLoops => { n with interestLoops := n.interestLoops + 1 }
  | .unsolicitedData => { n with unsolicitedData := n.unsolicitedData + 1 }

end Counters

end NamedData
