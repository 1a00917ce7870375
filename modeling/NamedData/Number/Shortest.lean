import NamedData.Number.Binary64

/-!
# The shortest decimal form of a floating-point number

A floating-point number is written with the fewest decimal digits that are read back as it.
Of several such forms the one closest to the number is taken.

## Main definitions

* `Magnitude.ReadsBack`, a decimal number lies in the interval that is rounded to a magnitude
* `Magnitude.shortest`, the shortest decimal number of a magnitude
* `Binary64.text`, the written form of a floating-point number
-/
namespace NamedData

namespace Magnitude

/-- The number is the least of those with its exponent, and there are smaller ones, which lie
closer together. -/
def IsNarrowBelow (m : Magnitude) : Prop :=
  m.significand = 1 <<< (precision - 1) ∧ minExponent < m.exponent

instance (m : Magnitude) : Decidable m.IsNarrowBelow := inferInstanceAs (Decidable (_ ∧ _))

/-- The decimal number `d` lies between the points half-way to the neighbours of `m`, or on
one of them if the significand is even. Both sides of a comparison are multiples of a quarter
of the last binary place. -/
def ReadsBack (m : Magnitude) (d : Decimal) : Prop :=
  let place := m.exponent - 2
  let value := (d.num <<< (-place).toNat)
  let scaled (quarters : Nat) : Nat := (quarters * d.den) <<< place.toNat
  let low := scaled (4 * m.significand - if m.IsNarrowBelow then 1 else 2)
  let high := scaled (4 * m.significand + 2)
  (low < value ∧ value < high) ∨ (m.significand % 2 = 0 ∧ (value = low ∨ value = high))

instance (m : Magnitude) (d : Decimal) : Decidable (m.ReadsBack d) :=
  inferInstanceAs (Decidable (_ ∨ _))

/-- The least `k` for which a number other than 0 is below `10 ^ k`. -/
def decimalMagnitude (m : Magnitude) : Int :=
  if m.den ≤ m.num then Decimal.digitCount (m.num / m.den)
  else 1 - Decimal.digitCount ((m.den - 1) / m.num)

/-- The form with `count` digits that is read back as `m`, if there is one. The candidates
are the multiples of the last decimal place just below and just above the number; a tie
between them goes up. -/
def withDigits? (m : Magnitude) (count : Nat) : Option Decimal :=
  let exponent := m.decimalMagnitude - count
  let num := m.num * Nat.pow 10 (-exponent).toNat
  let den := m.den * Nat.pow 10 exponent.toNat
  let below : Decimal := ⟨num / den, exponent⟩
  let above : Decimal := ⟨num / den + 1, exponent⟩
  let isCloserToBelow := 2 * num < (2 * below.mantissa + 1) * den
  if m.ReadsBack below ∧ (isCloserToBelow ∨ ¬ m.ReadsBack above) then some below
  else if m.ReadsBack above then some above
  else none

/-- The number itself. -/
def exact (m : Magnitude) : Decimal :=
  ⟨m.num * Nat.pow 5 (-m.exponent).toNat, min m.exponent 0⟩

/-- The shortest decimal number that is read back as `m`. Seventeen digits are enough for
every magnitude. -/
def shortest (m : Magnitude) : Decimal :=
  if m.significand = 0 then ⟨0, 0⟩
  else (((List.range 17).findSome? fun n => m.withDigits? (n + 1)).getD m.exact).trimmed

end Magnitude

/-- The written form of a floating-point number, without an exponent. -/
def Binary64.text : Binary64 → String
  | finite negative m => (if negative then "-" else "") ++ m.shortest.positional
  | infinite negative => if negative then "-inf" else "inf"
  | nan => "NaN"

end NamedData
