import NamedData.Number.Decimal

/-!
# Binary floating-point numbers of 64 bits

A finite number is `significand * 2 ^ exponent` with a sign, where the significand has at
most 53 binary digits and the exponent lies between -1074 and 971. Each operation is exact
arithmetic on natural numbers followed by one rounding to the closest number, and a tie goes
to the even significand.

## Main definitions

* `Magnitude`, a finite number without its sign, and `Magnitude.closest?`, the one closest to
  a fraction
* `Magnitude.mul?` and `Magnitude.div?`, rounded products and quotients
* `Binary64`, and `Binary64.ofDecimal`, the number closest to a decimal one
* `Binary64.toWord`, the closest word of 64 bits
-/
namespace NamedData

/-- The number `significand * 2 ^ exponent`. -/
structure Magnitude where
  significand : Nat
  exponent : Int
deriving DecidableEq, Inhabited

namespace Magnitude

/-- How many binary digits a significand has at most. -/
def precision : Nat := 53

/-- The least exponent. -/
def minExponent : Int := -1074

/-- The greatest exponent. -/
def maxExponent : Int := 971

def zero : Magnitude := ⟨0, minExponent⟩

/-- The numerator of the number as a fraction. -/
def num (m : Magnitude) : Nat := m.significand <<< m.exponent.toNat

/-- The denominator of the number as a fraction. -/
def den (m : Magnitude) : Nat := 1 <<< (-m.exponent).toNat

/-- The integer closest to `num / den`. A tie goes to the even one. -/
def roundToEven (num den : Nat) : Nat :=
  let below := num / den
  let rest := num % den
  if den < 2 * rest ∨ (den = 2 * rest ∧ below % 2 = 1) then below + 1 else below

/-- The exponent for which `num / den` has a significand of full length, or the least one if
the number is too small for that. -/
def exponentOf (num den : Nat) : Int :=
  let guess : Int := (num.log2 : Int) - den.log2 - precision
  let fits : Prop := num <<< (-guess).toNat < (den <<< guess.toNat) <<< precision
  max minExponent (if fits then guess else guess + 1)

/-- The magnitude closest to `num / den`, if it is not beyond all of them. -/
def closest? (num den : Nat) : Option Magnitude :=
  if num = 0 then some zero
  else
    let exponent := exponentOf num den
    let significand := roundToEven (num <<< (-exponent).toNat) (den <<< exponent.toNat)
    let rounded : Magnitude :=
      if significand = 1 <<< precision then ⟨1 <<< (precision - 1), exponent + 1⟩
      else ⟨significand, exponent⟩
    if rounded.exponent ≤ maxExponent then some rounded else none

/-- The magnitude closest to a word. -/
def ofWord (n : UInt64) : Magnitude := (closest? n.toNat 1).getD zero

/-- The rounded product. -/
def mul? (a b : Magnitude) : Option Magnitude := closest? (a.num * b.num) (a.den * b.den)

/-- The rounded quotient by a number other than 0. -/
def div? (a b : Magnitude) : Option Magnitude := closest? (a.num * b.den) (a.den * b.num)

end Magnitude

/-- A floating-point number. Zero has a sign too. -/
inductive Binary64
  | finite (negative : Bool) (magnitude : Magnitude)
  | infinite (negative : Bool)
  /-- Not a number. -/
  | nan
deriving DecidableEq, Inhabited

namespace Binary64

/-- The number closest to a decimal one, which is infinite if that is beyond all others. -/
def ofDecimal (negative : Bool) (d : Decimal) : Binary64 :=
  if d.mantissa = 0 ∨ d.magnitude < -330 then finite negative .zero
  else if 310 < d.magnitude then infinite negative
  else
    match Magnitude.closest? d.num d.den with
    | some m => finite negative m
    | none => infinite negative

/-- The word closest to the number. A half goes up, and what lies beyond all words becomes
the closest of them. What is no number becomes 0. -/
def toWord : Binary64 → UInt64
  | finite false m => UInt64.ofNat (min ((2 * m.num + m.den) / (2 * m.den)) (UInt64.size - 1))
  | infinite false => UInt64.ofNat (UInt64.size - 1)
  | _ => 0

end Binary64

end NamedData
