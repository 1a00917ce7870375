/-!
# Decimal numbers

## Main definitions

* `Decimal`, a natural number shifted by powers of ten
* `Decimal.trimmed`, the same number without zeros at its end
* `Decimal.positional`, its digits with a point where one is needed, and no exponent
-/
namespace NamedData

/-- The number `mantissa * 10 ^ exponent`. -/
structure Decimal where
  mantissa : Nat
  exponent : Int
deriving DecidableEq

namespace Decimal

/-- How many digits `n` has. -/
def digitCount (n : Nat) : Nat := (Nat.toDigits 10 n).length

/-- The least `k` for which a number other than 0 is below `10 ^ k`. -/
def magnitude (d : Decimal) : Int := digitCount d.mantissa + d.exponent

/-- The numerator of the number as a fraction. -/
def num (d : Decimal) : Nat := d.mantissa * Nat.pow 10 d.exponent.toNat

/-- The denominator of the number as a fraction. -/
def den (d : Decimal) : Nat := Nat.pow 10 (-d.exponent).toNat

/-- The same number, with the zeros at the end of the mantissa moved to the exponent. -/
def trimmed (d : Decimal) : Decimal :=
  if d.mantissa = 0 then ⟨0, 0⟩
  else
    let zeros := ((Nat.toDigits 10 d.mantissa).reverse.takeWhile (· = '0')).length
    ⟨d.mantissa / Nat.pow 10 zeros, d.exponent + zeros⟩

/-- The digits of the number, as many after the point as the exponent asks for. -/
def positional (d : Decimal) : String :=
  let places := (-d.exponent).toNat
  let digits := (Nat.toDigits 10 d.mantissa).leftpad (places + 1) '0' ++
    List.replicate d.exponent.toNat '0'
  let whole := digits.take (digits.length - places)
  let fraction := digits.drop (digits.length - places)
  String.ofList whole ++ (if fraction.isEmpty then "" else "." ++ String.ofList fraction)

end Decimal

end NamedData
