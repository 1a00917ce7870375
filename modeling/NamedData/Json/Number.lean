import NamedData.Json.Token
import NamedData.Json.Value

/-!
# The values of JSON numbers

The digits of a number are collected in a word of 64 bits, as many as fit. A whole number
whose digits all fit is an integer. Any other is the floating-point number of the word,
multiplied or divided by a power of ten, where each operation is rounded by itself.

## Main definitions

* `Json.collect`, which appends digits to a word
* `Json.scale?`, a word times a power of ten
* `Json.ofInteger?` and `Json.ofDecimal?`, the values of the two kinds of written numbers
-/
namespace NamedData.Json

/-- Append digits to a word for as long as one fits. The digits that are left over are
returned with it. -/
def collect (word : UInt64) : List Char → UInt64 × List Char
  | [] => (word, [])
  | c :: rest =>
    let next := 10 * word.toNat + (c.toNat - 48)
    if next < UInt64.size then collect (UInt64.ofNat next) rest else (word, c :: rest)

/-- The greatest power of ten that is a floating-point number. -/
def maxPower : Nat := 308

/-- The floating-point number closest to `10 ^ k`, for a `k` up to `maxPower`. -/
def powerOfTen? (k : Nat) : Option Magnitude := Magnitude.closest? (Nat.pow 10 k) 1

/-- A magnitude divided by `10 ^ k`, in steps of at most `maxPower` powers. -/
def shrink? (m : Magnitude) (k : Nat) : Option Magnitude :=
  if k ≤ maxPower then (powerOfTen? k).bind m.div?
  else if m.significand = 0 then some m
  else ((powerOfTen? maxPower).bind m.div?).bind (shrink? · (k - maxPower))
termination_by k
decreasing_by simp only [maxPower] at *; omega

/-- The floating-point number for `word * 10 ^ exponent`, if it is in range. -/
def scale? (word : UInt64) (exponent : Int) : Option Magnitude :=
  let m := Magnitude.ofWord word
  if exponent < 0 then shrink? m exponent.natAbs
  else if exponent.toNat ≤ maxPower then (powerOfTen? exponent.toNat).bind m.mul?
  else if m.significand = 0 then some m
  else none

/-- A floating-point number with a sign. -/
def signed (negative : Bool) (m : Magnitude) : Json := .float (.finite negative m)

/-- The value of a number without a fraction and an exponent. A negative zero is no
integer. -/
def ofInteger? (negative : Bool) (digits : List Char) : Option Json :=
  match collect 0 digits with
  | (word, []) =>
    if ¬ negative then some (.integer word.toNat)
    else if word = 0 ∨ -(word.toNat : Int) < Int64.minValue.toInt then
      some (signed negative (.ofWord word))
    else some (.integer (-word.toNat))
  | (word, dropped) => (scale? word dropped.length).map (signed negative)

/-- The value of a number with a fraction or an exponent. -/
def ofDecimal? (negative : Bool) (whole fraction : List Char) (exponent : Int) : Option Json :=
  let (word, dropped) := collect 0 whole
  let (word, ignored) := collect word fraction
  let places := fraction.length - ignored.length
  (scale? word (exponent + dropped.length - places)).map (signed negative)

end NamedData.Json
