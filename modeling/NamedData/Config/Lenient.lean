import NamedData.Config.Reader
import NamedData.Json.Token

/-!
# Lenient values

Settings files and the environment are read leniently: a fraction is rounded, text and truth
values count as numbers where they can be read as one, and numbers and truth values count as
text.

## Main definitions

* `Config.Conventions.lenient`
* `Config.variableValue`, what the text of a variable stands for
-/
namespace NamedData.Config

/-- The value of a text that consists of decimal digits. -/
def numeral? (s : List Char) : Option Nat :=
  if s.isEmpty ∨ ¬ s.all Char.isDigit then none else some (Json.valueOf s)

/-- A sign at the front of a text, and what follows it. -/
def readSign : List Char → Bool × List Char
  | '-' :: rest => (true, rest)
  | '+' :: rest => (false, rest)
  | s => (false, s)

/-- The word that a text of decimal digits stands for, which may have a plus in front. -/
def word? (s : String) : Option UInt64 := do
  let n ← numeral? <| match s.toList with
    | '+' :: rest => rest
    | s => s
  if n < UInt64.size then some (UInt64.ofNat n) else none

/-! ## Values as numbers and as text -/

/-- A number as it is kept: an integer has 63 bits at most, and a greater one is a
floating-point number. -/
def kept : Json → Json
  | .integer n =>
    if n ≤ Int64.maxValue.toInt then .integer n
    else .float (.finite false (.ofWord (UInt64.ofNat n.toNat)))
  | j => j

/-- The words that count as 1 and as 0. -/
def truthWord? (s : String) : Option UInt64 :=
  let s := s.toLower
  if s ∈ ["true", "on", "yes"] then some 1
  else if s ∈ ["false", "off", "no"] then some 0
  else none

/-- A word, read leniently. -/
def lenientWord (j : Json) : Option UInt64 :=
  match kept j with
  | .integer n => if n < 0 then none else some (UInt64.ofNat n.toNat)
  | .float x => some x.toWord
  | .bool b => some (if b then 1 else 0)
  | .string s => (truthWord? s).or (word? s)
  | _ => none

/-- A text, read leniently. -/
def lenientText (j : Json) : Option String :=
  match kept j with
  | .string s => some s
  | .bool b => some (if b then "true" else "false")
  | .integer n => some (toString n)
  | .float x => some x.text
  | _ => none

/-- The conventions of settings files and of the environment. The number of a face keeps
its lower 32 bits. -/
def Conventions.lenient : Conventions where
  word64 := lenientWord
  word32 j := (lenientWord j).map UInt64.toUInt32
  text := lenientText
  allowsSurplus := true

/-! ## Variables -/

/-- A decimal number without a sign. There are digits on one side of the point at least. -/
def decimal? (s : List Char) : Option Decimal := do
  let (whole, rest) := Json.digits s
  let (fraction, rest) := match rest with
    | '.' :: rest => Json.digits rest
    | rest => ([], rest)
  let (exponent, rest) ← Json.readExponent rest
  if rest.isEmpty ∧ ¬ (whole ++ fraction).isEmpty then
    some ⟨Json.valueOf (whole ++ fraction), exponent - fraction.length⟩
  else none

/-- The floating-point number that a text without its sign stands for: a decimal number, or
one of the words for infinity and for what is no number. -/
def float? (negative : Bool) (s : List Char) : Option Binary64 :=
  match decimal? s with
  | some d => some (.ofDecimal negative d)
  | none =>
    let word := (String.ofList s).toLower
    if word ∈ ["inf", "infinity"] then some (.infinite negative)
    else if word = "nan" then some .nan
    else none

/-- The value of a variable: a truth value, a number, or else its text. -/
def variableValue (s : String) : Json :=
  if s.toLower = "true" then .bool true
  else if s.toLower = "false" then .bool false
  else
    let (negative, rest) := readSign s.toList
    let integer? : Option Int := do
      let n ← numeral? rest
      let n : Int := if negative then -(n : Int) else n
      if Int64.minValue.toInt ≤ n ∧ n ≤ Int64.maxValue.toInt then some n else none
    match integer?, float? negative rest with
    | some n, _ => .integer n
    | none, some x => .float x
    | none, none => .string s

end NamedData.Config
