/-!
# Lengths of time as text

A length of time is shown in a unit that suits its size.

## Main definitions

* `formatSpan`
-/
namespace NamedData

/-- The decimal digits of `n` with zeros in front, up to three digits. -/
def threeDigits (n : Nat) : String := String.ofList ((Nat.toDigits 10 n).leftpad 3 '0')

/-- The length of time of `nanos` nanoseconds: milliseconds with three places below one
second, seconds with three places below one minute, and else whole minutes and seconds. -/
def formatSpan (nanos : Nat) : String :=
  let seconds := nanos / 1000000000
  if seconds = 0 then
    toString (nanos / 1000000) ++ "." ++ threeDigits (nanos / 1000 % 1000) ++ "ms"
  else if seconds < 60 then
    toString seconds ++ "." ++ threeDigits (nanos / 1000000 % 1000) ++ "s"
  else toString (seconds / 60) ++ "m " ++ toString (seconds % 60) ++ "s"

end NamedData
