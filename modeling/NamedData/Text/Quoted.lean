import NamedData.Text.Unprintable

/-!
# Quoted text

Text inside a message is written between double quotes. A quote and a backslash take a
backslash, tabs, line ends and the null character have short forms, and a character
that is unprintable is written by its number in braces.

## Main definitions

* `Quoted.encode`, the characters of the quoted form
* `quote`, the quoted form of a string
-/
namespace NamedData.Text

/-- The lower-case hexadecimal digits of `n`, without leading zeros. -/
def hexDigits (n : Nat) : List Char := Nat.toDigits 16 n

namespace Quoted

/-- The characters with a short form, and the letter of the form. -/
def shortForms : List (Char × Char) :=
  [('"', '"'), ('\\', '\\'), ('\t', 't'), ('\r', 'r'), ('\n', 'n'), (Char.ofNat 0, '0')]

/-- The written form of one character. -/
def encodeChar (c : Char) : List Char :=
  match shortForms.lookup c with
  | some letter => ['\\', letter]
  | none =>
    if IsUnprintable c then ['\\', 'u', '{'] ++ hexDigits c.toNat ++ ['}'] else [c]

def encode (s : List Char) : List Char := s.flatMap encodeChar

end Quoted

/-- The quoted form of `s`. -/
def quote (s : String) : String := String.ofList ('"' :: Quoted.encode s.toList ++ ['"'])

end NamedData.Text
