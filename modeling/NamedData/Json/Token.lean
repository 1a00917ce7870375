/-!
# JSON tokens

The text of a JSON value is a sequence of marks, words, numbers and strings, with blanks
between them.

## Main definitions

* `Json.Token`, and `Json.scan`, the tokens of a text
-/
namespace NamedData.Json

/-- A unit of JSON text. -/
inductive Token
  /-- One of the six punctuation characters. -/
  | mark (c : Char)
  | null
  | bool (b : Bool)
  /-- A number without a fraction and an exponent. -/
  | integer (negative : Bool) (digits : List Char)
  /-- A number with either: the digits before and after the point, and the exponent. -/
  | decimal (negative : Bool) (whole fraction : List Char) (exponent : Int)
  | string (s : List Char)
deriving DecidableEq

/-- The characters that may stand between tokens. -/
def IsBlank (c : Char) : Prop := c = ' ' ∨ c = '\n' ∨ c = '\r' ∨ c = '\t'

instance (c : Char) : Decidable (IsBlank c) := inferInstanceAs (Decidable (_ ∨ _))

/-- The digits at the front of a text, and what follows them. -/
def digits (s : List Char) : List Char × List Char := s.span Char.isDigit

/-- The value of decimal digits. -/
def valueOf (digits : List Char) : Nat := digits.foldl (fun n c => 10 * n + (c.toNat - 48)) 0

/-- The value of four hexadecimal digits. -/
def codeUnit? (a b c d : Char) : Option Nat := do
  let digit (c : Char) : Option Nat :=
    if c.isDigit then some (c.toNat - 48)
    else if 'a' ≤ c ∧ c ≤ 'f' then some (c.toNat - 87)
    else if 'A' ≤ c ∧ c ≤ 'F' then some (c.toNat - 55)
    else none
  return 4096 * (← digit a) + 256 * (← digit b) + 16 * (← digit c) + (← digit d)

/-- The character of a code unit that is no surrogate. -/
def charOf? (unit : Nat) : Option Char :=
  if 0xd800 ≤ unit ∧ unit < 0xe000 then none else some (Char.ofNat unit)

/-- The character of a pair of surrogates. -/
def charOfPair? (high low : Nat) : Option Char :=
  if 0xd800 ≤ high ∧ high < 0xdc00 ∧ 0xdc00 ≤ low ∧ low < 0xe000 then
    some (Char.ofNat (0x10000 + (high - 0xd800) * 1024 + (low - 0xdc00)))
  else none

/-- The character that a backslash and `c` stand for. -/
def escaped? (c : Char) : Option Char :=
  match c with
  | '"' => some '"'
  | '\\' => some '\\'
  | '/' => some '/'
  | 'b' => some (Char.ofNat 8)
  | 'f' => some (Char.ofNat 12)
  | 'n' => some '\n'
  | 'r' => some '\r'
  | 't' => some '\t'
  | _ => none

/-- The rest of a string after its opening quote, and the text after its closing one. -/
def readString : List Char → Option (List Char × List Char)
  | [] => none
  | '"' :: rest => some ([], rest)
  | '\\' :: 'u' :: a :: b :: c :: d :: '\\' :: 'u' :: w :: x :: y :: z :: rest => do
    let unit ← codeUnit? a b c d
    let next ← codeUnit? w x y z
    match charOfPair? unit next with
    | some pair => (readString rest).map fun (s, rest) => (pair :: s, rest)
    | none =>
      let first ← charOf? unit
      (readString ('\\' :: 'u' :: w :: x :: y :: z :: rest)).map fun (s, rest) =>
        (first :: s, rest)
  | '\\' :: 'u' :: a :: b :: c :: d :: rest => do
    let char ← charOf? (← codeUnit? a b c d)
    (readString rest).map fun (s, rest) => (char :: s, rest)
  | '\\' :: c :: rest => do
    let char ← escaped? c
    (readString rest).map fun (s, rest) => (char :: s, rest)
  | c :: rest =>
    if c.toNat < 0x20 ∨ c = '\\' then none
    else (readString rest).map fun (s, rest) => (c :: s, rest)

/-- The exponent at the front of a text, which is 0 if there is none. -/
def readExponent (s : List Char) : Option (Int × List Char) :=
  match s with
  | c :: rest =>
    if c = 'e' ∨ c = 'E' then
      let (negative, rest) :=
        match rest with
        | '-' :: rest => (true, rest)
        | '+' :: rest => (false, rest)
        | rest => (false, rest)
      match digits rest with
      | ([], _) => none
      | (ds, rest) => some (if negative then -(valueOf ds : Int) else valueOf ds, rest)
    else some (0, s)
  | [] => some (0, [])

/-- The number at the front of a text, after its sign. -/
def readNumber (negative : Bool) (s : List Char) : Option (Token × List Char) :=
  match digits s with
  | ([], _) => none
  | (whole, rest) =>
    if 1 < whole.length ∧ whole.head? = some '0' then none
    else
      match rest with
      | '.' :: rest =>
        match digits rest with
        | ([], _) => none
        | (fraction, rest) => do
          let (exponent, rest) ← readExponent rest
          return (.decimal negative whole fraction exponent, rest)
      | _ => do
        let (exponent, after) ← readExponent rest
        if after.length = rest.length then return (.integer negative whole, after)
        else return (.decimal negative whole [] exponent, after)

/-- The token at the front of a text that does not start with a blank. -/
def readToken : List Char → Option (Token × List Char)
  | [] => none
  | 'n' :: 'u' :: 'l' :: 'l' :: rest => some (.null, rest)
  | 't' :: 'r' :: 'u' :: 'e' :: rest => some (.bool true, rest)
  | 'f' :: 'a' :: 'l' :: 's' :: 'e' :: rest => some (.bool false, rest)
  | '"' :: rest => (readString rest).map fun (s, rest) => (.string s, rest)
  | '-' :: rest => readNumber true rest
  | c :: rest =>
    if c ∈ ['{', '}', '[', ']', ':', ','] then some (.mark c, rest)
    else readNumber false (c :: rest)

/-- The first `n` tokens of a text, or all if it has fewer. -/
def scanUpTo : Nat → List Char → Option (List Token)
  | 0, _ => some []
  | n + 1, s =>
    match s.dropWhile fun c => IsBlank c with
    | [] => some []
    | s => do
      let (token, rest) ← readToken s
      let tokens ← scanUpTo n rest
      return token :: tokens

/-- The tokens of a text. Each takes up a character at least. -/
def scan (s : List Char) : Option (List Token) := scanUpTo s.length s

end NamedData.Json
