import NamedData.Name.Basic
import NamedData.Text.Quoted

/-!
# Name URIs

A name is written as its components, each after a slash. A byte that is a visible ASCII
character other than `/` and `%` stands for itself, and any other byte is written as a
percent sign and two upper-case hexadecimal digits. A reader skips empty segments and a
leading `ndn:`.

## Main definitions

* `Name.toUri`, the written form
* `Name.ofUri?`, the strict reader, and `Name.ofUri`, which takes a segment with a
  malformed escape literally
* `Name.Malformed`, the error of the strict reader
-/
namespace NamedData

namespace Uri

/-- The upper-case hexadecimal digit for `d`, which is below 16. -/
def hexDigit (d : Nat) : Char := if d < 10 then Char.ofNat (48 + d) else Char.ofNat (55 + d)

/-- The value of a hexadecimal digit of either case. -/
def hexValue? (c : Char) : Option Nat :=
  if '0' ≤ c ∧ c ≤ '9' then some (c.toNat - 48)
  else if 'A' ≤ c ∧ c ≤ 'F' then some (c.toNat - 55)
  else if 'a' ≤ c ∧ c ≤ 'f' then some (c.toNat - 87)
  else none

/-- The byte that the two characters after a percent sign stand for: two hexadecimal
digits, or a plus sign and one. -/
def escaped? (a b : Char) : Option UInt8 :=
  match hexValue? a, hexValue? b with
  | some x, some y => some (UInt8.ofNat (16 * x + y))
  | none, some y => if a = '+' then some (UInt8.ofNat y) else none
  | _, none => none

/-- The bytes that a segment stands for, or `none` if one of its escapes is malformed. -/
def decode : List Char → Option (List UInt8)
  | [] => some []
  | '%' :: a :: b :: rest => do
    let byte ← escaped? a b
    let bytes ← decode rest
    return byte :: bytes
  | c :: rest => if c = '%' then none else (decode rest).map (String.utf8EncodeChar c ++ ·)

/-- A byte that is written as the character it encodes. -/
def IsPlain (b : UInt8) : Prop := 0x21 ≤ b ∧ b ≤ 0x7e ∧ b ≠ 0x2f ∧ b ≠ 0x25

instance (b : UInt8) : Decidable (IsPlain b) := inferInstanceAs (Decidable (_ ∧ _))

/-- The written form of one byte. -/
def encodeByte (b : UInt8) : List Char :=
  if IsPlain b then [Char.ofNat b.toNat]
  else ['%', hexDigit (b.toNat / 16), hexDigit (b.toNat % 16)]

/-- The parts of a text between its slashes. There is always at least one. -/
def segments : List Char → List (List Char)
  | [] => [[]]
  | c :: rest =>
    if c = '/' then [] :: segments rest
    else match segments rest with
      | [] => [[c]]
      | s :: ss => (c :: s) :: ss

/-- The text after one leading `ndn:`, if it has one. -/
def withoutScheme : List Char → List Char
  | 'n' :: 'd' :: 'n' :: ':' :: rest => rest
  | s => s

/-- The segments of a URI that hold a component. -/
def componentSegments (uri : List Char) : List (List Char) :=
  (segments (withoutScheme uri)).filter (! ·.isEmpty)

end Uri

namespace Component

/-- The written form of a component. -/
def toUri (c : Component) : List Char := c.bytes.flatMap Uri.encodeByte

instance : ToString Component := ⟨fun c => String.ofList c.toUri⟩

end Component

namespace Name

/-- A URI was refused because `segment` has a malformed escape. -/
structure Malformed where
  segment : List Char
deriving DecidableEq

def Malformed.message (e : Malformed) : String :=
  "invalid name: bad percent-escape in component " ++ Text.quote (String.ofList e.segment)

/-- The written form of a name, as characters. The root is a single slash. -/
def toUri (n : Name) : List Char :=
  if n.components.isEmpty then ['/'] else n.components.flatMap fun c => '/' :: c.toUri

instance : ToString Name := ⟨fun n => String.ofList n.toUri⟩

/-- The component that a segment stands for. -/
def readSegment (segment : List Char) : Except Malformed Component :=
  match Uri.decode segment with
  | some bytes => .ok ⟨bytes⟩
  | none => .error ⟨segment⟩

/-- Read a URI. The first segment with a malformed escape is the error. -/
def ofUri? (uri : List Char) : Except Malformed Name := do
  let components ← (Uri.componentSegments uri).mapM readSegment
  return ⟨components⟩

/-- Read a URI, taking a segment with a malformed escape literally. -/
def ofUri (uri : List Char) : Name where
  components := (Uri.componentSegments uri).map fun segment =>
    match Uri.decode segment with
    | some bytes => ⟨bytes⟩
    | none => .ofChars segment

/-- Read the text `s` as a URI. -/
def parse? (s : String) : Except Malformed Name := ofUri? s.toList

/-- Read the text `s` as a URI, taking segments with malformed escapes literally. -/
def parse (s : String) : Name := ofUri s.toList

end Name

end NamedData
