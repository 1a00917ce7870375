import NamedData.Number.Shortest

/-!
# JSON values and their printed form

## Main definitions

* `Json`, where a number is an integer of at most 64 bits or a floating-point number
* `Json.field?`, the value of a field, and `Json.setField`, which gives a field a value
* `Json.pretty`, the printed form with an indent of two spaces
-/
namespace NamedData

/-- A JSON value. -/
inductive Json
  | null
  | bool (b : Bool)
  /-- An integer that fits into 64 bits, with or without a sign. -/
  | integer (n : Int)
  /-- Any other number. -/
  | float (x : Binary64)
  | string (s : String)
  | array (items : List Json)
  /-- The fields in the order they are written, each name once. -/
  | object (fields : List (String × Json))
deriving Inhabited

namespace Json

/-- The value of a field. -/
def field? (fields : List (String × Json)) (name : String) : Option Json :=
  (fields.find? (·.1 = name)).map Prod.snd

/-- The fields with another value for `name`. A new name goes to the end. -/
def setField (name : String) (value : Json) : List (String × Json) → List (String × Json)
  | [] => [(name, value)]
  | field :: fields =>
    if field.1 = name then (name, value) :: fields else field :: setField name value fields

/-- The characters with a short form in a string, and the letter of the form. -/
def shortForms : List (Char × Char) :=
  [('"', '"'), ('\\', '\\'), ('\n', 'n'), ('\r', 'r'), ('\t', 't'), (Char.ofNat 8, 'b'),
    (Char.ofNat 12, 'f')]

/-- The written form of one character of a string. A control without a short form is written
by its number, in four hexadecimal digits. -/
def encodeChar (c : Char) : List Char :=
  match shortForms.lookup c with
  | some letter => ['\\', letter]
  | none =>
    if c.toNat < 0x20 then '\\' :: 'u' :: (Nat.toDigits 16 c.toNat).leftpad 4 '0' else [c]

/-- The written form of a string. -/
def encodeString (s : String) : String :=
  String.ofList ('"' :: s.toList.flatMap encodeChar ++ ['"'])

/-- Two spaces for each level. -/
def indent (depth : Nat) : String := String.ofList (List.replicate (2 * depth) ' ')

mutual

/-- The printed form of a value inside `depth` others. A number that is not finite has none
of its own. -/
def prettyAt (depth : Nat) : Json → String
  | null => "null"
  | bool true => "true"
  | bool false => "false"
  | integer n => toString n
  | float (.finite negative m) => (Binary64.finite negative m).text
  | float _ => "null"
  | string s => encodeString s
  | array [] => "[]"
  | array (item :: items) =>
    "[\n" ++ indent (depth + 1) ++ prettyAt (depth + 1) item ++ prettyItems (depth + 1) items ++
      "\n" ++ indent depth ++ "]"
  | object [] => "\x7b\x7d"
  | object ((name, value) :: fields) =>
    "\x7b\n" ++ indent (depth + 1) ++ encodeString name ++ ": " ++ prettyAt (depth + 1) value ++
      prettyFields (depth + 1) fields ++ "\n" ++ indent depth ++ "\x7d"

/-- The items after the first one. -/
def prettyItems (depth : Nat) : List Json → String
  | [] => ""
  | item :: items => ",\n" ++ indent depth ++ prettyAt depth item ++ prettyItems depth items

/-- The fields after the first one. -/
def prettyFields (depth : Nat) : List (String × Json) → String
  | [] => ""
  | (name, value) :: fields =>
    ",\n" ++ indent depth ++ encodeString name ++ ": " ++ prettyAt depth value ++
      prettyFields depth fields

end

/-- The printed form of a value, over several lines. -/
def pretty (j : Json) : String := j.prettyAt 0

end Json

end NamedData
