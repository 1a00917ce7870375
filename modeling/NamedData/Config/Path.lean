import NamedData.Json.Token
import NamedData.Json.Value

/-!
# Paths into settings

The name of a setting may lead into a value: `routes[0].face` is the field `face` of the
first item of `routes`. Giving a value to a path makes what is missing on the way: a field
step makes an object and an item step makes an array, in place of what is neither.

## Main definitions

* `Config.Step` and `Config.path?`, the steps that a name stands for
* `Config.mergeField`, which gives a field a value, or merges an object into it
* `Config.assign`, which gives a value to what a path leads to
-/
namespace NamedData.Config

/-- A step from a value into one of its parts. -/
inductive Step
  | field (name : String)
  /-- An item of an array. Negative numbers count from its end. -/
  | item (index : Int)
deriving DecidableEq

/-! ## Reading paths -/

/-- The character may stand in the name of a field on a path. -/
def IsWordChar (c : Char) : Prop := c.isAlphanum ∨ c ∈ [' ', '_', '-']

instance (c : Char) : Decidable (IsWordChar c) := inferInstanceAs (Decidable (_ ∨ _))

/-- A field at the front of a text, and what follows it. -/
def readField (s : List Char) : Option (Step × List Char) :=
  match s.span fun c => IsWordChar c with
  | ([], _) => none
  | (word, rest) => some (.field (String.ofList word), rest)

/-- The index at the front of a text, with blanks around it, and what follows the bracket
that closes it. -/
def readIndex (s : List Char) : Option (Step × List Char) :=
  let isBlank (c : Char) : Bool := c = ' ' ∨ c = '\t'
  let s := s.dropWhile isBlank
  let (negative, s) := match s with
    | '-' :: rest => (true, rest)
    | s => (false, s)
  match Json.digits s with
  | ([], _) => none
  | (digits, rest) =>
    let index : Int := if negative then -(Json.valueOf digits : Int) else Json.valueOf digits
    match rest.dropWhile isBlank with
    | ']' :: rest =>
      if Int64.minValue.toInt ≤ index ∧ index ≤ Int64.maxValue.toInt then
        some (.item index, rest)
      else none
    | _ => none

/-- The steps that follow a first one, which all of the text has to be made of. At most
`count` are read. -/
def readSteps : Nat → List Char → Option (List Step)
  | _, [] => some []
  | 0, _ => none
  | count + 1, c :: rest => do
    let (step, rest) ←
      if c = '.' then readField rest else if c = '[' then readIndex rest else none
    return step :: (← readSteps count rest)

/-- The path that a name stands for. -/
def path? (name : String) : Option (List Step) := do
  let (first, rest) ← readField name.toList
  return first :: (← readSteps rest.length rest)

/-- The path of a setting. A name that is no path is the name of a field. -/
def pathOf (name : String) : List Step := (path? name).getD [.field name]

/-! ## Giving values -/

/-- The fields of an object, and none of any other value. -/
def fieldsOf : Json → List (String × Json)
  | .object fields => fields
  | _ => []

/-- The items of an array, and none of any other value. -/
def itemsOf : Json → List Json
  | .array items => items
  | _ => []

mutual

/-- Give a field of `j` a value. The fields of an object are given to what the field holds
already, one by one. -/
def mergeField (name : String) (j : Json) : Json → Json
  | .object incoming =>
    let held := (Json.field? (fieldsOf j) name).getD (.object [])
    .object (Json.setField name (mergeFields held incoming) (fieldsOf j))
  | value => .object (Json.setField name value (fieldsOf j))

/-- Give fields of `j` the values of a list. -/
def mergeFields (j : Json) : List (String × Json) → Json
  | [] => j
  | (name, value) :: fields => mergeFields (mergeField name j value) fields

end

/-- Change a field of `j`, where one that is missing is null. -/
def modifyField (name : String) (change : Json → Json) (j : Json) : Json :=
  let fields := fieldsOf j
  .object (Json.setField name (change ((Json.field? fields name).getD .null)) fields)

/-- Change an item of `j`, where those that are missing are null. There is nothing to change
before the first item. -/
def modifyItem (index : Int) (change : Json → Json) (j : Json) : Json :=
  let items := itemsOf j
  let position := if 0 ≤ index then index else items.length + index
  if position < 0 then .array items
  else .array ((items.rightpad (position.toNat + 1) .null).modify position.toNat change)

/-- Give a value to what a path leads to from `j`. -/
def assign (value : Json) : List Step → Json → Json
  | [], _ => value
  | [.field name], j => mergeField name j value
  | .field name :: path, j => modifyField name (assign value path) j
  | .item index :: path, j => modifyItem index (assign value path) j

end NamedData.Config
