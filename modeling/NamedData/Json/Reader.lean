import NamedData.Json.Number

/-!
# Reading JSON

## Main definitions

* `Json.parse?`, the value of a text, which is refused if values are nested too deeply or a
  number is too large
-/
namespace NamedData.Json

/-- How deeply arrays and objects may be nested. -/
def maxDepth : Nat := 127

/-- The fields with each name once. A later value replaces an earlier one. -/
def ofFields (fields : List (String × Json)) : Json :=
  .object (fields.foldl (fun known (name, value) => setField name value known) [])

mutual

/-- The value at the front of a sequence of tokens, inside others that leave room for
`depth` more levels. -/
def readValue (depth : Nat) : Nat → List Token → Option (Json × List Token)
  | 0, _ => none
  | n + 1, tokens =>
    match tokens with
    | .null :: rest => some (.null, rest)
    | .bool b :: rest => some (.bool b, rest)
    | .integer negative digits :: rest => (ofInteger? negative digits).map (·, rest)
    | .decimal negative whole fraction exponent :: rest =>
      (ofDecimal? negative whole fraction exponent).map (·, rest)
    | .string s :: rest => some (.string (String.ofList s), rest)
    | .mark '[' :: rest =>
      if depth = 0 then none
      else
        match rest with
        | .mark ']' :: rest => some (.array [], rest)
        | _ => (readItems (depth - 1) n rest).map fun (items, rest) => (.array items, rest)
    | .mark '{' :: rest =>
      if depth = 0 then none
      else
        match rest with
        | .mark '}' :: rest => some (.object [], rest)
        | _ => (readFields (depth - 1) n rest).map fun (fields, rest) => (ofFields fields, rest)
    | _ => none

/-- The items of an array, up to its end. -/
def readItems (depth : Nat) : Nat → List Token → Option (List Json × List Token)
  | 0, _ => none
  | n + 1, tokens => do
    let (item, rest) ← readValue depth n tokens
    match rest with
    | .mark ']' :: rest => return ([item], rest)
    | .mark ',' :: rest =>
      let (items, rest) ← readItems depth n rest
      return (item :: items, rest)
    | _ => none

/-- The fields of an object, up to its end. -/
def readFields (depth : Nat) : Nat → List Token → Option (List (String × Json) × List Token)
  | 0, _ => none
  | n + 1, tokens =>
    match tokens with
    | .string name :: .mark ':' :: rest => do
      let (value, rest) ← readValue depth n rest
      match rest with
      | .mark '}' :: rest => return ([(String.ofList name, value)], rest)
      | .mark ',' :: rest =>
        let (fields, rest) ← readFields depth n rest
        return ((String.ofList name, value) :: fields, rest)
      | _ => none
    | _ => none

end

/-- The value of a text that holds nothing else. -/
def parse? (s : String) : Option Json := do
  let tokens ← scan s.toList
  match ← readValue maxDepth tokens.length tokens with
  | (value, []) => return value
  | _ => none

end NamedData.Json
