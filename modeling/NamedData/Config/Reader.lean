import NamedData.Config.Basic
import NamedData.Json.Value

/-!
# Configurations as JSON

A configuration is written as an object with a field for each setting, and a route as an
object of its own. A field that is left out has its default, and other fields are passed
over. Either record may also be written as the list of its values.

## Main definitions

* `Config.Conventions`, how single values are read, and `Config.Conventions.strict`
* `Config.ofJson?` and `Config.toJson`
-/
namespace NamedData.Config

/-- How the values of settings are read. -/
structure Conventions where
  word64 : Json → Option UInt64
  word32 : Json → Option UInt32
  text : Json → Option String
  /-- A route that is written as a list may have more items than it has values. -/
  allowsSurplus : Bool

namespace Conventions

/-- A number is an integer in range, and a text is a string. -/
def strict : Conventions where
  word64
    | .integer n => if 0 ≤ n ∧ n.toNat < UInt64.size then some (UInt64.ofNat n.toNat) else none
    | _ => none
  word32
    | .integer n => if 0 ≤ n ∧ n.toNat < UInt32.size then some (UInt32.ofNat n.toNat) else none
    | _ => none
  text
    | .string s => some s
    | _ => none
  allowsSurplus := false

/-- Read a value that may be left out. -/
def readOr {α : Type} (read : Json → Option α) (default : α) : Option Json → Option α
  | none => some default
  | some j => read j

/-- The routes `read` from a list. -/
def readList {α : Type} (read : Json → Option α) : Json → Option (List α)
  | .array items => items.mapM read
  | _ => none

/-- A route from its prefix, its face and its cost. -/
def route (c : Conventions) (uri face cost : Option Json) : Option RouteSetting := do
  return ⟨← c.text (← uri), ← c.word32 (← face), ← readOr c.word64 0 cost⟩

/-- A route as it is written. -/
def readRoute (c : Conventions) : Json → Option RouteSetting
  | .object fields =>
    c.route (Json.field? fields "prefix") (Json.field? fields "face") (Json.field? fields "cost")
  | .array items =>
    if items.length ≤ 3 ∨ c.allowsSurplus = true then c.route items[0]? items[1]? items[2]?
    else none
  | _ => none

end Conventions

/-- The names of the settings, in the order they are printed. -/
def fieldNames : List String :=
  ["straggler_time_ms", "dead_nonce_lifetime_ms", "dead_nonce_capacity", "cs_capacity",
    "default_interest_lifetime_ms", "routes"]

/-- A configuration from its values in the order of `fieldNames`. -/
def ofValues? (c : Conventions) (value : Nat → Option Json) : Option Config := do
  let default : Config := {}
  return {
    stragglerTime := ← Conventions.readOr c.word64 default.stragglerTime (value 0)
    deadNonceLifetime := ← Conventions.readOr c.word64 default.deadNonceLifetime (value 1)
    deadNonceCapacity := ← Conventions.readOr c.word64 default.deadNonceCapacity (value 2)
    storeCapacity := ← Conventions.readOr c.word64 default.storeCapacity (value 3)
    interestLifetime := ← Conventions.readOr c.word64 default.interestLifetime (value 4)
    routes := ← Conventions.readOr (Conventions.readList c.readRoute) [] (value 5) }

/-- Read a configuration. -/
def ofJson? (c : Conventions) : Json → Option Config
  | .object fields => ofValues? c fun k => (fieldNames[k]?).bind (Json.field? fields)
  | .array items => if items.length ≤ fieldNames.length then ofValues? c (items[·]?) else none
  | _ => none

end Config

/-- A route as it is written. -/
def RouteSetting.toJson (r : RouteSetting) : Json :=
  .object [("prefix", .string r.uri), ("face", .integer r.face.toNat),
    ("cost", .integer r.cost.toNat)]

/-- A configuration with all its settings. -/
def Config.toJson (c : Config) : Json :=
  .object [
    ("straggler_time_ms", .integer c.stragglerTime.toNat),
    ("dead_nonce_lifetime_ms", .integer c.deadNonceLifetime.toNat),
    ("dead_nonce_capacity", .integer c.deadNonceCapacity.toNat),
    ("cs_capacity", .integer c.storeCapacity.toNat),
    ("default_interest_lifetime_ms", .integer c.interestLifetime.toNat),
    ("routes", .array (c.routes.map RouteSetting.toJson))]

end NamedData
