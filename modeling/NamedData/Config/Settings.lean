import NamedData.Config.Lenient
import NamedData.Config.Path
import NamedData.Json.Reader

/-!
# Settings from a file and the environment

A settings file is a JSON object, and each of its names is a path to a setting. A variable of
the environment overrides the setting that its name leads to.

## Main definitions

* `Config.settingOf?`, the setting that a variable is for
* `Config.load`, the checked configuration of a file and an environment
-/
namespace NamedData.Config

/-- A text with a point for each pair of underscores, from left to right. -/
def withPoints : List Char → List Char
  | '_' :: '_' :: rest => '.' :: withPoints rest
  | c :: rest => c :: withPoints rest
  | [] => []

/-- The lower-case form of a character of a variable's name. Capital letters and the Kelvin
sign are the characters for which it is an ASCII letter; no other one can be part of a path,
in either case. -/
def lowerChar (c : Char) : Char := if c.toNat = 0x212a then 'k' else c.toLower

/-- The name of the setting that a variable is for. Names are taken in any case, and a pair
of underscores leads into a setting. -/
def settingOf? (name : String) : Option String :=
  let name := name.toList.map lowerChar
  let start := "ndnfw_".toList
  if start.isPrefixOf name then some (String.ofList (withPoints (name.drop start.length)))
  else none

/-- Give settings their values one after the other. -/
def assignAll (settings : List (String × Json)) (j : Json) : Json :=
  settings.foldl (fun j (name, value) => assign value (pathOf name) j) j

/-- The settings of a file under the variables of an environment. -/
def gather (file : Json) (environment : List (String × String)) : Json :=
  assignAll
    (environment.filterMap fun (name, value) => (settingOf? name).map (·, variableValue value))
    (assignAll (fieldsOf file) (.object []))

/-- The configuration that the text of a settings file and an environment give, checked. A
file that holds no object has no settings. -/
def load (file : String) (environment : List (String × String)) : Except Error Config :=
  match (Json.parse? file).bind fun j => ofJson? .lenient (gather j environment) with
  | none => .error .unreadable
  | some c => c.validate.map fun _ => c

/-- The configuration that an environment alone gives. -/
def ofEnvironment (environment : List (String × String)) : Except Error Config :=
  load "\x7b\x7d" environment

end NamedData.Config
