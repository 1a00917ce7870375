import NamedData.Face.Id
import NamedData.Name.Uri

/-!
# Configuration

The settings of a node: its lifetimes, its capacities and its static routes.

## Main definitions

* `Config`, `Config.validate`
* `Config.parsedRoutes`, the static routes with their prefixes read
* `Config.Error`
-/
namespace NamedData

/-- A static route as it is written. -/
structure RouteSetting where
  /-- The name prefix, as a URI. -/
  uri : String
  face : UInt32
  cost : UInt64 := 0
deriving DecidableEq

/-- A static route: Interests under `name` may leave through `face` at `cost`. -/
structure Route where
  name : Name
  face : FaceId
  cost : UInt64
deriving DecidableEq

/-- The settings of a node. -/
structure Config where
  /-- How long an entry stays after it was answered or given up, in milliseconds. -/
  stragglerTime : UInt64 := 100
  /-- How long a nonce stays in the dead nonce list, in milliseconds. -/
  deadNonceLifetime : UInt64 := 6000
  deadNonceCapacity : UInt64 := 65536
  /-- How many packets the content store holds. -/
  storeCapacity : UInt64 := 1000
  /-- The lifetime of Interests that carry none, in milliseconds. -/
  interestLifetime : UInt64 := 4000
  routes : List RouteSetting := []
deriving DecidableEq

namespace Config

/-- Why settings cannot be used. -/
inductive Error
  | zeroDeadNonceLifetime
  | zeroInterestLifetime
  /-- The prefix of a route cannot be read. -/
  | malformedRoute (e : Name.Malformed)
  /-- A route leads to the number that names no face. -/
  | invalidRouteFace (uri : String)
  /-- There is no settings file of this name. -/
  | missingFile (path : String)
  /-- The settings could not be read at all. -/
  | unreadable
deriving DecidableEq

def Error.message : Error → String
  | zeroDeadNonceLifetime => "configuration error: dead_nonce_lifetime_ms must be positive"
  | zeroInterestLifetime => "configuration error: default_interest_lifetime_ms must be positive"
  | malformedRoute e => e.message
  | invalidRouteFace uri => "configuration error: route " ++ uri ++ ": invalid face id"
  | missingFile path => "configuration error: configuration file \"" ++ path ++ "\" not found"
  | unreadable => "configuration error: the settings cannot be read"

end Config

/-- Read the prefix of a route and check its face. -/
def RouteSetting.parse (r : RouteSetting) : Except Config.Error Route :=
  match Name.parse? r.uri with
  | .error e => .error (.malformedRoute e)
  | .ok name =>
    if (FaceId.mk r.face).IsValid then .ok ⟨name, ⟨r.face⟩, r.cost⟩
    else .error (.invalidRouteFace r.uri)

namespace Config

/-- The static routes. The first one that is no route is the error. -/
def parsedRoutes (c : Config) : Except Error (List Route) := c.routes.mapM RouteSetting.parse

/-- Check the settings, the lifetimes first. -/
def validate (c : Config) : Except Error Unit :=
  if c.deadNonceLifetime = 0 then .error .zeroDeadNonceLifetime
  else if c.interestLifetime = 0 then .error .zeroInterestLifetime
  else c.parsedRoutes.map fun _ => ()

end Config

end NamedData
