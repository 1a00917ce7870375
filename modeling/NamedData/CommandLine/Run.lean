import NamedData.Benchmark
import NamedData.CommandLine.Help
import NamedData.Config.Settings

/-!
# Running a command

## Main definitions

* `CommandLine.Outcome`, what a run prints and its exit code
* `CommandLine.Invocation.load`, the configuration that an invocation works with
* `CommandLine.routeLines` and `CommandLine.routesLines`, what is said about routes
* `CommandLine.prepare`, what has to be done for a list of arguments
-/
namespace NamedData.CommandLine

/-- The end of a run. -/
structure Outcome where
  code : Nat := 0
  /-- The lines on standard output. -/
  output : List String := []
  /-- The lines on standard error. -/
  errors : List String := []
deriving DecidableEq

namespace Outcome

/-- A successful run that prints the given lines. -/
def success (output : List String) : Outcome := { output }

/-- A run whose arguments ask for nothing that the program can do. -/
def usageError : Outcome where
  code := 2
  errors := ["error: the arguments cannot be used", "", "For more information, try '--help'."]

/-- A run that failed at something, and the reason. -/
def failure (context cause : String) : Outcome where
  code := 1
  errors := ["Error: " ++ context, "", "Caused by:", "    " ++ cause]

end Outcome

/-- What a run can see: the settings files and the variables of its environment. -/
structure Surroundings where
  file? : String → Option String
  environment : List (String × String)

/-- A path that is read from its end, without the slashes and the points between them that
it ends in. -/
def dropSlashes : List Char → List Char
  | '/' :: rest => dropSlashes rest
  | '.' :: '/' :: rest => dropSlashes rest
  | s => s

/-- The folder of a path, and the name that stands last in it. -/
def splitPath (path : String) : List Char × List Char :=
  let backward := dropSlashes path.toList.reverse
  ((backward.dropWhile (· ≠ '/')).reverse, (backward.takeWhile (· ≠ '/')).reverse)

/-- The file has the ending of settings files. -/
def HasEnding (path : String) : Prop :=
  let name := (splitPath path).2
  ".json".toList.isSuffixOf name ∧ 5 < name.length

instance (path : String) : Decidable (HasEnding path) := inferInstanceAs (Decidable (_ ∧ _))

/-- A path with the ending of settings files, if it names a file. -/
def withEnding? (path : String) : Option String :=
  let (folder, name) := splitPath path
  if name = [] ∨ name = ['.'] ∨ name = ['.', '.'] then none
  else some (String.ofList (folder ++ name ++ ".json".toList))

/-- The settings file of a given name. The ending may be left out, unless there is a file
without it. -/
def Surroundings.settings? (w : Surroundings) (path : String) : Option String :=
  match w.file? path with
  | some text => if HasEnding path then some text else none
  | none => (withEnding? path).bind w.file?

/-- The configuration of an invocation. -/
def Invocation.load (i : Invocation) (w : Surroundings) : Except Outcome Config :=
  match i.settings with
  | some path =>
    let read : Except Config.Error Config :=
      match w.settings? path with
      | some text => Config.load text w.environment
      | none => .error (.missingFile path)
    read.mapError fun e =>
      .failure ("Failed to load configuration from " ++ path) e.message
  | none =>
    (Config.ofEnvironment w.environment).mapError fun e =>
      .failure "Failed to read configuration from environment" e.message

/-- The table of the static routes. -/
def fibOf (c : Config) : Except Config.Error Fib := do
  let routes ← c.parsedRoutes
  return routes.foldl (fun fib r => fib.addNextHop r.name r.face r.cost) .empty

/-- A line for each next hop, which shows the number of its face and its cost. -/
def nextHopLines (hops : NextHops) : List String :=
  hops.map fun h =>
    "  face " ++ toString h.face.number.toNat ++ " cost " ++ toString h.cost.toNat

/-- The route that decides for a name. -/
def routeLines (fib : Fib) (name : Name) : List String :=
  let entry := fib.longestPrefixMatch name
  if entry.nextHops.isEmpty then [toString name ++ " -> no route"]
  else (toString name ++ " -> " ++ toString entry.name) :: nextHopLines entry.nextHops

/-- For each of the entries its prefix and then its next hops, or else that there are no
entries. -/
def listing (entries : List Fib.Entry) : List String :=
  if entries.isEmpty then ["No routes configured"]
  else entries.flatMap fun e => toString e.name :: nextHopLines e.nextHops

/-- Every prefix that has next hops, in name order. -/
def routesLines (fib : Fib) : List String :=
  listing (fib.entries.filter (! ·.nextHops.isEmpty))

/-- What has to be done for a command line. -/
inductive Job
  /-- Print and end. -/
  | finish (o : Outcome)
  /-- Make a number of exchanges and report on them. -/
  | measure (b : Benchmark) (count : Nat)

/-- Say what is wrong with a static route. -/
def badRoute (e : Config.Error) : Outcome :=
  .failure "Invalid route in configuration" e.message

/-- What has to be done for a command, given its configuration. -/
def Command.job (c : Config) : Command → Job
  | .config => .finish (.success [c.toJson.pretty])
  | .route text =>
    match Name.parse? text with
    | .error e => .finish (.failure ("Invalid name: " ++ text) e.message)
    | .ok name =>
      match fibOf c with
      | .error e => .finish (badRoute e)
      | .ok fib => .finish (.success (routeLines fib name))
  | .routes =>
    match fibOf c with
    | .error e => .finish (badRoute e)
    | .ok fib => .finish (.success (routesLines fib))
  | .benchmark count text =>
    match Name.parse? text with
    | .error e => .finish (.failure ("Invalid prefix: " ++ text) e.message)
    | .ok under =>
      match Benchmark.start c under with
      | .error e => .finish (badRoute e)
      | .ok b => .measure b count

/-- What has to be done for a list of arguments. -/
def prepare (args : List String) (w : Surroundings) : Job :=
  match parse args with
  | .misuse => .finish .usageError
  | .version => .finish (.success [versionLine])
  | .help subject => .finish (.success subject.lines)
  | .run i =>
    match i.load w with
    | .error o => .finish o
    | .ok c => i.command.job c

/-- A job without measured times. -/
def Job.outcome : Job → Outcome
  | .finish o => o
  | .measure b count => .success ((b.run count).report ⟨0, .ofSamples []⟩)

end NamedData.CommandLine
