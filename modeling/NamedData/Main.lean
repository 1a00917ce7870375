import NamedData.CommandLine.Run

/-!
# The command-line program

The outer layer: it reads the settings file and the environment, takes the time of the
exchanges of a benchmark, prints and sets the exit code.
-/
namespace NamedData.CommandLine

/-- The text of a file, if it can be read. -/
def readText? (path : String) : IO (Option String) := do
  try
    return some (← IO.FS.readFile path)
  catch _ =>
    return none

/-- The variables of a listing by the system, where a null character ends each. -/
def entries (listing : String) : List (String × String) :=
  (listing.toList.splitOn (Char.ofNat 0)).filterMap fun text =>
    match text.span (· ≠ '=') with
    | (name, '=' :: value) => some (String.ofList name, String.ofList value)
    | _ => none

/-- The environment of the program. Where the system does not list it, the settings are
asked for by their names. -/
def readEnvironment : IO (List (String × String)) := do
  if let some listing ← readText? "/proc/self/environ" then
    return entries listing
  Config.fieldNames.filterMapM fun name => do
    let name := "NDNFW_" ++ name.toUpper
    return (← IO.getEnv name).map (name, ·)

/-- What the program can see of its surroundings, for the settings file that is named. -/
def surroundings (settings : Option String) : IO Surroundings := do
  let mut files : List (String × String) := []
  if let some path := settings then
    for path in path :: (withEnding? path).toList do
      if let some text ← readText? path then
        files := (path, text) :: files
  let known := files
  return { file? := fun path => known.lookup path, environment := ← readEnvironment }

/-- Make the exchanges of a benchmark, and take the time. -/
def measure (b : Benchmark) (count : Nat) : IO (List String) := do
  let mut b := b
  let mut samples : List Nat := []
  let started ← IO.monoNanosNow
  for _ in [0:count] do
    let before ← IO.monoNanosNow
    let next := b.exchange
    if next.answered ≠ b.answered then
      samples := ((← IO.monoNanosNow) - before) :: samples
    b := next
  let total := (← IO.monoNanosNow) - started
  return b.report ⟨total, .ofSamples samples⟩

end NamedData.CommandLine

open NamedData.CommandLine in
def main (args : List String) : IO UInt32 := do
  let settings := match parse args with
    | .run i => i.settings
    | _ => none
  match prepare args (← surroundings settings) with
  | .finish o =>
    o.output.forM fun line => IO.println line
    o.errors.forM fun line => IO.eprintln line
    return o.code.toUInt32
  | .measure b count =>
    (← measure b count).forM fun line => IO.println line
    return 0
