import NamedData.Config.Lenient

/-!
# Command-line arguments

A command line names a command, with options before and after the name. An option takes
a value, or it is a switch. Options have a short form of one letter, several of which may
share a dash, and a long form of a word. The value of an option follows it, or is attached
to it. Nothing after a double dash is an option.

Arguments are read from left to right, and the first that cannot be used or asks for help
decides. A value that follows its option is checked only when the next argument is read, and
one before the name of a command only after all that follows the name.

## Main definitions

* `CommandLine.Command`, `CommandLine.Invocation`
* `CommandLine.parse`, what a list of arguments asks for
-/
namespace NamedData.CommandLine

/-- What the program can do. -/
inductive Command
  /-- Print the configuration. -/
  | config
  /-- Show the route of a name. -/
  | route (name : String)
  /-- Show every route. -/
  | routes
  /-- Exchange packets below a name. -/
  | benchmark (count : Nat) (under : String)
deriving DecidableEq

/-- The names of the commands. -/
inductive Topic
  | config
  | route
  | routes
  | benchmark
deriving DecidableEq

/-- A command and where its configuration comes from. -/
structure Invocation where
  command : Command
  /-- The settings file, if one was named. -/
  settings : Option String
deriving DecidableEq

/-- What can be explained. -/
inductive Subject
  | program
  | command (topic : Topic)
  /-- The help itself. -/
  | help
deriving DecidableEq

/-- What the arguments ask for. -/
inductive Request
  | run (i : Invocation)
  | help (subject : Subject)
  | version
  /-- The arguments ask for nothing that the program can do. -/
  | misuse
deriving DecidableEq

/-- An option without a value. -/
inductive Switch
  | verbose
  | help
  | version
deriving DecidableEq

/-- An option with a value. -/
inductive Setting
  | config
  | count
  | under
deriving DecidableEq

/-- The options and arguments that may stand at one place of a command line. -/
structure Grammar where
  switches : List (Char × String × Switch)
  settings : List (Char × String × Setting)
  /-- How many arguments without a dash are taken. -/
  places : Nat := 0
  /-- The name of a command may follow. -/
  takesCommand : Bool := false

namespace Grammar

/-- The options that are known everywhere. -/
def common : Grammar where
  switches := [('v', "verbose", .verbose), ('h', "help", .help)]
  settings := [('c', "config", .config)]

/-- What may stand before the name of the command. -/
def main : Grammar :=
  { common with
    switches := common.switches ++ [('V', "version", .version)]
    takesCommand := true }

/-- What may stand after the name of a command. -/
def ofTopic : Topic → Grammar
  | .route => { common with places := 1 }
  | .benchmark =>
    { common with
      settings := common.settings ++ [('n', "count", .count), ('p', "prefix", .under)] }
  | .config | .routes => common

end Grammar

/-- The count that a text stands for. -/
def count? (s : String) : Option Nat := (Config.word? s).map UInt64.toNat

/-- The option takes the value. -/
def Setting.Admits : Setting → String → Prop
  | .config, s => s ≠ ""
  | .count, s => (count? s).isSome
  | .under, _ => True

instance (s : Setting) (value : String) : Decidable (s.Admits value) :=
  match s with
  | .config => inferInstanceAs (Decidable (value ≠ ""))
  | .count => inferInstanceAs (Decidable ((count? value).isSome = true))
  | .under => inferInstanceAs (Decidable True)

/-- An option whose value was not taken yet. -/
inductive Pending
  /-- The value has to follow. -/
  | awaiting (s : Setting)
  /-- The value was read, but not checked. -/
  | given (s : Setting) (value : String)
deriving DecidableEq

/-- What was read at one place of a command line. -/
structure Reading where
  switches : List Switch := []
  settings : List (Setting × String) := []
  /-- The arguments without a dash, in order. -/
  arguments : List String := []
  pending : Option Pending := none
  /-- A double dash was read. -/
  isPastOptions : Bool := false
deriving DecidableEq

namespace Reading

def value? (r : Reading) (s : Setting) : Option String := (r.settings.find? (·.1 = s)).map Prod.snd

/-- Take a value. It must suit its option, which may not be repeated. -/
def take? (r : Reading) (s : Setting) (value : String) : Option Reading :=
  if s.Admits value ∧ r.value? s = none then
    some { r with settings := (s, value) :: r.settings, pending := none }
  else none

/-- Take the value of the pending option, if there is one. -/
def settle? (r : Reading) : Option Reading :=
  match r.pending with
  | none => some r
  | some (.awaiting _) => none
  | some (.given s value) => r.take? s value

/-- The next argument is the value of an option. -/
def IsAwaiting (r : Reading) : Prop := ∃ s, r.pending = some (.awaiting s)

instance (r : Reading) : Decidable r.IsAwaiting :=
  match h : r.pending with
  | some (.awaiting s) => .isTrue ⟨s, h⟩
  | some (.given ..) => .isFalse fun ⟨_, e⟩ => by simp [h] at e
  | none => .isFalse fun ⟨_, e⟩ => by simp [h] at e

/-- How reading goes on after an argument. -/
inductive Progress
  | proceed (r : Reading)
  /-- The argument asks for something that comes before everything else. -/
  | answer (s : Switch)
  | misuse

def Progress.ofOption : Option Reading → Progress
  | some r => .proceed r
  | none => .misuse

/-- A switch was read. One may not be repeated. -/
def withSwitch (r : Reading) (s : Switch) : Progress :=
  if s = .verbose then
    if s ∈ r.switches then .misuse else .proceed { r with switches := s :: r.switches }
  else .answer s

/-- The option waits for its value. -/
def awaiting (r : Reading) (s : Setting) : Progress :=
  .proceed { r with pending := some (.awaiting s) }

/-- Read the letters after a single dash. -/
def withLetters (g : Grammar) (r : Reading) : List Char → Progress
  | [] => .proceed r
  | c :: rest =>
    match (g.switches.find? (·.1 = c)).map (·.2.2) with
    | some s =>
      match r.withSwitch s with
      | .proceed r => r.withLetters g rest
      | other => other
    | none =>
      match (g.settings.find? (·.1 = c)).map (·.2.2), rest with
      | none, _ => .misuse
      | some s, [] => r.awaiting s
      | some s, '=' :: value => .ofOption (r.take? s (String.ofList value))
      | some s, value => .ofOption (r.take? s (String.ofList value))

/-- Read the word after a double dash. -/
def withWord (g : Grammar) (r : Reading) (word : List Char) : Progress :=
  let name := String.ofList (word.takeWhile (· ≠ '='))
  match (g.switches.find? (·.2.1 = name)).map (·.2.2), word.dropWhile (· ≠ '=') with
  | some s, [] => r.withSwitch s
  | some _, _ => .misuse
  | none, attached =>
    match (g.settings.find? (·.2.1 = name)).map (·.2.2), attached with
    | none, _ => .misuse
    | some s, [] => r.awaiting s
    | some s, _ :: value => .ofOption (r.take? s (String.ofList value))

/-- Read an argument that is neither an option nor the value of one. -/
def withPositional (g : Grammar) (r : Reading) (arg : String) : Progress :=
  if r.arguments.length < g.places then .proceed { r with arguments := r.arguments ++ [arg] }
  else .misuse

/-- Read an argument that is not the name of a command. -/
def withArgument (g : Grammar) (r : Reading) (arg : String) : Progress :=
  let settled (read : Reading → Progress) : Progress :=
    match r.settle? with
    | some r => read r
    | none => .misuse
  if r.isPastOptions then settled (·.withPositional g arg)
  else
    match r.pending, arg.toList with
    | some (.awaiting _), '-' :: _ :: _ => .misuse
    | some (.awaiting s), _ => .proceed { r with pending := some (.given s arg) }
    | _, ['-', '-'] => .proceed { r with isPastOptions := true }
    | _, '-' :: '-' :: word => settled (·.withWord g word)
    | _, '-' :: c :: letters => settled (·.withLetters g (c :: letters))
    | _, _ => settled (·.withPositional g arg)

end Reading

/-- The command that a topic and what was read after its name make. -/
def Topic.command? (r : Reading) : Topic → Option Command
  | .config => some .config
  | .routes => some .routes
  | .route => r.arguments.head?.map .route
  | .benchmark =>
    some (.benchmark (((r.value? .count).bind count?).getD 1000)
      ((r.value? .under).getD "/benchmark"))

/-- Read what follows the name of a command. -/
def parseAfter (topic : Topic) (r : Reading) : List String → Request
  | [] =>
    match r.settle? with
    | none => .misuse
    | some r =>
      match topic.command? r with
      | some command => .run ⟨command, r.value? .config⟩
      | none => .misuse
  | arg :: rest =>
    match r.withArgument (.ofTopic topic) arg with
    | .proceed r => parseAfter topic r rest
    | .answer _ => .help (.command topic)
    | .misuse => .misuse

def Topic.ofName? : String → Option Topic
  | "config" => some .config
  | "route" => some .route
  | "routes" => some .routes
  | "benchmark" => some .benchmark
  | _ => none

/-- What help is wanted on. -/
def parseHelp : List String → Request
  | [] => .help .program
  | ["help"] => .help .help
  | [arg] =>
    match Topic.ofName? arg with
    | some topic => .help (.command topic)
    | none => .misuse
  | _ => .misuse

/-- A request, with what was read before the name of its command. Settings after the name
come first. -/
def Request.after (r : Reading) : Request → Request
  | .run i =>
    match r.settle? with
    | some r => .run { i with settings := i.settings.or (r.value? .config) }
    | none => .misuse
  | request => request

/-- Read a command line, as far as the name of its command and then beyond. -/
def parseFrom (r : Reading) : List String → Request
  | [] => .misuse
  | arg :: rest =>
    let mayBeName := ¬ r.IsAwaiting ∧ r.isPastOptions = false
    if mayBeName ∧ arg = "help" then parseHelp rest
    else
      match if mayBeName then Topic.ofName? arg else none with
      | some topic => (parseAfter topic {} rest).after r
      | none =>
        match r.withArgument .main arg with
        | .proceed r => parseFrom r rest
        | .answer .version => .version
        | .answer _ => .help .program
        | .misuse => .misuse

/-- What a list of arguments asks for. -/
def parse (args : List String) : Request := parseFrom {} args

end NamedData.CommandLine
