import NamedData.CommandLine.Arguments

/-!
# Help texts

## Main definitions

* `CommandLine.Subject.lines`, the lines that explain the program, a command or the help
* `CommandLine.versionLine`
-/
namespace NamedData.CommandLine

/-- The name and version of the program. -/
def versionLine : String := "ndnfw 0.1.0"

/-- The explanation of the whole program. -/
def programHelp : List String :=
  ["An NDN forwarding pipeline: FIB, PIT, content store and Dead Nonce List",
    "",
    "Usage: ndnfw [OPTIONS] <COMMAND>",
    "",
    "Commands:",
    "  config     Print the effective configuration as JSON",
    "  route      Show the FIB entry a name resolves to",
    "  routes     Show every configured FIB entry",
    "  benchmark  Run Interest/Data exchanges through an in-process forwarder",
    "  help       Print this message or the help of the given subcommand(s)",
    "",
    "Options:",
    "  -v, --verbose          Sets the level of verbosity",
    "  -c, --config <CONFIG>  Configuration file (TOML, JSON or YAML)",
    "  -h, --help             Print help",
    "  -V, --version          Print version"]

/-- The explanation of a command. -/
def Topic.help : Topic → List String
  | .config =>
    ["Print the effective configuration as JSON", "",
      "Usage: ndnfw config [OPTIONS]", ""] ++ options
  | .route =>
    ["Show the FIB entry a name resolves to", "",
      "Usage: ndnfw route [OPTIONS] <NAME>", "",
      "Arguments:",
      "  <NAME>  Name to look up (NDN URI format)", ""] ++ options
  | .routes =>
    ["Show every configured FIB entry", "",
      "Usage: ndnfw routes [OPTIONS]", ""] ++ options
  | .benchmark =>
    ["Run Interest/Data exchanges through an in-process forwarder", "",
      "Usage: ndnfw benchmark [OPTIONS]", "",
      "Options:",
      "  -n, --count <COUNT>    Number of Interests to send [default: 1000]",
      "  -v, --verbose          Sets the level of verbosity",
      "  -c, --config <CONFIG>  Configuration file (TOML, JSON or YAML)",
      "  -p, --prefix <PREFIX>  Name prefix to use for benchmark [default: /benchmark]",
      "  -h, --help             Print help"]
where
  options : List String :=
    ["Options:",
      "  -v, --verbose          Sets the level of verbosity",
      "  -c, --config <CONFIG>  Configuration file (TOML, JSON or YAML)",
      "  -h, --help             Print help"]

/-- The explanation of the help. -/
def helpHelp : List String :=
  ["Print this message or the help of the given subcommand(s)", "",
    "Usage: ndnfw help [COMMAND]...", "",
    "Arguments:",
    "  [COMMAND]...  Print help for the subcommand(s)"]

def Subject.lines : Subject → List String
  | .program => programHelp
  | .command topic => topic.help
  | .help => helpHelp

end NamedData.CommandLine
