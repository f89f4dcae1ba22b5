/-
  DependencyScope.CommandLine.Help — what the program says about itself.

  The program as a whole has a summary and a full text; a command has one text.

  Main definitions:
    * `helpText` — the text about a topic;
    * `versionText` — the name and version of the program.
-/
import DependencyScope.CommandLine.Arguments

namespace DependencyScope.CommandLine

/-- The lines as one text, each with its line end. -/
def ofLines (lines : List String) : String := String.join (lines.map (· ++ "\n"))

/-- The name and the version of the program. -/
def versionText : String := "depns 0.1.0\n"

/-- The usage and the commands of the program. -/
def programOverview : List String := [
  "",
  "Usage: depns [OPTIONS] <COMMAND>",
  "",
  "Commands:",
  "  check    Check versions against a requirement expression",
  "  default  Print the default version a requirement implies",
  "  resolve  Resolve artifact keys through a profile's namespaces",
  "  help     Print this message or the help of the given subcommand(s)",
  "",
  "Options:"]

/-- The summary about the program. -/
def programSummary : List String :=
  ["Check version requirements and resolve artifact namespaces"] ++ programOverview ++ [
    "  -v, --verbose  Enable debug logging",
    "  -h, --help     Print help (see more with '--help')",
    "  -V, --version  Print version"]

/-- The full text about the program. -/
def programText : List String :=
  ["depns evaluates version requirement expressions such as `>=1.0 & <2 | 3.0` and resolves " ++
    "named artifacts through a tree of project namespaces loaded from a TOML artifact profile."] ++
  programOverview ++ [
    "  -v, --verbose",
    "          Enable debug logging",
    "",
    "  -h, --help",
    "          Print help (see a summary with '-h')",
    "",
    "  -V, --version",
    "          Print version"]

/-- The text about the command `check`. -/
def checkText : List String := [
  "Check versions against a requirement expression",
  "",
  "Usage: depns check [OPTIONS] <REQUIREMENT> <VERSIONS>...",
  "",
  "Arguments:",
  "  <REQUIREMENT>  Requirement expression, e.g. \"~>1.5 | 2.0\"",
  "  <VERSIONS>...  Versions to check",
  "",
  "Options:",
  "  -v, --verbose  Enable debug logging",
  "  -h, --help     Print help"]

/-- The text about the command `default`. -/
def defaultText : List String := [
  "Print the default version a requirement implies",
  "",
  "Usage: depns default [OPTIONS] <REQUIREMENT>",
  "",
  "Arguments:",
  "  <REQUIREMENT>  Requirement expression",
  "",
  "Options:",
  "  -v, --verbose  Enable debug logging",
  "  -h, --help     Print help"]

/-- The text about the command `resolve`; it shows the profile that the environment suggests. -/
def resolveText (profile : Option String) : List String := [
  "Resolve artifact keys through a profile's namespaces",
  "",
  "Usage: depns resolve [OPTIONS] --profile <PROFILE> <KEYS>...",
  "",
  "Arguments:",
  "  <KEYS>...  Names, unversioned specs or sub-namespaces to resolve",
  "",
  "Options:",
  "  -p, --profile <PROFILE>  Artifact profile (TOML) [env: DEPNS_PROFILE=" ++
    profile.getD "" ++ "]",
  "  -s, --scope <SCOPE>      Namespace to resolve from, e.g. \"foo:bar\" (defaults to root)",
  "      --json               Print a JSON object instead of lines",
  "  -v, --verbose            Enable debug logging",
  "  -h, --help               Print help"]

/-- The text about the command `help`. -/
def helpHelpText : List String := [
  "Print this message or the help of the given subcommand(s)",
  "",
  "Usage: depns help [COMMAND]...",
  "",
  "Arguments:",
  "  [COMMAND]...  Print help for the subcommand(s)"]

/-- The text about a topic. -/
def helpText (profile : Option String) (topic : Topic) (full : Bool) : String :=
  ofLines <| match topic with
    | .program => if full then programText else programSummary
    | .check => checkText
    | .default => defaultText
    | .resolve => resolveText profile
    | .help => helpHelpText

end DependencyScope.CommandLine
