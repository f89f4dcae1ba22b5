/-
  DependencyScope.CommandLine.Command — what the commands print.

  A command prints lines and ends with a code: 0 for success, 1 for failure, 2 for a command line
  that asks for nothing the program knows.

  Main definitions:
    * `Outcome` — output, code and complaint;
    * `Command.outcome` — runs a command;
    * `Request.outcome` — answers a request.
-/
import DependencyScope.CommandLine.Help
import DependencyScope.CommandLine.Json
import DependencyScope.Registry

namespace DependencyScope.CommandLine

/-- How a run of the program ends. -/
structure Outcome where
  output : String := ""
  exitCode : Nat := 0
  /-- What is said about a failure. -/
  complaint : Option String := none

/-- A failure, after some output. -/
def Outcome.failure (output complaint : String) : Outcome :=
  { output, exitCode := 1, complaint := some complaint }

/-! ## §1. Requirements -/

/-- What has been printed about versions, and how many of them did not meet the requirement. -/
structure Tally where
  lines : List String := []
  unsatisfied : Nat := 0

/-- Checks versions in order; the first that is no version ends the run. -/
def checkVersions (requirement : Requirement) (total : Nat) (tally : Tally) :
    List String → Outcome
  | [] =>
    if tally.unsatisfied = 0 then { output := ofLines tally.lines }
    else .failure (ofLines tally.lines) (toString tally.unsatisfied ++ " of " ++ toString total ++
      " versions do not satisfy " ++ requirement.source)
  | version :: rest =>
    match requirement.satisfiedBy version with
    | .error error => .failure (ofLines tally.lines) error.message
    | .ok true =>
      checkVersions requirement total
        { tally with lines := tally.lines ++ [version ++ ": satisfied"] } rest
    | .ok false =>
      checkVersions requirement total
        ⟨tally.lines ++ [version ++ ": unsatisfied"], tally.unsatisfied + 1⟩ rest

/-- Checks versions against a requirement. -/
def check (requirement : String) (versions : List String) : Outcome :=
  match Requirement.parse requirement with
  | .error error => .failure "" error.message
  | .ok requirement => checkVersions requirement versions.length {} versions

/-- Prints the default version of a requirement. -/
def printDefault (requirement : String) : Outcome :=
  match Requirement.parse requirement with
  | .error error => .failure "" error.message
  | .ok requirement => { output := ofLines [requirement.default?.getD "(none)"] }

/-! ## §2. Profiles -/

/-- The artifacts for each key, from a profile and the namespace of a scope. -/
def resolved (profile : Profile) (scope : Option String) (keys : List String) :
    Action (Std.TreeMap String (List Artifact)) := do
  Registry.load profile
  if let some scope := scope then
    Action.update fun s => { s with projects := s.projects ++ [scope] }
  keys.foldlM (fun found key => do
    let artifacts ← Action.ofExcept (← Action.read (Registry.artifacts [key]).run)
    return found.insert key artifacts) ∅

/-- The line for a key: the specs of its artifacts. -/
def resolvedLine (found : Std.TreeMap String (List Artifact)) (key : String) : String :=
  key ++ " = " ++ String.intercalate ", " ((found.getD key []).map Artifact.render)

/-- Resolves keys through the namespaces of a profile. -/
def resolve (profile : Profile) (scope : Option String) (json : Bool) (keys : List String) :
    Outcome :=
  match ((resolved profile scope keys).run {}).1 with
  | .error error => .failure "" error.message
  | .ok found =>
    { output := ofLines (if json then [jsonOfResolved found] else keys.map (resolvedLine found)) }

/-! ## §3. Commands and requests -/

/-- Runs a command.  `contents` gives the text of the file at a path, if it can be read. -/
def Command.outcome (contents : String → Option String) : Command → Outcome
  | .check requirement versions => CommandLine.check requirement versions
  | .default requirement => printDefault requirement
  | .resolve path scope json keys =>
    match contents path with
    | none => .failure "" (Error.profile (.unreadable path)).message
    | some text =>
      match Profile.parse text with
      | .error error => .failure "" error.message
      | .ok profile => CommandLine.resolve profile scope json keys

/-- Answers a request.  The environment may suggest a profile. -/
def Request.outcome (profile : Option String) (contents : String → Option String) :
    Option Request → Outcome
  | none => { exitCode := 2, complaint := some "unknown usage; see depns --help" }
  | some .version => { output := versionText }
  | some (.help topic full) => { output := helpText profile topic full }
  | some (.run command) => command.outcome contents

/-- The file that a request needs to read. -/
def Request.path? : Option Request → Option String
  | some (.run (.resolve path _ _ _)) => some path
  | _ => none

end DependencyScope.CommandLine
