/-
  DependencyScope.CommandLine.Arguments — from the words of a command line to a request.

  Words are read from left to right.  A word that begins with a hyphen and is not a hyphen alone is
  an option, until the word `--` ends the options; a long option may have its value after an
  equality sign, and short options may be written together.  The first fault, or the first option
  that asks for help or for the version, decides.

  Main definitions:
    * `Flag`, `Arguments`, `Arguments.read` — options and operands;
    * `Command`, `Request`, `Request.ofWords` — what a command line asks for.
-/

namespace DependencyScope.CommandLine

/-! ## §1. Options -/

/-- The options of all commands. -/
inductive Flag where
  | verbose
  | help
  | version
  | profile
  | scope
  | json
  deriving DecidableEq, Repr

namespace Flag

/-- The letter of an option. -/
def letter? : Flag → Option Char
  | .verbose => some 'v'
  | .help => some 'h'
  | .version => some 'V'
  | .profile => some 'p'
  | .scope => some 's'
  | .json => none

/-- The word of an option. -/
def word : Flag → String
  | .verbose => "verbose"
  | .help => "help"
  | .version => "version"
  | .profile => "profile"
  | .scope => "scope"
  | .json => "json"

/-- Whether an option has a value. -/
def takesValue : Flag → Bool
  | .profile | .scope => true
  | .verbose | .help | .version | .json => false

/-- Whether a value of an option may be empty. -/
def mayBeEmpty : Flag → Bool
  | .profile => false
  | _ => true

end Flag

/-! ## §2. Reading words -/

/-- Why reading ends before the last word. -/
inductive Stop where
  /-- The words are no command line. -/
  | misuse
  /-- Help is asked for, in full or as a summary. -/
  | help (full : Bool)
  /-- The version is asked for. -/
  | version
  deriving DecidableEq, Repr

/-- The words that have been read: options with their values, and operands. -/
structure Arguments where
  flags : List (Flag × String) := []
  operands : List String := []

namespace Arguments

/-- Whether an option was given. -/
def has (a : Arguments) (flag : Flag) : Bool := a.flags.any (·.1 = flag)

/-- The value of an option. -/
def valueOf? (a : Arguments) (flag : Flag) : Option String :=
  (a.flags.find? (·.1 = flag)).map Prod.snd

/-- Adds an option with its value; no option is given twice. -/
def add (a : Arguments) (flag : Flag) (value : String) : Except Stop Arguments :=
  if a.has flag || (value.isEmpty && !flag.mayBeEmpty) then .error .misuse
  else .ok { a with flags := a.flags ++ [(flag, value)] }

/-- Adds an option without a value; asking for help or for the version ends the reading. -/
def raise (a : Arguments) (full : Bool) : Flag → Except Stop Arguments
  | .help => .error (.help full)
  | .version => .error .version
  | flag => a.add flag ""

/-- Reads short options that are written together.  The last one may still need its value. -/
def readLetters (known : List Flag) (a : Arguments) :
    List Char → Except Stop (Arguments × Option Flag)
  | [] => .ok (a, none)
  | c :: rest =>
    match known.find? (·.letter? = some c) with
    | none => .error .misuse
    | some flag =>
      if flag.takesValue then
        match rest with
        | [] => .ok (a, some flag)
        | '=' :: value => (a.add flag (String.ofList value)).map (·, none)
        | value => (a.add flag (String.ofList value)).map (·, none)
      else
        match a.raise false flag with
        | .error stop => .error stop
        | .ok a => readLetters known a rest

/-- Reads a long option, without its hyphens.  It may still need its value. -/
def readLong (known : List Flag) (a : Arguments) (word : List Char) :
    Except Stop (Arguments × Option Flag) :=
  let name := String.ofList (word.takeWhile (· ≠ '='))
  match known.find? (·.word = name), word.dropWhile (· ≠ '=') with
  | none, _ => .error .misuse
  | some flag, [] =>
    if flag.takesValue then .ok (a, some flag) else (a.raise true flag).map (·, none)
  | some flag, _ :: value =>
    if flag.takesValue then (a.add flag (String.ofList value)).map (·, none) else .error .misuse

/-- Reads an option if the word is one. -/
def readOption? (known : List Flag) (a : Arguments) (word : String) :
    Option (Except Stop (Arguments × Option Flag)) :=
  match word.toList with
  | '-' :: '-' :: long => some (a.readLong known long)
  | '-' :: c :: letters => some (a.readLetters known (c :: letters))
  | _ => none

/-- Whether a word can be the value of the option before it. -/
def isValue (word : String) : Bool :=
  match word.toList with
  | '-' :: _ :: _ => false
  | _ => true

/-- Adds an operand, of which a command may have a limited number. -/
def addOperand (a : Arguments) (limit : Option Nat) (word : String) : Except Stop Arguments :=
  if limit.any (· ≤ a.operands.length) then .error .misuse
  else .ok { a with operands := a.operands ++ [word] }

/-- Reads the words of a command with the given options and at most `limit` operands. -/
def read (known : List Flag) (limit : Option Nat) (a : Arguments) :
    List String → Except Stop Arguments
  | [] => .ok a
  | "--" :: rest => rest.foldlM (·.addOperand limit) a
  | word :: rest =>
    match a.readOption? known word with
    | none =>
      match a.addOperand limit word with
      | .error stop => .error stop
      | .ok a => read known limit a rest
    | some (.error stop) => .error stop
    | some (.ok (a, none)) => read known limit a rest
    | some (.ok (a, some flag)) =>
      match rest with
      | [] => .error .misuse
      | value :: rest =>
        if isValue value then
          match a.add flag value with
          | .error stop => .error stop
          | .ok a => read known limit a rest
        else .error .misuse

end Arguments

/-! ## §3. Commands -/

/-- What the program does. -/
inductive Command where
  /-- Checks versions against a requirement. -/
  | check (requirement : String) (versions : List String)
  /-- Prints the default version of a requirement. -/
  | default (requirement : String)
  /-- Resolves keys through the namespaces of a profile. -/
  | resolve (profile : String) (scope : Option String) (json : Bool) (keys : List String)
  deriving DecidableEq, Repr

/-- What help can be about. -/
inductive Topic where
  | program
  | check
  | default
  | resolve
  | help
  deriving DecidableEq, Repr

/-- What a command line asks for. -/
inductive Request where
  | run (command : Command)
  | help (topic : Topic) (full : Bool)
  | version
  deriving DecidableEq, Repr

namespace Request

/-- The topic that the name of a command stands for. -/
def topic? : String → Option Topic
  | "check" => some .check
  | "default" => some .default
  | "resolve" => some .resolve
  | "help" => some .help
  | _ => none

/-- The request that the words after `help` make: help about a command has no parts of its own. -/
def ofHelpWords : List String → Option Request
  | [] => some (.help .program true)
  | [name] => (topic? name).map (.help · true)
  | _ => none

/-- The request that ending the reading early makes. -/
def ofStop (topic : Topic) : Stop → Option Request
  | .misuse => none
  | .help full => some (.help topic full)
  | .version => some .version

/-- The command that the arguments of a topic make.  The profile may also be given by `profile`. -/
def ofArguments (profile : Option String) (topic : Topic) (a : Arguments) : Option Request :=
  match topic, a.operands with
  | .check, requirement :: v :: versions => some (.run (.check requirement (v :: versions)))
  | .default, [requirement] => some (.run (.default requirement))
  | .resolve, key :: keys => do
    let path ← (a.valueOf? .profile).or profile
    if path.isEmpty then none
    else some (.run (.resolve path (a.valueOf? .scope) (a.has .json) (key :: keys)))
  | _, _ => none

/-- The options of a command. -/
def flagsOf : Topic → List Flag
  | .program => [.verbose, .help, .version]
  | .resolve => [.profile, .scope, .json, .verbose, .help]
  | .check | .default | .help => [.verbose, .help]

/-- How many operands a command may have. -/
def limitOf : Topic → Option Nat
  | .default => some 1
  | .program | .help => some 0
  | .check | .resolve => none

/-- The request that the words after the name of a command make. -/
def ofCommandWords (profile : Option String) (topic : Topic) (words : List String) :
    Option Request :=
  match Arguments.read (flagsOf topic) (limitOf topic) {} words with
  | .ok a => ofArguments profile topic a
  | .error stop => ofStop topic stop

/-- The request that the words of a command line make after the options in `a`, if they make one.
Options before the name of a command are those of the program itself. -/
def ofWordsAfter (profile : Option String) (a : Arguments) : List String → Option Request
  | [] => none
  | "--" :: _ => none
  | word :: rest =>
    match a.readOption? (flagsOf .program) word with
    | some (.ok (a, _)) => ofWordsAfter profile a rest
    | some (.error stop) => ofStop .program stop
    | none =>
      match topic? word with
      | none => none
      | some .help => ofHelpWords rest
      | some topic => ofCommandWords profile topic rest

/-- The request that the words of a command line make, if they make one.  The environment may
suggest a profile. -/
def ofWords (profile : Option String) (words : List String) : Option Request :=
  ofWordsAfter profile {} words

end Request

end DependencyScope.CommandLine
