/-
  DependencyScope.Version.Basic — versions and the parts they are compared by.

  A version is a text over `[A-Za-z0-9.-]` with at least one digit.  Its parts are the maximal runs
  of digits and of letters, in order; dots and hyphens only separate.  A run of digits is a number,
  and a run of letters is a known stage of a release (in any letter case) or some other word.

      1.0rc3   has the parts   1, 0, rc, 3

  Main definitions:
    * `Part` — one comparable piece;
    * `Version` — a text together with the proof that it is well formed;
    * `Version.parts` — the pieces of a version.
-/
import DependencyScope.Text.Blank
import DependencyScope.Text.Split

namespace DependencyScope

open DependencyScope.Text

/-! ## §1. Parts -/

/-- The stages of a release that are known by name, from the earliest to the latest. -/
inductive Stage where
  | alpha
  | beta
  | milestone
  | candidate
  | snapshot
  | release
  | servicePack
  deriving DecidableEq, Repr

/-- The position of a stage in the order of stages. -/
def Stage.rank : Stage → Nat
  | .alpha => 0
  | .beta => 1
  | .milestone => 2
  | .candidate => 3
  | .snapshot => 4
  | .release => 5
  | .servicePack => 6

/-- The stage that a word in lower case names. -/
def Stage.ofWord? : String → Option Stage
  | "alpha" | "a" => some .alpha
  | "beta" | "b" => some .beta
  | "milestone" | "m" => some .milestone
  | "rc" | "cr" => some .candidate
  | "snapshot" => some .snapshot
  | "release" | "ga" | "final" => some .release
  | "sp" => some .servicePack
  | _ => none

/-- One comparable piece of a version. -/
inductive Part where
  /-- A run of digits, taken as a number of any length. -/
  | number (value : Nat)
  | stage (known : Stage)
  /-- A run of letters in lower case that names no stage. -/
  | word (text : String)
  deriving DecidableEq, Repr

/-- The number that a run of decimal digits writes. -/
def digitsValue (digits : List Char) : Nat :=
  digits.foldl (fun value digit => 10 * value + (digit.toNat - '0'.toNat)) 0

/-- The part that a run stands for. -/
def Part.ofRun (run : List Char) : Part :=
  if run.all Char.isDigit then .number (digitsValue run)
  else
    let text := lower (String.ofList run)
    match Stage.ofWord? text with
    | some known => .stage known
    | none => .word text

/-! ## §2. Runs -/

/-- Dots and hyphens separate the runs of a version. -/
def isSeparator (c : Char) : Bool := c = '.' || c = '-'

/-- Whether two neighbouring characters stand in one run: neither separates, and both are digits
or neither is. -/
def sameRun (c d : Char) : Bool :=
  !isSeparator c && !isSeparator d && c.isDigit == d.isDigit

/-- The maximal runs of digits and of other characters between the separators, in order. -/
def runs : List Char → List (List Char)
  | [] => []
  | c :: rest =>
    if isSeparator c then runs rest
    else
      match rest.head?, runs rest with
      | some d, run :: later => if sameRun c d then (c :: run) :: later else [c] :: run :: later
      | _, later => [c] :: later

/-! ## §3. Versions -/

/-- The characters that a version is made of. -/
def isVersionChar (c : Char) : Bool := c.isAlphanum || c = '.' || c = '-'

/-- Whether a text, taken as it stands, is a version: version characters only, and a digit. -/
def isVersionText (text : String) : Bool :=
  text.toList.all isVersionChar && text.toList.any Char.isDigit

/-- A well-formed version. -/
structure Version where
  text : String
  wellFormed : isVersionText text = true
  deriving DecidableEq

namespace Version

/-- The comparable pieces of a version, in order. -/
def parts (v : Version) : List Part := (runs v.text.toList).map Part.ofRun

/-- Whether a text is a version once its blank ends are dropped. -/
def isValid (text : String) : Bool := isVersionText (trim text)

/-- The version that a text writes, once its blank ends are dropped. -/
def ofText? (text : String) : Option Version :=
  if h : isVersionText (trim text) then some ⟨trim text, h⟩ else none

end Version

end DependencyScope
