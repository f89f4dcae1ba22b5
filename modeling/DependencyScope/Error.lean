/-
  DependencyScope.Error — every way an operation of this library can fail.

  An error is one of seven kinds, and says why in a reason of its own type; the wording of all
  reasons stands in this module.  Parse errors carry the text that was read and the stretch of it
  they point at.  Parse and profile errors also offer a hint.

  Main definitions:
    * `ParseReason`, `MismatchReason`, `LookupReason`, `ParentReason`, `ProfileReason`;
    * `Error`, `Error.message`, `Error.hint?`, `Error.labels`;
    * `Fault` — a parse reason with its place, for readers that do not hold the whole text.
-/
import DependencyScope.Requirement.Token
import DependencyScope.Text.Quoted

namespace DependencyScope

open DependencyScope.Text

/-! ## §1. Why a text cannot be read -/

/-- The parts of an artifact spec that must not be empty. -/
inductive SpecPart where
  | group
  | id
  | type
  deriving DecidableEq, Repr

/-- The name of a spec part. -/
def SpecPart.label : SpecPart → String
  | .group => "group"
  | .id => "id"
  | .type => "type"

/-- Why a version, requirement or spec cannot be read. -/
inductive ParseReason where
  | versionCharacter (c : Char) (version : String)
  | versionWithoutDigit (version : String)
  | requirementEmpty
  | requirementCharacter (c : Char) (offset : Nat)
  | operatorUnknown (offset : Nat)
  | operandInvalid (word : String) (offset : Nat)
  | requirementEnds
  | operandMissing (comparator : Comparator)
  | operandExpected (comparator : Comparator) (found : TokenKind)
  | termExpected (found : TokenKind)
  | bracketUnclosed
  | bracketUnopened
  | specShape (spec : String)
  | specPartEmpty (spec : String) (part : SpecPart)
  | specWithoutVersion (spec : String)
  | needShape
  /-- Any other reason, in words of its own. -/
  | said (text : String)
  deriving DecidableEq

/-- The wording of a parse reason. -/
def ParseReason.message : ParseReason → String
  | .versionCharacter c version =>
    "invalid character " ++ quotedChar c ++ " in version " ++ quoted version
  | .versionWithoutDigit version =>
    "invalid version " ++ quoted version ++ ": a version needs at least one digit"
  | .requirementEmpty => "empty requirement"
  | .requirementCharacter c offset =>
    "invalid character " ++ quotedChar c ++ " at position " ++ toString offset
  | .operatorUnknown offset =>
    "unknown operator '~' at position " ++ toString offset ++ ", expected '~>'"
  | .operandInvalid word offset =>
    "invalid version operand " ++ quoted word ++ " at position " ++ toString offset
  | .requirementEnds => "unexpected end of requirement, expected a version"
  | .operandMissing comparator => "expected a version after '" ++ comparator.symbol ++ "'"
  | .operandExpected comparator found =>
    "expected a version after '" ++ comparator.symbol ++ "', found " ++ found.render
  | .termExpected found => "expected a version or '(' but found " ++ found.render
  | .bracketUnclosed => "unmatched '('"
  | .bracketUnopened => "unmatched ')'"
  | .specShape spec => "expected group:id:type[:classifier][:version], got " ++ quoted spec
  | .specPartEmpty spec part => "artifact spec " ++ quoted spec ++ " has an empty " ++ part.label
  | .specWithoutVersion spec => "artifact spec " ++ quoted spec ++ " has no version"
  | .needShape => "a need spec has at most three `->` separated parts"
  | .said text => text

/-! ## §2. Why an operation is refused -/

/-- Why a key cannot hold what is assigned to it. -/
inductive MismatchReason where
  | groupEmpty
  | holdsNamespace
  | holdsDependency
  | containsItself
  | enclosingNamespace
  | namespaceAliased
  | namespaceNeeded
  /-- Any other reason, in words of its own. -/
  | said (text : String)
  deriving DecidableEq

/-- The wording of a mismatch. -/
def MismatchReason.message : MismatchReason → String
  | .groupEmpty => "an artifact group needs at least one spec"
  | .holdsNamespace => "is a sub-namespace; reopen it with ns()"
  | .holdsDependency => "holds an artifact requirement, not a sub-namespace"
  | .containsItself => "a namespace cannot contain itself"
  | .enclosingNamespace => "is a namespace in an enclosing scope"
  | .namespaceAliased => "is a sub-namespace and cannot be aliased"
  | .namespaceNeeded => "a namespace cannot be needed"
  | .said text => text

/-- Why nothing is found for a key. -/
inductive LookupReason where
  | coordinateUnregistered (namespaceName : String)
  | undefined
  | artifactUndefined
  | enclosingUndefined (namespaceName : String)
  | nothingToAlias
  | coordinateUndeclared
  | severalArtifacts
  | coordinateMissing
  | versionMissing
  | artifactNotFound (namespaceName : String)
  | parentByName
  /-- Any other reason, in words of its own. -/
  | said (text : String)
  deriving DecidableEq

/-- The wording of a failed look-up. -/
def LookupReason.message : LookupReason → String
  | .coordinateUnregistered name => "no artifact registered for this coordinate in " ++ name
  | .undefined => "undefined artifact or namespace"
  | .artifactUndefined => "undefined artifact"
  | .enclosingUndefined name => "no namespace enclosing " ++ name ++ " defines it"
  | .nothingToAlias => "nothing to alias"
  | .coordinateUndeclared => "has no artifact coordinate to declare"
  | .severalArtifacts => "a group names several artifacts"
  | .coordinateMissing => "no artifact coordinate declared"
  | .versionMissing => "no version selected"
  | .artifactNotFound name => "no artifact found from namespace " ++ name
  | .parentByName => "a detached namespace cannot resolve its parent by name"
  | .said text => text

/-- Why the parent of a namespace cannot be set. -/
inductive ParentReason where
  | rootHasNone
  | wouldCycle (candidate : String)
  /-- Any other reason, in words of its own. -/
  | said (text : String)
  deriving DecidableEq

/-- The wording of a refused parent. -/
def ParentReason.message : ParentReason → String
  | .rootHasNone => "the root namespace has no parent"
  | .wouldCycle candidate => "making " ++ candidate ++ " its parent would create a cycle"
  | .said text => text

/-- Why a profile cannot be used. -/
inductive ProfileReason where
  | malformed
  | unreadable (path : String)
  /-- Any other reason, in words of its own. -/
  | said (text : String)
  deriving DecidableEq

/-- The wording of an unusable profile. -/
def ProfileReason.message : ProfileReason → String
  | .malformed => "Failed to parse artifact profile"
  | .unreadable path => "Failed to read artifact profile " ++ path
  | .said text => text

/-! ## §3. Errors -/

/-- A failure of an operation. -/
inductive Error where
  /-- An input or output operation failed. -/
  | io (message : String)
  /-- A text is no version, requirement or spec; `span` is the stretch of `input` to blame. -/
  | parse (reason : ParseReason) (input : String) (span : Span)
  /-- A version conflicts with a declared requirement. -/
  | unsatisfied (name spec requirement : String)
  /-- A key holds, or would hold, a value of another kind. -/
  | typeMismatch (key : String) (reason : MismatchReason)
  /-- Nothing is found for a key. -/
  | lookup (key : String) (reason : LookupReason)
  /-- The tree of namespaces may not be changed in this way. -/
  | parent (namespaceName : String) (reason : ParentReason)
  /-- A profile is malformed or unreadable. -/
  | profile (reason : ProfileReason)
  deriving DecidableEq

namespace Error

/-- A parse error that blames the whole input. -/
def parseWhole (reason : ParseReason) (input : String) : Error :=
  .parse reason input ⟨0, input.utf8ByteSize⟩

/-- The text of an error. -/
def message : Error → String
  | .io message => "I/O error: " ++ message
  | .parse reason _ _ => "Parse error: " ++ reason.message
  | .unsatisfied name spec requirement =>
    "Unsatisfied requirement for " ++ name ++ ": " ++ spec ++ " does not satisfy " ++ requirement
  | .typeMismatch key reason => "Type mismatch for " ++ key ++ ": " ++ reason.message
  | .lookup key reason => "Lookup failed for " ++ key ++ ": " ++ reason.message
  | .parent name reason => "Cannot set parent of " ++ name ++ ": " ++ reason.message
  | .profile reason => "Config error: " ++ reason.message

/-- The hint that goes with an error. -/
def hint? : Error → Option String
  | .parse _ _ _ =>
    some ("Requirements look like `>=1.0 & <2.0 | 3.0`; " ++
      "versions use [A-Za-z0-9.-] and need a digit")
  | .profile _ => some "Check the [artifacts.<namespace>] tables of your profile"
  | _ => none

/-- The stretches of the input that an error points at, each with its label. -/
def labels : Error → List (String × Span)
  | .parse _ _ span => [("here", span)]
  | _ => []

end Error

/-! ## §4. Faults -/

/-- What is wrong at a stretch of a text, before the text itself is put into the error. -/
structure Fault where
  reason : ParseReason
  span : Span
  deriving DecidableEq

/-- The error of reading `input` that a fault amounts to. -/
def Fault.toError (fault : Fault) (input : String) : Error :=
  .parse fault.reason input fault.span

end DependencyScope
