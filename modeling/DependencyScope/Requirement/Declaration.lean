/-
  DependencyScope.Requirement.Declaration — what the version text of a spec declares.

      g:i:t:1.2             selects, or suggests, the version 1.2
      g:i:t:>=1 <2          demands a version and suggests 1
      name -> g:i:t:1.5 -> ~>1.2

  A need spec is `coordinate`, `name -> coordinate`, `coordinate -> requirement` or
  `name -> coordinate -> requirement`.

  Main definitions:
    * `VersionText` — a version part is a version or a requirement;
    * `NeedSpec.parse` — the parts of a need spec;
    * `Declaration.make` — the requirement and the default version that a need declares.
-/
import DependencyScope.Requirement.Basic
import DependencyScope.Coordinate

namespace DependencyScope

open DependencyScope.Text

/-! ## §1. Version parts -/

/-- What the version part of a spec says. -/
inductive VersionText where
  /-- One version. -/
  | plain (version : Version)
  /-- A requirement on versions. -/
  | constraint (requirement : Requirement)

/-- Reads a version part: a valid version is taken as one, anything else as a requirement. -/
def VersionText.parse (text : String) : Except Error VersionText :=
  match Version.ofText? text with
  | some version => .ok (.plain version)
  | none => (Requirement.parse text).map .constraint

/-! ## §2. Declarations -/

/-- A declared requirement and the version it suggests. -/
structure Declaration where
  requirement : Option Requirement := none
  default : Option String := none

/-- What a version part and an explicit requirement declare together.  Without an explicit
requirement the version part is the requirement; with one, a version part names the default. -/
def Declaration.make (version requirement : Option String) : Except Error Declaration :=
  match version, requirement with
  | version, some text => do
    let requirement ← Requirement.parse text
    match version with
    | none => return ⟨some requirement, requirement.default?⟩
    | some text =>
      match Version.ofText? text with
      | some version => return ⟨some requirement, some version.text⟩
      | none => return ⟨some requirement, (← Requirement.parse text).default?⟩
  | some text, none => do
    let requirement ← Requirement.parse text
    return ⟨some requirement, requirement.default?⟩
  | none, none => .ok {}

/-! ## §3. Need specs -/

/-- The parts of a need spec. -/
structure NeedSpec where
  name : Option String
  spec : Spec
  requirement : Option String

namespace NeedSpec

/-- The name, the coordinate and the requirement among the trimmed pieces of a need spec. -/
def pieces? : List String → Option (Option String × String × Option String)
  | [coordinate] => some (none, coordinate, none)
  | [first, second] =>
    if looksLikeSpec first then some (none, first, some second) else some (some first, second, none)
  | [name, coordinate, requirement] => some (some name, coordinate, some requirement)
  | _ => none

/-- Reads a need spec; blank names and requirements count as absent. -/
def parse (text : String) : Except Error NeedSpec :=
  match pieces? ((splitOnArrow text).map trim) with
  | none => .error (.parseWhole .needShape text)
  | some (name, coordinate, requirement) =>
    (Spec.parse coordinate).map fun spec => {
      name := name.filter (· ≠ "")
      spec
      requirement := requirement.filter (· ≠ "") }

/-- The key that a need spec declares: its name, or else the id of its artifact. -/
def key (need : NeedSpec) : String := need.name.getD need.spec.coordinate.id

/-- The requirement and default version that a need spec declares. -/
def declaration (need : NeedSpec) : Except Error Declaration :=
  Declaration.make need.spec.version need.requirement

end NeedSpec

end DependencyScope
