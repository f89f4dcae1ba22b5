/-
  DependencyScope.Coordinate — artifact coordinates, specs and concrete artifacts.

      group:id:type[:classifier][:version]

  A coordinate names an artifact without a version.  A spec is a coordinate with the raw text of a
  version part, which may be a version, a requirement expression, or absent (an empty part or a
  hyphen).  An artifact is a coordinate with a version.

  Main definitions:
    * `Coordinate.render`, `Coordinate.withVersion`;
    * `Spec.parse`, `Spec.render`; `looksLikeSpec`;
    * `Artifact.parse`, `Artifact.render`.
-/
import DependencyScope.Error

namespace DependencyScope

open DependencyScope.Text

/-! ## §1. Coordinates -/

/-- An artifact without its version. -/
structure Coordinate where
  group : String
  id : String
  type : String
  classifier : Option String := none
  deriving DecidableEq, Repr

namespace Coordinate

/-- The unversioned spec of a coordinate, such as `org.example:lib:jar`. -/
def render (c : Coordinate) : String :=
  c.group ++ ":" ++ c.id ++ ":" ++ c.type ++
    (match c.classifier with
    | some classifier => ":" ++ classifier
    | none => "")

/-- The coordinate with a version after it. -/
def withVersion (c : Coordinate) (version : String) : String := c.render ++ ":" ++ version

end Coordinate

/-! ## §2. Specs -/

/-- A coordinate and the raw text of its version part. -/
structure Spec where
  coordinate : Coordinate
  version : Option String
  deriving DecidableEq, Repr

/-- Whether a text has the shape of a spec, `group:id:type` at least, rather than that of a name
or of a version. -/
def looksLikeSpec (s : String) : Bool := 2 ≤ colons s

namespace Spec

/-- The pieces of a spec, by position: group, id, type, classifier and version. -/
def pieces? : List String → Option (String × String × String × Option String × Option String)
  | [g, i, t] => some (g, i, t, none, none)
  | [g, i, t, v] => some (g, i, t, none, some v)
  | [g, i, t, c, v] => some (g, i, t, some c, some v)
  | _ => none

/-- The first of group, id and type that is blank. -/
def emptyPart? (group id type : String) : Option SpecPart :=
  if trim group = "" then some .group
  else if trim id = "" then some .id
  else if trim type = "" then some .type
  else none

/-- Reads `group:id:type`, `group:id:type:version` or `group:id:type:classifier:version`. -/
def parse (text : String) : Except Error Spec :=
  match pieces? (splitOn ':' (trim text)) with
  | none => .error (.parseWhole (.specShape (trim text)) text)
  | some (group, id, type, classifier, version) =>
    match emptyPart? group id type with
    | some part => .error (.parseWhole (.specPartEmpty (trim text) part) text)
    | none =>
      .ok {
        coordinate := {
          group := trim group
          id := trim id
          type := trim type
          classifier := (classifier.map trim).filter (· ≠ "") }
        version := (version.map trim).filter fun v => v ≠ "" && v ≠ "-" }

/-- The text of a spec. -/
def render (s : Spec) : String :=
  match s.version with
  | some version => s.coordinate.withVersion version
  | none => s.coordinate.render

end Spec

/-! ## §3. Artifacts -/

/-- A coordinate with a version. -/
structure Artifact where
  coordinate : Coordinate
  version : String
  deriving DecidableEq, Repr

namespace Artifact

/-- Reads a concrete spec; one without a version part is refused. -/
def parse (text : String) : Except Error Artifact := do
  let spec ← Spec.parse text
  match spec.version with
  | some version => .ok ⟨spec.coordinate, version⟩
  | none => .error (.parseWhole (.specWithoutVersion (trim text)) text)

/-- The spec of an artifact. -/
def render (a : Artifact) : String := a.coordinate.withVersion a.version

end Artifact

end DependencyScope
