/-
  DependencyScope.Store.Dependency — one named dependency, and what may happen to it.

  A dependency is held under a key.  It may have the coordinate of an artifact, a declared
  requirement with a default version, and a selected version.  A dependency with members is a group
  and stands for all of them.  The operations of this module are pure: they take a dependency to
  the next one or say why they are refused.

  Main definitions:
    * `Dependency` — the record;
    * `Dependency.select`, `Dependency.declare` — one step each;
    * `Dependency.choose` — applies a version part: a version selects, a requirement narrows;
    * `Dependency.adopt` — takes over the selection of an enclosing namespace.
-/
import DependencyScope.Requirement.Declaration

namespace DependencyScope

/-! ## §1. The record -/

/-- The serial number of a dependency; two holders of one number share the dependency. -/
abbrev DependencyId := Nat

/-- Something that is told of selections: it records them under a label, and it may pass the
selected version on to another dependency. -/
structure Listener where
  label : String
  chain : Option DependencyId := none

/-- A named dependency. -/
structure Dependency where
  key : String
  coordinate : Option Coordinate := none
  requirement : Option Requirement := none
  /-- The version that the declaration suggests while none is selected. -/
  defaultVersion : Option String := none
  selected : Option Version := none
  /-- The dependencies that a group stands for; none if this is no group. -/
  members : List DependencyId := []
  listeners : List Listener := []

namespace Dependency

/-- Whether the dependency stands for several others. -/
def isGroup (d : Dependency) : Bool := !d.members.isEmpty

/-- The text of the selected version. -/
def selectedText (d : Dependency) : Option String := d.selected.map Version.text

/-- The selected version, or the default while none is selected. -/
def version (d : Dependency) : Option String := d.selectedText.or d.defaultVersion

/-- The unversioned spec of the artifact. -/
def unversioned (d : Dependency) : Option String := d.coordinate.map Coordinate.render

/-- Whether the dependency may stand for `coordinate`: it has that coordinate or none yet. -/
def admits (d : Dependency) (coordinate : Coordinate) : Bool :=
  d.coordinate.all (· = coordinate)

/-- The spec of the dependency with a version of `text`. -/
def specWith (d : Dependency) (text : String) : String :=
  match d.coordinate with
  | some coordinate => coordinate.withVersion text
  | none => text

/-- The spec of a dependency that is no group: with its version if it has one, else unversioned,
else only its key. -/
def spec (d : Dependency) : String :=
  match d.version with
  | some version => d.specWith version
  | none => d.unversioned.getD d.key

/-- Whether there is a requirement and a selection that meets it. -/
def isSatisfied (d : Dependency) : Bool :=
  match d.requirement, d.selected with
  | some requirement, some version => requirement.accepts version
  | _, _ => false

/-! ## §2. Selecting and declaring -/

/-- The version that `text` writes, provided that it meets `requirement`. -/
def check (d : Dependency) (requirement : Option Requirement) (text : String) :
    Except Error Version :=
  match Version.parse text with
  | .error error => .error error
  | .ok version =>
    match requirement with
    | none => .ok version
    | some requirement =>
      if requirement.accepts version then .ok version
      else .error (.unsatisfied d.key (d.specWith text) requirement.source)

/-- Selects the version that `text` writes; the declared requirement must accept it. -/
def select (d : Dependency) (text : String) : Except Error Dependency :=
  (d.check d.requirement text).map fun version => { d with selected := some version }

/-- Declares a requirement in place of the present one; it must accept the selected version. -/
def declare (d : Dependency) (declaration : Declaration) : Except Error Dependency :=
  let declared :=
    { d with requirement := declaration.requirement, defaultVersion := declaration.default }
  match declaration.requirement, d.selected with
  | some requirement, some version =>
    (d.check (some requirement) version.text).map fun _ => declared
  | _, _ => .ok declared

/-- Whether a bare version or a full spec is acceptable; a spec must name the same artifact. -/
def satisfiedBy (d : Dependency) (candidate : String) : Except Error Bool :=
  match d.requirement with
  | none => .ok true
  | some requirement =>
    if looksLikeSpec candidate then do
      let spec ← Spec.parse candidate
      if !d.admits spec.coordinate then return false
      match spec.version with
      | some version => requirement.satisfiedBy version
      | none => return false
    else requirement.satisfiedBy candidate

/-- A key with a declared requirement keeps to the coordinate that it has. -/
def checkCoordinate (d : Dependency) (spec : Spec) : Except Error Unit :=
  match d.coordinate, d.requirement with
  | some coordinate, some requirement =>
    if coordinate = spec.coordinate then .ok ()
    else .error (.unsatisfied d.key spec.render (coordinate.withVersion requirement.source))
  | _, _ => .ok ()

/-! ## §3. Applying a version part -/

/-- A dependency after a version part was applied, and whether that selected a version. -/
structure Outcome where
  dependency : Dependency
  selects : Bool

/-- The dependency with `inherited` as its requirement if it declares none itself. -/
def inheriting (d : Dependency) (inherited : Option Requirement) : Dependency :=
  { d with requirement := d.requirement.or inherited }

/-- Applies a version part.  The effective requirement is the declared one, or else the inherited
one.  A version is selected if the effective requirement accepts it.  A requirement narrows the
effective one, and its default version is selected with it; without a default the requirement is
only declared. -/
def choose (d : Dependency) (inherited : Option Requirement) :
    Option VersionText → Except Error Outcome
  | none => .ok ⟨d.inheriting inherited, false⟩
  | some (.plain version) =>
    (d.check (d.requirement.or inherited) version.text).map fun version =>
      ⟨{ d.inheriting inherited with selected := some version }, true⟩
  | some (.constraint requirement) =>
    let narrowed :=
      match d.requirement.or inherited with
      | some declared => declared.intersect requirement
      | none => requirement
    match requirement.default? with
    | some text =>
      (d.check (some narrowed) text).map fun version =>
        ⟨{ d with
            requirement := some narrowed
            defaultVersion := some text
            selected := some version }, true⟩
    | none => (d.declare ⟨some narrowed, none⟩).map (⟨·, false⟩)

/-- Takes over the version that an enclosing namespace selected, if the requirement accepts it;
otherwise the dependency is left without a version. -/
def adopt (d : Dependency) (enclosing : String) : Outcome :=
  match d.select enclosing with
  | .ok selected => ⟨selected, true⟩
  | .error _ => ⟨{ d with defaultVersion := none }, false⟩

end Dependency

end DependencyScope
