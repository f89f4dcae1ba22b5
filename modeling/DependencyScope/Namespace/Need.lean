/-
  DependencyScope.Namespace.Need — declaring: what a namespace demands.

  A need declares a coordinate, and perhaps a requirement and a default version, under a key.  Where
  an ancestor has selected a version of the same artifact, that version is taken over if the
  requirement accepts it.

  Main definitions:
    * `Namespace.declareAs` — declares one dependency under a key;
    * `Namespace.need`, `Namespace.needAs`, `Namespace.needAll`, `Namespace.require`;
    * `Namespace.useSpec` — selects a spec under its own name, declaring its requirement first.
-/
import DependencyScope.Namespace.Use

namespace DependencyScope

namespace Namespace

/-! ## §1. Inherited selections -/

/-- The version that the nearest ancestor has selected for an unversioned spec. -/
def inheritedSelection (n : Namespace) (unversioned : String) : Reading (Option String) := do
  let ancestors ← n.ancestors
  Reading.view fun s => ancestors.findSome? fun a =>
    (s.indexed? a unversioned).bind fun id => (s.dependency id).selectedText

/-- What becomes of a declared dependency in a namespace: while it is unselected, it takes over the
selection of the nearest ancestor. -/
def inheritSelection (n : Namespace) (d : Dependency) : Action Dependency.Outcome := do
  match d.selected, d.unversioned with
  | none, some unversioned =>
    match ← Action.read (n.inheritedSelection unversioned) with
    | some version => return d.adopt version
    | none => return ⟨d, false⟩
  | _, _ => return ⟨d, false⟩

/-! ## §2. Declarations -/

/-- The dependency that the key holds, if that may stand for the coordinate, or else a new one; in
either case with the declaration. -/
def declaredFor (n : Namespace) (key : String) (coordinate : Coordinate)
    (declaration : Declaration) : Action DependencyId := do
  match ← Action.view (·.ownFor? n key coordinate) with
  | some id =>
    Action.declare id declaration
    Action.setCoordinate id coordinate
    return id
  | none => Action.change (·.addDependency {
      key := key
      coordinate := some coordinate
      requirement := declaration.requirement
      defaultVersion := declaration.default })

/-- Declares a coordinate under a key: on the dependency that the key holds, if that may stand for
the coordinate, or else on a new one. -/
def declareAs (n : Namespace) (key : String) (coordinate : Coordinate)
    (declaration : Declaration) : Action DependencyId := do
  n.ensureNoSub key
  let id ← n.declaredFor key coordinate declaration
  let d ← Action.view (·.dependency id)
  Action.settle id (← n.inheritSelection d)
  Action.update (·.insert n key id)
  return id

/-- Declares a copy of what another dependency declares, its version as the default. -/
def needCopy (n : Namespace) (key : String) (source : DependencyId) : Action DependencyId := do
  let d ← Action.view (·.dependency source)
  match d.coordinate with
  | some coordinate => n.declareAs key coordinate ⟨d.requirement, d.version⟩
  | none => throw (.lookup d.key .coordinateUndeclared)

/-- The member of a declared group that a need spec stands for. -/
def neededMember (n : Namespace) (text : String) : Action Dependency := do
  let need ← Action.ofExcept (NeedSpec.parse text)
  let declaration ← Action.ofExcept need.declaration
  let outcome ← n.inheritSelection {
    key := need.key
    coordinate := some need.spec.coordinate
    requirement := declaration.requirement
    defaultVersion := declaration.default }
  return outcome.dependency

/-- Declares several specs as one group under a key. -/
def needGroup (n : Namespace) (key : String) (specs : List String) : Action DependencyId := do
  n.ensureNoSub key
  if specs.isEmpty then throw (.typeMismatch key .groupEmpty)
  n.storeGroup key (← specs.mapM n.neededMember) false

/-! ## §3. Needs -/

/-- Declares a need spec under its name, or under the id of its artifact. -/
def need (n : Namespace) (text : String) : Action DependencyId := do
  let need ← Action.ofExcept (NeedSpec.parse text)
  let declaration ← Action.ofExcept need.declaration
  let (target, key) ← Action.view (·.landing n need.key)
  target.declareAs key need.spec.coordinate declaration

/-- Declares a value under a key. -/
def needAs (n : Namespace) (key : String) (value : Value) : Action DependencyId := do
  let (target, key) ← Action.view (·.landing n key)
  match value with
  | .text text =>
    let need ← Action.ofExcept (NeedSpec.parse text)
    let declaration ← Action.ofExcept need.declaration
    target.declareAs key need.spec.coordinate declaration
  | .group specs => target.needGroup key specs
  | .dependency source => target.needCopy key source
  | .key other =>
    match ← Action.read (n.lookupDependency other) with
    | some source => target.needCopy key source
    | none => throw (.lookup other .artifactUndefined)
  | .sub _ => throw (.typeMismatch key .namespaceNeeded)

/-- Several declarations in order; if one fails, none takes effect. -/
def needAll (n : Namespace) (pairs : List (String × Value)) : Action (List DependencyId) :=
  Action.atomically n (pairs.mapM fun (key, value) => n.needAs key value)

/-- Declares a spec under a key: its version part is the default, and `requirement`, where given,
the requirement. -/
def require (n : Namespace) (key text : String) (requirement : Option String) :
    Action DependencyId := do
  let spec ← Action.ofExcept (Spec.parse text)
  let declaration ← Action.ofExcept (Declaration.make spec.version requirement)
  let (target, key) ← Action.view (·.landing n key)
  target.declareAs key spec.coordinate declaration

/-! ## §4. Using a spec under its own name -/

/-- Selects the default of a declaration on a dependency that is not selected yet. -/
def selectDefault (id : DependencyId) (default : Option String) : Action Unit := do
  if let some version := default then
    if !(← Action.view (·.isSelected id)) then Action.select id version

/-- Uses a need spec under its name, or under the id of its artifact.  A requirement in it is
declared first, and the version of the coordinate is selected then. -/
def useSpec (n : Namespace) (text : String) : Action DependencyId :=
  Action.atomically n do
    let need ← Action.ofExcept (NeedSpec.parse text)
    let (target, key) ← Action.view (·.landing n need.key)
    target.ensureNoSub key
    if need.requirement.isNone then target.useSpecAs key need.spec
    else
      let declaration ← Action.ofExcept need.declaration
      let id ← target.declareAs key need.spec.coordinate declaration
      selectDefault id declaration.default
      return id

end Namespace

end DependencyScope
