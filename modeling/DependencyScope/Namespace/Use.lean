/-
  DependencyScope.Namespace.Use — selecting: assigning specs and versions to keys.

  Using a version under a key selects it, after a check against the requirement that is declared for
  the key or inherited from an ancestor.  Using a requirement expression narrows what is declared.
  Writes are local: an entry that only an ancestor has is copied first.

  Main definitions:
    * `Value` — what can be assigned to a key;
    * `Namespace.set` — assigns a value to a key;
    * `Namespace.useAll` — several assignments as one batch;
    * `Namespace.useInherited`, `Namespace.addAlias`.
-/
import DependencyScope.Namespace.Entries

namespace DependencyScope

open DependencyScope.Text

/-- What can be assigned to a key. -/
inductive Value where
  /-- A full spec, a version, or a requirement expression. -/
  | text (text : String)
  /-- Several specs, registered together. -/
  | group (specs : List String)
  /-- Another key that is visible from the namespace; its entry is copied. -/
  | key (key : String)
  /-- A dependency, which is copied. -/
  | dependency (id : DependencyId)
  /-- A namespace, which is stored by reference. -/
  | sub (namespaceId : Namespace)
  deriving DecidableEq, Repr

/-! ## §1. What a key holds -/

namespace Store

/-- The dependency that a namespace itself holds under exactly this key, unless it is a group. -/
def ownSingle? (s : Store) (n : Namespace) (key : String) : Option DependencyId :=
  (s.ownDependency? n key).filter fun id => !(s.dependency id).isGroup

/-- The same, provided that it may stand for the coordinate. -/
def ownFor? (s : Store) (n : Namespace) (key : String) (coordinate : Coordinate) :
    Option DependencyId :=
  (s.ownSingle? n key).filter fun id => (s.dependency id).admits coordinate

/-- The record under a key that stands for the coordinate: that of the dependency there, if it may
stand for it, or else a new one. -/
def recordFor (s : Store) (n : Namespace) (key : String) (coordinate : Coordinate) : Dependency :=
  match s.ownFor? n key coordinate with
  | some id => s.dependency id
  | none => { key := key, coordinate := some coordinate }

/-- A key that holds a dependency with a requirement keeps to the coordinate of that. -/
def checkCoordinate (s : Store) (n : Namespace) (key : String) (spec : Spec) :
    Except Error Unit :=
  match s.ownSingle? n key with
  | some id => (s.dependency id).checkCoordinate spec
  | none => .ok ()

end Store

/-- The dependency that is there, or else a new one with the record `d`. -/
def Action.orNew (target : Option DependencyId) (d : Dependency) : Action DependencyId :=
  match target with
  | some id => return id
  | none => Action.change (·.addDependency d)

namespace Namespace

/-! ## §2. Inherited requirements -/

/-- The requirement that a namespace itself holds for a key that may stand for `coordinate`, or else
for `coordinate` in its index. -/
def requirementFor? (n : Namespace) (key : String) (coordinate : Coordinate) (s : Store) :
    Option Requirement :=
  let byKey := (s.ownDependency? n key).bind fun id =>
    let d := s.dependency id
    if d.admits coordinate then d.requirement else none
  byKey.or ((s.indexed? n coordinate.render).bind fun id => (s.dependency id).requirement)

/-- The requirement of the nearest ancestor for a key or a coordinate. -/
def inheritedRequirement (n : Namespace) (key : String) (coordinate : Coordinate) :
    Reading (Option Requirement) := do
  let ancestors ← n.ancestors
  Reading.view fun s => ancestors.findSome? (requirementFor? · key coordinate s)

/-- The inherited requirement where `d` declares none itself. -/
def requirementBeyond (n : Namespace) (key : String) (coordinate : Coordinate) (d : Dependency) :
    Action (Option Requirement) :=
  if d.requirement.isSome then return none
  else Action.read (n.inheritedRequirement key coordinate)

/-! ## §3. Using texts -/

/-- Uses a spec under a key: on the dependency that the key holds, if that may stand for the
coordinate, or else on a new one. -/
def useSpecAs (n : Namespace) (key : String) (spec : Spec) : Action DependencyId := do
  let version ← Action.ofExcept (spec.version.mapM VersionText.parse)
  Action.ofExcept (← Action.view (·.checkCoordinate n key spec))
  let target ← Action.view (·.ownFor? n key spec.coordinate)
  let d ← Action.view (·.recordFor n key spec.coordinate)
  let inherited ← n.requirementBeyond key spec.coordinate d
  let outcome ← Action.ofExcept (d.choose inherited version)
  let id ← Action.orNew target d
  Action.settle id outcome
  Action.setCoordinate id spec.coordinate
  Action.update (·.insert n key id)
  return id

/-- The dependency that the nearest ancestor itself holds under exactly this key. -/
def inheritedDependency (n : Namespace) (key : String) : Reading (Option DependencyId) := do
  let ancestors ← n.ancestors
  Reading.view fun s => ancestors.findSome? (s.ownDependency? · key)

/-- A copy of the dependency that the nearest ancestor holds under a key, or else a new one. -/
def copyInherited (n : Namespace) (key : String) : Action DependencyId := do
  match ← Action.read (n.inheritedDependency key) with
  | some inherited => Action.change (·.copy inherited key)
  | none => Action.change (·.addDependency { key := key })

/-- Applies a version part to a dependency. -/
def chooseOn (id : DependencyId) (version : VersionText) : Action Unit := do
  let d ← Action.view (·.dependency id)
  Action.settle id (← Action.ofExcept (d.choose none (some version)))

/-- Uses a bare version or requirement under a key: on the dependency that the key holds, or else on
a copy of the nearest ancestor's, or else on a new one. -/
def useVersionAs (n : Namespace) (key text : String) : Action DependencyId := do
  let version ← Action.ofExcept (VersionText.parse text)
  match ← Action.view (·.ownDependency? n key) with
  | some id =>
    chooseOn id version
    return id
  | none =>
    let id ← n.copyInherited key
    chooseOn id version
    Action.update (·.insert n key id)
    return id

/-- Uses a text under a key. -/
def useTextAs (n : Namespace) (key text : String) : Action DependencyId := do
  if looksLikeSpec text then n.useSpecAs key (← Action.ofExcept (Spec.parse text))
  else n.useVersionAs key text

/-! ## §4. Using groups -/

/-- The member of a group that a spec stands for. -/
def groupMember (text : String) : Except Error Dependency := do
  let spec ← Spec.parse text
  let version ← spec.version.mapM VersionText.parse
  let member : Dependency := { key := spec.coordinate.id, coordinate := some spec.coordinate }
  return (← member.choose none version).dependency

/-- Uses several specs as one group under a key; the members are also held under their own ids where
those are free. -/
def useGroupAs (n : Namespace) (key : String) (specs : List String) : Action DependencyId := do
  if specs.isEmpty then throw (.typeMismatch key .groupEmpty)
  n.storeGroup key (← Action.ofExcept (specs.mapM groupMember)) true

/-! ## §5. Assignments -/

/-- The key that an assignment to `key` is for: an unversioned spec stands for the key of the
dependency that is registered for it. -/
def localKey (n : Namespace) (key : String) : Action String := do
  if looksLikeSpec key then
    match ← Action.view (·.localEntry n key) with
    | some (.dependency id) => Action.view fun s => (s.dependency id).key
    | _ => throw (.lookup key (.coordinateUnregistered n.name))
  else return key

/-- Assigns a value to a key of this very namespace. -/
def setHere (n : Namespace) (key : String) (value : Value) : Action Entry := do
  let key ← n.localKey key
  match value with
  | .sub sub => n.storeSub key sub
  | .key other =>
    match ← Action.read (n.lookup other) with
    | some (.sub sub) => n.storeSub key sub
    | some (.dependency source) =>
      n.ensureNoSub key
      return .dependency (← n.storeCopy key source)
    | none => throw (.lookup other .undefined)
  | .text text =>
    n.ensureNoSub key
    return .dependency (← n.useTextAs key text)
  | .group specs =>
    n.ensureNoSub key
    return .dependency (← n.useGroupAs key specs)
  | .dependency source =>
    n.ensureNoSub key
    return .dependency (← n.storeCopy key source)

/-- Assigns a value to a key, where a compound key leads through sub-namespaces. -/
def set (n : Namespace) (key : String) (value : Value) : Action Entry := do
  let (target, key) ← Action.view (·.landing n key)
  target.setHere key value

/-- Several assignments in order; if one fails, none takes effect. -/
def useAll (n : Namespace) (pairs : List (String × Value)) : Action (List Entry) :=
  Action.atomically n (pairs.mapM fun (key, value) => n.set key value)

/-- Opens a sub-namespace and uses several values in it. -/
def openSubUsing (n : Namespace) (key : String) (pairs : List (String × Value)) :
    Action Namespace := do
  let sub ← n.openSub key
  let _ ← sub.useAll pairs
  return sub

/-! ## §6. Inherited entries and aliases -/

/-- Copies the nearest ancestor's entry for a key into this namespace. -/
def useInherited (n : Namespace) (key : String) : Action DependencyId := do
  let key := trim key
  match ← Action.read (n.inheritedEntry key) with
  | some (.dependency source) =>
    n.ensureNoSub key
    n.storeCopy key source
  | some (.sub _) => throw (.typeMismatch key .enclosingNamespace)
  | none => throw (.lookup key (.enclosingUndefined n.name))

/-- The dependency that an alias is made for: the one that `existing` names here, or a copy of the
one that it names in an ancestor. -/
def aliasSource (n : Namespace) (existing : String) : Action DependencyId := do
  match ← Action.view (·.localEntry n existing) with
  | some (.dependency id) => return id
  | some (.sub _) => throw (.typeMismatch existing .namespaceAliased)
  | none =>
    match ← Action.read (n.lookup existing) with
    | some _ => n.useInherited existing
    | none => throw (.lookup existing .nothingToAlias)

/-- Makes a key hold the very dependency that `existing` names. -/
def addAlias (n : Namespace) (key existing : String) : Action DependencyId := do
  let id ← n.aliasSource existing
  let (target, key) ← Action.view (·.landing n key)
  target.ensureNoSub key
  Action.update (·.putEntry target key (.dependency id))
  return id

end Namespace

end DependencyScope
