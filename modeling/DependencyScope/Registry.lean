/-
  DependencyScope.Registry — the table of namespaces by canonical name.

  The registry holds one namespace for each canonical name, made when the name is first resolved.

  Main definitions:
    * `Registry.attach` — the namespace of a project, under that of the enclosing project;
    * `Registry.load` — applies a profile as one batch;
    * `Registry.artifact`, `Registry.artifacts` — concrete artifacts, found from the current
      namespace outwards;
    * `Registry.clear`, `Registry.release`.
-/
import DependencyScope.Namespace.Need
import DependencyScope.Namespace.Selection
import DependencyScope.Profile

namespace DependencyScope

open DependencyScope.Text

namespace Registry

/-! ## §1. Namespaces -/

/-- The namespace of a project.  It hangs under the namespace of the enclosing project. -/
def attach (path : List String) : Action Namespace := do
  let n ← Action.read (Namespace.ofKey (.path path))
  unless path.dropLast.isEmpty do n.setParent (.key (.path path.dropLast))
  return n

/-- Forgets every namespace.  Namespaces that are still referred to keep what they hold, but names
stand for new ones. -/
def clear : Action Unit := fun σ =>
  (.ok (), {
    σ with
    store := { σ.store with generation := σ.store.generation + 1 }
    listed := ∅ })

/-- Gives the registry up; namespaces can no longer resolve names. -/
def release : Action Unit := Action.update fun s => { s with hasRegistry := false }

/-! ## §2. Profiles -/

/-- Whether a namespace is what the registry now holds for its name. -/
def holds (s : Store) : Namespace → Bool
  | .registered _ generation => generation = s.generation
  | .single _ _ _ => false

/-- What is assigned for an entry of a profile. -/
def assigned : ProfileValue → Value
  | .spec text => .text text
  | .group specs => .group specs

/-- The assignments that a profile has for one namespace. -/
def assignments (table : Std.TreeMap String ProfileValue) : List (String × Value) :=
  table.toList.map fun (key, value) => (key, assigned value)

/-- Assigns what a profile has for one namespace. -/
def applyTable (name : String) (table : Std.TreeMap String ProfileValue) : Action Unit := do
  let n ← Action.read (Namespace.ofKey (.ofText name))
  let _ ← (assignments table).mapM fun (key, value) => n.set key value

/-- Applies every table of a profile.  If an entry fails, the registry is as it was before: it lists
the same names, and its namespaces hold what they held. -/
def load (profile : Profile) : Action Unit :=
  Action.deferring <| profile.artifacts.toList.forM (fun (name, table) => applyTable name table)
    |> Action.restoring fun σ τ =>
      { τ with
        store := τ.store.restoreBelow σ.store (τ.store.contents.keys.filter (holds σ.store))
        listed := σ.listed }

/-! ## §3. Artifacts -/

/-- The artifact that a spec with a valid version names by itself. -/
def concrete? (key : String) : Option Artifact :=
  if looksLikeSpec key then
    match Spec.parse key with
    | .ok ⟨coordinate, some version⟩ =>
      if Version.isValid version then some ⟨coordinate, version⟩ else none
    | _ => none
  else none

/-- The artifact for a key: a concrete spec is taken as it is, anything else is looked up from the
current namespace outwards. -/
def artifact (key : String) : Inquiry Artifact := do
  let key := trim key
  match concrete? key with
  | some a => return a
  | none =>
    let current ← Inquiry.ask Namespace.currentScope
    match ← Inquiry.ask (current.lookupDependency key) with
    | some id => Inquiry.ofExcept (← Inquiry.view (Store.artifact · id))
    | none => throw (.lookup key (.artifactNotFound current.name))

/-- The artifacts for a key: all those of a sub-namespace or of a group, else one. -/
def artifactsFor (key : String) : Inquiry (List Artifact) := do
  let current ← Inquiry.ask Namespace.currentScope
  match ← Inquiry.ask (current.lookup key) with
  | some (.sub sub) => Inquiry.ofExcept (← Inquiry.view (Store.artifacts · sub))
  | some (.dependency id) =>
    if ← Inquiry.view (fun s => (s.dependency id).isGroup) then
      Inquiry.ofExcept (← Inquiry.view (Store.artifactsOf · id))
    else return [← artifact key]
  | none => return [← artifact key]

/-- The artifacts for several keys, in order. -/
def artifacts (keys : List String) : Inquiry (List Artifact) := do
  let _ ← Inquiry.ask Namespace.currentScope
  return (← keys.mapM artifactsFor).flatten

end Registry

end DependencyScope
