/-
  DependencyScope.Namespace.Selection — picking dependencies by name, coordinate or requirement spec.

  A requirement spec such as `g:i:t:>1.0` picks the first value of the namespace, or else of its
  nearest ancestor, that has the coordinate and whose version meets the requirement.

  Main definitions:
    * `Inquiry` — a reading that may fail;
    * `Namespace.pick`, `Namespace.valuesAt`.
-/
import DependencyScope.Namespace.Containment
import DependencyScope.Namespace.Lookup

namespace DependencyScope

open DependencyScope.Text

/-- A question that may have no answer but an error. -/
abbrev Inquiry := ExceptT Error Reading

/-- Fails if the result is an error. -/
def Inquiry.ofExcept {α : Type} (result : Except Error α) : Inquiry α := ExceptT.mk (pure result)

/-- Asks a question that always has an answer. -/
def Inquiry.ask {α : Type} (r : Reading α) : Inquiry α := ExceptT.lift r

/-- Looks at the store. -/
def Inquiry.view {α : Type} (f : Store → α) : Inquiry α := Inquiry.ask (Reading.view f)

/-- The first value of a namespace that has the coordinate and whose version meets the requirement. -/
def Store.valueMeeting? (s : Store) (n : Namespace) (coordinate : Coordinate)
    (requirement : Requirement) : Option DependencyId :=
  (s.values n).find? fun id =>
    let d := s.dependency id
    d.unversioned = some coordinate.render &&
      match d.version with
      | some version => (requirement.satisfiedBy version).toOption.getD false
      | none => false

namespace Namespace

/-- What a key picks: the dependency that a name names, or the members of a group; at most one
dependency for a spec. -/
def pick (n : Namespace) (key : String) : Inquiry (List DependencyId) := do
  if looksLikeSpec key then
    let spec ← Inquiry.ofExcept (Spec.parse key)
    let chain := n :: (← Inquiry.ask n.ancestors)
    match spec.version with
    | some version =>
      let requirement ← Inquiry.ofExcept (Requirement.parse version)
      let found ← Inquiry.view fun s =>
        chain.findSome? (s.valueMeeting? · spec.coordinate requirement)
      return found.toList
    | none =>
      let found ← Inquiry.view fun s => chain.findSome? fun a =>
        (s.localEntry a spec.coordinate.render).bind Entry.dependency?
      return found.toList
  else
    match ← Inquiry.ask (n.lookupDependency key) with
    | some id => Inquiry.view (Store.standsFor · id)
    | none => return []

/-- What several keys pick, in order; unknown keys pick nothing. -/
def valuesAt (n : Namespace) (keys : List String) : Inquiry (List DependencyId) := do
  let _ ← Inquiry.ask n.ancestors
  return (← keys.mapM fun key => n.pick (trim key)).flatten

end Namespace

end DependencyScope
