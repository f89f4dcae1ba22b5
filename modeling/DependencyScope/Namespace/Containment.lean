/-
  DependencyScope.Namespace.Containment — what a namespace holds, its sub-namespaces included.

  Sub-namespaces are stored by reference, so they may be shared and may even contain each other.
  A walk through them enters each namespace once.

  Main definitions:
    * `Store.contained` — all entries below a namespace, in the order of a walk by key;
    * `Store.values` — the dependencies with a coordinate below a namespace;
    * `Namespace.valuesThrough` — the same, followed by what the ancestors add.
-/
import DependencyScope.Namespace.Ancestry

namespace DependencyScope

namespace Store

/-! ## §1. The walk -/

/-- Adds the entries below `n` to those found, not entering a namespace that was seen.  The bound
counts how deep the walk may go. -/
def gather (s : Store) : Nat → Namespace → List Namespace × List Entry →
    List Namespace × List Entry
  | 0, _, found => found
  | bound + 1, n, found =>
    (s.entries n).foldl
      (fun (seen, found) e =>
        match e with
        | .dependency _ => (seen, found ++ [e])
        | .sub m =>
          if seen.contains m then (seen, found) else s.gather bound m (m :: seen, found ++ [e]))
      found

/-- The entries below a namespace: its own by key, and at the first entry for a sub-namespace also
the entries below that.  On a path of the walk all namespaces but the last hold something, so the
number of namespaces that were written bounds its depth. -/
def contained (s : Store) (n : Namespace) : List Entry :=
  (s.gather (s.contents.size + 1) n ([n], [])).2

/-- A namespace and the namespaces below it. -/
def subtree (s : Store) (n : Namespace) : List Namespace :=
  n :: (s.contained n).filterMap Entry.sub?

/-! ## §2. Values -/

/-- What a dependency contributes to the values of a namespace: a group its members. -/
def standsFor (s : Store) (id : DependencyId) : List DependencyId :=
  let d := s.dependency id
  if d.isGroup then d.members else [id]

/-- The dependencies with a coordinate held below a namespace, group members included, each once. -/
def values (s : Store) (n : Namespace) : List DependencyId :=
  (((s.contained n).filterMap Entry.dependency?).flatMap s.standsFor
    |>.filter fun id => (s.dependency id).coordinate.isSome).eraseDups

/-- Adds the dependencies of `more` whose coordinate is not among those of `found`. -/
def addUnshadowed (s : Store) (found more : List DependencyId) : List DependencyId :=
  more.foldl
    (fun found id =>
      let shadowed := found.any fun seen =>
        seen = id || (s.dependency seen).unversioned = (s.dependency id).unversioned
      if shadowed then found else found ++ [id])
    found

/-- The artifacts of all values of a namespace that have a version. -/
def artifacts (s : Store) (n : Namespace) : Except Error (List Artifact) :=
  ((s.values n).filter fun id => (s.dependency id).version.isSome).mapM s.artifact

end Store

/-- The values of a namespace, then those of its ancestors, nearest first, as far as no nearer
namespace has the coordinate. -/
def Namespace.valuesThrough (n : Namespace) : Reading (List DependencyId) := do
  let ancestors ← n.ancestors
  Reading.view fun s =>
    ancestors.foldl (fun found a => s.addUnshadowed found (s.values a)) (s.values n)

end DependencyScope
