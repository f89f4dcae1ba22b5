/-
  DependencyScope.Namespace.Ancestry — parents and ancestors.

  A settled link leads to a fixed place: by the namespace's own name, by a given name, or to a given
  namespace.  The other kind of link follows the active project.  A namespace that follows the
  active project is parentless while the project's namespace lies inside it.  Whether it does is
  found out by a walk upwards from the project's namespace, and such a walk may come to the first
  namespace again; the namespace is marked meanwhile, and a marked one counts as parentless.

  Main definitions:
    * `Namespace.settledParent` — the parent along a settled link;
    * `Namespace.parent` — the enclosing namespace;
    * `Namespace.ancestors` — all enclosing namespaces, nearest first;
    * `Namespace.encloses` — whether a namespace is another one or an ancestor of it.
-/
import DependencyScope.Session.Reading

namespace DependencyScope

open DependencyScope.Text

/-! ## §1. Names -/

namespace Store

/-- The path of the active project, outermost first; empty outside any project. -/
def activePath (s : Store) : List String := if s.followsProjects then s.projects else []

/-- The canonical name of the namespace that the active project maps to. -/
def currentName (s : Store) : String := canonicalName (String.intercalate ":" s.activePath)

/-- The canonical name that a key resolves to now. -/
def resolveName (s : Store) : NamespaceKey → String
  | .root => rootName
  | .current => s.currentName
  | .name name => canonicalName name
  | .path parts => canonicalName (String.intercalate ":" parts)

/-- Whether a namespace can still resolve names in the registry. -/
def attached (s : Store) (n : Namespace) : Bool := s.hasRegistry && n.inRegistry

/-- Whether a namespace takes its parent from the active project. -/
def followsCurrent (s : Store) (n : Namespace) : Bool := !n.isRoot && s.linkOf n = .current

/-! ## §2. A bound for walks upwards -/

/-- How many links implied by names can follow each other from a name upwards. -/
def nameDepth (name : String) : Nat := colons name + 1

/-- How many implied links can follow after a link is taken. -/
def linkDepth : ParentLink → Nat
  | .implied | .current => 0
  | .named name => nameDepth name
  | .handle parent => nameDepth parent.name

/-- A walk along settled links takes each link that was set at most once, and between them only
implied links, of which each name allows as many as it has parts. -/
def climbBound (s : Store) (n : Namespace) : Nat :=
  s.links.values.foldr (fun link bound => linkDepth link + 1 + bound) (nameDepth n.name)

/-- A walk upwards follows the active project at most once, so two walks along settled links bound
its length. -/
def walkBound (s : Store) (n : Namespace) : Nat :=
  s.climbBound n + s.climbBound (.registered s.currentName s.generation) + 1

end Store

/-! ## §3. Parents -/

namespace Namespace

/-- The registry's namespace for the name of the active project. -/
def currentScope : Reading Namespace := do
  Reading.resolve (← Reading.view Store.currentName)

/-- The parent that a settled link leads to. -/
def settledParent (n : Namespace) : Reading (Option Namespace) := do
  if n.isRoot then return none
  match ← Reading.view (Store.linkOf · n) with
  | .current => return none
  | .handle parent => return some parent
  | .named name =>
    if ← Reading.view (Store.attached · n) then return some (← Reading.resolve name)
    return none
  | .implied =>
    if ← Reading.view (Store.attached · n) then
      match impliedParent? n.name with
      | some name => return some (← Reading.resolve name)
      | none => return none
    return none

/-! ## §4. Walks upwards -/

/-- Goes on with a walk upwards from `n` that has found some namespaces and comes to another one
next.  It ends where there is none, and where one comes again. -/
def walk (parent : Namespace → Reading (Option Namespace)) (n : Namespace) :
    Nat → List Namespace → Option Namespace → Reading (List Namespace)
  | bound + 1, found, some m => do
    if m = n || found.contains m then return found
    walk parent n bound (found ++ [m]) (← parent m)
  | _, found, _ => return found

/-- The namespaces that a walk upwards finds, nearest first, where `parent` says which encloses
which. -/
def ancestorsBy (parent : Namespace → Reading (Option Namespace)) (n : Namespace) :
    Reading (List Namespace) := do
  let bound ← Reading.view (Store.walkBound · n)
  walk parent n bound [] (← parent n)

/-- Whether `n` is `m` or is found by a walk upwards from `m`. -/
def enclosesBy (parent : Namespace → Reading (Option Namespace)) (n m : Namespace) :
    Reading Bool := do
  if m = n then return true
  return (← ancestorsBy parent m).contains n

/-- The enclosing namespace; the root never has one.  A namespace that follows the active project
has the project's namespace, unless it encloses that itself.  To find this out the parents of other
namespaces are needed, and at most `depth` of those that follow the project are gone into at a
time. -/
def parentWithin : Nat → Namespace → Reading (Option Namespace)
  | 0, n => n.settledParent
  | depth + 1, n => do
    if ← Reading.view (Store.followsCurrent · n) then
      if ← Reading.view (Store.attached · n) then
        if ← Reading.view (·.resolving.contains n) then return none
        let (current, cyclic) ← Reading.marking n do
          let current ← currentScope
          return (current, ← enclosesBy (parentWithin depth) n current)
        return if cyclic then none else some current
      return none
    n.settledParent

/-! ## §5. Parents and ancestors -/

/-- The enclosing namespace.  Each namespace that is gone into on the way is marked and has its own
link to the project, so there are no more of them than links. -/
def parent (n : Namespace) : Reading (Option Namespace) := do
  parentWithin ((← Reading.view (·.links.size)) + 1) n

/-- The enclosing namespaces, nearest first. -/
def ancestors (n : Namespace) : Reading (List Namespace) := ancestorsBy parent n

/-- Whether `n` is `m` or an ancestor of it. -/
def encloses (n m : Namespace) : Reading Bool := enclosesBy parent n m

end Namespace

end DependencyScope
