/-
  DependencyScope.Namespace.Entries — putting entries into a namespace and taking them out.

  Neither kind of entry silently replaces the other: a key that holds a sub-namespace accepts no
  dependency, and a key that holds a dependency accepts no sub-namespace.

  Main definitions:
    * `Namespace.openSub` — the sub-namespace of a key, made on first use;
    * `Namespace.storeSub`, `Namespace.storeCopy`, `Namespace.storeGroup`;
    * `Namespace.delete`, `Namespace.clear`;
    * `Namespace.setParent`.
-/
import DependencyScope.Session.Batch

namespace DependencyScope

open DependencyScope.Text

/-! ## §1. Guards and removal -/

/-- The contents without a key; with a dependency go all its keys and its place in the index. -/
def Contents.without (c : Contents) (key : String) : Contents :=
  match c.entries[key]? with
  | none => c
  | some (.sub _) => { c with entries := c.entries.erase key }
  | some (.dependency id) =>
    { entries := c.entries.filter fun _ e => e ≠ .dependency id
      index := c.index.filter fun _ held => held ≠ id }

namespace Namespace

/-- Refuses a key that holds a sub-namespace. -/
def ensureNoSub (n : Namespace) (key : String) : Action Unit := do
  match ← Action.view (·.entryAt? n key) with
  | some (.sub _) => throw (.typeMismatch key .holdsNamespace)
  | _ => return ()

/-! ## §2. Dependencies -/

/-- Stores an independent copy of a dependency under a key. -/
def storeCopy (n : Namespace) (key : String) (source : DependencyId) : Action DependencyId := do
  let copy ← Action.change (·.copy source key)
  Action.update (·.insert n key copy)
  return copy

/-- Registers a member of a group for its coordinate and, if `byId`, also under its own key where
that is free. -/
def registerMember (n : Namespace) (byId : Bool) (s : Store) (member : DependencyId) : Store :=
  let s := s.putIndex n member
  let key := (s.dependency member).key
  if byId && (s.entryAt? n key).isNone then s.putEntry n key (.dependency member) else s

/-- Stores a new group under a key and registers its members. -/
def storeGroup (n : Namespace) (key : String) (members : List Dependency) (byId : Bool) :
    Action DependencyId := do
  let ids ← members.mapM fun member => Action.change (·.addDependency member)
  let group ← Action.change (·.addDependency { key := key, members := ids })
  Action.update fun s =>
    ids.foldl (n.registerMember byId) (s.putEntry n key (.dependency group))
  return group

/-! ## §3. Sub-namespaces -/

/-- Stores a namespace under a key, by reference. -/
def storeSub (n : Namespace) (key : String) (sub : Namespace) : Action Entry := do
  if sub = n then throw (.typeMismatch key .containsItself)
  if (← Action.view (·.ownDependency? n key)).isSome then
    throw (.typeMismatch key .holdsDependency)
  Action.update (·.putEntry n key (.sub sub))
  return .sub sub

/-- Makes a namespace outside the registry; it has no parent until one is set by handle. -/
def detached (name : String) : Action Namespace :=
  Action.change fun s =>
    (.single s.nextNamespace name false, { s with nextNamespace := s.nextNamespace + 1 })

/-- The name of a sub-namespace: its key, after the name of the namespace around it unless that is
the root. -/
def subName (n : Namespace) (key : String) : String :=
  if n.isRoot then key else n.name ++ ":" ++ key

/-- Makes the sub-namespace `key`. -/
def makeSub (n : Namespace) (key : String) (s : Store) : Namespace × Store :=
  let sub := Namespace.single s.nextNamespace (n.subName key) n.inRegistry
  let s := { s with nextNamespace := s.nextNamespace + 1 }
  (sub, (s.putLink sub (.handle n)).putEntry n key (.sub sub))

/-- The sub-namespace `key`, made if the key holds nothing yet. -/
def openSub (n : Namespace) (key : String) : Action Namespace := do
  match ← Action.view (·.entryAt? n (trim key)) with
  | some (.sub sub) => return sub
  | some (.dependency _) => throw (.typeMismatch (trim key) .holdsDependency)
  | none => Action.change (n.makeSub (trim key))

/-! ## §4. Taking out -/

/-- Removes a key, and gives what it held. -/
def delete (n : Namespace) (key : String) : Action (Option Entry) :=
  Action.change fun s =>
    (s.entryAt? n (trim key), s.putContents n ((s.contentsOf n).without (trim key)))

/-- Removes all entries. -/
def clear (n : Namespace) : Action Unit := Action.update (·.putContents n {})

end Namespace

/-! ## §5. Parents -/

/-- What a parent can be set to. -/
inductive ParentRef where
  | key (key : NamespaceKey)
  | handle (parent : Namespace)
  deriving DecidableEq, Repr

namespace Namespace

/-- Refuses a parent that `n` encloses. -/
def ensureAcyclic (n candidate : Namespace) : Action Unit := do
  if ← n.encloses candidate then throw (.parent n.name (.wouldCycle candidate.name))

/-- The registry's namespace for a key. -/
def ofKey (key : NamespaceKey) : Reading Namespace := do
  Reading.resolve (← Reading.view (Store.resolveName · key))

/-- The link that a reference to a parent amounts to, provided that it closes no cycle. -/
def parentLink (n : Namespace) : ParentRef → Action ParentLink
  | .key .current => return .current
  | .key key => do
    if ← Action.view (·.attached n) then
      let candidate ← ofKey key
      n.ensureAcyclic candidate
      return .named candidate.name
    else throw (.lookup n.name .parentByName)
  | .handle candidate => do
    n.ensureAcyclic candidate
    return .handle candidate

/-- Sets the enclosing namespace; the root accepts none. -/
def setParent (n : Namespace) (parent : ParentRef) : Action Unit := do
  if n.isRoot then throw (.parent n.name .rootHasNone)
  let link ← n.parentLink parent
  Action.update (·.putLink n link)

end Namespace

end DependencyScope
