/-
  DependencyScope.Session.Operation — everything a client can ask of a session, as data.

  A session is driven by operations, and each operation that succeeds has a reply.  The operations
  cover the project scope, the registry, the namespaces and the dependencies.

  Main definitions:
    * `Operation`, `Reply`;
    * `Action.perform` — what an operation does.
-/
import DependencyScope.Registry

namespace DependencyScope

/-! ## §1. Operations -/

/-- One request of a client. -/
inductive Operation where
  -- the project scope
  | enter (project : String)
  | exit
  | path
  -- the registry
  | instance (key : NamespaceKey)
  | attach (path : List String)
  | resolveName (key : NamespaceKey)
  | listNames
  | clearRegistry
  | releaseRegistry
  | load (profile : Profile)
  | findArtifact (key : String)
  | findArtifacts (keys : List String)
  -- namespaces
  | detached (name : String)
  | same (n m : Namespace)
  | registrySize (n : Namespace)
  | parent (n : Namespace)
  | ancestors (n : Namespace)
  | setParent (n : Namespace) (parent : ParentRef)
  | lookup (n : Namespace) (key : String)
  | localEntry (n : Namespace) (key : String)
  | lookupDependency (n : Namespace) (key : String)
  | lookupSub (n : Namespace) (key : String)
  | lookupMany (n : Namespace) (keys : List String)
  | keys (n : Namespace)
  | probe (n : Namespace) (keys : List String)
  | set (n : Namespace) (key : String) (value : Value)
  | useSpec (n : Namespace) (text : String)
  | useAll (n : Namespace) (pairs : List (String × Value))
  | useInherited (n : Namespace) (key : String)
  | addAlias (n : Namespace) (key existing : String)
  | need (n : Namespace) (text : String)
  | needAs (n : Namespace) (key : String) (value : Value)
  | needAll (n : Namespace) (pairs : List (String × Value))
  | require (n : Namespace) (key text : String) (requirement : Option String)
  | openSub (n : Namespace) (key : String)
  | openSubUsing (n : Namespace) (key : String) (pairs : List (String × Value))
  | values (n : Namespace) (withAncestors : Bool)
  | valuesAt (n : Namespace) (keys : List String)
  | artifacts (n : Namespace)
  | delete (n : Namespace) (key : String)
  | clear (n : Namespace)
  -- dependencies
  | newDependency (d : Dependency)
  | select (id : DependencyId) (version : String)
  | checkSelectable (id : DependencyId) (version : String)
  | declare (id : DependencyId) (declaration : Declaration)
  | satisfiedBy (id : DependencyId) (candidates : List String)
  | artifactOf (id : DependencyId)
  | artifactsOf (id : DependencyId)
  | copy (id : DependencyId) (key : Option String)
  | listen (id : DependencyId) (listener : Listener)

/-! ## §2. Replies -/

/-- What a namespace answers about one key. -/
structure Probe where
  key : String
  localEntry : Option Entry
  found : Option Entry
  isLocal : Bool
  isSelected : Bool
  isSatisfied : Bool

/-- What an operation that succeeds answers. -/
inductive Reply where
  | done
  | text (text : String)
  | optionalText (text : Option String)
  | texts (texts : List String)
  | flag (value : Bool)
  | count (value : Option Nat)
  | aNamespace (n : Namespace)
  | optionalNamespace (n : Option Namespace)
  | namespaces (ns : List Namespace)
  | entry (e : Entry)
  | optionalEntry (e : Option Entry)
  | entries (es : List Entry)
  | dependency (id : DependencyId)
  | optionalDependency (id : Option DependencyId)
  | optionalDependencies (ids : List (Option DependencyId))
  | dependencies (ids : List DependencyId)
  | probes (probes : List Probe)
  | artifact (a : Artifact)
  | artifacts (as : List Artifact)
  | verdicts (results : List (Except Error Bool))

/-! ## §3. What operations do -/

/-- Asks a question that may have no answer but an error. -/
def Action.inquire {α : Type} (r : Inquiry α) : Action α := do
  Action.ofExcept (← Action.read r.run)

/-- All that a namespace answers about a key, asked one after the other. -/
def Namespace.probe (n : Namespace) (key : String) : Reading Probe := do
  let localEntry ← Reading.view (Store.localEntry · n key)
  let found ← n.lookup key
  let isSelected ← n.has key
  let isSatisfied ← n.isSatisfied key
  return { key, localEntry, found, isLocal := localEntry.isSome, isSelected, isSatisfied }

/-- The names that the registry lists. -/
def Session.listedNames (σ : Session) : List String := σ.listed.toList

/-- Leaves the innermost project, and gives its name. -/
def Store.exitProject (s : Store) : Option String × Store :=
  (s.projects.getLast?, { s with projects := s.projects.dropLast })

/-- Adds a listener to a dependency. -/
def Store.addListener (s : Store) (id : DependencyId) (listener : Listener) : Store :=
  let d := s.dependency id
  s.putDependency id { d with listeners := d.listeners ++ [listener] }

/-- How many names the registry lists, if the namespace can reach it. -/
def Session.registrySize (σ : Session) (n : Namespace) : Option Nat :=
  if σ.store.attached n then some σ.listed.size else none

namespace Action

/-- What an operation does, and its reply. -/
def perform : Operation → Action Reply
  | .enter project => do
    update fun s => { s with projects := s.projects ++ [project] }
    return .texts (← view (·.projects))
  | .exit => return .optionalText (← change Store.exitProject)
  | .path => return .texts (← view (·.projects))
  | .instance key => return .aNamespace (← read (Namespace.ofKey key))
  | .attach path => return .aNamespace (← Registry.attach path)
  | .resolveName key => return .text (← view (·.resolveName key))
  | .listNames => return .texts (← get).listedNames
  | .clearRegistry => do Registry.clear; return .done
  | .releaseRegistry => do Registry.release; return .done
  | .load profile => do Registry.load profile; return .done
  | .findArtifact key => return .artifact (← inquire (Registry.artifact key))
  | .findArtifacts keys => return .artifacts (← inquire (Registry.artifacts keys))
  | .detached name => return .aNamespace (← Namespace.detached name)
  | .same n m => return .flag (n = m)
  | .registrySize n => return .count ((← get).registrySize n)
  | .parent n => return .optionalNamespace (← read n.parent)
  | .ancestors n => return .namespaces (← read n.ancestors)
  | .setParent n parent => do n.setParent parent; return .done
  | .lookup n key => return .optionalEntry (← read (n.lookup key))
  | .localEntry n key => return .optionalEntry (← view (·.localEntry n key))
  | .lookupDependency n key => return .optionalDependency (← read (n.lookupDependency key))
  | .lookupSub n key => return .optionalNamespace (← read (n.lookupSub key))
  | .lookupMany n keys => return .optionalDependencies (← read (keys.mapM n.lookupDependency))
  | .keys n => return .texts (← view (·.keys n))
  | .probe n keys => return .probes (← read (keys.mapM n.probe))
  | .set n key value => return .entry (← n.set key value)
  | .useSpec n text => return .dependency (← n.useSpec text)
  | .useAll n pairs => return .entries (← n.useAll pairs)
  | .useInherited n key => return .dependency (← n.useInherited key)
  | .addAlias n key existing => return .dependency (← n.addAlias key existing)
  | .need n text => return .dependency (← n.need text)
  | .needAs n key value => return .dependency (← n.needAs key value)
  | .needAll n pairs => return .dependencies (← n.needAll pairs)
  | .require n key text requirement => return .dependency (← n.require key text requirement)
  | .openSub n key => return .aNamespace (← n.openSub key)
  | .openSubUsing n key pairs => return .aNamespace (← n.openSubUsing key pairs)
  | .values n withAncestors =>
    if withAncestors then return .dependencies (← read n.valuesThrough)
    else return .dependencies (← view (·.values n))
  | .valuesAt n keys => return .dependencies (← inquire (n.valuesAt keys))
  | .artifacts n => return .artifacts (← ofExcept (← view (·.artifacts n)))
  | .delete n key => return .optionalEntry (← n.delete key)
  | .clear n => do n.clear; return .done
  | .newDependency d => return .dependency (← change (·.addDependency d))
  | .select id version => do select id version; return .dependency id
  | .checkSelectable id version => do
    let d ← view (·.dependency id)
    let _ ← ofExcept (d.check d.requirement version)
    return .done
  | .declare id declaration => do declare id declaration; return .dependency id
  | .satisfiedBy id candidates => do
    let d ← view (·.dependency id)
    return .verdicts (candidates.map d.satisfiedBy)
  | .artifactOf id => return .artifact (← ofExcept (← view (·.artifact id)))
  | .artifactsOf id => return .artifacts (← ofExcept (← view (·.artifactsOf id)))
  | .copy id key => do
    let d ← view (·.dependency id)
    return .dependency (← change (·.copy id (key.getD d.key)))
  | .listen id listener => do update (·.addListener id listener); return .done

end Action

end DependencyScope
