/-
  DependencyScope.Store.Basic — all namespaces and dependencies as one value.

  The store assigns to each namespace its contents and its parent link, and to each dependency its
  record; what was never written has the default.  Namespaces and dependencies are shared by their
  identities, so two keys may hold the very same dependency.

  Main definitions:
    * `Entry`, `Contents`, `ParentLink`, `Store`;
    * `Store.contentsOf`, `Store.linkOf`, `Store.dependency` — the views of a store;
    * `Store.putContents`, `Store.putLink`, `Store.putDependency`, `Store.addDependency` — its
      updates, each with the equation for the view that it changes.
-/
import DependencyScope.Store.Dependency
import DependencyScope.Store.Namespace

namespace DependencyScope

/-! ## §1. Contents and links -/

/-- What a key of a namespace holds. -/
inductive Entry where
  | dependency (id : DependencyId)
  | sub (namespaceId : Namespace)
  deriving DecidableEq, Repr

/-- The dependency that an entry is. -/
def Entry.dependency? : Entry → Option DependencyId
  | .dependency id => some id
  | .sub _ => none

/-- The namespace that an entry is. -/
def Entry.sub? : Entry → Option Namespace
  | .dependency _ => none
  | .sub n => some n

theorem Entry.dependency?_eq_some {e : Entry} {id : DependencyId} :
    e.dependency? = some id ↔ e = .dependency id := by
  cases e <;> simp [dependency?]

theorem Entry.sub?_eq_some {e : Entry} {n : Namespace} : e.sub? = some n ↔ e = .sub n := by
  cases e <;> simp [sub?]

/-- What a namespace holds. -/
structure Contents where
  /-- The entries by key, in the order of keys. -/
  entries : Std.TreeMap String Entry := ∅
  /-- For each unversioned spec, the dependency most recently registered for it. -/
  index : Std.TreeMap String DependencyId := ∅

/-- How a namespace finds its parent. -/
inductive ParentLink where
  /-- By its name: `foo:bar` hangs under `foo`, and `foo` under the root. -/
  | implied
  /-- Whatever namespace the active project maps to, asked anew each time. -/
  | current
  /-- The namespace that the registry holds for a name. -/
  | named (name : String)
  /-- One namespace, whatever the registry holds. -/
  | handle (parent : Namespace)
  deriving DecidableEq, Repr

/-! ## §2. The store -/

/-- All namespaces and dependencies. -/
structure Store where
  /-- How often the registry has been cleared. -/
  generation : Nat := 0
  /-- Whether the registry is still there. -/
  hasRegistry : Bool := true
  /-- Whether the current namespace follows the entered projects; otherwise it is the root. -/
  followsProjects : Bool := true
  /-- The projects that have been entered, outermost first. -/
  projects : List String := []
  contents : Std.TreeMap Namespace Contents := ∅
  links : Std.TreeMap Namespace ParentLink := ∅
  dependencies : Std.TreeMap DependencyId Dependency := ∅
  /-- The serial number of the next namespace that is made by itself. -/
  nextNamespace : Nat := 0
  /-- The serial number of the next dependency. -/
  nextDependency : DependencyId := 0
  /-- The namespaces that are marked: their parent is being found through the active project, and
  the same question about one of them, put on the way, has no answer. -/
  resolving : List Namespace := []

namespace Store

/-- What a namespace holds. -/
def contentsOf (s : Store) (n : Namespace) : Contents := s.contents.getD n {}

/-- How a namespace finds its parent. -/
def linkOf (s : Store) (n : Namespace) : ParentLink := s.links.getD n .implied

/-- The record of a dependency. -/
def dependency (s : Store) (id : DependencyId) : Dependency := s.dependencies.getD id { key := "" }

/-- The entry that a namespace itself holds under exactly this key. -/
def entryAt? (s : Store) (n : Namespace) (key : String) : Option Entry :=
  (s.contentsOf n).entries[key]?

/-- The dependency that a namespace itself holds under exactly this key. -/
def ownDependency? (s : Store) (n : Namespace) (key : String) : Option DependencyId :=
  (s.entryAt? n key).bind Entry.dependency?

/-- The dependency that a namespace has registered for an unversioned spec. -/
def indexed? (s : Store) (n : Namespace) (unversioned : String) : Option DependencyId :=
  (s.contentsOf n).index[unversioned]?

/-- The keys of a namespace, in order. -/
def keys (s : Store) (n : Namespace) : List String := (s.contentsOf n).entries.keys

/-- The entries of a namespace, in the order of their keys. -/
def entries (s : Store) (n : Namespace) : List Entry := (s.contentsOf n).entries.values

/-! ## §3. Updates -/

/-- Replaces what a namespace holds. -/
def putContents (s : Store) (n : Namespace) (c : Contents) : Store :=
  { s with contents := s.contents.insert n c }

/-- Replaces the parent link of a namespace. -/
def putLink (s : Store) (n : Namespace) (link : ParentLink) : Store :=
  { s with links := s.links.insert n link }

/-- Replaces the record of a dependency. -/
def putDependency (s : Store) (id : DependencyId) (d : Dependency) : Store :=
  { s with dependencies := s.dependencies.insert id d }

/-- Adds a dependency under the next serial number. -/
def addDependency (s : Store) (d : Dependency) : DependencyId × Store :=
  (s.nextDependency,
    { s.putDependency s.nextDependency d with nextDependency := s.nextDependency + 1 })

/-- Puts an entry under a key of a namespace. -/
def putEntry (s : Store) (n : Namespace) (key : String) (e : Entry) : Store :=
  let c := s.contentsOf n
  s.putContents n { c with entries := c.entries.insert key e }

/-- Registers a dependency of a namespace for its unversioned spec, if it has one. -/
def putIndex (s : Store) (n : Namespace) (id : DependencyId) : Store :=
  match (s.dependency id).unversioned with
  | some unversioned =>
    let c := s.contentsOf n
    s.putContents n { c with index := c.index.insert unversioned id }
  | none => s

/-- Stores a dependency under a key of a namespace and registers it for its coordinate. -/
def insert (s : Store) (n : Namespace) (key : String) (id : DependencyId) : Store :=
  (s.putEntry n key (.dependency id)).putIndex n id

@[simp] theorem contentsOf_putContents (s : Store) (n m : Namespace) (c : Contents) :
    (s.putContents n c).contentsOf m = if n = m then c else s.contentsOf m := by
  simp [putContents, contentsOf, Std.TreeMap.getD_insert]

@[simp] theorem linkOf_putLink (s : Store) (n m : Namespace) (link : ParentLink) :
    (s.putLink n link).linkOf m = if n = m then link else s.linkOf m := by
  simp [putLink, linkOf, Std.TreeMap.getD_insert]

@[simp] theorem dependency_putDependency (s : Store) (i j : DependencyId) (d : Dependency) :
    (s.putDependency i d).dependency j = if i = j then d else s.dependency j := by
  simp [putDependency, dependency, Std.TreeMap.getD_insert]

/-! Writing contents or links changes no dependency, and writing dependencies no contents. -/

@[simp] theorem dependency_putContents (s : Store) (n : Namespace) (c : Contents)
    (id : DependencyId) : (s.putContents n c).dependency id = s.dependency id := rfl

@[simp] theorem dependency_putLink (s : Store) (n : Namespace) (link : ParentLink)
    (id : DependencyId) : (s.putLink n link).dependency id = s.dependency id := rfl

@[simp] theorem contentsOf_putDependency (s : Store) (id : DependencyId) (d : Dependency)
    (n : Namespace) : (s.putDependency id d).contentsOf n = s.contentsOf n := rfl

@[simp] theorem contentsOf_addDependency (s : Store) (d : Dependency) (n : Namespace) :
    (s.addDependency d).2.contentsOf n = s.contentsOf n := rfl

@[simp] theorem dependency_addDependency (s : Store) (d : Dependency) (id : DependencyId) :
    (s.addDependency d).2.dependency id
      = if s.nextDependency = id then d else s.dependency id :=
  dependency_putDependency s s.nextDependency id d

@[simp] theorem dependency_putEntry (s : Store) (n : Namespace) (key : String) (e : Entry)
    (id : DependencyId) : (s.putEntry n key e).dependency id = s.dependency id := rfl

@[simp] theorem dependency_putIndex (s : Store) (n : Namespace) (i id : DependencyId) :
    (s.putIndex n i).dependency id = s.dependency id := by
  unfold putIndex
  split <;> rfl

@[simp] theorem dependency_insert (s : Store) (n : Namespace) (key : String)
    (i id : DependencyId) : (s.insert n key i).dependency id = s.dependency id := by
  rw [insert, dependency_putIndex, dependency_putEntry]

@[simp] theorem nextDependency_putIndex (s : Store) (n : Namespace) (id : DependencyId) :
    (s.putIndex n id).nextDependency = s.nextDependency := by
  unfold putIndex
  split <;> rfl

theorem contentsOf_putEntry (s : Store) (n m : Namespace) (key : String) (e : Entry) :
    (s.putEntry n key e).contentsOf m
      = if n = m then { s.contentsOf n with entries := (s.contentsOf n).entries.insert key e }
        else s.contentsOf m :=
  contentsOf_putContents s n m _

/-- Only the namespace that is written to changes. -/
theorem contentsOf_putIndex_of_ne (s : Store) {n m : Namespace} (id : DependencyId) (h : n ≠ m) :
    (s.putIndex n id).contentsOf m = s.contentsOf m := by
  unfold putIndex
  split
  · rw [contentsOf_putContents, if_neg h]
  · rfl

/-- Registering a dependency for its coordinate changes no entry. -/
@[simp] theorem entryAt?_putIndex (s : Store) (n m : Namespace) (id : DependencyId)
    (key : String) : (s.putIndex n id).entryAt? m key = s.entryAt? m key := by
  unfold putIndex
  split
  · by_cases h : n = m
    · subst h
      simp [entryAt?]
    · simp [entryAt?, h]
  · rfl

@[simp] theorem entryAt?_putEntry (s : Store) (n m : Namespace) (key key' : String) (e : Entry) :
    (s.putEntry n key e).entryAt? m key'
      = if n = m ∧ key = key' then some e else s.entryAt? m key' := by
  rw [entryAt?, contentsOf_putEntry]
  by_cases h : n = m
  · subst h
    simp [entryAt?, Std.TreeMap.getElem?_insert]
  · simp [entryAt?, h]

@[simp] theorem indexed?_putEntry (s : Store) (n m : Namespace) (key u : String) (e : Entry) :
    (s.putEntry n key e).indexed? m u = s.indexed? m u := by
  unfold indexed?
  rw [contentsOf_putEntry]
  split
  · next heq => rw [heq]
  · rfl

/-- A dependency is registered for its coordinate, and nothing else is. -/
theorem indexed?_putIndex (s : Store) (n m : Namespace) (id : DependencyId) (u : String) :
    (s.putIndex n id).indexed? m u
      = if n = m ∧ (s.dependency id).unversioned = some u then some id else s.indexed? m u := by
  unfold putIndex
  cases hunversioned : (s.dependency id).unversioned with
  | none => simp
  | some own =>
    dsimp only
    unfold indexed?
    rw [contentsOf_putContents]
    by_cases hm : n = m
    · subst hm
      simp [Std.TreeMap.getElem?_insert]
    · simp [hm]

/-! ## §4. Groups -/

/-- The spec of a dependency whose groups nest at most `depth` deep: its own, or the specs of its
members separated by commas. -/
def specWithin (s : Store) : Nat → DependencyId → String
  | 0, id => (s.dependency id).spec
  | depth + 1, id =>
    let d := s.dependency id
    if d.isGroup then String.intercalate "," (d.members.map (s.specWithin depth)) else d.spec

/-- The spec of a dependency.  Members are older than their group, so its own serial number bounds
the depth. -/
def spec (s : Store) (id : DependencyId) : String := s.specWithin id id

/-- The specs of the members of a group, or the one spec of any other dependency. -/
def specs (s : Store) (id : DependencyId) : List String :=
  let d := s.dependency id
  if d.isGroup then d.members.map s.spec else [s.spec id]

/-- Whether a dependency whose groups nest at most `depth` deep is selected: a group is selected if
all its members are. -/
def isSelectedWithin (s : Store) : Nat → DependencyId → Bool
  | 0, id => (s.dependency id).selected.isSome
  | depth + 1, id =>
    let d := s.dependency id
    if d.isGroup then d.members.all (s.isSelectedWithin depth) else d.selected.isSome

/-- Whether a dependency is selected. -/
def isSelected (s : Store) (id : DependencyId) : Bool := s.isSelectedWithin id id

/-- The concrete artifact of a dependency with a coordinate and a version. -/
def artifact (s : Store) (id : DependencyId) : Except Error Artifact :=
  let d := s.dependency id
  if d.isGroup then .error (.lookup d.key .severalArtifacts)
  else
    match d.coordinate, d.version with
    | none, _ => .error (.lookup d.key .coordinateMissing)
    | some _, none => .error (.lookup d.key .versionMissing)
    | some coordinate, some version => .ok ⟨coordinate, version⟩

/-- The artifacts of the members of a group, or the one artifact of any other dependency. -/
def artifactsOf (s : Store) (id : DependencyId) : Except Error (List Artifact) :=
  let d := s.dependency id
  if d.isGroup then d.members.mapM s.artifact else (s.artifact id).map ([·])

/-- Copies a dependency whose groups nest at most `depth` deep, and its members with it. -/
def copyWithin (s : Store) : Nat → DependencyId → String → DependencyId × Store
  | 0, id, key => s.addDependency { s.dependency id with key := key, listeners := [] }
  | depth + 1, id, key =>
    let d := s.dependency id
    let (members, s) := d.members.foldl
      (fun (copies, s) member =>
        let (copy, s) := copyWithin s depth member (s.dependency member).key
        (copies ++ [copy], s))
      (([] : List DependencyId), s)
    s.addDependency { d with key := key, members := members, listeners := [] }

/-- An independent copy of a dependency under another key; listeners are not copied. -/
def copy (s : Store) (id : DependencyId) (key : String) : DependencyId × Store :=
  s.copyWithin id id key

end Store

end DependencyScope
