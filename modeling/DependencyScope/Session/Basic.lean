/-
  DependencyScope.Session.Basic — actions on the store, and the listeners that follow them.

  An action that fails keeps what it has done before it failed; the batches in
  `DependencyScope.Session.Batch` take that back.

  Main definitions:
    * `Action` — a step of a session that may fail;
    * `Session.fire` — tells the listeners of a dependency;
    * `Action.select`, `Action.declare` — selections and declarations with their listeners.
-/
import DependencyScope.Namespace.Lookup

namespace DependencyScope

/-! ## §1. Actions -/

/-- A step of a session that may fail. -/
abbrev Action := ExceptT Error (StateM Session)

namespace Action

/-- Puts a question, with all that it writes on the way. -/
def read {α : Type} (r : Reading α) : Action α := fun σ =>
  let (a, σ) := r σ
  (.ok a, σ)

instance : MonadLift Reading Action := ⟨read⟩

/-- Looks at the store. -/
def view {α : Type} (f : Store → α) : Action α := fun σ => (.ok (f σ.store), σ)

/-- Changes the store. -/
def update (f : Store → Store) : Action Unit := fun σ => (.ok (), { σ with store := f σ.store })

/-- Changes the store and keeps a result of the change. -/
def change {α : Type} (f : Store → α × Store) : Action α := fun σ =>
  let (a, store) := f σ.store
  (.ok a, { σ with store })

/-- Fails if the result is an error. -/
def ofExcept {α : Type} (result : Except Error α) : Action α := fun σ => (result, σ)

end Action

/-! ## §2. Listeners -/

namespace Session

/-- Puts an event on record. -/
def record (σ : Session) (e : Event) : Session := { σ with events := σ.events ++ [e] }

/-- Tells the listeners of a dependency of its selection.  A listener with a chain passes the
version on, and what that selects tells its own listeners, at most `depth` times over. -/
def fireWithin : Nat → DependencyId → Session → Session
  | 0, _, σ => σ
  | depth + 1, id, σ =>
    (σ.store.dependency id).listeners.foldl
      (fun σ listener =>
        let d := σ.store.dependency id
        let σ := σ.record (.selected listener.label d.key (σ.store.spec id))
        match listener.chain with
        | none => σ
        | some next =>
          match (σ.store.dependency next).select (d.version.getD "") with
          | .error error => σ.record (.refused listener.label error)
          | .ok selected =>
            fireWithin depth next { σ with store := σ.store.putDependency next selected })
      σ

/-- Tells the listeners of a dependency of its selection.  A chain passes on one and the same
version, so one that comes to an end visits no dependency twice. -/
def fire (σ : Session) (id : DependencyId) : Session :=
  fireWithin (σ.store.nextDependency + 1) id σ

/-- Tells the listeners now, or notes the selection in a batch. -/
def announce (σ : Session) (id : DependencyId) : Session :=
  match σ.waiting with
  | some ids => { σ with waiting := some (ids ++ [id]) }
  | none => σ.fire id

end Session

/-! ## §3. Steps on one dependency -/

namespace Action

/-- Tells the listeners of a dependency that it was selected. -/
def announce (id : DependencyId) : Action Unit := fun σ => (.ok (), σ.announce id)

/-- Replaces a dependency by the outcome of a choice, and announces a selection. -/
def settle (id : DependencyId) (outcome : Dependency.Outcome) : Action Unit := do
  update (·.putDependency id outcome.dependency)
  if outcome.selects then announce id

/-- Selects the version that `text` writes. -/
def select (id : DependencyId) (text : String) : Action Unit := do
  let d ← view (·.dependency id)
  settle id ⟨← ofExcept (d.select text), true⟩

/-- Declares a requirement and a default version. -/
def declare (id : DependencyId) (declaration : Declaration) : Action Unit := do
  let d ← view (·.dependency id)
  settle id ⟨← ofExcept (d.declare declaration), false⟩

/-- Gives a dependency a coordinate. -/
def setCoordinate (id : DependencyId) (coordinate : Coordinate) : Action Unit :=
  update fun s => s.putDependency id { s.dependency id with coordinate := some coordinate }

end Action

end DependencyScope
