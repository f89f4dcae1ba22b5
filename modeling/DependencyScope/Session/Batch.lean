/-
  DependencyScope.Session.Batch — actions that happen as a whole or not at all.

  A batch holds its listeners back until it has succeeded; if it fails they are never told.  A batch
  on a namespace that fails puts back what the namespaces below that namespace held before, and the
  dependencies that they held.

  Main definitions:
    * `Store.restore` — puts back parts of an earlier store;
    * `Action.deferring` — holds the listeners back;
    * `Action.atomically` — a batch on one namespace.
-/
import DependencyScope.Namespace.Containment
import DependencyScope.Session.Basic

namespace DependencyScope

namespace Store

/-! ## §1. Checkpoints -/

/-- A dependency and its members, to at most the given depth. -/
def membersWithin (s : Store) : Nat → DependencyId → List DependencyId
  | 0, id => [id]
  | depth + 1, id => id :: (s.dependency id).members.flatMap (s.membersWithin depth)

/-- The dependencies that a namespace itself holds by entry or index, with all their members. -/
def heldBy (s : Store) (n : Namespace) : List DependencyId :=
  ((s.entries n).filterMap Entry.dependency? ++ (s.contentsOf n).index.values).flatMap fun id =>
    s.membersWithin id id

/-- The dependencies held in a namespace and below. -/
def heldIn (s : Store) (n : Namespace) : List DependencyId := (s.subtree n).flatMap s.heldBy

/-- Puts back what the given namespaces held and what the given dependencies were in `saved`. -/
def restore (s saved : Store) (namespaces : List Namespace) (ids : List DependencyId) : Store :=
  let s := namespaces.foldl (fun s n => s.putContents n (saved.contentsOf n)) s
  ids.foldl (fun s id => s.putDependency id (saved.dependency id)) s

/-- Puts back what was held in the given namespaces and below them in `saved`. -/
def restoreBelow (s saved : Store) (roots : List Namespace) : Store :=
  s.restore saved (roots.flatMap saved.subtree) (roots.flatMap saved.heldIn)

theorem contentsOf_foldl_putContents (saved : Store) (n : Namespace) (ns : List Namespace)
    (s : Store) :
    (ns.foldl (fun s n => s.putContents n (saved.contentsOf n)) s).contentsOf n
      = if n ∈ ns then saved.contentsOf n else s.contentsOf n := by
  induction ns generalizing s with
  | nil => simp
  | cons m ns ih =>
    rw [List.foldl_cons, ih, contentsOf_putContents]
    by_cases hm : m = n
    · subst hm
      simp
    · have hnm : ¬ n = m := fun h => hm h.symm
      simp [hm, hnm]

theorem dependency_foldl_putContents (saved : Store) (id : DependencyId) (ns : List Namespace)
    (s : Store) :
    (ns.foldl (fun s n => s.putContents n (saved.contentsOf n)) s).dependency id
      = s.dependency id := by
  induction ns generalizing s with
  | nil => rfl
  | cons m ns ih => rw [List.foldl_cons, ih, dependency_putContents]

theorem contentsOf_foldl_putDependency (saved : Store) (n : Namespace) (ids : List DependencyId)
    (s : Store) :
    (ids.foldl (fun s id => s.putDependency id (saved.dependency id)) s).contentsOf n
      = s.contentsOf n := by
  induction ids generalizing s with
  | nil => rfl
  | cons i ids ih => rw [List.foldl_cons, ih, contentsOf_putDependency]

theorem dependency_foldl_putDependency (saved : Store) (id : DependencyId)
    (ids : List DependencyId) (s : Store) :
    (ids.foldl (fun s id => s.putDependency id (saved.dependency id)) s).dependency id
      = if id ∈ ids then saved.dependency id else s.dependency id := by
  induction ids generalizing s with
  | nil => simp
  | cons i ids ih =>
    rw [List.foldl_cons, ih, dependency_putDependency]
    by_cases hi : i = id
    · subst hi
      simp
    · have hid : ¬ id = i := fun h => hi h.symm
      simp [hi, hid]

/-- What a namespace holds after restoring. -/
theorem contentsOf_restore (s saved : Store) (ns : List Namespace) (ids : List DependencyId)
    (n : Namespace) :
    (s.restore saved ns ids).contentsOf n
      = if n ∈ ns then saved.contentsOf n else s.contentsOf n := by
  unfold restore
  rw [contentsOf_foldl_putDependency, contentsOf_foldl_putContents]

/-- The record of a dependency after restoring. -/
theorem dependency_restore (s saved : Store) (ns : List Namespace) (ids : List DependencyId)
    (id : DependencyId) :
    (s.restore saved ns ids).dependency id
      = if id ∈ ids then saved.dependency id else s.dependency id := by
  unfold restore
  rw [dependency_foldl_putDependency, dependency_foldl_putContents]

end Store

namespace Action

variable {α : Type}

/-! ## §2. Batches -/

/-- Runs an action; if it fails, `undo` makes the session anew from those before and after. -/
def restoring (undo : Session → Session → Session) (act : Action α) : Action α := fun σ =>
  match act.run σ with
  | (.ok a, τ) => (.ok a, τ)
  | (.error error, τ) => (.error error, undo σ τ)

/-- Runs an action with the listeners held back.  They are told, in the order of the selections,
when it has succeeded, and not at all when it has failed.  Inside another batch it is part of that
batch. -/
def deferring (act : Action α) : Action α := fun σ =>
  match σ.waiting with
  | some _ => act.run σ
  | none =>
    match act.run { σ with waiting := some [] } with
    | (.error error, τ) => (.error error, { τ with waiting := none })
    | (.ok a, τ) =>
      (.ok a, (τ.waiting.getD []).foldl Session.fire { τ with waiting := none })

/-- A batch of writes to a namespace: if it fails, what the namespace and those below it held is
put back. -/
def atomically (n : Namespace) (act : Action α) : Action α :=
  deferring <| act |> restoring fun σ τ =>
    { τ with store := τ.store.restoreBelow σ.store [n] }

end Action

end DependencyScope
