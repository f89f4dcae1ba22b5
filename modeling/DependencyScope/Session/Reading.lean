/-
  DependencyScope.Session.Reading — questions to a session.

  A question may write to the session that it is put to, and some do.  The registry makes a
  namespace, and lists it, when its name is resolved for the first time, also when that happens only
  to answer a question.  And while the parent of a namespace is found through the active project,
  the namespace is marked, so that the same question is not gone into again on the way.

  Main definitions:
    * `Store.marked`, `Store.unmarked` — a namespace is marked, and not any more;
    * `Reading` — a question, as a step of a session that has an answer;
    * `Reading.view`, `Reading.resolve` — the two primitive questions;
    * `Reading.marking` — a question that is answered while a namespace is marked;
    * `Reading.answer`, `Reading.listing` — what a question answers, and what is listed then.
-/
import DependencyScope.Session.State

namespace DependencyScope

namespace Store

/-- The store with the mark on a namespace that its parent is being found. -/
def marked (s : Store) (n : Namespace) : Store := { s with resolving := n :: s.resolving }

/-- The store without that mark. -/
def unmarked (s : Store) (n : Namespace) : Store := { s with resolving := s.resolving.erase n }

@[simp] theorem unmarked_marked (s : Store) (n : Namespace) : (s.marked n).unmarked n = s := by
  simp [marked, unmarked]

end Store

/-- A question to a session: its answer, and the session that it leaves. -/
def Reading (α : Type) : Type := StateM Session α

namespace Reading

instance : Monad Reading := inferInstanceAs (Monad (StateM Session))

instance : LawfulMonad Reading := inferInstanceAs (LawfulMonad (StateM Session))

variable {α : Type}

/-- A question that only looks at the store. -/
def view (f : Store → α) : Reading α := fun σ => (f σ.store, σ)

/-- The namespace that the registry's table has under a canonical name; if there is none, one that
holds nothing is made for it. -/
def resolve (name : String) : Reading Namespace := fun σ =>
  (.registered name σ.store.generation,
    if σ.listed.contains name then σ else { σ with listed := σ.listed.insert name })

/-- Marks a namespace. -/
def mark (n : Namespace) : Reading Unit := fun σ => ((), { σ with store := σ.store.marked n })

/-- Takes the mark of a namespace away. -/
def unmark (n : Namespace) : Reading Unit := fun σ => ((), { σ with store := σ.store.unmarked n })

/-- Puts a question while a namespace is marked. -/
def marking (n : Namespace) (r : Reading α) : Reading α := do
  mark n
  let a ← r
  unmark n
  return a

/-- The answer that a question has where there is only a store. -/
def answer (r : Reading α) (s : Store) : α := (r { store := s }).1

/-- The names that are listed once a question has been answered. -/
def listing (r : Reading α) (σ : Session) : Std.TreeSet String := (r σ).2.listed

end Reading

end DependencyScope
