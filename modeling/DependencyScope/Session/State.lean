/-
  DependencyScope.Session.State — the store, and what else requests leave behind.

  A session is the store together with the names that the registry lists, the selections whose
  listeners still wait, and the record of what listeners saw.

  Main definitions:
    * `Event` — what a listener leaves on record;
    * `Session` — the store and what goes with it.
-/
import DependencyScope.Store.Basic
import Std.Data.TreeSet

namespace DependencyScope

/-- What a listener left on record. -/
inductive Event where
  /-- A selection, with the key and the spec of the dependency at that time. -/
  | selected (label key spec : String)
  /-- The version could not be passed on. -/
  | refused (label : String) (error : Error)
  deriving DecidableEq

/-- The store and what goes with it. -/
structure Session where
  store : Store := {}
  /-- The names under which the registry's table has a namespace. -/
  listed : Std.TreeSet String := ∅
  /-- In a batch, the selections made so far, in order. -/
  waiting : Option (List DependencyId) := none
  /-- What listeners left on record, in order. -/
  events : List Event := []

end DependencyScope
