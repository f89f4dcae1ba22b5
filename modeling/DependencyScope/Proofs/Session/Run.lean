/-
  DependencyScope.Proofs.Session.Run — sessions as they are reached by operations.

  A session begins with an empty registry and goes on with one operation after the other.  An
  operation that fails ends in a session too.

  Main definitions:
    * `Session.start`, `Session.after`, `Session.afterAll`.
-/
import DependencyScope.Session.Operation

namespace DependencyScope.Session

/-- A session with an empty registry; its current namespace follows the projects or does not. -/
def start (followsProjects : Bool) : Session := { store := { followsProjects := followsProjects } }

/-- The session after an operation, whether it succeeds or fails. -/
def after (σ : Session) (operation : Operation) : Session :=
  ((Action.perform operation).run σ).2

/-- The session after several operations. -/
def afterAll (σ : Session) (operations : List Operation) : Session := operations.foldl after σ

@[simp] theorem afterAll_nil (σ : Session) : σ.afterAll [] = σ := rfl

@[simp] theorem afterAll_cons (σ : Session) (operation : Operation) (rest : List Operation) :
    σ.afterAll (operation :: rest) = (σ.after operation).afterAll rest := rfl

end DependencyScope.Session
