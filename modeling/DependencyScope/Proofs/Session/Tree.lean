/-
  DependencyScope.Proofs.Session.Tree — namespaces form a tree.

  Whatever a client does, a namespace has finitely many ancestors, all of them different from each
  other and from the namespace.  Links are only checked when they are set, and two kinds of link
  change their meaning later: those by name when the registry is cleared, and those that follow the
  active project when a project is entered or left.  Neither can close a cycle.

  Main results:
    * `Session.ancestors_chain` — the ancestors are the chain of parents, which ends.
-/
import DependencyScope.Proofs.Session.Reached

namespace DependencyScope.Session

variable {σ : Session} {followsProjects : Bool}

/-- In every session that is reached, the parents of a namespace form a chain that ends with a
namespace without a parent and meets nothing twice; the ancestors are that chain.  A namespace is
none of its own ancestors, and the root has no parent. -/
theorem ancestors_chain (h : Reached followsProjects σ) (n : Namespace) :
    Ascends (fun m : Namespace => m.parent.answer σ.store) n (n.ancestors.answer σ.store) ∧
      (n :: n.ancestors.answer σ.store).Nodup ∧ n ∉ n.ancestors.answer σ.store ∧
      (n.isRoot → n.parent.answer σ.store = none) := by
  have hascends : Ascends σ.store.up n (n.ancestors.answer σ.store) :=
    h.sound.grounded.ascending.ascends_ancestors n
  exact ⟨hascends, hascends.nodup, hascends.not_mem, Store.up_of_isRoot⟩

/-- The namespace `a` follows the active project, `b` hangs under it, and the project of `b` is
entered; then the registry is cleared. -/
def followingRun : Session :=
  (start true).afterAll [.setParent (.registered "a" 0) (.key .current),
    .setParent (.registered "b" 0) (.handle (.registered "a" 0)), .enter "b", .enter "c",
    .clearRegistry]

theorem reached_followingRun : Reached true followingRun := by
  refine .after (.after (.after (.after (.after .start ?_) ?_) ?_) ?_) ?_
  · exact ⟨Nat.le_refl 0, trivial⟩
  · exact ⟨Nat.zero_le _, Nat.zero_le _⟩
  all_goals trivial

/-- From `b` the chain goes on with the project's new namespaces, up to the root. -/
theorem ascends_followingRun :
    Ascends (fun m : Namespace => m.parent.answer followingRun.store) (.registered "b" 0)
      [.registered "a" 0, .registered "b:c" 1, .registered "b" 1, .registered rootName 1] := by
  have hancestors : (Namespace.registered "b" 0).ancestors.answer followingRun.store
      = [.registered "a" 0, .registered "b:c" 1, .registered "b" 1, .registered rootName 1] := by
    decide +kernel
  have hascends := (ancestors_chain reached_followingRun (.registered "b" 0)).1
  rw [hancestors] at hascends
  exact hascends

end DependencyScope.Session
