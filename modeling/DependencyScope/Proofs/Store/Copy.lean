/-
  DependencyScope.Proofs.Store.Copy — what a copy of a dependency is.

  A copy is made together with copies of its members, and all of them are new: the records that were
  there stay as they are.  A copy has the coordinate, the requirement and the selection of what it
  was made from.  Its members correspond one by one to those of the source.

  Main definitions:
    * `Dependency.core` — a record up to its key, its members and its listeners;
    * `Store.Extends` — nothing but new dependencies has been added;
    * `Store.copyAll` — the copies of several dependencies.

  Main results:
    * `Store.copyWithin_spec`, `Store.copy_spec` — a copy agrees with its source.
-/
import DependencyScope.Proofs.Store.Sound

namespace DependencyScope

namespace Dependency

/-- What a dependency says about its artifact. -/
def core (d : Dependency) : Dependency := { d with key := "", members := [], listeners := [] }

/-- The record of a copy. -/
def asCopy (d : Dependency) (key : String) (members : List DependencyId) : Dependency :=
  { d with key := key, members := members, listeners := [] }

@[simp] theorem core_asCopy (d : Dependency) (key : String) (members : List DependencyId) :
    (d.asCopy key members).core = d.core := rfl

@[simp] theorem members_asCopy (d : Dependency) (key : String) (members : List DependencyId) :
    (d.asCopy key members).members = members := rfl

end Dependency

namespace Store

variable {r s t : Store} {id : DependencyId} {d : Dependency}

/-- The store `t` is `s` with new dependencies. -/
structure Extends (s t : Store) : Prop extends s.Grows t where
  kept : ∀ i < s.nextDependency, t.dependency i = s.dependency i
  contents : t.contents = s.contents

theorem dependency_added (s : Store) (d : Dependency) :
    (s.addDependency d).2.dependency (s.addDependency d).1 = d := by
  rw [dependency_addDependency]
  exact if_pos rfl

namespace Extends

theorem refl (h : s.Sound) : s.Extends s where
  toGrows := .refl h
  kept _ _ := rfl
  contents := rfl

theorem trans (h : r.Extends s) (h' : s.Extends t) : r.Extends t where
  toGrows := h.toGrows.trans h'.toGrows
  kept i hi := (h'.kept i (h.lt hi)).trans (h.kept i hi)
  contents := h'.contents.trans h.contents

theorem addDependency (h : s.Sound) (hd : ∀ m ∈ d.members, m < s.nextDependency) :
    s.Extends (s.addDependency d).2 where
  toGrows := (Grows.addDependency h hd).1
  kept := by
    intro i hi
    rw [dependency_addDependency, if_neg (Nat.ne_of_gt hi)]
  contents := rfl

end Extends

/-- Copies several dependencies one after the other, each under its own key. -/
def copyAll (depth : Nat) : List DependencyId → Store → List DependencyId × Store
  | [], s => ([], s)
  | member :: rest, s =>
    let copied := s.copyWithin depth member (s.dependency member).key
    let others := copyAll depth rest copied.2
    (copied.1 :: others.1, others.2)

theorem foldl_copyWithin (depth : Nat) : ∀ (members copies : List DependencyId) (s : Store),
    members.foldl (fun (found : List DependencyId × Store) member =>
        (found.1 ++ [(found.2.copyWithin depth member (found.2.dependency member).key).1],
          (found.2.copyWithin depth member (found.2.dependency member).key).2)) (copies, s)
      = (copies ++ (copyAll depth members s).1, (copyAll depth members s).2)
  | [], copies, s => by simp [copyAll]
  | member :: rest, copies, s => by
    rw [List.foldl_cons, foldl_copyWithin depth rest]
    simp [copyAll]

/-- Members are copied before the dependency that they belong to. -/
theorem copyWithin_succ (s : Store) (depth : Nat) (id : DependencyId) (key : String) :
    s.copyWithin (depth + 1) id key
      = (copyAll depth (s.dependency id).members s).2.addDependency
        ((s.dependency id).asCopy key (copyAll depth (s.dependency id).members s).1) := by
  have hfold := foldl_copyWithin depth (s.dependency id).members [] s
  have hcopy (found : List DependencyId × Store)
      (h : (s.dependency id).members.foldl (fun (found : List DependencyId × Store) member =>
        (found.1 ++ [(found.2.copyWithin depth member (found.2.dependency member).key).1],
          (found.2.copyWithin depth member (found.2.dependency member).key).2)) ([], s) = found) :
      s.copyWithin (depth + 1) id key
        = found.2.addDependency ((s.dependency id).asCopy key found.1) := by
    rw [← h]
    rfl
  exact hcopy _ hfold

/-- Only the members of a copy depend on the depth. -/
theorem dependency_copyWithin (s : Store) (depth : Nat) (id : DependencyId) (key : String) :
    ∃ members, (s.copyWithin depth id key).2.dependency (s.copyWithin depth id key).1
      = (s.dependency id).asCopy key members := by
  cases depth with
  | zero => exact ⟨(s.dependency id).members, dependency_added s _⟩
  | succ depth =>
    rw [copyWithin_succ]
    exact ⟨_, dependency_added _ _⟩

/-- What several dependencies say about their artifacts. -/
def cores (s : Store) (ids : List DependencyId) : List Dependency :=
  ids.map fun id => (s.dependency id).core

theorem Extends.cores (h : s.Extends t) {ids : List DependencyId}
    (hids : ∀ id ∈ ids, id < s.nextDependency) : t.cores ids = s.cores ids :=
  List.map_congr_left fun id hid => congrArg Dependency.core (h.kept id (hids id hid))

/-- What copying the dependency `id` of `s` has come to: its copy is `copy` in the store `t`. -/
structure Copied (s : Store) (id copy : DependencyId) (t : Store) : Prop extends s.Extends t where
  fresh : s.nextDependency ≤ copy
  made : copy < t.nextDependency
  core : (t.dependency copy).core = (s.dependency id).core
  members : t.cores (t.dependency copy).members = s.cores (s.dependency id).members

/-- The new record refers to dependencies that agree with the members of the source. -/
theorem Copied.of_addDependency (h : s.Extends t) (key : String) {ids : List DependencyId}
    (hids : ∀ m ∈ ids, m < t.nextDependency)
    (hcores : t.cores ids = s.cores (s.dependency id).members) :
    s.Copied id (t.addDependency ((s.dependency id).asCopy key ids)).1
      (t.addDependency ((s.dependency id).asCopy key ids)).2 := by
  have hadd : t.Extends (t.addDependency ((s.dependency id).asCopy key ids)).2 :=
    .addDependency h.sound hids
  have hnew : (t.addDependency ((s.dependency id).asCopy key ids)).2.dependency
      (t.addDependency ((s.dependency id).asCopy key ids)).1 = (s.dependency id).asCopy key ids :=
    t.dependency_added _
  refine { h.trans hadd with
    fresh := h.dependencies, made := Nat.lt_succ_self _, core := ?_, members := ?_ }
  · rw [hnew, Dependency.core_asCopy]
  · rw [hnew, Dependency.members_asCopy, hadd.cores hids, hcores]

theorem copyAll_spec {depth : Nat} (hcopy : ∀ {s : Store}, s.Sound → ∀ (id : DependencyId)
      (key : String), s.Copied id (s.copyWithin depth id key).1 (s.copyWithin depth id key).2) :
    ∀ (members : List DependencyId) {s : Store}, s.Sound → (∀ m ∈ members, m < s.nextDependency) →
      s.Extends (copyAll depth members s).2 ∧
        (∀ m ∈ (copyAll depth members s).1, m < (copyAll depth members s).2.nextDependency) ∧
        (copyAll depth members s).2.cores (copyAll depth members s).1 = s.cores members
  | [], s, h, _ => ⟨.refl h, by simp [copyAll], rfl⟩
  | member :: rest, s, h, hmembers => by
    rw [List.forall_mem_cons] at hmembers
    have hfirst := hcopy h member (s.dependency member).key
    obtain ⟨hothers, hmade, hcores⟩ := copyAll_spec hcopy rest hfirst.sound fun m hm =>
      hfirst.lt (hmembers.2 m hm)
    refine ⟨hfirst.toExtends.trans hothers, ?_, ?_⟩
    · exact List.forall_mem_cons.2 ⟨hothers.lt hfirst.made, hmade⟩
    -- the others leave the first copy as it is
    · have hrecord := hothers.kept _ hfirst.made
      unfold cores at hcores ⊢
      rw [copyAll, List.map_cons, List.map_cons, hcores, hrecord, hfirst.core]
      exact congrArg _ (hfirst.toExtends.cores hmembers.2)

/-- A copy agrees with its source, and so do its members with those of the source. -/
theorem copyWithin_spec (depth : Nat) : ∀ {s : Store}, s.Sound → ∀ (id : DependencyId)
    (key : String), s.Copied id (s.copyWithin depth id key).1 (s.copyWithin depth id key).2 := by
  induction depth with
  | zero =>
    exact fun h id key =>
      .of_addDependency (.refl h) key (fun m hm => (h.ordered.members id m hm).2) rfl
  | succ depth ih =>
    intro s h id key
    obtain ⟨hextends, hmade, hcores⟩ := copyAll_spec ih (s.dependency id).members h
      fun m hm => (h.ordered.members id m hm).2
    rw [copyWithin_succ]
    exact .of_addDependency hextends key hmade hcores

theorem copy_spec (h : s.Sound) (id : DependencyId) (key : String) :
    s.Copied id (s.copy id key).1 (s.copy id key).2 :=
  copyWithin_spec id h id key

end Store

end DependencyScope
