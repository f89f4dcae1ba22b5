/-
  DependencyScope.Proofs.Session.Groups — a group never has a coordinate, so artifacts never fail.

  A dependency has one artifact if it has a coordinate and a version and is no group.  The values of
  a namespace all have a coordinate, but nothing in their definition says that none of them is a
  group: that is an invariant of sessions.  A client makes a dependency either with a coordinate or
  with members.  Afterwards a coordinate is given only to what has no members, a copy has as many
  members as its original, and no step gives members to a record.

  Main definitions:
    * `Dependency.Constructed` — the records that a client can make;
    * `Dependency.Yields` — the artifact is that of the record.

  Main results:
    * `Store.exists_artifacts` — the artifacts of a namespace where nothing is mixed;
    * `Session.artifacts_of_reachedThrough` — so in every session, one for each value with a version.
-/
import DependencyScope.Proofs.Registry.Artifact
import DependencyScope.Proofs.Session.Parts
import DependencyScope.Proofs.Store.Values

namespace DependencyScope

open DependencyScope.Text DependencyScope.Action

/-! ## §1. Records. -/

namespace Dependency

variable {d : Dependency}

/-- The records that a client can make by itself: a declaration, with or without a coordinate, or a
group of dependencies that have been made. -/
inductive Constructed : Dependency → Prop where
  | declared (key : String) (coordinate : Option Coordinate) (requirement : Option Requirement)
      (defaultVersion : Option String) :
      Constructed { key, coordinate, requirement, defaultVersion }
  | group (key : String) (members : List DependencyId) : Constructed { key, members }

theorem Constructed.unmixed (h : d.Constructed) : d.Unmixed := by
  cases h with
  | declared => exact .inl rfl
  | group => exact .inr rfl

/-- The artifact has the coordinate and the version of the record. -/
def Yields (d : Dependency) (a : Artifact) : Prop :=
  d.coordinate = some a.coordinate ∧ d.version = some a.version

end Dependency

/-! ## §2. Artifacts. -/

/-- Where no step fails, there is one result for each. -/
theorem exists_mapM_ok {α β : Type} {f : α → Except Error β} {R : α → β → Prop} (as : List α)
    (h : ∀ a ∈ as, ∃ b, f a = .ok b ∧ R a b) :
    ∃ bs, as.mapM f = .ok bs ∧ List.Forall₂ R as bs := by
  induction as with
  | nil => exact ⟨[], rfl, .nil⟩
  | cons a as ih =>
    rw [List.forall_mem_cons] at h
    obtain ⟨⟨b, hb, hab⟩, hrest⟩ := h
    obtain ⟨bs, hbs, hall⟩ := ih hrest
    refine ⟨b :: bs, ?_, .cons hab hall⟩
    rw [List.mapM_cons, hb]
    show (as.mapM f >>= fun bs => pure (b :: bs)) = _
    rw [hbs]
    rfl

namespace Store

variable {s : Store}

/-- What has a coordinate and a version and is no group has an artifact. -/
theorem exists_artifact {id : DependencyId} (hsingle : (s.dependency id).isGroup = false)
    (hcoordinate : (s.dependency id).coordinate.isSome)
    (hversion : (s.dependency id).version.isSome) :
    ∃ a, s.artifact id = .ok a ∧ (s.dependency id).Yields a := by
  obtain ⟨coordinate, hcoordinate⟩ := Option.isSome_iff_exists.1 hcoordinate
  obtain ⟨version, hversion⟩ := Option.isSome_iff_exists.1 hversion
  have hartifact : s.artifact id = .ok ⟨coordinate, version⟩ := by
    unfold artifact
    simp [hsingle, hcoordinate, hversion]
  exact ⟨⟨coordinate, version⟩, hartifact, artifact_eq_ok hartifact⟩

theorem isSome_coordinate_of_mem_values {n : Namespace} {id : DependencyId}
    (h : id ∈ s.values n) : (s.dependency id).coordinate.isSome := by
  rw [values_eq] at h
  exact (mem_placed_iff.1 h).2

/-- Where nothing is mixed, no value is a group, and so each value with a version has its artifact. -/
theorem exists_artifacts (h : s.Records Dependency.Unmixed) (n : Namespace) :
    ∃ found, s.artifacts n = .ok found ∧
      List.Forall₂ (fun id a => (s.dependency id).Yields a)
        ((s.values n).filter fun id => (s.dependency id).version.isSome) found := by
  refine exists_mapM_ok _ fun id hid => ?_
  obtain ⟨hvalue, hversion⟩ := List.mem_filter.1 hid
  have hcoordinate := isSome_coordinate_of_mem_values hvalue
  exact exists_artifact ((h id).isGroup_of_coordinate hcoordinate) hcoordinate hversion

end Store

/-! ## §3. Runs. -/

namespace Session

variable {followsProjects : Bool} {σ : Session}

theorem unmixed_of_reachedThrough
    (h : ReachedThrough followsProjects
      (fun _ operation => ∀ d, operation = .newDependency d → d.Constructed) σ) :
    σ.Records Dependency.Unmixed :=
  h.records Dependency.lasting_unmixed (fun _ _ hrecord => hrecord) fun _ _ hnew d hd =>
    (hnew d hd).unmixed

/-- However a session is reached, no group in it has a coordinate.  Asking a namespace for its
artifacts therefore never fails: there is one for each of its values that has a version, in the order
of the values, and it has the coordinate and the version of that value. -/
theorem artifacts_of_reachedThrough
    (h : ReachedThrough followsProjects
      (fun _ operation => ∀ d, operation = .newDependency d → d.Constructed) σ) :
    (∀ id, (σ.store.dependency id).isGroup = true → (σ.store.dependency id).coordinate = none) ∧
    ∀ n, ∃ ids found,
      (perform (.values n false)).run σ = (.ok (.dependencies ids), σ) ∧
      (perform (.artifacts n)).run σ = (.ok (.artifacts found), σ) ∧
      List.Forall₂ (fun id a => (σ.store.dependency id).Yields a)
        (ids.filter fun id => (σ.store.dependency id).version.isSome) found := by
  have hunmixed := unmixed_of_reachedThrough h
  refine ⟨fun id => (hunmixed id).coordinate_of_isGroup, fun n => ?_⟩
  obtain ⟨found, hfound, hall⟩ := Store.exists_artifacts hunmixed n
  refine ⟨σ.store.values n, found, rfl, ?_, hall⟩
  unfold perform
  rw [run_bind_ok (run_view _ σ), hfound]
  rfl

/-- A group of a group and of its member is copied, a batch puts another dependency in its place and
fails, and so the copy is back, without a coordinate.  Its one value is the copy of the member. -/
theorem artifacts_of_reachedThrough_copied :
    let root : Namespace := .registered rootName 0
    let σ := (start true).afterAll
      [.newDependency { key := "m", coordinate := some ⟨"g", "i", "t", none⟩, defaultVersion := "1" },
        .newDependency { key := "g", members := [0] },
        .newDependency { key := "h", members := [1, 0] },
        .set root "k" (.dependency 2), .set root "l" (.text "g:j:t:2"),
        .useAll root [("k", .text "g:n:t:3"), ("o", .text "::")]]
    ReachedThrough true (fun _ operation => ∀ d, operation = .newDependency d → d.Constructed) σ ∧
    σ.store.entryAt? root "k" = some (.dependency 6) ∧
    (σ.store.dependency 6).members = [4, 5] ∧ (σ.store.dependency 4).members = [3] ∧
    (σ.store.dependency 6).coordinate = none ∧ (σ.store.dependency 4).coordinate = none ∧
    ∃ found, (perform (.values root false)).run σ = (.ok (.dependencies [5, 7]), σ) ∧
      (perform (.artifacts root)).run σ = (.ok (.artifacts found), σ) ∧
      List.Forall₂ (fun id a => (σ.store.dependency id).Yields a) [5, 7] found := by
  intro root σ
  have hreached : ReachedThrough true
      (fun _ operation => ∀ d, operation = .newDependency d → d.Constructed) σ := by
    refine .after (.after (.after (.after (.after (.after .start ?_ ?_) ?_ ?_) ?_ ?_)
      trivial nofun) trivial nofun) trivial nofun
    · exact fun _ hm => nomatch hm
    · rintro _ ⟨⟩
      exact .declared _ _ _ _
    · show ∀ m ∈ [0], m < _
      decide +kernel
    · rintro _ ⟨⟩
      exact .group _ _
    · show ∀ m ∈ [1, 0], m < _
      decide +kernel
    · rintro _ ⟨⟩
      exact .group _ _
  have hmembers : (σ.store.dependency 6).members = [4, 5] ∧ (σ.store.dependency 4).members = [3] := by
    decide +kernel
  have hvalues : σ.store.values root = [5, 7] := by decide +kernel
  have hversions : ([5, 7].filter fun id => (σ.store.dependency id).version.isSome) = [5, 7] := by
    decide +kernel
  obtain ⟨hgroups, hartifacts⟩ := artifacts_of_reachedThrough hreached
  obtain ⟨ids, found, hids, hfound, hall⟩ := hartifacts root
  obtain rfl : ids = [5, 7] := by
    have hanswer : (perform (.values root false)).run σ
        = (.ok (.dependencies (σ.store.values root)), σ) := rfl
    rw [hvalues] at hanswer
    cases hids.symm.trans hanswer
    rfl
  rw [hversions] at hall
  have hnone (id : DependencyId) (h : (σ.store.dependency id).members ≠ []) :
      (σ.store.dependency id).coordinate = none :=
    hgroups id (by simpa [Dependency.isGroup] using h)
  exact ⟨hreached, by decide +kernel, hmembers.1, hmembers.2, hnone 6 (by simp [hmembers.1]),
    hnone 4 (by simp [hmembers.2]), found, hids, hfound, hall⟩

end Session

end DependencyScope
