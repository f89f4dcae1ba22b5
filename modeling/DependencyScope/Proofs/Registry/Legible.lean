/-
  DependencyScope.Proofs.Registry.Legible — every artifact that is handed out is read back.

  The version of an artifact comes from many places: a selection, the default of a declaration, the
  anchor of a requirement, the selection of an enclosing namespace, or the spec that asks for it.
  Each of these is the text of a version, and each coordinate was read from a spec.  So the text of
  the artifact has its colons where they belong.  That holds as long as every record is made through
  namespaces and the registry; a record of one's own may hold anything.

  Main definitions:
    * `Dependency.Legible` — what every record has;
    * `Operation.isManaged` — the operation goes through namespaces and the registry;
    * `Store.HandsOut` — the artifacts that a store hands out.

  Main results:
    * `Dependency.lasting_legible` — no step on a dependency makes it illegible;
    * `Session.parse_handedOut` — artifacts have valid versions and are read back from their specs.
-/
import DependencyScope.Proofs.Coordinate
import DependencyScope.Proofs.Registry.Artifact

namespace DependencyScope

open DependencyScope.Text DependencyScope.Action

/-! ## §1. Legible declarations and records. -/

/-- The version that is suggested, if there is one, is the text of a version. -/
def Declaration.Legible (x : Declaration) : Prop := ∀ text ∈ x.default, isVersionText text = true

/-- What a requirement suggests is the text of a version. -/
theorem Requirement.isVersionText_default {r : Requirement} {text : String}
    (h : text ∈ r.default?) : isVersionText text = true := by
  obtain ⟨v, -, rfl⟩ := Option.map_eq_some_iff.1 h
  exact v.wellFormed

/-- Whatever a version part and a requirement declare together is legible. -/
theorem Declaration.legible_of_make {version requirement : Option String} {x : Declaration}
    (h : make version requirement = .ok x) : x.Legible := by
  intro text htext
  unfold make at h
  split at h
  · obtain ⟨r, -, hrest⟩ := bind_eq_ok.1 h
    split at hrest
    · cases hrest
      exact Requirement.isVersionText_default htext
    · split at hrest
      · next v _ =>
        cases hrest
        obtain rfl := Option.some.inj htext
        exact v.wellFormed
      · obtain ⟨suggested, -, hlast⟩ := bind_eq_ok.1 hrest
        cases hlast
        exact Requirement.isVersionText_default htext
  · obtain ⟨r, -, hrest⟩ := bind_eq_ok.1 h
    cases hrest
    exact Requirement.isVersionText_default htext
  · cases h
    exact nomatch htext

theorem NeedSpec.legible_of_declared? {text : String} {x : Declaration}
    (h : x ∈ NeedSpec.declared? text) : x.Legible := by
  obtain ⟨need, -, hmake⟩ := bind_eq_ok.1 (eq_ok_of_toOption h)
  exact Declaration.legible_of_make hmake

theorem Value.legible_of_declarations {value : Value} :
    ∀ x ∈ value.declarations, x.Legible := by
  intro x hx
  cases value with
  | text needed => exact NeedSpec.legible_of_declared? (Option.mem_toList.1 hx)
  | group specs =>
    obtain ⟨text, -, hx⟩ := List.mem_filterMap.1 hx
    exact NeedSpec.legible_of_declared? hx
  | key _ => exact nomatch hx
  | dependency _ => exact nomatch hx
  | sub _ => exact nomatch hx

namespace Dependency

/-- The coordinate is one that a spec writes, and the default is the text of a version. -/
structure Legible (d : Dependency) : Prop where
  coordinate : ∀ c ∈ d.coordinate, c.WellFormed
  default : ∀ text ∈ d.defaultVersion, isVersionText text = true

variable {d d' : Dependency}

/-- Selections are well formed by themselves. -/
theorem Legible.version (h : d.Legible) : ∀ text ∈ d.version, isVersionText text = true := by
  intro text htext
  cases hselected : d.selected with
  | some v =>
    obtain rfl : v.text = text := Option.some.inj ((version_of_selected hselected).symm.trans htext)
    exact v.wellFormed
  | none => exact h.default text ((version_of_unselected hselected).symm.trans htext)

theorem legible_of_select {text : String} (h : d.Legible) (hselect : d.select text = .ok d') :
    d'.Legible := by
  obtain ⟨v, -, rfl⟩ := map_eq_ok.1 hselect
  exact ⟨h.coordinate, h.default⟩

theorem legible_of_declare {x : Declaration} (hx : x.Legible) (h : d.Legible)
    (hdeclare : d.declare x = .ok d') : d'.Legible := by
  rw [declare_spec hdeclare]
  exact ⟨h.coordinate, hx⟩

/-- A version part leaves the default, or puts the anchor of a requirement in its place. -/
theorem legible_of_choose {inherited : Option Requirement} {part : VersionText} {outcome : Outcome}
    (h : d.Legible) (hchoose : d.choose inherited (some part) = .ok outcome) :
    outcome.dependency.Legible := by
  cases part with
  | plain v =>
    unfold choose at hchoose
    obtain ⟨checked, -, rfl⟩ := map_eq_ok.1 hchoose
    exact ⟨h.coordinate, h.default⟩
  | constraint r =>
    rw [choose_constraint] at hchoose
    unfold narrowTo at hchoose
    split at hchoose
    · next text hdefault =>
      obtain ⟨checked, -, rfl⟩ := map_eq_ok.1 hchoose
      refine ⟨h.coordinate, fun other hother => ?_⟩
      obtain rfl := Option.some.inj hother
      exact r.isVersionText_default hdefault
    · obtain ⟨declared, hdeclare, rfl⟩ := map_eq_ok.1 hchoose
      refine legible_of_declare ?_ h hdeclare
      rintro text ⟨⟩

theorem lasting_legible : Lasting Declaration.Legible Coordinate.WellFormed Legible where
  declared _ _ _ hC hx := ⟨hC, hx⟩
  group _ _ := ⟨fun _ h => (nomatch h), fun _ h => nomatch h⟩
  copied _ _ _ h := ⟨h.coordinate, h.default⟩
  located _ hC h := ⟨fun _ hc => Option.some.inj hc ▸ hC, h.default⟩
  listening _ h := ⟨h.coordinate, h.default⟩
  undefaulted h := ⟨h.coordinate, fun _ hnone => nomatch hnone⟩
  selected h hselect := legible_of_select h hselect
  declares hx h hdeclare := legible_of_declare hx h hdeclare
  chosen h hchoose := legible_of_choose h hchoose
  redeclared h := h.version
  relocated h := h.coordinate
  read hspec := (Spec.wellFormed_of_parse hspec).coordinate

end Dependency

/-- A requirement that is inherited unseen makes no record illegible. -/
theorem SpecUse.bears_legible (u : SpecUse) : u.Bears Dependency.Legible :=
  fun _ h => ⟨h.coordinate, h.default⟩

/-! ## §2. Runs. -/

/-- The operation goes through namespaces and the registry: it brings no record of its own, and it
declares nothing on a dependency directly. -/
def Operation.isManaged : Operation → Bool
  | .newDependency _ | .declare _ _ => false
  | _ => true

/-- What such an operation declares was read from texts. -/
theorem Operation.legible_of_declarations {operation : Operation}
    (h : operation.isManaged = true) : ∀ x ∈ operation.declarations, x.Legible := by
  intro x hx
  cases operation with
  | need n text => exact NeedSpec.legible_of_declared? (Option.mem_toList.1 hx)
  | needAs n key value => exact Value.legible_of_declarations x hx
  | needAll n pairs =>
    obtain ⟨pair, -, hx⟩ := List.mem_flatMap.1 hx
    exact Value.legible_of_declarations x hx
  | require n key text requirement =>
    obtain ⟨spec, -, hmake⟩ := bind_eq_ok.1 (eq_ok_of_toOption (Option.mem_toList.1 hx))
    exact Declaration.legible_of_make hmake
  | useSpec n text =>
    obtain ⟨need, -, hmake⟩ := Option.bind_eq_some_iff.1 (Option.mem_toList.1 hx)
    exact Declaration.legible_of_make (eq_ok_of_toOption hmake)
  | newDependency d => exact nomatch h
  | declare id declaration => exact nomatch h
  | _ => exact nomatch hx

/-- Every record of a run is legible. -/
theorem Session.legible_afterAll (followsProjects : Bool) (operations : List Operation)
    (h : ∀ operation ∈ operations, operation.isManaged = true) :
    ((start followsProjects).afterAll operations).Records Dependency.Legible := by
  have hstart : (start followsProjects).Records Dependency.Legible :=
    fun _ => ⟨fun _ hnone => (nomatch hnone), fun _ hnone => nomatch hnone⟩
  have hdeclared : ∀ x ∈ operations.flatMap Operation.declarations, x.Legible := by
    intro x hx
    obtain ⟨operation, hoperation, hx⟩ := List.mem_flatMap.1 hx
    exact Operation.legible_of_declarations (h operation hoperation) x hx
  exact records_afterAll Dependency.lasting_legible operations hstart
    (fun d hd => nomatch h _ hd) hdeclared fun u _ => u.bears_legible

/-! ## §3. Artifacts that are handed out. -/

namespace Registry

variable {s : Store} {key : String}

/-- The artifacts for a key are those of the sub-namespace or of the group that it finds, or else
its own. -/
theorem answer_artifactsFor (key : String) (s : Store) :
    (artifactsFor key).run.answer s =
      match ((Namespace.currentScope.answer s).lookup key).answer s with
      | some (.sub sub) => s.artifacts sub
      | some (.dependency id) =>
        if (s.dependency id).isGroup then s.artifactsOf id
        else ((artifact key).run.answer s).map ([·])
      | none => ((artifact key).run.answer s).map ([·]) := by
  have hone : (do return [← artifact key] : Inquiry (List Artifact)).run.answer s
      = ((artifact key).run.answer s).map ([·]) := by
    rw [Inquiry.answer_bind _ _ inferInstance inferInstance]
    cases (artifact key).run.answer s <;> rfl
  unfold artifactsFor
  rw [Inquiry.answer_ask_bind _ _ ?discreet, Inquiry.answer_ask_bind _ _ ?discreet']
  -- every question on the way is discreet, so each is answered by the same store
  case discreet =>
    intro current
    refine Inquiry.discreet_bind inferInstance fun found => ?_
    rcases found with _ | ⟨id⟩ | ⟨sub⟩ <;> dsimp only <;> infer_instance
  case discreet' =>
    intro found
    rcases found with _ | ⟨id⟩ | ⟨sub⟩ <;> dsimp only <;> infer_instance
  rcases ((Namespace.currentScope.answer s).lookup key).answer s with _ | ⟨id⟩ | ⟨sub⟩
  · exact hone
  · dsimp only
    rw [Inquiry.answer_view_bind]
    split
    · rw [Inquiry.answer_view_bind, Inquiry.answer_ofExcept]
    · exact hone
  · dsimp only
    rw [Inquiry.answer_view_bind, Inquiry.answer_ofExcept]

/-- The artifacts for several keys are those for each of them. -/
theorem answer_artifacts (keys : List String) (s : Store) :
    (artifacts keys).run.answer s
      = (keys.mapM fun key => (artifactsFor key).run.answer s).map List.flatten := by
  unfold artifacts
  rw [Inquiry.answer_ask_bind _ _ inferInstance,
    Inquiry.answer_bind _ _ inferInstance inferInstance, Inquiry.answer_mapM]
  cases keys.mapM fun key => (artifactsFor key).run.answer s <;> rfl

end Registry

/-- The store hands out an artifact: for a key, for several keys, as that of a namespace, or as that
of a dependency or group. -/
inductive Store.HandsOut (s : Store) : Artifact → Prop
  | forKey {key : String} {a : Artifact} : (Registry.artifact key).run.answer s = .ok a → HandsOut s a
  | forKeys {keys : List String} {found : List Artifact} {a : Artifact} :
      (Registry.artifacts keys).run.answer s = .ok found → a ∈ found → HandsOut s a
  | ofNamespace {n : Namespace} {found : List Artifact} {a : Artifact} :
      s.artifacts n = .ok found → a ∈ found → HandsOut s a
  | ofDependency {id : DependencyId} {a : Artifact} : s.artifact id = .ok a → HandsOut s a
  | ofGroup {id : DependencyId} {found : List Artifact} {a : Artifact} :
      s.artifactsOf id = .ok found → a ∈ found → HandsOut s a

/-- The coordinate is one that a spec writes, and the version is the text of a version. -/
structure Artifact.Legible (a : Artifact) : Prop where
  coordinate : a.coordinate.WellFormed
  version : isVersionText a.version = true

section Legible

variable {s : Store} (hs : s.Records Dependency.Legible)

include hs

theorem Store.legible_artifact {id : DependencyId} {a : Artifact} (h : s.artifact id = .ok a) :
    a.Legible := by
  obtain ⟨hcoordinate, hversion⟩ := Store.artifact_eq_ok h
  exact ⟨(hs id).coordinate _ hcoordinate, (hs id).version _ hversion⟩

theorem Store.legible_artifacts {n : Namespace} {found : List Artifact}
    (h : s.artifacts n = .ok found) : ∀ a ∈ found, a.Legible :=
  Tolerates.forall_of_mapM_ok _ (fun _ _ _ ha => legible_artifact hs ha) h

theorem Store.legible_artifactsOf {id : DependencyId} {found : List Artifact}
    (h : s.artifactsOf id = .ok found) : ∀ a ∈ found, a.Legible := by
  unfold artifactsOf at h
  dsimp only at h
  split at h
  · exact Tolerates.forall_of_mapM_ok _ (fun _ _ _ ha => legible_artifact hs ha) h
  · obtain ⟨a, ha, rfl⟩ := map_eq_ok.1 h
    simpa using legible_artifact hs ha

/-- A concrete spec is taken as it was read, and anything else comes from a record. -/
theorem Registry.legible_artifact {key : String} {a : Artifact}
    (h : (Registry.artifact key).run.answer s = .ok a) : a.Legible := by
  rw [answer_artifact] at h
  split at h
  · next concrete hconcrete =>
    cases h
    unfold concrete? at hconcrete
    split at hconcrete
    · split at hconcrete
      · next coordinate version hparse =>
        split at hconcrete
        · next hvalid =>
          cases hconcrete
          have hwell := Spec.wellFormed_of_parse hparse
          have htrim : trim version = version := (hwell.version version rfl).1.trim
          unfold Version.isValid at hvalid
          rw [htrim] at hvalid
          exact ⟨hwell.coordinate, hvalid⟩
        · exact nomatch hconcrete
      · exact nomatch hconcrete
    · exact nomatch hconcrete
  · split at h
    · exact Store.legible_artifact hs h
    · exact nomatch h

theorem Registry.legible_artifactsFor {key : String} {found : List Artifact}
    (h : (artifactsFor key).run.answer s = .ok found) : ∀ a ∈ found, a.Legible := by
  have hone (h : ((artifact key).run.answer s).map ([·]) = .ok found) : ∀ a ∈ found, a.Legible := by
    obtain ⟨a, ha, rfl⟩ := map_eq_ok.1 h
    simpa using Registry.legible_artifact hs ha
  rw [answer_artifactsFor] at h
  split at h
  · exact Store.legible_artifacts hs h
  · split at h
    · exact Store.legible_artifactsOf hs h
    · exact hone h
  · exact hone h

theorem Store.HandsOut.legible {a : Artifact} (h : s.HandsOut a) : a.Legible := by
  cases h with
  | forKey h => exact Registry.legible_artifact hs h
  | @forKeys keys _ _ h ha =>
    rw [Registry.answer_artifacts] at h
    obtain ⟨lists, hlists, rfl⟩ := map_eq_ok.1 h
    obtain ⟨found, hfound, ha⟩ := List.mem_flatten.1 ha
    have hlegible := Tolerates.forall_of_mapM_ok keys
      (fun _ _ _ hfound => Registry.legible_artifactsFor hs hfound) hlists
    exact hlegible found hfound a ha
  | ofNamespace h ha => exact legible_artifacts hs h a ha
  | ofDependency h => exact legible_artifact hs h
  | ofGroup h ha => exact legible_artifactsOf hs h a ha

end Legible

namespace Session

/-- After a run of operations on namespaces and the registry, every artifact that is handed out has
a valid version without blank ends, and reading its spec gives the artifact. -/
theorem parse_handedOut (followsProjects : Bool) (operations : List Operation)
    (hmanaged : ∀ operation ∈ operations, operation.isManaged = true) {a : Artifact}
    (h : ((start followsProjects).afterAll operations).store.HandsOut a) :
    Version.isValid a.version = true ∧ trim a.version = a.version ∧
      Artifact.parse a.render = .ok a := by
  obtain ⟨hcoordinate, hversion⟩ := h.legible (legible_afterAll followsProjects operations hmanaged)
  have hpart := isPart_of_isVersionText hversion
  have htrim := hpart.1.trim
  refine ⟨?_, htrim, Artifact.parse_render hcoordinate hpart⟩
  rw [Version.isValid, htrim]
  exact hversion

/-- The root selects a version with blanks around it, and it needs a classified artifact without a
version of its own, for which the requirement suggests one. -/
def anchoredRun : List Operation :=
  let root : Namespace := .registered rootName 0
  [.set root "lib" (.text " g : lib : jar : 1.0 "),
    .need root "app -> g:app:jar:jdk: -> >=2 <3", .needAs root "copy" (.key "app")]

/-- The anchor of the requirement is the version of the copy. -/
theorem parse_handedOut_anchoredRun :
    ∃ a, ((start true).afterAll anchoredRun).store.HandsOut a ∧ a.render = "g:app:jar:jdk:2" ∧
      Version.isValid a.version = true ∧ trim a.version = a.version ∧
      Artifact.parse a.render = .ok a := by
  have hmanaged : ∀ operation ∈ anchoredRun, operation.isManaged = true := by
    simp [anchoredRun, Operation.isManaged]
  have hanswer : ((Registry.artifact "copy").run.answer ((start true).afterAll anchoredRun).store
      ).toOption = some ⟨⟨"g", "app", "jar", some "jdk"⟩, "2"⟩ := by decide +kernel
  have hfound := Store.HandsOut.forKey (eq_ok_of_toOption hanswer)
  exact ⟨_, hfound, by decide, parse_handedOut true anchoredRun hmanaged hfound⟩

end Session

end DependencyScope
