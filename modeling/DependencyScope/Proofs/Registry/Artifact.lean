/-
  DependencyScope.Proofs.Registry.Artifact — the versions of the artifacts that are handed out.

  The artifact for a name has the version that is selected on the dependency which the name finds, or
  else the default of that dependency.  Selections are checked when they are made.  A default is what
  the declaration suggests, and it is not looked at again: a need spec may suggest a version that
  the requirement next to it rejects.  So where a requirement stands next to a version that it does
  not accept, the two have been declared together, or a spec without a version has put the
  requirement there unseen; copies, selections taken over and choices do not bring this about.

  Main definitions:
    * `Requirement.MetBy` — a text is a version that the requirement accepts;
    * `Declaration.Warranted`, `Dependency.Warranted` — the version meets the requirement, or one of
      two liberties has been taken with it;
    * `SpecUse.Overrules` — a use puts a requirement onto a version that it rejects.

  Main results:
    * `Dependency.lasting_warranted` — no other step on a dependency does that;
    * `Session.metBy_artifact` — the version of an artifact meets the requirement;
    * `Session.unmet_understatedRun` — an artifact with a default that does not.
-/
import DependencyScope.Proofs.Session.Consistency
import DependencyScope.Proofs.Store.Narrow

namespace DependencyScope

open DependencyScope.Text DependencyScope.Action

/-! ## §1. Versions that meet a requirement. -/

theorem eq_ok_of_toOption {ε α : Type} {x : Except ε α} {a : α} (h : x.toOption = some a) :
    x = .ok a := by
  cases x with
  | error e => exact nomatch h
  | ok b => exact congrArg Except.ok (Option.some.inj h)

namespace Requirement

/-- The text is a version that the requirement accepts. -/
def MetBy (r : Requirement) (text : String) : Prop := r.satisfiedBy text = .ok true

theorem metBy_text_iff (r : Requirement) (v : Version) : r.MetBy v.text ↔ r.accepts v = true := by
  unfold MetBy satisfiedBy
  rw [Version.parse_text]
  exact ⟨Except.ok.inj, congrArg Except.ok⟩

instance (r : Requirement) (text : String) : Decidable (r.MetBy text) :=
  decidable_of_iff ((r.satisfiedBy text).toOption = some true)
    ⟨eq_ok_of_toOption, fun h => congrArg Except.toOption h⟩

end Requirement

/-! ## §2. Versions that are accounted for. -/

/-- The pairs of a requirement and a version that a run may leave together without a check: those
that are declared together, and those where the requirement is put onto the version unseen. -/
structure Liberties where
  declared : Declaration → Prop
  unseen : Requirement → String → Prop

variable {L : Liberties}

/-- The version that is suggested meets the requirement, or one of the liberties has been taken. -/
def Declaration.Warranted (L : Liberties) (x : Declaration) : Prop :=
  ∀ r ∈ x.requirement, ∀ text ∈ x.default,
    r.MetBy text ∨ L.unseen r text ∨ L.declared ⟨some r, some text⟩

theorem Declaration.warranted_of_declared {x : Declaration} (h : L.declared x) :
    x.Warranted L := by
  obtain ⟨requirement, default⟩ := x
  rintro r hr text htext
  cases hr
  cases htext
  exact .inr (.inr h)

namespace Dependency

/-- The version that is handed out meets the requirement, or one of the liberties has been taken;
with a selection, that may only be the requirement that was put onto it unseen. -/
structure Warranted (L : Liberties) (d : Dependency) : Prop where
  selection : ∀ r ∈ d.requirement, ∀ v ∈ d.selected, r.accepts v = true ∨ L.unseen r v.text
  version : Declaration.Warranted L ⟨d.requirement, d.version⟩

variable {d d' : Dependency}

/-- A selection takes precedence over the default, so the default only matters without one. -/
theorem warranted_of_selection
    (h : ∀ r ∈ d.requirement, ∀ v ∈ d.selected, r.accepts v = true ∨ L.unseen r v.text)
    (hdefault : d.selected = none → Declaration.Warranted L ⟨d.requirement, d.defaultVersion⟩) :
    d.Warranted L := by
  refine ⟨h, fun r hr text htext => ?_⟩
  cases hselected : d.selected with
  | none => exact hdefault hselected r hr text ((version_of_unselected hselected).symm.trans htext)
  | some v =>
    obtain rfl : v.text = text := Option.some.inj ((version_of_selected hselected).symm.trans htext)
    rcases h r hr v hselected with haccepts | hunseen
    · exact .inl ((r.metBy_text_iff v).2 haccepts)
    · exact .inr (.inl hunseen)

theorem warranted_of_consistent (h : d.Consistent)
    (hdefault : d.selected = none → Declaration.Warranted L ⟨d.requirement, d.defaultVersion⟩) :
    d.Warranted L :=
  warranted_of_selection (fun r hr v hv => .inl (h r v hr hv)) hdefault

/-- A record that suggests nothing. -/
theorem warranted_of_undefaulted (h : d.Consistent)
    (hdefault : d.selected = none → d.defaultVersion = none) : d.Warranted L :=
  warranted_of_consistent h fun hselected _ _ _ htext =>
    nomatch (hdefault hselected).symm.trans htext

/-! ## §3. Steps on a dependency. -/

theorem warranted_of_select {text : String} (h : d.select text = .ok d') : d'.Warranted L := by
  refine warranted_of_undefaulted (consistent_of_select h) fun hunselected => ?_
  unfold select at h
  obtain ⟨version, -, rfl⟩ := map_eq_ok.1 h
  exact nomatch hunselected

theorem warranted_of_declare {declaration : Declaration} (hdeclaration : declaration.Warranted L)
    (h : d.declare declaration = .ok d') : d'.Warranted L := by
  refine warranted_of_consistent (consistent_of_declare h) fun _ => ?_
  rw [declare_spec h]
  exact hdeclaration

/-- A version part selects, or leaves no default. -/
theorem warranted_of_choose {inherited : Option Requirement} {part : VersionText}
    {outcome : Outcome} (h : d.choose inherited (some part) = .ok outcome) :
    outcome.dependency.Warranted L := by
  refine warranted_of_undefaulted (consistent_of_choose h) fun hunselected => ?_
  cases part with
  | plain version =>
    unfold choose at h
    obtain ⟨checked, -, rfl⟩ := map_eq_ok.1 h
    exact nomatch hunselected
  | constraint requirement =>
    rw [choose_constraint] at h
    unfold narrowTo at h
    split at h
    · obtain ⟨checked, -, rfl⟩ := map_eq_ok.1 h
      exact nomatch hunselected
    · obtain ⟨declared, hdeclare, rfl⟩ := map_eq_ok.1 h
      exact congrArg defaultVersion (declare_spec hdeclare)

/-- What is warranted stays so: a declaration brings its own version, and what is copied, taken over
or chosen later is either checked or was there before. -/
theorem lasting_warranted (L : Liberties) :
    Lasting (Declaration.Warranted L) (fun _ => True) (Warranted L) where
  declared _ _ _ _ h := warranted_of_consistent (consistent_of_unselected rfl) fun _ => h
  group _ _ := warranted_of_undefaulted (consistent_of_unselected rfl) fun _ => rfl
  copied _ _ _ h := ⟨h.selection, h.version⟩
  located _ _ h := ⟨h.selection, h.version⟩
  listening _ h := ⟨h.selection, h.version⟩
  undefaulted h := warranted_of_selection h.selection fun _ _ _ _ htext => nomatch htext
  selected _ h := warranted_of_select h
  declares hdeclaration _ h := warranted_of_declare hdeclaration h
  chosen _ h := warranted_of_choose h
  redeclared h := h.version
  relocated _ _ _ := trivial
  read _ := trivial

end Dependency

namespace SpecUse

/-- The spec brings no version, and the record takes over the requirement `r`, which its version
`text`, selected or default, does not meet. -/
structure Overrules (u : SpecUse) (r : Requirement) (text : String) : Prop where
  unversioned : u.spec.version = none
  undeclared : u.record.requirement = none
  inherited : u.inherited = some r
  version : u.record.version = some text
  unmet : ¬r.MetBy text

/-- So a use leaves nothing unmet but what it overrules. -/
theorem bears_warranted {u : SpecUse} (h : ∀ r text, u.Overrules r text → L.unseen r text) :
    u.Bears (Dependency.Warranted L) := by
  intro hversion hrecord
  cases hrequirement : u.record.requirement with
  -- a record with a requirement of its own takes none over
  | some own =>
    have hsame : (u.record.inheriting u.inherited).requirement = u.record.requirement := by
      simp [Dependency.inheriting, hrequirement]
    refine ⟨fun r hr => hrecord.selection r (hsame ▸ hr), fun r hr => ?_⟩
    exact hrecord.version r (hsame ▸ hr)
  -- one without takes over what is inherited, and its version is not looked at
  | none =>
    have hinherits {r : Requirement} (hr : r ∈ (u.record.inheriting u.inherited).requirement) :
        u.inherited = some r := by
      simpa [Dependency.inheriting, hrequirement] using hr
    have hunseen {r : Requirement} {text : String} (hr : u.inherited = some r)
        (htext : u.record.version = some text) : r.MetBy text ∨ L.unseen r text :=
      (Decidable.em (r.MetBy text)).imp_right fun hunmet =>
        h r text ⟨hversion, hrequirement, hr, htext, hunmet⟩
    constructor
    · intro r hr v hv
      have htext := Dependency.version_of_selected (d := u.record) hv
      exact (hunseen (hinherits hr) htext).imp_left (r.metBy_text_iff v).1
    · intro r hr text htext
      rcases hunseen (hinherits hr) htext with hmet | hunseen
      · exact .inl hmet
      · exact .inr (.inl hunseen)

end SpecUse

/-! ## §4. Looking an artifact up. -/

theorem Store.artifact_eq_ok {s : Store} {id : DependencyId} {a : Artifact}
    (h : s.artifact id = .ok a) :
    (s.dependency id).coordinate = some a.coordinate ∧ (s.dependency id).version = some a.version := by
  unfold artifact at h
  dsimp only at h
  split at h
  · exact nomatch h
  · split at h
    · exact nomatch h
    · exact nomatch h
    · next coordinate version hcoordinate hversion =>
      cases h
      exact ⟨hcoordinate, hversion⟩

/-- A concrete spec is taken as it is, and anything else stands for the artifact of what it finds
from the current namespace outwards. -/
theorem Registry.answer_artifact (key : String) (s : Store) :
    (Registry.artifact key).run.answer s = match concrete? (trim key) with
      | some a => .ok a
      | none =>
        match ((Namespace.currentScope.answer s).lookupDependency (trim key)).answer s with
        | some id => s.artifact id
        | none => .error (.lookup (trim key)
            (.artifactNotFound (Namespace.currentScope.answer s).name)) := by
  unfold Registry.artifact
  dsimp only
  cases concrete? (trim key) with
  | some a => rfl
  | none =>
    dsimp only
    rw [Inquiry.answer_ask_bind _ _ ?discreet, Inquiry.answer_ask_bind _ _ ?discreet']
    case discreet =>
      intro current
      exact Inquiry.discreet_bind inferInstance fun found => by cases found <;> infer_instance
    case discreet' =>
      intro found
      cases found <;> infer_instance
    cases ((Namespace.currentScope.answer s).lookupDependency (trim key)).answer s <;> rfl

/-- The artifact for a name is that of the dependency which the name finds. -/
theorem Registry.artifact_eq_ok {s : Store} {key : String} {a : Artifact}
    (hname : looksLikeSpec (trim key) = false)
    (h : (Registry.artifact key).run.answer s = .ok a) :
    ∃ id, ((Namespace.currentScope.answer s).lookupDependency (trim key)).answer s = some id ∧
      s.artifact id = .ok a := by
  have hconcrete : Registry.concrete? (trim key) = none := by
    unfold Registry.concrete?
    rw [hname]
    rfl
  rw [Registry.answer_artifact, hconcrete] at h
  dsimp only at h
  split at h
  · next id hfound => exact ⟨id, hfound, h⟩
  · exact nomatch h

namespace Session

/-- Every record of a run from an empty registry is warranted by what the run itself declares and
overrules. -/
theorem warranted_afterAll (followsProjects : Bool) (operations : List Operation)
    (hnew : ∀ d, Operation.newDependency d ∈ operations → d.selected = none) :
    ((start followsProjects).afterAll operations).Records (Dependency.Warranted
      { declared := (· ∈ operations.flatMap Operation.declarations)
        unseen := fun r text => ∃ u ∈ specUses operations (start followsProjects),
          u.Overrules r text }) := by
  refine records_afterAll (Dependency.lasting_warranted _) operations ?_ ?_ ?_ ?_
  · exact fun _ => Dependency.warranted_of_undefaulted (Dependency.consistent_of_unselected rfl)
      fun _ => rfl
  · intro d hd
    have hdeclared : (⟨d.requirement, d.defaultVersion⟩ : Declaration)
        ∈ operations.flatMap Operation.declarations :=
      List.mem_flatMap.2 ⟨_, hd, by simp [Operation.declarations]⟩
    exact Dependency.warranted_of_consistent (Dependency.consistent_of_unselected (hnew d hd))
      fun _ => Declaration.warranted_of_declared hdeclared
  · exact fun _ hdeclaration => Declaration.warranted_of_declared hdeclaration
  · exact fun u hu => SpecUse.bears_warranted fun _ _ hoverrules => ⟨u, hu, hoverrules⟩

/-- From an empty registry, the artifact for a name has the coordinate and the version of the
dependency that the name finds.  The requirement of that dependency accepts the version if it is
selected.  If it is a default, the requirement accepts it as well, or the run has declared this very
requirement together with this very version.  Left out is a version that a spec without a version
has put this requirement onto. -/
theorem metBy_artifact (followsProjects : Bool) (operations : List Operation)
    (hnew : ∀ d, Operation.newDependency d ∈ operations → d.selected = none) {key : String}
    {a : Artifact} (hname : looksLikeSpec (trim key) = false)
    (hartifact : (Registry.artifact key).run.answer ((start followsProjects).afterAll operations).store
      = .ok a) :
    let s := ((start followsProjects).afterAll operations).store
    ∃ id, ((Namespace.currentScope.answer s).lookupDependency (trim key)).answer s = some id ∧
      (s.dependency id).coordinate = some a.coordinate ∧
      (s.dependency id).version = some a.version ∧
      ∀ r, (s.dependency id).requirement = some r →
        (∀ u ∈ specUses operations (start followsProjects), ¬u.Overrules r a.version) →
        (∀ v, (s.dependency id).selected = some v → a.version = v.text ∧ r.accepts v = true) ∧
        (r.satisfiedBy a.version = .ok true ∨ (s.dependency id).selected = none ∧
          ⟨some r, some a.version⟩ ∈ operations.flatMap Operation.declarations) := by
  intro s
  obtain ⟨id, hfound, hid⟩ := Registry.artifact_eq_ok hname hartifact
  obtain ⟨hcoordinate, hversion⟩ := Store.artifact_eq_ok hid
  -- the record is warranted by the run: either both were checked, or one of the liberties was taken
  have hwarranted := warranted_afterAll followsProjects operations hnew id
  refine ⟨id, hfound, hcoordinate, hversion, fun r hr hruled => ?_⟩
  have hselection : ∀ v, (s.dependency id).selected = some v →
      a.version = v.text ∧ r.accepts v = true := by
    intro v hv
    have htext : v.text = a.version :=
      Option.some.inj ((Dependency.version_of_selected hv).symm.trans hversion)
    rcases hwarranted.selection r hr v hv with haccepts | ⟨u, hu, hoverrules⟩
    · exact ⟨htext.symm, haccepts⟩
    · exact absurd (htext ▸ hoverrules) (hruled u hu)
  refine ⟨hselection, ?_⟩
  cases hselected : (s.dependency id).selected with
  | some v =>
    obtain ⟨htext, haccepts⟩ := hselection v hselected
    rw [htext]
    exact .inl ((r.metBy_text_iff v).2 haccepts)
  | none =>
    rcases hwarranted.version r hr a.version hversion with hmet | ⟨u, hu, hoverrules⟩ | hdeclared
    · exact .inl hmet
    -- of the two liberties only the declaration is left
    · exact absurd hoverrules (hruled u hu)
    · exact .inr ⟨rfl, hdeclared⟩

/-- The root needs a version between 1 and 2 twice.  On the second need version 1.5 is selected, and a
third one copies what that has come to.  Besides, the root suggests a version of another artifact
that it does not accept, and it uses a spec. -/
def suggestingRun : List Operation :=
  let root : Namespace := .registered rootName 0
  [.needAs root "k" (.text "g:i:t:>=1 <2"), .needAs root "l" (.key "k"),
    .set root "l" (.text "1.5"), .needAs root "m" (.key "l"),
    .needAs root "n" (.text "g:j:t:1 -> >=2"), .set root "o" (.text "g:l:t:1")]

/-- The selection of the second need is the default of the third, and it meets the requirement. -/
theorem metBy_suggestingRun :
    let s := ((start true).afterAll suggestingRun).store
    ∃ a, (Registry.artifact "m").run.answer s = .ok a ∧ a.version = "1.5" ∧
      (specUses suggestingRun (start true)).length = 1 ∧
      ∃ id r, (s.dependency id).selected = none ∧ (s.dependency id).requirement = some r ∧
        r.satisfiedBy a.version = .ok true := by
  intro s
  have hnew : ∀ d, Operation.newDependency d ∈ suggestingRun → d.selected = none := by
    simp [suggestingRun]
  have hname : looksLikeSpec (trim "m") = false := by decide +kernel
  have hanswer : ((Registry.artifact "m").run.answer s).toOption
      = some ⟨⟨"g", "i", "t", none⟩, "1.5"⟩ := by decide +kernel
  have hfound : ((Namespace.currentScope.answer s).lookupDependency (trim "m")).answer s = some 2 := by
    decide +kernel
  have hunselected : (s.dependency 2).selected.isNone := by decide +kernel
  have hrequirement : (s.dependency 2).requirement.isSome := by decide +kernel
  have hversions : ∀ u ∈ specUses suggestingRun (start true), u.spec.version ≠ none := by
    decide +kernel
  have hdefaults : ∀ declaration ∈ suggestingRun.flatMap Operation.declarations,
      declaration.default ≠ some "1.5" := by decide +kernel
  have hartifact := eq_ok_of_toOption hanswer
  obtain ⟨id, hid, -, -, hmet⟩ := metBy_artifact true suggestingRun hnew hname hartifact
  obtain rfl : id = 2 := Option.some.inj (hid.symm.trans hfound)
  obtain ⟨r, hr⟩ := Option.isSome_iff_exists.1 hrequirement
  refine ⟨_, hartifact, rfl, by decide +kernel, 2, r, Option.isNone_iff_eq_none.1 hunselected, hr, ?_⟩
  rcases (hmet r hr fun u hu hoverrules => hversions u hu hoverrules.unversioned).2 with
    hmet | ⟨-, hdeclared⟩
  · exact hmet
  · exact absurd rfl (hdefaults _ hdeclared)

/-- The root needs at least version 2, and suggests version 1. -/
def understatedRun : List Operation := [.needAs (.registered rootName 0) "k" (.text "g:i:t:1 -> >=2")]

/-- Nothing is used and nothing is selected, and the artifact for the name has version 1. -/
theorem unmet_understatedRun :
    let s := ((start true).afterAll understatedRun).store
    ∃ a id r, (Registry.artifact "k").run.answer s = .ok a ∧
      ((Namespace.currentScope.answer s).lookupDependency "k").answer s = some id ∧
      (s.dependency id).requirement = some r ∧ r.satisfiedBy a.version = .ok false := by
  intro s
  have hanswer : ((Registry.artifact "k").run.answer s).toOption
      = some ⟨⟨"g", "i", "t", none⟩, "1"⟩ := by decide +kernel
  have hfound : ((Namespace.currentScope.answer s).lookupDependency "k").answer s = some 0 := by
    decide +kernel
  have hverdict : ((s.dependency 0).requirement.bind fun r => (r.satisfiedBy "1").toOption)
      = some false := by decide +kernel
  obtain ⟨r, hr, hunmet⟩ := Option.bind_eq_some_iff.1 hverdict
  exact ⟨_, 0, r, eq_ok_of_toOption hanswer, hfound, hr, eq_ok_of_toOption hunmet⟩

end Session

end DependencyScope
