/-
  DependencyScope.Proofs.Namespace.Declare — what the declarations of a namespace keep.

  A declaration changes a record only by declaring and by taking over the selection of an enclosing
  namespace, both of which look at the requirement and the selection together.  What is declared is
  written in the texts that are needed, or copied from another dependency.

  Main definitions:
    * `Store.nearestSelection?` — the selection of the nearest ancestor for a coordinate;
    * `Dependency.under` — what becomes of a record under it;
    * `NeedSpec.declared?`, `Value.declarations` — the declarations that are written.

  Main results:
    * `Namespace.run_inheritSelection` — what is taken over, all in all;
    * `Tolerates.keeps_declareAs` — one declaration under a key;
    * `Tolerates.keeps_needAs`, `.keeps_need`, `.keeps_require` — the needs of a client;
    * `Tolerates.keeps_useInherited`, `.keepsAt_addAlias` — entries taken over from elsewhere.
-/
import DependencyScope.Namespace.Need
import DependencyScope.Proofs.Namespace.Assign

namespace DependencyScope

/-! ## §1. Selections that are taken over. -/

/-- The version that the nearest ancestor with a selection for the coordinate has selected: the
ancestors are asked in turn for what they have registered for it. -/
def Store.nearestSelection? (s : Store) (n : Namespace) (c : Coordinate) : Option Version :=
  (n.ancestors.answer s).findSome? fun a =>
    (s.indexed? a c.render).bind fun id => (s.dependency id).selected

namespace Dependency

/-- What becomes of the record under the version that an ancestor has selected, if one has. -/
def under (d : Dependency) (enclosing : Option Version) : Outcome :=
  match d.selected, enclosing with
  | none, some u => d.adopt u.text
  | _, _ => ⟨d, false⟩

/-- The record stays as it is, or it takes over a version as long as it has none. -/
theorem under_cases (d : Dependency) (enclosing : Option Version) :
    d.under enclosing = ⟨d, false⟩ ∨
      d.selected = none ∧ ∃ u : Version, d.under enclosing = d.adopt u.text := by
  unfold under
  split
  · next u hselected => exact .inr ⟨hselected, u, rfl⟩
  · exact .inl rfl

/-- What is taken over is the selection, and what is lost is the default. -/
theorem under_spec (d : Dependency) (enclosing : Option Version) :
    ∃ default selected, (d.under enclosing).dependency
      = { d with defaultVersion := default, selected := selected } := by
  rcases d.under_cases enclosing with hsame | ⟨-, u, htaken⟩
  · exact ⟨d.defaultVersion, d.selected, congrArg Outcome.dependency hsame⟩
  · rw [htaken]
    unfold adopt
    split
    · next selected hselect =>
      obtain ⟨v, -, rfl⟩ := map_eq_ok.1 hselect
      exact ⟨d.defaultVersion, some v, rfl⟩
    · exact ⟨none, d.selected, rfl⟩

theorem Robust.under {A : Declaration → Prop} {C : Coordinate → Prop} {D : Dependency → Prop}
    (hD : Robust A C D) {d : Dependency} (h : D d) (enclosing : Option Version) :
    D (d.under enclosing).dependency := by
  rcases d.under_cases enclosing with hsame | ⟨-, u, htaken⟩
  · rw [hsame]
    exact h
  · rw [htaken]
    exact hD.adopted h u.text

end Dependency

namespace Namespace

/-- The selection that is inherited is that of the nearest ancestor with one. -/
theorem answer_inheritedSelection (n : Namespace) (c : Coordinate) (s : Store) :
    (n.inheritedSelection c.render).answer s = (s.nearestSelection? n c).map Version.text := by
  unfold inheritedSelection Store.nearestSelection?
  rw [Reading.answer_bind, Reading.answer_view, List.map_findSome?]
  congr 1
  funext a
  rw [Function.comp_apply]
  cases s.indexed? a c.render <;> rfl

/-- What is inherited is what the record comes to under the nearest selection for its coordinate; the
session has at most listed names meanwhile. -/
theorem run_inheritSelection (n : Namespace) (d : Dependency) (σ : Session) :
    ∃ τ, σ.Alike τ ∧ (n.inheritSelection d).run σ
      = (.ok (d.under (d.coordinate.bind (σ.store.nearestSelection? n))), τ) := by
  unfold inheritSelection Dependency.under Dependency.unversioned
  cases d.selected with
  | some w => exact ⟨σ, .refl σ, rfl⟩
  | none =>
    cases d.coordinate with
    | none => exact ⟨σ, .refl σ, rfl⟩
    | some c =>
      dsimp only [Option.map_some, Option.bind_some]
      rw [Action.run_bind_ok (Action.run_read _ σ), answer_inheritedSelection]
      cases σ.store.nearestSelection? n c <;> exact ⟨_, ⟨_, rfl⟩, rfl⟩

end Namespace

/-! ## §2. What is written. -/

/-- The declaration of a need spec, if the text is read to one. -/
def NeedSpec.declared? (text : String) : Option Declaration :=
  (do (← NeedSpec.parse text).declaration).toOption

/-- The spec of a need spec was read from a text. -/
theorem NeedSpec.exists_of_parse {text : String} {need : NeedSpec} (h : parse text = .ok need) :
    ∃ coordinate, Spec.parse coordinate = .ok need.spec := by
  unfold parse at h
  split at h
  · exact nomatch h
  · next name coordinate requirement _ =>
    obtain ⟨spec, hspec, rfl⟩ := map_eq_ok.1 h
    exact ⟨coordinate, hspec⟩

theorem NeedSpec.declared?_of_parse {text : String} {need : NeedSpec} {declaration : Declaration}
    (hneed : NeedSpec.parse text = .ok need) (hdeclaration : need.declaration = .ok declaration) :
    declaration ∈ declared? text := by
  unfold declared?
  rw [hneed]
  show need.declaration.toOption = _
  rw [hdeclaration]
  rfl

/-- The declarations that are made where a value is needed. -/
def Value.declarations : Value → List Declaration
  | .text needed => (NeedSpec.declared? needed).toList
  | .group specs => specs.filterMap NeedSpec.declared?
  | .key _ | .dependency _ | .sub _ => []

namespace Tolerates

open DependencyScope.Text DependencyScope.Action

variable {I : Session → Prop} {n : Namespace} {P : DependencyId → Prop} {A : Declaration → Prop}
  {C : Coordinate → Prop} {D : Dependency → Prop}

/-- A need spec is read, and then what it declares. -/
theorem keeps_parseNeed (hD : Dependency.Robust A C D) {α : Type} {text : String}
    {f : NeedSpec → Declaration → Action α} {Q : α → Prop}
    (hA : ∀ declaration ∈ NeedSpec.declared? text, A declaration)
    (hf : ∀ need declaration, C need.spec.coordinate → A declaration →
      Keeps I (f need declaration) Q) :
    Keeps I (do
      let need ← Action.ofExcept (NeedSpec.parse text)
      let declaration ← Action.ofExcept need.declaration
      f need declaration) Q := by
  have hneed : Keeps I (Action.ofExcept (NeedSpec.parse text))
      fun need => NeedSpec.parse text = .ok need :=
    .ofExcept fun _ hneed => hneed
  refine hneed.bind fun need hneed => ?_
  have hdeclaration : Keeps I (Action.ofExcept need.declaration) A :=
    .ofExcept fun declaration h => hA declaration (NeedSpec.declared?_of_parse hneed h)
  have hC : C need.spec.coordinate := by
    obtain ⟨coordinate, hspec⟩ := NeedSpec.exists_of_parse hneed
    exact hD.read hspec
  exact hdeclaration.bind fun declaration => hf need declaration hC

/-! ## §3. Declarations. -/

theorem keeps_inheritSelection (h : Tolerates I n P D) (hD : Dependency.Robust A C D)
    {d : Dependency} (hd : D d) :
    Keeps I (n.inheritSelection d) fun outcome => D outcome.dependency := by
  intro σ hσ
  obtain ⟨τ, halike, hrun⟩ := n.run_inheritSelection d σ
  exact .of_ok hrun (h.alike halike hσ) (hD.under hd _)

theorem keeps_declaredFor (h : Tolerates I n P D) (hD : Dependency.Robust A C D) (key : String)
    {coordinate : Coordinate} {declaration : Declaration} (hC : C coordinate)
    (hA : A declaration) :
    Keeps I (n.declaredFor key coordinate declaration) P := by
  unfold Namespace.declaredFor
  intro σ hσ
  refine .bind_ok (run_view _ σ) ?_
  cases hown : σ.store.ownFor? n key coordinate with
  | some id =>
    have hid : P id := h.own hσ (Store.ownDependency?_of_ownFor? hown)
    refine (h.keeps_declare hD hid hA σ hσ).bind_run fun _ τ hdeclare hτ _ => ?_
    have hmembers := (members_declare hdeclare).trans (Store.members_of_ownFor? hown)
    exact (h.keepsAt_setCoordinate hD hτ hid hC hmembers).bind fun _ _ => .pure hid
  | none =>
    exact h.keeps_addDependency (hD.declared key (fun c hc => Option.some.inj hc ▸ hC) hA) σ hσ

theorem keeps_declareAs (h : Tolerates I n P D) (hD : Dependency.Robust A C D) (key : String)
    {coordinate : Coordinate} {declaration : Declaration} (hC : C coordinate)
    (hA : A declaration) :
    Keeps I (n.declareAs key coordinate declaration) P := by
  unfold Namespace.declareAs
  refine (keeps_ensureNoSub n key).bind fun _ _ => ?_
  refine (h.keeps_declaredFor hD key hC hA).bind fun id hid => ?_
  refine (h.keeps_dependency id).bind fun d hd => ?_
  refine (h.keeps_inheritSelection hD hd).bind fun outcome houtcome => ?_
  refine (h.keeps_settle hid houtcome).bind fun _ _ => ?_
  exact (h.keeps_insert hid key).bind fun _ _ => .pure hid

theorem keeps_needCopy (h : Tolerates I n P D) (hD : Dependency.Robust A C D) (key : String)
    (source : DependencyId) : Keeps I (n.needCopy key source) P := by
  unfold Namespace.needCopy
  refine (h.keeps_dependency source).bind fun d hd => ?_
  split
  · next coordinate hcoordinate =>
    exact h.keeps_declareAs hD key (hD.relocated hd coordinate hcoordinate) (hD.redeclared hd)
  · exact .throw _

theorem keeps_neededMember (h : Tolerates I n P D) (hD : Dependency.Robust A C D) {text : String}
    (hA : ∀ declaration ∈ NeedSpec.declared? text, A declaration) :
    Keeps I (n.neededMember text) D := by
  unfold Namespace.neededMember
  refine keeps_parseNeed hD hA fun need declaration hC hdeclaration => ?_
  have hnew := hD.declared need.key (fun c hc => Option.some.inj hc ▸ hC) hdeclaration
  exact (h.keeps_inheritSelection hD hnew).bind fun _ houtcome => .pure houtcome

theorem keeps_needGroup (h : Tolerates I n P D) (hD : Dependency.Robust A C D) (key : String)
    {specs : List String} (hA : ∀ declaration ∈ (Value.group specs).declarations, A declaration) :
    Keeps I (n.needGroup key specs) P := by
  unfold Namespace.needGroup
  refine (keeps_ensureNoSub n key).bind fun _ _ => ?_
  refine .guarded fun _ => ?_
  have hmembers : Keeps I (specs.mapM n.neededMember) fun members => ∀ d ∈ members, D d :=
    .mapM specs fun text htext => h.keeps_neededMember hD fun declaration hdeclaration =>
      hA declaration (List.mem_filterMap.2 ⟨text, htext, hdeclaration⟩)
  exact hmembers.bind fun _ hd => h.keeps_storeGroup hD key hd false

theorem keeps_useInherited (h : Tolerates I n P D) (hD : Dependency.Robust A C D) (key : String) :
    Keeps I (n.useInherited key) P := by
  unfold Namespace.useInherited
  have hread : Keeps I (Action.read (n.inheritedEntry (trim key))) fun _ => True :=
    .read h.unlisted fun _ _ => trivial
  refine hread.bind fun found _ => ?_
  rcases found with _ | ⟨source⟩ | ⟨sub⟩
  · exact .throw _
  · exact (keeps_ensureNoSub n _).bind fun _ _ => h.keeps_storeCopy hD _ source
  · exact .throw _

/-! ## §4. Declarations where a key lands. -/

/-- The namespace where a write to a key of `n` lands tolerates the writes. -/
def Landing (I : Session → Prop) (n : Namespace) (P : DependencyId → Prop)
    (D : Dependency → Prop) : Prop :=
  ∀ σ, I σ → ∀ key, Tolerates I (σ.store.landing n key).1 P D

theorem keeps_landing (h : Landing I n P D) (key : String) :
    Keeps I (Action.view (·.landing n key)) fun place => Tolerates I place.1 P D :=
  .view fun σ hσ => h σ hσ key

theorem keeps_need (h : Landing I n P D) (hD : Dependency.Robust A C D) {text : String}
    (hA : ∀ declaration ∈ NeedSpec.declared? text, A declaration) : Keeps I (n.need text) P := by
  unfold Namespace.need
  refine keeps_parseNeed hD hA fun need declaration hC hdeclaration => ?_
  exact (keeps_landing h need.key).bind fun place hplace =>
    hplace.keeps_declareAs hD place.2 hC hdeclaration

theorem keeps_needAs (h : Landing I n P D) (hD : Dependency.Robust A C D) (hlisted : Unlisted I)
    (key : String) {value : Value} (hA : ∀ declaration ∈ value.declarations, A declaration) :
    Keeps I (n.needAs key value) P := by
  unfold Namespace.needAs
  refine (keeps_landing h key).bind fun place hplace => ?_
  cases value with
  | text text =>
    refine keeps_parseNeed hD (fun declaration h => hA declaration (Option.mem_toList.2 h))
      fun need declaration hC hdeclaration => ?_
    exact hplace.keeps_declareAs hD place.2 hC hdeclaration
  | group specs => exact hplace.keeps_needGroup hD place.2 hA
  | key other =>
    have hread : Keeps I (Action.read (n.lookupDependency other)) fun _ => True :=
      .read hlisted fun _ _ => trivial
    refine hread.bind fun source _ => ?_
    cases source with
    | some source => exact hplace.keeps_needCopy hD place.2 source
    | none => exact .throw _
  | dependency source => exact hplace.keeps_needCopy hD place.2 source
  | sub _ => exact .throw _

theorem keeps_require (h : Landing I n P D) (hD : Dependency.Robust A C D) (key : String)
    {text : String} {requirement : Option String}
    (hA : ∀ spec declaration, Spec.parse text = .ok spec →
      Declaration.make spec.version requirement = .ok declaration → A declaration) :
    Keeps I (n.require key text requirement) P := by
  unfold Namespace.require
  have hspec : Keeps I (Action.ofExcept (Spec.parse text)) fun spec => Spec.parse text = .ok spec :=
    .ofExcept fun _ hspec => hspec
  refine hspec.bind fun spec hspec => ?_
  have hdeclaration : Keeps I (Action.ofExcept (Declaration.make spec.version requirement)) A :=
    .ofExcept fun declaration hmake => hA spec declaration hspec hmake
  refine hdeclaration.bind fun declaration hdeclaration => ?_
  exact (keeps_landing h key).bind fun place hplace =>
    hplace.keeps_declareAs hD place.2 (hD.read hspec) hdeclaration

/-- An alias is made for a dependency that the namespace has, or for a copy. -/
theorem keepsAt_addAlias (h : Tolerates I n P D) (hland : Landing I n P D)
    (hD : Dependency.Robust A C D) {σ : Session} (hσ : I σ) (key : String) {existing : String}
    (hentry : ∀ id, σ.store.localEntry n existing = some (.dependency id) → P id) :
    KeepsAt I (n.addAlias key existing) P σ := by
  have hsource : KeepsAt I (n.aliasSource existing) P σ := by
    unfold Namespace.aliasSource
    refine .bind_ok (run_view _ σ) ?_
    cases hfound : σ.store.localEntry n existing with
    | none =>
      have hread : Keeps I (Action.read (n.lookup existing)) fun _ => True :=
        .read h.unlisted fun _ _ => trivial
      refine (hread.bind fun inherited _ => ?_) σ hσ
      cases inherited with
      | some _ => exact h.keeps_useInherited hD existing
      | none => exact .throw _
    | some e =>
      cases e with
      | dependency id => exact ⟨hσ, fun _ hrun => Except.ok.inj hrun ▸ hentry id hfound⟩
      | sub _ => exact Keeps.throw _ σ hσ
  unfold Namespace.addAlias
  -- the key may lead to another namespace than the one that has the dependency
  refine hsource.bind fun id hid => ?_
  refine (keeps_landing hland key).bind fun place hplace => ?_
  refine (keeps_ensureNoSub place.1 place.2).bind fun _ _ => ?_
  have hput : Keeps I (Action.update (·.putEntry place.1 place.2 (.dependency id))) fun _ => True :=
    .update fun σ hσ => hplace.entry hσ place.2 hid
  exact hput.bind fun _ _ => .pure hid

theorem keeps_selectDefault (h : Tolerates I n P D) (hD : Dependency.Robust A C D)
    {id : DependencyId} (hid : P id) (default : Option String) :
    Keeps I (Namespace.selectDefault id default) fun _ => True := by
  unfold Namespace.selectDefault
  split
  · have hview : Keeps I (Action.view (·.isSelected id)) fun _ => True :=
      .view fun _ _ => trivial
    refine hview.bind fun selected _ => ?_
    split
    · exact h.keeps_select hD hid _
    · exact .pure trivial
  · exact .pure trivial

end Tolerates

end DependencyScope
