/-
  DependencyScope.Proofs.Namespace.Inherit — which inherited requirement an assigned text meets.

  A text that is assigned to a key is applied to a record: that of the dependency which the key
  holds, a copy of an ancestor's, or a new one.  The version part of a spec is checked against the
  requirement of the record or else against the nearest inherited one, for the key or the
  coordinate.  A bare version part is checked against the requirement of its record alone.  That is
  the nearest inherited one only if the record is a copy and no nearer ancestor requires anything of
  the coordinate; on a key that holds a dependency already, no ancestor is asked at all.

  Main definitions:
    * `VersionText.selection` — what is selected after a version part was applied;
    * `Store.usedRecord`, `Store.checkedAgainst?`, `Store.broughtSelection?` — the record that a text
      is applied to, the requirement that it is checked against, and the selection that it brings;
    * `Store.Overlooks` — a text brings a selection past the nearest inherited requirement.

  Main results:
    * `Namespace.uses_of_useTextAs` — what a text leaves under its key;
    * `Assignment.accepts_inherited_iff` — the nearest inherited requirement accepts the selection
      exactly if it is not overlooked, and specs with a version part never overlook it;
    * `Namespace.overlooked_inheriting` — a bare version that does.
-/
import DependencyScope.Proofs.Namespace.Narrow

namespace DependencyScope

open DependencyScope.Text DependencyScope.Action

/-! ## §1. What a version part selects. -/

/-- What is selected after a version part was applied where `previous` was selected before: a
version is, and so is the version that a requirement suggests. -/
def VersionText.selection (previous : Option Version) : Option VersionText → Option Version
  | none => previous
  | some (.plain version) => some version
  | some (.constraint requirement) => requirement.condition.anchor?.or previous

namespace Dependency

variable {d : Dependency} {inherited : Option Requirement} {part : Option VersionText}
  {outcome : Outcome}

theorem selected_of_choose (h : d.choose inherited part = .ok outcome) :
    outcome.dependency.selected = VersionText.selection d.selected part := by
  rcases part with _ | ⟨version⟩ | ⟨requirement⟩
  · cases h
    rfl
  · unfold choose at h
    obtain ⟨checked, hcheck, rfl⟩ := map_eq_ok.1 h
    rw [eq_of_check hcheck]
    rfl
  · show _ = requirement.condition.anchor?.or d.selected
    rw [choose_constraint, Requirement.default?] at h
    cases hanchor : requirement.condition.anchor? with
    | some version =>
      rw [hanchor] at h
      obtain ⟨checked, hcheck, rfl⟩ := map_eq_ok.1 h
      exact congrArg some (eq_of_check hcheck)
    | none =>
      rw [hanchor] at h
      obtain ⟨declared, hdeclare, rfl⟩ := map_eq_ok.1 h
      rw [declare_spec hdeclare]
      rfl

/-- An outcome that counts as a selection has one. -/
theorem isSome_selected_of_choose (h : d.choose inherited part = .ok outcome)
    (hselects : outcome.selects = true) : outcome.dependency.selected.isSome := by
  rcases part with _ | ⟨version⟩ | ⟨requirement⟩
  · cases h
    exact nomatch hselects
  · unfold choose at h
    obtain ⟨checked, -, rfl⟩ := map_eq_ok.1 h
    rfl
  · rw [choose_constraint] at h
    unfold narrowTo at h
    split at h
    · obtain ⟨checked, -, rfl⟩ := map_eq_ok.1 h
      rfl
    · obtain ⟨declared, -, rfl⟩ := map_eq_ok.1 h
      exact nomatch hselects

/-- The requirement in effect accepts what is selected after a version part. -/
theorem accepts_of_choose {version : VersionText} {r : Requirement} {v : Version}
    (h : d.choose inherited (some version) = .ok outcome)
    (hr : d.requirement.or inherited = some r) (hv : outcome.dependency.selected = some v) :
    r.accepts v = true := by
  obtain ⟨default, selected, hdependency⟩ := choose_spec h
  obtain ⟨r', hr', hwithin⟩ := VersionText.demand_within (some version)
  have hrequirement : outcome.dependency.requirement = some r' := by
    rw [hdependency, ← hr', ← hr]
  exact hwithin v (consistent_of_choose h r' v hrequirement hv)

end Dependency

/-! ## §2. What a text does. -/

namespace Store

/-- The record that a text is applied to under a key. -/
def usedRecord (s : Store) (n : Namespace) (key text : String) : Dependency :=
  if looksLikeSpec text then
    match Spec.parse text with
    | .ok spec => s.recordFor n key spec.coordinate
    | .error _ => { key := key }
  else
    match (s.ownDependency? n key).or ((n.inheritedDependency key).answer s) with
    | some id => s.dependency id
    | none => { key := key }

/-- The requirement that the version part of a text is checked against. -/
def checkedAgainst? (s : Store) (n : Namespace) (key text : String) : Option Requirement :=
  if looksLikeSpec text then
    (Spec.parse text).toOption.bind fun spec =>
      if spec.version.isNone then none
      else (s.recordFor n key spec.coordinate).requirement.or
        ((n.inheritedRequirement key spec.coordinate).answer s)
  else (s.usedRecord n key text).requirement

/-- What is selected after a text was applied. -/
def broughtSelection? (s : Store) (n : Namespace) (key text : String) : Option Version :=
  VersionText.selection (s.usedRecord n key text).selected (VersionText.written? text)

/-- In the store `t`, the key holds the dependency `id`, to which the text was applied in `s`. -/
structure Uses (s : Store) (n : Namespace) (key text : String) (id : DependencyId) (t : Store) :
    Prop where
  held : t.ownDependency? n key = some id
  coordinate : ∀ spec, looksLikeSpec text = true → Spec.parse text = .ok spec →
    (t.dependency id).coordinate = some spec.coordinate
  selected : (t.dependency id).selected = s.broughtSelection? n key text
  checked : ∀ r v, s.checkedAgainst? n key text = some r → (t.dependency id).selected = some v →
    r.accepts v = true

theorem requirement_or_requirementBeyond (s : Store) (n : Namespace) (key : String)
    (c : Coordinate) :
    (s.recordFor n key c).requirement.or (s.requirementBeyond n key c)
      = (s.recordFor n key c).requirement.or ((n.inheritedRequirement key c).answer s) := by
  unfold requirementBeyond
  cases (s.recordFor n key c).requirement <;> rfl

end Store

namespace Namespace

variable {n : Namespace} {key text : String} {id : DependencyId} {σ τ : Session}

/-- The outcome is selected, under the coordinate of the spec. -/
theorem selected_putOutcome {coordinate : Coordinate} {target : Option DependencyId}
    {d : Dependency} {outcome : Dependency.Outcome}
    (h : outcome.selects = true → outcome.dependency.selected.isSome)
    (hrun : (n.putOutcome key coordinate target d outcome).run σ = (.ok id, τ)) :
    τ.store.ownDependency? n key = some id ∧
      (τ.store.dependency id).coordinate = some coordinate ∧
      (τ.store.dependency id).selected = outcome.dependency.selected := by
  obtain ⟨υ, hnew, -, -⟩ := run_orNew target d σ
  obtain ⟨φ, hsettle, -⟩ := run_settle (target.getD σ.store.nextDependency) outcome υ
  unfold putOutcome setCoordinate at hrun
  rw [run_bind_ok hnew, run_bind_ok hsettle, run_bind_ok (run_update _ φ),
    run_bind_ok (run_update _ _)] at hrun
  have hselected := selected_settle _ h hsettle
  obtain ⟨hid, rfl⟩ := Prod.mk.inj hrun
  obtain rfl := Except.ok.inj hid
  refine ⟨?_, ?_, ?_⟩
  · exact Store.ownDependency?_eq_some.2 (by rw [Store.entryAt?_insert, if_pos ⟨rfl, rfl⟩])
  · simp
  · simpa using hselected

/-- Using a spec applies it. -/
theorem uses_of_useSpecAs {spec : Spec} (hlooks : looksLikeSpec text = true)
    (hparse : Spec.parse text = .ok spec)
    (hrun : (n.useSpecAs key spec).run σ = (.ok id, τ)) :
    σ.store.Uses n key text id τ.store := by
  have hrecord : σ.store.usedRecord n key text = σ.store.recordFor n key spec.coordinate := by
    unfold Store.usedRecord
    rw [if_pos hlooks, hparse]
  obtain ⟨υ, halike, hspec⟩ := n.run_useSpecAs key spec σ
  rw [hrun] at hspec
  cases houtcome : σ.store.specOutcome n key spec with
  | error e =>
    rw [houtcome] at hspec
    cases hspec
  | ok outcome =>
    rw [houtcome] at hspec
    obtain ⟨part, hpart, hchoose⟩ := Store.specOutcome_ok houtcome
    obtain ⟨hheld, hcoordinate, hselected⟩ :=
      selected_putOutcome (Dependency.isSome_selected_of_choose hchoose) hspec.symm
    refine ⟨hheld, ?_, ?_, ?_⟩
    · rintro spec' - hparse'
      obtain rfl := Except.ok.inj (hparse.symm.trans hparse')
      exact hcoordinate
    · have hwritten : VersionText.written? text = part := by
        unfold VersionText.written?
        rw [if_pos hlooks, hparse]
        exact Spec.part?_of_mapM hpart
      unfold Store.broughtSelection?
      rw [hselected, Dependency.selected_of_choose hchoose, hrecord, hwritten]
    · intro r v hr hv
      unfold Store.checkedAgainst? at hr
      rw [if_pos hlooks, hparse] at hr
      simp only [Except.toOption, Option.bind_some] at hr
      split at hr
      · cases hr
      · next hversion =>
        -- the spec has a version part, and that was checked
        cases part with
        | none => exact absurd (by rw [version_eq_none_of_mapM hpart]; rfl) hversion
        | some version =>
          rw [← Store.requirement_or_requirementBeyond] at hr
          exact Dependency.accepts_of_choose hchoose hr (hselected.symm.trans hv)

/-- A version part that is applied to a dependency is checked against its requirement. -/
theorem selected_chooseOn {version : VersionText} {u : Unit}
    (hrun : (chooseOn id version).run σ = (.ok u, τ)) :
    τ.store.contents = σ.store.contents ∧
      (τ.store.dependency id).selected
        = VersionText.selection (σ.store.dependency id).selected (some version) ∧
      ∀ r v, (σ.store.dependency id).requirement = some r →
        (τ.store.dependency id).selected = some v → r.accepts v = true := by
  rw [run_chooseOn] at hrun
  cases hchoose : (σ.store.dependency id).choose none (some version) with
  | error e =>
    rw [hchoose] at hrun
    exact nomatch hrun
  | ok outcome =>
    rw [hchoose] at hrun
    obtain ⟨υ, hsettle, hreselected⟩ := run_settle id outcome σ
    obtain rfl : υ = τ := congrArg Prod.snd (hsettle.symm.trans hrun)
    have hselected := selected_settle id (Dependency.isSome_selected_of_choose hchoose) hsettle
    refine ⟨hreselected.contents, hselected.trans (Dependency.selected_of_choose hchoose), ?_⟩
    intro r v hr hv
    have heffective : (σ.store.dependency id).requirement.or none = some r := by rw [hr]; rfl
    exact Dependency.accepts_of_choose hchoose heffective (hselected.symm.trans hv)

/-- On a free key, a bare text is applied to a copy of what the nearest ancestor holds there. -/
theorem record_copyInherited (hσ : σ.store.Sound) (hlooks : looksLikeSpec text = false)
    (hown : σ.store.ownDependency? n key = none)
    (hrun : (n.copyInherited key).run σ = (.ok id, τ)) :
    (τ.store.dependency id).core = (σ.store.usedRecord n key text).core := by
  have hrecord : σ.store.usedRecord n key text
      = ((n.inheritedDependency key).answer σ.store).elim { key := key } σ.store.dependency := by
    unfold Store.usedRecord
    rw [hlooks, if_neg Bool.false_ne_true, hown, Option.none_or]
    cases (n.inheritedDependency key).answer σ.store <;> rfl
  obtain ⟨copy, υ, hcopy, -, -, hcore⟩ := run_copyInherited hσ n key
  obtain ⟨hid, rfl⟩ := Prod.mk.inj (hcopy.symm.trans hrun)
  obtain rfl := Except.ok.inj hid
  rw [hrecord]
  exact hcore

/-- Using a bare version part applies it. -/
theorem uses_of_useVersionAs (hσ : σ.store.Sound) (hlooks : looksLikeSpec text = false)
    (hrun : (n.useVersionAs key text).run σ = (.ok id, τ)) :
    σ.store.Uses n key text id τ.store := by
  unfold useVersionAs at hrun
  obtain ⟨version, υ, hread, hrun⟩ := run_bind_eq_ok.1 hrun
  rw [run_ofExcept] at hread
  obtain ⟨hparse, rfl⟩ := Prod.mk.inj hread
  rw [run_bind_ok (run_view _ σ)] at hrun
  have hwritten : VersionText.written? text = some version := by
    unfold VersionText.written?
    rw [hlooks, if_neg Bool.false_ne_true, hparse]
    rfl
  have hchecked : σ.store.checkedAgainst? n key text
      = (σ.store.usedRecord n key text).requirement := by
    unfold Store.checkedAgainst?
    rw [hlooks, if_neg Bool.false_ne_true]
  -- it is enough to look at the record when the version part meets it
  have huses {i : DependencyId} {υ φ : Session} {u : Unit}
      (hrequirement : (υ.store.dependency i).requirement = (σ.store.usedRecord n key text).requirement)
      (hselected : (υ.store.dependency i).selected = (σ.store.usedRecord n key text).selected)
      (hchoose : (chooseOn i version).run υ = (.ok u, φ)) {t : Store}
      (hheld : t.ownDependency? n key = some i) (ht : t.dependency i = φ.store.dependency i) :
      σ.store.Uses n key text i t := by
    obtain ⟨-, hchosen, haccepts⟩ := selected_chooseOn hchoose
    refine ⟨hheld, fun spec h => absurd (hlooks.symm.trans h) Bool.false_ne_true, ?_, ?_⟩
    · unfold Store.broughtSelection?
      rw [ht, hchosen, hselected, hwritten]
    · intro r v hr hv
      rw [hchecked, ← hrequirement] at hr
      exact haccepts r v hr (ht ▸ hv)
  cases hown : σ.store.ownDependency? n key with
  -- the version is used on what the key holds
  | some own =>
    rw [hown] at hrun
    obtain ⟨u, φ, hchoose, hend⟩ := run_bind_eq_ok.1 hrun
    obtain ⟨hid, rfl⟩ := Prod.mk.inj hend
    obtain rfl := Except.ok.inj hid
    have hrecord : σ.store.usedRecord n key text = σ.store.dependency own := by
      unfold Store.usedRecord
      rewrite [hlooks, if_neg Bool.false_ne_true, hown, Option.some_or]
      rfl
    have hheld : φ.store.ownDependency? n key = some own := by
      rw [← hown]
      exact congrArg (Option.bind · Entry.dependency?)
        (Store.entryAt?_of_contents (selected_chooseOn hchoose).1 n key)
    exact huses (by rw [hrecord]) (by rw [hrecord]) hchoose hheld rfl
  -- the version is used on a copy or a new record, which is stored afterwards
  | none =>
    rw [hown] at hrun
    obtain ⟨copy, υ, hcopy, hrun⟩ := run_bind_eq_ok.1 hrun
    obtain ⟨u, φ, hchoose, hend⟩ := run_bind_eq_ok.1 hrun
    rw [run_bind_ok (run_update _ φ)] at hend
    obtain ⟨hid, rfl⟩ := Prod.mk.inj hend
    obtain rfl := Except.ok.inj hid
    have hcore := record_copyInherited hσ hlooks hown hcopy
    have hrequirement := congrArg Dependency.requirement hcore
    have hselected := congrArg Dependency.selected hcore
    have hheld : (φ.store.insert n key copy).ownDependency? n key = some copy :=
      Store.ownDependency?_eq_some.2 (by rw [Store.entryAt?_insert, if_pos ⟨rfl, rfl⟩])
    exact huses hrequirement hselected hchoose hheld (by simp)

/-- Using a text applies it. -/
theorem uses_of_useTextAs (hσ : σ.store.Sound)
    (hrun : (n.useTextAs key text).run σ = (.ok id, τ)) : σ.store.Uses n key text id τ.store := by
  unfold useTextAs at hrun
  split at hrun
  · next hlooks =>
    obtain ⟨spec, υ, hread, hrun⟩ := run_bind_eq_ok.1 hrun
    rw [run_ofExcept] at hread
    obtain ⟨hparse, rfl⟩ := Prod.mk.inj hread
    exact uses_of_useSpecAs hlooks hparse hrun
  · next hlooks => exact uses_of_useVersionAs hσ (by simpa using hlooks) hrun

/-- A text that is assigned to a key is applied under it. -/
theorem uses_of_setHere {key' : String} {e : Entry} (hσ : σ.store.Sound)
    (hkey : σ.store.assignedKey? n key' = some key)
    (hrun : (n.setHere key' (.text text)).run σ = (.ok e, τ)) :
    ∃ id, e = .dependency id ∧ σ.store.Uses n key text id τ.store := by
  obtain ⟨key'', id, hkey', he, huse⟩ := exists_of_assigned (n.useTextAs · text) hrun
  obtain rfl : key = key'' := Option.some.inj (hkey.symm.trans hkey')
  exact ⟨id, he, uses_of_useTextAs hσ huse⟩

end Namespace

/-! ## §3. What is overlooked. -/

namespace Store

/-- A text brings a selection that the nearest inherited requirement, for the key or for the
coordinate, rejects, and that requirement is not the one that the text is checked against. -/
def Overlooks (s : Store) (n : Namespace) (key text : String) (c : Coordinate) : Prop :=
  ∃ r v, (n.inheritedRequirement key c).answer s = some r ∧ s.checkedAgainst? n key text ≠ some r ∧
    s.broughtSelection? n key text = some v ∧ r.accepts v = false

/-- Where the key declares no requirement itself, a spec with a version part is checked against the
nearest inherited one. -/
theorem checkedAgainst?_spec {s : Store} {n : Namespace} {key text : String} {spec : Spec}
    (hlooks : looksLikeSpec text = true) (hparse : Spec.parse text = .ok spec)
    (hversion : spec.version.isSome)
    (hbefore : ∀ i, s.ownSingle? n key = some i → (s.dependency i).requirement = none) :
    s.checkedAgainst? n key text = (n.inheritedRequirement key spec.coordinate).answer s := by
  have hrecord : (s.recordFor n key spec.coordinate).requirement = none := by
    unfold recordFor
    cases hown : s.ownFor? n key spec.coordinate with
    | none => rfl
    | some i => exact hbefore i (Option.filter_eq_some_iff.1 hown).1
  have hnone : spec.version.isNone = false := by
    rw [← Option.not_isSome, hversion]
    rfl
  unfold checkedAgainst?
  rw [if_pos hlooks, hparse]
  simp only [Except.toOption, Option.bind_some]
  rw [hnone, if_neg Bool.false_ne_true, hrecord, Option.none_or]

end Store

namespace Assignment

variable {a : Assignment} {followsProjects : Bool} {key text : String} {id : DependencyId}
  {c : Coordinate} {v : Version}

/-- A text is assigned to a key that declares no requirement itself, and afterwards the key holds a
dependency with a coordinate and a selection.  The nearest requirement that ancestors have for the
key or for the coordinate accepts the selection exactly if the text does not overlook it; and a spec
with a version part never does. -/
theorem accepts_inherited_iff (h : Session.Reached followsProjects a.session)
    (hkey : a.assigned? = some key) (htext : a.value = .text text) {e : Entry} {τ : Session}
    (hrun : (a.target.set a.key a.value).run a.session = (.ok e, τ))
    (hheld : τ.store.ownSingle? a.place key = some id)
    (hcoordinate : (τ.store.dependency id).coordinate = some c)
    (hselected : (τ.store.dependency id).selected = some v)
    (hbefore : ∀ i, a.session.store.ownSingle? a.place key = some i →
      (a.session.store.dependency i).requirement = none) :
    ((∀ r, (a.place.inheritedRequirement key c).answer a.session.store = some r →
        r.accepts v = true) ↔ ¬a.session.store.Overlooks a.place key text c) ∧
      (looksLikeSpec text = true → (VersionText.written? text).isSome →
        ¬a.session.store.Overlooks a.place key text c) := by
  rw [Namespace.run_set, htext] at hrun
  obtain ⟨id', -, huses⟩ := Namespace.uses_of_setHere h.sound hkey hrun
  obtain rfl : id' = id := by
    have hown := Store.ownDependency?_eq_some.2 (Store.ownSingle?_eq_some.1 hheld).1
    exact Option.some.inj (huses.held.symm.trans hown)
  have hbrought : a.session.store.broughtSelection? a.place key text = some v :=
    huses.selected.symm.trans hselected
  constructor
  · constructor
    · rintro haccepts ⟨r, w, hr, -, hw, hrejects⟩
      obtain rfl : v = w := Option.some.inj (hbrought.symm.trans hw)
      rw [haccepts r hr] at hrejects
      cases hrejects
    · intro hnot r hr
      by_cases hchecked : a.session.store.checkedAgainst? a.place key text = some r
      · exact huses.checked r v hchecked hselected
      · cases haccepts : r.accepts v with
        | true => rfl
        | false => exact (hnot ⟨r, v, hr, hchecked, hbrought, haccepts⟩).elim
  · rintro hlooks hwritten ⟨r, w, hr, hunchecked, -, -⟩
    unfold VersionText.written? at hwritten
    rw [if_pos hlooks] at hwritten
    cases hparse : Spec.parse text with
    | error error =>
      rw [hparse] at hwritten
      cases hwritten
    | ok spec =>
      rw [hparse] at hwritten
      have hversion : spec.version.isSome := by
        cases hpart : spec.version with
        | some _ => rfl
        | none =>
          simp only [Except.toOption, Option.bind_some, Spec.part?, hpart] at hwritten
          cases hwritten
      -- the dependency has the coordinate of the spec, so what is checked is the nearest one
      have hc : spec.coordinate = c :=
        Option.some.inj ((huses.coordinate spec hlooks hparse).symm.trans hcoordinate)
      rw [Store.checkedAgainst?_spec hlooks hparse hversion hbefore, hc] at hunchecked
      exact hunchecked hr

end Assignment

namespace Namespace

/-- In `a` version 1 is selected under `k`, and then the root declares `k` to be at least 2; the text
is assigned to `k` in `a` after that. -/
def inheriting (text : String) : Assignment where
  session := (Session.start true).afterAll
    [.set (.registered "a" 0) "k" (.text "g:i:t:1"),
      .needAs (.registered rootName 0) "k" (.text "g:i:t:>=2")]
  target := .registered "a" 0
  key := "k"
  value := .text text

theorem reached_inheriting (text : String) : Session.Reached true (inheriting text).session :=
  .after (.after .start trivial) trivial

/-- The session in which the assignment ends. -/
def afterInheriting (text : String) : Session :=
  (((inheriting text).target.set (inheriting text).key (inheriting text).value).run
    (inheriting text).session).2

/-- A spec with version 3 is checked against the requirement of the root, which accepts it. -/
theorem accepts_inheriting :
    ∃ r, ((inheriting "g:i:t:3").place.inheritedRequirement "k" ⟨"g", "i", "t", none⟩).answer
        (inheriting "g:i:t:3").session.store = some r ∧
      ((afterInheriting "g:i:t:3").store.dependency 0).selected = some ⟨"3", by decide⟩ ∧
      r.accepts ⟨"3", by decide⟩ = true := by
  have hkey : (inheriting "g:i:t:3").assigned? = some "k" := by decide +kernel
  have hsucceeds : (((inheriting "g:i:t:3").target.set (inheriting "g:i:t:3").key
      (inheriting "g:i:t:3").value).run (inheriting "g:i:t:3").session).1.toOption.isSome := by
    decide +kernel
  have hheld : (afterInheriting "g:i:t:3").store.ownSingle? (inheriting "g:i:t:3").place "k"
      = some 0 := by decide +kernel
  have hcoordinate : ((afterInheriting "g:i:t:3").store.dependency 0).coordinate
      = some ⟨"g", "i", "t", none⟩ := by decide +kernel
  have hselected : ((afterInheriting "g:i:t:3").store.dependency 0).selected
      = some ⟨"3", by decide⟩ := by decide +kernel
  have hown : (inheriting "g:i:t:3").session.store.ownSingle? (inheriting "g:i:t:3").place "k"
      = some 0 := by decide +kernel
  have hnone : ((inheriting "g:i:t:3").session.store.dependency 0).requirement.isNone := by
    decide +kernel
  have hnearest : (((inheriting "g:i:t:3").place.inheritedRequirement "k"
      ⟨"g", "i", "t", none⟩).answer (inheriting "g:i:t:3").session.store).isSome := by
    decide +kernel
  obtain ⟨e, τ, hrun⟩ := exists_of_isSome hsucceeds
  obtain rfl : afterInheriting "g:i:t:3" = τ := congrArg Prod.snd hrun
  obtain ⟨r, hr⟩ := Option.isSome_iff_exists.1 hnearest
  obtain ⟨hiff, hspec⟩ := Assignment.accepts_inherited_iff (reached_inheriting "g:i:t:3") hkey rfl
    hrun hheld hcoordinate hselected fun i hi => by
      obtain rfl := Option.some.inj (hown.symm.trans hi)
      exact Option.isNone_iff_eq_none.1 hnone
  have hnot := hspec (by decide +kernel) (by decide +kernel)
  exact ⟨r, hr, hselected, hiff.2 hnot r hr⟩

/-- The bare version 1.5 is selected, although `k` declares no requirement in `a` and the root has
declared it to be at least 2. -/
theorem overlooked_inheriting :
    (inheriting "1.5").Succeeds ∧
      (inheriting "1.5").session.store.ownSingle? (.registered "a" 0) "k" = some 0 ∧
      ((inheriting "1.5").session.store.dependency 0).requirement.isNone ∧
      (afterInheriting "1.5").store.ownSingle? (.registered "a" 0) "k" = some 0 ∧
      ((afterInheriting "1.5").store.dependency 0).coordinate = some ⟨"g", "i", "t", none⟩ ∧
      ((afterInheriting "1.5").store.dependency 0).selected = some ⟨"1.5", by decide⟩ ∧
      ∃ r, (inheritedRequirement (.registered "a" 0) "k" ⟨"g", "i", "t", none⟩).answer
          (inheriting "1.5").session.store = some r ∧
        r.accepts ⟨"1.5", by decide⟩ = false := by
  have hsucceeds : (((inheriting "1.5").target.set (inheriting "1.5").key
      (inheriting "1.5").value).run (inheriting "1.5").session).1.toOption.isSome := by
    decide +kernel
  have hrejects : ((inheritedRequirement (.registered "a" 0) "k" ⟨"g", "i", "t", none⟩).answer
      (inheriting "1.5").session.store).map (·.accepts ⟨"1.5", by decide⟩) = some false := by
    decide +kernel
  exact ⟨exists_of_isSome hsucceeds, by decide +kernel, by decide +kernel, by decide +kernel,
    by decide +kernel, by decide +kernel, Option.map_eq_some_iff.1 hrejects⟩

end Namespace

end DependencyScope
