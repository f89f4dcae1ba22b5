/-
  DependencyScope.Proofs.Namespace.Repeat — using the same text again.

  The first use may make a dependency, copy one from an ancestor, give it a coordinate and take over a
  requirement from above.  The second one finds all this done: the key holds the dependency, a record
  without a requirement has none above it either, and a requirement that is narrowed once more by the
  same one accepts what it accepted.

  Main definitions:
    * `Dependency.Settled` — the record is what a version part makes of a record;
    * `Dependency.Restates`, `Store.Restates` — the same but for how a requirement is written;
    * `Store.UsedSpec` — the key holds what a spec makes of it.

  Main results:
    * `Dependency.choose_of_settled` — a version part that is applied again goes well and restates;
    * `Namespace.useTextAs_again` — so does a text that is used again.
-/
import DependencyScope.Proofs.Namespace.Resolve

namespace DependencyScope

open DependencyScope.Text DependencyScope.Action

/-! ## §1. Records. -/

/-- A requirement that is within another accepts the same when it meets that. -/
theorem Requirement.Within.accepts_intersect {r s : Requirement} (h : r.Within s) :
    (r.intersect s).accepts = r.accepts := by
  funext v
  rw [Requirement.accepts_intersect]
  cases hv : r.accepts v with
  | false => rfl
  | true =>
    rw [h v hv]
    rfl

namespace Dependency

/-- The record `d'` is `d` with a requirement that accepts the same versions. -/
structure Restates (d d' : Dependency) : Prop where
  rest : ∃ requirement, d' = { d with requirement := requirement }
  accepts : d'.requirement.map Requirement.accepts = d.requirement.map Requirement.accepts

/-- What the version part makes of a record, the record is: it has the selection and the default that
the version part brings, and a requirement within the one that the version part demands. -/
def Settled (d : Dependency) : Option VersionText → Prop
  | none => True
  | some (.plain v) => d.Consistent ∧ d.selected = some v
  | some (.constraint r) => d.Consistent ∧ d.defaultVersion = r.default? ∧
      (∀ v, r.condition.anchor? = some v → d.selected = some v) ∧
      ∃ own, d.requirement = some own ∧ own.Within r

variable {d : Dependency} {inherited : Option Requirement} {part : Option VersionText}
  {outcome : Outcome}

theorem Restates.refl (d : Dependency) : d.Restates d where
  rest := ⟨d.requirement, rfl⟩
  accepts := rfl

theorem settled_of_choose (h : d.choose inherited part = .ok outcome) :
    outcome.dependency.Settled part := by
  rcases part with _ | ⟨v⟩ | ⟨r⟩
  · trivial
  · refine ⟨consistent_of_choose h, ?_⟩
    unfold choose at h
    obtain ⟨checked, hcheck, rfl⟩ := map_eq_ok.1 h
    exact congrArg some (eq_of_check hcheck)
  · refine ⟨consistent_of_choose h, ?_, ?_, within_of_choose h⟩
    · rw [choose_constraint] at h
      unfold narrowTo at h
      split at h
      · next text hdefault =>
        obtain ⟨checked, -, rfl⟩ := map_eq_ok.1 h
        exact hdefault.symm
      · next hdefault =>
        obtain ⟨declared, hdeclare, rfl⟩ := map_eq_ok.1 h
        rw [declare_spec hdeclare, hdefault]
    · intro v hv
      have hdefault : r.default? = some v.text := by
        unfold Requirement.default?
        rw [hv]
        rfl
      rw [choose_constraint, hdefault] at h
      obtain ⟨checked, hcheck, rfl⟩ := map_eq_ok.1 h
      exact congrArg some (eq_of_check hcheck)

/-- A selection that the requirement accepts can be checked again. -/
theorem check_of_accepts {requirement : Option Requirement} {v : Version} (d : Dependency)
    (h : ∀ r, requirement = some r → r.accepts v = true) : d.check requirement v.text = .ok v := by
  cases requirement with
  | none =>
    unfold check
    rw [Version.parse_text]
  | some r => rw [check_text, if_pos (h r rfl)]

/-- Narrowing to a requirement that the selection meets changes nothing else, where the default and the
selection are what the version part brings. -/
theorem narrowTo_of_met {r narrowed : Requirement} (hdefault : d.defaultVersion = r.default?)
    (hselected : ∀ v, r.condition.anchor? = some v → d.selected = some v)
    (hmet : ∀ v, d.selected = some v → narrowed.accepts v = true) :
    ∃ selects, d.narrowTo narrowed r.default?
      = .ok ⟨{ d with requirement := some narrowed }, selects⟩ := by
  have hcheck (v : Version) (hv : d.selected = some v) :
      d.check (some narrowed) v.text = .ok v :=
    d.check_of_accepts fun s hs => Option.some.inj hs ▸ hmet v hv
  unfold Requirement.default? at hdefault ⊢
  cases hanchor : r.condition.anchor? with
  | some v =>
    have hv := hselected v hanchor
    rw [hanchor, Option.map_some] at hdefault
    refine ⟨true, ?_⟩
    unfold narrowTo
    rw [Option.map_some]
    dsimp only
    rw [hcheck v hv, hdefault, hv]
    rfl
  | none =>
    rw [hanchor, Option.map_none] at hdefault
    refine ⟨false, ?_⟩
    unfold narrowTo declare
    rw [Option.map_none, hdefault]
    dsimp only
    cases hv : d.selected with
    | none => rfl
    | some v =>
      dsimp only
      rw [hcheck v hv]
      rfl

/-- A version part that is applied again goes well, and the record says what it said, provided that
no requirement is inherited now where none was before. -/
theorem choose_of_settled (h : d.Settled part) (hnone : d.requirement = none → inherited = none) :
    ∃ outcome, d.choose inherited part = .ok outcome ∧ d.Restates outcome.dependency := by
  have heffective : d.requirement.or inherited = d.requirement := by
    cases hr : d.requirement with
    | none => exact hnone hr
    | some r => rfl
  have hsame : d.inheriting inherited = d := by
    unfold inheriting
    rw [heffective]
  rcases part with _ | ⟨v⟩ | ⟨r⟩
  · refine ⟨⟨d.inheriting inherited, false⟩, rfl, ?_⟩
    rw [hsame]
    exact .refl d
  · obtain ⟨hconsistent, hselected⟩ := h
    have hcheck : d.check d.requirement v.text = .ok v :=
      d.check_of_accepts fun r hr => hconsistent r v hr hselected
    refine ⟨⟨{ d.inheriting inherited with selected := some v }, true⟩, ?_, ?_⟩
    · unfold choose
      dsimp only
      rw [heffective, hcheck]
      rfl
    · rw [hsame, ← hselected]
      exact .refl d
  · obtain ⟨hconsistent, hdefault, hselected, own, hown, hwithin⟩ := h
    -- the requirement is within the one that is written, and so it meets it in vain
    have haccepts := hwithin.accepts_intersect
    obtain ⟨selects, hnarrowed⟩ := narrowTo_of_met hdefault hselected fun v hv => by
      rw [haccepts]
      exact hconsistent own v hown hv
    refine ⟨⟨{ d with requirement := some (own.intersect r) }, selects⟩, ?_, ⟨_, rfl⟩, ?_⟩
    · rw [choose_constraint, heffective, hown]
      exact hnarrowed
    · rw [hown, Option.map_some, Option.map_some, haccepts]

end Dependency

/-! ## §2. Stores. -/

namespace Store

variable {s t w : Store} {n m : Namespace} {key : String} {c : Coordinate} {id : DependencyId}
  {d : Dependency}

/-- In `t` all namespaces hold and find what they do in `s`, and no record but that of `id` has
changed, which says what it said. -/
structure Restates (s : Store) (id : DependencyId) (t : Store) : Prop where
  entries : ∀ m k, t.entryAt? m k = s.entryAt? m k
  index : ∀ m u, t.indexed? m u = s.indexed? m u
  record : (s.dependency id).Restates (t.dependency id)
  others : ∀ j, j ≠ id → t.dependency j = s.dependency j

/-- Storing what is stored and registered already changes nothing. -/
theorem Restates.insert (h : s.Restates id t) (hentry : s.entryAt? n key = some (.dependency id))
    (hindexed : ∀ u, (t.dependency id).unversioned = some u → s.indexed? n u = some id) :
    s.Restates id (t.insert n key id) where
  entries := by
    intro m k
    rw [entryAt?_insert]
    split
    · next heq =>
      obtain ⟨rfl, rfl⟩ := heq
      exact hentry.symm
    · exact h.entries m k
  index := by
    intro m u
    rw [Store.insert, indexed?_putIndex, indexed?_putEntry, dependency_putEntry]
    split
    · next heq =>
      obtain ⟨rfl, hu⟩ := heq
      exact (hindexed u hu).symm
    · exact h.index m u
  record := by
    rw [dependency_insert]
    exact h.record
  others j hj := by rw [dependency_insert, h.others j hj]

theorem Written.restates (h : s.Written id d t) (hd : (s.dependency id).Restates d) :
    s.Restates id t where
  entries := entryAt?_of_contents h.contents
  index m u := by
    unfold indexed? contentsOf
    rw [h.contents]
  record := by rwa [h.record]
  others := h.others

/-- A dependency that is written without a requirement lends none to the namespaces below. -/
theorem Written.requirementFor? (h : s.Written id d w) (hd : d.requirement = none)
    (hcontents : t.contentsOf m = s.contentsOf m) (hrecords : ∀ j, t.dependency j = w.dependency j)
    (hnone : m.requirementFor? key c s = none) : m.requirementFor? key c t = none := by
  -- what is held in `m` is as it was, or it has no requirement
  have hrecord (j : DependencyId) : t.dependency j = s.dependency j ∨
      (t.dependency j).requirement = none := by
    rw [hrecords]
    by_cases hj : j = id
    · subst hj
      exact .inr (by rw [h.record, hd])
    · exact .inl (h.others j hj)
  have hown : t.ownDependency? m key = s.ownDependency? m key := by
    unfold ownDependency? entryAt?
    rw [hcontents]
  have hindexed : t.indexed? m c.render = s.indexed? m c.render := by
    unfold indexed?
    rw [hcontents]
  unfold Namespace.requirementFor? at hnone ⊢
  rw [Option.or_eq_none_iff] at hnone ⊢
  obtain ⟨hkey, hindex⟩ := hnone
  rw [hown, hindexed]
  constructor
  · cases hj : s.ownDependency? m key with
    | none => rfl
    | some j =>
      rw [hj] at hkey
      rcases hrecord j with hsame | hfree
      · simpa [hsame] using hkey
      · simp [hfree]
  · cases hj : s.indexed? m c.render with
    | none => rfl
    | some j =>
      rw [hj] at hindex
      rcases hrecord j with hsame | hfree
      · simpa [hsame] using hindex
      · simp [hfree]

/-- So where nothing is inherited, nothing is inherited after the write. -/
theorem Written.inheritedRequirement (h : s.Written id d w) (hs : s.Sound)
    (hd : d.requirement = none) (hnone : (n.inheritedRequirement key c).answer s = none) :
    (n.inheritedRequirement key c).answer (w.insert n key id) = none := by
  have htree : s.SameTree (w.insert n key id) :=
    h.tree.trans (.putIndex ⟨_, _, _, rfl⟩ n id)
  have hnot : n ∉ n.ancestors.answer s := (hs.grounded.ascending.ascends_ancestors n).not_mem
  rw [Namespace.answer_inheritedRequirement, List.findSome?_eq_none_iff] at hnone ⊢
  rw [htree.answer_ancestors hs.grounded.ascending n]
  intro m hm
  have hne : m ≠ n := fun heq => hnot (heq ▸ hm)
  exact h.requirementFor? hd ((h.insert n key).contents m hne) (fun j => dependency_insert _ _ _ _ _)
    (hnone m hm)

end Store

/-! ## §3. Actions. -/

namespace Namespace

variable {n : Namespace} {key : String} {c : Coordinate} {id : DependencyId} {σ τ : Session}

/-- An outcome that nobody listens to is put, and that is all. -/
theorem run_settle_of_unheard (id : DependencyId) (σ : Session) {outcome : Dependency.Outcome}
    (h : outcome.dependency.listeners = []) :
    ∃ τ, (settle id outcome).run σ = (.ok (), τ) ∧
      τ.store = σ.store.putDependency id outcome.dependency := by
  let put : Session := { σ with store := σ.store.putDependency id outcome.dependency }
  have hput : (put.store.dependency id).listeners = [] := by
    show ((σ.store.putDependency id outcome.dependency).dependency id).listeners = []
    rw [Store.dependency_putDependency, if_pos rfl]
    exact h
  unfold settle
  rw [run_bind_ok (run_update _ σ)]
  split
  · exact ⟨put.announce id, rfl, Session.store_announce_of_unheard hput⟩
  · exact ⟨put, rfl, rfl⟩

/-- A version part that can be applied is applied to the record. -/
theorem run_chooseOn_of_unheard (h : (σ.store.dependency id).listeners = [])
    {version : VersionText} {outcome : Dependency.Outcome}
    (hchoose : (σ.store.dependency id).choose none (some version) = .ok outcome) :
    ∃ τ, (chooseOn id version).run σ = (.ok (), τ) ∧
      σ.store.Written id outcome.dependency τ.store := by
  obtain ⟨τ, hrun, hstore⟩ := run_settle_of_unheard id σ
    (Dependency.robust_silent.chosen h hchoose)
  refine ⟨τ, ?_, hstore ▸ .put σ.store id outcome.dependency⟩
  rw [run_chooseOn, hchoose]
  exact hrun

theorem exists_of_chooseOn (h : (σ.store.dependency id).listeners = []) {version : VersionText}
    (hrun : (chooseOn id version).run σ = (.ok (), τ)) :
    ∃ outcome, (σ.store.dependency id).choose none (some version) = .ok outcome ∧
      σ.store.Written id outcome.dependency τ.store := by
  cases hchoose : (σ.store.dependency id).choose none (some version) with
  | error e =>
    rw [run_chooseOn, hchoose] at hrun
    exact nomatch hrun
  | ok outcome =>
    obtain ⟨υ, hdone, hwritten⟩ := run_chooseOn_of_unheard h hchoose
    cases hdone.symm.trans hrun
    exact ⟨outcome, rfl, hwritten⟩

/-- The outcome of using a spec is written, with the coordinate, to the target or to a new dependency,
which is stored under the key then. -/
theorem run_putOutcome_of_unheard (n : Namespace) (key : String) (c : Coordinate)
    (target : Option DependencyId) (d : Dependency) (σ : Session) {outcome : Dependency.Outcome}
    (h : outcome.dependency.listeners = []) :
    ∃ τ w, (n.putOutcome key c target d outcome).run σ
        = (.ok (target.getD σ.store.nextDependency), τ) ∧
      σ.store.Written (target.getD σ.store.nextDependency)
        { outcome.dependency with coordinate := some c } w ∧
      τ.store = w.insert n key (target.getD σ.store.nextDependency) := by
  obtain ⟨mid, d', hnew, hmid⟩ : ∃ mid d', (Action.orNew target d).run σ
      = (.ok (target.getD σ.store.nextDependency), mid) ∧
      σ.store.Written (target.getD σ.store.nextDependency) d' mid.store := by
    cases target with
    | some id => exact ⟨σ, _, rfl, .refl σ.store id⟩
    | none => exact ⟨_, _, rfl, .add σ.store d⟩
  generalize target.getD σ.store.nextDependency = id at hnew hmid ⊢
  obtain ⟨υ, hsettle, hstore⟩ := run_settle_of_unheard id mid h
  have hput : mid.store.Written id outcome.dependency υ.store :=
    hstore ▸ .put mid.store id outcome.dependency
  have hlocated := Store.Written.put υ.store id { υ.store.dependency id with coordinate := some c }
  unfold putOutcome setCoordinate
  rw [run_bind_ok hnew, run_bind_ok hsettle, run_bind_ok (run_update _ υ),
    run_bind_ok (run_update _ _)]
  refine ⟨_, _, rfl, ((hmid.trans hput).trans hlocated).congr ?_, rfl⟩
  rw [hput.record]

end Namespace

/-! ## §4. Texts that are used again. -/

/-- The key holds what using the spec makes of a record, and it is registered there.  If it has no
requirement, none is inherited for it. -/
structure Store.UsedSpec (s : Store) (n : Namespace) (key : String) (spec : Spec)
    (id : DependencyId) : Prop where
  entry : s.entryAt? n key = some (.dependency id)
  single : (s.dependency id).isGroup = false
  coordinate : (s.dependency id).coordinate = some spec.coordinate
  indexed : s.indexed? n spec.coordinate.render = some id
  settled : ∃ part, spec.version.mapM VersionText.parse = .ok part ∧
    (s.dependency id).Settled part
  above : (s.dependency id).requirement = none →
    (n.inheritedRequirement key spec.coordinate).answer s = none

namespace Store.UsedSpec

variable {s : Store} {n : Namespace} {key : String} {spec : Spec} {id : DependencyId}

theorem ownSingle? (h : s.UsedSpec n key spec id) : s.ownSingle? n key = some id :=
  ownSingle?_eq_some.2 ⟨h.entry, h.single⟩

theorem ownFor? (h : s.UsedSpec n key spec id) : s.ownFor? n key spec.coordinate = some id := by
  unfold Store.ownFor? Dependency.admits
  rw [h.ownSingle?]
  exact Option.filter_eq_some_iff.2 ⟨rfl, by simp [h.coordinate]⟩

/-- A spec that has been used can be used again, and the record says what it said. -/
theorem specOutcome (h : s.UsedSpec n key spec id) : ∃ outcome,
    s.specOutcome n key spec = .ok outcome ∧ (s.dependency id).Restates outcome.dependency := by
  obtain ⟨part, hpart, hsettled⟩ := h.settled
  have hrecord := Namespace.recordFor_of_ownFor? h.ownFor?
  have hcheck : s.checkCoordinate n key spec = .ok () := by
    unfold Store.checkCoordinate Dependency.checkCoordinate
    rw [h.ownSingle?]
    dsimp only
    rw [h.coordinate]
    cases (s.dependency id).requirement with
    | none => rfl
    | some r => exact if_pos rfl
  have hnone : (s.dependency id).requirement = none →
      s.requirementBeyond n key spec.coordinate = none := by
    intro hfree
    unfold requirementBeyond
    rw [hrecord, hfree]
    exact h.above hfree
  obtain ⟨outcome, hchoose, hrestates⟩ := Dependency.choose_of_settled hsettled hnone
  refine ⟨outcome, ?_, hrestates⟩
  unfold Store.specOutcome
  rw [hpart, hcheck, hrecord]
  exact hchoose

end Store.UsedSpec

namespace Namespace

variable {n : Namespace} {key text : String} {spec : Spec} {id : DependencyId} {σ τ : Session}

/-- Where the outcome of a spec has no requirement, none is inherited. -/
theorem inheritedRequirement_of_specOutcome {s : Store} {outcome : Dependency.Outcome}
    (h : s.specOutcome n key spec = .ok outcome) (hnone : outcome.dependency.requirement = none) :
    (n.inheritedRequirement key spec.coordinate).answer s = none := by
  obtain ⟨part, -, hchoose⟩ := Store.specOutcome_ok h
  obtain ⟨default, selected, hdependency⟩ := Dependency.choose_spec hchoose
  have hdemand : VersionText.demand ((s.recordFor n key spec.coordinate).requirement.or
      (s.requirementBeyond n key spec.coordinate)) part = none := by
    rw [hdependency] at hnone
    exact hnone
  have heffective : (s.recordFor n key spec.coordinate).requirement.or
      (s.requirementBeyond n key spec.coordinate) = none := by
    rcases part with _ | ⟨v⟩ | ⟨r⟩
    · exact hdemand
    · exact hdemand
    · exact nomatch hdemand
  obtain ⟨hown, hbeyond⟩ := Option.or_eq_none_iff.1 heffective
  unfold Store.requirementBeyond at hbeyond
  rw [hown] at hbeyond
  exact hbeyond

theorem silent_recordFor (h : σ.Records Dependency.Silent) (n : Namespace) (key : String)
    (c : Coordinate) : (σ.store.recordFor n key c).Silent :=
  (tolerates_records Dependency.robust_silent n).recordFor Dependency.robust_silent h key trivial

/-- A spec whose outcome is known is used as that says. -/
theorem run_useSpecAs_of_silent (h : σ.Records Dependency.Silent) {outcome : Dependency.Outcome}
    (houtcome : σ.store.specOutcome n key spec = .ok outcome) :
    ∃ id τ w, id = (σ.store.ownFor? n key spec.coordinate).getD σ.store.nextDependency ∧
      (n.useSpecAs key spec).run σ = (.ok id, τ) ∧
      σ.store.Written id { outcome.dependency with coordinate := some spec.coordinate } w ∧
      τ.store = w.insert n key id := by
  obtain ⟨_, ⟨names, rfl⟩, hrun⟩ := n.run_useSpecAs key spec σ
  rw [houtcome] at hrun
  have hsilent : outcome.dependency.Silent := by
    obtain ⟨part, -, hchoose⟩ := Store.specOutcome_ok houtcome
    obtain ⟨default, selected, hdependency⟩ := Dependency.choose_spec hchoose
    rw [hdependency]
    exact silent_recordFor h n key spec.coordinate
  obtain ⟨τ, w, hput, hwritten, hstore⟩ := run_putOutcome_of_unheard n key spec.coordinate
    (σ.store.ownFor? n key spec.coordinate) (σ.store.recordFor n key spec.coordinate)
    { σ with listed := names } hsilent
  exact ⟨_, τ, w, rfl, hrun.trans hput, hwritten, hstore⟩

/-- What using a spec leaves. -/
theorem usedSpec_of_useSpecAs (hσ : σ.store.Sound) (h : σ.Records Dependency.Silent)
    (hrun : (n.useSpecAs key spec).run σ = (.ok id, τ)) : τ.store.UsedSpec n key spec id := by
  cases houtcome : σ.store.specOutcome n key spec with
  | error e =>
    obtain ⟨_, -, heq⟩ := n.run_useSpecAs key spec σ
    rw [houtcome, hrun] at heq
    exact nomatch heq
  | ok outcome =>
    obtain ⟨i, υ, w, -, hdone, hwritten, hstore⟩ := run_useSpecAs_of_silent h houtcome
    cases hdone.symm.trans hrun
    have hrecord : τ.store.dependency id
        = { outcome.dependency with coordinate := some spec.coordinate } := by
      rw [hstore, Store.dependency_insert, hwritten.record]
    obtain ⟨part, hpart, hchoose⟩ := Store.specOutcome_ok houtcome
    constructor
    · rw [hstore, Store.entryAt?_insert, if_pos ⟨rfl, rfl⟩]
    · have hmembers : outcome.dependency.members = [] := Store.members_of_specOutcome houtcome
      unfold Dependency.isGroup
      rw [hrecord, hmembers]
      rfl
    · rw [hrecord]
    · have hu : ((w.putEntry n key (.dependency id)).dependency id).unversioned
          = some spec.coordinate.render := by
        rw [Store.dependency_putEntry, hwritten.record]
        rfl
      rw [hstore, Store.insert, Store.indexed?_putIndex, if_pos ⟨rfl, hu⟩]
    · refine ⟨part, hpart, ?_⟩
      rw [hrecord]
      -- what is settled does not depend on the coordinate
      have hsettled := Dependency.settled_of_choose hchoose
      rcases part with _ | ⟨v⟩ | ⟨r⟩ <;> exact hsettled
    · intro hnone
      rw [hrecord] at hnone
      rw [hstore]
      exact hwritten.inheritedRequirement hσ hnone
        (inheritedRequirement_of_specOutcome houtcome hnone)

/-- And using it again. -/
theorem useSpecAs_again (h : σ.Records Dependency.Silent) (hused : σ.store.UsedSpec n key spec id) :
    ∃ τ, (n.useSpecAs key spec).run σ = (.ok id, τ) ∧ σ.store.Restates id τ.store := by
  obtain ⟨outcome, houtcome, hrestates⟩ := hused.specOutcome
  obtain ⟨i, τ, w, hi, hrun, hwritten, hstore⟩ := run_useSpecAs_of_silent h houtcome
  rw [hused.ownFor?, Option.getD_some] at hi
  subst hi
  refine ⟨τ, hrun, ?_⟩
  -- the coordinate is the one that the record has
  have hlocated : { outcome.dependency with coordinate := some spec.coordinate }
      = outcome.dependency := by
    obtain ⟨requirement, hrest⟩ := hrestates.rest
    rw [hrest, ← hused.coordinate]
  rw [hlocated] at hwritten
  rw [hstore]
  refine (hwritten.restates hrestates).insert hused.entry fun u hu => ?_
  rw [hwritten.record] at hu
  have hu' : some spec.coordinate.render = some u := by
    rw [← hu, ← hlocated]
    rfl
  rw [← Option.some.inj hu']
  exact hused.indexed

/-- What using a version leaves: the key holds a record that it makes nothing else of. -/
theorem settled_of_useVersionAs (h : σ.Records Dependency.Silent)
    (hrun : (n.useVersionAs key text).run σ = (.ok id, τ)) :
    τ.store.entryAt? n key = some (.dependency id) ∧
      ∃ part, VersionText.parse text = .ok part ∧ (τ.store.dependency id).Settled (some part) := by
  unfold useVersionAs at hrun
  obtain ⟨part, υ, hparse, hrun⟩ := run_bind_eq_ok.1 hrun
  obtain ⟨hpart, rfl⟩ := Prod.mk.inj hparse
  rw [run_bind_ok (run_view _ _)] at hrun
  cases hown : σ.store.ownDependency? n key with
  -- the version goes to what the key holds
  | some held =>
    rw [hown] at hrun
    obtain ⟨_, φ, hchosen, hlast⟩ := run_bind_eq_ok.1 hrun
    cases hlast
    obtain ⟨outcome, hchoose, hwritten⟩ := exists_of_chooseOn (h _) hchosen
    refine ⟨?_, part, hpart, ?_⟩
    · rw [Store.entryAt?_of_contents hwritten.contents]
      exact Store.ownDependency?_eq_some.1 hown
    · rw [hwritten.record]
      exact Dependency.settled_of_choose hchoose
  -- it goes to a copy or a new record, which nobody listens to either, and which is stored last
  | none =>
    rw [hown] at hrun
    obtain ⟨copy, mid, hcopy, hrun⟩ := run_bind_eq_ok.1 hrun
    obtain ⟨_, φ, hchosen, hlast⟩ := run_bind_eq_ok.1 hrun
    cases hlast
    have hmid : mid.Records Dependency.Silent :=
      ((tolerates_records Dependency.robust_silent n).keeps_copyInherited
        Dependency.robust_silent key).of_run h hcopy
    obtain ⟨outcome, hchoose, hwritten⟩ := exists_of_chooseOn (hmid id) hchosen
    refine ⟨?_, part, hpart, ?_⟩
    · exact Store.entryAt?_insert_self φ.store n key id
    · show ((φ.store.insert n key id).dependency id).Settled _
      rw [Store.dependency_insert, hwritten.record]
      exact Dependency.settled_of_choose hchoose

theorem useVersionAs_again {part : VersionText} (h : σ.Records Dependency.Silent)
    (hentry : σ.store.entryAt? n key = some (.dependency id))
    (hpart : VersionText.parse text = .ok part)
    (hsettled : (σ.store.dependency id).Settled (some part)) :
    ∃ τ, (n.useVersionAs key text).run σ = (.ok id, τ) ∧ σ.store.Restates id τ.store := by
  obtain ⟨outcome, hchoose, hrestates⟩ := Dependency.choose_of_settled hsettled fun _ => rfl
  obtain ⟨τ, hrun, hwritten⟩ := run_chooseOn_of_unheard (h id) hchoose
  refine ⟨τ, ?_, hwritten.restates hrestates⟩
  unfold useVersionAs
  rw [hpart, run_bind_ok (run_ofExcept _ σ), run_bind_ok (run_view _ σ),
    Store.ownDependency?_eq_some.2 hentry]
  dsimp only
  rw [run_bind_ok hrun]
  rfl

/-- A text that has been used can be used again, on the same dependency; it changes nothing but how
the requirement of that is written. -/
theorem useTextAs_again (hσ : σ.store.Sound) (h : σ.Records Dependency.Silent)
    (hrun : (n.useTextAs key text).run σ = (.ok id, τ)) :
    τ.store.entryAt? n key = some (.dependency id) ∧
      ∃ υ, (n.useTextAs key text).run τ = (.ok id, υ) ∧ τ.store.Restates id υ.store := by
  have hrecords := tolerates_records Dependency.robust_silent n
  unfold useTextAs at hrun ⊢
  split at hrun
  · next hspec =>
    obtain ⟨spec, υ, hread, huse⟩ := run_bind_eq_ok.1 hrun
    obtain ⟨hparse, rfl⟩ := Prod.mk.inj hread
    -- nobody listens to the record that the spec is used on, so the second use tells nobody
    have hτ : τ.Records Dependency.Silent := by
      have hkept : KeepsAt _ (n.useSpecAs key spec) _ σ :=
        hrecords.keepsAt_useSpecAs Dependency.robust_silent h trivial fun _ =>
          silent_recordFor h n key spec.coordinate
      have hend := hkept.1
      rw [huse] at hend
      exact hend
    have hused := usedSpec_of_useSpecAs hσ h huse
    obtain ⟨φ, hagain, hrestates⟩ := useSpecAs_again hτ hused
    refine ⟨hused.entry, φ, ?_, hrestates⟩
    rw [if_pos hspec, run_bind_ofExcept hparse]
    exact hagain
  · next hspec =>
    have hτ : τ.Records Dependency.Silent :=
      (hrecords.keeps_useVersionAs Dependency.robust_silent key text).of_run h hrun
    obtain ⟨hentry, part, hpart, hsettled⟩ := settled_of_useVersionAs h hrun
    rw [if_neg hspec]
    exact ⟨hentry, useVersionAs_again hτ hentry hpart hsettled⟩

/-- So an assignment of a text to a name of this very namespace can be made again. -/
theorem setHere_again (hσ : σ.store.Sound) (h : σ.Records Dependency.Silent)
    (hplain : looksLikeSpec key = false) {e : Entry}
    (hrun : (n.setHere key (.text text)).run σ = (.ok e, τ)) :
    ∃ id υ, e = .dependency id ∧ (n.setHere key (.text text)).run τ = (.ok e, υ) ∧
      τ.store.Restates id υ.store := by
  obtain ⟨id, rfl, huse⟩ := exists_of_setHere_text hplain hrun
  obtain ⟨hentry, υ, hagain, hrestates⟩ := useTextAs_again hσ h huse
  refine ⟨id, υ, rfl, ?_, hrestates⟩
  rw [run_setHere_text (τ.store.assignedKey?_of_name n hplain) (by rw [hentry]; rfl) text]
  exact run_bind_ok hagain _

end Namespace

end DependencyScope
