/-
  DependencyScope.Proofs.Session.Resolution — which version a declaration ends with.

  A declaration does not select by itself: where an ancestor has selected a version of the artifact,
  that is taken over, or it takes away the default.  A spec that is used under its own name with a
  requirement is a declaration first; its version is meant to be selected then.  It is selected only
  where nothing has been selected by then: a selection that the key has, or one that is taken over,
  comes before the version that is written.

  Main definitions:
    * `Operation.Declaring` — the operations that declare one coordinate, and what they declare;
    * `Store.precedent?` — the selection that comes before the version of a spec.

  Main results:
    * `Session.resolved_of_declaring` — what a declaration comes to;
    * `Session.selected_of_useSpec` — what a spec with a requirement comes to.
-/
import DependencyScope.Proofs.Namespace.Resolve
import DependencyScope.Proofs.Session.Telling
import DependencyScope.Proofs.Session.Tree

namespace DependencyScope

open DependencyScope.Action

/-! ## §1. Declarations. -/

/-- A written version is the default of what is declared with a requirement. -/
theorem NeedSpec.declaration_of_version {need : NeedSpec} {v r : String} {version : Version}
    {requirement : Requirement} (hv : need.spec.version = some v)
    (hversion : Version.ofText? v = some version) (hr : need.requirement = some r)
    (hrequirement : Requirement.parse r = .ok requirement) :
    need.declaration = .ok ⟨some requirement, some version.text⟩ := by
  unfold NeedSpec.declaration Declaration.make
  rw [hv, hr]
  dsimp only
  rw [hrequirement]
  dsimp only [bind, Except.bind]
  rw [hversion]
  rfl

/-- The operation declares a coordinate under a key of `n`: by a need spec, by a spec and a
requirement, or as another dependency has it, with the version of that as the default. -/
inductive Operation.Declaring (σ : Session) (n : Namespace) :
    Operation → String → Coordinate → Declaration → Prop where
  | need {text : String} {need : NeedSpec} {declaration : Declaration} :
      NeedSpec.parse text = .ok need → need.declaration = .ok declaration →
      Declaring σ n (.need n text) need.key need.spec.coordinate declaration
  | text {key text : String} {need : NeedSpec} {declaration : Declaration} :
      NeedSpec.parse text = .ok need → need.declaration = .ok declaration →
      Declaring σ n (.needAs n key (.text text)) key need.spec.coordinate declaration
  | dependency {key : String} {source : DependencyId} {c : Coordinate} :
      (σ.store.dependency source).coordinate = some c →
      Declaring σ n (.needAs n key (.dependency source)) key c
        ⟨(σ.store.dependency source).requirement, (σ.store.dependency source).version⟩
  | key {key other : String} {source : DependencyId} {c : Coordinate} :
      (n.lookupDependency other).answer σ.store = some source →
      (σ.store.dependency source).coordinate = some c →
      Declaring σ n (.needAs n key (.key other)) key c
        ⟨(σ.store.dependency source).requirement, (σ.store.dependency source).version⟩
  | require {key text : String} {requirement : Option String} {spec : Spec}
      {declaration : Declaration} :
      Spec.parse text = .ok spec → Declaration.make spec.version requirement = .ok declaration →
      Declaring σ n (.require n key text requirement) key spec.coordinate declaration

namespace Namespace

variable {σ τ : Session} {n m : Namespace} {key k : String} {c : Coordinate}

theorem run_needCopy {source : DependencyId} (hc : (σ.store.dependency source).coordinate = some c)
    (n : Namespace) (key : String) :
    (n.needCopy key source).run σ = (n.declareAs key c
      ⟨(σ.store.dependency source).requirement, (σ.store.dependency source).version⟩).run σ := by
  unfold needCopy
  rw [run_bind_ok (run_view _ σ), hc]

/-- Whatever declares a coordinate does it where its key leads. -/
theorem exists_declareAs {operation : Operation} {declaration : Declaration}
    (h : operation.Declaring σ n key c declaration) (hland : σ.store.landing n key = (m, k))
    {reply : Reply} (hrun : (perform operation).run σ = (.ok reply, τ)) :
    ∃ υ id, σ.Alike υ ∧ reply = .dependency id ∧
      (m.declareAs k c declaration).run υ = (.ok id, τ) := by
  cases h with
  | need hparse hdeclaration =>
    obtain ⟨id, hneed, rfl⟩ := exists_of_return hrun
    unfold Namespace.need at hneed
    rw [run_bind_ofExcept hparse, run_bind_ofExcept hdeclaration, run_bind_ok (run_view _ σ),
      hland] at hneed
    exact ⟨σ, id, .refl σ, rfl, hneed⟩
  | text hparse hdeclaration =>
    obtain ⟨id, hneed, rfl⟩ := exists_of_return hrun
    unfold needAs at hneed
    rw [run_bind_ok (run_view _ σ), hland] at hneed
    dsimp only at hneed
    rw [run_bind_ofExcept hparse, run_bind_ofExcept hdeclaration] at hneed
    exact ⟨σ, id, .refl σ, rfl, hneed⟩
  | dependency hc =>
    obtain ⟨id, hneed, rfl⟩ := exists_of_return hrun
    unfold needAs at hneed
    rw [run_bind_ok (run_view _ σ), hland] at hneed
    exact ⟨σ, id, .refl σ, rfl, (run_needCopy hc m k).symm.trans hneed⟩
  | @key _ other source _ hsource hc =>
    obtain ⟨id, hneed, rfl⟩ := exists_of_return hrun
    unfold needAs at hneed
    rw [run_bind_ok (run_view _ σ), hland] at hneed
    dsimp only at hneed
    rw [run_bind_ok (run_read _ σ), hsource] at hneed
    -- the look-up has listed the names that it met, and done nothing else
    let asked : Session :=
      { σ with listed := (n.lookupDependency other).listing σ }
    exact ⟨asked, id, ⟨_, rfl⟩, rfl, (run_needCopy (σ := asked) hc m k).symm.trans hneed⟩
  | require hparse hdeclaration =>
    obtain ⟨id, hneed, rfl⟩ := exists_of_return hrun
    unfold Namespace.require at hneed
    rw [run_bind_ofExcept hparse, run_bind_ofExcept hdeclaration, run_bind_ok (run_view _ σ),
      hland] at hneed
    exact ⟨σ, id, .refl σ, rfl, hneed⟩

end Namespace

namespace Session

variable {σ τ : Session} {n m : Namespace} {key k : String} {c : Coordinate}
  {followsProjects : Bool}

/-- Without listeners, what is declared where nothing is selected ends with the version of the
nearest ancestor that has selected one, if the requirement accepts it; with no version at all, if it
does not; and unselected with its default where no ancestor has a selection.  Nothing but the
namespace that is written to and the dependency that is returned has changed. -/
theorem resolved_of_declaring (h : Reached followsProjects σ)
    (hsilent : σ.Records Dependency.Silent) {operation : Operation} {declaration : Declaration}
    (hdeclaring : operation.Declaring σ n key c declaration)
    (hland : σ.store.landing n key = (m, k))
    (hunselected : ∀ i, σ.store.ownDependency? m k = some i → σ.store.isSelected i = false)
    {reply : Reply} (hrun : (perform operation).run σ = (.ok reply, τ)) :
    ∃ id, reply = .dependency id ∧ τ.store.entryAt? m k = some (.dependency id) ∧
      (τ.store.dependency id).Resolves c declaration (σ.store.nearestSelection? m c) ∧
      (∀ x, x ≠ m → τ.store.contentsOf x = σ.store.contentsOf x) ∧
      m ∉ m.ancestors.answer σ.store ∧
      ∀ j, j ≠ id → τ.store.dependency j = σ.store.dependency j := by
  obtain ⟨_, id, ⟨names, rfl⟩, rfl, hdeclare⟩ := Namespace.exists_declareAs hdeclaring hland hrun
  obtain ⟨-, -, hholding, -⟩ := Namespace.leaves_declareAs (σ := { σ with listed := names })
    h.sound (fun _ => hsilent) k c declaration id τ hdeclare
  -- whatever record is declared on, it has no selection
  have hfree : (σ.store.recordFor m k c).selected = none := by
    unfold Store.recordFor
    split
    · next own hown =>
      have hown' := hunselected own (Store.ownDependency?_of_ownFor? hown)
      rw [Store.isSelected_of_single (Store.members_of_ownFor? hown)] at hown'
      simpa using hown'
    · rfl
  refine ⟨id, rfl, hholding.entry, ?_, hholding.contents, (ancestors_chain h m).2.2.1,
    hholding.others⟩
  rw [hholding.record]
  exact Dependency.resolves_declaring_under hfree c declaration _

/-- A session in which the root has selected version 1. -/
def pinned : Session :=
  (start true).after (.set (.registered rootName 0) "k" (.text "g:i:t:1"))

theorem reached_pinned : Reached true pinned := .after .start trivial

/-- A requirement that rejects that version. -/
theorem exists_later : ∃ requirement, Requirement.parse ">=2" = .ok requirement ∧
    (Version.ofText? "1").map requirement.accepts = some false := by
  have hrejects : (Requirement.parse ">=2").toOption.bind
      (fun requirement => (Version.ofText? "1").map requirement.accepts) = some false := by
    decide +kernel
  obtain ⟨requirement, hparse, hmap⟩ := Option.bind_eq_some_iff.1 hrejects
  refine ⟨requirement, ?_, hmap⟩
  cases h : Requirement.parse ">=2" with
  | ok parsed =>
    rw [h] at hparse
    cases hparse
    rfl
  | error e =>
    rw [h] at hparse
    exact nomatch hparse

/-- A namespace below the root that demands a later version ends without any. -/
theorem resolved_of_declaring_later :
    let a : Namespace := .registered "a" 0
    ∃ id τ, (perform (.need a "k -> g:i:t:3 -> >=2")).run pinned = (.ok (.dependency id), τ) ∧
      (pinned.store.nearestSelection? a ⟨"g", "i", "t", none⟩).map Version.text = some "1" ∧
      τ.store.entryAt? a "k" = some (.dependency id) ∧
      (τ.store.dependency id).selected = none ∧ (τ.store.dependency id).version = none ∧
      τ.store.contentsOf (.registered rootName 0)
        = pinned.store.contentsOf (.registered rootName 0) := by
  intro a
  let need : NeedSpec := ⟨some "k", ⟨⟨"g", "i", "t", none⟩, some "3"⟩, some ">=2"⟩
  let one : Version := ⟨"1", by decide +kernel⟩
  let three : Version := ⟨"3", by decide +kernel⟩
  obtain ⟨requirement, hrequirement, hrejects⟩ := exists_later
  have hdeclaration : need.declaration = .ok ⟨some requirement, some three.text⟩ :=
    NeedSpec.declaration_of_version rfl (by decide +kernel) rfl hrequirement
  have hsilent : pinned.Records Dependency.Silent :=
    silent_after (fun _ => rfl) (.set (n := .registered rootName 0) "k" _)
  have hone : Version.ofText? "1" = some one := by decide +kernel
  have hnearest : pinned.store.nearestSelection? a need.spec.coordinate = some one := by
    decide +kernel
  have hsucceeds : ((a.need "k -> g:i:t:3 -> >=2").run pinned).1.toOption.isSome := by
    decide +kernel
  obtain ⟨i, τ, hneed⟩ := exists_of_isSome hsucceeds
  have hrun : (perform (.need a "k -> g:i:t:3 -> >=2")).run pinned = (.ok (.dependency i), τ) :=
    run_bind_ok hneed _
  have hfree : pinned.store.ownDependency? a "k" = none := by decide +kernel
  have hland : pinned.store.landing a need.key = (a, "k") := by decide +kernel
  obtain ⟨id, hreply, hentry, hresolves, hcontents, -, -⟩ := resolved_of_declaring reached_pinned
    hsilent (.need rfl hdeclaration) hland (by simp [hfree]) hrun
  cases hreply
  rw [hone] at hrejects
  have hcleared := hresolves.cleared one requirement hnearest rfl (Option.some.inj hrejects)
  exact ⟨_, τ, hrun, by rw [hnearest]; rfl, hentry, hcleared.1, hcleared.2,
    hcontents _ (by decide)⟩

end Session

/-! ## §2. Specs under their own names. -/

/-- The selection that a declaration under the key comes to, if any: that of the record that the key
holds for the coordinate, or else that of the nearest ancestor, if the requirement accepts it. -/
def Store.precedent? (s : Store) (n : Namespace) (key : String) (c : Coordinate)
    (requirement : Requirement) : Option Version :=
  (s.recordFor n key c).selected.or ((s.nearestSelection? n c).filter requirement.accepts)

namespace Namespace

variable {σ τ : Session} {n m : Namespace} {k text v r : String} {need : NeedSpec}
  {version : Version} {requirement : Requirement}

/-- A spec with a version and a requirement is declared, and its version is selected if nothing is
by then. -/
theorem leaves_ownUse (hσ : σ.store.Sound) (h : σ.Hushed) (hparse : NeedSpec.parse text = .ok need)
    (hv : need.spec.version = some v) (hversion : Version.ofText? v = some version)
    (hr : need.requirement = some r) (hrequirement : Requirement.parse r = .ok requirement)
    (hland : σ.store.landing n need.key = (m, k)) :
    Leaves (n.ownUse text) (fun id τ => ∃ d, σ.store.Holding m k id d τ.store ∧
      d.requirement = some requirement ∧ d.Consistent ∧ d.selected
        = some ((σ.store.precedent? m k need.spec.coordinate requirement).getD version)) σ := by
  have hdeclaration := NeedSpec.declaration_of_version hv hversion hr hrequirement
  unfold ownUse
  refine .bind_ok (congrArg (·, σ) hparse) (.bind_ok (run_view _ σ) ?_)
  rw [hland]
  refine leaves_ensureNoSub ?_
  rw [if_neg (by simp [hr])]
  refine .bind_ok (congrArg (·, σ) hdeclaration) (.bind fun id mid hdeclare => ?_)
  obtain ⟨-, hconsistent, hholding, hhushed⟩ :=
    leaves_declareAs hσ h k need.spec.coordinate _ id mid hdeclare
  set d := (σ.store.recordFor m k need.spec.coordinate).declaring need.spec.coordinate
    ⟨some requirement, some version.text⟩
  obtain ⟨default, selected, hrest⟩ :=
    d.under_spec (σ.store.nearestSelection? m need.spec.coordinate)
  have hrecord := hholding.record
  -- a record that declarations are for is no group, so that its own selection decides
  have hsingle : (mid.store.dependency id).members = [] := by
    rw [hrecord, hrest]
    exact Store.members_recordFor _ _ _ _
  refine .bind fun _ υ hdefault => ?_
  obtain ⟨hwritten, hdefaulting⟩ := leaves_selectDefault hhushed hsingle version () υ hdefault
  rw [hrecord] at hwritten hdefaulting
  intro i φ hreturn
  cases hreturn
  refine ⟨_, hholding.written hwritten, ?_, hdefaulting hconsistent, ?_⟩
  · rw [Dependency.defaulting, hrest]
    rfl
  · rw [Dependency.selected_defaulting, Dependency.selected_under]
    rfl

end Namespace

namespace Session

/-- A spec with a version and a requirement, used under its own name, ends with the requirement and
with a version that it accepts, under its key.  The version is the one that is written exactly if no
other one comes before it. -/
theorem selected_of_useSpec (h : Reached followsProjects σ) {text v r : String} {need : NeedSpec}
    {version : Version} {requirement : Requirement} (hparse : NeedSpec.parse text = .ok need)
    (hv : need.spec.version = some v) (hversion : Version.ofText? v = some version)
    (hr : need.requirement = some r) (hrequirement : Requirement.parse r = .ok requirement)
    (hland : σ.store.landing n need.key = (m, k)) {reply : Reply}
    (hrun : (perform (.useSpec n text)).run σ = (.ok reply, τ)) :
    ∃ id, reply = .dependency id ∧ τ.store.entryAt? m k = some (.dependency id) ∧
      (τ.store.dependency id).requirement = some requirement ∧
      (∀ w, (τ.store.dependency id).selected = some w → requirement.accepts w = true) ∧
      (τ.store.dependency id).selected
        = some ((σ.store.precedent? m k need.spec.coordinate requirement).getD version) ∧
      ((τ.store.dependency id).selected = some version ↔
        ∀ u, σ.store.precedent? m k need.spec.coordinate requirement = some u → u = version) := by
  have hwaiting := h.waiting
  obtain ⟨id, huse, rfl⟩ := exists_of_return hrun
  rw [Namespace.useSpec_eq] at huse
  obtain ⟨mid, hrestoring, hτ⟩ := exists_of_deferring_success huse
  have hown := run_of_restoring_ok hrestoring
  obtain ⟨d, hholding, hrequired, hconsistent, hselected⟩ :=
    Namespace.leaves_ownUse (σ := held σ) h.sound (.of_waiting rfl) hparse hv hversion hr
      hrequirement hland id mid hown
  -- the batch has noted no selection but that of the dependency
  have hnoted := ((Namespace.noted_ownUse (σ := held σ) h.sound rfl text).1 id mid hown []
    (by rw [held, hwaiting]; rfl)).1
  have hids : ∀ i ∈ mid.waiting.getD [], i = id := by
    rw [hnoted]
    intro i hi
    split at hi <;> simp_all
  rw [hwaiting, if_neg (by simp)] at hτ
  have htold : mid.store.Reselected τ.store := by
    rw [hτ]
    exact .foldl_fire _ { mid with waiting := none }
  rw [← hholding.record] at hrequired hconsistent hselected
  have hrequirement' : (τ.store.dependency id).requirement = some requirement := by
    obtain ⟨selected, hrest⟩ := (htold.records id).rest
    rw [hrest]
    exact hrequired
  have hselected' : (τ.store.dependency id).selected
      = some ((σ.store.precedent? m k need.spec.coordinate requirement).getD version) := by
    rw [hτ]
    exact selected_foldl_fire (σ := { mid with waiting := none }) hids hselected
  refine ⟨id, rfl, ?_, hrequirement', fun w hw => ?_, hselected', ?_⟩
  · rw [Store.entryAt?, Store.contentsOf, htold.contents]
    exact hholding.entry
  · exact (htold.records id).consistent hconsistent _ _ hrequirement' hw
  · rw [hselected']
    cases σ.store.precedent? m k need.spec.coordinate requirement <;> simp

/-- The version of the root is rejected, so that the written one is selected. -/
theorem selected_of_useSpec_later :
    let a : Namespace := .registered "a" 0
    ∃ id τ, (perform (.useSpec a "k -> g:i:t:3 -> >=2")).run pinned = (.ok (.dependency id), τ) ∧
      (pinned.store.nearestSelection? a ⟨"g", "i", "t", none⟩).map Version.text = some "1" ∧
      τ.store.entryAt? a "k" = some (.dependency id) ∧
      (τ.store.dependency id).selectedText = some "3" ∧
      (τ.store.dependency id).isSatisfied = true := by
  intro a
  let need : NeedSpec := ⟨some "k", ⟨⟨"g", "i", "t", none⟩, some "3"⟩, some ">=2"⟩
  let one : Version := ⟨"1", by decide +kernel⟩
  let three : Version := ⟨"3", by decide +kernel⟩
  obtain ⟨requirement, hrequirement, hrejects⟩ := exists_later
  have hone : Version.ofText? "1" = some one := by decide +kernel
  rw [hone] at hrejects
  have hnearest : pinned.store.nearestSelection? a need.spec.coordinate = some one := by
    decide +kernel
  have hfree : (pinned.store.recordFor a "k" need.spec.coordinate).selected = none := by
    decide +kernel
  have hnone : pinned.store.precedent? a "k" need.spec.coordinate requirement = none := by
    unfold Store.precedent?
    rw [hfree, hnearest, Option.none_or, Option.filter, Option.some.inj hrejects]
    rfl
  have hsucceeds : ((a.useSpec "k -> g:i:t:3 -> >=2").run pinned).1.toOption.isSome := by
    decide +kernel
  obtain ⟨i, τ, huse⟩ := exists_of_isSome hsucceeds
  have hrun : (perform (.useSpec a "k -> g:i:t:3 -> >=2")).run pinned = (.ok (.dependency i), τ) :=
    run_bind_ok huse _
  have hland : pinned.store.landing a need.key = (a, "k") := by decide +kernel
  have hparse : NeedSpec.parse "k -> g:i:t:3 -> >=2" = .ok need := rfl
  have hversion : Version.ofText? "3" = some three := by decide +kernel
  obtain ⟨id, hreply, hentry, hrequired, haccepts, -, hiff⟩ :=
    selected_of_useSpec reached_pinned hparse rfl hversion rfl hrequirement hland hrun
  cases hreply
  have hselected := hiff.2 (by simp [hnone])
  refine ⟨_, τ, hrun, by rw [hnearest]; rfl, hentry, ?_, ?_⟩
  · rw [Dependency.selectedText, hselected]
    rfl
  · rw [Dependency.isSatisfied, hrequired, hselected]
    exact haccepts three hselected

/-- Where it is accepted, it is taken over, and the written version is not selected; nor is it where
the key has a selection already. -/
theorem not_selected_of_useSpec :
    let root : Namespace := .registered rootName 0
    let a : Namespace := .registered "a" 0
    Reached true pinned ∧
      (NeedSpec.parse "k -> g:i:t:2 -> >=1").toOption.bind (·.spec.version) = some "2" ∧
      (NeedSpec.parse "k -> g:i:t:2 -> >=1").toOption.bind (·.requirement) = some ">=1" ∧
      (Version.ofText? "2").isSome ∧
      ((a.useSpec "k -> g:i:t:2 -> >=1").run pinned).1.toOption = some 1 ∧
      ((pinned.after (.useSpec a "k -> g:i:t:2 -> >=1")).store.dependency 1).selectedText
        = some "1" ∧
      ((root.useSpec "k -> g:i:t:2 -> >=1").run pinned).1.toOption = some 0 ∧
      ((pinned.after (.useSpec root "k -> g:i:t:2 -> >=1")).store.dependency 0).selectedText
        = some "1" := by
  intro root a
  exact ⟨reached_pinned, by decide +kernel, by decide +kernel, by decide +kernel, by decide +kernel,
    by decide +kernel, by decide +kernel, by decide +kernel⟩

end Session

end DependencyScope
