/-
  DependencyScope.Proofs.Session.SpecUse — the specs that an operation uses, and what that breaks.

  Several operations use specs: assignments, batches of them, profiles, and specs under their own
  name.  What an operation uses depends on what it has done before, so the uses are listed along its
  run, each with the session in which it happens.

  A use is *unchecked* if the spec has no version, the dependency of its key has a selection but no
  requirement, and the requirement that it inherits rejects the selection.

  Main definitions:
    * `SpecUse`, `SpecUse.Unchecked`;
    * `Operation.specUses`, `Session.specUses` — the uses of an operation and of a whole run.

  Main results:
    * `SpecUse.consistent_after_iff` — a use breaks consistency exactly if it is unchecked.
-/
import DependencyScope.Proofs.Namespace.Declare
import DependencyScope.Proofs.Session.Listeners
import DependencyScope.Proofs.Session.Run

namespace DependencyScope

open DependencyScope.Text DependencyScope.Action

/-! ## §1. One use. -/

/-- The use of a spec under a key of a namespace, in a session. -/
structure SpecUse where
  session : Session
  target : Namespace
  key : String
  spec : Spec

namespace SpecUse

/-- The session after the use. -/
def after (u : SpecUse) : Session := ((u.target.useSpecAs u.key u.spec).run u.session).2

/-- The record that the spec is used on. -/
def record (u : SpecUse) : Dependency :=
  u.session.store.recordFor u.target u.key u.spec.coordinate

/-- The inherited requirement, if the record declares none itself. -/
def inherited (u : SpecUse) : Option Requirement :=
  u.session.store.requirementBeyond u.target u.key u.spec.coordinate

/-- The spec brings no version, and the record takes over a requirement that rejects its
selection. -/
def Unchecked (u : SpecUse) : Prop := u.spec.version = none ∧ u.record.RejectedBy u.inherited

/-- The record keeps the property `D` when the spec is used, as far as versions are not looked at. -/
def Bears (u : SpecUse) (D : Dependency → Prop) : Prop :=
  u.spec.version = none → D u.record → D (u.record.inheriting u.inherited)

/-- What lasts is kept by a use that bears it. -/
theorem keepsAt {A : Declaration → Prop} {C : Coordinate → Prop} {D : Dependency → Prop}
    (hD : Dependency.Robust A C D) {u : SpecUse} (hσ : u.session.Records D)
    (hC : C u.spec.coordinate) (h : u.Bears D) :
    KeepsAt (Session.Records D) (u.target.useSpecAs u.key u.spec) (fun _ => True) u.session := by
  have htolerates := tolerates_records hD u.target
  exact htolerates.keepsAt_useSpecAs hD hσ hC fun hversion =>
    h hversion (htolerates.recordFor hD hσ u.key hC)

theorem bears_consistent {u : SpecUse} (h : ¬u.Unchecked) : u.Bears Dependency.Consistent :=
  fun hversion hrecord => (Dependency.inheriting_consistent_iff hrecord u.inherited).2
    fun hrejected => h ⟨hversion, hrejected⟩

/-- A record with a selection is that of a dependency which the key already holds. -/
theorem ownFor?_of_rejected {u : SpecUse} (h : u.record.RejectedBy u.inherited) :
    ∃ id, u.session.store.ownFor? u.target u.key u.spec.coordinate = some id
      ∧ u.record = u.session.store.dependency id := by
  obtain ⟨-, r, v, -, hselected, -⟩ := h
  unfold record Store.recordFor at hselected ⊢
  cases hown : u.session.store.ownFor? u.target u.key u.spec.coordinate with
  | some id => exact ⟨id, rfl, rfl⟩
  | none =>
    rw [hown] at hselected
    exact nomatch hselected

/-- An unchecked use succeeds, and what it writes is the record with the inherited requirement. -/
theorem specOutcome_of_unchecked {u : SpecUse} (h : u.Unchecked) :
    u.session.store.specOutcome u.target u.key u.spec
      = .ok ⟨u.record.inheriting u.inherited, false⟩ := by
  obtain ⟨hversion, hrejected⟩ := h
  obtain ⟨id, hown, hrecord⟩ := ownFor?_of_rejected hrejected
  have hcheck : u.session.store.checkCoordinate u.target u.key u.spec = .ok () := by
    have hsingle : u.session.store.ownSingle? u.target u.key = some id := by
      unfold Store.ownFor? at hown
      exact (Option.filter_eq_some_iff.1 hown).1
    have hnone : (u.session.store.dependency id).requirement = none := hrecord ▸ hrejected.1
    unfold Store.checkCoordinate
    rw [hsingle]
    dsimp only
    unfold Dependency.checkCoordinate
    rw [hnone]
    cases (u.session.store.dependency id).coordinate <;> rfl
  unfold Store.specOutcome
  rw [hversion, hcheck]
  rfl

/-- Writing an outcome that selects nothing gives the dependency its record. -/
theorem dependency_putOutcome {n : Namespace} {key : String} {coordinate : Coordinate}
    {id : DependencyId} {d d' : Dependency} (σ : Session) :
    ((n.putOutcome key coordinate (some id) d ⟨d', false⟩).run σ).2.store.dependency id
      = { d' with coordinate := some coordinate } := by
  show ((((σ.store.putDependency id d').putDependency id
    { (σ.store.putDependency id d').dependency id with coordinate := some coordinate })).insert n key
      id).dependency id = _
  simp

/-- A use breaks consistency exactly if it is unchecked. -/
theorem consistent_after_iff {u : SpecUse} (hσ : u.session.Consistent) :
    u.after.Consistent ↔ ¬u.Unchecked := by
  constructor
  · intro hafter hunchecked
    -- the use succeeds, and the record that it writes is the one that is not consistent
    obtain ⟨id, hown, hrecord⟩ := ownFor?_of_rejected hunchecked.2
    obtain ⟨τ, -, hrun⟩ := u.target.run_useSpecAs u.key u.spec u.session
    rw [specOutcome_of_unchecked hunchecked, hown] at hrun
    have hwritten : u.after.store.dependency id
        = { u.record.inheriting u.inherited with coordinate := some u.spec.coordinate } := by
      unfold after
      rw [hrun]
      exact dependency_putOutcome τ
    have hinheriting : (u.record.inheriting u.inherited).Consistent := by
      have hconsistent := hafter id
      rw [hwritten] at hconsistent
      exact hconsistent
    have hbefore : u.record.Consistent := hrecord ▸ hσ id
    exact (Dependency.inheriting_consistent_iff hbefore u.inherited).1 hinheriting hunchecked.2
  · exact fun h => (keepsAt Dependency.lasting_consistent.toRobust hσ trivial (bears_consistent h)).1

end SpecUse

/-! ## §2. The uses of an operation. -/

namespace Namespace

/-- The use of a spec that an assignment comes to, if it comes to one. -/
def specUse? (n : Namespace) (key : String) (value : Value) (σ : Session) : Option SpecUse :=
  let place := σ.store.landing n key
  (σ.store.specUse? place.1 place.2 value).map fun use => ⟨σ, place.1, use.1, use.2⟩

/-- The uses of several assignments, as far as they are carried out. -/
def specUses (n : Namespace) : List (String × Value) → Session → List SpecUse
  | [], _ => []
  | (key, value) :: rest, σ =>
    (n.specUse? key value σ).toList ++
      match (n.set key value).run σ with
      | (.ok _, τ) => n.specUses rest τ
      | (.error _, _) => []

/-- The uses of several assignments in a sub-namespace that is opened for them. -/
def openSubUses (n : Namespace) (key : String) (pairs : List (String × Value)) (σ : Session) :
    List SpecUse :=
  match (n.openSub key).run σ with
  | (.ok sub, τ) => sub.specUses pairs (held τ)
  | (.error _, _) => []

/-- The use that a spec under its own name comes to, if it declares no requirement. -/
def ownSpecUse? (n : Namespace) (text : String) (σ : Session) : Option SpecUse :=
  match NeedSpec.parse text with
  | .error _ => none
  | .ok need =>
    let place := σ.store.landing n need.key
    if need.requirement.isNone && ((σ.store.entryAt? place.1 place.2).bind Entry.sub?).isNone then
      some ⟨σ, place.1, place.2, need.spec⟩
    else none

end Namespace

/-- The uses of the tables of a profile, as far as they are applied. -/
def Registry.specUses : List (String × Std.TreeMap String ProfileValue) → Session → List SpecUse
  | [], _ => []
  | (name, table) :: rest, σ =>
    let n := (Namespace.ofKey (.ofText name)).answer σ.store
    n.specUses (assignments table) ((Action.read (Namespace.ofKey (.ofText name))).run σ).2 ++
      match (applyTable name table).run σ with
      | (.ok _, τ) => Registry.specUses rest τ
      | (.error _, _) => []

/-- The uses of an operation. -/
def Operation.specUses (σ : Session) : Operation → List SpecUse
  | .set n key value => (n.specUse? key value σ).toList
  | .useSpec n text => (n.ownSpecUse? text (held σ)).toList
  | .useAll n pairs => n.specUses pairs (held σ)
  | .openSubUsing n key pairs => n.openSubUses key pairs σ
  | .load profile => Registry.specUses profile.artifacts.toList (held σ)
  | _ => []

/-- The uses of a run of operations. -/
def Session.specUses : List Operation → Session → List SpecUse
  | [], _ => []
  | operation :: rest, σ => operation.specUses σ ++ Session.specUses rest (σ.after operation)

end DependencyScope
