/-
  DependencyScope.Proofs.Store.Consistent — requirements and the versions selected under them.

  A dependency is consistent if its requirement, where it has one, accepts its selection, where it
  has one.  Selecting and declaring look at both.  One step does not: a spec without a version puts
  an inherited requirement onto a record without a look at the selection that is there.

  Main definitions:
    * `Dependency.Consistent` — the requirement accepts the selection;
    * `Store.Records`, `Store.Consistent` — what every record of a store has.

  Main results:
    * `Dependency.inheriting_consistent_iff` — when that step breaks consistency;
    * `Dependency.lasting_consistent` — no other step does;
    * `Store.Records.restore` — neither does undoing a batch.
-/
import DependencyScope.Proofs.Session.Writes
import DependencyScope.Proofs.Version.Text

namespace DependencyScope

/-! ## §1. Records. -/

namespace Dependency

/-- The requirement of a dependency accepts its selected version. -/
def Consistent (d : Dependency) : Prop :=
  ∀ r v, d.requirement = some r → d.selected = some v → r.accepts v = true

theorem consistent_iff_isSatisfied (d : Dependency) :
    d.Consistent ↔ (d.requirement.isSome → d.selected.isSome → d.isSatisfied = true) := by
  unfold Consistent isSatisfied
  cases d.requirement <;> cases d.selected <;> simp

theorem consistent_of_unselected {d : Dependency} (h : d.selected = none) : d.Consistent := by
  intro r v _ hv
  rw [h] at hv
  exact nomatch hv

theorem version_of_selected {d : Dependency} {v : Version} (h : d.selected = some v) :
    d.version = some v.text := by
  unfold version selectedText
  rw [h]
  rfl

theorem version_of_unselected {d : Dependency} (h : d.selected = none) :
    d.version = d.defaultVersion := by
  unfold version selectedText
  rw [h]
  rfl

theorem accepts_of_check {d : Dependency} {requirement : Option Requirement} {text : String}
    {v : Version} (h : d.check requirement text = .ok v) :
    ∀ r, requirement = some r → r.accepts v = true := by
  rintro r rfl
  unfold check at h
  split at h
  · exact nomatch h
  · dsimp only at h
    split at h
    · next haccepts =>
      cases h
      exact haccepts
    · exact nomatch h

/-- The text of a version is read as that version. -/
theorem check_text (d : Dependency) (r : Requirement) (v : Version) :
    d.check (some r) v.text
      = if r.accepts v then .ok v
        else .error (.unsatisfied d.key (d.specWith v.text) r.source) := by
  unfold check
  rw [Version.parse_text]

/-- What a check of the text of a version gives is that version. -/
theorem eq_of_check {d : Dependency} {requirement : Option Requirement} {v w : Version}
    (h : d.check requirement v.text = .ok w) : w = v := by
  unfold check at h
  rw [Version.parse_text] at h
  dsimp only at h
  split at h
  · cases h
    rfl
  · split at h
    · cases h
      rfl
    · exact nomatch h

/-- What is selected was checked against the requirement. -/
theorem consistent_of_select {d d' : Dependency} {text : String} (h : d.select text = .ok d') :
    d'.Consistent := by
  unfold select at h
  obtain ⟨version, hcheck, rfl⟩ := map_eq_ok.1 h
  intro r v hr hv
  cases hv
  exact accepts_of_check hcheck r hr

/-- What is declared was checked against the selection. -/
theorem consistent_of_declare {d d' : Dependency} {declaration : Declaration}
    (h : d.declare declaration = .ok d') : d'.Consistent := by
  unfold declare at h
  dsimp only at h
  split at h
  · next requirement version hrequirement hselected =>
    obtain ⟨checked, hcheck, rfl⟩ := map_eq_ok.1 h
    -- the check reads the version anew, and finds the selected one
    rw [check_text] at hcheck
    split at hcheck
    · next haccepts =>
      intro r v hr hv
      rw [hrequirement] at hr
      rw [hselected] at hv
      cases hr
      cases hv
      exact haccepts
    · exact nomatch hcheck
  · next hother =>
    cases h
    intro r v hr hv
    exact (hother r v hr hv).elim

/-- Declares a narrowed requirement, and selects the version that it suggests. -/
def narrowTo (d : Dependency) (narrowed : Requirement) (default : Option String) :
    Except Error Outcome :=
  match default with
  | some text =>
    (d.check (some narrowed) text).map fun version =>
      ⟨{ d with
          requirement := some narrowed
          defaultVersion := some text
          selected := some version }, true⟩
  | none => (d.declare ⟨some narrowed, none⟩).map (⟨·, false⟩)

/-- A requirement meets the one in effect, if there is one. -/
theorem choose_constraint (d : Dependency) (inherited : Option Requirement) (r : Requirement) :
    d.choose inherited (some (.constraint r))
      = d.narrowTo ((d.requirement.or inherited).elim r (·.intersect r)) r.default? := by
  unfold choose narrowTo
  cases d.requirement.or inherited <;> rfl

/-- A requirement that is narrowed is checked with the version that it suggests, or declared. -/
theorem consistent_of_narrowTo {d : Dependency} {narrowed : Requirement} {default : Option String}
    {outcome : Outcome} (h : d.narrowTo narrowed default = .ok outcome) :
    outcome.dependency.Consistent := by
  cases default with
  | some text =>
    obtain ⟨checked, hcheck, rfl⟩ := map_eq_ok.1 h
    intro r v hr hv
    cases hr
    cases hv
    exact accepts_of_check hcheck narrowed rfl
  | none =>
    obtain ⟨declared, hdeclare, rfl⟩ := map_eq_ok.1 h
    exact consistent_of_declare hdeclare

/-- A version part that is there is checked against the effective requirement. -/
theorem consistent_of_choose {d : Dependency} {inherited : Option Requirement}
    {version : VersionText} {outcome : Outcome}
    (h : d.choose inherited (some version) = .ok outcome) : outcome.dependency.Consistent := by
  cases version with
  | plain version =>
    unfold choose at h
    obtain ⟨checked, hcheck, rfl⟩ := map_eq_ok.1 h
    -- the record keeps its own requirement, or takes over the inherited one that was checked
    intro r v hr hv
    cases hv
    exact accepts_of_check hcheck r hr
  | constraint requirement =>
    rw [choose_constraint] at h
    exact consistent_of_narrowTo h

/-- A record has a selection, no requirement of its own, and an inherited one that rejects the
selection. -/
def RejectedBy (d : Dependency) (inherited : Option Requirement) : Prop :=
  d.requirement = none ∧ ∃ r v, inherited = some r ∧ d.selected = some v ∧ r.accepts v = false

/-- Taking over a requirement breaks consistency exactly if that rejects the selection. -/
theorem inheriting_consistent_iff {d : Dependency} (h : d.Consistent)
    (inherited : Option Requirement) :
    (d.inheriting inherited).Consistent ↔ ¬d.RejectedBy inherited := by
  constructor
  · rintro hconsistent ⟨hnone, r, v, hinherited, hselected, hrejects⟩
    have hrequirement : (d.inheriting inherited).requirement = some r := by
      simp [inheriting, hnone, hinherited]
    have haccepts := hconsistent r v hrequirement hselected
    rw [hrejects] at haccepts
    exact nomatch haccepts
  · intro hnot r v hr hv
    cases hrequirement : d.requirement with
    | some own =>
      have hown : d.requirement = some r := by
        simpa [inheriting, hrequirement] using hr
      exact h r v hown hv
    | none =>
      have hinherited : inherited = some r := by simpa [inheriting, hrequirement] using hr
      cases haccepts : r.accepts v with
      | true => rfl
      | false => exact (hnot ⟨hrequirement, r, v, hinherited, hv, haccepts⟩).elim

theorem lasting_consistent : Lasting (fun _ => True) (fun _ => True) Consistent where
  declared _ _ _ _ _ := consistent_of_unselected rfl
  group _ _ := consistent_of_unselected rfl
  copied _ _ _ h := h
  located _ _ h := h
  listening _ h := h
  undefaulted h := h
  selected _ h := consistent_of_select h
  declares _ _ h := consistent_of_declare h
  chosen _ h := consistent_of_choose h
  redeclared _ := trivial
  relocated _ _ _ := trivial
  read _ := trivial

end Dependency

/-! ## §2. Stores. -/

namespace Store

/-- Every record has the property. -/
def Records (D : Dependency → Prop) (s : Store) : Prop := ∀ id, D (s.dependency id)

/-- Every dependency is consistent. -/
def Consistent (s : Store) : Prop := ∀ id, (s.dependency id).Consistent

namespace Records

variable {D : Dependency → Prop} {s t saved : Store}

theorem putDependency (h : s.Records D) (id : DependencyId) {d : Dependency} (hd : D d) :
    (s.putDependency id d).Records D := by
  intro i
  rw [dependency_putDependency]
  split
  · exact hd
  · exact h i

theorem addDependency (h : s.Records D) {d : Dependency} (hd : D d) :
    (s.addDependency d).2.Records D :=
  h.putDependency s.nextDependency hd

/-- What every record has is a matter of the records alone. -/
theorem of_dependency (h : s.Records D) (heq : ∀ id, t.dependency id = s.dependency id) :
    t.Records D := by
  intro id
  rw [heq]
  exact h id

theorem restore (h : s.Records D) (hsaved : saved.Records D) (ns : List Namespace)
    (ids : List DependencyId) : (s.restore saved ns ids).Records D := by
  intro id
  rw [dependency_restore]
  split
  · exact hsaved id
  · exact h id

end Records

end Store

end DependencyScope
