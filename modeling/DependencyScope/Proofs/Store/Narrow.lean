/-
  DependencyScope.Proofs.Store.Narrow — what a version part makes of a record.

  A version part that is applied to a dependency changes its requirement, its default version and
  its selection, and nothing else.  A dependency that has a requirement can only have it narrowed
  that way: every version that is accepted afterwards was accepted before.

  Main definitions:
    * `Requirement.Within` — one requirement accepts no more than another one;
    * `VersionText.written?` — the version part that a text writes;
    * `VersionText.demand` — the requirement that a version part leaves;
    * `Dependency.Narrows` — what may become of a record with a requirement.

  Main results:
    * `Dependency.choose_spec` — all that a version part changes;
    * `Dependency.narrows_of_choose`, `Dependency.within_of_choose`.
-/
import DependencyScope.Proofs.Requirement.Intersect
import DependencyScope.Proofs.Session.Listeners

namespace DependencyScope

open DependencyScope.Text

/-! ## §1. Requirements. -/

namespace Requirement

/-- Every version that `r` accepts is accepted by `s`. -/
def Within (r s : Requirement) : Prop := ∀ v, r.accepts v = true → s.accepts v = true

theorem Within.refl (r : Requirement) : r.Within r := fun _ h => h

theorem Within.trans {r s t : Requirement} (h : r.Within s) (h' : s.Within t) : r.Within t :=
  fun v hv => h' v (h v hv)

theorem intersect_within_left (r s : Requirement) : (r.intersect s).Within r := by
  intro v hv
  rw [accepts_intersect] at hv
  exact (Bool.and_eq_true_iff.1 hv).1

theorem intersect_within_right (r s : Requirement) : (r.intersect s).Within s := by
  intro v hv
  rw [accepts_intersect] at hv
  exact (Bool.and_eq_true_iff.1 hv).2

end Requirement

/-! ## §2. Version parts. -/

/-- The version part of a spec. -/
def Spec.part? (spec : Spec) : Option VersionText :=
  spec.version.bind fun version => (VersionText.parse version).toOption

theorem Spec.part?_of_mapM {spec : Spec} {version : Option VersionText}
    (h : spec.version.mapM VersionText.parse = .ok version) : spec.part? = version := by
  unfold part?
  cases hversion : spec.version with
  | none =>
    rw [hversion] at h
    cases h
    rfl
  | some text =>
    rw [hversion, Option.mapM_some] at h
    obtain ⟨part, hparse, rfl⟩ := map_eq_ok.1 h
    rw [Option.bind_some, hparse]
    rfl

namespace VersionText

/-- The version part that a text writes: that of a spec, or the text itself. -/
def written? (text : String) : Option VersionText :=
  if looksLikeSpec text then (Spec.parse text).toOption.bind Spec.part?
  else (VersionText.parse text).toOption

/-- The requirement that is left when a version part meets the requirement in effect. -/
def demand (effective : Option Requirement) : Option VersionText → Option Requirement
  | none | some (.plain _) => effective
  | some (.constraint r) => some (effective.elim r (·.intersect r))

/-- A requirement that is in effect is only narrowed. -/
theorem demand_within {r : Requirement} (version : Option VersionText) :
    ∃ r', demand (some r) version = some r' ∧ r'.Within r := by
  rcases version with _ | ⟨version⟩ | ⟨requirement⟩
  · exact ⟨r, rfl, .refl r⟩
  · exact ⟨r, rfl, .refl r⟩
  · exact ⟨_, rfl, r.intersect_within_left requirement⟩

/-- A requirement that is written is demanded. -/
theorem demand_constraint_within (effective : Option Requirement) (r : Requirement) :
    ∃ r', demand effective (some (.constraint r)) = some r' ∧ r'.Within r := by
  cases effective with
  | none => exact ⟨r, rfl, .refl r⟩
  | some declared => exact ⟨_, rfl, declared.intersect_within_right r⟩

end VersionText

/-! ## §3. Records. -/

namespace Dependency

variable {d d' d'' : Dependency}

/-- The record `d'` says all that `d` says about its artifact, and maybe more.  Its requirement is
that of `d` or a narrower one. -/
structure Narrows (d d' : Dependency) : Prop where
  members : d'.members = d.members
  coordinate : ∀ c, d.coordinate = some c → d'.coordinate = some c
  requirement : ∀ r, d.requirement = some r → ∃ r', d'.requirement = some r' ∧ r'.Within r
  consistent : d.requirement.isSome → d.Consistent → d'.Consistent

namespace Narrows

theorem refl (d : Dependency) : d.Narrows d where
  members := rfl
  coordinate _ hc := hc
  requirement r hr := ⟨r, hr, .refl r⟩
  consistent _ hd := hd

theorem isSome_requirement (h : d.Narrows d') (hd : d.requirement.isSome) :
    d'.requirement.isSome := by
  obtain ⟨r, hr⟩ := Option.isSome_iff_exists.1 hd
  obtain ⟨r', hr', -⟩ := h.requirement r hr
  exact Option.isSome_of_eq_some hr'

theorem isGroup (h : d.Narrows d') : d'.isGroup = d.isGroup := by
  unfold Dependency.isGroup
  rw [h.members]

theorem trans (h : d.Narrows d') (h' : d'.Narrows d'') : d.Narrows d'' where
  members := h'.members.trans h.members
  coordinate c hc := h'.coordinate c (h.coordinate c hc)
  requirement := by
    intro r hr
    obtain ⟨r', hr', hwithin⟩ := h.requirement r hr
    obtain ⟨r'', hr'', hwithin'⟩ := h'.requirement r' hr'
    exact ⟨r'', hr'', hwithin'.trans hwithin⟩
  consistent hsome hd := h'.consistent (h.isSome_requirement hsome) (h.consistent hsome hd)

/-- A record is given a coordinate that it may stand for. -/
theorem located {c : Coordinate} (h : d.admits c) : d.Narrows { d with coordinate := some c } where
  members := rfl
  coordinate := by
    intro c' hc'
    have heq : c' = c := by simpa [admits, hc'] using h
    exact congrArg some heq.symm
  requirement r hr := ⟨r, hr, .refl r⟩
  consistent _ hd := hd

/-- Another selection leaves the declaration as it is. -/
theorem of_reselects (h : d.Reselects d') : d.Narrows d' := by
  obtain ⟨selected, rfl⟩ := h.rest
  exact ⟨rfl, fun _ hc => hc, fun r hr => ⟨r, hr, .refl r⟩, fun _ => h.consistent⟩

end Narrows

/-! ## §4. Steps. -/

variable {inherited : Option Requirement} {version : Option VersionText} {outcome : Outcome}

/-- A version part changes the requirement as it demands, the default and the selection. -/
theorem choose_spec (h : d.choose inherited version = .ok outcome) :
    ∃ default selected, outcome.dependency = { d with
      requirement := VersionText.demand (d.requirement.or inherited) version
      defaultVersion := default
      selected := selected } := by
  rcases version with _ | ⟨version⟩ | ⟨requirement⟩
  · cases h
    exact ⟨d.defaultVersion, d.selected, rfl⟩
  · unfold choose at h
    obtain ⟨checked, -, rfl⟩ := map_eq_ok.1 h
    exact ⟨d.defaultVersion, some checked, rfl⟩
  · rw [choose_constraint] at h
    unfold narrowTo at h
    split at h
    · obtain ⟨checked, -, rfl⟩ := map_eq_ok.1 h
      exact ⟨_, some checked, rfl⟩
    · obtain ⟨declared, hdeclare, rfl⟩ := map_eq_ok.1 h
      exact ⟨none, d.selected, declare_spec hdeclare⟩

/-- A record with a requirement is narrowed by every version part. -/
theorem narrows_of_choose (h : d.choose inherited version = .ok outcome) :
    d.Narrows outcome.dependency := by
  obtain ⟨default, selected, hdependency⟩ := choose_spec h
  refine ⟨by rw [hdependency], by rw [hdependency]; exact fun _ hc => hc, ?_, ?_⟩
  · intro r hr
    rw [hdependency, hr, Option.some_or]
    exact VersionText.demand_within version
  · intro hsome hd
    cases version with
    | some version => exact consistent_of_choose h
    | none =>
      -- a spec without a version leaves the requirement and the selection as they are
      obtain ⟨r, hr⟩ := Option.isSome_iff_exists.1 hsome
      cases h
      exact (inheriting_consistent_iff hd inherited).2 fun hrejected =>
        nomatch hrejected.1.symm.trans hr

/-- What a version part demands is declared then. -/
theorem within_of_choose {r : Requirement}
    (h : d.choose inherited (some (.constraint r)) = .ok outcome) :
    ∃ r', outcome.dependency.requirement = some r' ∧ r'.Within r := by
  obtain ⟨default, selected, hdependency⟩ := choose_spec h
  rw [hdependency]
  exact VersionText.demand_constraint_within _ r

/-- A version can be selected exactly if the requirement accepts it. -/
theorem choose_plain_ok_iff {r : Requirement} (hr : d.requirement = some r) (v : Version) :
    (∃ outcome, d.choose inherited (some (.plain v)) = .ok outcome) ↔ r.accepts v = true := by
  have heffective : d.requirement.or inherited = some r := by rw [hr, Option.some_or]
  unfold choose
  dsimp only
  rw [heffective, check_text]
  by_cases haccepts : r.accepts v = true
  · rw [if_pos haccepts]
    exact ⟨fun _ => haccepts, fun _ => ⟨_, rfl⟩⟩
  · rw [if_neg haccepts]
    constructor
    · rintro ⟨outcome, hrefused⟩
      exact nomatch hrefused
    · intro h
      exact absurd h haccepts

end Dependency

end DependencyScope
