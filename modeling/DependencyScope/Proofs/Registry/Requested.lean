/-
  DependencyScope.Proofs.Registry.Requested — artifacts that are asked for by a spec with a version.

  A spec whose version part is a version names its artifact by itself.  Any other version part should
  be a requirement.  But the look-up goes by the coordinate alone, as if the version part were not
  there: a requirement is neither read nor met, and what is none is not refused.  Picking by the same
  spec reads the requirement and heeds it.

  Main definitions:
    * `Artifact.Fits` — the artifact is one that the coordinate and the version part ask for.

  Main results:
    * `Registry.artifact_of_parse` — the artifact for a spec with a version part;
    * `Session.fits_artifact_iff` — when it fits: the version part is a version, or what the
      coordinate finds happens to meet it.
-/
import DependencyScope.Proofs.Session.Registered

namespace DependencyScope

open DependencyScope.Text DependencyScope.Action

/-! ## §1. What a spec stands for. -/

/-- The artifact is one that a spec asks for: it has the coordinate, and its version is what the
version part writes, or it meets the requirement that the version part writes. -/
structure Artifact.Fits (a : Artifact) (c : Coordinate) (text : String) : Prop where
  coordinate : a.coordinate = c
  version : Version.isValid text = true ∧ a.version = text ∨
    ∃ r, Requirement.parse text = .ok r ∧ r.MetBy a.version

namespace Registry

variable {key text : String} {c : Coordinate} {s : Store} {a : Artifact}

theorem concrete?_of_parse (h : Spec.parse key = .ok ⟨c, some text⟩) :
    concrete? (trim key) = if Version.isValid text then some ⟨c, text⟩ else none := by
  unfold concrete?
  rw [if_pos (Spec.looksLikeSpec_of_parse h), Spec.parse_trim h]

theorem concrete?_of_parse_unversioned (h : Spec.parse key = .ok ⟨c, none⟩) :
    concrete? (trim key) = none := by
  unfold concrete?
  rw [if_pos (Spec.looksLikeSpec_of_parse h), Spec.parse_trim h]

/-- What names no artifact by itself stands for the artifact of what it finds. -/
theorem artifact_eq_ok_iff {version : Option String} (h : Spec.parse key = .ok ⟨c, version⟩)
    (hconcrete : concrete? (trim key) = none) :
    (artifact key).run.answer s = .ok a ↔
      ∃ id, s.nearestRegistered? (Namespace.currentScope.answer s) c = some id ∧
        s.artifact id = .ok a := by
  have hfound := Namespace.lookupDependency_of_parse (Spec.parse_trim h)
    (Namespace.currentScope.answer s) s
  rw [answer_artifact, hconcrete]
  dsimp only
  rw [hfound]
  cases s.nearestRegistered? (Namespace.currentScope.answer s) c with
  | none => exact ⟨nofun, nofun⟩
  | some id => exact ⟨fun hid => ⟨id, rfl, hid⟩, fun ⟨_, heq, hid⟩ => by cases heq; exact hid⟩

/-- A version names the artifact. -/
theorem artifact_of_isValid (h : Spec.parse key = .ok ⟨c, some text⟩)
    (hvalid : Version.isValid text = true) : (artifact key).run.answer s = .ok ⟨c, text⟩ := by
  rw [answer_artifact, concrete?_of_parse h, if_pos hvalid]

end Registry

/-! ## §2. What a spec asks for. -/

namespace Session

variable {key text : String} {c : Coordinate}

/-- A spec whose version part is a version stands for that version of its coordinate.  With any other
version part it stands for whatever its coordinate stands for without one, and so the artifact fits
exactly if what the coordinate finds happens to have the coordinate and a version that meets the
requirement which the version part writes.  In an orderly run it is the version alone that may not
fit. -/
theorem fits_artifact_iff (hparse : Spec.parse key = .ok ⟨c, some text⟩) (σ : Session) :
    (Version.isValid text = true →
      (Registry.artifact key).run.answer σ.store = .ok ⟨c, text⟩) ∧
    (Version.isValid text = false → ∀ a, (Registry.artifact key).run.answer σ.store = .ok a ↔
      (Registry.artifact c.lookupKey).run.answer σ.store = .ok a) ∧
    ((∀ a, (Registry.artifact key).run.answer σ.store = .ok a → a.Fits c text) ↔
      Version.isValid text = true ∨ ∀ id a,
        σ.store.nearestRegistered? (Namespace.currentScope.answer σ.store) c = some id →
        σ.store.artifact id = .ok a →
        a.coordinate = c ∧ ∃ r, Requirement.parse text = .ok r ∧ r.MetBy a.version) ∧
    ∀ followsProjects, ReachedThrough followsProjects (fun σ operation => operation.Orderly σ) σ →
      ∀ a, (Registry.artifact key).run.answer σ.store = .ok a → a.coordinate = c := by
  have hwell : c.WellFormed := (Spec.wellFormed_of_parse hparse).coordinate
  have hconcrete (hvalid : Version.isValid text = false) :
      Registry.concrete? (trim key) = none := by
    rw [Registry.concrete?_of_parse hparse, hvalid]
    rfl
  have hversion (hvalid : Version.isValid text = true) :
      (Registry.artifact key).run.answer σ.store = .ok ⟨c, text⟩ :=
    Registry.artifact_of_isValid hparse hvalid
  have hlookup := hwell.parse_lookupKey
  refine ⟨hversion, fun hvalid a => ?_, ?_, fun _ h a ha => ?_⟩
  · rw [Registry.artifact_eq_ok_iff hparse (hconcrete hvalid),
      Registry.artifact_eq_ok_iff hlookup (Registry.concrete?_of_parse_unversioned hlookup)]
  · cases hvalid : Version.isValid text with
    -- the text is a version, and the artifact has it
    | true =>
      refine ⟨fun _ => .inl rfl, fun _ a ha => ?_⟩
      obtain rfl : (⟨c, text⟩ : Artifact) = a := Except.ok.inj ((hversion hvalid).symm.trans ha)
      exact ⟨rfl, .inl ⟨hvalid, rfl⟩⟩
    | false =>
      -- it is none, and then the key stands for what is registered for its coordinate
      have hstands (a : Artifact) := Registry.artifact_eq_ok_iff (s := σ.store) (a := a) hparse
        (hconcrete hvalid)
      constructor
      · refine fun hfits => .inr fun id a hid ha => ?_
        obtain ⟨hcoordinate, ⟨hne, -⟩ | hmet⟩ := hfits a ((hstands a).2 ⟨id, hid, ha⟩)
        · exact nomatch hvalid.symm.trans hne
        · exact ⟨hcoordinate, hmet⟩
      · rintro (hne | hmet) a ha
        · exact nomatch hne
        · obtain ⟨id, hid, hartifact⟩ := (hstands a).1 ha
          obtain ⟨hcoordinate, hversion⟩ := hmet id a hid hartifact
          exact ⟨hcoordinate, .inr hversion⟩
  · cases hvalid : Version.isValid text with
    | true => exact congrArg Artifact.coordinate (Except.ok.inj (ha.symm.trans (hversion hvalid)))
    | false =>
      obtain ⟨id, hid, hartifact⟩ :=
        (Registry.artifact_eq_ok_iff hparse (hconcrete hvalid)).1 ha
      exact Option.some.inj ((Store.artifact_eq_ok hartifact).1.symm.trans
        (coordinate_of_nearestRegistered? h hwell hid))

/-- The root holds version 2.5, which is between 2 and 3. -/
theorem fits_artifact_met :
    let σ := (start true).afterAll [.set (.registered rootName 0) "k" (.text "g:i:t:c:2.5")]
    Spec.parse " g:i:t:c: >=2 <3 " = .ok ⟨⟨"g", "i", "t", some "c"⟩, some ">=2 <3"⟩ ∧
      (Registry.artifact " g:i:t:c: >=2 <3 ").run.answer σ.store
        = .ok ⟨⟨"g", "i", "t", some "c"⟩, "2.5"⟩ ∧
      Artifact.Fits ⟨⟨"g", "i", "t", some "c"⟩, "2.5"⟩ ⟨"g", "i", "t", some "c"⟩ ">=2 <3" := by
  intro σ
  have hparse : Spec.parse " g:i:t:c: >=2 <3 "
      = .ok ⟨⟨"g", "i", "t", some "c"⟩, some ">=2 <3"⟩ := by decide +kernel
  have hnearest : σ.store.nearestRegistered? (Namespace.currentScope.answer σ.store)
      ⟨"g", "i", "t", some "c"⟩ = some 0 := by decide +kernel
  have hheld : (σ.store.artifact 0).toOption = some ⟨⟨"g", "i", "t", some "c"⟩, "2.5"⟩ := by
    decide +kernel
  have hmet : ((Requirement.parse ">=2 <3").toOption.bind fun r => (r.satisfiedBy "2.5").toOption)
      = some true := by decide +kernel
  obtain ⟨r, hr, hverdict⟩ := Option.bind_eq_some_iff.1 hmet
  obtain ⟨-, -, hfits, -⟩ := fits_artifact_iff hparse σ
  have hartifact := (Registry.artifact_eq_ok_iff hparse (by decide +kernel)).2
    ⟨0, hnearest, eq_ok_of_toOption hheld⟩
  refine ⟨hparse, hartifact, hfits.2 (.inr fun id a hid ha => ?_) _ hartifact⟩
  obtain rfl : 0 = id := Option.some.inj (hnearest.symm.trans hid)
  obtain rfl := Except.ok.inj ((eq_ok_of_toOption hheld).symm.trans ha)
  exact ⟨rfl, r, eq_ok_of_toOption hr, eq_ok_of_toOption hverdict⟩

/-- The root holds version 1, and it is handed out for at least version 2. -/
theorem not_fits_artifact :
    let σ := (start true).afterAll [.set (.registered rootName 0) "k" (.text "g:i:t:1")]
    Reached true σ ∧ Spec.parse "g:i:t:>=2" = .ok ⟨⟨"g", "i", "t", none⟩, some ">=2"⟩ ∧
      ∃ a, (Registry.artifact "g:i:t:>=2").run.answer σ.store = .ok a ∧
        ¬a.Fits ⟨"g", "i", "t", none⟩ ">=2" := by
  intro σ
  have hanswer : ((Registry.artifact "g:i:t:>=2").run.answer σ.store).toOption
      = some ⟨⟨"g", "i", "t", none⟩, "1"⟩ := by decide +kernel
  have hverdict : ((Requirement.parse ">=2").toOption.bind fun r => (r.satisfiedBy "1").toOption)
      = some false := by decide +kernel
  refine ⟨.after .start trivial, by decide +kernel, _, eq_ok_of_toOption hanswer, ?_⟩
  rintro ⟨-, ⟨hvalid, -⟩ | ⟨r, hr, hmet⟩⟩
  · exact absurd hvalid (by decide +kernel)
  · rw [hr] at hverdict
    have hunmet : r.satisfiedBy "1" = .ok false := eq_ok_of_toOption hverdict
    exact nomatch hunmet.symm.trans hmet

end Session

end DependencyScope
