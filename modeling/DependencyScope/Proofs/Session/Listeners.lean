/-
  DependencyScope.Proofs.Session.Listeners — listeners select, and that is all.

  Telling the listeners of a dependency may pass its version on to other dependencies, and so on from
  there.  Whatever is selected that way has been checked.  So listeners change nothing but
  selections, and they break no requirement.

  Main definitions:
    * `Dependency.Reselects`, `Store.Reselected` — nothing but selections has changed;
    * `Session.Records`, `Session.Consistent` — what every record of a session has.

  Main results:
    * `Store.Reselected.fire`, `.announce` — listeners only select;
    * `Action.exists_of_deferring_ok` — what a batch that succeeds has done;
    * `tolerates_records` — what lasts stands every write to a namespace;
    * `Action.run_settle`, `Namespace.run_chooseOn` — a step on a dependency and what follows it;
    * `Action.selected_settle` — the listeners of a dependency do not change its selection.
-/
import DependencyScope.Proofs.Store.Consistent

namespace DependencyScope

/-! ## §1. Selections. -/

/-- The record `d'` is `d` with another selection, at most, that was checked. -/
structure Dependency.Reselects (d d' : Dependency) : Prop where
  rest : ∃ selected, d' = { d with selected := selected }
  consistent : d.Consistent → d'.Consistent

namespace Dependency.Reselects

variable {d d' d'' : Dependency}

theorem refl (d : Dependency) : d.Reselects d where
  rest := ⟨d.selected, rfl⟩
  consistent hd := hd

theorem trans (h : d.Reselects d') (h' : d'.Reselects d'') : d.Reselects d'' where
  rest := by
    obtain ⟨selected, rfl⟩ := h.rest
    obtain ⟨selected', rfl⟩ := h'.rest
    exact ⟨selected', rfl⟩
  consistent hd := h'.consistent (h.consistent hd)

theorem of_select {text : String} (h : d.select text = .ok d') : d.Reselects d' where
  rest := by
    unfold select at h
    obtain ⟨version, -, rfl⟩ := map_eq_ok.1 h
    exact ⟨some version, rfl⟩
  consistent _ := consistent_of_select h

end Dependency.Reselects

/-- The store `t` is `s` up to selections that were checked. -/
structure Store.Reselected (s t : Store) : Prop where
  rest : ∃ dependencies, t = { s with dependencies := dependencies }
  records : ∀ id, (s.dependency id).Reselects (t.dependency id)

namespace Store.Reselected

variable {r s t : Store}

theorem refl (s : Store) : s.Reselected s where
  rest := ⟨s.dependencies, rfl⟩
  records id := .refl (s.dependency id)

theorem trans (h : r.Reselected s) (h' : s.Reselected t) : r.Reselected t where
  rest := by
    obtain ⟨dependencies, rfl⟩ := h.rest
    obtain ⟨dependencies', rfl⟩ := h'.rest
    exact ⟨dependencies', rfl⟩
  records id := (h.records id).trans (h'.records id)

theorem contents (h : s.Reselected t) : t.contents = s.contents := by
  obtain ⟨dependencies, rfl⟩ := h.rest
  rfl

theorem nextDependency (h : s.Reselected t) : t.nextDependency = s.nextDependency := by
  obtain ⟨dependencies, rfl⟩ := h.rest
  rfl

theorem putSelected {id : DependencyId} {text : String} {d : Dependency}
    (h : (s.dependency id).select text = .ok d) : s.Reselected (s.putDependency id d) where
  rest := ⟨_, rfl⟩
  records := by
    intro i
    rw [dependency_putDependency]
    split
    · next heq => exact heq ▸ .of_select h
    · exact .refl (s.dependency i)

/-! ## §2. Listeners. -/

theorem fireWithin (depth : Nat) (id : DependencyId) {s : Store} {σ : Session}
    (hσ : s.Reselected σ.store) : s.Reselected (Session.fireWithin depth id σ).store :=
  Session.fireWithin_of_select (fun ht hselect => ht.trans (.putSelected hselect)) depth id hσ

theorem fire (σ : Session) (id : DependencyId) : σ.store.Reselected (σ.fire id).store :=
  fireWithin _ id (.refl σ.store)

theorem announce (σ : Session) (id : DependencyId) : σ.store.Reselected (σ.announce id).store := by
  unfold Session.announce
  split
  · exact .refl σ.store
  · exact .fire σ id

theorem foldl_fire (ids : List DependencyId) (σ : Session) :
    σ.store.Reselected (ids.foldl Session.fire σ).store :=
  List.foldlRecOn (motive := fun τ : Session => σ.store.Reselected τ.store) _ _ (.refl σ.store)
    fun υ hυ id _ => hυ.trans (.fire υ id)

end Store.Reselected

/-- Listeners that were held back only select when the batch has succeeded. -/
theorem Action.exists_of_deferring_ok {α : Type} {act : Action α} {σ τ : Session} {a : α}
    (h : (Action.deferring act).run σ = (.ok a, τ)) :
    ∃ mid, act.run (Action.held σ) = (.ok a, mid) ∧ mid.store.Reselected τ.store := by
  obtain ⟨mid, hact, rfl⟩ := Action.exists_of_deferring_success h
  refine ⟨mid, hact, ?_⟩
  split
  · exact .refl mid.store
  · exact .foldl_fire (mid.waiting.getD []) { mid with waiting := none }

/-! ## §3. What every record has. -/

/-- Every record of the session has the property. -/
def Session.Records (D : Dependency → Prop) (σ : Session) : Prop := σ.store.Records D

/-- Every dependency of the session is consistent. -/
def Session.Consistent (σ : Session) : Prop := σ.store.Consistent

section Records

variable {A : Declaration → Prop} {C : Coordinate → Prop} {D : Dependency → Prop}

theorem Session.Records.fire {σ : Session} (hD : Dependency.Robust A C D) (hσ : σ.Records D)
    (id : DependencyId) : (σ.fire id).Records D :=
  fireWithin_of_select (fun {_ i _ _} hs hselect => hs.putDependency i (hD.selected (hs i) hselect))
    _ id hσ

/-- What lasts stands every write to a namespace. -/
theorem tolerates_records (hD : Dependency.Robust A C D) (n : Namespace) :
    Tolerates (Session.Records D) n (fun _ => True) D where
  unlisted _ _ hσ := hσ
  record hσ id := hσ id
  own _ _ _ _ := trivial
  put hσ _ _ _ hd := hσ.putDependency _ hd
  add hσ _ hd := ⟨hσ.addDependency hd, trivial⟩
  entry hσ _ _ _ := hσ.of_dependency fun _ => rfl
  index hσ _ _ := hσ.of_dependency fun id => Store.dependency_putIndex _ _ _ id
  announce := by
    intro σ hσ id _
    unfold Session.announce
    split
    · exact hσ
    · exact hσ.fire hD id

end Records

/-! ## §4. Steps on one dependency. -/

namespace Action

/-- What an outcome leaves: its record, and the selections that follow. -/
theorem run_settle (id : DependencyId) (outcome : Dependency.Outcome) (σ : Session) :
    ∃ τ, (settle id outcome).run σ = (.ok (), τ) ∧
      (σ.store.putDependency id outcome.dependency).Reselected τ.store := by
  unfold settle
  let put : Session := { σ with store := σ.store.putDependency id outcome.dependency }
  rw [run_bind_ok (run_update _ σ)]
  split
  · exact ⟨put.announce id, rfl, .announce put id⟩
  · exact ⟨put, rfl, .refl put.store⟩

end Action

open DependencyScope.Action

/-- A version part is applied as a whole or not at all. -/
theorem Namespace.run_chooseOn (id : DependencyId) (version : VersionText) (σ : Session) :
    (chooseOn id version).run σ
      = match (σ.store.dependency id).choose none (some version) with
        | .error e => (.error e, σ)
        | .ok outcome => (settle id outcome).run σ := by
  unfold chooseOn
  rw [run_bind_ok (run_view _ σ), run_bind, run_ofExcept]
  cases (σ.store.dependency id).choose none (some version) <;> rfl

/-! ## §5. What is passed on. -/

theorem Dependency.selected_of_select {d d' : Dependency} {v : Version}
    (h : d.select v.text = .ok d') : d'.selected = some v := by
  unfold Dependency.select at h
  obtain ⟨version, hcheck, rfl⟩ := map_eq_ok.1 h
  exact congrArg some (eq_of_check hcheck)

/-- Listeners pass on one and the same version, so whatever has that selected keeps it. -/
theorem Session.selected_fireWithin {v : Version} (depth : Nat) :
    ∀ (id : DependencyId) {σ : Session}, (σ.store.dependency id).selected = some v →
      ∀ i, (σ.store.dependency i).selected = some v →
        ((Session.fireWithin depth id σ).store.dependency i).selected = some v := by
  induction depth with
  | zero => exact fun _ _ _ _ hi => hi
  | succ depth ih =>
    intro id σ hid i hi
    unfold Session.fireWithin
    -- both selections are carried along, as the one of `id` is what is passed on
    refine (List.foldlRecOn (motive := fun τ : Session =>
      (τ.store.dependency id).selected = some v ∧ (τ.store.dependency i).selected = some v) _ _
      ⟨hid, hi⟩ ?_).2
    rintro τ ⟨hid, hi⟩ listener _
    have hversion : (τ.store.dependency id).version.getD "" = v.text := by
      simp [Dependency.version, Dependency.selectedText, hid]
    dsimp only
    split
    · exact ⟨hid, hi⟩
    · next next _ =>
      rw [hversion]
      split
      · exact ⟨hid, hi⟩
      · next selected hselect =>
        have hnext := Dependency.selected_of_select hselect
        have hkept (j : DependencyId) (hj : (τ.store.dependency j).selected = some v) :
            ((τ.store.putDependency next selected).dependency j).selected = some v := by
          rw [Store.dependency_putDependency]
          split
          · exact hnext
          · exact hj
        have hput : ((τ.store.putDependency next selected).dependency next).selected = some v := by
          simpa using hnext
        exact ⟨ih next hput id (hkept id hid), ih next hput i (hkept i hi)⟩

/-- Listeners that are told of one and the same selection do not change it. -/
theorem Session.selected_foldl_fire {σ : Session} {ids : List DependencyId} {id : DependencyId}
    {v : Version} (hids : ∀ i ∈ ids, i = id) (h : (σ.store.dependency id).selected = some v) :
    ((ids.foldl fire σ).store.dependency id).selected = some v := by
  refine List.foldlRecOn
    (motive := fun υ : Session => (υ.store.dependency id).selected = some v) _ _ h ?_
  intro υ hυ i hi
  rw [hids i hi]
  exact selected_fireWithin _ id hυ id hυ

/-- A dependency keeps the selection of its outcome, whatever its listeners do with it. -/
theorem Action.selected_settle (id : DependencyId) {outcome : Dependency.Outcome}
    (h : outcome.selects = true → outcome.dependency.selected.isSome) {σ τ : Session}
    (hrun : (settle id outcome).run σ = (.ok (), τ)) :
    (τ.store.dependency id).selected = outcome.dependency.selected := by
  let put : Session := { σ with store := σ.store.putDependency id outcome.dependency }
  have hput : (put.store.dependency id).selected = outcome.dependency.selected := by simp [put]
  unfold settle at hrun
  rw [run_bind_ok (run_update _ σ)] at hrun
  split at hrun
  · next hselects =>
    obtain ⟨v, hv⟩ := Option.isSome_iff_exists.1 (h hselects)
    obtain rfl : put.announce id = τ := congrArg Prod.snd hrun
    unfold Session.announce
    split
    · exact hput
    · rw [hv] at hput ⊢
      exact Session.selected_fireWithin _ id hput id hput
  · obtain rfl : put = τ := congrArg Prod.snd hrun
    exact hput

end DependencyScope
