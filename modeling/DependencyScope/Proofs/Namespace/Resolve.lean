/-
  DependencyScope.Proofs.Namespace.Resolve — what a declaration comes to.

  The record under a key gets the coordinate, the requirement and the default version that are
  declared.  Its selection it keeps.  Where it has none, the nearest ancestor that has selected a
  version of the same artifact decides: its version is taken over if the requirement accepts it, and
  if not, the record is left without any version.  All of this is one change of one record, as long
  as no listener is told meanwhile: there is none, or a batch holds them back.

  Main definitions:
    * `Dependency.declaring`, `.defaulting` — what is done to a record, beside `Dependency.under`;
    * `Dependency.Resolves` — what a declaration under the selection of an ancestor comes to;
    * `Store.Written`, `Store.Holding` — one record has changed, and a key holds it.

  Main results:
    * `Namespace.leaves_declareAs` — what a declaration leaves;
    * `Namespace.leaves_selectDefault` — what a default adds to that.
-/
import DependencyScope.Proofs.Registry.Tables
import DependencyScope.Proofs.Session.Noting

namespace DependencyScope

open DependencyScope.Action

/-! ## §1. Records. -/

namespace Dependency

variable {d : Dependency} {u v : Version}

/-- The record with a coordinate and a declaration. -/
def declaring (d : Dependency) (c : Coordinate) (declaration : Declaration) : Dependency :=
  { d with
    coordinate := some c
    requirement := declaration.requirement
    defaultVersion := declaration.default }

/-- The record with a version selected where none was. -/
def defaulting (d : Dependency) (v : Version) : Dependency :=
  { d with selected := d.selected.or (some v) }

theorem selected_defaulting (d : Dependency) (v : Version) :
    (d.defaulting v).selected = some (d.selected.getD v) := by
  unfold defaulting
  rw [Option.or_some]

theorem defaulting_of_selected (h : d.selected = some u) : d.defaulting v = d := by
  unfold defaulting
  rw [h, Option.some_or, ← h]

theorem defaulting_of_none (h : d.selected = none) :
    d.defaulting v = { d with selected := some v } := by
  unfold defaulting
  rw [h, Option.none_or]

/-- Whether the requirement, if there is one, accepts a version. -/
def accepts (d : Dependency) (v : Version) : Bool := d.requirement.all (·.accepts v)

theorem select_of_accepts (h : d.accepts v = true) :
    d.select v.text = .ok { d with selected := some v } := by
  unfold select check
  unfold accepts at h
  rw [Version.parse_text]
  cases hr : d.requirement with
  | none => rfl
  | some r =>
    rw [hr] at h
    dsimp only
    rw [if_pos (by simpa using h)]
    rfl

theorem accepts_of_select {d' : Dependency} (h : d.select v.text = .ok d') :
    d.accepts v = true ∧ d' = { d with selected := some v } := by
  unfold select at h
  obtain ⟨w, hcheck, rfl⟩ := map_eq_ok.1 h
  obtain rfl := eq_of_check hcheck
  refine ⟨?_, rfl⟩
  unfold accepts
  cases hr : d.requirement with
  | none => rfl
  | some r => exact accepts_of_check hcheck r hr

theorem accepts_iff : d.accepts v = true ↔ ∀ r, d.requirement = some r → r.accepts v = true := by
  unfold accepts
  cases d.requirement with
  | none => simp
  | some r => exact ⟨fun h _ hr => Option.some.inj hr ▸ h, fun h => h r rfl⟩

theorem under_of_selected (h : d.selected = some v) (enclosing : Option Version) :
    d.under enclosing = ⟨d, false⟩ := by
  unfold under
  rw [h]

theorem under_none (d : Dependency) : d.under none = ⟨d, false⟩ := by
  unfold under
  cases d.selected <;> rfl

theorem under_some (h : d.selected = none) (u : Version) : d.under (some u) = d.adopt u.text := by
  unfold under
  rw [h]

/-- A version that the requirement accepts is taken over. -/
theorem under_of_accepts (h : d.selected = none) (haccepts : d.accepts u = true) :
    d.under (some u) = ⟨{ d with selected := some u }, true⟩ := by
  rw [under_some h, adopt, select_of_accepts haccepts]

/-- A version that it does not accept takes the default away. -/
theorem under_of_rejects (h : d.selected = none) (hrejects : d.accepts u = false) :
    d.under (some u) = ⟨{ d with defaultVersion := none }, false⟩ := by
  rw [under_some h, adopt]
  split
  · next hselect => exact absurd (accepts_of_select hselect).1 (by simp [hrejects])
  · rfl

/-- A selection is kept, or it is the enclosing one if that is accepted. -/
theorem selected_under (d : Dependency) (enclosing : Option Version) :
    (d.under enclosing).dependency.selected = d.selected.or (enclosing.filter d.accepts) := by
  cases hselected : d.selected with
  | some w => rw [under_of_selected hselected, hselected, Option.some_or]
  | none =>
    cases enclosing with
    | none => rw [under_none, hselected, Option.filter_none, Option.none_or]
    | some u =>
      cases haccepts : d.accepts u with
      | true => simp [under_of_accepts hselected haccepts, Option.filter, haccepts]
      | false => simp [under_of_rejects hselected haccepts, Option.filter, haccepts, hselected]

theorem consistent_iff_accepts :
    d.Consistent ↔ ∀ v, d.selected = some v → d.accepts v = true := by
  simp only [accepts_iff]
  exact ⟨fun h v hv r hr => h r v hr hv, fun h r v hr hv => h v hv r hr⟩

theorem Consistent.under (h : d.Consistent) (enclosing : Option Version) :
    (d.under enclosing).dependency.Consistent := by
  obtain ⟨default, selected, hrest⟩ := d.under_spec enclosing
  have haccepts : (d.under enclosing).dependency.accepts = d.accepts := by rw [hrest]; rfl
  rw [consistent_iff_accepts, haccepts, selected_under]
  intro v hv
  rcases Option.or_eq_some_iff.1 hv with hselected | ⟨-, htaken⟩
  · exact consistent_iff_accepts.1 h v hselected
  · exact (Option.filter_eq_some_iff.1 htaken).2

/-- What a record without a selection comes to that has been declared: the enclosing version decides,
if there is one, and the requirement on that. -/
structure Resolves (d : Dependency) (c : Coordinate) (declaration : Declaration)
    (enclosing : Option Version) : Prop where
  coordinate : d.coordinate = some c
  requirement : d.requirement = declaration.requirement
  /-- Where nothing encloses it, it has its default. -/
  default : enclosing = none → d.selected = none ∧ d.version = declaration.default
  /-- A version that is accepted is selected. -/
  taken : ∀ u, enclosing = some u →
    (∀ r, declaration.requirement = some r → r.accepts u = true) → d.selected = some u
  /-- One that is not leaves it without a version. -/
  cleared : ∀ u r, enclosing = some u → declaration.requirement = some r →
    r.accepts u = false → d.selected = none ∧ d.version = none

theorem resolves_declaring_under (h : d.selected = none) (c : Coordinate)
    (declaration : Declaration) (enclosing : Option Version) :
    ((d.declaring c declaration).under enclosing).dependency.Resolves c declaration enclosing := by
  have hfree : (d.declaring c declaration).selected = none := h
  obtain ⟨default, selected, hrest⟩ := (d.declaring c declaration).under_spec enclosing
  constructor
  · rw [hrest]
    rfl
  · rw [hrest]
    rfl
  · rintro rfl
    rw [under_none]
    exact ⟨hfree, version_of_unselected hfree⟩
  · rintro u rfl haccepts
    rw [under_of_accepts hfree (accepts_iff.2 haccepts)]
  · rintro u r rfl hr hrejects
    have hunmet : (d.declaring c declaration).accepts u = false := by
      rw [accepts, show (d.declaring c declaration).requirement = some r from hr]
      exact hrejects
    rw [under_of_rejects hfree hunmet]
    exact ⟨hfree, version_of_unselected hfree⟩

end Dependency

/-! ## §2. Stores. -/

namespace Store

variable {s t u : Store} {n : Namespace} {key : String} {id : DependencyId} {d d' : Dependency}
  {c : Coordinate}

/-- The store `t` is `s` with another record of one dependency, which may be new. -/
structure Written (s : Store) (id : DependencyId) (d : Dependency) (t : Store) : Prop where
  record : t.dependency id = d
  others : ∀ j, j ≠ id → t.dependency j = s.dependency j
  contents : t.contents = s.contents
  tree : s.SameTree t

namespace Written

theorem refl (s : Store) (id : DependencyId) : s.Written id (s.dependency id) s where
  record := rfl
  others _ _ := rfl
  contents := rfl
  tree := .refl s

theorem put (s : Store) (id : DependencyId) (d : Dependency) :
    s.Written id d (s.putDependency id d) where
  record := by rw [dependency_putDependency, if_pos rfl]
  others _ hj := by rw [dependency_putDependency, if_neg (Ne.symm hj)]
  contents := rfl
  tree := ⟨_, _, _, rfl⟩

theorem add (s : Store) (d : Dependency) :
    s.Written s.nextDependency d (s.addDependency d).2 where
  record := s.dependency_added d
  others _ hj := by rw [dependency_addDependency, if_neg (Ne.symm hj)]
  contents := rfl
  tree := ⟨_, _, _, rfl⟩

theorem trans (h : s.Written id d t) (h' : t.Written id d' u) : s.Written id d' u where
  record := h'.record
  others j hj := (h'.others j hj).trans (h.others j hj)
  contents := h'.contents.trans h.contents
  tree := h.tree.trans h'.tree

theorem congr (h : s.Written id d t) (hd : d = d') : s.Written id d' t := hd ▸ h

/-- The selections of the ancestors are as they were, if that of the record is. -/
theorem nearestSelection? (h : s.Written id d t) (hs : s.Sound)
    (hd : id < s.nextDependency → d.selected = (s.dependency id).selected) (n : Namespace)
    (c : Coordinate) : t.nearestSelection? n c = s.nearestSelection? n c := by
  have hindexed : ∀ a, t.indexed? a c.render = s.indexed? a c.render := by
    intro a
    unfold indexed? contentsOf
    rw [h.contents]
  unfold Store.nearestSelection?
  rw [h.tree.answer_ancestors hs.grounded.ascending n]
  congr 1
  funext a
  rw [hindexed]
  cases hj : s.indexed? a c.render with
  | none => rfl
  | some j =>
    -- what is registered was there before, so that a new record is none of it
    have hissued := hs.ordered.index a c.render j hj
    simp only [Option.bind_some]
    by_cases heq : j = id
    · subst heq
      rw [h.record, hd hissued]
    · rw [h.others j heq]

end Written

/-- In `t` the key holds a dependency with the record `d`; nothing else of `s` has changed but, at
most, what else the namespace `n` holds. -/
structure Holding (s : Store) (n : Namespace) (key : String) (id : DependencyId) (d : Dependency)
    (t : Store) : Prop where
  entry : t.entryAt? n key = some (.dependency id)
  record : t.dependency id = d
  others : ∀ j, j ≠ id → t.dependency j = s.dependency j
  contents : ∀ m, m ≠ n → t.contentsOf m = s.contentsOf m

theorem Written.insert (h : s.Written id d t) (n : Namespace) (key : String) :
    s.Holding n key id d (t.insert n key id) where
  entry := by rw [Store.insert, entryAt?_putIndex, entryAt?_putEntry, if_pos ⟨rfl, rfl⟩]
  record := by rw [dependency_insert, h.record]
  others j hj := by rw [dependency_insert, h.others j hj]
  contents m hm := by
    rw [Store.insert, contentsOf_putIndex_of_ne _ _ (Ne.symm hm), contentsOf_putEntry,
      if_neg (Ne.symm hm), contentsOf, h.contents]
    rfl

theorem Holding.written (h : s.Holding n key id d t) (h' : t.Written id d' u) :
    s.Holding n key id d' u where
  entry := by
    rw [entryAt?, contentsOf, h'.contents]
    exact h.entry
  record := h'.record
  others j hj := (h'.others j hj).trans (h.others j hj)
  contents m hm := by
    rw [contentsOf, h'.contents]
    exact h.contents m hm

end Store

/-! ## §3. Sessions in which nobody is told. -/

namespace Session

variable {σ : Session} {id : DependencyId} {d : Dependency}

/-- A record that is written brings no listeners with it. -/
theorem Hushed.written {t : Store} (h : σ.Hushed) (hwritten : σ.store.Written id d t)
    (hd : d.listeners = (σ.store.dependency id).listeners ∨ d.listeners = []) :
    Hushed { σ with store := t } := by
  intro hwaiting j
  have hsilent := h hwaiting
  by_cases hj : j = id
  · subst hj
    show (t.dependency j).listeners = []
    rw [hwritten.record]
    rcases hd with hsame | hnone
    · rw [hsame]
      exact hsilent j
    · exact hnone
  · show (t.dependency j).listeners = []
    rw [hwritten.others j hj]
    exact hsilent j

end Session

/-! ## §4. Declarations. -/

namespace Namespace

variable {σ : Session} {n : Namespace} {id : DependencyId}

/-- An outcome is put, and nobody is told of it. -/
theorem leaves_settle (h : σ.Hushed) {outcome : Dependency.Outcome}
    (hlisteners : outcome.dependency.listeners = (σ.store.dependency id).listeners) :
    Leaves (settle id outcome)
      (fun _ τ => σ.store.Written id outcome.dependency τ.store ∧ τ.Hushed) σ := by
  intro _ τ hrun
  have hwritten := Store.Written.put σ.store id outcome.dependency
  obtain ⟨hstore, hhushed⟩ := settle_of_hushed (h.written hwritten (.inl hlisteners)) hrun
  exact ⟨hstore ▸ hwritten, hhushed⟩

/-- The record under the key, or a new one, has the declaration. -/
theorem leaves_declaredFor (h : σ.Hushed) (key : String) (c : Coordinate)
    (declaration : Declaration) :
    Leaves (n.declaredFor key c declaration) (fun id τ =>
      let d := (σ.store.recordFor n key c).declaring c declaration
      id = (σ.store.ownFor? n key c).getD σ.store.nextDependency ∧ d.Consistent ∧
        (id < σ.store.nextDependency → d.selected = (σ.store.dependency id).selected) ∧
        σ.store.Written id d τ.store ∧ τ.Hushed) σ := by
  intro id τ hrun
  rcases exists_of_declaredFor hrun with ⟨d, hown, hdeclare, rfl⟩ | ⟨hfree, rfl, rfl⟩
  -- the record that the key holds is declared on, and located
  · have hdeclared : { d with coordinate := some c }
        = (σ.store.recordFor n key c).declaring c declaration := by
      rw [recordFor_of_ownFor? hown, Dependency.declare_spec hdeclare]
      rfl
    have hsame : ((σ.store.recordFor n key c).declaring c declaration).listeners
        = (σ.store.dependency id).listeners := by
      rw [recordFor_of_ownFor? hown]
      rfl
    have hlocated := Store.Written.put (σ.store.putDependency id d) id { d with coordinate := some c }
    have hwritten := ((Store.Written.put σ.store id d).trans hlocated).congr hdeclared
    have hconsistent : d.Consistent := Dependency.consistent_of_declare hdeclare
    rw [hown]
    refine ⟨rfl, ?_, ?_, hwritten, h.written hwritten (.inl hsame)⟩
    · rw [← hdeclared]
      exact hconsistent
    · intro _
      rw [recordFor_of_ownFor? hown]
      rfl
  -- a new record is made with the declaration
  · have hwritten := Store.Written.add σ.store {
      key := key
      coordinate := some c
      requirement := declaration.requirement
      defaultVersion := declaration.default }
    rw [hfree, recordFor_of_free hfree]
    refine ⟨rfl, Dependency.consistent_of_unselected rfl, ?_, hwritten, h.written hwritten (.inr rfl)⟩
    exact fun hissued => absurd hissued (Nat.lt_irrefl _)

/-- A declaration, all in all: the key holds the dependency that it held before or a new one, with
what is declared, and with the selection that it had or the nearest ancestor has. -/
theorem leaves_declareAs (hσ : σ.store.Sound) (h : σ.Hushed) (key : String) (c : Coordinate)
    (declaration : Declaration) :
    Leaves (n.declareAs key c declaration) (fun id τ =>
      let d := ((σ.store.recordFor n key c).declaring c declaration).under
        (σ.store.nearestSelection? n c) |>.dependency
      id = (σ.store.ownFor? n key c).getD σ.store.nextDependency ∧ d.Consistent ∧
        σ.store.Holding n key id d τ.store ∧ τ.Hushed) σ := by
  unfold declareAs
  refine leaves_ensureNoSub (.bind fun id mid hdeclared => ?_)
  obtain ⟨hid, hconsistent, hselected, hwritten, hhushed⟩ :=
    leaves_declaredFor h key c declaration id mid hdeclared
  refine .bind_ok (run_view _ mid) ?_
  rw [hwritten.record]
  -- the declaration has changed no selection that is asked for
  obtain ⟨_, ⟨names, rfl⟩, hinherit⟩ :=
    n.run_inheritSelection ((σ.store.recordFor n key c).declaring c declaration) mid
  have hnearest : ((σ.store.recordFor n key c).declaring c declaration).coordinate.bind
      (mid.store.nearestSelection? n) = σ.store.nearestSelection? n c :=
    hwritten.nearestSelection? hσ hselected n c
  rw [hnearest] at hinherit
  refine .bind_ok hinherit ?_
  obtain ⟨default, selected, hrest⟩ := ((σ.store.recordFor n key c).declaring c declaration).under_spec
    (σ.store.nearestSelection? n c)
  refine .bind fun _ φ hsettle => ?_
  obtain ⟨hsettled, hquiet⟩ := leaves_settle (σ := { mid with listed := names }) hhushed
    (by rw [hrest]; exact (congrArg Dependency.listeners hwritten.record).symm) () φ hsettle
  intro i ψ hinsert
  cases hinsert
  refine ⟨hid, hconsistent.under _, (hwritten.trans hsettled).insert n key, fun hwaiting => ?_⟩
  exact (hquiet hwaiting).of_dependency fun j => φ.store.dependency_insert n key id j

/-- A default is selected where nothing is selected yet. -/
theorem leaves_selectDefault (h : σ.Hushed) (hsingle : (σ.store.dependency id).members = [])
    (v : Version) :
    Leaves (selectDefault id (some v.text)) (fun _ τ =>
      σ.store.Written id ((σ.store.dependency id).defaulting v) τ.store ∧
        ((σ.store.dependency id).Consistent →
          ((σ.store.dependency id).defaulting v).Consistent)) σ := by
  unfold selectDefault
  refine .bind_ok (run_view _ σ) ?_
  rw [Store.isSelected_of_single hsingle]
  cases hselected : (σ.store.dependency id).selected with
  | some w =>
    rw [Dependency.defaulting_of_selected hselected]
    intro _ τ hrun
    cases hrun
    exact ⟨.refl σ.store id, fun hconsistent => hconsistent⟩
  | none =>
    rw [Dependency.defaulting_of_none hselected]
    refine .bind_ok (run_view _ σ) (.bind_ofExcept fun d hselect => ?_)
    obtain ⟨haccepts, rfl⟩ := Dependency.accepts_of_select hselect
    intro _ τ hrun
    obtain ⟨hwritten, -⟩ := leaves_settle h rfl () τ hrun
    refine ⟨hwritten, fun _ => Dependency.consistent_iff_accepts.2 ?_⟩
    rintro w ⟨rfl⟩
    exact haccepts

end Namespace

end DependencyScope
