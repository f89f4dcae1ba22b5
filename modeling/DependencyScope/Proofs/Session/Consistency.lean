/-
  DependencyScope.Proofs.Session.Consistency — requirements accept the versions selected under them.

  From an empty registry, whatever operations follow each other, a dependency that has a requirement
  and a selection satisfies the requirement, unless some operation has used a spec unchecked.  And an
  unchecked use does break this: right after it there is a dependency with a requirement that
  rejects its selection.

  Main results:
    * `Session.consistent_after` — an operation without unchecked uses keeps all records consistent;
    * `Session.satisfied_iff_checked` — a run keeps them so throughout exactly if it has none;
    * `Session.unsatisfied_uncheckedRun` — a run of three operations that has one.
-/
import DependencyScope.Proofs.Session.Records

namespace DependencyScope

open DependencyScope.Text DependencyScope.Action

/-! ## §1. Lists of uses. -/

namespace SpecUse

/-- After each of the uses the records are consistent exactly if none of them is unchecked. -/
def Exact (uses : List SpecUse) : Prop :=
  (∀ u ∈ uses, u.after.Consistent) ↔ ∀ u ∈ uses, ¬u.Unchecked

theorem exact_nil : Exact [] := by simp [Exact]

theorem exact_toList {use : Option SpecUse} (h : ∀ u ∈ use, u.session.Consistent) :
    Exact use.toList := by
  cases use with
  | none => exact exact_nil
  | some u => simpa [Exact] using consistent_after_iff (h u rfl)

/-- Later uses may rely on the earlier ones being checked. -/
theorem exact_append {earlier later : List SpecUse} (hearlier : Exact earlier)
    (hlater : (∀ u ∈ earlier, ¬u.Unchecked) → Exact later) : Exact (earlier ++ later) := by
  unfold Exact
  rw [List.forall_mem_append, List.forall_mem_append]
  constructor
  · rintro ⟨hfirst, hrest⟩
    have hchecked := hearlier.1 hfirst
    exact ⟨hchecked, (hlater hchecked).1 hrest⟩
  · rintro ⟨hchecked, hrest⟩
    exact ⟨hearlier.2 hchecked, (hlater hchecked).2 hrest⟩

end SpecUse

/-! ## §2. Operations. -/

namespace Namespace

variable {n : Namespace} {σ : Session}

theorem session_of_specUse? {key : String} {value : Value} :
    ∀ u ∈ n.specUse? key value σ, u.session = σ := by
  intro u hu
  unfold specUse? at hu
  obtain ⟨use, -, rfl⟩ := Option.map_eq_some_iff.1 hu
  rfl

theorem exact_specUses (pairs : List (String × Value)) :
    ∀ {σ : Session}, σ.Consistent → SpecUse.Exact (n.specUses pairs σ) := by
  induction pairs with
  | nil => exact fun _ => SpecUse.exact_nil
  | cons pair pairs ih =>
    obtain ⟨key, value⟩ := pair
    intro σ hσ
    unfold specUses
    refine SpecUse.exact_append (SpecUse.exact_toList fun u hu => session_of_specUse? u hu ▸ hσ) ?_
    intro hchecked
    have hset : KeepsAt Session.Consistent (n.set key value) (fun _ => True) σ :=
      keepsAt_set Dependency.lasting_consistent.toRobust hσ fun u hu =>
        SpecUse.bears_consistent (hchecked u (Option.mem_toList.2 hu))
    rcases hrun : (n.set key value).run σ with ⟨result, τ⟩
    cases result with
    | ok e =>
      have hτ : τ.Consistent := by simpa [KeepsAt, hrun] using hset
      exact ih hτ
    | error e => exact SpecUse.exact_nil

theorem exact_openSubUses (hσ : σ.Consistent) (key : String) (pairs : List (String × Value)) :
    SpecUse.Exact (n.openSubUses key pairs σ) := by
  have hopen : KeepsAt Session.Consistent (n.openSub key) (fun _ => True) σ := keeps_openSub n key σ hσ
  unfold openSubUses
  rcases hrun : (n.openSub key).run σ with ⟨result, τ⟩
  cases result with
  | ok sub =>
    have hτ : τ.Consistent := by simpa [KeepsAt, hrun] using hopen
    have hheld : (held τ).Consistent := hτ
    exact exact_specUses pairs hheld
  | error e => exact SpecUse.exact_nil

theorem session_of_ownSpecUse? {text : String} :
    ∀ u ∈ n.ownSpecUse? text σ, u.session = σ := by
  intro u hu
  unfold ownSpecUse? at hu
  split at hu
  · exact nomatch hu
  · dsimp only at hu
    split at hu
    · cases hu
      rfl
    · exact nomatch hu

end Namespace

namespace Registry

theorem exact_specUses (tables : List (String × Std.TreeMap String ProfileValue)) :
    ∀ {σ : Session}, σ.Consistent → SpecUse.Exact (specUses tables σ) := by
  induction tables with
  | nil => exact fun _ => SpecUse.exact_nil
  | cons head tables ih =>
    obtain ⟨name, table⟩ := head
    intro σ hσ
    unfold specUses
    dsimp only
    have hread : Session.Consistent ((Action.read (Namespace.ofKey (.ofText name))).run σ).2 := by
      rw [run_read]
      exact hσ
    refine SpecUse.exact_append (Namespace.exact_specUses (assignments table) hread) ?_
    intro hchecked
    have happly : KeepsAt Session.Consistent (applyTable name table) (fun _ => True) σ :=
      keepsAt_applyTable Dependency.lasting_consistent.toRobust hσ fun u hu =>
        SpecUse.bears_consistent (hchecked u hu)
    rcases hrun : (applyTable name table).run σ with ⟨result, τ⟩
    cases result with
    | ok _ =>
      have hτ : τ.Consistent := by simpa [KeepsAt, hrun] using happly
      exact ih hτ
    | error e => exact SpecUse.exact_nil

end Registry

namespace Session

variable {σ : Session}

/-- An operation without unchecked uses keeps all records consistent. -/
theorem consistent_after (hσ : σ.Consistent) {operation : Operation}
    (hnew : ∀ d, operation = .newDependency d → d.selected = none)
    (h : ∀ u ∈ operation.specUses σ, ¬u.Unchecked) : (σ.after operation).Consistent :=
  (keepsAt_perform Dependency.lasting_consistent hσ
    (fun d hd => Dependency.consistent_of_unselected (hnew d hd)) (fun _ _ => trivial)
    fun u hu => SpecUse.bears_consistent (h u hu)).1

/-! ## §3. Runs. -/

theorem exact_specUses_operation (hσ : σ.Consistent) (operation : Operation) :
    SpecUse.Exact (operation.specUses σ) := by
  have hheld : (held σ).Consistent := hσ
  cases operation with
  | set n key value =>
    exact SpecUse.exact_toList fun u hu => Namespace.session_of_specUse? u hu ▸ hσ
  | useSpec n text =>
    exact SpecUse.exact_toList fun u hu => Namespace.session_of_ownSpecUse? u hu ▸ hheld
  | useAll n pairs => exact Namespace.exact_specUses pairs hheld
  | openSubUsing n key pairs => exact Namespace.exact_openSubUses hσ key pairs
  | load profile => exact Registry.exact_specUses _ hheld
  | _ => exact SpecUse.exact_nil

/-- A run without unchecked uses keeps all records consistent. -/
theorem consistent_afterAll (operations : List Operation) (hσ : σ.Consistent)
    (hnew : ∀ d, Operation.newDependency d ∈ operations → d.selected = none)
    (h : ∀ u ∈ specUses operations σ, ¬u.Unchecked) : (σ.afterAll operations).Consistent :=
  records_afterAll Dependency.lasting_consistent operations hσ
    (fun d hd => Dependency.consistent_of_unselected (hnew d hd)) (fun _ _ => trivial)
    fun u hu => SpecUse.bears_consistent (h u hu)

theorem exact_specUses (operations : List Operation) :
    ∀ {σ : Session}, σ.Consistent →
      (∀ d, Operation.newDependency d ∈ operations → d.selected = none) →
      SpecUse.Exact (specUses operations σ) := by
  induction operations with
  | nil => exact fun _ _ => SpecUse.exact_nil
  | cons operation rest ih =>
    intro σ hσ hnew
    refine SpecUse.exact_append (exact_specUses_operation hσ operation) ?_
    intro hchecked
    have hafter : (σ.after operation).Consistent :=
      consistent_after hσ (fun d hd => hnew d (by simp [hd])) hchecked
    exact ih hafter fun d hd => hnew d (List.mem_cons_of_mem _ hd)

/-- A single assignment keeps the records consistent exactly if its use of a spec is checked. -/
theorem consistent_after_set_iff (hσ : σ.Consistent) (n : Namespace) (key : String)
    (value : Value) :
    (σ.after (.set n key value)).Consistent ↔
      ∀ u ∈ (Operation.set n key value).specUses σ, ¬u.Unchecked := by
  have hafter : σ.after (.set n key value) = ((n.set key value).run σ).2 := run_return _ _ σ
  have huses : (Operation.set n key value).specUses σ = (n.specUse? key value σ).toList := rfl
  rw [hafter, huses]
  cases huse : n.specUse? key value σ with
  | none =>
    have hkeeps : Session.Consistent ((n.set key value).run σ).2 :=
      (Namespace.keepsAt_set Dependency.lasting_consistent.toRobust hσ (by simp [huse])).1
    simpa using hkeeps
  | some u =>
    unfold Namespace.specUse? at huse
    obtain ⟨⟨key', spec⟩, hlanded, rfl⟩ := Option.map_eq_some_iff.1 huse
    rw [Namespace.run_set, Namespace.run_setHere_of_specUse hlanded, run_return]
    let u : SpecUse := ⟨σ, (σ.store.landing n key).1, key', spec⟩
    have hiff : u.after.Consistent ↔ ¬u.Unchecked := SpecUse.consistent_after_iff hσ
    simpa [SpecUse.after, u] using hiff

/-- From an empty registry, the records are consistent after every use of a spec exactly if no use
is unchecked; and then whatever has a requirement and a selection at the end satisfies it.  A single
assignment breaks this exactly if it uses a spec unchecked.  Dependencies that are made outside the
namespaces have no selection when they are made. -/
theorem satisfied_iff_checked (followsProjects : Bool) (operations : List Operation)
    (hnew : ∀ d, Operation.newDependency d ∈ operations → d.selected = none) :
    ((∀ u ∈ specUses operations (start followsProjects), u.after.Consistent) ↔
      ∀ u ∈ specUses operations (start followsProjects), ¬u.Unchecked) ∧
    ((∀ u ∈ specUses operations (start followsProjects), ¬u.Unchecked) →
      ∀ id r v,
        (((start followsProjects).afterAll operations).store.dependency id).requirement = some r →
        (((start followsProjects).afterAll operations).store.dependency id).selected = some v →
        r.accepts v = true ∧
          (((start followsProjects).afterAll operations).store.dependency id).isSatisfied = true) ∧
    (((start followsProjects).afterAll operations).Consistent → ∀ n key value,
      (((start followsProjects).afterAll operations).after (.set n key value)).Consistent ↔
        ∀ u ∈ (Operation.set n key value).specUses ((start followsProjects).afterAll operations),
          ¬u.Unchecked) := by
  have hstart : (start followsProjects).Consistent := fun _ =>
    Dependency.consistent_of_unselected rfl
  refine ⟨exact_specUses operations hstart hnew, ?_, ?_⟩
  · intro hchecked id r v hr hv
    have hconsistent := consistent_afterAll operations hstart hnew hchecked id
    have hsatisfied := (Dependency.consistent_iff_isSatisfied _).1 hconsistent
    exact ⟨hconsistent r v hr hv, hsatisfied (by simp [hr]) (by simp [hv])⟩
  · exact fun hσ n key value => consistent_after_set_iff hσ n key value

/-- A version is selected, an enclosing namespace declares a requirement that accepts it, and then the
spec is used without a version. -/
def checkedRun : List Operation :=
  let inner : Namespace := .registered "a" 0
  [.newDependency { key := "k" }, .set inner "k" (.text "g:i:t:3"),
    .needAs (.registered rootName 0) "k" (.text "g:i:t:>=2"), .set inner "k" (.text "g:i:t")]

/-- Both specs are used checked, and what has been selected satisfies the requirement that the second
one has brought along. -/
theorem satisfied_checkedRun :
    (∀ d, Operation.newDependency d ∈ checkedRun → d.selected = none) ∧
    (specUses checkedRun (start true)).length = 2 ∧
    (∀ u ∈ specUses checkedRun (start true), ¬u.Unchecked ∧ u.after.Consistent) ∧
    (((start true).afterAll checkedRun).store.dependency 1).requirement.isSome ∧
    (((start true).afterAll checkedRun).store.dependency 1).isSatisfied = true := by
  have hnew : ∀ d, Operation.newDependency d ∈ checkedRun → d.selected = none := by
    intro d hd
    simp only [checkedRun, List.mem_cons, List.not_mem_nil, or_false, reduceCtorEq,
      Operation.newDependency.injEq] at hd
    rw [hd]
  have haccepts : ∀ u ∈ specUses checkedRun (start true), u.spec.version = none →
      u.inherited.all fun r => u.record.selected.all r.accepts := by decide +kernel
  have hchecked : ∀ u ∈ specUses checkedRun (start true), ¬u.Unchecked := by
    rintro u hu ⟨hversion, -, r, v, hr, hv, hrejects⟩
    have hall := haccepts u hu hversion
    rw [hr, hv] at hall
    exact absurd (hrejects.symm.trans hall) Bool.false_ne_true
  obtain ⟨hafter, hsatisfied, -⟩ := satisfied_iff_checked true checkedRun hnew
  have hrequired : (((start true).afterAll checkedRun).store.dependency 1).requirement.isSome := by
    decide +kernel
  have hselected : (((start true).afterAll checkedRun).store.dependency 1).selected.isSome := by
    decide +kernel
  obtain ⟨r, hr⟩ := Option.isSome_iff_exists.1 hrequired
  obtain ⟨v, hv⟩ := Option.isSome_iff_exists.1 hselected
  exact ⟨hnew, by decide +kernel, fun u hu => ⟨hchecked u hu, hafter.2 hchecked u hu⟩, hrequired,
    (hsatisfied hchecked 1 r v hr hv).2⟩

/-- A version is selected, an enclosing namespace declares a requirement that rejects it, and then
the spec is used without a version. -/
def uncheckedRun : List Operation :=
  let inner : Namespace := .registered "a" 0
  [.set inner "k" (.text "g:i:t:1"), .needAs (.registered rootName 0) "k" (.text "g:i:t:>=2"),
    .set inner "k" (.text "g:i:t")]

/-- After this run there is a dependency whose requirement rejects its selection. -/
theorem unsatisfied_uncheckedRun :
    (∀ d, Operation.newDependency d ∉ uncheckedRun) ∧
    ∃ id, (((start true).afterAll uncheckedRun).store.dependency id).requirement.isSome ∧
      (((start true).afterAll uncheckedRun).store.dependency id).selected.isSome ∧
      (((start true).afterAll uncheckedRun).store.dependency id).isSatisfied = false :=
  ⟨by simp [uncheckedRun], 0, by decide +kernel⟩

end Session

end DependencyScope
