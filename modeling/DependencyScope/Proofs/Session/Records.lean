/-
  DependencyScope.Proofs.Session.Records — what every record keeps through a run.

  A property of records that lasts is kept by every operation, as long as the declarations that the
  operation makes are as the property asks for, and the specs that it uses without a version keep the
  property by themselves.  Undoing a batch puts records back that had the property.

  Main definitions:
    * `Operation.declarations` — the declarations that are written in an operation.

  Main results:
    * `Namespace.keepsAt_set`, `.keepsAt_useAll`, `.keepsAt_useSpec`, `Registry.keepsAt_load`;
    * `Session.keepsAt_perform` — what an operation keeps of every record;
    * `Session.Records.after`, `Session.records_afterAll` — what operations and runs keep.
-/
import DependencyScope.Proofs.Session.Questions
import DependencyScope.Proofs.Session.SpecUse

namespace DependencyScope

open DependencyScope.Text DependencyScope.Action

variable {A : Declaration → Prop} {C : Coordinate → Prop} {D : Dependency → Prop} {σ : Session}

/-! ## §1. Assignments and batches of them. -/

namespace Namespace

variable {n : Namespace}

theorem keepsAt_set (hD : Dependency.Robust A C D) (hσ : σ.Records D) {key : String} {value : Value}
    (h : ∀ u ∈ n.specUse? key value σ, u.Bears D) :
    KeepsAt (Session.Records D) (n.set key value) (fun _ => True) σ := by
  unfold KeepsAt
  rw [run_set]
  have htolerates := tolerates_records hD (σ.store.landing n key).1
  refine htolerates.keepsAt_setHere hD hσ ?_ ?_
  · exact fun _ _ _ _ hτ => hτ.of_dependency fun _ => rfl
  · intro key' spec huse hversion
    let u : SpecUse := ⟨σ, (σ.store.landing n key).1, key', spec⟩
    have hu : u ∈ n.specUse? key value σ := by
      unfold specUse?
      exact Option.map_eq_some_iff.2 ⟨(key', spec), huse, rfl⟩
    obtain ⟨text, -, hparse⟩ := Store.exists_of_specUse? huse
    exact h u hu hversion (htolerates.recordFor hD hσ key' (hD.read hparse))

/-- Several assignments keep what each of their uses bears. -/
theorem keepsAt_setAll (hD : Dependency.Robust A C D) (pairs : List (String × Value)) :
    ∀ {σ : Session}, σ.Records D → (∀ u ∈ n.specUses pairs σ, u.Bears D) →
      KeepsAt (Session.Records D) (pairs.mapM fun (key, value) => n.set key value)
        (fun _ => True) σ := by
  induction pairs with
  | nil => exact fun hσ _ => ⟨hσ, fun _ _ => trivial⟩
  | cons pair pairs ih =>
    obtain ⟨key, value⟩ := pair
    intro σ hσ h
    rw [List.mapM_cons]
    unfold specUses at h
    rw [List.forall_mem_append] at h
    refine (keepsAt_set hD hσ fun u hu => h.1 u (Option.mem_toList.2 hu)).bind_run ?_
    -- the uses behind the first are those of the run from where it ends
    intro e τ hrun hτ _
    rw [hrun] at h
    exact (ih hτ h.2).bind fun _ _ => .pure trivial

/-- What a batch puts back had the property. -/
theorem endsBatch_records (hD : Dependency.Robust A C D) (hσ : σ.Records D) :
    EndsBatch (Session.Records D) n σ where
  undo _ hτ := hτ.restore hσ _ _
  waiting _ hτ := hτ
  fire _ id hτ := hτ.fire hD id

theorem keepsAt_useAll (hD : Dependency.Robust A C D) (hσ : σ.Records D)
    {pairs : List (String × Value)} (h : ∀ u ∈ n.specUses pairs (held σ), u.Bears D) :
    KeepsAt (Session.Records D) (n.useAll pairs) (fun _ => True) σ :=
  (keepsAt_setAll (σ := held σ) hD pairs hσ h).atomically (endsBatch_records hD hσ)

theorem keeps_openSub (n : Namespace) (key : String) :
    Keeps (Session.Records D) (n.openSub key) fun _ => True := by
  unfold openSub
  have hentry : Keeps (Session.Records D) (Action.view (·.entryAt? n (trim key))) fun _ => True :=
    .view fun _ _ => trivial
  refine hentry.bind fun found _ => ?_
  rcases found with _ | ⟨id⟩ | ⟨sub⟩
  · exact .change fun σ hσ => ⟨hσ.of_dependency fun _ => rfl, trivial⟩
  · exact .throw _
  · exact .pure trivial

theorem keepsAt_openSubUsing (hD : Dependency.Robust A C D) (hσ : σ.Records D) {key : String}
    {pairs : List (String × Value)} (h : ∀ u ∈ n.openSubUses key pairs σ, u.Bears D) :
    KeepsAt (Session.Records D) (n.openSubUsing key pairs) (fun _ => True) σ := by
  unfold openSubUsing
  refine (keeps_openSub n key σ hσ).bind_run ?_
  intro sub τ hrun hτ _
  unfold openSubUses at h
  rw [hrun] at h
  exact (keepsAt_useAll hD hτ h).bind fun _ _ => .pure trivial

/-- The declaration of a spec under its own name, if it declares a requirement. -/
def ownDeclaration? (text : String) : Option Declaration :=
  ((NeedSpec.parse text).toOption.filter (·.requirement.isSome)).bind (·.declaration.toOption)

/-- What a batch for a spec under its own name does. -/
def ownUse (n : Namespace) (text : String) : Action DependencyId := do
  let need ← Action.ofExcept (NeedSpec.parse text)
  let (target, key) ← Action.view (·.landing n need.key)
  target.ensureNoSub key
  if need.requirement.isNone then target.useSpecAs key need.spec
  else
    let declaration ← Action.ofExcept need.declaration
    let id ← target.declareAs key need.spec.coordinate declaration
    selectDefault id declaration.default
    return id

theorem useSpec_eq (n : Namespace) (text : String) :
    n.useSpec text = atomically n (n.ownUse text) := rfl

/-- A spec under its own name is either declared or used. -/
theorem keepsAt_ownUse {I : Session → Prop} {P : DependencyId → Prop}
    (hland : Tolerates.Landing I n P D) (hD : Dependency.Robust A C D) (hσ : I σ) {text : String}
    (hA : ∀ declaration ∈ ownDeclaration? text, A declaration)
    (h : ∀ u ∈ n.ownSpecUse? text σ, u.Bears D) :
    KeepsAt I (n.ownUse text) (fun _ => True) σ := by
  unfold ownUse
  cases hparse : NeedSpec.parse text with
  | error e => exact .bind_error (run_ofExcept _ _) hσ
  | ok need =>
    have hC : C need.spec.coordinate := by
      obtain ⟨coordinate, hspec⟩ := NeedSpec.exists_of_parse hparse
      exact hD.read hspec
    refine .bind_ok (run_ofExcept _ _) ?_
    refine .bind_ok (run_view _ _) ?_
    -- the place where the key leads is as tolerant as the namespace
    have hplace := hland σ hσ need.key
    by_cases hfree : ((σ.store.entryAt? (σ.store.landing n need.key).1
        (σ.store.landing n need.key).2).bind Entry.sub?).isNone
    · refine .bind_ok (by rw [run_ensureNoSub, if_pos hfree]) ?_
      -- a spec without a requirement is used, and one with it is declared
      split
      · next hnone =>
        let u : SpecUse := ⟨σ, (σ.store.landing n need.key).1, (σ.store.landing n need.key).2,
          need.spec⟩
        have hu : u ∈ n.ownSpecUse? text σ := by
          simp [ownSpecUse?, hparse, hnone, hfree, u]
        have huse : KeepsAt I (u.target.useSpecAs u.key u.spec) P σ :=
          hplace.keepsAt_useSpecAs hD hσ hC fun hversion =>
            h u hu hversion (hplace.recordFor hD hσ _ hC)
        exact ⟨huse.1, fun _ _ => trivial⟩
      · next hsome =>
        have hdeclaration : Keeps I (Action.ofExcept need.declaration) A := by
          refine .ofExcept fun declaration hmake => hA declaration ?_
          have hrequirement : need.requirement.isSome := by
            simpa [Option.isSome_iff_ne_none] using hsome
          simp [ownDeclaration?, hparse, hmake, hrequirement, Except.toOption, Option.filter]
        refine (hdeclaration.bind fun declaration hdeclaration => ?_) _ hσ
        refine (hplace.keeps_declareAs hD _ hC hdeclaration).bind fun id hid => ?_
        exact (hplace.keeps_selectDefault hD hid declaration.default).bind fun _ _ => .pure trivial
    · exact .bind_error (by rw [run_ensureNoSub, if_neg hfree]) hσ

theorem keepsAt_useSpec {I : Session → Prop} {P : DependencyId → Prop}
    (hland : Tolerates.Landing I n P D) (hD : Dependency.Robust A C D) (hheld : I (held σ))
    (hend : EndsBatch I n σ) {text : String}
    (hA : ∀ declaration ∈ ownDeclaration? text, A declaration)
    (h : ∀ u ∈ n.ownSpecUse? text (held σ), u.Bears D) :
    KeepsAt I (n.useSpec text) (fun _ => True) σ := by
  rw [useSpec_eq]
  exact (keepsAt_ownUse hland hD hheld hA h).atomically hend

end Namespace

/-! ## §2. Profiles. -/

namespace Registry

theorem keepsAt_applyTable (hD : Dependency.Robust A C D) {name : String}
    {table : Std.TreeMap String ProfileValue} (hσ : σ.Records D)
    (h : ∀ u ∈ ((Namespace.ofKey (.ofText name)).answer σ.store).specUses (assignments table)
      ((Action.read (Namespace.ofKey (.ofText name))).run σ).2, u.Bears D) :
    KeepsAt (Session.Records D) (applyTable name table) (fun _ => True) σ := by
  unfold applyTable
  rw [run_read] at h
  refine .bind_ok (run_read _ σ) ?_
  have hread : Session.Records D
    { σ with listed := (Namespace.ofKey (.ofText name)).listing σ } := hσ
  exact (Namespace.keepsAt_setAll hD (assignments table) hread h).bind fun _ _ => .pure trivial

theorem keepsAt_applyTables (hD : Dependency.Robust A C D)
    (tables : List (String × Std.TreeMap String ProfileValue)) :
    ∀ {σ : Session}, σ.Records D → (∀ u ∈ specUses tables σ, u.Bears D) →
      KeepsAt (Session.Records D) (tables.forM fun (name, table) => applyTable name table)
        (fun _ => True) σ := by
  induction tables with
  | nil => exact fun hσ _ => ⟨hσ, fun _ _ => trivial⟩
  | cons head tables ih =>
    obtain ⟨name, table⟩ := head
    intro σ hσ h
    unfold specUses at h
    dsimp only at h
    rw [List.forall_mem_append] at h
    refine (keepsAt_applyTable hD hσ h.1).bind_run ?_
    intro _ τ hrun hτ _
    rw [hrun] at h
    exact ih hτ h.2

theorem keepsAt_load (hD : Dependency.Robust A C D) {profile : Profile} (hσ : σ.Records D)
    (h : ∀ u ∈ specUses profile.artifacts.toList (held σ), u.Bears D) :
    KeepsAt (Session.Records D) (load profile) (fun _ => True) σ := by
  refine .deferring (.restoring (keepsAt_applyTables hD _ hσ h) ?_) ?_ ?_
  · exact fun τ hτ => hτ.restore hσ _ _
  · exact fun τ hτ => hτ
  · exact fun τ id hτ => hτ.fire hD id

end Registry

/-! ## §3. All operations. -/

/-- The declarations that are written in an operation. -/
def Operation.declarations : Operation → List Declaration
  | .need _ text => (NeedSpec.declared? text).toList
  | .needAs _ _ value => value.declarations
  | .needAll _ pairs => pairs.flatMap fun pair => pair.2.declarations
  | .require _ _ text requirement =>
    (do Declaration.make (← Spec.parse text).version requirement).toOption.toList
  | .useSpec _ text => (Namespace.ownDeclaration? text).toList
  | .declare _ declaration => [declaration]
  | .newDependency d => [⟨d.requirement, d.defaultVersion⟩]
  | _ => []

namespace Session

/-- Every namespace tolerates the writes, so every place where a key lands does. -/
theorem landing_records (hD : Dependency.Robust A C D) (n : Namespace) :
    Tolerates.Landing (Session.Records D) n (fun _ => True) D :=
  fun _ _ _ => tolerates_records hD _

/-- A question changes nothing. -/
theorem keeps_view {α : Type} (f : Store → α) :
    Keeps (Session.Records D) (Action.view f) fun _ => True :=
  .view fun _ _ => trivial

/-- Changes that leave the records alone keep what they have. -/
theorem keeps_update {f : Store → Store} (h : ∀ s id, (f s).dependency id = s.dependency id) :
    Keeps (Session.Records D) (Action.update f) fun _ => True :=
  .update fun σ hσ => hσ.of_dependency fun id => h σ.store id

theorem keeps_change {α : Type} {f : Store → α × Store}
    (h : ∀ s id, (f s).2.dependency id = s.dependency id) :
    Keeps (Session.Records D) (Action.change f) fun _ => True :=
  .change fun σ hσ => ⟨hσ.of_dependency fun id => h σ.store id, trivial⟩

section Links

variable {I : Session → Prop} (hlisted : Unlisted I)
  (hlink : ∀ (n : Namespace) link (τ : Session), I τ → I { τ with store := τ.store.putLink n link })

include hlisted

theorem keeps_ensureAcyclic (n candidate : Namespace) :
    Keeps I (n.ensureAcyclic candidate) fun _ => True := by
  have hread : Keeps I (Action.read (n.encloses candidate)) fun _ => True :=
    .read hlisted fun _ _ => trivial
  unfold Namespace.ensureAcyclic
  refine hread.bind fun cyclic _ => ?_
  split
  · exact .throw _
  · exact .pure trivial

include hlink

/-- Setting a parent changes one link. -/
theorem keeps_setParent (n : Namespace) (parent : ParentRef) :
    Keeps I (n.setParent parent) fun _ => True := by
  have hresolved : Keeps I (n.parentLink parent) fun _ => True := by
    unfold Namespace.parentLink
    split
    · exact .pure trivial
    · have hview : Keeps I (Action.view (·.attached n)) fun _ => True := .view fun _ _ => trivial
      refine hview.bind fun attached _ => ?_
      split
      · have hread (key : NamespaceKey) : Keeps I (Action.read (Namespace.ofKey key)) fun _ => True :=
          .read hlisted fun _ _ => trivial
        refine (hread _).bind fun candidate _ => ?_
        exact (keeps_ensureAcyclic hlisted n candidate).bind fun _ _ => .pure trivial
      · exact .throw _
    · next candidate =>
      exact (keeps_ensureAcyclic hlisted n candidate).bind fun _ _ => .pure trivial
  unfold Namespace.setParent
  refine .guarded fun _ => ?_
  exact hresolved.bind fun link _ => .update (hlink n link)

theorem keeps_attach (path : List String) : Keeps I (Registry.attach path) fun _ => True := by
  have hread : Keeps I (Action.read (Namespace.ofKey (.path path))) fun _ => True :=
    .read hlisted fun _ _ => trivial
  unfold Registry.attach
  refine hread.bind fun n _ => ?_
  split
  · exact .pure trivial
  · exact (keeps_setParent hlisted hlink n _).bind fun _ _ => .pure trivial

end Links

/-- An operation keeps what lasts, where it declares as asked for and bears what it uses. -/
theorem keepsAt_perform (hD : Dependency.Lasting A C D) (hσ : σ.Records D) {operation : Operation}
    (hnew : ∀ d, operation = .newDependency d → D d)
    (hA : ∀ declaration ∈ operation.declarations, A declaration)
    (h : ∀ u ∈ operation.specUses σ, u.Bears D) :
    KeepsAt (Session.Records D) (perform operation) (fun _ => True) σ := by
  have hD' := hD.toRobust
  -- steps on a dependency by itself are as good as steps in any namespace
  have hanywhere := tolerates_records hD' (.registered rootName 0)
  have hlisted : Unlisted (Session.Records D) := fun _ _ hτ => hτ
  have hlink (n : Namespace) (link : ParentLink) (τ : Session) (hτ : τ.Records D) :
      Session.Records D { τ with store := τ.store.putLink n link } :=
    hτ.of_dependency fun _ => rfl
  have hreply {α : Type} {act : Action α} {Q : α → Prop} {f : α → Reply}
      (hact : KeepsAt (Session.Records D) act Q σ) :
      KeepsAt (Session.Records D) (do return f (← act)) (fun _ => True) σ :=
    hact.bind fun _ _ => .pure trivial
  have hdone {act : Action Unit} {Q : Unit → Prop} {reply : Reply}
      (hact : KeepsAt (Session.Records D) act Q σ) :
      KeepsAt (Session.Records D) (do act; return reply) (fun _ => True) σ :=
    hact.bind fun _ _ => .pure trivial
  cases hasks : operation.asks with
  | true =>
    refine ⟨?_, fun _ _ => trivial⟩
    show (σ.after operation).Records D
    exact hσ.of_dependency fun _ => by rw [(alike_after hasks σ).store]
  | false =>
    cases operation with
    -- assignments and what is made of them
    | set n key value =>
      exact hreply (Namespace.keepsAt_set hD' hσ fun u hu => h u (Option.mem_toList.2 hu))
    | useSpec n text =>
      exact hreply (Namespace.keepsAt_useSpec (landing_records hD' n) hD' hσ
        (Namespace.endsBatch_records hD' hσ) (fun x hx => hA x (Option.mem_toList.2 hx))
        fun u hu => h u (Option.mem_toList.2 hu))
    | useAll n pairs => exact hreply (Namespace.keepsAt_useAll hD' hσ h)
    | openSubUsing n key pairs => exact hreply (Namespace.keepsAt_openSubUsing hD' hσ h)
    | load profile => exact hdone (Registry.keepsAt_load hD' hσ h)
    -- declarations and copies
    | need n text =>
      exact hreply (Tolerates.keeps_need (landing_records hD' n) hD'
        (fun x hx => hA x (Option.mem_toList.2 hx)) σ hσ)
    | needAs n key value =>
      exact hreply (Tolerates.keeps_needAs (landing_records hD' n) hD' (fun _ _ h => h) key hA σ hσ)
    | needAll n pairs =>
      have hneeds : Keeps (Session.Records D) (pairs.mapM fun (key, value) => n.needAs key value)
          fun ids => ∀ id ∈ ids, True :=
        .mapM pairs fun pair hpair =>
          Tolerates.keeps_needAs (landing_records hD' n) hD' (fun _ _ h => h) pair.1
            fun x hx => hA x (List.mem_flatMap.2 ⟨pair, hpair, hx⟩)
      exact hreply ((hneeds (held σ) hσ).atomically (Namespace.endsBatch_records hD' hσ))
    | require n key text requirement =>
      refine hreply (Tolerates.keeps_require (landing_records hD' n) hD' key ?_ σ hσ)
      intro spec declaration hspec hmake
      refine hA declaration (Option.mem_toList.2 ?_)
      rw [hspec]
      show declaration ∈ (Declaration.make spec.version requirement).toOption
      rw [hmake]
      rfl
    | useInherited n key => exact hreply ((tolerates_records hD' n).keeps_useInherited hD' key σ hσ)
    | addAlias n key existing =>
      exact hreply ((tolerates_records hD' n).keepsAt_addAlias (landing_records hD' n) hD' hσ key
        fun _ _ => trivial)
    | copy id key =>
      exact (keeps_view (·.dependency id)).bind
        (fun d _ => (hanywhere.keeps_copy hD' id _).bind fun _ _ => .pure trivial) σ hσ
    -- steps on one dependency
    | newDependency d => exact hreply (hanywhere.keeps_addDependency (hnew d rfl) σ hσ)
    | select id version => exact hdone (hanywhere.keeps_select hD' trivial version σ hσ)
    | declare id declaration =>
      have hdeclaration := hA declaration (by simp [Operation.declarations])
      exact hdone (hanywhere.keeps_declare hD' trivial hdeclaration σ hσ)
    | listen id listener =>
      refine hdone (Keeps.update (fun τ hτ => ?_) σ hσ)
      exact hτ.putDependency id (hD.listening _ (hτ id))
    -- links, entries taken out, and the registry
    | setParent n parent => exact hdone (keeps_setParent hlisted hlink n parent σ hσ)
    | openSub n key => exact hreply (Namespace.keeps_openSub n key σ hσ)
    | delete n key => exact hreply (keeps_change (fun _ _ => rfl) σ hσ)
    | clear n => exact hdone (keeps_update (fun _ _ => rfl) σ hσ)
    | attach path => exact hreply (keeps_attach hlisted hlink path σ hσ)
    | detached name => exact hreply (keeps_change (fun _ _ => rfl) σ hσ)
    | clearRegistry => exact ⟨hσ, fun _ _ => trivial⟩
    | releaseRegistry => exact hdone (keeps_update (fun _ _ => rfl) σ hσ)
    | enter project =>
      exact (keeps_update fun _ _ => rfl).bind
        (fun _ _ => (keeps_view (·.projects)).bind fun _ _ => .pure trivial) σ hσ
    | exit => exact hreply (keeps_change (fun _ _ => rfl) σ hσ)
    -- all the others are questions
    | _ => exact nomatch hasks

/-! ## §4. Runs. -/

/-- Where any declaration will do and every use of a spec is borne, one operation keeps what lasts as
long as it brings along no record of another sort. -/
theorem Records.after (hD : Dependency.Lasting (fun _ => True) C D)
    (hbears : ∀ u : SpecUse, u.Bears D) (hσ : σ.Records D) {operation : Operation}
    (hnew : ∀ d, operation = .newDependency d → D d) : (σ.after operation).Records D :=
  (keepsAt_perform hD hσ hnew (fun _ _ => trivial) fun u _ => hbears u).1

/-- A run keeps what lasts, where it declares as asked for and bears what it uses. -/
theorem records_afterAll (hD : Dependency.Lasting A C D) (operations : List Operation) :
    ∀ {σ : Session}, σ.Records D →
      (∀ d, Operation.newDependency d ∈ operations → D d) →
      (∀ declaration ∈ operations.flatMap Operation.declarations, A declaration) →
      (∀ u ∈ specUses operations σ, u.Bears D) → (σ.afterAll operations).Records D := by
  induction operations with
  | nil => exact fun hσ _ _ _ => hσ
  | cons operation rest ih =>
    intro σ hσ hnew hA h
    unfold specUses at h
    rw [List.forall_mem_append] at h
    rw [List.flatMap_cons, List.forall_mem_append] at hA
    have hafter : (σ.after operation).Records D :=
      (keepsAt_perform hD hσ (fun d hd => hnew d (by simp [hd])) hA.1 h.1).1
    exact ih hafter (fun d hd => hnew d (List.mem_cons_of_mem _ hd)) hA.2 h.2

end Session

end DependencyScope
