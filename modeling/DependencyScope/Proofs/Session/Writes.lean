/-
  DependencyScope.Proofs.Session.Writes — what the writes to one namespace keep.

  An operation on a namespace puts entries into it, registers dependencies in its index, changes
  records of dependencies and makes new dependencies.  What such an operation keeps depends on three
  things only: which dependencies it may write, which records it may give them, and whether the
  invariant stands each single write.

  Main definitions:
    * `Dependency.Robust`, `Dependency.Lasting` — a property of records that no step on a dependency
      ends;
    * `ToleratesRecords` — an invariant stands the single changes of records;
    * `Tolerates` — it also stands the single writes to a namespace.

  Main results:
    * `Session.fireWithin_of_select` — what every selection keeps, listeners keep;
    * `Action.members_settle`, `.members_declare` — no step on a dependency changes its members;
    * `ToleratesRecords.keeps_settle`, `.keeps_select`, `.keeps_declare` — steps on one dependency;
    * `Tolerates.keeps_copy`, `.keeps_storeCopy`, `.keeps_storeGroup` — new dependencies.
-/
import DependencyScope.Namespace.Use
import DependencyScope.Proofs.Session.Keeps

namespace DependencyScope

/-! ## §1. Properties of records. -/

/-- A property of records that new records have and that no write to a record ends, as long as only
declarations with `A` are made and only coordinates with `C` are given.  Coordinates are given to
records without members, and the copy of such a record has none either.  Using a spec without a
version is left out: it puts a requirement onto a record without a look at the rest. -/
structure Dependency.Robust (A : Declaration → Prop) (C : Coordinate → Prop)
    (D : Dependency → Prop) : Prop where
  declared (key : String) {coordinate : Option Coordinate} {declaration : Declaration} :
    (∀ c ∈ coordinate, C c) → A declaration → D {
      key := key
      coordinate := coordinate
      requirement := declaration.requirement
      defaultVersion := declaration.default }
  group (key : String) (members : List DependencyId) : D { key := key, members := members }
  copied {d : Dependency} (key : String) (members : List DependencyId) :
    (d.members = [] → members = []) → D d →
      D { d with key := key, members := members, listeners := [] }
  located {d : Dependency} {coordinate : Coordinate} :
    d.members = [] → C coordinate → D d → D { d with coordinate := some coordinate }
  undefaulted {d : Dependency} : D d → D { d with defaultVersion := none }
  selected {d d' : Dependency} {text : String} : D d → d.select text = .ok d' → D d'
  declares {d d' : Dependency} {declaration : Declaration} :
    A declaration → D d → d.declare declaration = .ok d' → D d'
  chosen {d : Dependency} {inherited : Option Requirement} {version : VersionText}
      {outcome : Dependency.Outcome} :
    D d → d.choose inherited (some version) = .ok outcome → D outcome.dependency
  /-- What a record says may be declared for another one. -/
  redeclared {d : Dependency} : D d → A ⟨d.requirement, d.version⟩
  /-- Another record may be given the same coordinate. -/
  relocated {d : Dependency} : D d → ∀ c ∈ d.coordinate, C c
  read {text : String} {spec : Spec} : Spec.parse text = .ok spec → C spec.coordinate

/-- A robust property of records that listeners make no difference to. -/
structure Dependency.Lasting (A : Declaration → Prop) (C : Coordinate → Prop)
    (D : Dependency → Prop) : Prop extends Dependency.Robust A C D where
  listening {d : Dependency} (listeners : List Listener) : D d → D { d with listeners := listeners }

namespace Dependency.Robust

variable {A : Declaration → Prop} {C : Coordinate → Prop} {D : Dependency → Prop}

/-- Taking over a selection either selects or gives up the default. -/
theorem adopted (hD : Robust A C D) {d : Dependency} (h : D d) (enclosing : String) :
    D (d.adopt enclosing).dependency := by
  unfold adopt
  split
  · next selected hselect => exact hD.selected h hselect
  · exact hD.undefaulted h

/-- A record that declares nothing. -/
theorem fresh (hD : Robust A C D) (key : String) {coordinate : Option Coordinate}
    (hC : ∀ c ∈ coordinate, C c) : D { key := key, coordinate := coordinate } :=
  hD.declared key hC (hD.redeclared (hD.group "" []))

/-- A record without a coordinate. -/
theorem unlocated (hD : Robust A C D) (key : String) : D { key := key } :=
  hD.fresh key fun _ h => nomatch h

end Dependency.Robust

/-! ## §2. What steps and listeners leave as it was. -/

namespace Dependency

variable {d d' : Dependency}

theorem members_of_select {text : String} (h : d.select text = .ok d') : d'.members = d.members := by
  unfold select at h
  obtain ⟨version, -, rfl⟩ := map_eq_ok.1 h
  rfl

theorem declare_spec {declaration : Declaration} (h : d.declare declaration = .ok d') :
    d' = { d with requirement := declaration.requirement, defaultVersion := declaration.default } := by
  unfold declare at h
  dsimp only at h
  split at h
  · obtain ⟨version, -, rfl⟩ := map_eq_ok.1 h
    rfl
  · cases h
    rfl

theorem members_of_declare {declaration : Declaration} (h : d.declare declaration = .ok d') :
    d'.members = d.members := by
  rw [declare_spec h]

theorem members_of_choose {inherited : Option Requirement} {version : Option VersionText}
    {outcome : Outcome} (h : d.choose inherited version = .ok outcome) :
    outcome.dependency.members = d.members := by
  unfold choose at h
  split at h
  · cases h
    rfl
  · obtain ⟨checked, -, rfl⟩ := map_eq_ok.1 h
    rfl
  · dsimp only at h
    split at h
    · obtain ⟨checked, -, rfl⟩ := map_eq_ok.1 h
      rfl
    · obtain ⟨declared, hdeclare, rfl⟩ := map_eq_ok.1 h
      exact members_of_declare hdeclare

theorem members_of_not_isGroup (h : d.isGroup = false) : d.members = [] := by
  simpa [isGroup] using h

end Dependency

/-- What every selection keeps is kept when listeners are told: each listener of each dependency on
the way selects at most once more. -/
theorem Session.fireWithin_of_select {C : Store → Prop}
    (hselect : ∀ {s : Store} {id : DependencyId} {text : String} {d : Dependency}, C s →
      (s.dependency id).select text = .ok d → C (s.putDependency id d)) (depth : Nat) :
    ∀ (id : DependencyId) {σ : Session}, C σ.store → C (Session.fireWithin depth id σ).store := by
  induction depth with
  | zero => exact fun _ _ hσ => hσ
  | succ depth ih =>
    intro id σ hσ
    unfold Session.fireWithin
    refine List.foldlRecOn (motive := fun τ : Session => C τ.store) _ _ hσ ?_
    intro τ hτ listener _
    dsimp only
    split
    · exact hτ
    · next next _ =>
      split
      · exact hτ
      · next selected hselected => exact ih next (hselect hτ hselected)

/-- Listeners leave all members as they are. -/
theorem Session.members_announce (σ : Session) (id i : DependencyId) :
    ((σ.announce id).store.dependency i).members = (σ.store.dependency i).members := by
  unfold Session.announce
  split
  · rfl
  · refine fireWithin_of_select
      (C := fun s => (s.dependency i).members = (σ.store.dependency i).members) ?_ _ id rfl
    intro s j text d hs hselect
    rw [Store.dependency_putDependency]
    split
    · next heq => exact (Dependency.members_of_select hselect).trans (heq ▸ hs)
    · exact hs

namespace Action

variable {id : DependencyId} {σ τ : Session}

theorem members_settle {outcome : Dependency.Outcome}
    (hrun : (settle id outcome).run σ = (.ok (), τ)) :
    (τ.store.dependency id).members = outcome.dependency.members := by
  let put : Session := { σ with store := σ.store.putDependency id outcome.dependency }
  have hput : (put.store.dependency id).members = outcome.dependency.members := by simp [put]
  unfold settle at hrun
  rw [run_bind_ok (run_update _ σ)] at hrun
  split at hrun
  · obtain rfl : put.announce id = τ := congrArg Prod.snd hrun
    exact (put.members_announce id id).trans hput
  · obtain rfl : put = τ := congrArg Prod.snd hrun
    exact hput

theorem members_declare {declaration : Declaration}
    (hrun : (declare id declaration).run σ = (.ok (), τ)) :
    (τ.store.dependency id).members = (σ.store.dependency id).members := by
  unfold declare at hrun
  rw [run_bind_ok (run_view _ σ)] at hrun
  obtain ⟨d, υ, hdeclare, hsettle⟩ := run_bind_eq_ok.1 hrun
  rw [run_ofExcept] at hdeclare
  exact (members_settle hsettle).trans
    (Dependency.members_of_declare (congrArg Prod.fst hdeclare))

end Action

/-! ## §3. Invariants that stand writes. -/

/-- The invariant `I` stands every single change of a record, as long as only dependencies with `P`
are written and only records with `D` are given to them. -/
structure ToleratesRecords (I : Session → Prop) (P : DependencyId → Prop)
    (D : Dependency → Prop) : Prop where
  unlisted : Action.Unlisted I
  /-- Every record has `D`, also those that may not be written. -/
  record {σ : Session} (hσ : I σ) (id : DependencyId) : D (σ.store.dependency id)
  put {σ : Session} (hσ : I σ) {id : DependencyId} {d : Dependency} :
    P id → D d → I { σ with store := σ.store.putDependency id d }
  announce {σ : Session} (hσ : I σ) {id : DependencyId} : P id → I (σ.announce id)

/-- The invariant `I` also stands every single write to the namespace `n`, as long as only
dependencies with `P` are put into it. -/
structure Tolerates (I : Session → Prop) (n : Namespace) (P : DependencyId → Prop)
    (D : Dependency → Prop) : Prop extends ToleratesRecords I P D where
  own {σ : Session} (hσ : I σ) {key : String} {id : DependencyId} :
    σ.store.ownDependency? n key = some id → P id
  add {σ : Session} (hσ : I σ) {d : Dependency} :
    D d → I { σ with store := (σ.store.addDependency d).2 } ∧ P σ.store.nextDependency
  entry {σ : Session} (hσ : I σ) (key : String) {id : DependencyId} :
    P id → I { σ with store := σ.store.putEntry n key (.dependency id) }
  index {σ : Session} (hσ : I σ) {id : DependencyId} :
    P id → I { σ with store := σ.store.putIndex n id }

/-! ## §4. Steps on one dependency. -/

namespace ToleratesRecords

open DependencyScope.Action

variable {I : Session → Prop} {P : DependencyId → Prop} {A : Declaration → Prop}
  {C : Coordinate → Prop} {D : Dependency → Prop}

theorem keeps_announce (h : ToleratesRecords I P D) {id : DependencyId} (hid : P id) :
    Keeps I (Action.announce id) fun _ => True :=
  fun _ hσ => ⟨h.announce hσ hid, fun _ _ => trivial⟩

theorem keeps_dependency (h : ToleratesRecords I P D) (id : DependencyId) :
    Keeps I (Action.view (·.dependency id)) D :=
  .view fun _ hσ => h.record hσ id

theorem keeps_putDependency (h : ToleratesRecords I P D) {id : DependencyId} {d : Dependency}
    (hid : P id) (hd : D d) : Keeps I (Action.update (·.putDependency id d)) fun _ => True :=
  .update fun _ hσ => h.put hσ hid hd

theorem keeps_settle (h : ToleratesRecords I P D) {id : DependencyId} {outcome : Dependency.Outcome}
    (hid : P id) (hd : D outcome.dependency) : Keeps I (settle id outcome) fun _ => True := by
  unfold settle
  refine (h.keeps_putDependency hid hd).bind fun _ _ => ?_
  split
  · exact h.keeps_announce hid
  · exact .pure trivial

theorem keeps_select (h : ToleratesRecords I P D) (hD : Dependency.Robust A C D) {id : DependencyId}
    (hid : P id) (text : String) : Keeps I (Action.select id text) fun _ => True := by
  unfold Action.select
  refine (h.keeps_dependency id).bind fun d hd => ?_
  have hselected : Keeps I (Action.ofExcept (d.select text)) D :=
    .ofExcept fun _ hselect => hD.selected hd hselect
  exact hselected.bind fun _ hd' => h.keeps_settle hid hd'

theorem keeps_declare (h : ToleratesRecords I P D) (hD : Dependency.Robust A C D) {id : DependencyId}
    (hid : P id) {declaration : Declaration} (hA : A declaration) :
    Keeps I (Action.declare id declaration) fun _ => True := by
  unfold Action.declare
  refine (h.keeps_dependency id).bind fun d hd => ?_
  have hdeclared : Keeps I (Action.ofExcept (d.declare declaration)) D :=
    .ofExcept fun _ hdeclare => hD.declares hA hd hdeclare
  exact hdeclared.bind fun _ hd' => h.keeps_settle hid hd'

/-- Only what is no group may be given a coordinate. -/
theorem keepsAt_setCoordinate (h : ToleratesRecords I P D) (hD : Dependency.Robust A C D)
    {σ : Session} (hσ : I σ) {id : DependencyId} (hid : P id) {coordinate : Coordinate}
    (hC : C coordinate) (hsingle : (σ.store.dependency id).members = []) :
    KeepsAt I (setCoordinate id coordinate) (fun _ => True) σ :=
  ⟨h.put hσ hid (hD.located hsingle hC (h.record hσ id)), fun _ _ => trivial⟩

theorem keeps_chooseOn (h : ToleratesRecords I P D) (hD : Dependency.Robust A C D) {id : DependencyId}
    (hid : P id) (version : VersionText) :
    Keeps I (Namespace.chooseOn id version) fun _ => True := by
  unfold Namespace.chooseOn
  refine (h.keeps_dependency id).bind fun d hd => ?_
  have hchosen : Keeps I (Action.ofExcept (d.choose none (some version)))
      fun outcome => D outcome.dependency :=
    .ofExcept fun _ hchoose => hD.chosen hd hchoose
  exact hchosen.bind fun _ houtcome => h.keeps_settle hid houtcome

end ToleratesRecords

namespace Tolerates

open DependencyScope.Action

variable {I : Session → Prop} {n : Namespace} {P : DependencyId → Prop} {A : Declaration → Prop}
  {C : Coordinate → Prop} {D : Dependency → Prop}

/-! ## §5. New dependencies. -/

theorem keeps_addDependency (h : Tolerates I n P D) {d : Dependency} (hd : D d) :
    Keeps I (Action.change (·.addDependency d)) P :=
  .change fun _ hσ => h.add hσ hd

/-- Copying makes a new dependency for each copied one, members first. -/
theorem copyWithin (h : Tolerates I n P D) (hD : Dependency.Robust A C D) (depth : Nat) :
    ∀ {σ : Session} (_ : I σ) (id : DependencyId) (key : String),
      I { σ with store := (σ.store.copyWithin depth id key).2 }
        ∧ P (σ.store.copyWithin depth id key).1 := by
  induction depth with
  | zero =>
    intro σ hσ id key
    have hcopy : D { σ.store.dependency id with key := key, listeners := [] } :=
      hD.copied key _ (fun hsingle => hsingle) (h.record hσ id)
    exact h.add hσ hcopy
  | succ depth ih =>
    intro σ hσ id key
    have hd : D (σ.store.dependency id) := h.record hσ id
    -- the copies of the members are made one after the other
    have hmembers : ∀ (members copies : List DependencyId) {τ : Session}, I τ →
        I { τ with
          store := (members.foldl
            (fun (found : List DependencyId × Store) member =>
              (found.1 ++ [(found.2.copyWithin depth member (found.2.dependency member).key).1],
                (found.2.copyWithin depth member (found.2.dependency member).key).2))
            (copies, τ.store)).2 } := by
      intro members
      induction members with
      | nil => exact fun _ _ hτ => hτ
      | cons member members ihmembers =>
        intro copies τ hτ
        exact ihmembers _ (ih hτ member (τ.store.dependency member).key).1
    have hcopies := hmembers (σ.store.dependency id).members [] hσ
    refine h.add hcopies (hD.copied key _ (fun hsingle => ?_) hd)
    rw [hsingle]
    rfl

theorem keeps_copy (h : Tolerates I n P D) (hD : Dependency.Robust A C D) (source : DependencyId)
    (key : String) : Keeps I (Action.change (·.copy source key)) P :=
  .change fun _ hσ => h.copyWithin hD source hσ source key

theorem keeps_insert (h : Tolerates I n P D) {id : DependencyId} (hid : P id) (key : String) :
    Keeps I (Action.update (·.insert n key id)) fun _ => True :=
  .update fun _ hσ => h.index (h.entry hσ key hid) hid

theorem keeps_storeCopy (h : Tolerates I n P D) (hD : Dependency.Robust A C D) (key : String)
    (source : DependencyId) : Keeps I (n.storeCopy key source) P := by
  unfold Namespace.storeCopy
  refine (h.keeps_copy hD source key).bind fun copy hcopy => ?_
  exact (h.keeps_insert hcopy key).bind fun _ _ => .pure hcopy

theorem registerMember (h : Tolerates I n P D) (byId : Bool) {σ : Session} (hσ : I σ)
    {member : DependencyId} (hmember : P member) :
    I { σ with store := n.registerMember byId σ.store member } := by
  have hindex := h.index hσ hmember
  unfold Namespace.registerMember
  dsimp only
  split
  · exact h.entry hindex _ hmember
  · exact hindex

theorem registerMembers (h : Tolerates I n P D) (byId : Bool) (members : List DependencyId) :
    ∀ {σ : Session}, I σ → (∀ member ∈ members, P member) →
      I { σ with store := members.foldl (n.registerMember byId) σ.store } := by
  induction members with
  | nil => exact fun hσ _ => hσ
  | cons member members ih =>
    intro σ hσ hmembers
    have hfirst := h.registerMember byId hσ (hmembers member (by simp))
    exact ih hfirst fun other hother => hmembers other (by simp [hother])

theorem keeps_storeGroup (h : Tolerates I n P D) (hD : Dependency.Robust A C D) (key : String)
    {members : List Dependency} (hmembers : ∀ d ∈ members, D d) (byId : Bool) :
    Keeps I (n.storeGroup key members byId) P := by
  unfold Namespace.storeGroup
  have hids : Keeps I (members.mapM fun member => Action.change (·.addDependency member))
      fun ids => ∀ id ∈ ids, P id :=
    .mapM members fun member hmember => h.keeps_addDependency (hmembers member hmember)
  refine hids.bind fun ids hids => ?_
  refine (h.keeps_addDependency (hD.group key ids)).bind fun group hgroup => ?_
  have hregister : Keeps I (Action.update fun s =>
      ids.foldl (n.registerMember byId) (s.putEntry n key (.dependency group))) fun _ => True :=
    .update fun σ hσ => h.registerMembers byId ids (h.entry hσ key hgroup) hids
  exact hregister.bind fun _ _ => .pure hgroup

end Tolerates

end DependencyScope
