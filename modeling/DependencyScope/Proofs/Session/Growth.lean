/-
  DependencyScope.Proofs.Session.Growth — actions make sound stores of sound stores.

  `GrowsAt act Q σ` says that from the session `σ` the action ends with a sound store in which all
  that has been made is still made, and that what it yields has `Q` in that store.  In contrast to
  `KeepsAt`, the property `Q` looks at the store, so that it can say that a new serial number has
  been handed out.

  Main definitions:
    * `Action.GrowsAt`, with its rules.

  Main results:
    * `Store.Grows.reselected` — listeners make sound stores of sound stores;
    * `growsAt_useSpecAs`, `growsAt_useVersionAs`, `growsAt_set` — assignments;
    * `growsAt_copy`, `growsAt_storeCopy` — copies, which share nothing with what was there;
    * `growsAt_setAll`, `GrowsAt.atomically` — batches of them.
-/
import DependencyScope.Proofs.Namespace.Assign
import DependencyScope.Proofs.Store.Narrow
import DependencyScope.Proofs.Store.Sharing

namespace DependencyScope

open DependencyScope.Text DependencyScope.Action

/-! ## §1. Members of records. -/

theorem Dependency.Reselects.members {d d' : Dependency} (h : d.Reselects d') :
    d'.members = d.members := by
  obtain ⟨selected, rfl⟩ := h.rest
  rfl

/-! ## §2. The judgement and its rules. -/

namespace Action

variable {α β : Type}

/-- From `σ` the action makes the store grow, and what it yields has `Q` in the store then. -/
def GrowsAt (act : Action α) (Q : α → Store → Prop) (σ : Session) : Prop :=
  σ.store.Grows (act.run σ).2.store ∧ Leaves act (fun a τ => Q a τ.store) σ

namespace GrowsAt

variable {act : Action α} {f : α → Action β} {Q : α → Store → Prop} {S : β → Store → Prop}
  {σ τ : Session}

theorem of_error {e : Error} (h : act.run σ = (.error e, τ)) (hτ : σ.store.Grows τ.store) :
    GrowsAt act Q σ := by
  unfold GrowsAt Leaves
  rw [h]
  exact ⟨hτ, fun _ _ heq => nomatch heq⟩

theorem of_ok {a : α} (h : act.run σ = (.ok a, τ)) (hτ : σ.store.Grows τ.store)
    (ha : Q a τ.store) : GrowsAt act Q σ := by
  unfold GrowsAt Leaves
  rw [h]
  refine ⟨hτ, ?_⟩
  rintro b υ ⟨rfl, rfl⟩
  exact ha

/-- An action does what another one does from a session with the same store. -/
theorem of_run {act' : Action α} (h : act.run σ = act'.run τ) (hstore : τ.store = σ.store)
    (hact : GrowsAt act' Q τ) : GrowsAt act Q σ := by
  unfold GrowsAt Leaves at hact ⊢
  rw [h, ← hstore]
  exact hact

theorem pure {a : α} (hσ : σ.store.Sound) (h : Q a σ.store) : GrowsAt (pure a) Q σ := by
  refine ⟨.refl hσ, ?_⟩
  intro b τ hrun
  cases hrun
  exact h

theorem throw (hσ : σ.store.Sound) (e : Error) : GrowsAt (throw e : Action α) Q σ :=
  .of_error (run_throw e σ) (.refl hσ)

theorem bind (hact : GrowsAt act Q σ)
    (hf : ∀ a τ, σ.store.Grows τ.store → Q a τ.store → GrowsAt (f a) S τ) :
    GrowsAt (act >>= f) S σ := by
  obtain ⟨hgrows, hresult⟩ := hact
  rcases hrun : act.run σ with ⟨result, τ⟩
  rw [hrun] at hgrows
  cases result with
  | error e => exact .of_error (run_bind_error hrun f) hgrows
  | ok a =>
    obtain ⟨hrest, hend⟩ := hf a τ hgrows (hresult a τ hrun)
    unfold GrowsAt Leaves
    rw [run_bind_ok hrun]
    exact ⟨hgrows.trans hrest, hend⟩

theorem imp (hact : GrowsAt act Q σ) {R : α → Store → Prop} (h : ∀ a s, Q a s → R a s) :
    GrowsAt act R σ :=
  ⟨hact.1, fun a τ hrun => h a _ (hact.2 a τ hrun)⟩

/-- Goes on behind a step that leaves the store as it is. -/
theorem bind_ok {a : α} (h : act.run σ = (.ok a, τ)) (hstore : τ.store = σ.store)
    (hf : GrowsAt (f a) S τ) : GrowsAt (act >>= f) S σ :=
  .of_run (run_bind_ok h f) hstore hf

/-- What is made of a result does not touch the store. -/
theorem map {g : α → β} (hact : GrowsAt act Q σ) (h : ∀ a s, Q a s → S (g a) s) :
    GrowsAt (do return g (← act)) S σ :=
  hact.bind fun a _ hτ ha => .pure hτ.sound (h a _ ha)

theorem guarded {c : Prop} [Decidable c] {e : Error} {g : PUnit → Action β} (hσ : σ.store.Sound)
    (h : ¬c → GrowsAt (g ⟨⟩) S σ) :
    GrowsAt (if c then (MonadExcept.throw e : Action PUnit) >>= g else g ⟨⟩) S σ := by
  split
  · exact .of_error (run_bind_error (run_throw e σ) g) (.refl hσ)
  · next hc => exact h hc

theorem view {g : Store → α} (hσ : σ.store.Sound) (h : Q (g σ.store) σ.store) :
    GrowsAt (Action.view g) Q σ := by
  refine ⟨.refl hσ, ?_⟩
  intro a τ hrun
  cases hrun
  exact h

theorem read {r : Reading α} [Reading.Discreet r] (hσ : σ.store.Sound)
    (h : Q (r.answer σ.store) σ.store) : GrowsAt (Action.read r) Q σ := by
  refine ⟨by rw [run_read]; exact .refl hσ, ?_⟩
  intro a τ hrun
  cases (run_read r σ).symm.trans hrun
  exact h

theorem ofExcept {result : Except Error α} (hσ : σ.store.Sound)
    (h : ∀ a, result = .ok a → Q a σ.store) : GrowsAt (Action.ofExcept result) Q σ := by
  refine ⟨.refl hσ, ?_⟩
  intro a τ hrun
  cases hrun
  exact h a rfl

theorem bind_ofExcept {result : Except Error α} (hσ : σ.store.Sound)
    (h : ∀ a, result = .ok a → GrowsAt (f a) S σ) : GrowsAt (Action.ofExcept result >>= f) S σ := by
  cases hresult : result with
  | error e => exact .of_error (run_bind_error (run_ofExcept _ σ) f) (.refl hσ)
  | ok a => exact .bind_ok (run_ofExcept _ σ) rfl (h a hresult)

theorem update {g : Store → Store} (h : σ.store.Grows (g σ.store)) :
    GrowsAt (Action.update g) (fun _ _ => True) σ :=
  ⟨h, fun _ _ _ => trivial⟩

theorem change {g : Store → α × Store} (h : σ.store.Grows (g σ.store).2)
    (hQ : Q (g σ.store).1 (g σ.store).2) : GrowsAt (Action.change g) Q σ := by
  refine ⟨h, ?_⟩
  intro a τ hrun
  cases hrun
  exact hQ

/-- Steps for each of several values, where what one of them yields is not undone by the others. -/
theorem mapM {γ : Type} {g : γ → Action α} (hQ : ∀ a s t, s.Grows t → Q a s → Q a t) :
    ∀ (cs : List γ) {σ : Session}, σ.store.Sound →
      (∀ c ∈ cs, ∀ τ : Session, τ.store.Sound → GrowsAt (g c) Q τ) →
      GrowsAt (cs.mapM g) (fun as s => ∀ a ∈ as, Q a s) σ
  | [], σ, hσ, _ => .pure hσ (by simp)
  | c :: cs, σ, hσ, h => by
    rw [List.mapM_cons]
    rw [List.forall_mem_cons] at h
    refine (h.1 σ hσ).bind fun a τ hτ ha => ?_
    refine (mapM hQ cs hτ.sound h.2).bind fun as υ hυ has => ?_
    exact .pure hυ.sound (List.forall_mem_cons.2 ⟨hQ a _ _ hυ ha, has⟩)

theorem mapM_true {γ : Type} {g : γ → Action α} (cs : List γ) (hσ : σ.store.Sound)
    (h : ∀ c ∈ cs, ∀ τ : Session, τ.store.Sound → GrowsAt (g c) (fun _ _ => True) τ) :
    GrowsAt (cs.mapM g) (fun _ _ => True) σ :=
  ⟨(mapM (fun _ _ _ _ _ => trivial) cs hσ h).1, fun _ _ _ => trivial⟩

theorem forM {γ : Type} {g : γ → Action PUnit} : ∀ (cs : List γ) {σ : Session}, σ.store.Sound →
    (∀ c ∈ cs, ∀ τ : Session, τ.store.Sound → GrowsAt (g c) (fun _ _ => True) τ) →
    GrowsAt (cs.forM g) (fun _ _ => True) σ
  | [], _, hσ, _ => .pure hσ trivial
  | c :: cs, σ, hσ, h => by
    rw [List.forall_mem_cons] at h
    exact (h.1 σ hσ).bind fun _ τ hτ _ => forM cs hτ.sound h.2

end GrowsAt

end Action

/-! ## §3. Listeners and batches. -/

namespace Store.Grows

/-- Selections leave the members as they are. -/
theorem reselected {s t u : Store} (h : s.Grows t) (hu : t.Reselected u) : s.Grows u := by
  have hmembers : ∀ id, (u.dependency id).members = (t.dependency id).members :=
    fun id => (hu.records id).members
  obtain ⟨dependencies, rfl⟩ := hu.rest
  refine h.trans (.of_ordered h.sound ?_ rfl rfl rfl rfl (Nat.le_refl _) (Nat.le_refl _) fun id _ =>
    hmembers id)
  refine ⟨fun id m hm => ?_, h.sound.ordered.entries, h.sound.ordered.index⟩
  exact h.sound.ordered.members id m (hmembers id ▸ hm)

theorem fire {s : Store} {σ : Session} (h : s.Grows σ.store) (id : DependencyId) :
    s.Grows (σ.fire id).store :=
  h.reselected (.fire σ id)

theorem announce {s : Store} {σ : Session} (h : s.Grows σ.store) (id : DependencyId) :
    s.Grows (σ.announce id).store :=
  h.reselected (.announce σ id)

end Store.Grows

namespace Action

variable {α : Type} {act : Action α} {σ : Session}

/-- Undoing what fails goes on from where it has failed. -/
theorem grows_restoring {undo : Session → Session → Session} (h : (act.run σ).2.store.Sound)
    (hundo : ∀ τ, (act.run σ).2 = τ → τ.store.Grows (undo σ τ).store) :
    (act.run σ).2.store.Grows ((Action.restoring undo act).run σ).2.store := by
  rcases hrun : act.run σ with ⟨result, τ⟩
  rw [hrun] at h hundo
  cases result with
  | ok a =>
    rw [run_restoring_ok hrun]
    exact .refl h
  | error e =>
    rw [run_restoring_error hrun]
    exact hundo τ rfl

/-- So does telling the listeners that were held back. -/
theorem grows_deferring (h : (act.run (held σ)).2.store.Sound) :
    (act.run (held σ)).2.store.Grows ((Action.deferring act).run σ).2.store := by
  cases hnone : σ.waiting with
  | some ids =>
    have hsome : σ.waiting.isSome := by simp [hnone]
    rw [held_of_waiting hsome] at h ⊢
    rw [run_deferring_inner hsome]
    exact .refl h
  | none =>
    rw [run_deferring_outer hnone]
    rcases hrun : act.run (held σ) with ⟨result, τ⟩
    rw [hrun] at h
    cases result with
    | error e => exact .refl h
    | ok a =>
      exact List.foldlRecOn (motive := fun υ : Session => τ.store.Grows υ.store) _ _ (.refl h)
        fun υ hυ id _ => hυ.fire id

/-- A batch goes on from where its steps have ended. -/
theorem grows_atomically {n : Namespace} (hσ : σ.store.Sound)
    (h : σ.store.Grows (act.run (held σ)).2.store) :
    (act.run (held σ)).2.store.Grows ((Action.atomically n act).run σ).2.store := by
  let undo (σ τ : Session) : Session := { τ with store := τ.store.restoreBelow σ.store [n] }
  have hrestored : (act.run (held σ)).2.store.Grows
      ((Action.restoring undo act).run (held σ)).2.store :=
    grows_restoring h.sound fun τ hrun => (hrun ▸ h : σ.store.Grows τ.store).restoreBelow hσ [n]
  exact hrestored.trans (grows_deferring hrestored.sound)

namespace GrowsAt

theorem restoring {undo : Session → Session → Session} (h : GrowsAt act (fun _ _ => True) σ)
    (hundo : ∀ τ : Session, σ.store.Grows τ.store → τ.store.Grows (undo σ τ).store) :
    GrowsAt (Action.restoring undo act) (fun _ _ => True) σ :=
  ⟨h.1.trans (grows_restoring h.1.sound fun _ hrun => hundo _ (hrun ▸ h.1)), fun _ _ _ => trivial⟩

theorem deferring (h : GrowsAt act (fun _ _ => True) (held σ)) :
    GrowsAt (Action.deferring act) (fun _ _ => True) σ :=
  ⟨h.1.trans (grows_deferring h.1.sound), fun _ _ _ => trivial⟩

theorem atomically {n : Namespace} (hσ : σ.store.Sound)
    (h : GrowsAt act (fun _ _ => True) (held σ)) :
    GrowsAt (Action.atomically n act) (fun _ _ => True) σ :=
  ⟨h.1.trans (grows_atomically hσ h.1), fun _ _ _ => trivial⟩

end GrowsAt

end Action

/-! ## §4. Steps on dependencies. -/

/-- A serial number has been handed out. -/
def Store.Issued (id : DependencyId) (s : Store) : Prop := id < s.nextDependency

/-- So has that of a dependency which is no group. -/
def Store.IssuedSingle (id : DependencyId) (s : Store) : Prop :=
  Store.Issued id s ∧ (s.dependency id).members = []

theorem Store.Grows.issued {s t : Store} {id : DependencyId} (h : s.Grows t)
    (hid : Store.Issued id s) : Store.Issued id t :=
  h.lt hid

namespace Session

variable {σ : Session}

theorem growsAt_announce (hσ : σ.store.Sound) (id : DependencyId) :
    GrowsAt (Action.announce id) (fun _ _ => True) σ :=
  ⟨Store.Grows.announce (.refl hσ) id, fun _ _ _ => trivial⟩

theorem growsAt_settle (hσ : σ.store.Sound) {id : DependencyId} {outcome : Dependency.Outcome}
    (h : outcome.dependency.members = (σ.store.dependency id).members) :
    GrowsAt (settle id outcome) (fun _ _ => True) σ := by
  unfold settle
  refine (GrowsAt.update (.putDependency hσ h)).bind fun _ τ hτ _ => ?_
  split
  · exact growsAt_announce hτ.sound id
  · exact .pure hτ.sound trivial

/-- A step that keeps the members of a record. -/
theorem growsAt_step {β : Type} (hσ : σ.store.Sound) (id : DependencyId)
    {step : Dependency → Except Error β} {outcome : β → Dependency.Outcome}
    (hstep : ∀ d b, step d = .ok b → (outcome b).dependency.members = d.members) :
    GrowsAt (do
      let d ← Action.view (·.dependency id)
      settle id (outcome (← Action.ofExcept (step d)))) (fun _ _ => True) σ := by
  have hview : GrowsAt (Action.view (·.dependency id)) (fun d s => d = s.dependency id) σ :=
    .view hσ rfl
  refine hview.bind fun d τ hτ hd => ?_
  have hresult : GrowsAt (Action.ofExcept (step d)) (fun b s =>
      (outcome b).dependency.members = (s.dependency id).members) τ :=
    .ofExcept hτ.sound fun b hb => hd ▸ hstep d b hb
  exact hresult.bind fun b υ hυ hb => growsAt_settle hυ.sound hb

theorem growsAt_select (hσ : σ.store.Sound) (id : DependencyId) (text : String) :
    GrowsAt (Action.select id text) (fun _ _ => True) σ :=
  growsAt_step hσ id fun _ _ h => Dependency.members_of_select h

theorem growsAt_declare (hσ : σ.store.Sound) (id : DependencyId) (declaration : Declaration) :
    GrowsAt (Action.declare id declaration) (fun _ _ => True) σ :=
  growsAt_step hσ id fun _ _ h => Dependency.members_of_declare h

theorem growsAt_chooseOn (hσ : σ.store.Sound) (id : DependencyId) (version : VersionText) :
    GrowsAt (Namespace.chooseOn id version) (fun _ _ => True) σ :=
  growsAt_step hσ id fun _ _ h => Dependency.members_of_choose h

theorem growsAt_setCoordinate (hσ : σ.store.Sound) (id : DependencyId) (coordinate : Coordinate) :
    GrowsAt (setCoordinate id coordinate) (fun _ _ => True) σ :=
  .update (.putDependency hσ rfl)

theorem growsAt_addDependency (hσ : σ.store.Sound) {d : Dependency} (hd : d.members = []) :
    GrowsAt (Action.change (·.addDependency d)) (fun id s =>
      s.MadeSince σ.store.nextDependency id ∧ (s.dependency id).members = []) σ := by
  have hmembers : ∀ m ∈ d.members, σ.store.MadeSince σ.store.nextDependency m := by simp [hd]
  have hnew := Store.madeSince_addDependency hσ (Nat.le_refl _) hmembers
  refine .change (Store.Grows.addDependency hσ fun m hm => (hmembers m hm).issued).1 ⟨hnew, ?_⟩
  rw [Store.dependency_added]
  exact hd

theorem growsAt_copy (hσ : σ.store.Sound) (source : DependencyId) (key : String) :
    GrowsAt (Action.change (·.copy source key))
      (fun id s => s.MadeSince σ.store.nextDependency id) σ :=
  .change (Store.copy_spec hσ source key).toGrows (Store.madeSince_copy hσ source key)

/-! ## §5. Writes to a namespace. -/

variable {n : Namespace}

theorem growsAt_insert (hσ : σ.store.Sound) (n : Namespace) (key : String) {id : DependencyId}
    (hid : Store.Issued id σ.store) :
    GrowsAt (Action.update (·.insert n key id)) (fun _ _ => True) σ := by
  have hentry := Store.Grows.putEntry hσ n key (e := .dependency id) (by rintro _ ⟨⟩; exact hid)
  exact .update (hentry.trans (.putIndex hentry.sound n (hentry.lt hid)))

theorem growsAt_insertThen (hσ : σ.store.Sound) (n : Namespace) (key : String) {id : DependencyId}
    (hid : Store.Issued id σ.store) {Q : DependencyId → Store → Prop}
    (hQ : ∀ s, σ.store.Grows s → Q id s) :
    GrowsAt (do Action.update (·.insert n key id); return id) Q σ :=
  (growsAt_insert hσ n key hid).bind fun _ τ hτ _ => .pure hτ.sound (hQ τ.store hτ)

theorem growsAt_ensureNoSub (hσ : σ.store.Sound) (n : Namespace) (key : String) :
    GrowsAt (n.ensureNoSub key) (fun _ s => s = σ.store) σ := by
  unfold GrowsAt Leaves
  rw [Namespace.run_ensureNoSub]
  split
  · exact ⟨.refl hσ, fun _ _ hrun => by cases hrun; rfl⟩
  · exact ⟨.refl hσ, fun _ _ hrun => nomatch hrun⟩

theorem growsAt_storeCopy (hσ : σ.store.Sound) (n : Namespace) (key : String)
    (source : DependencyId) :
    GrowsAt (n.storeCopy key source) (fun id s => s.MadeSince σ.store.nextDependency id) σ :=
  (growsAt_copy hσ source key).bind fun _ _ hτ hcopy =>
    growsAt_insertThen hτ.sound n key hcopy.issued fun _ hs => hs.madeSince hcopy

theorem grows_registerMembers {s : Store} (n : Namespace) (byId : Bool) :
    ∀ (members : List DependencyId) {t : Store}, s.Grows t → (∀ m ∈ members, Store.Issued m t) →
      s.Grows (members.foldl (n.registerMember byId) t)
  | [], _, ht, _ => ht
  | member :: rest, t, ht, hmembers => by
    rw [List.forall_mem_cons] at hmembers
    have hindex : t.Grows (t.putIndex n member) := .putIndex ht.sound n hmembers.1
    have hfirst : t.Grows (n.registerMember byId t member) := by
      unfold Namespace.registerMember
      dsimp only
      split
      · refine hindex.trans (.putEntry hindex.sound n _ ?_)
        rintro _ ⟨⟩
        exact hindex.lt hmembers.1
      · exact hindex
    exact grows_registerMembers n byId rest (ht.trans hfirst) fun m hm =>
      hfirst.lt (hmembers.2 m hm)

theorem growsAt_storeGroup (hσ : σ.store.Sound) (n : Namespace) (key : String)
    {members : List Dependency} (hmembers : ∀ d ∈ members, d.members = []) (byId : Bool) :
    GrowsAt (n.storeGroup key members byId) Store.Issued σ := by
  unfold Namespace.storeGroup
  have hids : GrowsAt (members.mapM fun member => Action.change (·.addDependency member))
      (fun ids s => ∀ id ∈ ids, Store.Issued id s) σ :=
    .mapM (Q := Store.Issued) (fun _ _ _ hgrows => hgrows.issued) members hσ fun member hmember _ hτ =>
      (growsAt_addDependency hτ (hmembers member hmember)).imp fun _ _ h => h.1.issued
  refine hids.bind fun ids τ hτ hids => ?_
  obtain ⟨hgroup, hissued⟩ := Store.Grows.addDependency hτ.sound
    (d := { key := key, members := ids }) hids
  have hadd : GrowsAt (Action.change (·.addDependency { key := key, members := ids }))
      (fun group s => Store.Issued group s ∧ ∀ id ∈ ids, Store.Issued id s) τ :=
    .change hgroup ⟨hissued, fun id hid => hgroup.lt (hids id hid)⟩
  refine hadd.bind fun group υ hυ hgroup => ?_
  have hentry := Store.Grows.putEntry hυ.sound n key (e := .dependency group)
    (by rintro _ ⟨⟩; exact hgroup.1)
  have hregister := grows_registerMembers n byId ids hentry fun id hid =>
    hentry.lt (hgroup.2 id hid)
  exact (GrowsAt.update hregister).bind fun _ _ hφ _ => .pure hφ.sound (hφ.lt hgroup.1)

theorem growsAt_storeSub (hσ : σ.store.Sound) (n : Namespace) (key : String) (sub : Namespace) :
    GrowsAt (n.storeSub key sub) (fun _ _ => True) σ := by
  unfold Namespace.storeSub
  refine .guarded hσ fun _ => ?_
  have hown : GrowsAt (Action.view (·.ownDependency? n key)) (fun _ _ => True) σ := .view hσ trivial
  refine hown.bind fun own τ hτ _ => .guarded hτ.sound fun _ => ?_
  exact (GrowsAt.update (.putEntry hτ.sound n key (by simp))).bind fun _ _ hυ _ =>
    .pure hυ.sound trivial

/-! ## §6. Assignments. -/

theorem growsAt_parse {α : Type} (hσ : σ.store.Sound) (result : Except Error α) :
    GrowsAt (Action.ofExcept result) (fun a _ => result = .ok a) σ :=
  .ofExcept hσ fun _ h => h

theorem growsAt_putOutcome (hσ : σ.store.Sound) (n : Namespace) (key : String)
    (coordinate : Coordinate) {target : Option DependencyId} {d : Dependency}
    {outcome : Dependency.Outcome}
    (htarget : ∀ id, target = some id → Store.IssuedSingle id σ.store)
    (hd : d.members = []) (houtcome : outcome.dependency.members = []) :
    GrowsAt (n.putOutcome key coordinate target d outcome) Store.Issued σ := by
  unfold Namespace.putOutcome
  have horNew : GrowsAt (Action.orNew target d) Store.IssuedSingle σ := by
    unfold Action.orNew
    cases target with
    | some id => exact .pure hσ (htarget id rfl)
    | none => exact (growsAt_addDependency hσ hd).imp fun _ _ h => ⟨h.1.issued, h.2⟩
  refine horNew.bind fun id τ hτ hid => ?_
  refine (growsAt_settle hτ.sound (houtcome.trans hid.2.symm)).bind fun _ υ hυ _ => ?_
  refine (growsAt_setCoordinate hυ.sound id coordinate).bind fun _ φ hφ _ => ?_
  have hissued := hφ.issued (hυ.issued hid.1)
  exact growsAt_insertThen hφ.sound n key hissued fun _ hs => hs.issued hissued

theorem growsAt_useSpecAs (hσ : σ.store.Sound) (n : Namespace) (key : String) (spec : Spec) :
    GrowsAt (n.useSpecAs key spec) Store.Issued σ := by
  obtain ⟨τ, ⟨names, rfl⟩, hrun⟩ := n.run_useSpecAs key spec σ
  cases houtcome : σ.store.specOutcome n key spec with
  | error e =>
    rw [houtcome] at hrun
    exact .of_error hrun (.refl hσ)
  | ok outcome =>
    rw [houtcome] at hrun
    have hown : ∀ id, σ.store.ownFor? n key spec.coordinate = some id →
        Store.IssuedSingle id σ.store :=
      fun id hown => ⟨hσ.ordered.entries n key id (Store.ownDependency?_of_ownFor? hown),
        Store.members_of_ownFor? hown⟩
    exact .of_run hrun rfl (growsAt_putOutcome (σ := { σ with listed := names }) hσ n key
      spec.coordinate hown (Store.members_recordFor _ _ _ _) (Store.members_of_specOutcome houtcome))

theorem growsAt_copyInherited (hσ : σ.store.Sound) (n : Namespace) (key : String) :
    GrowsAt (n.copyInherited key) (fun id s => s.MadeSince σ.store.nextDependency id) σ := by
  unfold Namespace.copyInherited
  have hread : GrowsAt (Action.read (n.inheritedDependency key)) (fun _ _ => True) σ :=
    .read hσ trivial
  refine hread.bind fun inherited τ hτ _ => ?_
  have hmono {id : DependencyId} {s : Store} (h : s.MadeSince τ.store.nextDependency id) :
      s.MadeSince σ.store.nextDependency id :=
    h.mono hτ.dependencies
  cases inherited with
  | some inherited => exact (growsAt_copy hτ.sound inherited key).imp fun _ _ => hmono
  | none => exact (growsAt_addDependency hτ.sound rfl).imp fun _ _ h => hmono h.1

/-- A version is used on the dependency that the key holds, or else on one that is made for it. -/
theorem growsAt_useVersionAs (hσ : σ.store.Sound) (n : Namespace) (key text : String) :
    GrowsAt (n.useVersionAs key text) (fun id s =>
      s.Taken (σ.store.ownDependency? n key) σ.store.nextDependency id) σ := by
  unfold Namespace.useVersionAs
  refine .bind_ofExcept hσ fun version _ => ?_
  refine .bind_ok (run_view _ σ) rfl ?_
  cases hown : σ.store.ownDependency? n key with
  | some id =>
    have hissued : Store.Issued id σ.store := hσ.ordered.entries n key id hown
    exact (growsAt_chooseOn hσ id version).bind fun _ _ hτ _ =>
      .pure hτ.sound (.own (hτ.issued hissued))
  | none =>
    refine (growsAt_copyInherited hσ n key).bind fun id τ hτ hid => ?_
    refine (growsAt_chooseOn hτ.sound id version).bind fun _ υ hυ _ => ?_
    exact growsAt_insertThen hυ.sound n key (hυ.issued hid.issued) fun _ hs =>
      (hs.madeSince (hυ.madeSince hid)).taken

theorem growsAt_useTextAs (hσ : σ.store.Sound) (n : Namespace) (key text : String) :
    GrowsAt (n.useTextAs key text) Store.Issued σ := by
  unfold Namespace.useTextAs
  split
  · exact (growsAt_parse hσ (Spec.parse text)).bind fun spec _ hτ _ =>
      growsAt_useSpecAs hτ.sound n key spec
  · exact (growsAt_useVersionAs hσ n key text).imp fun _ _ h => h.issued

theorem members_of_groupMember {text : String} {member : Dependency}
    (h : Namespace.groupMember text = .ok member) : member.members = [] := by
  unfold Namespace.groupMember at h
  obtain ⟨spec, -, hrest⟩ := bind_eq_ok.1 h
  obtain ⟨version, -, hchosen⟩ := bind_eq_ok.1 hrest
  obtain ⟨outcome, hchoose, hmember⟩ := bind_eq_ok.1 hchosen
  cases hmember
  exact Dependency.members_of_choose hchoose

theorem growsAt_useGroupAs (hσ : σ.store.Sound) (n : Namespace) (key : String)
    (specs : List String) : GrowsAt (n.useGroupAs key specs) Store.Issued σ := by
  unfold Namespace.useGroupAs
  refine .guarded hσ fun _ => ?_
  refine (growsAt_parse hσ (specs.mapM Namespace.groupMember)).bind fun members _ hτ hparse => ?_
  exact growsAt_storeGroup hτ.sound n key
    (Tolerates.forall_of_mapM_ok specs (fun _ _ _ => members_of_groupMember) hparse) true

theorem growsAt_setHere (hσ : σ.store.Sound) (n : Namespace) (key : String) (value : Value) :
    GrowsAt (n.setHere key value) (fun _ _ => True) σ := by
  unfold Namespace.setHere
  have hkey : GrowsAt (n.localKey key) (fun _ _ => True) σ := by
    refine ⟨?_, fun _ _ _ => trivial⟩
    rw [Namespace.run_localKey]
    split <;> exact .refl hσ
  refine hkey.bind fun key' τ hτ _ => ?_
  have hcopy (source : DependencyId) {υ : Session} (hυ : υ.store.Sound) : GrowsAt
      (do n.ensureNoSub key'; return Entry.dependency (← n.storeCopy key' source))
      (fun _ _ => True) υ :=
    (growsAt_ensureNoSub hυ n key').bind fun _ _ hφ _ =>
      (growsAt_storeCopy hφ.sound n key' source).map fun _ _ _ => trivial
  cases value with
  | sub sub => exact growsAt_storeSub hτ.sound n key' sub
  | key other =>
    have hread : GrowsAt (Action.read (n.lookup other)) (fun _ _ => True) τ := .read hτ.sound trivial
    refine hread.bind fun found υ hυ _ => ?_
    rcases found with _ | ⟨source⟩ | ⟨sub⟩
    · exact .throw hυ.sound _
    · exact hcopy source hυ.sound
    · exact growsAt_storeSub hυ.sound n key' sub
  | text text =>
    exact (growsAt_ensureNoSub hτ.sound n key').bind fun _ _ hυ _ =>
      (growsAt_useTextAs hυ.sound n key' text).map fun _ _ _ => trivial
  | group specs =>
    exact (growsAt_ensureNoSub hτ.sound n key').bind fun _ _ hυ _ =>
      (growsAt_useGroupAs hυ.sound n key' specs).map fun _ _ _ => trivial
  | dependency source => exact hcopy source hτ.sound

theorem growsAt_set (hσ : σ.store.Sound) (n : Namespace) (key : String) (value : Value) :
    GrowsAt (n.set key value) (fun _ _ => True) σ :=
  .of_run (n.run_set key value σ) rfl (growsAt_setHere hσ _ _ value)

theorem growsAt_setAll (hσ : σ.store.Sound) (n : Namespace) (pairs : List (String × Value)) :
    GrowsAt (pairs.mapM fun (key, value) => n.set key value) (fun _ _ => True) σ :=
  .mapM_true pairs hσ fun pair _ _ hτ => growsAt_set hτ n pair.1 pair.2

theorem growsAt_useAll (hσ : σ.store.Sound) (n : Namespace) (pairs : List (String × Value)) :
    GrowsAt (n.useAll pairs) (fun _ _ => True) σ :=
  .atomically hσ (growsAt_setAll (σ := held σ) hσ n pairs)

end Session

end DependencyScope
