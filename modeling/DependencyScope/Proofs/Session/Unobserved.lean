/-
  DependencyScope.Proofs.Session.Unobserved — questions that go unnoticed.

  Asking writes to the session: it makes namespaces that hold nothing in the registry's table, and
  it marks namespaces while their parents are found.  The marks are gone when the answer is there,
  and no operation looks at which names are listed, apart from those that list or count the names.
  So an action does the same in two sessions that differ only there, and ends in two such sessions,
  through failures, clearings and changes of the project as well.  Questions may therefore be put
  anywhere into a run, and every other step of it has the reply that it has without them.

  Main definitions:
    * `Action.Oblivious` — the listed names make no difference to an action;
    * `Turn` — the turns of a run with questions put in.

  Main results:
    * `Action.Oblivious.bind` and the other rules;
    * `Session.oblivious_perform` — the listed names make no difference to an operation;
    * `Session.answers_interspersed` — the steps of a run do not notice questions between them.
-/
import DependencyScope.Proofs.Session.Questions

namespace DependencyScope

open DependencyScope.Text DependencyScope.Action

/-! ## §1. Sessions that differ in the listed names. -/

namespace Session.Alike

variable {σ τ : Session}

theorem held (h : σ.Alike τ) : (held σ).Alike (held τ) := by
  obtain ⟨names, rfl⟩ := h
  exact ⟨names, rfl⟩

/-- Listeners are told the same. -/
theorem fireWithin (depth : Nat) : ∀ (id : DependencyId) {σ τ : Session}, σ.Alike τ →
    (Session.fireWithin depth id σ).Alike (Session.fireWithin depth id τ) := by
  induction depth with
  | zero => exact fun _ _ _ h => h
  | succ depth ih =>
    intro id σ τ h
    unfold Session.fireWithin
    rw [h.store]
    refine List.foldl_rel h fun listener _ υ φ hυ => ?_
    obtain ⟨names, rfl⟩ := hυ
    cases listener.chain with
    | none => exact ⟨names, rfl⟩
    | some next =>
      dsimp only [Session.record]
      cases (υ.store.dependency next).select ((υ.store.dependency id).version.getD "") with
      | error e => exact ⟨names, rfl⟩
      | ok selected =>
        refine ih next ?_
        exact ⟨names, rfl⟩

theorem fire (h : σ.Alike τ) (id : DependencyId) : (σ.fire id).Alike (τ.fire id) := by
  unfold Session.fire
  rw [h.store]
  exact fireWithin _ id h

theorem announce (h : σ.Alike τ) (id : DependencyId) : (σ.announce id).Alike (τ.announce id) := by
  unfold Session.announce
  rw [h.waiting]
  split
  · obtain ⟨names, rfl⟩ := h
    exact ⟨names, rfl⟩
  · exact h.fire id

end Session.Alike

namespace Session

/-- Telling listeners lists no names, and notes no selections. -/
theorem rest_fireWithin (depth : Nat) : ∀ (id : DependencyId) (σ : Session),
    (fireWithin depth id σ).listed = σ.listed ∧ (fireWithin depth id σ).waiting = σ.waiting := by
  induction depth with
  | zero => exact fun _ _ => ⟨rfl, rfl⟩
  | succ depth ih =>
    intro id σ
    unfold fireWithin
    refine List.foldlRecOn
      (motive := fun τ : Session => τ.listed = σ.listed ∧ τ.waiting = σ.waiting) _ _ ⟨rfl, rfl⟩
      fun τ hτ listener _ => ?_
    dsimp only
    split
    · exact hτ
    · split
      · exact hτ
      · obtain ⟨hlisted, hwaiting⟩ := ih _ _
        exact ⟨hlisted.trans hτ.1, hwaiting.trans hτ.2⟩

theorem listed_fire (σ : Session) (id : DependencyId) : (σ.fire id).listed = σ.listed :=
  (rest_fireWithin _ id σ).1

theorem waiting_fire (σ : Session) (id : DependencyId) : (σ.fire id).waiting = σ.waiting :=
  (rest_fireWithin _ id σ).2

theorem listed_announce (σ : Session) (id : DependencyId) : (σ.announce id).listed = σ.listed := by
  unfold announce
  split
  · rfl
  · exact σ.listed_fire id

/-- A batch goes on when a selection is announced. -/
theorem isSome_waiting_announce (σ : Session) (id : DependencyId) :
    (σ.announce id).waiting.isSome = σ.waiting.isSome := by
  unfold announce
  split
  · next ids hids =>
    rw [hids]
    rfl
  · rw [σ.waiting_fire id]

end Session

/-! ## §2. Actions that do not look at the listed names. -/

namespace Action

variable {α β : Type}

/-- The action does the same whatever names are listed, and it lists all of them still.  A batch
that goes on around it goes on after it. -/
structure Oblivious (act : Action α) : Prop where
  same : ∀ {σ τ : Session}, σ.Alike τ →
    (act.run τ).1 = (act.run σ).1 ∧ (act.run σ).2.Alike (act.run τ).2
  listed : ∀ {σ : Session} {name : String}, name ∈ σ.listed → name ∈ (act.run σ).2.listed
  batch : ∀ σ : Session, (act.run σ).2.waiting.isSome = σ.waiting.isSome

namespace Oblivious

theorem pure (a : α) : Oblivious (pure a : Action α) := ⟨fun h => ⟨rfl, h⟩, id, fun _ => rfl⟩

theorem throw (e : Error) : Oblivious (throw e : Action α) := ⟨fun h => ⟨rfl, h⟩, id, fun _ => rfl⟩

theorem bind {act : Action α} {f : α → Action β} (hact : Oblivious act)
    (hf : ∀ a, Oblivious (f a)) : Oblivious (act >>= f) where
  same := by
    intro σ τ h
    obtain ⟨hresult, hsession⟩ := hact.same h
    rw [run_bind, run_bind]
    rcases hσ : act.run σ with ⟨result, υ⟩
    rcases hτ : act.run τ with ⟨result', φ⟩
    rw [hσ, hτ] at hresult hsession
    obtain rfl : result' = result := hresult
    -- both go on from alike sessions, with the same result
    cases result' with
    | ok a => exact (hf a).same hsession
    | error e => exact ⟨rfl, hsession⟩
  listed := by
    intro σ name h
    have hfirst := hact.listed h
    rw [run_bind]
    rcases hσ : act.run σ with ⟨result, υ⟩
    rw [hσ] at hfirst
    cases result with
    | ok a => exact (hf a).listed hfirst
    | error e => exact hfirst
  batch := by
    intro σ
    have hfirst := hact.batch σ
    rw [run_bind]
    rcases hσ : act.run σ with ⟨result, υ⟩
    rw [hσ] at hfirst
    cases result with
    | ok a => exact ((hf a).batch υ).trans hfirst
    | error e => exact hfirst

theorem map {act : Action α} {f : α → β} (hact : Oblivious act) :
    Oblivious (do return f (← act)) :=
  hact.bind fun a => .pure (f a)

theorem guarded {c : Prop} [Decidable c] {e : Error} {f : PUnit → Action β}
    (h : Oblivious (f ⟨⟩)) :
    Oblivious (if c then (MonadExcept.throw e : Action PUnit) >>= f else f ⟨⟩) := by
  split
  · exact (Oblivious.throw e).bind fun _ => h
  · exact h

/-- A question has the same answer, and lists names in addition to those that are listed. -/
theorem read (r : Reading α) [Reading.Discreet r] : Oblivious (read r) where
  same := by
    rintro σ _ ⟨names, rfl⟩
    rw [run_read, run_read]
    exact ⟨rfl, _, rfl⟩
  listed {σ} name h := by
    rw [run_read]
    exact Reading.Discreet.listed σ name h
  batch σ := by rw [run_read]

theorem view (f : Store → α) : Oblivious (view f) where
  same := by
    rintro σ _ ⟨names, rfl⟩
    exact ⟨rfl, names, rfl⟩
  listed h := h
  batch _ := rfl

theorem update (f : Store → Store) : Oblivious (update f) where
  same := by
    rintro σ _ ⟨names, rfl⟩
    exact ⟨rfl, names, rfl⟩
  listed h := h
  batch _ := rfl

theorem change (f : Store → α × Store) : Oblivious (change f) where
  same := by
    rintro σ _ ⟨names, rfl⟩
    exact ⟨rfl, names, rfl⟩
  listed h := h
  batch _ := rfl

theorem ofExcept (result : Except Error α) : Oblivious (ofExcept result) :=
  ⟨fun h => ⟨rfl, h⟩, id, fun _ => rfl⟩

theorem announce (id : DependencyId) : Oblivious (announce id) where
  same h := ⟨rfl, h.announce id⟩
  listed {σ} _ h := (σ.listed_announce id).symm ▸ h
  batch σ := σ.isSome_waiting_announce id

theorem mapM {γ : Type} {f : γ → Action α} (h : ∀ c, Oblivious (f c)) (cs : List γ) :
    Oblivious (cs.mapM f) := by
  induction cs with
  | nil => exact .pure []
  | cons c cs ih =>
    rw [List.mapM_cons]
    exact (h c).bind fun _ => ih.map

theorem forM {γ : Type} {f : γ → Action PUnit} (h : ∀ c, Oblivious (f c)) (cs : List γ) :
    Oblivious (cs.forM f) := by
  induction cs with
  | nil => exact .pure PUnit.unit
  | cons c cs ih => exact (h c).bind fun _ => ih

/-- A batch that is undone is undone in the same way. -/
theorem restoring {act : Action α} {undo : Session → Session → Session} (hact : Oblivious act)
    (hundo : ∀ {σ σ' τ τ' : Session}, σ.Alike σ' → τ.Alike τ' → (undo σ τ).Alike (undo σ' τ'))
    (hlisted : ∀ {σ τ : Session} {name : String}, name ∈ σ.listed → name ∈ τ.listed →
      name ∈ (undo σ τ).listed)
    (hbatch : ∀ σ τ : Session, (undo σ τ).waiting = τ.waiting) :
    Oblivious (restoring undo act) where
  same := by
    intro σ τ h
    obtain ⟨hresult, hsession⟩ := hact.same h
    rcases hσ : act.run σ with ⟨result, υ⟩
    rcases hτ : act.run τ with ⟨result', φ⟩
    rw [hσ, hτ] at hresult hsession
    obtain rfl : result' = result := hresult
    cases result' with
    | ok a =>
      rw [run_restoring_ok hσ, run_restoring_ok hτ]
      exact ⟨rfl, hsession⟩
    | error e =>
      rw [run_restoring_error hσ, run_restoring_error hτ]
      exact ⟨rfl, hundo h hsession⟩
  listed := by
    intro σ name h
    have hend := hact.listed h
    rcases hσ : act.run σ with ⟨result, υ⟩
    rw [hσ] at hend
    cases result with
    | ok a =>
      rw [run_restoring_ok hσ]
      exact hend
    | error e =>
      rw [run_restoring_error hσ]
      exact hlisted h hend
  batch := by
    intro σ
    have hend := hact.batch σ
    rcases hσ : act.run σ with ⟨result, υ⟩
    rw [hσ] at hend
    cases result with
    | ok a =>
      rw [run_restoring_ok hσ]
      exact hend
    | error e =>
      rw [run_restoring_error hσ, hbatch]
      exact hend

theorem deferring {act : Action α} (hact : Oblivious act) : Oblivious (deferring act) where
  same := by
    intro σ τ h
    cases hwaiting : σ.waiting with
    | some ids =>
      have hσ : σ.waiting.isSome := by rw [hwaiting]; rfl
      have hτ : τ.waiting.isSome := by rw [h.waiting]; exact hσ
      rw [run_deferring_inner hσ, run_deferring_inner hτ]
      exact hact.same h
    | none =>
      rw [run_deferring_outer hwaiting, run_deferring_outer (h.waiting.trans hwaiting)]
      obtain ⟨hresult, hsession⟩ := hact.same h.held
      rcases hσ : act.run (held σ) with ⟨result, υ⟩
      rcases hτ : act.run (held τ) with ⟨result', φ⟩
      rw [hσ, hτ] at hresult hsession
      obtain rfl : result' = result := hresult
      have hend : Session.Alike { υ with waiting := none } { φ with waiting := none } := by
        obtain ⟨names, rfl⟩ := hsession
        exact ⟨names, rfl⟩
      cases result' with
      | error e => exact ⟨rfl, hend⟩
      | ok a =>
        -- the same selections wait in both sessions, so that the same listeners are told
        dsimp only
        rw [hsession.waiting]
        exact ⟨rfl, List.foldl_rel hend fun id _ _ _ h => h.fire id⟩
  listed := by
    intro σ name h
    cases hwaiting : σ.waiting with
    | some ids =>
      rw [run_deferring_inner (by rw [hwaiting]; rfl)]
      exact hact.listed h
    | none =>
      have hend : name ∈ (act.run (held σ)).2.listed := hact.listed h
      rw [run_deferring_outer hwaiting]
      rcases hσ : act.run (held σ) with ⟨result, υ⟩
      rw [hσ] at hend
      cases result with
      | error e => exact hend
      | ok a =>
        refine List.foldlRecOn (motive := fun φ : Session => name ∈ φ.listed) _ _ hend
          fun φ hφ id _ => ?_
        rw [φ.listed_fire id]
        exact hφ
  batch := by
    intro σ
    cases hwaiting : σ.waiting with
    | some ids =>
      have hsome : σ.waiting.isSome := by rw [hwaiting]; rfl
      rw [run_deferring_inner hsome, hact.batch σ, hwaiting]
    -- a batch that was begun here has come to an end
    | none =>
      rw [run_deferring_outer hwaiting]
      rcases act.run (held σ) with ⟨result, υ⟩
      cases result with
      | error e => rfl
      | ok a =>
        refine List.foldlRecOn (motive := fun φ : Session => φ.waiting.isSome = false) _ _ rfl
          fun φ hφ id _ => ?_
        rw [φ.waiting_fire id]
        exact hφ

theorem atomically {n : Namespace} {act : Action α} (hact : Oblivious act) :
    Oblivious (atomically n act) := by
  refine .deferring (hact.restoring ?_ (fun _ h => h) fun _ _ => rfl)
  rintro σ _ τ _ ⟨names, rfl⟩ ⟨names', rfl⟩
  exact ⟨names', rfl⟩

/-! ## §3. Steps on one dependency. -/

theorem settle (id : DependencyId) (outcome : Dependency.Outcome) :
    Oblivious (settle id outcome) := by
  unfold Action.settle
  refine (update _).bind fun _ => ?_
  split
  · exact announce id
  · exact .pure _

theorem select (id : DependencyId) (text : String) : Oblivious (select id text) :=
  (view _).bind fun d => (ofExcept (d.select text)).bind fun _ => settle id _

theorem declare (id : DependencyId) (declaration : Declaration) :
    Oblivious (declare id declaration) :=
  (view _).bind fun d => (ofExcept (d.declare declaration)).bind fun _ => settle id _

theorem orNew (target : Option DependencyId) (d : Dependency) : Oblivious (orNew target d) := by
  unfold Action.orNew
  cases target with
  | some id => exact .pure id
  | none => exact change _

end Oblivious

theorem oblivious_inquire (r : Inquiry α) [Reading.Discreet r.run] : Oblivious (inquire r) :=
  (Oblivious.read r.run).bind fun _ => .ofExcept _

end Action

/-! ## §4. Writes to a namespace. -/

namespace Namespace

theorem oblivious_ensureNoSub (n : Namespace) (key : String) : Oblivious (n.ensureNoSub key) := by
  unfold ensureNoSub
  refine (Oblivious.view _).bind fun found => ?_
  rcases found with _ | ⟨id⟩ | ⟨sub⟩
  · exact .pure _
  · exact .pure _
  · exact .throw _

theorem oblivious_storeCopy (n : Namespace) (key : String) (source : DependencyId) :
    Oblivious (n.storeCopy key source) :=
  (Oblivious.change _).bind fun _ => (Oblivious.update _).bind fun _ => .pure _

theorem oblivious_storeGroup (n : Namespace) (key : String) (members : List Dependency)
    (byId : Bool) : Oblivious (n.storeGroup key members byId) :=
  (Oblivious.mapM (fun _ => .change _) members).bind fun _ =>
    (Oblivious.change _).bind fun _ => (Oblivious.update _).bind fun _ => .pure _

theorem oblivious_storeSub (n : Namespace) (key : String) (sub : Namespace) :
    Oblivious (n.storeSub key sub) := by
  unfold storeSub
  refine .guarded ((Oblivious.view _).bind fun own => .guarded ?_)
  exact (Oblivious.update _).bind fun _ => .pure _

theorem oblivious_openSub (n : Namespace) (key : String) : Oblivious (n.openSub key) := by
  unfold openSub
  refine (Oblivious.view _).bind fun found => ?_
  rcases found with _ | ⟨id⟩ | ⟨sub⟩
  · exact .change _
  · exact .throw _
  · exact .pure sub

theorem oblivious_useSpecAs (n : Namespace) (key : String) (spec : Spec) :
    Oblivious (n.useSpecAs key spec) := by
  have hinherited (d : Dependency) : Oblivious (n.requirementBeyond key spec.coordinate d) := by
    unfold requirementBeyond
    split
    · exact .pure none
    · exact .read _
  unfold useSpecAs
  refine (Oblivious.ofExcept _).bind fun version => (Oblivious.view _).bind fun checked => ?_
  refine (Oblivious.ofExcept checked).bind fun _ => (Oblivious.view _).bind fun target => ?_
  refine (Oblivious.view _).bind fun d => (hinherited d).bind fun inherited => ?_
  refine (Oblivious.ofExcept _).bind fun outcome => (Oblivious.orNew target d).bind fun id => ?_
  refine (Oblivious.settle id outcome).bind fun _ => (Oblivious.update _).bind fun _ => ?_
  exact (Oblivious.update _).bind fun _ => .pure id

theorem oblivious_chooseOn (id : DependencyId) (version : VersionText) :
    Oblivious (chooseOn id version) :=
  (Oblivious.view _).bind fun _ => (Oblivious.ofExcept _).bind fun _ => .settle id _

theorem oblivious_copyInherited (n : Namespace) (key : String) :
    Oblivious (n.copyInherited key) := by
  unfold copyInherited
  refine (Oblivious.read _).bind fun inherited => ?_
  cases inherited with
  | some source => exact .change _
  | none => exact .change _

theorem oblivious_useVersionAs (n : Namespace) (key text : String) :
    Oblivious (n.useVersionAs key text) := by
  unfold useVersionAs
  refine (Oblivious.ofExcept _).bind fun version => (Oblivious.view _).bind fun own => ?_
  cases own with
  | some id => exact (oblivious_chooseOn id version).bind fun _ => .pure id
  | none =>
    refine (oblivious_copyInherited n key).bind fun id => ?_
    exact (oblivious_chooseOn id version).bind fun _ => (Oblivious.update _).bind fun _ => .pure id

theorem oblivious_useTextAs (n : Namespace) (key text : String) :
    Oblivious (n.useTextAs key text) := by
  unfold useTextAs
  split
  · exact (Oblivious.ofExcept _).bind fun spec => oblivious_useSpecAs n key spec
  · exact oblivious_useVersionAs n key text

theorem oblivious_useGroupAs (n : Namespace) (key : String) (specs : List String) :
    Oblivious (n.useGroupAs key specs) := by
  unfold useGroupAs
  exact .guarded ((Oblivious.ofExcept _).bind fun members =>
    oblivious_storeGroup n key members true)

theorem oblivious_localKey (n : Namespace) (key : String) : Oblivious (n.localKey key) := by
  unfold localKey
  split
  · refine (Oblivious.view _).bind fun found => ?_
    rcases found with _ | ⟨id⟩ | ⟨sub⟩
    · exact .throw _
    · exact .view _
    · exact .throw _
  · exact .pure key

theorem oblivious_setHere (n : Namespace) (key : String) (value : Value) :
    Oblivious (n.setHere key value) := by
  unfold setHere
  refine (oblivious_localKey n key).bind fun key => ?_
  have hcopy (source : DependencyId) :
      Oblivious (do n.ensureNoSub key; return Entry.dependency (← n.storeCopy key source)) :=
    (oblivious_ensureNoSub n key).bind fun _ => (oblivious_storeCopy n key source).map
  cases value with
  | sub sub => exact oblivious_storeSub n key sub
  | key other =>
    refine (Oblivious.read _).bind fun found => ?_
    rcases found with _ | ⟨source⟩ | ⟨sub⟩
    · exact .throw _
    · exact hcopy source
    · exact oblivious_storeSub n key sub
  | text text =>
    exact (oblivious_ensureNoSub n key).bind fun _ => (oblivious_useTextAs n key text).map
  | group specs =>
    exact (oblivious_ensureNoSub n key).bind fun _ => (oblivious_useGroupAs n key specs).map
  | dependency source => exact hcopy source

theorem oblivious_set (n : Namespace) (key : String) (value : Value) :
    Oblivious (n.set key value) :=
  (Oblivious.view _).bind fun place => oblivious_setHere place.1 place.2 value

theorem oblivious_useAll (n : Namespace) (pairs : List (String × Value)) :
    Oblivious (n.useAll pairs) :=
  have hset (pair : String × Value) : Oblivious (n.set pair.1 pair.2) :=
    oblivious_set n pair.1 pair.2
  .atomically (.mapM hset pairs)

theorem oblivious_openSubUsing (n : Namespace) (key : String) (pairs : List (String × Value)) :
    Oblivious (n.openSubUsing key pairs) :=
  (oblivious_openSub n key).bind fun sub => (oblivious_useAll sub pairs).bind fun _ => .pure sub

theorem oblivious_useInherited (n : Namespace) (key : String) : Oblivious (n.useInherited key) := by
  unfold useInherited
  refine (Oblivious.read _).bind fun found => ?_
  rcases found with _ | ⟨source⟩ | ⟨sub⟩
  · exact .throw _
  · exact (oblivious_ensureNoSub n _).bind fun _ => oblivious_storeCopy n _ source
  · exact .throw _

theorem oblivious_addAlias (n : Namespace) (key existing : String) :
    Oblivious (n.addAlias key existing) := by
  have hsource : Oblivious (n.aliasSource existing) := by
    unfold aliasSource
    refine (Oblivious.view _).bind fun own => ?_
    rcases own with _ | ⟨id⟩ | ⟨sub⟩
    · refine (Oblivious.read _).bind fun found => ?_
      cases found with
      | some e => exact oblivious_useInherited n existing
      | none => exact .throw _
    · exact .pure id
    · exact .throw _
  unfold addAlias
  refine hsource.bind fun id => (Oblivious.view _).bind fun place => ?_
  exact (oblivious_ensureNoSub place.1 place.2).bind fun _ =>
    (Oblivious.update _).bind fun _ => .pure id

/-! ## §5. Declarations. -/

theorem oblivious_inheritSelection (n : Namespace) (d : Dependency) :
    Oblivious (n.inheritSelection d) := by
  unfold inheritSelection
  split
  · refine (Oblivious.read _).bind fun found => ?_
    cases found with
    | some version => exact .pure _
    | none => exact .pure _
  · exact .pure _

theorem oblivious_declareAs (n : Namespace) (key : String) (coordinate : Coordinate)
    (declaration : Declaration) : Oblivious (n.declareAs key coordinate declaration) := by
  have hdeclared : Oblivious (n.declaredFor key coordinate declaration) := by
    unfold declaredFor
    refine (Oblivious.view _).bind fun own => ?_
    cases own with
    | some id =>
      exact (Oblivious.declare id declaration).bind fun _ =>
        (Oblivious.update _).bind fun _ => .pure id
    | none => exact .change _
  unfold declareAs
  refine (oblivious_ensureNoSub n key).bind fun _ => hdeclared.bind fun id => ?_
  refine (Oblivious.view _).bind fun d => (oblivious_inheritSelection n d).bind fun outcome => ?_
  exact (Oblivious.settle id outcome).bind fun _ => (Oblivious.update _).bind fun _ => .pure id

theorem oblivious_needCopy (n : Namespace) (key : String) (source : DependencyId) :
    Oblivious (n.needCopy key source) := by
  unfold needCopy
  refine (Oblivious.view _).bind fun d => ?_
  split
  · exact oblivious_declareAs n key _ _
  · exact .throw _

theorem oblivious_needGroup (n : Namespace) (key : String) (specs : List String) :
    Oblivious (n.needGroup key specs) := by
  have hmember (text : String) : Oblivious (n.neededMember text) :=
    (Oblivious.ofExcept _).bind fun _ => (Oblivious.ofExcept _).bind fun _ =>
      (oblivious_inheritSelection n _).map
  unfold needGroup
  refine (oblivious_ensureNoSub n key).bind fun _ => .guarded ?_
  exact (Oblivious.mapM hmember specs).bind fun members => oblivious_storeGroup n key members false

theorem oblivious_need (n : Namespace) (text : String) : Oblivious (n.need text) :=
  (Oblivious.ofExcept _).bind fun need => (Oblivious.ofExcept _).bind fun declaration =>
    (Oblivious.view _).bind fun place =>
      oblivious_declareAs place.1 place.2 need.spec.coordinate declaration

theorem oblivious_needAs (n : Namespace) (key : String) (value : Value) :
    Oblivious (n.needAs key value) := by
  unfold needAs
  refine (Oblivious.view _).bind fun place => ?_
  cases value with
  | text text =>
    exact (Oblivious.ofExcept _).bind fun need => (Oblivious.ofExcept _).bind fun declaration =>
      oblivious_declareAs place.1 place.2 need.spec.coordinate declaration
  | group specs => exact oblivious_needGroup place.1 place.2 specs
  | dependency source => exact oblivious_needCopy place.1 place.2 source
  | key other =>
    refine (Oblivious.read _).bind fun found => ?_
    cases found with
    | some source => exact oblivious_needCopy place.1 place.2 source
    | none => exact .throw _
  | sub _ => exact .throw _

theorem oblivious_needAll (n : Namespace) (pairs : List (String × Value)) :
    Oblivious (n.needAll pairs) :=
  .atomically (.mapM (fun pair => oblivious_needAs n pair.1 pair.2) pairs)

theorem oblivious_require (n : Namespace) (key text : String) (requirement : Option String) :
    Oblivious (n.require key text requirement) :=
  (Oblivious.ofExcept _).bind fun spec => (Oblivious.ofExcept _).bind fun declaration =>
    (Oblivious.view _).bind fun place =>
      oblivious_declareAs place.1 place.2 spec.coordinate declaration

theorem oblivious_useSpec (n : Namespace) (text : String) : Oblivious (n.useSpec text) := by
  have hdefault (id : DependencyId) (default : Option String) :
      Oblivious (selectDefault id default) := by
    unfold selectDefault
    split
    · refine (Oblivious.view _).bind fun selected => ?_
      split
      · exact .select id _
      · exact .pure _
    · exact .pure _
  refine .atomically ((Oblivious.ofExcept _).bind fun need =>
    (Oblivious.view _).bind fun place => ?_)
  refine (oblivious_ensureNoSub place.1 place.2).bind fun _ => ?_
  split
  · exact oblivious_useSpecAs place.1 place.2 need.spec
  · refine (Oblivious.ofExcept _).bind fun declaration => ?_
    refine (oblivious_declareAs place.1 place.2 need.spec.coordinate declaration).bind fun id => ?_
    exact (hdefault id declaration.default).bind fun _ => .pure id

/-! ## §6. Parents and the registry. -/

theorem oblivious_setParent (n : Namespace) (parent : ParentRef) :
    Oblivious (n.setParent parent) := by
  have hacyclic (candidate : Namespace) : Oblivious (n.ensureAcyclic candidate) := by
    refine (Oblivious.read (n.encloses candidate)).bind fun cyclic => ?_
    split
    · exact .throw _
    · exact .pure _
  have hlink : Oblivious (n.parentLink parent) := by
    unfold parentLink
    split
    · exact .pure _
    · next key _ =>
      refine (Oblivious.view _).bind fun attached => ?_
      split
      · exact (Oblivious.read (ofKey key)).bind fun candidate =>
          (hacyclic candidate).bind fun _ => .pure _
      · exact .throw _
    · next candidate => exact (hacyclic candidate).bind fun _ => .pure _
  unfold setParent
  exact .guarded (hlink.bind fun _ => .update _)

end Namespace

namespace Registry

theorem oblivious_attach (path : List String) : Oblivious (attach path) := by
  unfold attach
  refine (Oblivious.read _).bind fun n => ?_
  split
  · exact .pure n
  · exact (Namespace.oblivious_setParent n _).bind fun _ => .pure n

/-- A load that fails lists the names that were listed before, whatever these are. -/
theorem oblivious_load (profile : Profile) : Oblivious (load profile) := by
  have htable (table : String × Std.TreeMap String ProfileValue) :
      Oblivious (applyTable table.1 table.2) := by
    refine (Oblivious.read _).bind fun n => ?_
    have hset (pair : String × Value) : Oblivious (n.set pair.1 pair.2) :=
      n.oblivious_set pair.1 pair.2
    exact (Oblivious.mapM hset _).bind fun _ => .pure _
  refine .deferring ((Oblivious.forM htable _).restoring ?_ (fun h _ => h) fun _ _ => rfl)
  rintro σ _ τ _ ⟨names, rfl⟩ ⟨names', rfl⟩
  exact ⟨names, rfl⟩

end Registry

/-! ## §7. Operations. -/

namespace Session

variable {σ τ : Session}

/-- The listed names make no difference to an operation, unless it asks for these; only clearing the
registry takes some away. -/
theorem oblivious_perform {operation : Operation} (h : operation.asksNames = false)
    (hclear : operation ≠ .clearRegistry) : Oblivious (perform operation) := by
  have hdone {act : Action Unit} {reply : Reply} (hact : Oblivious act) :
      Oblivious (do act; return reply) := hact.bind fun _ => .pure reply
  cases hasks : operation.asks with
  | true =>
    obtain ⟨r, _, hr⟩ := asking_perform hasks h
    rw [hr]
    exact oblivious_inquire r
  | false =>
    cases operation with
    -- assignments and what is made of them
    | set n key value => exact (n.oblivious_set key value).map
    | useSpec n text => exact (n.oblivious_useSpec text).map
    | useAll n pairs => exact (n.oblivious_useAll pairs).map
    | openSubUsing n key pairs => exact (n.oblivious_openSubUsing key pairs).map
    | useInherited n key => exact (n.oblivious_useInherited key).map
    | addAlias n key existing => exact (n.oblivious_addAlias key existing).map
    | load profile => exact hdone (Registry.oblivious_load profile)
    -- declarations
    | need n text => exact (n.oblivious_need text).map
    | needAs n key value => exact (n.oblivious_needAs key value).map
    | needAll n pairs => exact (n.oblivious_needAll pairs).map
    | require n key text requirement => exact (n.oblivious_require key text requirement).map
    -- steps on one dependency
    | newDependency d => exact (Oblivious.change _).map
    | select id version => exact hdone (.select id version)
    | declare id declaration => exact hdone (.declare id declaration)
    | copy id key => exact (Oblivious.view _).bind fun _ => (Oblivious.change _).map
    | listen id listener => exact hdone (.update _)
    -- links, entries taken out, the registry and the projects
    | setParent n parent => exact hdone (n.oblivious_setParent parent)
    | openSub n key => exact (n.oblivious_openSub key).map
    | delete n key => exact (Oblivious.change _).map
    | clear n => exact hdone (.update _)
    | attach path => exact (Registry.oblivious_attach path).map
    | detached name => exact (Oblivious.change _).map
    | clearRegistry => exact absurd rfl hclear
    | releaseRegistry => exact hdone (.update _)
    | enter project => exact (Oblivious.update _).bind fun _ => (Oblivious.view _).map
    | exit => exact (Oblivious.change _).map
    -- all the others are questions
    | _ => exact nomatch hasks

/-- An operation does the same in two sessions that differ in the listed names, and ends in two such
sessions. -/
theorem Alike.perform (h : σ.Alike τ) {operation : Operation}
    (hnames : operation.asksNames = false) :
    ((perform operation).run τ).1 = ((perform operation).run σ).1 ∧
      (σ.after operation).Alike (τ.after operation) := by
  by_cases hclear : operation = .clearRegistry
  · subst hclear
    obtain ⟨names, rfl⟩ := h
    exact ⟨rfl, _, rfl⟩
  · exact (oblivious_perform hnames hclear).same h

theorem Alike.after (h : σ.Alike τ) (operation : Operation) :
    (σ.after operation).Alike (τ.after operation) := by
  cases hnames : operation.asksNames with
  | false => exact (h.perform hnames).2
  | true =>
    rw [after_of_asksNames hnames, after_of_asksNames hnames]
    exact h

end Session

/-! ## §8. Runs with questions put in. -/

/-- A step of a run, or a question that is put in between. -/
inductive Turn where
  | step (operation : Operation)
  | question (operation : Operation) (asks : operation.asks = true)

namespace Turn

def operation : Turn → Operation
  | .step operation => operation
  | .question operation _ => operation

/-- The operation of a step. -/
def step? : Turn → Option Operation
  | .step operation => some operation
  | .question _ _ => none

end Turn

namespace Session

/-- What an operation answers, unless it asks for the listed names. -/
def answer? (σ : Session) (operation : Operation) : Option (Except Error Reply) :=
  if operation.asksNames then none else some ((perform operation).run σ).1

/-- What the operations of a run answer. -/
def answers : List Operation → Session → List (Option (Except Error Reply))
  | [], _ => []
  | operation :: rest, σ => σ.answer? operation :: answers rest (σ.after operation)

/-- What the steps of a run answer that questions have been put into. -/
def stepAnswers : List Turn → Session → List (Option (Except Error Reply))
  | [], _ => []
  | .step operation :: rest, σ => σ.answer? operation :: stepAnswers rest (σ.after operation)
  | .question operation _ :: rest, σ => stepAnswers rest (σ.after operation)

theorem Alike.answer? {σ τ : Session} (h : σ.Alike τ) (operation : Operation) :
    τ.answer? operation = σ.answer? operation := by
  unfold Session.answer?
  split
  · rfl
  · next hnames => rw [(h.perform (by simpa using hnames)).1]

/-- The steps do not notice the questions, in a session that differs in the listed names. -/
theorem Alike.stepAnswers (turns : List Turn) : ∀ {σ τ : Session}, σ.Alike τ →
    Session.stepAnswers turns τ = answers (turns.filterMap Turn.step?) σ ∧
      (σ.afterAll (turns.filterMap Turn.step?)).Alike (τ.afterAll (turns.map Turn.operation)) := by
  induction turns with
  | nil => exact fun h => ⟨rfl, h⟩
  | cons turn turns ih =>
    intro σ τ h
    cases turn with
    | step operation =>
      obtain ⟨hanswers, hend⟩ := ih (h.after operation)
      refine ⟨?_, hend⟩
      show τ.answer? operation :: Session.stepAnswers turns (τ.after operation)
        = σ.answer? operation :: answers (turns.filterMap Turn.step?) (σ.after operation)
      rw [h.answer?, hanswers]
    -- a question moves on only one of the two sessions
    | question operation asks => exact ih (h.trans (alike_after asks τ))

/-- Questions may be put anywhere into a run: each step answers what it answers without them, unless
it asks for the listed names, and the run ends in the same session but for these.  A question leaves
the store as it is, whatever the session, as well as the record of the listeners. -/
theorem answers_interspersed (turns : List Turn) (σ : Session) :
    stepAnswers turns σ = answers (turns.filterMap Turn.step?) σ ∧
      (∃ names, σ.afterAll (turns.map Turn.operation)
        = { σ.afterAll (turns.filterMap Turn.step?) with listed := names }) ∧
      ∀ (τ : Session) (operation : Operation), operation.asks →
        ∃ names, τ.after operation = { τ with listed := names } := by
  obtain ⟨hanswers, hend⟩ := Alike.stepAnswers turns (.refl σ)
  exact ⟨hanswers, hend, fun τ _ hasks => alike_after hasks τ⟩

/-- A question for the ancestors lists them. -/
example : ((start true).after (.ancestors (.registered "a:b" 0))).listedNames = ["a", "root"] := by
  decide +kernel

end Session

end DependencyScope
