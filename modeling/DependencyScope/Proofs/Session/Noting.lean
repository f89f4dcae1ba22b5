/-
  DependencyScope.Proofs.Session.Noting — which selections a batch notes.

  While a batch goes on, no listener is told of anything: each selection is noted, and the order is
  kept.  Which selections an operation makes can be read off its writes.  The use of a text selects
  if its version part is a version, or a requirement with a default version, even if that version is
  selected already.  A declaration selects if the dependency has a selection afterwards and had none
  before.  Nothing else selects: a copy has the selection of its source, and members of a group are
  made with theirs.

  Main definitions:
    * `Session.Noted` — a batch has gone on, and has noted selections;
    * `Action.Mute` — what selects nothing;
    * `Step.selections`, `Operation.selections` — the dependencies that are selected, in order.

  Main results:
    * `Namespace.noted_set`, `.noted_needAs`, `.noted_ownUse` — what single writes note;
    * `Step.noted_batch`, `Registry.noted_parts` — what several writes note.
-/
import DependencyScope.Proofs.Session.Refusal

namespace DependencyScope

open DependencyScope.Text DependencyScope.Action

/-! ## §1. Selections that are noted. -/

namespace Session

variable {σ τ υ : Session} {ids ids' : List DependencyId}

/-- If a batch goes on, the selections `ids` have been noted in it, and no listener has been
told. -/
def Noted (ids : List DependencyId) (σ τ : Session) : Prop :=
  ∀ before, σ.waiting = some before → τ.waiting = some (before ++ ids) ∧ τ.events = σ.events

theorem Noted.trans (h : σ.Noted ids τ) (h' : τ.Noted ids' υ) : σ.Noted (ids ++ ids') υ := by
  intro before hbefore
  obtain ⟨hwaiting, hevents⟩ := h before hbefore
  obtain ⟨hwaiting', hevents'⟩ := h' _ hwaiting
  exact ⟨by rw [hwaiting', List.append_assoc], hevents'.trans hevents⟩

theorem Noted.of_same (hwaiting : τ.waiting = σ.waiting) (hevents : τ.events = σ.events) :
    σ.Noted [] τ := by
  intro before hbefore
  rw [hwaiting, hbefore, List.append_nil]
  exact ⟨rfl, hevents⟩

theorem Noted.isSome (h : σ.Noted ids τ) (hσ : σ.waiting.isSome) : τ.waiting.isSome := by
  obtain ⟨before, hbefore⟩ := Option.isSome_iff_exists.1 hσ
  rw [(h before hbefore).1]
  rfl

theorem Untouched.noted (h : σ.Untouched τ) : σ.Noted [] τ := .of_same h.waiting h.events

end Session

namespace Action

variable {α β : Type} {act : Action α} {f : α → Action β} {σ : Session}

/-- The action selects nothing: there is nothing to be told, and nothing to be noted. -/
def Mute (act : Action α) : Prop :=
  ∀ σ : Session, (act.run σ).2.waiting = σ.waiting ∧ (act.run σ).2.events = σ.events

theorem Mute.noted (h : Mute act) (σ : Session) : σ.Noted [] (act.run σ).2 :=
  .of_same (h σ).1 (h σ).2

theorem Idle.mute (h : Idle act) : Mute act := fun σ => ⟨(h σ).waiting, (h σ).events⟩

namespace Mute

theorem pure (a : α) : Mute (pure a : Action α) := (Idle.pure a).mute

theorem update (g : Store → Store) : Mute (update g) := fun _ => ⟨rfl, rfl⟩

theorem change (g : Store → α × Store) : Mute (change g) := fun _ => ⟨rfl, rfl⟩

theorem bind (hact : Mute act) (hf : ∀ a, Mute (f a)) : Mute (act >>= f) := by
  intro σ
  have hfirst := hact σ
  rw [run_bind]
  rcases hrun : act.run σ with ⟨result, τ⟩
  rw [hrun] at hfirst
  cases result with
  | ok a => exact ⟨(hf a τ).1.trans hfirst.1, (hf a τ).2.trans hfirst.2⟩
  | error e => exact hfirst

theorem mapM {γ : Type} {g : γ → Action α} (h : ∀ c, Mute (g c)) (cs : List γ) :
    Mute (cs.mapM g) := by
  induction cs with
  | nil => exact .pure []
  | cons c cs ih =>
    rw [List.mapM_cons]
    exact (h c).bind fun _ => ih.bind fun _ => .pure _

theorem guarded {c : Prop} [Decidable c] {e : Error} {g : PUnit → Action β} (h : Mute (g ⟨⟩)) :
    Mute (if c then (MonadExcept.throw e : Action PUnit) >>= g else g ⟨⟩) := by
  split
  · exact (Idle.throw e).mute.bind fun _ => h
  · exact h

/-- A dependency is put, and nothing is announced. -/
theorem settle (id : DependencyId) (d : Dependency) : Mute (Action.settle id ⟨d, false⟩) :=
  (Mute.update _).bind fun _ => .pure _

theorem orNew (target : Option DependencyId) (d : Dependency) : Mute (orNew target d) := by
  unfold Action.orNew
  cases target with
  | some id => exact .pure id
  | none => exact change _

end Mute

/-- What is done first notes nothing. -/
theorem Leaves.after_mute {ids : β → Session → List DependencyId} (hact : Mute act)
    (h : ∀ a τ, act.run σ = (.ok a, τ) → Leaves (f a) (fun b υ => τ.Noted (ids b υ) υ) τ) :
    Leaves (act >>= f) (fun b υ => σ.Noted (ids b υ) υ) σ := by
  refine .bind fun a τ hrun b υ hlast => ?_
  have hfirst := hact.noted σ
  rw [hrun] at hfirst
  exact hfirst.trans (h a τ hrun b υ hlast)

theorem Leaves.of_mute (hact : Mute act) : Leaves act (fun _ τ => σ.Noted [] τ) σ := by
  intro a τ hrun
  have hend := hact.noted σ
  rw [hrun] at hend
  exact hend

/-- In a batch, a selection is noted when it is announced. -/
theorem run_settle_of_waiting {before : List DependencyId} (h : σ.waiting = some before)
    (id : DependencyId) (outcome : Dependency.Outcome) :
    (settle id outcome).run σ = (.ok (), { σ with
      store := σ.store.putDependency id outcome.dependency
      waiting := some (before ++ if outcome.selects then [id] else []) }) := by
  unfold settle
  rw [run_bind_ok (run_update _ σ)]
  cases outcome.selects with
  | true =>
    show (Except.ok (), Session.announce _ id) = _
    unfold Session.announce
    simp only [h]
    rfl
  | false =>
    simp only [Bool.false_eq_true, if_false, List.append_nil]
    rw [← h]
    rfl

theorem noted_settle (id : DependencyId) (outcome : Dependency.Outcome) (σ : Session) :
    Leaves (settle id outcome)
      (fun _ τ => σ.Noted (if outcome.selects then [id] else []) τ) σ := by
  intro _ τ hrun before hbefore
  rw [run_settle_of_waiting hbefore] at hrun
  cases hrun
  exact ⟨rfl, rfl⟩

end Action

/-! ## §2. Texts. -/

/-- Whether a version part selects a version where it is used. -/
def VersionText.selects : VersionText → Bool
  | .plain _ => true
  | .constraint requirement => requirement.default?.isSome

/-- Whether a spec does. -/
def Spec.selects (spec : Spec) : Bool :=
  (spec.version.bind fun text => (VersionText.parse text).toOption).any VersionText.selects

/-- Whether a value does: it must be a text. -/
def Value.selects : Value → Bool
  | .text given =>
    if looksLikeSpec given then (Spec.parse given).toOption.any Spec.selects
    else (VersionText.parse given).toOption.any VersionText.selects
  | _ => false

theorem Dependency.selects_of_choose {d : Dependency} {inherited : Option Requirement}
    {version : Option VersionText} {outcome : Outcome}
    (h : d.choose inherited version = .ok outcome) :
    outcome.selects = version.any VersionText.selects := by
  rcases version with _ | ⟨version⟩ | ⟨requirement⟩
  · cases h
    rfl
  · unfold choose at h
    obtain ⟨_, -, rfl⟩ := map_eq_ok.1 h
    rfl
  · unfold choose at h
    show outcome.selects = requirement.default?.isSome
    dsimp only at h
    split at h
    · next hdefault =>
      obtain ⟨_, -, rfl⟩ := map_eq_ok.1 h
      rw [hdefault]
      rfl
    · next hnone =>
      obtain ⟨_, -, rfl⟩ := map_eq_ok.1 h
      rw [hnone]
      rfl

theorem Spec.selects_of_parse {spec : Spec} {version : Option VersionText}
    (h : spec.version.mapM VersionText.parse = .ok version) :
    spec.selects = version.any VersionText.selects := by
  unfold selects
  cases hversion : spec.version with
  | none =>
    rw [hversion] at h
    cases h
    rfl
  | some text =>
    rw [hversion, Option.mapM_some] at h
    cases hparse : VersionText.parse text with
    | error e =>
      rw [hparse] at h
      cases h
    | ok parsed =>
      rw [hparse] at h
      cases h
      rw [Option.bind_some, hparse]
      rfl

namespace Action

variable {σ : Session}

/-- A parsed result is what it is. -/
theorem eq_of_run_ofExcept {α : Type} {result : Except Error α} {a : α} {τ : Session}
    (h : (Action.ofExcept result).run σ = (.ok a, τ)) : result = .ok a :=
  congrArg Prod.fst h

/-- What comes after a step notes nothing. -/
theorem Leaves.noted_before {α β : Type} {act : Action α} {f : α → Action β}
    {ids : List DependencyId} {ids' : β → Session → List DependencyId}
    (hact : Leaves act (fun _ τ => σ.Noted ids τ) σ) (hmute : ∀ a, Mute (f a))
    (hids : ∀ a τ b υ, (f a).run τ = (.ok b, υ) → ids' b υ = ids) :
    Leaves (act >>= f) (fun b υ => σ.Noted (ids' b υ) υ) σ := by
  refine .bind fun a τ hrun b υ hlast => ?_
  have hend := (hmute a).noted τ
  rw [hlast] at hend
  rw [hids a τ b υ hlast, ← List.append_nil ids]
  exact (hact a τ hrun).trans hend

end Action

namespace Namespace

variable {n : Namespace} {σ : Session}

theorem mute_insert (n : Namespace) (key : String) (id : DependencyId) :
    Mute (do Action.update (·.insert n key id); return id) :=
  (Mute.update _).bind fun _ => .pure id

/-- A copy has its selection from its source. -/
theorem mute_storeCopy (n : Namespace) (key : String) (source : DependencyId) :
    Mute (n.storeCopy key source) :=
  (Mute.change _).bind fun copy => n.mute_insert key copy

theorem mute_storeSub (n : Namespace) (key : String) (sub : Namespace) :
    Mute (n.storeSub key sub) := by
  unfold storeSub
  refine .guarded ((Idle.view _).mute.bind fun own => .guarded ?_)
  exact (Mute.update _).bind fun _ => .pure _

/-- Members are made with their selections. -/
theorem mute_storeGroup (n : Namespace) (key : String) (members : List Dependency) (byId : Bool) :
    Mute (n.storeGroup key members byId) :=
  (Mute.mapM (fun _ => .change _) members).bind fun _ =>
    (Mute.change _).bind fun _ => (Mute.update _).bind fun _ => .pure _

theorem mute_useGroupAs (n : Namespace) (key : String) (specs : List String) :
    Mute (n.useGroupAs key specs) := by
  unfold useGroupAs
  exact .guarded ((Idle.ofExcept _).mute.bind fun members => n.mute_storeGroup key members true)

/-- A spec that is used selects the dependency that it is used on, if it has a version part that
selects. -/
theorem noted_useSpecAs (n : Namespace) (key : String) (spec : Spec) (σ : Session) :
    Leaves (n.useSpecAs key spec)
      (fun id τ => σ.Noted (if spec.selects then [id] else []) τ) σ := by
  have hinherited (d : Dependency) : Idle (n.requirementBeyond key spec.coordinate d) := by
    unfold requirementBeyond
    split
    · exact .pure none
    · exact .read _
  unfold useSpecAs
  refine .after_mute (Idle.ofExcept _).mute fun version _ hversion => ?_
  refine .after_mute (Idle.view _).mute fun checked _ _ => ?_
  refine .after_mute (Idle.ofExcept _).mute fun _ _ _ => ?_
  refine .after_mute (Idle.view _).mute fun target _ _ => ?_
  refine .after_mute (Idle.view _).mute fun d _ _ => ?_
  refine .after_mute (hinherited d).mute fun inherited _ _ => ?_
  refine .after_mute (Idle.ofExcept _).mute fun outcome _ houtcome => ?_
  refine .after_mute (Mute.orNew target d) fun id τ _ => ?_
  have hselects : outcome.selects = spec.selects := by
    rw [Dependency.selects_of_choose (eq_of_run_ofExcept houtcome),
      Spec.selects_of_parse (eq_of_run_ofExcept hversion)]
  refine .noted_before (noted_settle id outcome τ)
    (fun _ => (Mute.update _).bind fun _ => n.mute_insert key id) fun _ _ _ _ hlast => ?_
  cases hlast
  rw [hselects]

theorem noted_chooseOn (id : DependencyId) (version : VersionText) (σ : Session) :
    Leaves (chooseOn id version)
      (fun _ τ => σ.Noted (if version.selects then [id] else []) τ) σ := by
  unfold chooseOn
  refine .after_mute (Idle.view _).mute fun d _ _ => ?_
  refine .after_mute (Idle.ofExcept _).mute fun outcome τ houtcome => ?_
  have hselects : outcome.selects = version.selects :=
    Dependency.selects_of_choose (eq_of_run_ofExcept houtcome)
  rw [← hselects]
  exact noted_settle id outcome τ

theorem noted_useVersionAs (n : Namespace) (key text : String) (σ : Session) :
    Leaves (n.useVersionAs key text) (fun id τ =>
      σ.Noted (if (VersionText.parse text).toOption.any VersionText.selects then [id] else []) τ)
      σ := by
  unfold useVersionAs
  refine .after_mute (Idle.ofExcept _).mute fun version _ hversion => ?_
  rw [eq_of_run_ofExcept hversion]
  refine .after_mute (Idle.view _).mute fun own τ _ => ?_
  cases own with
  | some id =>
    refine .noted_before (noted_chooseOn id version τ) (fun _ => .pure id) fun _ _ _ _ hlast => ?_
    cases hlast
    rfl
  | none =>
    refine .after_mute (n.idle_copyInherited key).mute fun id υ _ => ?_
    refine .noted_before (noted_chooseOn id version υ) (fun _ => n.mute_insert key id)
      fun _ _ _ _ hlast => ?_
    cases hlast
    rfl

theorem noted_useTextAs (n : Namespace) (key given : String) (σ : Session) :
    Leaves (n.useTextAs key given)
      (fun id τ => σ.Noted (if (Value.text given).selects then [id] else []) τ) σ := by
  unfold useTextAs
  split
  · next hspec =>
    refine .after_mute (Idle.ofExcept _).mute fun spec τ hparse => ?_
    have hselects : (Value.text given).selects = spec.selects := by
      simp only [Value.selects, if_pos hspec, eq_of_run_ofExcept hparse]
      rfl
    rw [hselects]
    exact n.noted_useSpecAs key spec τ
  · next hversion =>
    have hselects : (Value.text given).selects
        = (VersionText.parse given).toOption.any VersionText.selects := by
      simp only [Value.selects, if_neg hversion]
    rw [hselects]
    exact n.noted_useVersionAs key given σ

/-- What an assignment selects: the dependency that it gives back, if its value selects. -/
theorem noted_set (n : Namespace) (key : String) (value : Value) (σ : Session) :
    Leaves (n.set key value)
      (fun e τ => σ.Noted (if value.selects then e.dependency?.toList else []) τ) σ := by
  -- where a namespace is in the way nothing is selected, as the write fails first
  have hfree {place : Namespace} {key : String} {act : Action DependencyId} {τ : Session}
      (hact : ∀ υ, Leaves act (fun id φ => υ.Noted (if value.selects then [id] else []) φ) υ) :
      Leaves (do place.ensureNoSub key; return Entry.dependency (← act))
        (fun e φ => τ.Noted (if value.selects then e.dependency?.toList else []) φ) τ :=
    .after_mute (place.idle_ensureNoSub key).mute fun _ υ _ => .map (hact υ)
  unfold set
  refine .after_mute (Idle.view _).mute fun place _ _ => ?_
  unfold setHere
  refine .after_mute (place.1.idle_localKey place.2).mute fun key _ _ => ?_
  -- what is copied brings its selection along, which nobody is told of
  have hmute {act : Action DependencyId} (hact : Mute act) (υ : Session) :
      Leaves act (fun _ φ => υ.Noted [] φ) υ := .of_mute hact
  cases value with
  | text given => exact hfree fun υ => place.1.noted_useTextAs key given υ
  | group specs => exact hfree (hmute (place.1.mute_useGroupAs key specs))
  | dependency source => exact hfree (hmute (place.1.mute_storeCopy key source))
  | sub sub => exact .of_mute (place.1.mute_storeSub key sub)
  | key other =>
    refine .after_mute (Idle.read _).mute fun found _ _ => ?_
    rcases found with _ | ⟨source⟩ | ⟨sub⟩
    · exact .throw _
    · exact hfree (hmute (place.1.mute_storeCopy key source))
    · exact .of_mute (place.1.mute_storeSub key sub)

end Namespace

/-! ## §3. Declarations. -/

/-- The dependency has been made, and a version is selected for it. -/
def Store.picked (s : Store) (id : DependencyId) : Bool :=
  decide (id < s.nextDependency) && (s.dependency id).selected.isSome

theorem Store.picked_putDependency (s : Store) (id : DependencyId) (d : Dependency) :
    (s.putDependency id d).picked id = (decide (id < s.nextDependency) && d.selected.isSome) := by
  unfold picked
  rw [dependency_putDependency, if_pos rfl]
  rfl

theorem Store.nextDependency_insert (s : Store) (n : Namespace) (key : String) (id : DependencyId) :
    (s.insert n key id).nextDependency = s.nextDependency := by
  unfold insert putIndex
  split <;> rfl

/-- What is no group has a selection of its own. -/
theorem Store.isSelected_of_single {s : Store} {id : DependencyId}
    (h : (s.dependency id).members = []) : s.isSelected id = (s.dependency id).selected.isSome := by
  unfold isSelected
  cases id with
  | zero => rfl
  | succ i =>
    unfold isSelectedWithin
    dsimp only
    rw [if_neg (by simp [Dependency.isGroup, h])]

theorem Dependency.isSome_selected_adopt {d : Dependency} (h : d.selected = none)
    (enclosing : String) :
    (d.adopt enclosing).dependency.selected.isSome = (d.adopt enclosing).selects := by
  unfold Dependency.adopt
  split
  · next selected hselect =>
    unfold Dependency.select at hselect
    obtain ⟨version, -, rfl⟩ := map_eq_ok.1 hselect
    rfl
  · dsimp only
    rw [h]
    rfl

/-- What a declaration has done for a dependency: it has selected it if it is selected now and was
not before. -/
structure Session.Declares (id : DependencyId) (σ τ : Session) : Prop where
  noted : σ.Noted (if !σ.store.picked id && τ.store.picked id then [id] else []) τ
  kept : σ.store.picked id = true → τ.store.picked id = true
  issued : id < τ.store.nextDependency
  single : (τ.store.dependency id).members = []

namespace Session.Declares

variable {σ τ υ : Session} {id : DependencyId}

/-- One step after the other: a dependency that has been selected is not selected again. -/
theorem trans (h : σ.Declares id τ) (h' : τ.Declares id υ) : σ.Declares id υ where
  noted := by
    have hboth := h.noted.trans h'.noted
    have hkept := h.kept
    have hkept' := h'.kept
    -- what has a selection keeps it, so that at most one of the two steps has selected
    cases hσ : σ.store.picked id <;> cases hτ : τ.store.picked id <;>
      cases hυ : υ.store.picked id <;> simp_all
  kept hσ := h'.kept (h.kept hσ)
  issued := h'.issued
  single := h'.single

/-- A step that changes no selection. -/
theorem of_same (hnoted : σ.Noted [] τ) (hpicked : τ.store.picked id = σ.store.picked id)
    (hissued : id < τ.store.nextDependency) (hsingle : (τ.store.dependency id).members = []) :
    σ.Declares id τ where
  noted := by
    rw [hpicked, Bool.not_and_self]
    exact hnoted
  kept h := hpicked.trans h
  issued := hissued
  single := hsingle

/-- A step that puts an outcome, which has a selection exactly if it was there or is made. -/
theorem of_settle (hbatch : σ.waiting.isSome) {outcome : Dependency.Outcome}
    (hissued : id < σ.store.nextDependency)
    (hselects : outcome.dependency.selected.isSome
      = ((σ.store.dependency id).selected.isSome || outcome.selects))
    (honce : outcome.selects = true → (σ.store.dependency id).selected = none)
    (hsingle : outcome.dependency.members = [])
    (hrun : (settle id outcome).run σ = (.ok (), τ)) : σ.Declares id τ := by
  obtain ⟨before, hbefore⟩ := Option.isSome_iff_exists.1 hbatch
  have hnoted := noted_settle id outcome σ () τ hrun
  rw [run_settle_of_waiting hbefore] at hrun
  cases hrun
  -- both sides are said in terms of the selections before and behind the step
  have hσ : σ.store.picked id = (σ.store.dependency id).selected.isSome := by
    simp [Store.picked, hissued]
  have hτ : (σ.store.putDependency id outcome.dependency).picked id
      = ((σ.store.dependency id).selected.isSome || outcome.selects) := by
    simp [Store.picked_putDependency, hissued, hselects]
  refine ⟨?_, ?_, hissued, ?_⟩
  · rw [hσ, hτ]
    cases houtcome : outcome.selects with
    | true =>
      rw [houtcome] at hnoted
      rw [honce houtcome]
      exact hnoted
    | false =>
      rw [houtcome] at hnoted
      rw [Bool.or_false, Bool.not_and_self]
      exact hnoted
  · intro h
    rw [hσ] at h
    rw [hτ, h]
    rfl
  · rw [Store.dependency_putDependency, if_pos rfl]
    exact hsingle

end Session.Declares

namespace Namespace

variable {n : Namespace} {σ : Session} {key : String}

/-- Nothing is changed where a key is found free of sub-namespaces. -/
theorem leaves_ensureNoSub {α : Type} {f : Unit → Action α} {C : α → Session → Prop}
    (h : Leaves (f ()) C σ) : Leaves (n.ensureNoSub key >>= f) C σ := by
  refine .bind fun _ τ hrun => ?_
  rw [run_ensureNoSub] at hrun
  split at hrun
  · cases hrun
    exact h
  · exact nomatch hrun

/-- Taking over a selection comes to an outcome that is selected if it was before or is now. -/
theorem leaves_inheritSelection (n : Namespace) (d : Dependency) (σ : Session) :
    Leaves (n.inheritSelection d) (fun outcome τ => τ.store = σ.store ∧
      outcome.dependency.members = d.members ∧
      outcome.dependency.selected.isSome = (d.selected.isSome || outcome.selects) ∧
      (outcome.selects = true → d.selected = none)) σ := by
  obtain ⟨_, ⟨names, rfl⟩, hrun⟩ := n.run_inheritSelection d σ
  intro outcome τ hrun'
  cases hrun.symm.trans hrun'
  obtain ⟨default, selected, hrest⟩ := d.under_spec (d.coordinate.bind (σ.store.nearestSelection? n))
  refine ⟨rfl, by rw [hrest], ?_⟩
  rcases d.under_cases (d.coordinate.bind (σ.store.nearestSelection? n))
    with hsame | ⟨hnone, u, htaken⟩
  · rw [hsame]
    exact ⟨by simp, nofun⟩
  · rw [htaken, hnone]
    exact ⟨Dependency.isSome_selected_adopt hnone u.text, fun _ => rfl⟩

/-- A declaration that is accepted is put, and nothing else is done. -/
theorem exists_of_declare {id : DependencyId} {declaration : Declaration} {σ τ : Session}
    (hrun : (Action.declare id declaration).run σ = (.ok (), τ)) :
    ∃ d, (σ.store.dependency id).declare declaration = .ok d ∧
      τ = { σ with store := σ.store.putDependency id d } := by
  unfold Action.declare at hrun
  rw [run_bind_ok (run_view _ σ)] at hrun
  obtain ⟨d, mid, hd, hsettle⟩ := run_bind_eq_ok.1 hrun
  have hmid : mid = σ := (congrArg Prod.snd hd).symm
  cases hsettle
  exact ⟨d, eq_of_run_ofExcept hd, by rw [hmid]⟩

/-- What is declared is written to the dependency that the key holds for the coordinate, or else to a
new one, and nothing else is done. -/
theorem exists_of_declaredFor {c : Coordinate} {declaration : Declaration} {id : DependencyId}
    {τ : Session} (hrun : (n.declaredFor key c declaration).run σ = (.ok id, τ)) :
    (∃ d, σ.store.ownFor? n key c = some id ∧
      (σ.store.dependency id).declare declaration = .ok d ∧
      τ = { σ with store :=
        (σ.store.putDependency id d).putDependency id { d with coordinate := some c } }) ∨
    σ.store.ownFor? n key c = none ∧ id = σ.store.nextDependency ∧
      τ = { σ with store := (σ.store.addDependency {
        key := key
        coordinate := some c
        requirement := declaration.requirement
        defaultVersion := declaration.default }).2 } := by
  unfold declaredFor at hrun
  rw [run_bind_ok (run_view _ σ)] at hrun
  cases hown : σ.store.ownFor? n key c with
  | some own =>
    rw [hown] at hrun
    obtain ⟨_, mid, hdeclare, hrest⟩ := run_bind_eq_ok.1 hrun
    obtain ⟨d, hd, rfl⟩ := exists_of_declare hdeclare
    -- locating the record reads it again, after the declaration has been put
    have hput : (σ.store.putDependency own d).dependency own = d := by
      rw [Store.dependency_putDependency, if_pos rfl]
    have hlocated : (σ.store.putDependency own d).putDependency own
        { (σ.store.putDependency own d).dependency own with coordinate := some c }
        = (σ.store.putDependency own d).putDependency own { d with coordinate := some c } := by
      rw [hput]
    cases hrest
    exact .inl ⟨d, rfl, hd, congrArg (fun s => { σ with store := s }) hlocated⟩
  | none =>
    rw [hown] at hrun
    cases hrun
    exact .inr ⟨rfl, rfl, rfl⟩

/-- The dependency that a declaration is for is the one that the key holds, or a new one. -/
theorem declares_declaredFor (hσ : σ.store.Sound) (coordinate : Coordinate)
    (declaration : Declaration) :
    Leaves (n.declaredFor key coordinate declaration) (fun id τ => σ.Declares id τ) σ := by
  intro id τ hrun
  rcases exists_of_declaredFor hrun with ⟨d, hown, hdeclare, rfl⟩ | ⟨hfree, rfl, rfl⟩
  · have hissued := hσ.ordered.entries n key id (Store.ownDependency?_of_ownFor? hown)
    have hsame := Dependency.declare_spec hdeclare
    refine .of_same (.of_same rfl rfl) ?_ hissued ?_
    · refine (Store.picked_putDependency _ id _).trans ?_
      unfold Store.picked
      rw [hsame]
      rfl
    · show ((Store.putDependency _ id _).dependency id).members = []
      rw [Store.dependency_putDependency, if_pos rfl, hsame]
      exact Store.members_of_ownFor? hown
  · have hnew := σ.store.dependency_added {
      key := key
      coordinate := some coordinate
      requirement := declaration.requirement
      defaultVersion := declaration.default }
    refine .of_same (.of_same rfl rfl) ?_ (Nat.lt_succ_self _) (congrArg Dependency.members hnew)
    -- it has no selection yet, and it was not there before
    have hafter : Store.picked _ σ.store.nextDependency = false :=
      Bool.and_eq_false_iff.2 (.inr (congrArg (·.selected.isSome) hnew))
    have hbefore : σ.store.picked σ.store.nextDependency = false :=
      Bool.and_eq_false_iff.2 (.inl (decide_eq_false (Nat.lt_irrefl _)))
    exact hafter.trans hbefore.symm

/-- A declaration in a batch selects its dependency if it takes over a selection. -/
theorem declares_declareAs (hσ : σ.store.Sound) (hbatch : σ.waiting.isSome) (key : String)
    (coordinate : Coordinate) (declaration : Declaration) :
    Leaves (n.declareAs key coordinate declaration) (fun id τ => σ.Declares id τ) σ := by
  unfold declareAs
  -- four steps: the declaration, the question for a selection, taking it over, and the entry
  refine leaves_ensureNoSub (.bind fun id mid hdeclared => ?_)
  have hfirst := declares_declaredFor hσ coordinate declaration id mid hdeclared
  refine .bind fun d mid' hview => ?_
  cases hview
  refine .bind fun outcome υ hinherit => ?_
  obtain ⟨hstore, hmembers, hselected, honce⟩ :=
    n.leaves_inheritSelection (mid.store.dependency id) mid outcome υ hinherit
  have hasked : mid.Noted [] υ := by
    have hidle := (n.idle_inheritSelection (mid.store.dependency id)).mute.noted mid
    rw [hinherit] at hidle
    exact hidle
  have hsecond : mid.Declares id υ :=
    .of_same hasked (by rw [hstore]) (hstore ▸ hfirst.issued) (hstore ▸ hfirst.single)
  have hυ : υ.waiting.isSome := hasked.isSome (hfirst.noted.isSome hbatch)
  refine .bind fun _ φ hsettle => ?_
  have hthird : υ.Declares id φ :=
    .of_settle hυ hsecond.issued (hstore ▸ hselected) (hstore ▸ honce)
      (hmembers.trans hfirst.single) hsettle
  intro i ψ hinsert
  cases hinsert
  have hnext := φ.store.nextDependency_insert n key id
  have hdependency := φ.store.dependency_insert n key id id
  have hlast : φ.Declares id { φ with store := φ.store.insert n key id } := by
    refine .of_same (.of_same rfl rfl) ?_ (hnext ▸ hthird.issued) (hdependency ▸ hthird.single)
    unfold Store.picked
    rw [hnext, hdependency]
  exact ((hfirst.trans hsecond).trans hthird).trans hlast

theorem mute_needGroup (n : Namespace) (key : String) (specs : List String) :
    Mute (n.needGroup key specs) := by
  unfold needGroup
  refine (n.idle_ensureNoSub key).mute.bind fun _ => .guarded ?_
  exact (Idle.mapM n.idle_neededMember specs).mute.bind fun members =>
    n.mute_storeGroup key members false

/-- A group has no selection of its own. -/
theorem leaves_needGroup_unselected (n : Namespace) (key : String) (specs : List String)
    (σ : Session) : Leaves (n.needGroup key specs) (fun id τ => τ.store.picked id = false) σ := by
  unfold needGroup storeGroup
  refine .bind_all fun _ _ => .guarded fun _ => .bind_all fun _ _ => .bind_all fun ids mid => ?_
  intro id τ hrun
  cases hrun
  refine Bool.and_eq_false_iff.2 (.inr ?_)
  rw [Store.dependency_registerMembers, Store.dependency_putEntry]
  exact congrArg (·.selected.isSome) (mid.store.dependency_added { key := key, members := ids })

/-- A declaration selects the dependency that it gives back, if that has a selection only now. -/
theorem noted_needAs (hσ : σ.store.Sound) (hbatch : σ.waiting.isSome) (key : String)
    (value : Value) : Leaves (n.needAs key value) (fun id τ =>
      σ.Noted (if !σ.store.picked id && τ.store.picked id then [id] else []) τ) σ := by
  have hcopy {place : Namespace} {key : String} {mid : Session} (halike : σ.Alike mid)
      (source : DependencyId) : Leaves (place.needCopy key source) (fun id τ =>
        σ.Noted (if !σ.store.picked id && τ.store.picked id then [id] else []) τ) mid := by
    obtain ⟨names, rfl⟩ := halike
    unfold needCopy
    refine .bind_ok (run_view _ _) ?_
    split
    · exact fun id τ hrun => (declares_declareAs (σ := { σ with listed := names }) hσ hbatch
        _ _ _ id τ hrun).noted
    · exact .throw _
  unfold needAs
  refine .bind_ok (run_view _ σ) ?_
  cases value with
  | text given =>
    refine .bind_ofExcept fun need _ => .bind_ofExcept fun declaration _ => ?_
    exact fun id τ hrun => (declares_declareAs hσ hbatch _ _ _ id τ hrun).noted
  | group specs =>
    -- members are made with their selections, and the group itself has none
    intro id τ hrun
    have hunselected := leaves_needGroup_unselected _ _ specs σ id τ hrun
    rw [hunselected, Bool.and_false]
    exact Leaves.of_mute (mute_needGroup _ _ specs) id τ hrun
  | dependency source => exact hcopy (.refl σ) source
  | key other =>
    refine .bind_ok (run_read _ σ) ?_
    split
    · exact hcopy ⟨_, rfl⟩ _
    · exact .throw _
  | sub _ => exact .throw _

end Namespace

/-! ## §4. What a write selects. -/

namespace Operation

/-- Whether a write uses a text that selects a version. -/
def selects : Operation → Bool
  | .set _ _ value => value.selects
  | .useSpec _ text =>
    (NeedSpec.parse text).toOption.any fun need => need.requirement.isNone && need.spec.selects
  | _ => false

/-- Whether a write declares a dependency, and may take over a selection or select a default. -/
def declares : Operation → Bool
  | .needAs _ _ _ => true
  | .useSpec _ text => (NeedSpec.parse text).toOption.any (·.requirement.isSome)
  | _ => false

end Operation

/-- The dependency that a write selects, if it does: the one that it gives back. -/
def Step.selections (step : Step) : List DependencyId :=
  match (perform step.operation).run step.session with
  | (.ok reply, τ) => reply.dependency?.toList.filter fun id =>
    step.operation.selects ||
      step.operation.declares && (!step.session.store.picked id && τ.store.picked id)
  | (.error _, _) => []

/-- The dependencies that an operation selects, in the order in which it does. -/
def Operation.selections (σ : Session) (operation : Operation) : List DependencyId :=
  (operation.parts σ).flatMap Step.selections

namespace Namespace

variable {n : Namespace} {σ : Session} {key : String}

/-! ## §5. Specs under their own names. -/

/-- A default is selected if nothing is yet. -/
theorem declares_selectDefault {id : DependencyId} (hbatch : σ.waiting.isSome)
    (hissued : id < σ.store.nextDependency) (hsingle : (σ.store.dependency id).members = [])
    (default : Option String) :
    Leaves (selectDefault id default) (fun _ τ => σ.Declares id τ) σ := by
  have hdone : σ.Declares id σ := .of_same (.of_same rfl rfl) rfl hissued hsingle
  unfold selectDefault
  cases default with
  | none =>
    intro _ τ hrun
    cases hrun
    exact hdone
  | some version =>
    refine .bind_ok (run_view _ σ) ?_
    rw [Store.isSelected_of_single hsingle]
    cases hselected : (σ.store.dependency id).selected with
    | some v =>
      intro _ τ hrun
      cases hrun
      exact hdone
    | none =>
      refine .bind_ok (run_view _ σ) (.bind_ofExcept fun d hselect => ?_)
      intro _ τ hrun
      unfold Dependency.select at hselect
      obtain ⟨v, -, rfl⟩ := map_eq_ok.1 hselect
      refine .of_settle hbatch hissued ?_ (fun _ => hselected) hsingle hrun
      simp

theorem refuses_selectDefault (id : DependencyId) (default : Option String) :
    Refuses (selectDefault id default) := by
  unfold selectDefault
  cases default with
  | none => exact .of_total (.pure _)
  | some version =>
    refine .after (.view _) fun selected => ?_
    split
    · exact .select id version
    · exact .of_total (.pure _)

/-- A spec under its own name is either used or declared, and selects accordingly.  If it fails, it
may have taken over a selection, but no listener has been told. -/
theorem noted_ownUse (hσ : σ.store.Sound) (hbatch : σ.waiting.isSome) (text : String) :
    let operation : Operation := .useSpec n text
    Ends (n.ownUse text) (fun id τ => σ.Noted (if operation.selects ||
      operation.declares && (!σ.store.picked id && τ.store.picked id) then [id] else []) τ)
      (fun τ => ∃ ids, σ.Noted ids τ) σ := by
  intro operation
  have hstart : ∃ ids, σ.Noted ids σ := ⟨[], .of_same rfl rfl⟩
  unfold ownUse
  refine .bind_ofExcept hstart fun need hneed => ?_
  have hselects : operation.selects = (need.requirement.isNone && need.spec.selects) := by
    simp only [operation, Operation.selects, hneed]
    rfl
  have hdeclares : operation.declares = need.requirement.isSome := by
    simp only [operation, Operation.declares, hneed]
    rfl
  rw [hselects, hdeclares]
  refine .bind_ok (run_view _ σ) (ends_ensureNoSub hstart fun _ => ?_)
  -- without a requirement the text is used, and with one it is declared
  split
  · next hnone =>
    rw [hnone, Option.isSome_eq_false_iff.2 hnone]
    simp only [Bool.true_and, Bool.false_and, Bool.or_false]
    exact ⟨noted_useSpecAs _ _ need.spec σ,
      fun e τ hrun => ⟨[], (refuses_useSpecAs _ _ need.spec σ e τ hrun).noted⟩⟩
  · next hsome =>
    rw [Bool.not_eq_true] at hsome
    rw [hsome, Option.isNone_eq_false_iff.1 hsome]
    simp only [Bool.true_and, Bool.false_and, Bool.false_or]
    refine .bind_ofExcept hstart fun declaration _ => .bind ⟨fun id mid hdeclare => ?_,
      fun e τ hrun => ⟨[], (refuses_declareAs _ _ _ declaration σ e τ hrun).noted⟩⟩
    have hfirst := declares_declareAs hσ hbatch _ _ _ id mid hdeclare
    refine .bind ⟨fun _ υ hdefault => ?_, fun e τ hrun =>
      ⟨_, hfirst.noted.trans (refuses_selectDefault id _ mid e τ hrun).noted⟩⟩
    have hsecond := declares_selectDefault (hfirst.noted.isSome hbatch) hfirst.issued hfirst.single
      declaration.default () υ hdefault
    exact .of_ok rfl (hfirst.trans hsecond).noted

end Namespace

/-! ## §6. Several writes. -/

section Batches

variable {γ : Type} {write : String → Value → Operation} {act : String → Value → Action γ}
  {f : γ → Reply}

/-- The writes of a batch note what each of them selects, in order. -/
theorem Step.noted_batch (hperform : ∀ key value, perform (write key value) = do
      return f (← act key value))
    (hgrows : ∀ key value (σ : Session), σ.store.Sound →
      GrowsAt (act key value) (fun _ _ => True) σ)
    (hwrite : ∀ key value (σ : Session), σ.store.Sound → σ.waiting.isSome →
      Ends (act key value) (fun _ τ => σ.Noted (Step.selections ⟨write key value, σ⟩) τ)
        (fun τ => σ.Noted [] τ) σ)
    (pairs : List (String × Value)) : ∀ {σ : Session}, σ.store.Sound → σ.waiting.isSome →
      Ends (pairs.mapM fun (key, value) => act key value)
        (fun _ τ => σ.Noted ((Step.batch write pairs σ).flatMap Step.selections) τ)
        (fun τ => ∃ ids, σ.Noted ids τ) σ := by
  induction pairs with
  | nil => exact fun _ _ => .of_ok rfl (.of_same rfl rfl)
  | cons pair pairs ih =>
    obtain ⟨key, value⟩ := pair
    intro σ hσ hbatch
    rw [List.mapM_cons]
    have hfirst := hwrite key value σ hσ hbatch
    have hsound := (hgrows key value σ hσ).1.sound
    rcases hrun : (act key value).run σ with ⟨result, τ⟩
    rw [hrun] at hsound
    cases result with
    | error e => exact .of_error (run_bind_error hrun _) ⟨[], hfirst.2 e τ hrun⟩
    | ok a =>
      -- the batch goes on after the first write, and the others are made in the session it leaves
      have hnoted := hfirst.1 a τ hrun
      have hbatched : Step.batch write ((key, value) :: pairs) σ
          = ⟨write key value, σ⟩ :: Step.batch write pairs τ := by
        rw [Step.batch, hperform, run_bind_ok hrun]
        rfl
      rw [hbatched, List.flatMap_cons]
      refine .bind_ok hrun (.map ((ih hsound (hnoted.isSome hbatch)).imp (fun _ υ hυ => ?_) ?_))
      · exact hnoted.trans hυ
      · rintro υ ⟨ids, hυ⟩
        exact ⟨_, hnoted.trans hυ⟩

end Batches

namespace Step

variable {σ τ : Session}

/-- What a write that succeeds selects can be read off what it gives back. -/
theorem selections_of_run {γ : Type} {operation : Operation} {act : Action γ} {f : γ → Reply}
    {a : γ} (hperform : perform operation = do return f (← act))
    (hrun : act.run σ = (.ok a, τ)) :
    selections ⟨operation, σ⟩ = (f a).dependency?.toList.filter fun id =>
      operation.selects || operation.declares && (!σ.store.picked id && τ.store.picked id) := by
  unfold selections
  rw [hperform, run_bind_ok hrun]
  rfl

theorem noted_set (n : Namespace) (key : String) (value : Value) (σ : Session) :
    Ends (n.set key value) (fun _ τ => σ.Noted (selections ⟨.set n key value, σ⟩) τ)
      (fun τ => σ.Noted [] τ) σ := by
  refine ⟨fun e τ hrun => ?_, fun e τ hrun => (n.refuses_set key value σ e τ hrun).noted⟩
  have hnoted := n.noted_set key value σ e τ hrun
  rw [selections_of_run (f := .entry) rfl hrun]
  show σ.Noted (e.dependency?.toList.filter fun _ => value.selects || false) τ
  cases hselects : value.selects with
  | true => simpa [hselects] using hnoted
  | false => simpa [hselects] using hnoted

theorem noted_needAs (hσ : σ.store.Sound) (hbatch : σ.waiting.isSome) (n : Namespace)
    (key : String) (value : Value) :
    Ends (n.needAs key value) (fun _ τ => σ.Noted (selections ⟨.needAs n key value, σ⟩) τ)
      (fun τ => σ.Noted [] τ) σ := by
  refine ⟨fun id τ hrun => ?_, fun e τ hrun => (n.refuses_needAs key value σ e τ hrun).noted⟩
  have hnoted := Namespace.noted_needAs hσ hbatch key value id τ hrun
  rw [selections_of_run (f := .dependency) rfl hrun]
  show σ.Noted ([id].filter fun id => !σ.store.picked id && τ.store.picked id) τ
  rw [List.filter_singleton, Bool.cond_eq_ite]
  exact hnoted

theorem noted_setAll (hσ : σ.store.Sound) (hbatch : σ.waiting.isSome) (n : Namespace)
    (pairs : List (String × Value)) :
    Ends (pairs.mapM fun (key, value) => n.set key value)
      (fun _ τ => σ.Noted ((batch (.set n) pairs σ).flatMap selections) τ)
      (fun τ => ∃ ids, σ.Noted ids τ) σ :=
  noted_batch (f := .entry) (fun _ _ => rfl)
    (fun key value _ h => (Session.growsAt_set h n key value).imp fun _ _ _ => trivial)
    (fun key value σ _ _ => noted_set n key value σ) pairs hσ hbatch

theorem noted_needsAll (hσ : σ.store.Sound) (hbatch : σ.waiting.isSome) (n : Namespace)
    (pairs : List (String × Value)) :
    Ends (pairs.mapM fun (key, value) => n.needAs key value)
      (fun _ τ => σ.Noted ((batch (.needAs n) pairs σ).flatMap selections) τ)
      (fun τ => ∃ ids, σ.Noted ids τ) σ :=
  noted_batch (f := .dependency) (fun _ _ => rfl)
    (fun key value _ h => (Session.growsAt_needAs h n key value).imp fun _ _ _ => trivial)
    (fun key value _ h hbatch => noted_needAs h hbatch n key value) pairs hσ hbatch

end Step

/-- The tables of a profile are applied one after the other. -/
theorem Registry.noted_parts (tables : List (String × Std.TreeMap String ProfileValue)) :
    ∀ {σ : Session}, σ.store.Sound → σ.waiting.isSome →
      Ends (tables.forM fun (name, table) => applyTable name table)
        (fun _ τ => σ.Noted ((parts tables σ).flatMap Step.selections) τ)
        (fun τ => ∃ ids, σ.Noted ids τ) σ := by
  induction tables with
  | nil => exact fun _ _ => .of_ok rfl (.of_same rfl rfl)
  | cons head tables ih =>
    obtain ⟨name, table⟩ := head
    intro σ hσ hbatch
    let n := (Namespace.ofKey (.ofText name)).answer σ.store
    -- the namespace of the table is asked for first, which notes nothing
    let asked : Session := { σ with listed := (Namespace.ofKey (.ofText name)).listing σ }
    have hasked : σ.Noted [] asked := .of_same rfl rfl
    have hfirst := Step.noted_setAll (σ := asked) hσ hbatch n (assignments table)
    have hsound := (Session.growsAt_setAll (σ := asked) hσ n (assignments table)).1.sound
    have hstart : (applyTable name table).run σ = (do
        let _ ← (assignments table).mapM fun pair => n.set pair.1 pair.2
        return () : Action Unit).run asked := by
      unfold applyTable
      rw [run_bind_ok (run_read _ σ)]
    rcases hrun : ((assignments table).mapM fun pair => n.set pair.1 pair.2).run asked
      with ⟨result, τ⟩
    rw [hrun] at hsound
    cases result with
    | error e =>
      have htable : (applyTable name table).run σ = (.error e, τ) :=
        hstart.trans (run_bind_error hrun _)
      obtain ⟨ids, hnoted⟩ := hfirst.2 e τ hrun
      exact .of_error (run_bind_error htable _) ⟨_, hasked.trans hnoted⟩
    | ok es =>
      have htable : (applyTable name table).run σ = (.ok (), τ) :=
        hstart.trans (run_bind_ok hrun _)
      have hnoted : σ.Noted ((Step.batch (.set n) (assignments table) asked).flatMap
          Step.selections) τ := hasked.trans (hfirst.1 es τ hrun)
      have hparts : parts ((name, table) :: tables) σ
          = Step.batch (.set n) (assignments table) asked ++ parts tables τ := by
        rw [parts, htable, run_read]
      rw [hparts, List.flatMap_append]
      refine .bind_ok htable ((ih hsound (hnoted.isSome hbatch)).imp (fun _ υ hυ => ?_) ?_)
      · exact hnoted.trans hυ
      · rintro υ ⟨ids, hυ⟩
        exact ⟨_, hnoted.trans hυ⟩

end DependencyScope
