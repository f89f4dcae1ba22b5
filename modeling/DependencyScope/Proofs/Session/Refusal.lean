/-
  DependencyScope.Proofs.Session.Refusal — operations that are refused leave no trace.

  An operation outside of a batch has no checkpoint to go back to.  It is all or nothing because it
  asks first and writes last: what may fail only lists names or makes dependencies that nothing
  holds yet, and what is written after that cannot fail.

  Main definitions:
    * `Store.Adds`, `Session.Untouched` — dependencies have been made, and nothing else has changed;
    * `Action.Idle`, `Action.Total`, `Action.Refuses` — what only asks, what only succeeds, and what
      is all or nothing;
    * `Operation.chains` — the operations that write several times.

  Main results:
    * `Action.Refuses.after`, `Action.Refuses.before` — asking first and writing last;
    * `Namespace.refuses_set`, `.refuses_declareAs` — assignments and declarations;
    * `Session.refuses_perform` — every operation that writes at most once;
    * `Session.unchanged_of_refused` — what it leaves behind when it fails.
-/
import DependencyScope.Proofs.Session.Charted

namespace DependencyScope

open DependencyScope.Text DependencyScope.Action

/-! ## §1. What is left as it was. -/

namespace Store

variable {r s t : Store}

/-- Dependencies have been made, and nothing else has changed. -/
structure Adds (s t : Store) : Prop where
  rest : t = { s with dependencies := t.dependencies, nextDependency := t.nextDependency }
  next : s.nextDependency ≤ t.nextDependency
  kept : ∀ id < s.nextDependency, t.dependency id = s.dependency id

namespace Adds

theorem refl (s : Store) : s.Adds s where
  rest := rfl
  next := Nat.le_refl _
  kept _ _ := rfl

theorem trans (h : r.Adds s) (h' : s.Adds t) : r.Adds t where
  rest := by rw [h'.rest, h.rest]
  next := Nat.le_trans h.next h'.next
  kept id hid := (h'.kept id (Nat.lt_of_lt_of_le hid h.next)).trans (h.kept id hid)

theorem addDependency (s : Store) (d : Dependency) : s.Adds (s.addDependency d).2 where
  rest := rfl
  next := Nat.le_succ _
  kept id hid := by rw [dependency_addDependency, if_neg (Nat.ne_of_gt hid)]

theorem contentsOf (h : s.Adds t) (n : Namespace) : t.contentsOf n = s.contentsOf n := by
  rw [h.rest]
  rfl

theorem linkOf (h : s.Adds t) (n : Namespace) : t.linkOf n = s.linkOf n := by
  rw [h.rest]
  rfl

theorem copyAll {depth : Nat}
    (hcopy : ∀ (s : Store) (id : DependencyId) (key : String),
      s.Adds (s.copyWithin depth id key).2) :
    ∀ (members : List DependencyId) (s : Store), s.Adds (Store.copyAll depth members s).2
  | [], s => .refl s
  | member :: rest, s => (hcopy s member _).trans (copyAll hcopy rest _)

theorem copyWithin (depth : Nat) : ∀ (s : Store) (id : DependencyId) (key : String),
    s.Adds (s.copyWithin depth id key).2 := by
  induction depth with
  | zero => exact fun s _ _ => .addDependency s _
  | succ depth ih =>
    intro s id key
    rw [copyWithin_succ]
    exact (copyAll ih _ s).trans (.addDependency _ _)

end Adds

end Store

namespace Session

variable {σ τ υ : Session}

/-- Names have been listed and dependencies have been made, and nothing else has changed. -/
structure Untouched (σ τ : Session) : Prop where
  store : σ.store.Adds τ.store
  waiting : τ.waiting = σ.waiting
  events : τ.events = σ.events

namespace Untouched

theorem refl (σ : Session) : σ.Untouched σ := ⟨.refl _, rfl, rfl⟩

theorem trans (h : σ.Untouched τ) (h' : τ.Untouched υ) : σ.Untouched υ :=
  ⟨h.store.trans h'.store, h'.waiting.trans h.waiting, h'.events.trans h.events⟩

end Untouched

end Session

/-! ## §2. Asking first and writing last. -/

namespace Action

variable {α β : Type}

/-- The action only lists names and makes dependencies. -/
def Idle (act : Action α) : Prop := ∀ σ : Session, σ.Untouched (act.run σ).2

/-- The action succeeds, whatever the session is. -/
def Total (act : Action α) : Prop := ∀ σ, ∃ a τ, act.run σ = (.ok a, τ)

/-- If the action fails, it has only listed names and made dependencies. -/
def Refuses (act : Action α) : Prop :=
  ∀ (σ : Session) e τ, act.run σ = (.error e, τ) → σ.Untouched τ

namespace Idle

theorem pure (a : α) : Idle (pure a : Action α) := Session.Untouched.refl

theorem throw (e : Error) : Idle (throw e : Action α) := Session.Untouched.refl

theorem read (r : Reading α) [Reading.Discreet r] : Idle (read r) := by
  intro σ
  rw [run_read]
  exact ⟨.refl _, rfl, rfl⟩

theorem view (f : Store → α) : Idle (view f) := Session.Untouched.refl

theorem ofExcept (result : Except Error α) : Idle (ofExcept result) := Session.Untouched.refl

theorem addDependency (d : Dependency) : Idle (change (·.addDependency d)) :=
  fun σ => ⟨.addDependency σ.store d, rfl, rfl⟩

theorem copy (source : DependencyId) (key : String) : Idle (change (·.copy source key)) :=
  fun σ => ⟨.copyWithin source σ.store source key, rfl, rfl⟩

theorem bind {act : Action α} {f : α → Action β} (hact : Idle act) (hf : ∀ a, Idle (f a)) :
    Idle (act >>= f) := by
  intro σ
  have hfirst := hact σ
  rw [run_bind]
  rcases hrun : act.run σ with ⟨result, τ⟩
  rw [hrun] at hfirst
  cases result with
  | ok a => exact hfirst.trans (hf a τ)
  | error e => exact hfirst

theorem mapM {γ : Type} {f : γ → Action α} (h : ∀ c, Idle (f c)) (cs : List γ) :
    Idle (cs.mapM f) := by
  induction cs with
  | nil => exact .pure []
  | cons c cs ih =>
    rw [List.mapM_cons]
    exact (h c).bind fun _ => ih.bind fun _ => .pure _

end Idle

namespace Total

theorem pure (a : α) : Total (pure a : Action α) := fun σ => ⟨a, σ, rfl⟩

theorem view (f : Store → α) : Total (view f) := fun _ => ⟨_, _, rfl⟩

theorem update (f : Store → Store) : Total (update f) := fun _ => ⟨_, _, rfl⟩

theorem change (f : Store → α × Store) : Total (change f) := fun _ => ⟨_, _, rfl⟩

theorem announce (id : DependencyId) : Total (announce id) := fun _ => ⟨_, _, rfl⟩

theorem bind {act : Action α} {f : α → Action β} (hact : Total act) (hf : ∀ a, Total (f a)) :
    Total (act >>= f) := by
  intro σ
  obtain ⟨a, τ, hrun⟩ := hact σ
  rw [run_bind_ok hrun]
  exact hf a τ

theorem mapM {γ : Type} {f : γ → Action α} (h : ∀ c, Total (f c)) (cs : List γ) :
    Total (cs.mapM f) := by
  induction cs with
  | nil => exact .pure []
  | cons c cs ih =>
    rw [List.mapM_cons]
    exact (h c).bind fun _ => ih.bind fun _ => .pure _

theorem settle (id : DependencyId) (outcome : Dependency.Outcome) : Total (settle id outcome) := by
  refine (update _).bind fun _ => ?_
  split
  · exact announce id
  · exact .pure _

theorem orNew (target : Option DependencyId) (d : Dependency) : Total (orNew target d) := by
  unfold Action.orNew
  cases target with
  | some id => exact .pure id
  | none => exact change _

end Total

namespace Refuses

theorem throw (e : Error) : Refuses (throw e : Action α) := by
  intro σ e' τ hrun
  cases hrun
  exact .refl σ

theorem of_total {act : Action α} (h : Total act) : Refuses act := by
  intro σ e τ hrun
  obtain ⟨a, υ, hok⟩ := h σ
  exact nomatch hok.symm.trans hrun

theorem of_idle {act : Action α} (h : Idle act) : Refuses act := by
  intro σ e τ hrun
  have hend := h σ
  rw [hrun] at hend
  exact hend

/-- What is asked first is left as it was, whatever is refused then. -/
theorem after {act : Action α} {f : α → Action β} (hact : Idle act) (hf : ∀ a, Refuses (f a)) :
    Refuses (act >>= f) := by
  intro σ e υ hrun
  have hfirst := hact σ
  rw [run_bind] at hrun
  rcases hact' : act.run σ with ⟨result, τ⟩
  rw [hact'] at hfirst hrun
  cases result with
  | ok a => exact hfirst.trans (hf a τ e υ hrun)
  | error e' =>
    cases hrun
    exact hfirst

/-- What is written last cannot fail. -/
theorem before {act : Action α} {f : α → Action β} (hact : Refuses act) (hf : ∀ a, Total (f a)) :
    Refuses (act >>= f) := by
  intro σ e υ hrun
  rw [run_bind] at hrun
  rcases hact' : act.run σ with ⟨result, τ⟩
  rw [hact'] at hrun
  cases result with
  | ok a =>
    obtain ⟨b, φ, hok⟩ := hf a τ
    exact nomatch hok.symm.trans hrun
  | error e' =>
    cases hrun
    exact hact σ _ _ hact'

theorem map {act : Action α} {f : α → β} (hact : Refuses act) : Refuses (do return f (← act)) :=
  hact.before fun _ => .pure _

theorem guarded {c : Prop} [Decidable c] {e : Error} {f : PUnit → Action β} (h : Refuses (f ⟨⟩)) :
    Refuses (if c then (MonadExcept.throw e : Action PUnit) >>= f else f ⟨⟩) := by
  split
  · exact .after (.throw e) fun _ => h
  · exact h

theorem select (id : DependencyId) (text : String) : Refuses (select id text) :=
  .after (.view _) fun _ => .after (.ofExcept _) fun _ => .of_total (.settle id _)

theorem declare (id : DependencyId) (declaration : Declaration) :
    Refuses (declare id declaration) :=
  .after (.view _) fun _ => .after (.ofExcept _) fun _ => .of_total (.settle id _)

end Refuses

end Action

/-! ## §3. Assignments. -/

namespace Namespace

theorem idle_ensureNoSub (n : Namespace) (key : String) : Idle (n.ensureNoSub key) := by
  unfold ensureNoSub
  refine (Idle.view _).bind fun found => ?_
  rcases found with _ | ⟨id⟩ | ⟨sub⟩
  · exact .pure _
  · exact .pure _
  · exact .throw _

theorem total_insert (n : Namespace) (key : String) (id : DependencyId) :
    Total (do Action.update (·.insert n key id); return id) :=
  (Total.update _).bind fun _ => .pure id

theorem total_storeCopy (n : Namespace) (key : String) (source : DependencyId) :
    Total (n.storeCopy key source) :=
  (Total.change _).bind fun copy => n.total_insert key copy

theorem total_storeGroup (n : Namespace) (key : String) (members : List Dependency) (byId : Bool) :
    Total (n.storeGroup key members byId) :=
  (Total.mapM (fun _ => .change _) members).bind fun _ =>
    (Total.change _).bind fun _ => (Total.update _).bind fun _ => .pure _

theorem refuses_storeSub (n : Namespace) (key : String) (sub : Namespace) :
    Refuses (n.storeSub key sub) := by
  unfold storeSub
  refine .guarded (.after (.view _) fun own => .guarded ?_)
  exact .of_total ((Total.update _).bind fun _ => .pure _)

theorem refuses_openSub (n : Namespace) (key : String) : Refuses (n.openSub key) := by
  unfold openSub
  refine .after (.view _) fun found => ?_
  rcases found with _ | ⟨id⟩ | ⟨sub⟩
  · exact .of_total (.change _)
  · exact .throw _
  · exact .of_total (.pure sub)

/-- A spec is checked as a whole before anything is written. -/
theorem refuses_useSpecAs (n : Namespace) (key : String) (spec : Spec) :
    Refuses (n.useSpecAs key spec) := by
  have hinherited (d : Dependency) : Idle (n.requirementBeyond key spec.coordinate d) := by
    unfold requirementBeyond
    split
    · exact .pure none
    · exact .read _
  unfold useSpecAs
  refine .after (.ofExcept _) fun version => .after (.view _) fun checked => ?_
  refine .after (.ofExcept checked) fun _ => .after (.view _) fun target => ?_
  refine .after (.view _) fun d => .after (hinherited d) fun inherited => ?_
  refine .after (.ofExcept _) fun outcome => .of_total ((Total.orNew target d).bind fun id => ?_)
  refine (Total.settle id outcome).bind fun _ => (Total.update _).bind fun _ => ?_
  exact n.total_insert key id

theorem refuses_chooseOn (id : DependencyId) (version : VersionText) :
    Refuses (chooseOn id version) :=
  .after (.view _) fun _ => .after (.ofExcept _) fun _ => .of_total (.settle id _)

/-- A copy that is not used in the end is held by nothing. -/
theorem idle_copyInherited (n : Namespace) (key : String) : Idle (n.copyInherited key) := by
  unfold copyInherited
  refine (Idle.read _).bind fun inherited => ?_
  cases inherited with
  | some source => exact .copy source key
  | none => exact .addDependency _

theorem refuses_useTextAs (n : Namespace) (key text : String) : Refuses (n.useTextAs key text) := by
  unfold useTextAs
  split
  · exact .after (.ofExcept _) fun spec => n.refuses_useSpecAs key spec
  · unfold useVersionAs
    refine .after (.ofExcept _) fun version => .after (.view _) fun own => ?_
    cases own with
    | some id => exact (refuses_chooseOn id version).before fun _ => .pure id
    | none =>
      refine .after (n.idle_copyInherited key) fun id => ?_
      exact (refuses_chooseOn id version).before fun _ => n.total_insert key id

theorem refuses_useGroupAs (n : Namespace) (key : String) (specs : List String) :
    Refuses (n.useGroupAs key specs) := by
  unfold useGroupAs
  exact .guarded (.after (.ofExcept _) fun members =>
    .of_total (n.total_storeGroup key members true))

theorem idle_localKey (n : Namespace) (key : String) : Idle (n.localKey key) := by
  unfold localKey
  split
  · refine (Idle.view _).bind fun found => ?_
    rcases found with _ | ⟨id⟩ | ⟨sub⟩
    · exact .throw _
    · exact .view _
    · exact .throw _
  · exact .pure key

/-- An assignment is all or nothing, whatever its value is. -/
theorem refuses_set (n : Namespace) (key : String) (value : Value) : Refuses (n.set key value) := by
  unfold set
  refine .after (.view _) fun place => ?_
  unfold setHere
  refine .after (place.1.idle_localKey place.2) fun key => ?_
  have hfree {act : Action DependencyId} (hact : Refuses act) :
      Refuses (do place.1.ensureNoSub key; return Entry.dependency (← act)) :=
    .after (place.1.idle_ensureNoSub key) fun _ => hact.map
  have hcopy (source : DependencyId) := hfree (.of_total (place.1.total_storeCopy key source))
  cases value with
  | sub sub => exact place.1.refuses_storeSub key sub
  | key other =>
    refine .after (.read _) fun found => ?_
    rcases found with _ | ⟨source⟩ | ⟨sub⟩
    · exact .throw _
    · exact hcopy source
    · exact place.1.refuses_storeSub key sub
  | text text => exact hfree (place.1.refuses_useTextAs key text)
  | group specs => exact hfree (place.1.refuses_useGroupAs key specs)
  | dependency source => exact hcopy source

theorem refuses_useInherited (n : Namespace) (key : String) : Refuses (n.useInherited key) := by
  unfold useInherited
  refine .after (.read _) fun found => ?_
  rcases found with _ | ⟨source⟩ | ⟨sub⟩
  · exact .throw _
  · exact .after (n.idle_ensureNoSub _) fun _ => .of_total (n.total_storeCopy _ source)
  · exact .throw _

/-! ## §4. Declarations. -/

theorem idle_inheritSelection (n : Namespace) (d : Dependency) : Idle (n.inheritSelection d) := by
  intro σ
  obtain ⟨_, ⟨names, rfl⟩, hrun⟩ := n.run_inheritSelection d σ
  rw [hrun]
  exact ⟨.refl _, rfl, rfl⟩

/-- Taking over a selection is no reason to refuse anything. -/
theorem total_inheritSelection (n : Namespace) (d : Dependency) : Total (n.inheritSelection d) := by
  intro σ
  obtain ⟨τ, -, hrun⟩ := n.run_inheritSelection d σ
  exact ⟨_, τ, hrun⟩

/-- A declaration can be refused by the dependency that the key holds, and by nothing later. -/
theorem refuses_declareAs (n : Namespace) (key : String) (coordinate : Coordinate)
    (declaration : Declaration) : Refuses (n.declareAs key coordinate declaration) := by
  have hdeclared : Refuses (n.declaredFor key coordinate declaration) := by
    unfold declaredFor
    refine .after (.view _) fun own => ?_
    cases own with
    | some id =>
      exact (Refuses.declare id declaration).before fun _ => (Total.update _).bind fun _ => .pure id
    | none => exact .of_total (.change _)
  unfold declareAs
  refine .after (n.idle_ensureNoSub key) fun _ => hdeclared.before fun id => ?_
  refine (Total.view _).bind fun d => (n.total_inheritSelection d).bind fun outcome => ?_
  exact (Total.settle id outcome).bind fun _ => n.total_insert key id

theorem refuses_needCopy (n : Namespace) (key : String) (source : DependencyId) :
    Refuses (n.needCopy key source) := by
  unfold needCopy
  refine .after (.view _) fun d => ?_
  split
  · exact n.refuses_declareAs key _ _
  · exact .throw _

theorem idle_neededMember (n : Namespace) (text : String) : Idle (n.neededMember text) :=
  (Idle.ofExcept _).bind fun _ => (Idle.ofExcept _).bind fun _ =>
    (n.idle_inheritSelection _).bind fun _ => .pure _

/-- All members of a declared group are read before the group is made. -/
theorem refuses_needGroup (n : Namespace) (key : String) (specs : List String) :
    Refuses (n.needGroup key specs) := by
  unfold needGroup
  refine .after (n.idle_ensureNoSub key) fun _ => .guarded ?_
  exact .after (.mapM n.idle_neededMember specs) fun members =>
    .of_total (n.total_storeGroup key members false)

theorem refuses_need (n : Namespace) (text : String) : Refuses (n.need text) :=
  .after (.ofExcept _) fun need => .after (.ofExcept _) fun declaration =>
    .after (.view _) fun place =>
      place.1.refuses_declareAs place.2 need.spec.coordinate declaration

theorem refuses_needAs (n : Namespace) (key : String) (value : Value) :
    Refuses (n.needAs key value) := by
  unfold needAs
  refine .after (.view _) fun place => ?_
  cases value with
  | text text =>
    exact .after (.ofExcept _) fun need => .after (.ofExcept _) fun declaration =>
      place.1.refuses_declareAs place.2 need.spec.coordinate declaration
  | group specs => exact place.1.refuses_needGroup place.2 specs
  | dependency source => exact place.1.refuses_needCopy place.2 source
  | key other =>
    refine .after (.read _) fun found => ?_
    cases found with
    | some source => exact place.1.refuses_needCopy place.2 source
    | none => exact .throw _
  | sub _ => exact .throw _

theorem refuses_require (n : Namespace) (key text : String) (requirement : Option String) :
    Refuses (n.require key text requirement) :=
  .after (.ofExcept _) fun spec => .after (.ofExcept _) fun declaration =>
    .after (.view _) fun place =>
      place.1.refuses_declareAs place.2 spec.coordinate declaration

/-! ## §5. Parents. -/

/-- A link is set only after the check for cycles. -/
theorem refuses_setParent (n : Namespace) (parent : ParentRef) : Refuses (n.setParent parent) := by
  have hacyclic (candidate : Namespace) : Idle (n.ensureAcyclic candidate) := by
    refine (Idle.read (n.encloses candidate)).bind fun cyclic => ?_
    split
    · exact .throw _
    · exact .pure _
  have hlink : Idle (n.parentLink parent) := by
    unfold parentLink
    split
    · exact .pure _
    · next key _ =>
      refine (Idle.view _).bind fun attached => ?_
      split
      · exact (Idle.read (ofKey key)).bind fun candidate =>
          (hacyclic candidate).bind fun _ => .pure _
      · exact .throw _
    · next candidate => exact (hacyclic candidate).bind fun _ => .pure _
  unfold setParent
  exact .guarded (.after hlink fun _ => .of_total (.update _))

end Namespace

/-! ## §6. Operations. -/

/-- Whether an operation carries out several writes, one after the other. -/
def Operation.chains : Operation → Bool
  | .useAll _ _ | .needAll _ _ | .useSpec _ _ | .load _ => true
  | .openSubUsing _ _ _ | .addAlias _ _ _ => true
  | _ => false

namespace Session

variable {σ τ : Session} {operation : Operation} {e : Error}

/-- A question leaves everything as it was. -/
theorem idle_perform (h : operation.asks) : Idle (perform operation) := by
  intro σ
  obtain ⟨names, hafter⟩ := alike_after h σ
  show σ.Untouched (σ.after operation)
  rw [hafter]
  exact ⟨.refl σ.store, rfl, rfl⟩

/-- An operation that writes at most once is all or nothing. -/
theorem refuses_perform (h : operation.chains = false) : Refuses (perform operation) := by
  have hdone {act : Action Unit} {reply : Reply} (hact : Refuses act) :
      Refuses (do act; return reply) := hact.before fun _ => .pure reply
  have hchange {α : Type} (g : Store → α × Store) (f : α → Reply) :
      Refuses (do return f (← Action.change g)) :=
    .of_total ((Total.change g).bind fun _ => .pure _)
  cases hasks : operation.asks with
  | true => exact .of_idle (idle_perform hasks)
  | false =>
    cases operation with
    -- writes to a namespace
    | set n key value => exact (n.refuses_set key value).map
    | useInherited n key => exact (n.refuses_useInherited key).map
    | need n text => exact (n.refuses_need text).map
    | needAs n key value => exact (n.refuses_needAs key value).map
    | require n key text requirement => exact (n.refuses_require key text requirement).map
    | openSub n key => exact (n.refuses_openSub key).map
    | setParent n parent => exact hdone (n.refuses_setParent parent)
    | delete n key => exact hchange _ _
    | clear n => exact hdone (.of_total (.update _))
    -- steps on one dependency
    | newDependency d => exact hchange _ _
    | select id version => exact hdone (.select id version)
    | declare id declaration => exact hdone (.declare id declaration)
    | copy id key => exact .after (.view _) fun _ => hchange _ _
    | listen id listener => exact hdone (.of_total (.update _))
    -- the registry and the projects
    | attach path =>
      refine .map (.after (.read _) fun n => ?_)
      split
      · exact .of_total (.pure n)
      · exact (n.refuses_setParent _).before fun _ => .pure n
    | detached name => exact hchange _ _
    | clearRegistry => exact .of_total fun _ => ⟨_, _, rfl⟩
    | releaseRegistry => exact hdone (.of_total (.update _))
    | enter project =>
      exact .of_total ((Total.update _).bind fun _ => (Total.view _).bind fun _ => .pure _)
    | exit => exact hchange _ _
    | useAll | needAll | useSpec | load | openSubUsing | addAlias => exact nomatch h
    | _ => exact nomatch hasks

/-- An operation that writes at most once and fails leaves what every namespace holds, every parent
link and every dependency as they were, and no listener has been told of anything.  At most more
names are listed, and if the operations so far have named only what a client can know, the
namespaces of these names are empty. -/
theorem unchanged_of_refused (h : operation.chains = false)
    (hrun : (perform operation).run σ = (.error e, τ)) :
    σ.store.AsBefore τ.store ∧ (∀ n, τ.store.linkOf n = σ.store.linkOf n) ∧
      τ.events = σ.events ∧ τ.waiting = σ.waiting ∧ (∀ name ∈ σ.listed, name ∈ τ.listed) ∧
      ∀ followsProjects, ReachedByKnown followsProjects σ → ∀ name ∈ τ.listed, name ∉ σ.listed →
        τ.store.contentsOf (.registered name τ.store.generation) = {} := by
  have hend := refuses_perform h σ e τ hrun
  have hlisted : ∀ name ∈ σ.listed, name ∈ τ.listed := by
    intro name hname
    cases hnames : operation.asksNames with
    | true =>
      have hafter : σ.after operation = τ := congrArg Prod.snd hrun
      rw [← hafter, after_of_asksNames hnames]
      exact hname
    | false =>
      -- clearing takes names off the list, but it does not fail
      have hclear : operation ≠ .clearRegistry := by
        rintro rfl
        exact nomatch hrun
      have hkept := (oblivious_perform hnames hclear).listed hname
      rw [hrun] at hkept
      exact hkept
  refine ⟨⟨hend.store.contentsOf, hend.store.kept⟩, hend.store.linkOf, hend.events, hend.waiting,
    hlisted, fun followsProjects hreached name _ hnew => ?_⟩
  have hgeneration : τ.store.generation = σ.store.generation := by rw [hend.store.rest]
  rw [hend.store.contentsOf, hgeneration]
  refine (charted_reached hreached).empty _ ?_
  rintro (hbefore | ⟨-, hname⟩)
  · exact Nat.lt_irrefl _ hbefore
  · exact hnew hname

/-- Stores a namespace in one of the registry, whose name is listed first. -/
def known : Session :=
  (start true).afterAll
    [.instance (.ofText "a"), .detached "d",
      .set (.registered "a" 0) "s" (.sub (.single 0 "d" false))]

/-- An assignment of a key that only a parent could have is refused.  The parent has been looked up
for it, so that it is listed, and it is empty. -/
theorem unchanged_knownSession :
    ∃ e τ, (perform (.set (.registered "a" 0) "l" (.key "x"))).run known = (.error e, τ) ∧
      known.store.AsBefore τ.store ∧ "root" ∈ τ.listed ∧
      τ.store.contentsOf (.registered "root" τ.store.generation) = {} := by
  have hfails : ((perform (.set (.registered "a" 0) "l" (.key "x"))).run known).1.toOption.isNone :=
    by decide +kernel
  have hgained :
      "root" ∈ ((perform (.set (.registered "a" 0) "l" (.key "x"))).run known).2.listed :=
    by decide +kernel
  have hmissing : "root" ∉ known.listed := by decide +kernel
  have hreached : ReachedByKnown true known := by
    have hinstance : ReachedByKnown true ((start true).after (.instance (.ofText "a"))) :=
      .after .start trivial fun _ h => nomatch h
    have hdetached : ReachedByKnown true (((start true).after (.instance (.ofText "a"))).after
        (.detached "d")) := .after hinstance trivial fun _ h => nomatch h
    refine .after hdetached trivial fun n hn => ?_
    rcases List.mem_cons.1 hn with rfl | hsub
    · exact .inr ⟨rfl, by decide +kernel⟩
    · obtain rfl := List.mem_singleton.1 hsub
      trivial
  obtain ⟨e, τ, hrun⟩ := exists_of_isNone hfails
  rw [hrun] at hgained
  obtain ⟨hstore, -, -, -, -, hempty⟩ := unchanged_of_refused rfl hrun
  exact ⟨e, τ, hrun, hstore, hgained, hempty true hreached "root" hgained hmissing⟩

end Session

end DependencyScope
