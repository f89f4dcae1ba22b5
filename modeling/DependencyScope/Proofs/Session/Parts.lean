/-
  DependencyScope.Proofs.Session.Parts — the single writes that an operation consists of.

  An operation is a single write, or it is a batch and carries out one write after the other.  A
  batch of assignments that fails is undone as far as its namespace leads; every other batch that
  fails leaves all contents as they were.  So what the single writes keep, and what is kept when a
  batch of assignments is undone, is kept by every operation.

  Main definitions:
    * `Operation.names` — the names that an operation gives to what it writes;
    * `Operation.parts` — the single writes of an operation, as far as they are carried out;
    * `Operation.batch?` — the batch of assignments among them, which may be undone;
    * `Store.Removed` — entries and registrations have been taken out, and nothing else has changed;
    * `Session.ReachedThrough` — the sessions that are reached by operations of some sort only.

  Main results:
    * `Session.wrote_after` — what a single write comes to;
    * `Session.keeps_of_parts` — what the parts keep, the operation keeps;
    * `Session.ReachedThrough.keeps` — and so does every run;
    * `Session.ReachedThrough.records` — what every record has in a run.
-/
import DependencyScope.Proofs.Namespace.Writing
import DependencyScope.Proofs.Registry.Load
import DependencyScope.Proofs.Session.Copying
import DependencyScope.Proofs.Session.Undone

namespace DependencyScope

open DependencyScope.Text DependencyScope.Action

/-! ## §1. Operations. -/

/-- The keys of need specs, as far as these are read. -/
def NeedSpec.keys (texts : List String) : List String :=
  texts.filterMap fun text => (NeedSpec.parse text).toOption.map NeedSpec.key

theorem NeedSpec.mem_keys {texts : List String} {text : String} {need : NeedSpec}
    (htext : text ∈ texts) (h : NeedSpec.parse text = .ok need) : need.key ∈ keys texts := by
  refine List.mem_filterMap.2 ⟨text, htext, ?_⟩
  rw [h]
  rfl

namespace Operation

/-- The names that a single write gives to what it writes.  An assignment is for a key that holds
something, or else for a name. -/
def names (s : Store) : Operation → List String
  | .useSpec _ text | .need _ text => NeedSpec.keys [text]
  | .needAs _ key (.group specs) => key :: NeedSpec.keys specs
  | .needAs _ key _ | .require _ key _ _ | .useInherited _ key | .openSub _ key => [key]
  | .addAlias n key existing =>
    key :: if (s.localEntry n existing).isNone then [existing] else []
  | _ => []

/-- Whether an operation takes entries out. -/
def removes : Operation → Bool
  | .delete _ _ | .clear _ => true
  | _ => false

/-- Whether an operation makes an alias. -/
def aliases : Operation → Bool
  | .addAlias _ _ _ => true
  | _ => false

/-- Whether an operation carries out several writes. -/
def isBatch : Operation → Bool
  | .useAll _ _ | .needAll _ _ | .openSubUsing _ _ _ | .load _ => true
  | _ => false

end Operation

/-- The writes of the tables of a profile, as far as they are carried out. -/
def Registry.parts : List (String × Std.TreeMap String ProfileValue) → Session → List Step
  | [], _ => []
  | (name, table) :: rest, σ =>
    let n := (Namespace.ofKey (.ofText name)).answer σ.store
    Step.batch (.set n) (assignments table) ((Action.read (Namespace.ofKey (.ofText name))).run σ).2 ++
      match (applyTable name table).run σ with
      | (.ok _, τ) => Registry.parts rest τ
      | (.error _, _) => []

/-- A batch of assignments to a namespace. -/
structure Batch where
  target : Namespace
  pairs : List (String × Value)
  session : Session

namespace Batch

/-- The store in which the last assignment has ended. -/
def ending (batch : Batch) : Store :=
  ((batch.pairs.mapM fun (key, value) => batch.target.set key value).run
    (held batch.session)).2.store

/-- One of the assignments is refused. -/
def Fails (batch : Batch) : Prop :=
  ∃ e τ, (batch.target.useAll batch.pairs).run batch.session = (.error e, τ)

/-- The store after the batch has been undone. -/
def undone (batch : Batch) : Store :=
  batch.ending.restoreBelow batch.session.store [batch.target]

/-- Its assignments all land in what its namespace has contained. -/
def Contained (batch : Batch) : Prop :=
  ∀ a ∈ batch.target.assignments batch.pairs (held batch.session),
    batch.session.store.Contains batch.target a.place

end Batch

namespace Operation

/-- The single writes that an operation consists of, as far as they are carried out. -/
def parts (σ : Session) : Operation → List Step
  | .openSubUsing n key pairs =>
    ⟨.openSub n key, σ⟩ ::
      match (n.openSub key).run σ with
      | (.ok sub, τ) => Step.batch (.set sub) pairs (held τ)
      | (.error _, _) => []
  | .load profile => Registry.parts profile.artifacts.toList (held σ)
  | operation => operation.steps σ

/-- The assignments that are undone together if one of them fails. -/
def batch? (σ : Session) : Operation → Option Batch
  | .useAll n pairs => some ⟨n, pairs, σ⟩
  | .openSubUsing n key pairs =>
    match (n.openSub key).run σ with
    | (.ok sub, τ) => some ⟨sub, pairs, τ⟩
    | (.error _, _) => none
  | _ => none

theorem parts_of_single {operation : Operation} (h : operation.isBatch = false) (σ : Session) :
    operation.parts σ = [⟨operation, σ⟩] := by
  cases operation with
  | useAll n pairs => exact nomatch h
  | needAll n pairs => exact nomatch h
  | openSubUsing n key pairs => exact nomatch h
  | load profile => exact nomatch h
  | _ => rfl

end Operation

namespace Step

variable {write : String → Value → Operation} {step : Step}

theorem exists_of_mem_batch (pairs : List (String × Value)) : ∀ {σ : Session},
    ∀ step ∈ batch write pairs σ, ∃ key value, step.operation = write key value := by
  induction pairs with
  | nil => exact fun _ hstep => nomatch hstep
  | cons pair pairs ih =>
    intro σ step hstep
    unfold batch at hstep
    rcases List.mem_cons.1 hstep with rfl | hrest
    · exact ⟨pair.1, pair.2, rfl⟩
    · split at hrest
      · exact ih step hrest
      · exact nomatch hrest

theorem exists_of_mem_parts (tables : List (String × Std.TreeMap String ProfileValue)) :
    ∀ {σ : Session}, ∀ step ∈ Registry.parts tables σ,
      ∃ n key value, step.operation = .set n key value := by
  induction tables with
  | nil => exact fun _ hstep => nomatch hstep
  | cons table tables ih =>
    intro σ step hstep
    unfold Registry.parts at hstep
    rcases List.mem_append.1 hstep with hfirst | hrest
    · exact ⟨_, exists_of_mem_batch _ step hfirst⟩
    · split at hrest
      · exact ih step hrest
      · exact nomatch hrest

/-- A part is a single write that links only what has been made.  It takes something out only if the
operation does. -/
theorem single_of_mem_parts {σ : Session} {operation : Operation}
    (hpresent : operation.Present σ.store) (hstep : step ∈ operation.parts σ) :
    step.operation.isBatch = false ∧ step.operation.Present step.session.store ∧
      (step.operation.removes = true → operation.removes = true) := by
  -- in most batches the parts are assignments
  have hset (hset : ∃ n key value, step.operation = .set n key value) :
      step.operation.isBatch = false ∧ step.operation.Present step.session.store ∧
        (step.operation.removes = true → operation.removes = true) := by
    obtain ⟨n, key, value, heq⟩ := hset
    rw [heq]
    exact ⟨rfl, trivial, nofun⟩
  by_cases hsingle : operation.isBatch = false
  · rw [Operation.parts_of_single hsingle] at hstep
    obtain rfl := List.mem_singleton.1 hstep
    exact ⟨hsingle, hpresent, id⟩
  · cases operation with
    | useAll n pairs => exact hset ⟨n, exists_of_mem_batch pairs step hstep⟩
    | needAll n pairs =>
      obtain ⟨key, value, heq⟩ := exists_of_mem_batch pairs step hstep
      rw [heq]
      exact ⟨rfl, trivial, nofun⟩
    | openSubUsing n key pairs =>
      rcases List.mem_cons.1 hstep with rfl | hrest
      · exact ⟨rfl, hpresent, nofun⟩
      · split at hrest
        · next sub _ _ => exact hset ⟨sub, exists_of_mem_batch pairs step hrest⟩
        · exact nomatch hrest
    | load profile => exact hset (exists_of_mem_parts _ step hstep)
    | _ => exact absurd rfl hsingle

end Step

/-! ## §2. What a single write comes to. -/

namespace Store

/-- Entries have been taken out, and nothing else has changed. -/
structure Removed (s t : Store) : Prop where
  next : t.nextDependency = s.nextDependency
  dependency : ∀ i, t.dependency i = s.dependency i
  entries : ∀ n key e, t.entryAt? n key = some e → s.entryAt? n key = some e
  index : ∀ n u id, t.indexed? n u = some id → s.indexed? n u = some id

namespace Removed

variable {s t : Store}

theorem lasts (h : s.Removed t) : s.Lasts t := .of_dependency h.next h.dependency

/-- The contents of one namespace have shrunk. -/
theorem putContents {n : Namespace} {c : Contents}
    (hentries : ∀ key e, c.entries[key]? = some e → s.entryAt? n key = some e)
    (hindex : ∀ u id, c.index[u]? = some id → s.indexed? n u = some id) :
    s.Removed (s.putContents n c) where
  next := rfl
  dependency i := dependency_putContents s n c i
  entries := by
    intro m key e hentry
    unfold entryAt? at hentry
    rw [contentsOf_putContents] at hentry
    split at hentry
    · next heq => exact heq ▸ hentries key e hentry
    · exact hentry
  index := by
    intro m u id hindexed
    unfold indexed? at hindexed
    rw [contentsOf_putContents] at hindexed
    split at hindexed
    · next heq => exact heq ▸ hindex u id hindexed
    · exact hindexed

theorem without (s : Store) (n : Namespace) (key : String) :
    s.Removed (s.putContents n ((s.contentsOf n).without key)) := by
  unfold Contents.without
  split
  · exact putContents (fun _ _ h => h) fun _ _ h => h
  · refine putContents (fun key' e hentry => ?_) fun _ _ h => h
    rw [Std.TreeMap.getElem?_erase] at hentry
    split at hentry
    · exact nomatch hentry
    · exact hentry
  · refine putContents (fun key' e hentry => ?_) fun u id hindexed => ?_
    · rw [Std.TreeMap.getElem?_filter'] at hentry
      exact (Option.filter_eq_some_iff.1 hentry).1
    · rw [Std.TreeMap.getElem?_filter'] at hindexed
      exact (Option.filter_eq_some_iff.1 hindexed).1

theorem clear (s : Store) (n : Namespace) : s.Removed (s.putContents n {}) := by
  refine putContents (fun key e hentry => ?_) fun u id hindexed => ?_
  · rw [Std.TreeMap.getElem?_emptyc] at hentry
    exact nomatch hentry
  · rw [Std.TreeMap.getElem?_emptyc] at hindexed
    exact nomatch hindexed

end Removed

end Store

namespace Session

variable {K : String → Prop} {σ : Session} {operation : Operation}

/-- A step on one dependency that leaves its stamp alone changes no contents. -/
theorem quiet_step {β : Type} {s : Store} (id : DependencyId)
    {step : Dependency → Except Error β} {outcome : β → Dependency.Outcome}
    (hstep : ∀ d b, step d = .ok b → (outcome b).dependency.stamp = d.stamp)
    (hσ : s.Quiet σ.store) :
    KeepsAt (fun τ => s.Quiet τ.store) (do
      let d ← Action.view (·.dependency id)
      settle id (outcome (← Action.ofExcept (step d)))) (fun _ => True) σ := by
  refine .bind_ok (run_view _ σ) ?_
  cases hresult : step (σ.store.dependency id) with
  | error e => exact .of_error (run_bind_error (run_ofExcept _ σ) _) hσ
  | ok b =>
    obtain ⟨τ, hsettle, hreselected⟩ := run_settle id (outcome b) σ
    have hput := Store.Quiet.putDependency (hstep _ b hresult)
    refine .bind_ok (run_ofExcept _ σ) ⟨?_, fun _ _ => trivial⟩
    rw [hsettle]
    exact hσ.trans (hput.trans (.of_reselected hreselected))

/-- An operation other than a write to a namespace changes no contents. -/
theorem keepsAt_put (hK : AdmitsNames K) (hσ : σ.store.Sound) (hlabelled : σ.store.Labelled K)
    (hnames : ∀ name ∈ operation.names σ.store, K (trim name))
    (hsingle : operation.isBatch = false) (hkeeps : operation.removes = false)
    (halias : operation.aliases = false) :
    KeepsAt (fun τ => σ.store.Put K τ.store) (perform operation) (fun _ => True) σ := by
  let I (τ : Session) : Prop := σ.store.Quiet τ.store
  have hstart : I σ := .refl σ.store
  have hlisted : Unlisted I := fun _ _ hτ => hτ
  have hlink (n : Namespace) (link : ParentLink) (τ : Session) (hτ : I τ) :
      I { τ with store := τ.store.putLink n link } :=
    hτ.trans (.of_same rfl rfl rfl)
  let W (τ : Session) : Prop := σ.store.Put K τ.store
  have hput {α : Type} {act : Action α} {f : α → Reply} (hact : W (act.run σ).2) :
      KeepsAt W (do return f (← act)) (fun _ => True) σ := by
    refine ⟨?_, fun _ _ => trivial⟩
    rw [run_return]
    exact hact
  have hwrites {α : Type} {act : Action α} {f : α → Reply} (hact : Writes K act σ) :
      KeepsAt W (do return f (← act)) (fun _ => True) σ := hput hact.put
  have hquiet {act : Action Reply} (hact : KeepsAt I act (fun _ => True) σ) :
      KeepsAt W act (fun _ => True) σ := ⟨.quiet hact.1, hact.2⟩
  have hreply {α : Type} {act : Action α} {Q : α → Prop} {f : α → Reply}
      (hact : KeepsAt I act Q σ) : KeepsAt W (do return f (← act)) (fun _ => True) σ :=
    hquiet (hact.bind fun _ _ => .pure trivial)
  have hdone {act : Action Unit} {Q : Unit → Prop} {reply : Reply} (hact : KeepsAt I act Q σ) :
      KeepsAt W (do act; return reply) (fun _ => True) σ :=
    hquiet (hact.bind fun _ _ => .pure trivial)
  have hsame {act : Action Reply} (hact : σ.store.Quiet (act.run σ).2.store) :
      KeepsAt W act (fun _ => True) σ := ⟨.quiet hact, fun _ _ => trivial⟩
  have hupdate {f : Store → Store} (hf : ∀ s, s.Quiet (f s)) :
      Keeps I (Action.update f) fun _ => True :=
    .update fun τ hτ => hτ.trans (hf τ.store)
  have hchange {α : Type} {f : Store → α × Store} (hf : ∀ s, s.Quiet (f s).2) :
      Keeps I (Action.change f) fun _ => True :=
    .change fun τ hτ => ⟨hτ.trans (hf τ.store), trivial⟩
  cases hasks : operation.asks with
  | true =>
    refine hsame ?_
    show σ.store.Quiet (σ.after operation).store
    rw [(alike_after hasks σ).store]
    exact hstart
  | false =>
    cases operation with
    -- the writes
    | set n key value => exact hwrites (Namespace.writes_set hK hσ hlabelled n key value)
    | useSpec n text =>
      refine hput (Namespace.put_useSpec hK hσ fun need hneed => ?_)
      have hmem := hnames _ (NeedSpec.mem_keys (List.mem_singleton_self text) hneed)
      rwa [NeedSpec.trim_key hneed] at hmem
    | need n text =>
      refine hwrites (Namespace.writes_need hK hσ fun need hneed => ?_)
      have hmem := hnames _ (NeedSpec.mem_keys (List.mem_singleton_self text) hneed)
      rwa [NeedSpec.trim_key hneed] at hmem
    | needAs n key value =>
      have hkey : K (trim key) := hnames key (by cases value <;> exact List.mem_cons_self)
      refine hwrites (Namespace.writes_needAs hK hσ hkey ?_)
      intro specs hspecs text htext need hneed
      subst hspecs
      have hmem := hnames _ (List.mem_cons_of_mem _ (NeedSpec.mem_keys htext hneed))
      rwa [NeedSpec.trim_key hneed] at hmem
    | require n key text requirement =>
      have hkey : K (trim key) := hnames key List.mem_cons_self
      exact hwrites (Namespace.writes_require hK hσ hkey text requirement)
    | useInherited n key =>
      exact hwrites (Namespace.places_useInherited hσ (hnames key List.mem_cons_self)).writes
    | openSub n key => exact hwrites (Namespace.writes_openSub (hnames key List.mem_cons_self))
    -- these are not single, or they take something out, or they make an alias
    | addAlias n key existing => exact nomatch halias
    | useAll n pairs => exact nomatch hsingle
    | needAll n pairs => exact nomatch hsingle
    | openSubUsing n key pairs => exact nomatch hsingle
    | load profile => exact nomatch hsingle
    | delete n key => exact nomatch hkeeps
    | clear n => exact nomatch hkeeps
    -- steps on one dependency
    | newDependency d => exact hreply (hchange (fun s => .addDependency s d) σ hstart)
    | copy id key =>
      have hcopied := Store.copy_spec hσ id (key.getD (σ.store.dependency id).key)
      exact hsame (.of_extends hcopied.toExtends)
    | select id version =>
      exact hdone (quiet_step id (fun _ _ h => Dependency.stamp_of_select h) hstart)
    | declare id declaration =>
      exact hdone (quiet_step id (fun _ _ h => Dependency.stamp_of_declare h) hstart)
    | listen id listener =>
      have hlistens (s : Store) : s.Quiet (s.addListener id listener) := .putDependency rfl
      exact hdone (hupdate hlistens σ hstart)
    -- links, and the registry
    | setParent n parent => exact hdone (keeps_setParent hlisted hlink n parent σ hstart)
    | attach path => exact hreply (keeps_attach hlisted hlink path σ hstart)
    | detached name =>
      exact hreply (hchange (fun s => .of_same rfl rfl rfl) σ hstart)
    | clearRegistry => exact hsame (.of_same rfl rfl rfl)
    | releaseRegistry =>
      have hrelease (s : Store) : s.Quiet { s with hasRegistry := false } := .of_same rfl rfl rfl
      exact hdone (hupdate hrelease σ hstart)
    | enter project => exact hsame (.of_same rfl rfl rfl)
    | exit => exact hsame (.of_same rfl rfl rfl)
    -- all the others are questions
    | _ => exact nomatch hasks

/-- What a single write that takes nothing out comes to. -/
theorem wrote_after (hK : AdmitsNames K) (hσ : σ.store.Sound) (hlabelled : σ.store.Labelled K)
    (hnames : ∀ name ∈ operation.names σ.store, K (trim name))
    (hsingle : operation.isBatch = false) (hkeeps : operation.removes = false) :
    σ.store.Wrote K (σ.after operation).store := by
  cases halias : operation.aliases with
  | false => exact .put (keepsAt_put hK hσ hlabelled hnames hsingle hkeeps halias).1
  | true =>
    cases operation with
    | addAlias n key existing =>
      have hwrote : σ.store.Wrote K ((n.addAlias key existing).run σ).2.store := by
        refine Namespace.wrote_addAlias hK hσ (hnames key List.mem_cons_self) fun hnone => ?_
        refine hnames existing (List.mem_cons_of_mem key ?_)
        rw [hnone]
        exact List.mem_cons_self
      unfold after perform
      rw [run_return]
      exact hwrote
    | _ => exact nomatch halias

/-- Where entries are taken out, nothing is put in. -/
theorem removed_after (hremoves : operation.removes = true) :
    σ.store.Removed (σ.after operation).store := by
  cases operation with
  | delete n key => exact .without σ.store n (trim key)
  | clear n => exact .clear σ.store n
  | _ => exact nomatch hremoves

theorem lasts_after (hσ : σ.store.Sound) (hsingle : operation.isBatch = false) :
    σ.store.Lasts (σ.after operation).store := by
  cases hremoves : operation.removes with
  | true => exact (removed_after hremoves).lasts
  | false =>
    exact (wrote_after (K := fun _ => True) (fun _ _ _ => trivial) hσ (.of_true σ.store)
      (fun _ _ => trivial) hsingle hremoves).lasts

end Session

/-! ## §3. What all parts keep. -/

/-- The write keeps a property of sound stores. -/
def Step.Keeps (I : Store → Prop) (step : Step) : Prop :=
  step.session.store.Sound → I step.session.store → I step.after.store

section Parts

variable {I : Store → Prop} {σ : Session}

/-- What goes along with a property on the way through a batch that began with the store `s`. -/
structure Store.Along (I : Store → Prop) (s t : Store) : Prop where
  sound : t.Sound
  lasts : s.Lasts t
  holds : I t

theorem Store.Along.start (hσ : σ.store.Sound) (h : I σ.store) : σ.store.Along I σ.store :=
  ⟨hσ, .refl σ.store, h⟩

/-- A single write that keeps the property goes along. -/
theorem Store.Along.after {s : Store} (h : s.Along I σ.store) {operation : Operation}
    (hsingle : operation.isBatch = false) (hpresent : operation.Present σ.store)
    (hkeeps : Step.Keeps I ⟨operation, σ⟩) : s.Along I (σ.after operation).store where
  sound := (Session.growsAt_perform h.sound hpresent).1.sound
  lasts := h.lasts.trans (Session.lasts_after h.sound hsingle)
  holds := hkeeps h.sound h.holds

/-- What each write of a batch keeps, the batch keeps up to its end. -/
theorem Step.keepsAt_batch {s : Store} {α : Type} (write : String → Value → Operation)
    (f : String × Value → Action α) (reply : α → Reply)
    (hwrite : ∀ pair, perform (write pair.1 pair.2) = (do return reply (← f pair)))
    (hsingle : ∀ key value, (write key value).isBatch = false)
    (hpresent : ∀ key value t, (write key value).Present t) (pairs : List (String × Value)) :
    ∀ {σ : Session}, s.Along I σ.store → (∀ step ∈ batch write pairs σ, step.Keeps I) →
      KeepsAt (fun τ => s.Along I τ.store) (pairs.mapM f) (fun _ => True) σ := by
  induction pairs with
  | nil => exact fun hσ _ => ⟨hσ, fun _ _ => trivial⟩
  | cons pair pairs ih =>
    intro σ hσ h
    have hafter := hσ.after (hsingle pair.1 pair.2) (hpresent pair.1 pair.2 _)
      (h _ List.mem_cons_self)
    unfold Session.after at hafter
    rw [hwrite, run_return] at hafter
    rw [List.mapM_cons]
    rcases hrun : (f pair).run σ with ⟨result, τ⟩
    rw [hrun] at hafter
    cases result with
    | error e => exact .bind_error hrun hafter
    | ok a =>
      -- the next parts start where this one ends
      have hperform : (perform (write pair.1 pair.2)).run σ = (.ok (reply a), τ) := by
        rw [hwrite, run_bind_ok hrun]
        rfl
      refine .bind_ok hrun ((ih hafter fun step hstep => h step ?_).bind fun _ _ => .pure trivial)
      unfold batch
      rw [hperform]
      exact List.mem_cons_of_mem _ hstep

theorem keepsAt_assignments {s : Store} {n : Namespace} {pairs : List (String × Value)}
    (hσ : s.Along I σ.store) (h : ∀ step ∈ Step.batch (.set n) pairs σ, step.Keeps I) :
    KeepsAt (fun τ => s.Along I τ.store) (pairs.mapM fun (key, value) => n.set key value)
      (fun _ => True) σ :=
  Step.keepsAt_batch (.set n) (fun pair => n.set pair.1 pair.2) .entry (fun _ => rfl)
    (fun _ _ => rfl) (fun _ _ _ => trivial) pairs hσ h

/-- So with the tables of a profile. -/
theorem Registry.keepsAt_parts {s : Store}
    (tables : List (String × Std.TreeMap String ProfileValue)) :
    ∀ {σ : Session}, s.Along I σ.store → (∀ step ∈ parts tables σ, step.Keeps I) →
      KeepsAt (fun τ => s.Along I τ.store) (tables.forM fun (name, table) => applyTable name table)
        (fun _ => True) σ := by
  induction tables with
  | nil => exact fun hσ _ => ⟨hσ, fun _ _ => trivial⟩
  | cons table tables ih =>
    intro σ hσ h
    unfold parts at h
    dsimp only at h
    rw [List.forall_mem_append, run_read] at h
    let υ : Session := { σ with listed := (Namespace.ofKey (.ofText table.1)).listing σ }
    have hread : s.Along I υ.store := hσ
    have htable : KeepsAt (fun τ => s.Along I τ.store) (applyTable table.1 table.2)
        (fun _ => True) σ := by
      unfold applyTable
      exact .bind_ok (run_read _ σ)
        ((keepsAt_assignments hread h.1).bind fun _ _ => .pure trivial)
    refine htable.bind_run fun _ τ hrun hτ _ => ih hτ ?_
    rw [hrun] at h
    exact h.2

end Parts

/-! ## §4. Batches. -/

/-- The assignments of a profile land in what the registry reaches, and are all taken back. -/
theorem Registry.asBefore_of_error {profile : Profile} {σ τ : Session} {e : Error}
    (h : (load profile).run σ = (.error e, τ)) : σ.store.AsBefore τ.store := by
  unfold load at h
  obtain ⟨undone, waiting, hundone, rfl, -⟩ := exists_of_deferring_error h
  obtain ⟨mid, hact, rfl⟩ := exists_of_restoring_error hundone
  have hstart : Loading σ.store σ.events (held σ) := Loading.start (σ := held σ) rfl
  have hmid := (Keeps.forM profile.artifacts.toList fun table _ =>
    keeps_applyTable table.1 table.2).of_run hstart hact
  exact asBefore_restoreBelow hmid.framed hmid.written

theorem Store.AsBefore.quiet {s t : Store} (h : s.AsBefore t)
    (hnext : s.nextDependency ≤ t.nextDependency) : s.Quiet t where
  contents := h.1
  next := hnext
  stamp i hi := congrArg Dependency.stamp (h.2 i hi)

namespace Session

variable {I : Store → Prop} {σ τ : Session} {n : Namespace} {pairs : List (String × Value)}
  {operation : Operation}

variable (hquiet : ∀ s t : Store, s.Sound → s.Quiet t → I s → I t)
include hquiet

/-- A batch that succeeds lets listeners make their selections, and then it is done. -/
theorem keeps_of_deferring {α : Type} {act : Action α} {undo : Session → Session → Session}
    {s : Store} {a : α} (hact : KeepsAt (fun τ => s.Along I τ.store) act (fun _ => True) (held σ))
    (hrun : (deferring (restoring undo act)).run σ = (.ok a, τ)) : I τ.store := by
  obtain ⟨mid, hmid, hreselected⟩ := exists_of_deferring_ok hrun
  have halong := hact.1
  rw [run_of_restoring_ok hmid] at halong
  exact hquiet mid.store τ.store halong.sound (.of_reselected hreselected) halong.holds

theorem keeps_useAll (hσ : σ.store.Sound)
    (hparts : ∀ step ∈ Step.batch (.set n) pairs (held σ), step.Keeps I)
    (hundo : let batch : Batch := ⟨n, pairs, σ⟩
      batch.Fails → σ.store.Lasts batch.ending → I batch.ending → I batch.undone)
    (h : I σ.store) : I ((n.useAll pairs).run σ).2.store := by
  have hact := keepsAt_assignments (σ := held σ) (.start (σ := held σ) hσ h) hparts
  rcases hrun : (n.useAll pairs).run σ with ⟨result, τ⟩
  cases result with
  | ok es => exact keeps_of_deferring hquiet hact hrun
  | error e =>
    have hstore := Namespace.store_atomically_error hrun
    dsimp only
    rw [hstore]
    exact hundo ⟨e, τ, hrun⟩ hact.1.lasts hact.1.holds

/-- What the single writes of an operation keep, it keeps, if it is also kept when no contents
change and when a batch of assignments is undone. -/
theorem keeps_of_parts (hσ : σ.store.Sound) (hpresent : operation.Present σ.store)
    (hparts : ∀ step ∈ operation.parts σ, step.Keeps I)
    (hundo : ∀ batch ∈ operation.batch? σ, batch.Fails → batch.session.store.Sound →
      batch.session.store.Lasts batch.ending → I batch.session.store → I batch.ending →
        I batch.undone)
    (h : I σ.store) : I (σ.after operation).store := by
  have hafter {α : Type} (act : Action α) {f : α → Reply}
      (hperform : perform operation = (do return f (← act))) :
      (σ.after operation).store = (act.run σ).2.store := by
    unfold after
    rw [hperform, run_return]
  have hnext : σ.store.nextDependency ≤ (σ.after operation).store.nextDependency :=
    (growsAt_perform hσ hpresent).1.dependencies
  by_cases hsingle : operation.isBatch = false
  · rw [Operation.parts_of_single hsingle, List.forall_mem_singleton] at hparts
    exact hparts hσ h
  · cases operation with
    | useAll n pairs =>
      -- batches of assignments put everything back if they fail
      rw [hafter (n.useAll pairs) rfl]
      exact keeps_useAll hquiet hσ hparts (fun hfails hlasts => hundo _ rfl hfails hσ hlasts h) h
    | needAll n pairs =>
      -- batches of needs and loads put back the contents of all namespaces
      have hact : KeepsAt (fun τ => σ.store.Along I τ.store)
          (pairs.mapM fun (key, value) => n.needAs key value) (fun _ => True) (held σ) :=
        Step.keepsAt_batch (.needAs n) (fun pair => n.needAs pair.1 pair.2) .dependency
          (fun _ => rfl) (fun _ _ => rfl) (fun _ _ _ => trivial) pairs
          (.start (σ := held σ) hσ h) hparts
      rw [hafter (n.needAll pairs) rfl] at hnext ⊢
      rcases hrun : (n.needAll pairs).run σ with ⟨result, τ⟩
      rw [hrun] at hnext
      cases result with
      | ok ids => exact keeps_of_deferring hquiet hact hrun
      | error e => exact hquiet σ.store τ.store hσ ((Namespace.asBefore_needAll hrun).quiet hnext) h
    | openSubUsing n key pairs =>
      -- the namespace is opened first, and stays open if the batch in it fails
      unfold Operation.parts at hparts
      unfold Operation.batch? at hundo
      dsimp only at hparts hundo
      rw [List.forall_mem_cons] at hparts
      have hopen : I ((n.openSub key).run σ).2.store := by
        have hsub := hparts.1 hσ h
        unfold Step.after after at hsub
        rw [show perform (.openSub n key) = (do return .aNamespace (← n.openSub key)) from rfl,
          run_return] at hsub
        exact hsub
      have hsound := (growsAt_openSub hσ hpresent key).1.sound
      rw [hafter (n.openSubUsing key pairs) rfl]
      unfold Namespace.openSubUsing
      rcases hrun : (n.openSub key).run σ with ⟨result, τ⟩
      rw [hrun] at hopen hsound hparts hundo
      cases result with
      | error e =>
        rw [run_bind_error hrun]
        exact hopen
      | ok sub =>
        rw [run_bind_ok hrun, run_return (sub.useAll pairs) (fun _ => sub)]
        exact keeps_useAll hquiet hsound hparts.2
          (fun hfails hlasts => hundo _ rfl hfails hsound hlasts hopen) hopen
    | load profile =>
      have hact := Registry.keepsAt_parts profile.artifacts.toList (σ := held σ)
        (.start (σ := held σ) hσ h) hparts
      have hload : (σ.after (.load profile)).store = ((Registry.load profile).run σ).2.store :=
        hafter (Registry.load profile) (f := fun _ => .done) rfl
      rw [hload] at hnext ⊢
      rcases hrun : (Registry.load profile).run σ with ⟨result, τ⟩
      rw [hrun] at hnext
      cases result with
      | ok _ => exact keeps_of_deferring hquiet hact hrun
      | error e =>
        exact hquiet σ.store τ.store hσ ((Registry.asBefore_of_error hrun).quiet hnext) h
    | _ => exact absurd rfl hsingle

end Session

/-! ## §5. Runs. -/

namespace Session

@[simp] theorem entryAt?_start (followsProjects : Bool) (n : Namespace) (key : String) :
    (start followsProjects).store.entryAt? n key = none := by
  unfold Store.entryAt? Store.contentsOf start
  rw [Std.TreeMap.getD_emptyc, Std.TreeMap.getElem?_emptyc]

@[simp] theorem indexed?_start (followsProjects : Bool) (n : Namespace) (u : String) :
    (start followsProjects).store.indexed? n u = none := by
  unfold Store.indexed? Store.contentsOf start
  rw [Std.TreeMap.getD_emptyc, Std.TreeMap.getElem?_emptyc]

/-- The sessions that are reached by operations that are `allowed` where they are asked for. -/
inductive ReachedThrough (followsProjects : Bool) (allowed : Session → Operation → Prop) :
    Session → Prop where
  | start : ReachedThrough followsProjects allowed (start followsProjects)
  | after {σ : Session} {operation : Operation} :
      ReachedThrough followsProjects allowed σ → operation.Present σ.store →
      allowed σ operation → ReachedThrough followsProjects allowed (σ.after operation)

variable {followsProjects : Bool} {allowed : Session → Operation → Prop} {σ : Session}

theorem ReachedThrough.reached (h : ReachedThrough followsProjects allowed σ) :
    Reached followsProjects σ := by
  induction h with
  | start => exact .start
  | after _ hpresent _ ih => exact .after ih hpresent

theorem Reached.through (h : Reached followsProjects σ) :
    ReachedThrough followsProjects (fun _ _ => True) σ := by
  induction h with
  | start => exact .start
  | after _ hpresent ih => exact .after ih hpresent trivial

/-- What the single writes of all that is allowed keep, every run keeps. -/
theorem ReachedThrough.keeps {I : Store → Prop} (h : ReachedThrough followsProjects allowed σ)
    (hquiet : ∀ s t : Store, s.Sound → s.Quiet t → I s → I t)
    (hparts : ∀ (σ : Session) operation, allowed σ operation → operation.Present σ.store →
      ∀ step ∈ operation.parts σ, step.Keeps I)
    (hundo : ∀ (σ : Session) operation, allowed σ operation →
      ∀ batch ∈ operation.batch? σ, batch.Fails → batch.session.store.Sound →
        batch.session.store.Lasts batch.ending → I batch.session.store → I batch.ending →
          I batch.undone)
    (hstart : I (Session.start followsProjects).store) : I σ.store := by
  induction h with
  | start => exact hstart
  | after hreached hpresent hallowed ih =>
    exact keeps_of_parts hquiet hreached.reached.sound hpresent
      (hparts _ _ hallowed hpresent) (hundo _ _ hallowed) ih

/-- What lasts and is borne by every use of a spec, every record has in a run that brings along no
record of another sort. -/
theorem ReachedThrough.records {C : Coordinate → Prop} {D : Dependency → Prop}
    (hD : Dependency.Lasting (fun _ => True) C D) (hbears : ∀ u : SpecUse, u.Bears D)
    (h : ReachedThrough followsProjects allowed σ)
    (hnew : ∀ τ operation, allowed τ operation → ∀ d, operation = .newDependency d → D d) :
    σ.Records D := by
  induction h with
  | start => exact fun _ => hD.unlocated ""
  | after _ _ hallowed ih => exact ih.after hD hbears (hnew _ _ hallowed)

end Session

end DependencyScope
