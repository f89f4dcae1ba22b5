/-
  DependencyScope.Proofs.Session.Copying — a write never shares what it copies, and stays below its
  namespace.

  Dependencies are shared by their serial numbers, and a look-up may find one that an ancestor holds.
  A write that takes such a dependency over stores a copy of it, with copies of all its members.  A
  need does not copy its source: it declares the same on the dependency that the key holds, if that
  may stand for the coordinate, or else on a new one.  As its source has a coordinate, it is no group.

  Main definitions:
    * `Store.copied?`, `Operation.copied?` — the dependency that a write takes over;
    * `Operation.redeclared?` — the dependency there on which a need declares it;
    * `Operation.storedAt?` — where the write stores it;
    * `Dependency.Unmixed` — members or a coordinate, but not both;
    * `Operation.steps` — the writes that an operation consists of.

  Main results:
    * `Dependency.lasting_unmixed` — no step on a dependency mixes members and a coordinate;
    * `Session.growsAt_copying` — what such a write gives back includes nothing older;
    * `Session.writesTo_spec` — what writes leave alone, and what they share.
-/
import DependencyScope.Proofs.Namespace.Replace
import DependencyScope.Proofs.Session.Outside
import DependencyScope.Proofs.Store.Paths

namespace DependencyScope

open DependencyScope.Text DependencyScope.Action

/-! ## §1. What a write takes over. -/

/-- The dependency that an assignment takes over, if it takes one over: the one that the value names,
or for a version under a key that the namespace does not hold, that of the nearest ancestor. -/
def Store.copied? (s : Store) (n : Namespace) (key : String) : Value → Option DependencyId
  | .text text =>
    if looksLikeSpec text then none
    else ((s.assignedKey? n key).filter fun key => (s.ownDependency? n key).isNone).bind fun key =>
      (n.inheritedDependency key).answer s
  | value => s.source? n value

namespace Operation

/-- The dependency that a write takes over, if it takes one over. -/
def copied? (s : Store) : Operation → Option DependencyId
  | .set n key value => s.copied? (s.landing n key).1 (s.landing n key).2 value
  | .needAs n _ value => s.source? n value
  | .useInherited n key => ((n.inheritedEntry (trim key)).answer s).bind Entry.dependency?
  | .addAlias n _ existing =>
    if (s.localEntry n existing).isSome then none
    else ((n.inheritedEntry (trim existing)).answer s).bind Entry.dependency?
  | _ => none

/-- The dependency on which a need declares what it takes over, if the key holds one that may stand
for the coordinate. -/
def redeclared? (s : Store) : Operation → Option DependencyId
  | .needAs n key value =>
    ((s.source? n value).bind fun source => (s.dependency source).coordinate).bind fun coordinate =>
      s.ownFor? (s.landing n key).1 (s.landing n key).2 coordinate
  | _ => none

/-- The namespace and the key under which a write from `s` to `t` stores what it takes over.  The key
of an alias leads where it does in the end, as the copy that the alias stands for may be held under
it. -/
def storedAt? (s t : Store) : Operation → Option (Namespace × String)
  | .set n key _ =>
    (s.assignedKey? (s.landing n key).1 (s.landing n key).2).map fun assigned =>
      ((s.landing n key).1, assigned)
  | .needAs n key _ => some (s.landing n key)
  | .useInherited n key => some (n, trim key)
  | .addAlias n key _ => some (t.landing n key)
  | _ => none

end Operation

/-- The dependency that a write gives back. -/
def Reply.dependency? : Reply → Option DependencyId
  | .entry e => e.dependency?
  | .dependency id => some id
  | _ => none

/-! ## §2. What a write gives back. -/

namespace Session

variable {σ : Session} {n : Namespace} {key : String} {value : Value} {source : DependencyId}

theorem answer_lookup_of_source? {s : Store} {other : String}
    (h : s.source? n (.key other) = some source) :
    (n.lookup other).answer s = some (.dependency source) := by
  have hlookup : ((n.lookup other).answer s).bind Entry.dependency? = some source := h
  obtain ⟨e, hfound, he⟩ := Option.bind_eq_some_iff.1 hlookup
  rw [hfound, Entry.dependency?_eq_some.1 he]

theorem growsAt_ensureNoSub_storeCopy (hσ : σ.store.Sound) (n : Namespace) (key : String)
    (source : DependencyId) :
    GrowsAt (do n.ensureNoSub key; return Entry.dependency (← n.storeCopy key source))
      (fun e s => ∃ id, e = .dependency id ∧ s.MadeSince σ.store.nextDependency id) σ := by
  refine (growsAt_ensureNoSub hσ n key).bind fun _ τ hτ hstore => ?_
  refine (growsAt_storeCopy hτ.sound n key source).map fun id s hid => ⟨id, rfl, ?_⟩
  rw [hstore] at hid
  exact hid

/-- A version for a key that is free is selected on a copy. -/
theorem growsAt_useTextAs_version (hσ : σ.store.Sound) {text : String}
    (hversion : looksLikeSpec text = false) (hfree : σ.store.ownDependency? n key = none) :
    GrowsAt (do n.ensureNoSub key; return Entry.dependency (← n.useTextAs key text))
      (fun e s => ∃ id, e = .dependency id ∧ s.MadeSince σ.store.nextDependency id) σ := by
  refine (growsAt_ensureNoSub hσ n key).bind fun _ τ hτ hstore => ?_
  unfold Namespace.useTextAs
  rw [if_neg (by simp [hversion])]
  refine (growsAt_useVersionAs hτ.sound n key text).map fun id s hid => ⟨id, rfl, ?_⟩
  rw [hstore] at hid
  exact hid.new hfree

theorem growsAt_setHere_copied (hσ : σ.store.Sound)
    (h : σ.store.copied? n key value = some source) :
    GrowsAt (n.setHere key value) (fun e s => ∃ id, e = .dependency id ∧
      s.MadeSince σ.store.nextDependency id) σ := by
  unfold Namespace.setHere
  cases hkey : σ.store.assignedKey? n key with
  | none => exact .of_error (run_bind_error (by rw [Namespace.run_localKey, hkey]) _) (.refl hσ)
  | some key' =>
    refine .bind_ok (Namespace.run_localKey_of_assignedKey? hkey) rfl ?_
    -- only values that take a dependency over are left
    cases value with
    | dependency i => exact growsAt_ensureNoSub_storeCopy hσ n key' i
    | key other =>
      refine .bind_ok (run_read _ σ) rfl ?_
      rw [answer_lookup_of_source? h]
      refine growsAt_ensureNoSub_storeCopy ?_ n key' source
      exact hσ
    | text text =>
      -- a version takes something over only where the key is free
      have hbare : (if looksLikeSpec text then none
        else ((σ.store.assignedKey? n key).filter fun key =>
          (σ.store.ownDependency? n key).isNone).bind fun key =>
            (n.inheritedDependency key).answer σ.store) = some source := h
      split at hbare
      · exact nomatch hbare
      · next hversion =>
        obtain ⟨key'', hfree, -⟩ := Option.bind_eq_some_iff.1 hbare
        obtain ⟨hassigned, hnone⟩ := Option.filter_eq_some_iff.1 hfree
        obtain rfl : key' = key'' := Option.some.inj (hkey.symm.trans hassigned)
        exact growsAt_useTextAs_version hσ (by simpa using hversion)
          (Option.isNone_iff_eq_none.1 hnone)
    | group specs => exact nomatch h
    | sub sub => exact nomatch h

theorem growsAt_needAs_source (hσ : σ.store.Sound) (h : σ.store.source? n value = some source) :
    GrowsAt (n.needAs key value) (fun id s =>
      s.Taken ((Operation.needAs n key value).redeclared? σ.store) σ.store.nextDependency id) σ := by
  have hcopy {τ : Session} (hτ : τ.store = σ.store) :
      GrowsAt ((σ.store.landing n key).1.needCopy (σ.store.landing n key).2 source)
        (fun id s => s.Taken ((Operation.needAs n key value).redeclared? σ.store)
          σ.store.nextDependency id) τ := by
    refine (growsAt_needCopy (hτ ▸ hσ) _ _ source).imp fun id s hid => ?_
    rw [hτ] at hid
    obtain ⟨coordinate, hcoordinate, htaken⟩ := hid
    have hredeclared : (Operation.needAs n key value).redeclared? σ.store
        = σ.store.ownFor? (σ.store.landing n key).1 (σ.store.landing n key).2 coordinate := by
      show ((σ.store.source? n value).bind _).bind _ = _
      rw [h, Option.bind_some, hcoordinate, Option.bind_some]
    rw [hredeclared]
    exact htaken
  unfold Namespace.needAs
  refine .bind_ok (run_view _ σ) rfl ?_
  cases value with
  | dependency i =>
    obtain rfl := Option.some.inj h
    exact hcopy rfl
  | key other =>
    refine .bind_ok (run_read _ σ) rfl ?_
    have hfound : (n.lookupDependency other).answer σ.store = some source := h
    rw [hfound]
    exact hcopy rfl
  | text text => exact nomatch h
  | group specs => exact nomatch h
  | sub sub => exact nomatch h

/-- What a need declares on is there, and it is no group. -/
theorem issuedSingle_of_redeclared? {s : Store} (hs : s.Sound) {operation : Operation}
    {own : DependencyId} (h : operation.redeclared? s = some own) : s.IssuedSingle own := by
  cases operation with
  | needAs n key value =>
    obtain ⟨coordinate, -, hown⟩ := Option.bind_eq_some_iff.1 h
    exact ⟨hs.ordered.entries _ _ own (Store.ownDependency?_of_ownFor? hown),
      Store.members_of_ownFor? hown⟩
  | _ => exact nomatch h

/-- A write that takes a dependency over gives back a new one that includes nothing older, unless it
declares on one that is there. -/
theorem growsAt_copying (hσ : σ.store.Sound) {operation : Operation}
    (h : operation.copied? σ.store = some source) :
    GrowsAt (perform operation) (fun reply s => ∃ id, reply.dependency? = some id ∧
      s.Taken (operation.redeclared? σ.store) σ.store.nextDependency id) σ := by
  cases operation with
  | set n key value =>
    have hset : GrowsAt (n.set key value) (fun e s => ∃ id, e = .dependency id ∧
        s.MadeSince σ.store.nextDependency id) σ :=
      .of_run (n.run_set key value σ) rfl (growsAt_setHere_copied hσ h)
    refine hset.map fun e s he => ?_
    obtain ⟨id, rfl, hid⟩ := he
    exact ⟨id, rfl, hid.taken⟩
  | needAs n key value => exact (growsAt_needAs_source hσ h).map fun id _ hid => ⟨id, rfl, hid⟩
  | useInherited n key =>
    exact (growsAt_useInherited hσ n key).map fun id _ hid => ⟨id, rfl, hid.taken⟩
  | addAlias n key existing =>
    -- an alias for what the namespace itself holds takes nothing over
    have hnone : σ.store.localEntry n existing = none := by
      have hfound : (if (σ.store.localEntry n existing).isSome then none
        else ((n.inheritedEntry (trim existing)).answer σ.store).bind Entry.dependency?)
          = some source := h
      split at hfound
      · exact nomatch hfound
      · next hnot => exact Option.not_isSome_iff_eq_none.1 hnot
    refine (growsAt_addAlias hσ n key existing).map fun id s hid => ⟨id, rfl, ?_⟩
    rw [hnone] at hid
    exact hid
  | _ => exact nomatch h

/-! ## §3. What it gives back is stored. -/

/-- The write from the session `σ` to the session `τ` has stored the dependency where it belongs. -/
def Stores (σ τ : Session) (operation : Operation) (id : DependencyId) : Prop :=
  ∃ place, operation.storedAt? σ.store τ.store = some place ∧
    τ.store.ownDependency? place.1 place.2 = some id

theorem leaves_insert_own (n : Namespace) (key : String) (id : DependencyId) (σ : Session) :
    Leaves (do Action.update (·.insert n key id); return id)
      (fun id τ => τ.store.ownDependency? n key = some id) σ :=
  fun i τ hrun => Store.ownDependency?_eq_some.2 (n.leaves_insert key id σ i τ hrun)

theorem leaves_needCopy (n : Namespace) (key : String) (source : DependencyId) (σ : Session) :
    Leaves (n.needCopy key source) (fun id τ => τ.store.ownDependency? n key = some id) σ := by
  unfold Namespace.needCopy
  refine .bind_all fun d τ => ?_
  split
  · unfold Namespace.declareAs
    refine .bind_all fun _ _ => .bind_all fun id _ => .bind_all fun _ _ => ?_
    exact .bind_all fun _ _ => .bind_all fun _ υ => leaves_insert_own n key id υ
  · exact .throw _

theorem leaves_useInherited (n : Namespace) (key : String) (σ : Session) :
    Leaves (n.useInherited key) (fun id τ => τ.store.ownDependency? n (trim key) = some id) σ := by
  unfold Namespace.useInherited
  refine .bind_all fun found τ => ?_
  rcases found with _ | ⟨source⟩ | ⟨sub⟩
  · exact .throw _
  · unfold Namespace.storeCopy
    exact .bind_all fun _ _ => .bind_all fun copy υ => leaves_insert_own n (trim key) copy υ
  · exact .throw _

/-- A dependency that is put where a key leads is where the key leads. -/
theorem ownDependency?_landing_putEntry {s : Store} (n : Namespace) (key : String)
    (id : DependencyId)
    (hfree : ((s.entryAt? (s.landing n key).1 (s.landing n key).2).bind Entry.sub?).isNone) :
    let t := s.putEntry (s.landing n key).1 (s.landing n key).2 (.dependency id)
    t.ownDependency? (t.landing n key).1 (t.landing n key).2 = some id := by
  intro t
  have hfills : s.Fills (s.landing n key).1 (s.landing n key).2 id t :=
    ⟨hfree, fun m k => Store.entryAt?_putEntry s _ m _ k _⟩
  have hsame : t.landing n key = s.landing n key := by
    cases hlooks : looksLikeSpec key with
    | false => exact hfills.landing hlooks
    | true =>
      have hspec : looksLikeSpec (trim key) = true := (looksLikeSpec_trim key).trans hlooks
      rw [Store.landing_of_direct (by rw [hspec, Bool.true_or]),
        Store.landing_of_direct (by rw [hspec, Bool.true_or])]
  rw [hsame]
  exact Store.ownDependency?_eq_some.2 hfills.entry

theorem leaves_addAlias (n : Namespace) (key existing : String) (σ : Session) :
    Leaves (n.addAlias key existing) (fun id τ =>
      τ.store.ownDependency? (τ.store.landing n key).1 (τ.store.landing n key).2 = some id) σ := by
  unfold Namespace.addAlias
  refine .bind_all fun id υ => .bind_ok (run_view _ υ) (.bind fun _ φ hensure => ?_)
  rw [Namespace.run_ensureNoSub] at hensure
  split at hensure
  · next hfree =>
    cases hensure
    intro i τ hrun
    cases hrun
    exact ownDependency?_landing_putEntry n key id hfree
  · exact nomatch hensure

/-- What a write takes over and gives back is then stored. -/
theorem leaves_copying {operation : Operation} (h : operation.copied? σ.store = some source) :
    Leaves (perform operation)
      (fun reply τ => ∀ id, reply.dependency? = some id → σ.Stores τ operation id) σ := by
  have hreply {act : Action DependencyId} (hact : Leaves act (fun id τ => σ.Stores τ operation id) σ) :
      Leaves (do return Reply.dependency (← act))
        (fun reply τ => ∀ id, reply.dependency? = some id → σ.Stores τ operation id) σ := by
    refine .map fun id τ hrun i hi => ?_
    obtain rfl := Option.some.inj hi
    exact hact id τ hrun
  cases operation with
  | set n key value =>
    refine .map fun e τ hrun id hid => ?_
    obtain ⟨key', hkey, hentry⟩ := n.leaves_set key value σ e τ hrun
    obtain rfl := Entry.dependency?_eq_some.1 hid
    exact ⟨_, by rw [Operation.storedAt?, hkey]; rfl, Store.ownDependency?_eq_some.2 hentry⟩
  | needAs n key value =>
    refine hreply fun id τ hrun => ⟨_, rfl, ?_⟩
    -- the key leads somewhere before the source is looked up, which writes nothing
    have hneed : Leaves (n.needAs key value) (fun id τ =>
        τ.store.ownDependency? (σ.store.landing n key).1 (σ.store.landing n key).2 = some id) σ := by
      unfold Namespace.needAs
      refine .bind_ok (run_view _ σ) ?_
      cases value with
      | dependency i => exact leaves_needCopy _ _ i σ
      | key other =>
        refine .bind_all fun found υ => ?_
        cases found with
        | some i => exact leaves_needCopy _ _ i υ
        | none => exact .throw _
      | text text => exact nomatch h
      | group specs => exact nomatch h
      | sub sub => exact nomatch h
    exact hneed id τ hrun
  | useInherited n key =>
    exact hreply fun id τ hrun => ⟨_, rfl, leaves_useInherited n key σ id τ hrun⟩
  | addAlias n key existing =>
    exact hreply fun id τ hrun => ⟨_, rfl, leaves_addAlias n key existing σ id τ hrun⟩
  | _ => exact nomatch h

end Session

/-! ## §4. Members and coordinates. -/

namespace Dependency

variable {d d' : Dependency}

/-- The record has members or a coordinate, but not both. -/
def Unmixed (d : Dependency) : Prop := d.members = [] ∨ d.coordinate = none

/-- Whatever keeps the stamp of a record mixes nothing. -/
theorem Unmixed.of_stamp (hd : d.Unmixed) (h : d'.stamp = d.stamp) : d'.Unmixed := by
  unfold Unmixed
  rwa [members_of_stamp h, coordinate_of_stamp h]

theorem Unmixed.isGroup_of_coordinate (hd : d.Unmixed) (h : d.coordinate.isSome) :
    d.isGroup = false := by
  rcases hd with hmembers | hnone
  · simp [isGroup, hmembers]
  · simp [hnone] at h

theorem Unmixed.coordinate_of_isGroup (hd : d.Unmixed) (h : d.isGroup = true) :
    d.coordinate = none := by
  rcases hd with hmembers | hnone
  · simp [isGroup, hmembers] at h
  · exact hnone

theorem lasting_unmixed : Lasting (fun _ => True) (fun _ => True) Unmixed where
  declared _ _ _ _ _ := .inl rfl
  group _ _ := .inr rfl
  -- a copy has a member for each member of its original, and so none if that has none
  copied _ _ hmembers h := h.imp_left hmembers
  located hsingle _ _ := .inl hsingle
  listening _ h := h
  undefaulted h := h
  selected h hselect := h.of_stamp (stamp_of_select hselect)
  declares _ h hdeclare := h.of_stamp (stamp_of_declare hdeclare)
  chosen h hchoose := h.of_stamp (stamp_of_choose hchoose)
  redeclared _ := trivial
  relocated _ _ _ := trivial
  read _ := trivial

end Dependency

/-! ## §5. The writes of an operation. -/

/-- A write in the session in which it is carried out. -/
structure Step where
  operation : Operation
  session : Session

/-- The writes of a batch as far as they are carried out, up to one that fails. -/
def Step.batch (write : String → Value → Operation) :
    List (String × Value) → Session → List Step
  | [], _ => []
  | (key, value) :: rest, σ =>
    ⟨write key value, σ⟩ ::
      match (perform (write key value)).run σ with
      | (.ok _, τ) => batch write rest τ
      | (.error _, _) => []

/-- The writes that an operation consists of: those of a batch, or else the operation itself. -/
def Operation.steps (σ : Session) : Operation → List Step
  | .useAll n pairs => Step.batch (.set n) pairs (held σ)
  | .needAll n pairs => Step.batch (.needAs n) pairs (held σ)
  | operation => [⟨operation, σ⟩]

namespace Step

/-- The session in which the write ends. -/
def after (step : Step) : Session := step.session.after step.operation

/-- Before every write of a batch, no record mixes members and a coordinate. -/
theorem unmixed_of_mem_batch {write : String → Value → Operation}
    (hwrite : ∀ key value d, write key value ≠ .newDependency d) (pairs : List (String × Value)) :
    ∀ {σ : Session}, σ.Records Dependency.Unmixed →
      ∀ step ∈ batch write pairs σ, step.session.Records Dependency.Unmixed := by
  induction pairs with
  | nil => exact fun _ _ hstep => nomatch hstep
  | cons pair pairs ih =>
    intro σ hσ step hstep
    have hafter : (σ.after (write pair.1 pair.2)).Records Dependency.Unmixed :=
      hσ.after Dependency.lasting_unmixed (fun _ _ hrecord => hrecord) fun d hd =>
        absurd hd (hwrite pair.1 pair.2 d)
    unfold batch at hstep
    rcases List.mem_cons.1 hstep with rfl | hrest
    · exact hσ
    · rcases hrun : (perform (write pair.1 pair.2)).run σ with ⟨result, τ⟩
      unfold Session.after at hafter
      rw [hrun] at hrest hafter
      cases result with
      | error e => exact nomatch hrest
      | ok reply => exact ih hafter step hrest

theorem unmixed_of_mem_steps {operation : Operation} {σ : Session}
    (hσ : σ.Records Dependency.Unmixed) :
    ∀ step ∈ operation.steps σ, step.session.Records Dependency.Unmixed := by
  have hheld : (held σ).Records Dependency.Unmixed := hσ
  intro step hstep
  cases operation with
  | useAll n pairs => exact unmixed_of_mem_batch (by rintro _ _ _ ⟨⟩) pairs hheld step hstep
  | needAll n pairs => exact unmixed_of_mem_batch (by rintro _ _ _ ⟨⟩) pairs hheld step hstep
  | _ =>
    obtain rfl := List.mem_singleton.1 hstep
    exact hσ

/-- From every write of a batch, the batch goes on from where the write has ended. -/
theorem grows_of_mem_batch {α : Type} {write : String → Value → Operation}
    {f : String × Value → Action α} {reply : α → Reply}
    (hwrite : ∀ pair, perform (write pair.1 pair.2) = (do return reply (← f pair)))
    (hf : ∀ pair (τ : Session), τ.store.Sound → GrowsAt (f pair) (fun _ _ => True) τ)
    (pairs : List (String × Value)) : ∀ {σ : Session}, σ.store.Sound →
      ∀ step ∈ batch write pairs σ, step.session.store.Sound ∧
        step.after.store.Grows ((pairs.mapM f).run σ).2.store := by
  induction pairs with
  | nil => exact fun _ _ hstep => nomatch hstep
  | cons pair pairs ih =>
    intro σ hσ step hstep
    have hgrows := (hf pair σ hσ).1
    have hperform := hwrite pair
    rw [List.mapM_cons]
    rcases hrun : (f pair).run σ with ⟨result, τ⟩
    rw [hrun] at hgrows
    -- the write of the batch ends where the action ends that it carries out
    have hafter : (perform (write pair.1 pair.2)).run σ = (result.map reply, τ) := by
      rw [hperform, run_bind, hrun]
      cases result <;> rfl
    unfold batch at hstep
    rw [hafter] at hstep
    rcases List.mem_cons.1 hstep with rfl | hrest
    -- this write is followed by the rest of the batch, if it has not failed
    · refine ⟨hσ, ?_⟩
      unfold after Session.after
      rw [hafter]
      cases result with
      | error e =>
        rw [run_bind_error hrun]
        exact .refl hgrows.sound
      | ok a =>
        rw [run_bind_ok hrun, run_return]
        exact (GrowsAt.mapM_true pairs hgrows.sound fun pair _ υ hυ => hf pair υ hυ).1
    · cases result with
      | error e => exact nomatch hrest
      | ok a =>
        rw [run_bind_ok hrun, run_return]
        exact ih hgrows.sound step hrest

end Step

namespace Session

variable {σ : Session} {n : Namespace} {operation : Operation} {followsProjects : Bool}

/-- A batch that fails is taken back, but what its writes have made is there all the same. -/
theorem grows_of_mem_atomically {α : Type} {write : String → Value → Operation}
    {f : String × Value → Action α} {reply : α → Reply} {all : List α → Reply}
    {pairs : List (String × Value)} (hσ : σ.store.Sound)
    (hoperation : perform operation = (do return all (← Action.atomically n (pairs.mapM f))))
    (hwrite : ∀ pair, perform (write pair.1 pair.2) = (do return reply (← f pair)))
    (hf : ∀ pair (τ : Session), τ.store.Sound → GrowsAt (f pair) (fun _ _ => True) τ) :
    ∀ step ∈ Step.batch write pairs (held σ), step.session.store.Sound ∧
      step.after.store.Grows (σ.after operation).store := by
  intro step hstep
  obtain ⟨hsound, hgrows⟩ := Step.grows_of_mem_batch hwrite hf pairs (σ := held σ) hσ step hstep
  have hall := (GrowsAt.mapM_true (σ := held σ) pairs hσ fun pair _ τ => hf pair τ).1
  have hafter : (σ.after operation).store
      = ((Action.atomically n (pairs.mapM f)).run σ).2.store := by
    unfold after
    rw [hoperation, run_return]
  rw [hafter]
  exact ⟨hsound, hgrows.trans (grows_atomically hσ hall)⟩

/-- From a write that takes a dependency over, the operation goes on from where it has ended. -/
theorem grows_of_mem_steps (hσ : σ.store.Sound) (hwrites : operation.WritesTo n σ) :
    ∀ step ∈ operation.steps σ, (step.operation.copied? step.session.store).isSome →
      step.session.store.Sound ∧ step.after.store.Grows (σ.after operation).store := by
  have hsingle {step : Step} (hstep : step = ⟨operation, σ⟩)
      (hsome : (step.operation.copied? step.session.store).isSome) :
      step.session.store.Sound ∧ step.after.store.Grows (σ.after operation).store := by
    subst hstep
    obtain ⟨source, hsource⟩ := Option.isSome_iff_exists.1 hsome
    exact ⟨hσ, .refl (growsAt_copying hσ hsource).1.sound⟩
  intro step hstep hsome
  cases hwrites with
  | useAll =>
    exact grows_of_mem_atomically (f := fun pair => n.set pair.1 pair.2) hσ rfl (fun _ => rfl)
      (fun pair τ hτ => growsAt_set hτ n pair.1 pair.2) step hstep
  | needAll pairs =>
    exact grows_of_mem_atomically (f := fun pair => n.needAs pair.1 pair.2) hσ rfl (fun _ => rfl)
      (fun pair τ hτ => (growsAt_needAs hτ n pair.1 pair.2).imp fun _ _ _ => trivial) step hstep
  | _ => exact hsingle (List.mem_singleton.1 hstep) hsome

/-- What a need declares has a coordinate, and so it includes nothing else where nothing is mixed. -/
theorem eq_of_includes_of_redeclared? {own source id : DependencyId} {operation : Operation}
    (hσ : σ.Records Dependency.Unmixed) (hredeclared : operation.redeclared? σ.store = some own)
    (hcopied : operation.copied? σ.store = some source) {t : Store}
    (hmembers : (t.dependency source).members = (σ.store.dependency source).members)
    (h : t.Includes source id) : id = source := by
  cases operation with
  | needAs n key value =>
    obtain ⟨coordinate, hcoordinate, -⟩ := Option.bind_eq_some_iff.1 hredeclared
    obtain ⟨source', hsource', hcoordinate⟩ := Option.bind_eq_some_iff.1 hcoordinate
    obtain rfl : source' = source := Option.some.inj (hsource'.symm.trans hcopied)
    have hsingle : (σ.store.dependency source').members = [] :=
      (hσ source').resolve_right (by simp [hcoordinate])
    exact Store.eq_of_includes (hmembers.trans hsingle) h
  | _ => exact nomatch hredeclared

/-- Where nothing listens, a write to `n` changes nothing outside of what `n` contains.  A write that
takes a dependency over stores what it gives back where its key leads, and the two share nothing.
Only a need may instead declare the same on the dependency that its key holds.  The two share
something then only if the source includes that dependency, and where no record has both members and
a coordinate, this means that it is the source. -/
theorem writesTo_spec (h : Reached followsProjects σ) (hsilent : σ.Records Dependency.Silent)
    (hwrites : operation.WritesTo n σ) :
    σ.store.AsBeforeOutside (σ.after operation).store n ∧
    ∀ step ∈ operation.steps σ, ∀ source,
      step.operation.copied? step.session.store = some source →
      source < step.session.store.nextDependency →
      ∀ reply τ, (perform step.operation).run step.session = (.ok reply, τ) →
        ∃ id, reply.dependency? = some id ∧ step.session.Stores τ step.operation id ∧
          (∀ own, step.operation.redeclared? step.session.store = some own → id = own) ∧
          ((σ.after operation).store.Shares id source →
            step.operation.redeclared? step.session.store = some id ∧
              (σ.after operation).store.Includes source id ∧
              (σ.Records Dependency.Unmixed → id = source)) := by
  have hsound := h.sound
  constructor
  -- the frame: what is written to is contained in `n`, or it is new
  · have hframed : σ.store.Framed (σ.store.Contains n) (σ.store.HeldOrNew n)
        (σ.after operation).store := (keepsAt_writesTo hsilent hwrites).1.1
    refine hframed.asBeforeOutside fun id hid hwritten => ?_
    exact hwritten.resolve_left (Nat.not_le_of_lt hid)
  · intro step hstep source hcopied hsource reply τ hrun
    -- the copies: what a write of the batch makes only grows in what comes after it
    obtain ⟨hstart, hgrows⟩ := grows_of_mem_steps hsound hwrites step hstep (by simp [hcopied])
    obtain ⟨hwritten, htakes⟩ := growsAt_copying hstart hcopied
    have hall : step.session.store.Grows (σ.after operation).store := hwritten.trans hgrows
    have hafter : step.after = τ := by
      unfold Step.after after
      rw [hrun]
    rw [hafter] at hgrows
    obtain ⟨id, hreply, htaken⟩ := htakes reply τ hrun
    refine ⟨id, hreply, leaves_copying hcopied reply τ hrun id hreply, htaken.there, fun hshares => ?_⟩
    cases hredeclared : step.operation.redeclared? step.session.store with
    | none =>
      -- nothing was there to declare on, so what is given back is new throughout
      have hmade := hgrows.madeSince (htaken.new hredeclared)
      exact absurd hshares (hmade.not_shares hgrows.sound.ordered hsource)
    | some own =>
      obtain rfl := htaken.there own hredeclared
      -- a need has declared on what was there, which has no members
      obtain ⟨hissued, hsingle⟩ := issuedSingle_of_redeclared? hstart hredeclared
      have hincludes := Store.includes_of_shares ((hall.sameMembers id hissued).trans hsingle) hshares
      refine ⟨rfl, hincludes, fun hunmixed => ?_⟩
      exact eq_of_includes_of_redeclared? (Step.unmixed_of_mem_steps hunmixed step hstep) hredeclared
        hcopied (hall.sameMembers source hsource) hincludes

/-- Nothing listens in a session that begins with a write. -/
theorem records_silent_after_start (hwrites : operation.WritesTo n (start followsProjects)) :
    ((start followsProjects).after operation).Records Dependency.Silent :=
  silent_after (fun _ => rfl) hwrites

/-- The root holds a group of two. -/
def withGroup : Session :=
  (start true).after (.set (.registered rootName 0) "g" (.group ["a:b:c:1", "a:d:c:1"]))

/-- A batch stores the group in another namespace, with other members. -/
theorem not_shares_withGroup :
    let operation : Operation := .useAll (.registered "n" 0) [("h", .key "g")]
    withGroup.store.AsBeforeOutside (withGroup.after operation).store (.registered "n" 0) ∧
      ¬(withGroup.after operation).store.Shares 5 2 := by
  intro operation
  have hreached : Reached true withGroup := .after .start trivial
  have hsilent : withGroup.Records Dependency.Silent := records_silent_after_start (.set _ _)
  have hwrites : operation.WritesTo (.registered "n" 0) withGroup := by
    refine .useAll fun a ha => ?_
    have hall : ((.registered "n" 0 : Namespace).assignments [("h", .key "g")] (held withGroup)).all
        (·.stored?.isNone) := by decide +kernel
    exact Option.isNone_iff_eq_none.1 (List.all_eq_true.1 hall a ha)
  obtain ⟨houtside, hcopies⟩ := writesTo_spec hreached hsilent hwrites
  refine ⟨houtside, ?_⟩
  have hdone : ((perform (.set (.registered "n" 0) "h" (.key "g"))).run
      (held withGroup)).1.toOption.isSome := by decide +kernel
  have hgiven : ((perform (.set (.registered "n" 0) "h" (.key "g"))).run
      (held withGroup)).1.toOption.bind Reply.dependency? = some 5 := by decide +kernel
  obtain ⟨reply, τ, hrun⟩ := exists_of_isSome hdone
  rw [hrun] at hgiven
  obtain ⟨id, hreply, -, -, honly⟩ := hcopies
    ⟨.set (.registered "n" 0) "h" (.key "g"), held withGroup⟩ List.mem_cons_self 2
    (by decide +kernel) (by decide +kernel) reply τ hrun
  obtain rfl : id = 5 := Option.some.inj (hreply.symm.trans hgiven)
  exact fun hshares => nomatch (honly hshares).1

/-- A need for what its own key holds gives back the same dependency, and no copy of it. -/
theorem shares_redeclared :
    let σ := (start true).after (.set (.registered "n" 0) "k" (.text "g:i:t:1"))
    let operation : Operation := .needAs (.registered "n" 0) "k" (.key "k")
    Reached true σ ∧ σ.Records Dependency.Silent ∧ operation.WritesTo (.registered "n" 0) σ ∧
      operation.copied? σ.store = some 0 ∧
      ∃ reply τ, (perform operation).run σ = (.ok reply, τ) ∧ reply.dependency? = some 0 ∧
        τ.store.ownDependency? (.registered "n" 0) "k" = some 0 ∧ τ.store.Shares 0 0 := by
  intro σ operation
  have hdone : ((perform operation).run σ).1.toOption.isSome := by decide +kernel
  have hgiven : ((perform operation).run σ).1.toOption.bind Reply.dependency? = some 0 := by
    decide +kernel
  have hcopied : operation.copied? σ.store = some 0 := by decide +kernel
  obtain ⟨reply, τ, hrun⟩ := exists_of_isSome hdone
  rw [hrun] at hgiven
  have hlands : σ.store.landing (.registered "n" 0) "k" = (.registered "n" 0, "k") := by
    decide +kernel
  obtain ⟨_, hplace, hown⟩ := leaves_copying hcopied reply τ hrun 0 hgiven
  obtain rfl := Option.some.inj (hplace.symm.trans (congrArg some hlands))
  exact ⟨.after .start trivial, records_silent_after_start (.set _ _), .needAs _ _, hcopied, reply,
    τ, hrun, hgiven, hown, 0, .self _ 0, .self _ 0⟩

end Session

end DependencyScope
