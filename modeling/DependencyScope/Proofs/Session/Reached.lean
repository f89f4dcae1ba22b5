/-
  DependencyScope.Proofs.Session.Reached — the sessions that a client can reach.

  A client starts with an empty registry and asks for one operation after the other, whether they
  succeed or fail.  It can name only what it has been given: the namespaces that it links to each
  other have been made, and so have the members of a dependency that it makes.  In every session
  that is reached in this way the store is sound.

  Main definitions:
    * `Operation.Present` — what an operation links has been made;
    * `Session.Reached` — the sessions that a client can reach.

  Main results:
    * `Session.growsAt_setParent` — only links that close no cycle are set;
    * `Session.growsAt_perform` — every operation makes a sound store of a sound one;
    * `Session.Reached.sound` — in every session that is reached the store is sound.
-/
import DependencyScope.Proofs.Namespace.Declare
import DependencyScope.Proofs.Session.Growth
import DependencyScope.Proofs.Session.Questions

namespace DependencyScope

open DependencyScope.Text DependencyScope.Action

/-- The namespace to which a reference to a parent refers by handle has been made. -/
def ParentRef.Present (s : Store) : ParentRef → Prop
  | .key _ => True
  | .handle parent => s.Made parent

namespace Session

variable {σ : Session}

/-! ## §1. Declarations. -/

theorem growsAt_inheritSelection (hσ : σ.store.Sound) (n : Namespace) (d : Dependency) :
    GrowsAt (n.inheritSelection d) (fun outcome _ => outcome.dependency.members = d.members) σ := by
  obtain ⟨_, ⟨names, rfl⟩, hrun⟩ := n.run_inheritSelection d σ
  obtain ⟨default, selected, hrest⟩ := d.under_spec (d.coordinate.bind (σ.store.nearestSelection? n))
  refine .of_ok hrun (.refl hσ) ?_
  rw [hrest]

/-- A coordinate is declared on the dependency that the key holds for it, or else on a new one. -/
theorem growsAt_declaredFor (hσ : σ.store.Sound) (n : Namespace) (key : String)
    (coordinate : Coordinate) (declaration : Declaration) :
    GrowsAt (n.declaredFor key coordinate declaration) (fun id s =>
      s.Taken (σ.store.ownFor? n key coordinate) σ.store.nextDependency id) σ := by
  unfold Namespace.declaredFor
  refine .bind_ok (run_view _ σ) rfl ?_
  cases hown : σ.store.ownFor? n key coordinate with
  | some id =>
    have hissued : Store.Issued id σ.store :=
      hσ.ordered.entries n key id (Store.ownDependency?_of_ownFor? hown)
    refine (growsAt_declare hσ id declaration).bind fun _ τ hτ _ => ?_
    exact (growsAt_setCoordinate hτ.sound id coordinate).bind fun _ _ hυ _ =>
      .pure hυ.sound (.own (hυ.issued (hτ.issued hissued)))
  | none => exact (growsAt_addDependency hσ rfl).imp fun _ _ h => h.1.taken

theorem growsAt_declareAs (hσ : σ.store.Sound) (n : Namespace) (key : String)
    (coordinate : Coordinate) (declaration : Declaration) :
    GrowsAt (n.declareAs key coordinate declaration) (fun id s =>
      s.Taken (σ.store.ownFor? n key coordinate) σ.store.nextDependency id) σ := by
  unfold Namespace.declareAs
  refine (growsAt_ensureNoSub hσ n key).bind fun _ τ hτ hstore => ?_
  refine (growsAt_declaredFor hτ.sound n key coordinate declaration).bind fun id υ hυ hid => ?_
  rw [hstore] at hid
  have hview : GrowsAt (Action.view (·.dependency id))
      (fun d s => d.members = (s.dependency id).members) υ :=
    .view hυ.sound rfl
  refine hview.bind fun d φ hφ hd => ?_
  refine (growsAt_inheritSelection hφ.sound n d).bind fun outcome ψ hψ houtcome => ?_
  have hmembers : outcome.dependency.members = (ψ.store.dependency id).members := by
    rw [houtcome, hd, hψ.sameMembers id (hφ.issued hid.issued)]
  refine (growsAt_settle hψ.sound hmembers).bind fun _ χ hχ _ => ?_
  have htaken := (hψ.trans hχ).taken (hφ.taken hid)
  exact growsAt_insertThen hχ.sound n key htaken.issued fun _ hs => hs.taken htaken

theorem growsAt_needCopy (hσ : σ.store.Sound) (n : Namespace) (key : String)
    (source : DependencyId) : GrowsAt (n.needCopy key source) (fun id s =>
      ∃ coordinate, (σ.store.dependency source).coordinate = some coordinate ∧
        s.Taken (σ.store.ownFor? n key coordinate) σ.store.nextDependency id) σ := by
  unfold Namespace.needCopy
  refine .bind_ok (run_view _ σ) rfl ?_
  split
  · next coordinate hcoordinate =>
    exact (growsAt_declareAs hσ n key coordinate _).imp fun _ _ h => ⟨coordinate, hcoordinate, h⟩
  · exact .throw hσ _

theorem growsAt_neededMember (hσ : σ.store.Sound) (n : Namespace) (text : String) :
    GrowsAt (n.neededMember text) (fun member _ => member.members = []) σ := by
  unfold Namespace.neededMember
  refine (growsAt_parse hσ (NeedSpec.parse text)).bind fun need τ hτ _ => ?_
  refine (growsAt_parse hτ.sound need.declaration).bind fun declaration υ hυ _ => ?_
  exact (growsAt_inheritSelection hυ.sound n _).map fun _ _ houtcome => houtcome

theorem growsAt_needGroup (hσ : σ.store.Sound) (n : Namespace) (key : String)
    (specs : List String) : GrowsAt (n.needGroup key specs) Store.Issued σ := by
  unfold Namespace.needGroup
  refine (growsAt_ensureNoSub hσ n key).bind fun _ τ hτ _ => .guarded hτ.sound fun _ => ?_
  have hmembers : GrowsAt (specs.mapM n.neededMember)
      (fun members _ => ∀ member ∈ members, member.members = []) τ :=
    .mapM (Q := fun (member : Dependency) _ => member.members = []) (fun _ _ _ _ h => h) specs hτ.sound
      fun text _ _ hυ => growsAt_neededMember hυ n text
  exact hmembers.bind fun members _ hυ h => growsAt_storeGroup hυ.sound n key h false

theorem growsAt_need (hσ : σ.store.Sound) (n : Namespace) (text : String) :
    GrowsAt (n.need text) Store.Issued σ := by
  unfold Namespace.need
  refine (growsAt_parse hσ (NeedSpec.parse text)).bind fun need τ hτ _ => ?_
  refine (growsAt_parse hτ.sound need.declaration).bind fun declaration υ hυ _ => ?_
  have hplace : GrowsAt (Action.view (·.landing n need.key)) (fun _ _ => True) υ :=
    .view hυ.sound trivial
  exact hplace.bind fun place _ hφ _ =>
    (growsAt_declareAs hφ.sound place.1 place.2 need.spec.coordinate declaration).imp
      fun _ _ h => h.issued

theorem growsAt_needAs (hσ : σ.store.Sound) (n : Namespace) (key : String) (value : Value) :
    GrowsAt (n.needAs key value) Store.Issued σ := by
  unfold Namespace.needAs
  have hplace : GrowsAt (Action.view (·.landing n key)) (fun _ _ => True) σ := .view hσ trivial
  refine hplace.bind fun place τ hτ _ => ?_
  cases value with
  | text text =>
    refine (growsAt_parse hτ.sound (NeedSpec.parse text)).bind fun need υ hυ _ => ?_
    exact (growsAt_parse hυ.sound need.declaration).bind fun declaration _ hφ _ =>
      (growsAt_declareAs hφ.sound place.1 place.2 need.spec.coordinate declaration).imp
        fun _ _ h => h.issued
  | group specs => exact growsAt_needGroup hτ.sound place.1 place.2 specs
  | dependency source =>
    exact (growsAt_needCopy hτ.sound place.1 place.2 source).imp fun _ _ ⟨_, _, h⟩ => h.issued
  | key other =>
    have hread : GrowsAt (Action.read (n.lookupDependency other)) (fun _ _ => True) τ :=
      .read hτ.sound trivial
    refine hread.bind fun source υ hυ _ => ?_
    cases source with
    | some source =>
      exact (growsAt_needCopy hυ.sound place.1 place.2 source).imp fun _ _ ⟨_, _, h⟩ => h.issued
    | none => exact .throw hυ.sound _
  | sub _ => exact .throw hτ.sound _

theorem growsAt_needAll (hσ : σ.store.Sound) (n : Namespace) (pairs : List (String × Value)) :
    GrowsAt (n.needAll pairs) (fun _ _ => True) σ :=
  .atomically hσ <| .mapM_true (σ := held σ) pairs hσ fun pair _ _ hτ =>
    ⟨(growsAt_needAs hτ n pair.1 pair.2).1, fun _ _ _ => trivial⟩

theorem growsAt_require (hσ : σ.store.Sound) (n : Namespace) (key text : String)
    (requirement : Option String) : GrowsAt (n.require key text requirement) Store.Issued σ := by
  unfold Namespace.require
  refine (growsAt_parse hσ (Spec.parse text)).bind fun spec τ hτ _ => ?_
  refine (growsAt_parse hτ.sound (Declaration.make spec.version requirement)).bind
    fun declaration υ hυ _ => ?_
  have hplace : GrowsAt (Action.view (·.landing n key)) (fun _ _ => True) υ := .view hυ.sound trivial
  exact hplace.bind fun place _ hφ _ =>
    (growsAt_declareAs hφ.sound place.1 place.2 spec.coordinate declaration).imp
      fun _ _ h => h.issued

/-- A spec under its own name is either declared, and its default selected, or used. -/
theorem growsAt_useSpec (hσ : σ.store.Sound) (n : Namespace) (text : String) :
    GrowsAt (n.useSpec text) (fun _ _ => True) σ := by
  unfold Namespace.useSpec
  have hheld : (held σ).store.Sound := hσ
  refine .atomically hσ ?_
  refine (growsAt_parse hheld (NeedSpec.parse text)).bind fun need τ hτ _ => ?_
  have hplace : GrowsAt (Action.view (·.landing n need.key)) (fun _ _ => True) τ :=
    .view hτ.sound trivial
  refine hplace.bind fun place υ hυ _ => ?_
  refine (growsAt_ensureNoSub hυ.sound place.1 place.2).bind fun _ φ hφ _ => ?_
  split
  · exact ⟨(growsAt_useSpecAs hφ.sound place.1 place.2 need.spec).1, fun _ _ _ => trivial⟩
  · refine (growsAt_parse hφ.sound need.declaration).bind fun declaration ψ hψ _ => ?_
    refine (growsAt_declareAs hψ.sound place.1 place.2 need.spec.coordinate declaration).bind
      fun id χ hχ _ => ?_
    have hdefault : GrowsAt (Namespace.selectDefault id declaration.default) (fun _ _ => True) χ := by
      unfold Namespace.selectDefault
      split
      · have hview : GrowsAt (Action.view (·.isSelected id)) (fun _ _ => True) χ :=
          .view hχ.sound trivial
        refine hview.bind fun selected ω hω _ => ?_
        split
        · exact growsAt_select hω.sound id _
        · exact .pure hω.sound trivial
      · exact .pure hχ.sound trivial
    exact hdefault.bind fun _ _ hω _ => .pure hω.sound trivial

/-! ## §2. Entries taken over. -/

theorem growsAt_useInherited (hσ : σ.store.Sound) (n : Namespace) (key : String) :
    GrowsAt (n.useInherited key) (fun id s => s.MadeSince σ.store.nextDependency id) σ := by
  unfold Namespace.useInherited
  have hread : GrowsAt (Action.read (n.inheritedEntry (trim key))) (fun _ _ => True) σ :=
    .read hσ trivial
  refine hread.bind fun found τ hτ _ => ?_
  rcases found with _ | ⟨source⟩ | ⟨sub⟩
  · exact .throw hτ.sound _
  · refine (growsAt_ensureNoSub hτ.sound n (trim key)).bind fun _ υ hυ _ => ?_
    exact (growsAt_storeCopy hυ.sound n (trim key) source).imp fun _ _ h =>
      h.mono (hτ.trans hυ).dependencies
  · exact .throw hτ.sound _

/-- What a look-up finds has been made. -/
theorem issued_of_localEntry {s : Store} (h : s.Ordered) {n : Namespace} {key : String}
    {id : DependencyId} (hentry : s.localEntry n key = some (.dependency id)) :
    Store.Issued id s := by
  obtain ⟨m, -, ⟨key', hown⟩ | ⟨unversioned, hindexed⟩⟩ := Store.exists_of_localEntry hentry
  · exact h.entries m key' id hown
  · exact h.index m unversioned id hindexed

/-- An alias is made for the dependency that the namespace has under a key, or else for a copy. -/
theorem growsAt_addAlias (hσ : σ.store.Sound) (n : Namespace) (key existing : String) :
    GrowsAt (n.addAlias key existing) (fun id s => s.Taken
      ((σ.store.localEntry n existing).bind Entry.dependency?) σ.store.nextDependency id) σ := by
  -- the dependency is there or is a copy that holds nothing older
  have hsource : GrowsAt (n.aliasSource existing) (fun id s => s.Taken
      ((σ.store.localEntry n existing).bind Entry.dependency?) σ.store.nextDependency id) σ := by
    unfold Namespace.aliasSource
    refine .bind_ok (run_view _ σ) rfl ?_
    cases hfound : σ.store.localEntry n existing with
    | none =>
      have hread : GrowsAt (Action.read (n.lookup existing)) (fun _ s => s = σ.store) σ :=
        .read hσ rfl
      refine hread.bind fun inherited τ hτ hstore => ?_
      cases inherited with
      | some _ =>
        refine (growsAt_useInherited hτ.sound n existing).imp fun _ _ h => ?_
        rw [hstore] at h
        exact h.taken
      | none => exact .throw hτ.sound _
    | some e =>
      cases e with
      | dependency id => exact .pure hσ (.own (issued_of_localEntry hσ.ordered hfound))
      | sub _ => exact .throw hσ _
  unfold Namespace.addAlias
  refine hsource.bind fun id τ hτ hid => ?_
  have hplace : GrowsAt (Action.view (·.landing n key)) (fun _ _ => True) τ := .view hτ.sound trivial
  refine hplace.bind fun place υ hυ _ => ?_
  refine (growsAt_ensureNoSub hυ.sound place.1 place.2).bind fun _ φ hφ _ => ?_
  -- looking up the place for the alias and guarding it makes nothing
  have htaken := hφ.taken (hυ.taken hid)
  have hput : GrowsAt (Action.update (·.putEntry place.1 place.2 (.dependency id)))
      (fun _ _ => True) φ :=
    .update (.putEntry hφ.sound _ _ (by rintro _ ⟨⟩; exact htaken.issued))
  exact hput.bind fun _ _ hψ _ => .pure hψ.sound (hψ.taken htaken)

/-! ## §3. Namespaces. -/

theorem growsAt_openSub (hσ : σ.store.Sound) {n : Namespace} (hn : σ.store.Made n) (key : String) :
    GrowsAt (n.openSub key) (fun _ _ => True) σ := by
  unfold Namespace.openSub
  have hview : GrowsAt (Action.view (·.entryAt? n (trim key))) (fun _ s => s.Made n) σ := .view hσ hn
  refine hview.bind fun found τ hτ hn => ?_
  rcases found with _ | ⟨id⟩ | ⟨sub⟩
  · exact .change (.makeSub hτ.sound hn (trim key)) trivial
  · exact .throw hτ.sound _
  · exact .pure hτ.sound trivial

theorem growsAt_openSubUsing (hσ : σ.store.Sound) {n : Namespace} (hn : σ.store.Made n)
    (key : String) (pairs : List (String × Value)) :
    GrowsAt (n.openSubUsing key pairs) (fun _ _ => True) σ := by
  unfold Namespace.openSubUsing
  refine (growsAt_openSub hσ hn key).bind fun sub τ hτ _ => ?_
  exact (growsAt_useAll hτ.sound sub pairs).bind fun _ _ hυ _ => .pure hυ.sound trivial

/-- A candidate that is not refused is neither the namespace nor below it. -/
theorem growsAt_ensureAcyclic (hσ : σ.store.Sound) (n candidate : Namespace) :
    GrowsAt (n.ensureAcyclic candidate)
      (fun _ s => s = σ.store ∧ n ∉ candidate :: candidate.ancestors.answer s) σ := by
  unfold Namespace.ensureAcyclic
  have hread : GrowsAt (Action.read (n.encloses candidate)) (fun cyclic s => s = σ.store ∧
      (cyclic = false → n ∉ candidate :: candidate.ancestors.answer s)) σ := by
    refine .read hσ ⟨rfl, fun hfree => ?_⟩
    unfold Namespace.encloses Namespace.enclosesBy at hfree
    split at hfree
    · exact nomatch hfree
    · next hne =>
      rw [Reading.answer_bind, Reading.answer_pure] at hfree
      have hnot : n ∉ candidate.ancestors.answer σ.store := by
        unfold Namespace.ancestors
        simpa using hfree
      exact List.not_mem_cons_of_ne_of_not_mem (fun heq => hne heq.symm) hnot
  refine hread.bind fun cyclic τ hτ hcyclic => ?_
  cases cyclic with
  | true => exact .throw hτ.sound _
  | false => exact .pure hτ.sound ⟨hcyclic.1, hcyclic.2 rfl⟩

theorem not_mem_of_ancestors {s : Store} (h : s.Sound) {n parent : Namespace}
    (hnot : n ∉ parent :: parent.ancestors.answer s) {ms : List Namespace}
    (hms : Ascends s.settledUp parent ms) : n ∉ parent :: ms := by
  intro hmem
  rcases List.mem_cons.1 hmem with rfl | habove
  · exact hnot List.mem_cons_self
  · exact hnot (List.mem_cons_of_mem _ (h.grounded.ascending.mem_ancestors hms habove))

/-- Only links that close no cycle are set. -/
theorem growsAt_parentLink (hσ : σ.store.Sound) (n : Namespace) {parent : ParentRef}
    (hparent : parent.Present σ.store) :
    GrowsAt (n.parentLink parent) (fun link s => s = σ.store ∧ s.Clear n link) σ := by
  unfold Namespace.parentLink
  split
  · exact .pure hσ ⟨rfl, trivial⟩
  · next key _ =>
    have hattached : GrowsAt (Action.view (·.attached n)) (fun _ s => s = σ.store) σ := .view hσ rfl
    refine hattached.bind fun attached τ hτ hstore => ?_
    split
    · have hcandidate : GrowsAt (Action.read (Namespace.ofKey key)) (fun candidate s =>
          s = σ.store ∧ candidate = .registered candidate.name s.generation) τ :=
        .read hτ.sound ⟨hstore, rfl⟩
      refine hcandidate.bind fun candidate υ hυ hcandidate => ?_
      refine (growsAt_ensureAcyclic hυ.sound n candidate).bind fun _ φ hφ hfree => ?_
      refine .pure hφ.sound ⟨hfree.1.trans hcandidate.1, fun ms hms => ?_⟩
      have hname : Namespace.registered candidate.name φ.store.generation = candidate := by
        rw [hfree.1]
        exact hcandidate.2.symm
      rw [hname] at hms ⊢
      exact not_mem_of_ancestors hφ.sound hfree.2 hms
    · exact .throw hτ.sound _
  · next candidate =>
    refine (growsAt_ensureAcyclic hσ n candidate).bind fun _ τ hτ hfree => ?_
    refine .pure hτ.sound ⟨hfree.1, hτ.made hparent, fun ms hms => ?_⟩
    exact not_mem_of_ancestors hτ.sound hfree.2 hms

theorem growsAt_setParent (hσ : σ.store.Sound) {n : Namespace} (hn : σ.store.Made n)
    {parent : ParentRef} (hparent : parent.Present σ.store) :
    GrowsAt (n.setParent parent) (fun _ _ => True) σ := by
  unfold Namespace.setParent
  refine .guarded hσ fun _ => ?_
  refine (growsAt_parentLink hσ n hparent).bind fun link τ hτ hlink => ?_
  exact .update (.putLink hτ.sound (hτ.made hn) hlink.2)

theorem growsAt_attach (hσ : σ.store.Sound) (path : List String) :
    GrowsAt (Registry.attach path) (fun _ _ => True) σ := by
  unfold Registry.attach
  have hread : GrowsAt (Action.read (Namespace.ofKey (.path path))) (fun n s => s.Made n) σ :=
    .read hσ (Nat.le_refl _)
  refine hread.bind fun n τ hτ hn => ?_
  split
  · exact .pure hτ.sound trivial
  · have hparent : (ParentRef.key (.path path.dropLast)).Present τ.store := trivial
    exact (growsAt_setParent hτ.sound hn hparent).bind fun _ _ hυ _ => .pure hυ.sound trivial

theorem growsAt_load (hσ : σ.store.Sound) (profile : Profile) :
    GrowsAt (Registry.load profile) (fun _ _ => True) σ := by
  unfold Registry.load
  refine .deferring (.restoring ?_ fun τ hτ => hτ.restoreBelow hσ _)
  refine .forM (σ := held σ) profile.artifacts.toList hσ fun table _ τ hτ => ?_
  unfold Registry.applyTable
  have hread : GrowsAt (Action.read (Namespace.ofKey (.ofText table.1))) (fun _ _ => True) τ :=
    .read hτ trivial
  refine hread.bind fun n υ hυ _ => ?_
  exact (growsAt_setAll hυ.sound n (Registry.assignments table.2)).bind fun _ _ hφ _ =>
    .pure hφ.sound trivial

end Session

/-! ## §4. All operations. -/

/-- What an operation links has been made: a client can name nothing else. -/
def Operation.Present (s : Store) : Operation → Prop
  | .setParent n target => s.Made n ∧ target.Present s
  | .openSub n _ | .openSubUsing n _ _ => s.Made n
  | .newDependency d => ∀ m ∈ d.members, m < s.nextDependency
  | _ => True

namespace Session

variable {σ : Session}

/-- Every operation makes a sound store of a sound one. -/
theorem growsAt_perform (hσ : σ.store.Sound) {operation : Operation}
    (h : operation.Present σ.store) : GrowsAt (perform operation) (fun _ _ => True) σ := by
  have hreply {α : Type} {act : Action α} {Q : α → Store → Prop} {f : α → Reply}
      (hact : GrowsAt act Q σ) : GrowsAt (do return f (← act)) (fun _ _ => True) σ :=
    hact.map fun _ _ _ => trivial
  have hdone {act : Action Unit} {Q : Unit → Store → Prop} {reply : Reply}
      (hact : GrowsAt act Q σ) : GrowsAt (do act; return reply) (fun _ _ => True) σ :=
    hact.bind fun _ _ hτ _ => .pure hτ.sound trivial
  have hview {α : Type} (f : Store → α) : GrowsAt (Action.view f) (fun _ _ => True) σ :=
    .view hσ trivial
  cases hasks : operation.asks with
  | true =>
    refine ⟨?_, fun _ _ _ => trivial⟩
    show σ.store.Grows (σ.after operation).store
    rw [(alike_after hasks σ).store]
    exact .refl hσ
  | false =>
    cases operation with
    -- assignments and what is made of them
    | set n key value => exact hreply (growsAt_set hσ n key value)
    | useSpec n text => exact hreply (growsAt_useSpec hσ n text)
    | useAll n pairs => exact hreply (growsAt_useAll hσ n pairs)
    | openSubUsing n key pairs => exact hreply (growsAt_openSubUsing hσ h key pairs)
    | load profile => exact hdone (growsAt_load hσ profile)
    -- declarations and copies
    | need n text => exact hreply (growsAt_need hσ n text)
    | needAs n key value => exact hreply (growsAt_needAs hσ n key value)
    | needAll n pairs => exact hreply (growsAt_needAll hσ n pairs)
    | require n key text requirement => exact hreply (growsAt_require hσ n key text requirement)
    | useInherited n key => exact hreply (growsAt_useInherited hσ n key)
    | addAlias n key existing => exact hreply (growsAt_addAlias hσ n key existing)
    | copy id key =>
      exact (hview (·.dependency id)).bind fun d _ hτ _ =>
        (growsAt_copy hτ.sound id (key.getD d.key)).map fun _ _ _ => trivial
    -- steps on one dependency
    | newDependency d =>
      obtain ⟨hgrows, -⟩ := Store.Grows.addDependency hσ h
      exact hreply (.change (Q := fun _ _ => True) hgrows trivial)
    | select id version => exact hdone (growsAt_select hσ id version)
    | declare id declaration => exact hdone (growsAt_declare hσ id declaration)
    | listen id listener => exact hdone (.update (.putDependency hσ rfl))
    -- links, entries taken out, and the registry
    | setParent n parent => exact hdone (growsAt_setParent hσ h.1 h.2)
    | openSub n key => exact hreply (growsAt_openSub hσ h key)
    | delete n key =>
      exact hreply (.change (Q := fun _ _ => True) (.without hσ n (trim key)) trivial)
    | clear n => exact hdone (.update (.clearContents hσ n))
    | attach path => exact hreply (growsAt_attach hσ path)
    | detached name => exact hreply (.change (Q := fun _ _ => True) (.nextNamespace hσ) trivial)
    | clearRegistry => exact ⟨.clear hσ, fun _ _ _ => trivial⟩
    | releaseRegistry => exact hdone (.update (.release hσ))
    | enter project =>
      have hupdate : GrowsAt (Action.update fun s => { s with projects := s.projects ++ [project] })
          (fun _ _ => True) σ := .update (.putProjects hσ _)
      exact hupdate.bind fun _ _ hτ _ => (GrowsAt.view (Q := fun _ _ => True) hτ.sound trivial).map
        fun _ _ _ => trivial
    | exit => exact hreply (.change (Q := fun _ _ => True) (.putProjects hσ _) trivial)
    -- all the others are questions
    | _ => exact nomatch hasks

/-- The sessions that a client can reach, with a current namespace that follows the projects or does
not. -/
inductive Reached (followsProjects : Bool) : Session → Prop where
  | start : Reached followsProjects (start followsProjects)
  | after {σ : Session} {operation : Operation} :
      Reached followsProjects σ → operation.Present σ.store →
      Reached followsProjects (σ.after operation)

variable {followsProjects : Bool}

/-- In every session that is reached the store is sound. -/
theorem Reached.sound (h : Reached followsProjects σ) : σ.store.Sound := by
  induction h with
  | start => exact Store.sound_empty followsProjects
  | after _ hpresent ih => exact (growsAt_perform ih hpresent).1.sound

end Session

end DependencyScope
