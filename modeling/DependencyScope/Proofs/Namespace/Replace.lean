/-
  DependencyScope.Proofs.Namespace.Replace — values that replace what a key holds.

  A copy or a group takes the place of the dependency that the key held, and nothing of that is
  looked at: neither its coordinate nor its requirement.  So what the key held may have declared a
  requirement that rejects the selection which comes instead.

  Main definitions:
    * `Store.source?`, `Store.brought?` — the records that a value brings along;
    * `Dependency.RejectedFor` — a requirement for a coordinate rejects the selection of a record;
    * `Store.heldUnder` — the entry of a key and its members.

  Main results:
    * `Namespace.run_setHere_source`, `.run_setHere_group` — what such an assignment does;
    * `Assignment.rejected_iff` — afterwards the key holds a rejected record exactly if the value
      has brought one;
    * `Namespace.rejected_replacing` — a run in which it has.
-/
import DependencyScope.Proofs.Namespace.Frame
import DependencyScope.Proofs.Session.Reached

namespace DependencyScope

open DependencyScope.Text DependencyScope.Action

/-! ## §1. What a value brings. -/

/-- The requirement `r`, declared for the coordinate `c`, rejects the selection of the record. -/
def Dependency.RejectedFor (c : Coordinate) (r : Requirement) (d : Dependency) : Prop :=
  d.coordinate = some c ∧ ∃ v, d.selected = some v ∧ r.accepts v = false

theorem Dependency.rejectedFor_core {c : Coordinate} {r : Requirement} {d : Dependency} :
    d.core.RejectedFor c r ↔ d.RejectedFor c r := Iff.rfl

namespace Store

/-- The dependency that a value copies, if it copies one. -/
def source? (s : Store) (n : Namespace) : Value → Option DependencyId
  | .dependency id => some id
  | .key other => (n.lookupDependency other).answer s
  | .text _ | .group _ | .sub _ => none

/-- A dependency and its members. -/
def withMembers (s : Store) (id : DependencyId) : List DependencyId :=
  id :: (s.dependency id).members

/-- The records that a copy or a group brings along: those of the source and its members, or those
for which the specs stand. -/
def brought? (s : Store) (n : Namespace) : Value → Option (List Dependency)
  | .group specs => if specs.isEmpty then none else (specs.mapM Namespace.groupMember).toOption
  | value => (s.source? n value).map fun id => (s.withMembers id).map s.dependency

/-- The entry of a key and its members, if that is a dependency. -/
def heldUnder (s : Store) (n : Namespace) (key : String) : List DependencyId :=
  ((s.ownDependency? n key).map s.withMembers).getD []

/-- A requirement for a coordinate rejects the selection of something that the key holds. -/
def RejectsUnder (s : Store) (n : Namespace) (key : String) (c : Coordinate) (r : Requirement) :
    Prop :=
  ∃ id ∈ s.heldUnder n key, (s.dependency id).RejectedFor c r

/-- Adds several dependencies, one after the other. -/
def addAll : List Dependency → Store → List DependencyId × Store
  | [], s => ([], s)
  | d :: rest, s =>
    let added := s.addDependency d
    let others := addAll rest added.2
    (added.1 :: others.1, others.2)

/-- The new dependencies have the given records, and the earlier ones keep theirs. -/
theorem addAll_spec : ∀ (ds : List Dependency) (s : Store),
    (addAll ds s).1.map (addAll ds s).2.dependency = ds ∧
      (∀ id ∈ (addAll ds s).1, id < (addAll ds s).2.nextDependency) ∧
      s.nextDependency ≤ (addAll ds s).2.nextDependency ∧
      ∀ id < s.nextDependency, (addAll ds s).2.dependency id = s.dependency id
  | [], s => ⟨rfl, by simp [addAll], Nat.le_refl _, fun _ _ => rfl⟩
  | d :: rest, s => by
    obtain ⟨hrecords, hissued, hnext, hkept⟩ := addAll_spec rest (s.addDependency d).2
    have hnew : s.nextDependency < (s.addDependency d).2.nextDependency := Nat.lt_succ_self _
    have hfirst : (addAll rest (s.addDependency d).2).2.dependency s.nextDependency = d := by
      rw [hkept _ hnew, dependency_addDependency, if_pos rfl]
    refine ⟨?_, ?_, Nat.le_trans (Nat.le_of_lt hnew) hnext, ?_⟩
    · exact congrArg₂ List.cons hfirst hrecords
    · exact List.forall_mem_cons.2 ⟨Nat.lt_of_lt_of_le hnew hnext, hissued⟩
    · intro id hid
      have hbefore : (addAll rest (s.addDependency d).2).2.dependency id = s.dependency id := by
        rw [hkept id (Nat.lt_trans hid hnew), dependency_addDependency, if_neg (Nat.ne_of_gt hid)]
      exact hbefore

theorem contents_addAll : ∀ (members : List Dependency) (s : Store),
    (addAll members s).2.contents = s.contents
  | [], _ => rfl
  | member :: rest, s => contents_addAll rest (s.addDependency member).2

theorem dependency_registerMembers (n : Namespace) (byId : Bool) (id : DependencyId) :
    ∀ (members : List DependencyId) (s : Store),
      (members.foldl (n.registerMember byId) s).dependency id = s.dependency id
  | [], _ => rfl
  | member :: rest, s => by
    rw [List.foldl_cons, dependency_registerMembers n byId id rest]
    unfold Namespace.registerMember
    dsimp only
    split
    · rw [dependency_putEntry, dependency_putIndex]
    · rw [dependency_putIndex]

/-- What a key holds is looked up where its entry is. -/
theorem heldUnder_of_entryAt? {s : Store} {n : Namespace} {key : String} {id : DependencyId}
    (h : s.entryAt? n key = some (.dependency id)) : s.heldUnder n key = s.withMembers id := by
  unfold heldUnder
  rw [ownDependency?_eq_some.2 h]
  rfl

theorem rejectsUnder_iff {s : Store} {n : Namespace} {key : String} {id : DependencyId}
    {c : Coordinate} {r : Requirement} (h : s.entryAt? n key = some (.dependency id)) :
    s.RejectsUnder n key c r ↔
      ∃ d ∈ s.cores (s.withMembers id), d.RejectedFor c r := by
  unfold RejectsUnder cores
  rw [heldUnder_of_entryAt? h]
  simp [Dependency.rejectedFor_core]

end Store

/-! ## §2. What the assignments do. -/

/-- The value is a dependency, another key or a group. -/
def Value.Replaces : Value → Prop
  | .dependency _ | .key _ | .group _ => True
  | .text _ | .sub _ => False

namespace Namespace

variable {n : Namespace} {key key' : String} {id source : DependencyId} {value : Value}
  {specs : List String} {members : List Dependency} {σ : Session}

/-- The store in which a copy has taken the place of what the key held. -/
def replaced (n : Namespace) (key : String) (source : DependencyId) (s : Store) : Store :=
  (s.copy source key).2.insert n key (s.copy source key).1

/-- The number of the group that has the next members. -/
def groupId (members : List Dependency) (s : Store) : DependencyId :=
  (Store.addAll members s).2.nextDependency

/-- The store in which a group has taken the place of what the key held. -/
def grouped (n : Namespace) (key : String) (members : List Dependency) (s : Store) : Store :=
  let added := Store.addAll members s
  let store := (added.2.addDependency { key := key, members := added.1 }).2
  added.1.foldl (n.registerMember true) (store.putEntry n key (.dependency (groupId members s)))

/-- The members of a group have the coordinates of their specs, and the ids of these as keys. -/
theorem groupMember_spec {spec : String} {member : Dependency}
    (h : groupMember spec = .ok member) :
    ∃ parsed, Spec.parse spec = .ok parsed ∧ member.key = parsed.coordinate.id ∧
      member.coordinate = some parsed.coordinate := by
  unfold groupMember at h
  obtain ⟨parsed, hparsed, h⟩ := bind_eq_ok.1 h
  obtain ⟨version, -, h⟩ := bind_eq_ok.1 h
  obtain ⟨outcome, hchoose, h⟩ := bind_eq_ok.1 h
  cases h
  obtain ⟨default, selected, hdependency⟩ := Dependency.choose_spec hchoose
  exact ⟨parsed, hparsed, by rw [hdependency], by rw [hdependency]⟩

theorem run_addAll : ∀ (members : List Dependency) (σ : Session),
    (members.mapM fun member => Action.change (·.addDependency member)).run σ
      = (.ok (Store.addAll members σ.store).1,
        { σ with store := (Store.addAll members σ.store).2 })
  | [], _ => rfl
  | member :: rest, σ => by
    rw [List.mapM_cons, run_bind_ok (run_change _ σ), run_bind_ok (run_addAll rest _)]
    rfl

theorem run_storeGroup (n : Namespace) (key : String) (members : List Dependency) (σ : Session) :
    (n.storeGroup key members true).run σ
      = (.ok (groupId members σ.store), { σ with store := n.grouped key members σ.store }) := by
  unfold storeGroup
  rw [run_bind_ok (run_addAll members σ), run_bind_ok (run_change _ _),
    run_bind_ok (run_update _ _)]
  rfl

/-- A key that holds a dependency holds no sub-namespace. -/
theorem run_ensureNoSub_of_entryAt? (h : σ.store.entryAt? n key = some (.dependency id)) :
    (n.ensureNoSub key).run σ = (.ok (), σ) := by
  rw [run_ensureNoSub, h]
  rfl

/-- A key that holds a dependency accepts no sub-namespace. -/
theorem storeSub_error (h : σ.store.entryAt? n key = some (.dependency id)) (sub : Namespace) :
    ∃ e, (n.storeSub key sub).run σ = (.error e, σ) := by
  unfold storeSub
  split
  · exact ⟨_, rfl⟩
  · have hown : (σ.store.ownDependency? n key).isSome := by
      unfold Store.ownDependency?
      rw [h]
      rfl
    rw [run_bind_ok (run_view _ σ), if_pos hown]
    exact ⟨_, rfl⟩

variable (hkey : σ.store.assignedKey? n key = some key')
  (hentry : σ.store.entryAt? n key' = some (.dependency id))

include hkey hentry in
/-- A dependency that the value names is copied. -/
theorem run_setHere_source (hsource : σ.store.source? n value = some source) :
    ∃ names, (n.setHere key value).run σ = (.ok (.dependency (σ.store.copy source key').1),
      { σ with store := n.replaced key' source σ.store, listed := names }) := by
  unfold setHere
  rw [run_bind_ok (run_localKey_of_assignedKey? hkey)]
  cases value with
  | dependency i =>
    obtain rfl := Option.some.inj hsource
    dsimp only
    rw [run_bind_ok (run_ensureNoSub_of_entryAt? hentry)]
    exact ⟨σ.listed, rfl⟩
  | key other =>
    dsimp only
    rw [run_bind_ok (run_read _ σ)]
    have hlookup : ((n.lookup other).answer σ.store).bind Entry.dependency? = some source := hsource
    obtain ⟨e, hfound, he⟩ := Option.bind_eq_some_iff.1 hlookup
    rw [hfound, Entry.dependency?_eq_some.1 he]
    let τ : Session := { σ with listed := (n.lookup other).listing σ }
    have hfree : (n.ensureNoSub key').run τ = (.ok (), τ) := run_ensureNoSub_of_entryAt? hentry
    dsimp only
    rw [run_bind_ok hfree]
    exact ⟨τ.listed, rfl⟩
  | text text => exact nomatch hsource
  | group specs => exact nomatch hsource
  | sub sub => exact nomatch hsource

include hkey hentry in
/-- A key that names no dependency is refused. -/
theorem setHere_key_error {other : String} (hsource : σ.store.source? n (.key other) = none) :
    ∃ e τ, (n.setHere key (.key other)).run σ = (.error e, τ) := by
  unfold setHere
  rw [run_bind_ok (run_localKey_of_assignedKey? hkey)]
  dsimp only
  rw [run_bind_ok (run_read _ σ)]
  have hlookup : ((n.lookup other).answer σ.store).bind Entry.dependency? = none := hsource
  cases hfound : (n.lookup other).answer σ.store with
  | none => exact ⟨_, _, rfl⟩
  | some e =>
    rw [hfound] at hlookup
    cases e with
    | dependency i => exact nomatch hlookup
    | sub sub =>
      obtain ⟨error, herror⟩ := storeSub_error
        (σ := { σ with listed := (n.lookup other).listing σ }) hentry sub
      exact ⟨error, _, herror⟩

include hkey hentry in
/-- A group of specs that can be read is stored. -/
theorem run_setHere_group (hne : specs.isEmpty = false)
    (hparse : specs.mapM groupMember = .ok members) :
    (n.setHere key (.group specs)).run σ = (.ok (.dependency (groupId members σ.store)),
      { σ with store := n.grouped key' members σ.store }) := by
  unfold setHere
  rw [run_bind_ok (run_localKey_of_assignedKey? hkey)]
  dsimp only
  rw [run_bind_ok (run_ensureNoSub_of_entryAt? hentry)]
  unfold useGroupAs
  rw [hne, hparse]
  refine run_bind_ok ?_ _
  show (n.storeGroup key' members true).run σ = _
  exact run_storeGroup n key' members σ

include hkey hentry in
/-- A group without specs, or with one that cannot be read, is refused. -/
theorem setHere_group_error (h : σ.store.brought? n (.group specs) = none) :
    ∃ e τ, (n.setHere key (.group specs)).run σ = (.error e, τ) := by
  unfold setHere
  rw [run_bind_ok (run_localKey_of_assignedKey? hkey)]
  dsimp only
  rw [run_bind_ok (run_ensureNoSub_of_entryAt? hentry)]
  unfold useGroupAs
  have hbrought : (if specs.isEmpty then none else (specs.mapM groupMember).toOption) = none := h
  cases hempty : specs.isEmpty with
  | true => exact ⟨_, _, rfl⟩
  | false =>
    rw [hempty] at hbrought
    cases hparse : specs.mapM groupMember with
    | ok members =>
      rw [hparse] at hbrought
      exact nomatch hbrought
    | error e => exact ⟨_, _, rfl⟩

/-! ## §3. What the key holds then. -/

/-- The copy and its members say what the source and its members say. -/
theorem rejectsUnder_replaced {s : Store} (h : s.Sound) (n : Namespace) (key : String)
    (source : DependencyId) (c : Coordinate) (r : Requirement) :
    (n.replaced key source s).RejectsUnder n key c r ↔
      ∃ d ∈ (s.withMembers source).map s.dependency, d.RejectedFor c r := by
  have hcopied := Store.copy_spec h source key
  have hentry : (n.replaced key source s).entryAt? n key
      = some (.dependency (s.copy source key).1) :=
    Store.entryAt?_insert_self _ n key _
  have hcores : (n.replaced key source s).cores
      ((n.replaced key source s).withMembers (s.copy source key).1)
      = s.cores (s.withMembers source) := by
    unfold replaced Store.withMembers Store.cores
    simp only [Store.dependency_insert, List.map_cons]
    exact congrArg₂ List.cons hcopied.core hcopied.members
  rw [Store.rejectsUnder_iff hentry, hcores]
  unfold Store.cores
  simp [Dependency.rejectedFor_core]

/-- Behind the members comes the group; what was there before them is untouched. -/
theorem dependency_grouped (s : Store) (n : Namespace) (key : String) (members : List Dependency)
    (id : DependencyId) : (n.grouped key members s).dependency id
      = if groupId members s = id then { key := key, members := (Store.addAll members s).1 }
        else (Store.addAll members s).2.dependency id := by
  unfold grouped
  rw [Store.dependency_registerMembers, Store.dependency_putEntry]
  exact Store.dependency_addDependency (Store.addAll members s).2 _ id

theorem entryAt?_grouped (s : Store) (n : Namespace) (key : String) (members : List Dependency) :
    (n.grouped key members s).entryAt? n key = some (.dependency (groupId members s)) := by
  refine Store.entryAt?_registerMembers (Store.addAll members s).1 ?_
  rw [Store.entryAt?_putEntry, if_pos ⟨rfl, rfl⟩]

/-- The group has no selection of its own, and its members are those that were read. -/
theorem rejectsUnder_grouped (s : Store) (n : Namespace) (key : String) (members : List Dependency)
    (c : Coordinate) (r : Requirement) :
    (n.grouped key members s).RejectsUnder n key c r ↔ ∃ d ∈ members, d.RejectedFor c r := by
  obtain ⟨hrecords, hissued, -, -⟩ := Store.addAll_spec members s
  let added := Store.addAll members s
  -- under the key are the group itself, which has no coordinate, and its members as they were read
  have hgroup : (n.grouped key members s).dependency (groupId members s)
      = { key := key, members := added.1 } := by
    rw [dependency_grouped, if_pos rfl]
  have hmembers : added.1.map (n.grouped key members s).dependency = members := by
    refine Eq.trans (List.map_congr_left fun id hid => ?_) hrecords
    rw [dependency_grouped]
    exact if_neg (Nat.ne_of_gt (hissued id hid))
  have hheld : (n.grouped key members s).heldUnder n key = groupId members s :: added.1 := by
    rw [Store.heldUnder_of_entryAt? (entryAt?_grouped s n key members)]
    unfold Store.withMembers
    rw [hgroup]
  unfold Store.RejectsUnder
  rw [hheld]
  constructor
  · rintro ⟨id, hid, hrejected⟩
    rcases List.mem_cons.1 hid with rfl | hmember
    · rw [hgroup] at hrejected
      exact nomatch hrejected.1
    · have hd := List.mem_map_of_mem (f := (n.grouped key members s).dependency) hmember
      rw [hmembers] at hd
      exact ⟨_, hd, hrejected⟩
  · rintro ⟨d, hd, hrejected⟩
    rw [← hmembers] at hd
    obtain ⟨id, hid, rfl⟩ := List.mem_map.1 hd
    exact ⟨id, List.mem_cons_of_mem _ hid, hrejected⟩

/-- What has been read is put in the place of what the key held. -/
theorem exists_of_brought {records : List Dependency} (hσ : σ.store.Sound)
    (hkey : σ.store.assignedKey? n key = some key')
    (hentry : σ.store.entryAt? n key' = some (.dependency id))
    (h : σ.store.brought? n value = some records) :
    ∃ e τ, (n.setHere key value).run σ = (.ok e, τ) ∧
      ∀ c r, τ.store.RejectsUnder n key' c r ↔ ∃ d ∈ records, d.RejectedFor c r := by
  -- what is named is copied, members included
  have hcopy (h : (σ.store.source? n value).map
        (fun id => (σ.store.withMembers id).map σ.store.dependency) = some records) :
      ∃ e τ, (n.setHere key value).run σ = (.ok e, τ) ∧
        ∀ c r, τ.store.RejectsUnder n key' c r ↔ ∃ d ∈ records, d.RejectedFor c r := by
    obtain ⟨source, hsource, rfl⟩ := Option.map_eq_some_iff.1 h
    obtain ⟨names, hrun⟩ := run_setHere_source hkey hentry hsource
    exact ⟨_, _, hrun, rejectsUnder_replaced hσ n key' source⟩
  cases value with
  | dependency source => exact hcopy h
  | key other => exact hcopy h
  | text text => exact hcopy h
  | sub sub => exact hcopy h
  | group specs =>
    have hbrought : (if specs.isEmpty then none else (specs.mapM groupMember).toOption)
        = some records := h
    cases hempty : specs.isEmpty with
    | true =>
      rw [hempty] at hbrought
      exact nomatch hbrought
    | false =>
      rw [hempty] at hbrought
      cases hparse : specs.mapM groupMember with
      | error e =>
        rw [hparse] at hbrought
        exact nomatch hbrought
      | ok members =>
        rw [hparse] at hbrought
        obtain rfl := Option.some.inj hbrought
        exact ⟨_, _, run_setHere_group hkey hentry hempty hparse,
          rejectsUnder_grouped σ.store n key' members⟩

/-- What cannot be read is refused. -/
theorem error_of_not_brought (hkey : σ.store.assignedKey? n key = some key')
    (hentry : σ.store.entryAt? n key' = some (.dependency id)) (hvalue : value.Replaces)
    (h : σ.store.brought? n value = none) : ∃ e τ, (n.setHere key value).run σ = (.error e, τ) := by
  cases value with
  | dependency source => exact nomatch h
  | key other => exact setHere_key_error hkey hentry (Option.map_eq_none_iff.1 h)
  | group specs => exact setHere_group_error hkey hentry h
  | text text => exact hvalue.elim
  | sub sub => exact hvalue.elim

end Namespace

namespace Assignment

variable {a : Assignment} {followsProjects : Bool} {key : String} {id : DependencyId}

/-- A dependency, another key or a group that is assigned to a key which holds a dependency takes
its place whenever it can be read, whatever that dependency has declared.  Then something that the
key holds is rejected by a requirement exactly if the value has brought something that is. -/
theorem rejected_iff (h : Session.Reached followsProjects a.session)
    (hkey : a.assigned? = some key)
    (hentry : a.session.store.entryAt? a.place key = some (.dependency id))
    (hvalue : a.value.Replaces) :
    (a.Succeeds ↔ (a.session.store.brought? a.place a.value).isSome) ∧
      ∀ e τ, (a.target.set a.key a.value).run a.session = (.ok e, τ) →
        ∃ records, a.session.store.brought? a.place a.value = some records ∧
          ∀ c r, τ.store.RejectsUnder a.place key c r ↔ ∃ d ∈ records, d.RejectedFor c r := by
  unfold Succeeds
  rw [Namespace.run_set]
  cases hbrought : a.session.store.brought? a.place a.value with
  | none =>
    obtain ⟨e, τ, hrun⟩ := Namespace.error_of_not_brought hkey hentry hvalue hbrought
    have hnot : ∀ e' τ', (a.place.setHere (a.session.store.landing a.target a.key).2 a.value).run
        a.session ≠ (.ok e', τ') := fun e' τ' hok => nomatch hrun.symm.trans hok
    refine ⟨⟨fun ⟨e', τ', hok⟩ => (hnot e' τ' hok).elim, nofun⟩, fun e' τ' hok => ?_⟩
    exact (hnot e' τ' hok).elim
  | some records =>
    obtain ⟨e, τ, hrun, hrejects⟩ := Namespace.exists_of_brought h.sound hkey hentry hbrought
    refine ⟨⟨fun _ => rfl, fun _ => ⟨e, τ, hrun⟩⟩, fun e' τ' hok => ⟨records, rfl, ?_⟩⟩
    obtain ⟨-, rfl⟩ := Prod.mk.inj (hrun.symm.trans hok)
    exact hrejects

end Assignment

namespace Namespace

/-- In the namespace `n`, `k` is declared to be at least 2, and in `m` a version of it is selected;
that dependency is then assigned to `k`. -/
def replacing (version : String) : Assignment where
  session := (Session.start true).afterAll
    [.needAs (.registered "n" 0) "k" (.text "g:i:t:>=2"),
      .set (.registered "m" 0) "q" (.text ("g:i:t:" ++ version))]
  target := .registered "n" 0
  key := "k"
  value := .dependency 1

theorem reached_replacing (version : String) :
    Session.Reached true (replacing version).session :=
  .after (.after .start trivial) trivial

/-- The session in which the assignment ends. -/
def afterReplacing (version : String) : Session :=
  (((replacing version).target.set (replacing version).key (replacing version).value).run
    (replacing version).session).2

/-- A dependency with version 3 may take the place: what `k` holds then is not rejected. -/
theorem not_rejected_replacing :
    (replacing "3").Succeeds ∧
      ∀ r, ((replacing "3").session.store.dependency 0).requirement = some r →
        ¬(afterReplacing "3").store.RejectsUnder (.registered "n" 0) "k" ⟨"g", "i", "t", none⟩ r := by
  have hplace : (replacing "3").place = .registered "n" 0 := by decide +kernel
  have hkey : (replacing "3").assigned? = some "k" := by decide +kernel
  have hentry : (replacing "3").session.store.entryAt? (replacing "3").place "k"
      = some (.dependency 0) := by decide +kernel
  have haccepts : (((replacing "3").session.store.dependency 0).requirement.bind fun r =>
      ((replacing "3").session.store.dependency 1).selected.map r.accepts) = some true := by
    decide +kernel
  have hsingle : (replacing "3").session.store.withMembers 1 = [1] := by decide +kernel
  have hbrought : (replacing "3").session.store.brought? (replacing "3").place (replacing "3").value
      = some [(replacing "3").session.store.dependency 1] :=
    congrArg (fun ids : List DependencyId =>
      some (ids.map (replacing "3").session.store.dependency)) hsingle
  obtain ⟨hiff, hrejects⟩ := Assignment.rejected_iff (reached_replacing "3") hkey hentry trivial
  obtain ⟨e, τ, hrun⟩ := hiff.2 (by rw [hbrought]; rfl)
  obtain ⟨records, hrecords, hrejected⟩ := hrejects e τ hrun
  obtain rfl := Option.some.inj (hbrought.symm.trans hrecords)
  refine ⟨⟨e, τ, hrun⟩, fun r hr => ?_⟩
  have hafter : afterReplacing "3" = τ := congrArg Prod.snd hrun
  rw [hafter, ← hplace, hrejected]
  rintro ⟨d, hd, -, v, hv, hno⟩
  obtain rfl := List.mem_singleton.1 hd
  rw [hr, Option.bind_some, hv, Option.map_some, hno] at haccepts
  exact nomatch haccepts

/-- A dependency with version 1 takes the place too, although `k` was declared to be at least 2. -/
theorem rejected_replacing :
    (replacing "1").Succeeds ∧
      (replacing "1").session.store.ownSingle? (.registered "n" 0) "k" = some 0 ∧
      ∃ c r, ((replacing "1").session.store.dependency 0).coordinate = some c ∧
        ((replacing "1").session.store.dependency 0).requirement = some r ∧
        (afterReplacing "1").store.RejectsUnder (.registered "n" 0) "k" c r := by
  have hsucceeds : (((replacing "1").target.set (replacing "1").key (replacing "1").value).run
      (replacing "1").session).1.toOption.isSome := by decide +kernel
  have hcoordinate : ((replacing "1").session.store.dependency 0).coordinate
      = some ⟨"g", "i", "t", none⟩ := by decide +kernel
  have hheld : (afterReplacing "1").store.heldUnder (.registered "n" 0) "k" = [2] := by
    decide +kernel
  have hcopied : ((afterReplacing "1").store.dependency 2).coordinate = some ⟨"g", "i", "t", none⟩ := by
    decide +kernel
  have hno : (((replacing "1").session.store.dependency 0).requirement.bind fun r =>
      ((afterReplacing "1").store.dependency 2).selected.map r.accepts) = some false := by
    decide +kernel
  obtain ⟨r, hr, hselected⟩ := Option.bind_eq_some_iff.1 hno
  obtain ⟨v, hv, hrejected⟩ := Option.map_eq_some_iff.1 hselected
  refine ⟨exists_of_isSome hsucceeds, by decide +kernel, _, r, hcoordinate, hr, 2, ?_, hcopied, v, hv,
    hrejected⟩
  rw [hheld]
  exact List.mem_cons_self

end Namespace

end DependencyScope
