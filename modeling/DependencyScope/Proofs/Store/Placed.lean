/-
  DependencyScope.Proofs.Store.Placed — what a single write changes.

  A write to a namespace puts one entry there.  Before that it may make new dependencies, change the
  record of one dependency, and have listeners make selections; none of this changes what any
  namespace holds.  A dependency that is put under a key is registered for its coordinate together
  with it, and with a group also its members are.

  What a namespace holds and finds depends on three fields of a record only: its key, its coordinate
  and its members.  Of these only the coordinate ever changes, and only from none to one.

  Main definitions:
    * `Dependency.stamp`, `Dependency.Continues` — what lasts of a record;
    * `Store.Quiet` — no namespace holds or finds anything else than before;
    * `Store.Prepares`, `Store.Ready` — a dependency is made ready for a key;
    * `Store.Finds` — the namespace finds a dependency for the coordinate;
    * `Store.Placed` — a dependency has been put under a key.

  Main results:
    * `Store.Ready.placed` — inserting a dependency places it;
    * `Store.Quiet.placed_group` — so does storing a group;
    * `Store.Placed.entryAt?_cases`, `.indexed?_cases` — what has changed then.
-/
import DependencyScope.Proofs.Namespace.Narrow
import DependencyScope.Proofs.Namespace.Replace

namespace DependencyScope

open DependencyScope.Text

/-! ## §1. What lasts of a record. -/

namespace Dependency

variable {d d' d'' : Dependency}

/-- The record without what selections and declarations change. -/
def stamp (d : Dependency) : Dependency :=
  { d with requirement := none, defaultVersion := none, selected := none, listeners := [] }

theorem key_of_stamp (h : d'.stamp = d.stamp) : d'.key = d.key :=
  (congrArg Dependency.key h : d'.stamp.key = d.stamp.key)

theorem coordinate_of_stamp (h : d'.stamp = d.stamp) : d'.coordinate = d.coordinate :=
  (congrArg Dependency.coordinate h : d'.stamp.coordinate = d.stamp.coordinate)

theorem members_of_stamp (h : d'.stamp = d.stamp) : d'.members = d.members :=
  (congrArg Dependency.members h : d'.stamp.members = d.stamp.members)

theorem unversioned_of_stamp (h : d'.stamp = d.stamp) : d'.unversioned = d.unversioned := by
  unfold unversioned
  rw [coordinate_of_stamp h]

theorem Reselects.stamp (h : d.Reselects d') : d'.stamp = d.stamp := by
  obtain ⟨selected, rfl⟩ := h.rest
  rfl

theorem stamp_of_select {text : String} (h : d.select text = .ok d') : d'.stamp = d.stamp :=
  (Reselects.of_select h).stamp

theorem stamp_of_declare {declaration : Declaration} (h : d.declare declaration = .ok d') :
    d'.stamp = d.stamp := by
  rw [declare_spec h]
  rfl

theorem stamp_of_choose {inherited : Option Requirement} {version : Option VersionText}
    {outcome : Outcome} (h : d.choose inherited version = .ok outcome) :
    outcome.dependency.stamp = d.stamp := by
  obtain ⟨default, selected, heq⟩ := choose_spec h
  rw [heq]
  rfl

/-- Taking over a selection changes neither key nor coordinate nor members. -/
theorem stamp_of_under (d : Dependency) (enclosing : Option Version) :
    (d.under enclosing).dependency.stamp = d.stamp := by
  obtain ⟨default, selected, hrest⟩ := d.under_spec enclosing
  rw [hrest]
  rfl

/-- The record `d'` is for the same key and members as `d`, and for its coordinate if it has one. -/
structure Continues (d d' : Dependency) : Prop where
  key : d'.key = d.key
  members : d'.members = d.members
  coordinate : ∀ c, d.coordinate = some c → d'.coordinate = some c

namespace Continues

theorem of_stamp (h : d'.stamp = d.stamp) : d.Continues d' where
  key := key_of_stamp h
  members := members_of_stamp h
  coordinate _ hc := (coordinate_of_stamp h).trans hc

theorem refl (d : Dependency) : d.Continues d := .of_stamp rfl

theorem trans (h : d.Continues d') (h' : d'.Continues d'') : d.Continues d'' where
  key := h'.key.trans h.key
  members := h'.members.trans h.members
  coordinate c hc := h'.coordinate c (h.coordinate c hc)

/-- A coordinate may be given to a record that may stand for it. -/
theorem located {c : Coordinate} (h : d.admits c) : d.Continues { d with coordinate := some c } where
  key := rfl
  members := rfl
  coordinate := (Narrows.located h).coordinate

theorem unversioned (h : d.Continues d') {u : String} (hu : d.unversioned = some u) :
    d'.unversioned = some u := by
  obtain ⟨c, hc, rfl⟩ := Option.map_eq_some_iff.1 hu
  unfold Dependency.unversioned
  rw [h.coordinate c hc]
  rfl

theorem isGroup (h : d.Continues d') : d'.isGroup = d.isGroup := by
  unfold Dependency.isGroup
  rw [h.members]

end Continues

end Dependency

namespace Store

variable {r s t : Store} {n m : Namespace} {key : String} {id i : DependencyId} {d : Dependency}

/-! ## §2. Steps that change no contents. -/

/-- Each namespace holds what it held, and each dependency has the stamp that it had. -/
structure Quiet (s t : Store) : Prop where
  contents : ∀ m, t.contentsOf m = s.contentsOf m
  next : s.nextDependency ≤ t.nextDependency
  stamp : ∀ i < s.nextDependency, (t.dependency i).stamp = (s.dependency i).stamp

namespace Quiet

theorem refl (s : Store) : s.Quiet s where
  contents _ := rfl
  next := Nat.le_refl _
  stamp _ _ := rfl

theorem trans (h : r.Quiet s) (h' : s.Quiet t) : r.Quiet t where
  contents m := (h'.contents m).trans (h.contents m)
  next := Nat.le_trans h.next h'.next
  stamp i hi := (h'.stamp i (Nat.lt_of_lt_of_le hi h.next)).trans (h.stamp i hi)

theorem of_reselected (h : s.Reselected t) : s.Quiet t where
  contents m := by
    unfold contentsOf
    rw [h.contents]
  next := Nat.le_of_eq h.nextDependency.symm
  stamp i _ := (h.records i).stamp

theorem of_extends (h : s.Extends t) : s.Quiet t where
  contents m := by
    unfold contentsOf
    rw [h.contents]
  next := h.dependencies
  stamp i hi := congrArg Dependency.stamp (h.kept i hi)

/-- Links, projects and serial numbers of namespaces make no difference. -/
theorem of_same (hcontents : t.contents = s.contents) (hrecords : t.dependencies = s.dependencies)
    (hnext : t.nextDependency = s.nextDependency) : s.Quiet t where
  contents m := by
    unfold contentsOf
    rw [hcontents]
  next := Nat.le_of_eq hnext.symm
  stamp i _ := by
    unfold dependency
    rw [hrecords]

theorem putDependency (h : d.stamp = (s.dependency id).stamp) : s.Quiet (s.putDependency id d) where
  contents _ := rfl
  next := Nat.le_refl _
  stamp := by
    intro i _
    rw [dependency_putDependency]
    split
    · next heq => exact heq ▸ h
    · rfl

theorem addDependency (s : Store) (d : Dependency) : s.Quiet (s.addDependency d).2 where
  contents _ := rfl
  next := Nat.le_succ _
  stamp i hi := by rw [dependency_addDependency, if_neg (Nat.ne_of_gt hi)]

theorem entryAt? (h : s.Quiet t) (m : Namespace) (key : String) :
    t.entryAt? m key = s.entryAt? m key := by
  unfold Store.entryAt?
  rw [h.contents]

theorem indexed? (h : s.Quiet t) (m : Namespace) (u : String) :
    t.indexed? m u = s.indexed? m u := by
  unfold Store.indexed?
  rw [h.contents]

end Quiet

/-- Dependencies have been made, and the record of one may have been given a coordinate.  That one is
made then. -/
structure Touches (s : Store) (id : DependencyId) (t : Store) : Prop where
  next : s.nextDependency ≤ t.nextDependency
  issued : id < t.nextDependency
  record : id < s.nextDependency → (s.dependency id).Continues (t.dependency id)
  stamp : ∀ i < s.nextDependency, i ≠ id → (t.dependency i).stamp = (s.dependency i).stamp

theorem Touches.continues (h : s.Touches id t) (hi : i < s.nextDependency) :
    (s.dependency i).Continues (t.dependency i) := by
  by_cases heq : i = id
  · subst heq
    exact h.record hi
  · exact .of_stamp (h.stamp i hi heq)

/-- Besides, no namespace holds anything else than before. -/
structure Prepares (s : Store) (id : DependencyId) (t : Store) : Prop extends s.Touches id t where
  contents : ∀ m, t.contentsOf m = s.contentsOf m

namespace Prepares

theorem start (hid : id < s.nextDependency) : s.Prepares id s where
  next := Nat.le_refl _
  issued := hid
  record _ := .refl _
  stamp _ _ _ := rfl
  contents _ := rfl

theorem of_quiet (h : s.Quiet t) (hid : id < t.nextDependency) : s.Prepares id t where
  next := h.next
  issued := hid
  record hold := .of_stamp (h.stamp id hold)
  stamp i hi _ := h.stamp i hi
  contents := h.contents

/-- The record is replaced by one that goes on from it. -/
theorem put (h : s.Prepares id t) (hd : (t.dependency id).Continues d) :
    s.Prepares id (t.putDependency id d) where
  next := h.next
  issued := h.issued
  record := by
    intro hid
    rw [dependency_putDependency, if_pos rfl]
    exact (h.record hid).trans hd
  stamp := by
    intro i hi hne
    rw [dependency_putDependency, if_neg (Ne.symm hne)]
    exact h.stamp i hi hne
  contents := h.contents

theorem trans (h : s.Prepares id r) (h' : r.Prepares id t) : s.Prepares id t where
  next := Nat.le_trans h.next h'.next
  issued := h'.issued
  record hid := (h.record hid).trans (h'.record h.issued)
  stamp i hi hne :=
    (h'.stamp i (Nat.lt_of_lt_of_le hi h.next) hne).trans (h.stamp i hi hne)
  contents m := (h'.contents m).trans (h.contents m)

theorem quiet (h : s.Prepares id r) (h' : r.Quiet t) : s.Prepares id t :=
  h.trans (.of_quiet h' (Nat.lt_of_lt_of_le h.issued h'.next))

theorem entryAt? (h : s.Prepares id t) (m : Namespace) (key : String) :
    t.entryAt? m key = s.entryAt? m key := by
  unfold Store.entryAt?
  rw [h.contents]

theorem indexed? (h : s.Prepares id t) (m : Namespace) (u : String) :
    t.indexed? m u = s.indexed? m u := by
  unfold Store.indexed?
  rw [h.contents]

end Prepares

/-- The dependency is ready to be put under a key: it is the one that the key holds, or it has been
made for the key. -/
structure Ready (s : Store) (n : Namespace) (key : String) (id : DependencyId) (t : Store) :
    Prop extends s.Prepares id t where
  own : id < s.nextDependency → s.entryAt? n key = some (.dependency id)
  label : s.nextDependency ≤ id → (t.dependency id).key = key

namespace Ready

theorem of_own (hid : id < s.nextDependency) (h : s.entryAt? n key = some (.dependency id)) :
    s.Ready n key id s where
  toPrepares := .start hid
  own _ := h
  label hnew := absurd hid (Nat.not_lt_of_le hnew)

theorem of_new (h : s.Quiet t) (hnew : s.nextDependency ≤ id) (hid : id < t.nextDependency)
    (hlabel : (t.dependency id).key = key) : s.Ready n key id t where
  toPrepares := .of_quiet h hid
  own hold := absurd hold (Nat.not_lt_of_le hnew)
  label _ := hlabel

theorem trans (h : s.Ready n key id r) (h' : r.Prepares id t) : s.Ready n key id t where
  toPrepares := h.toPrepares.trans h'
  own := h.own
  label hnew := (h'.record h.issued).key.trans (h.label hnew)

end Ready

/-! ## §3. Registering. -/

theorem contentsOf_registerMember_of_ne (s : Store) (byId : Bool) (member : DependencyId)
    (h : n ≠ m) : (n.registerMember byId s member).contentsOf m = s.contentsOf m := by
  unfold Namespace.registerMember
  dsimp only
  split
  · rw [contentsOf_putEntry, if_neg h, contentsOf_putIndex_of_ne s member h]
  · exact contentsOf_putIndex_of_ne s member h

theorem nextDependency_registerMember (s : Store) (n : Namespace) (byId : Bool)
    (member : DependencyId) :
    (n.registerMember byId s member).nextDependency = s.nextDependency := by
  unfold Namespace.registerMember
  dsimp only
  split
  · exact nextDependency_putIndex s n member
  · exact nextDependency_putIndex s n member

@[simp] theorem dependency_registerMember (s : Store) (n : Namespace) (byId : Bool)
    (member id : DependencyId) :
    (n.registerMember byId s member).dependency id = s.dependency id :=
  dependency_registerMembers n byId id [member] s

theorem indexed?_registerMember (s : Store) (n : Namespace) (byId : Bool) (member : DependencyId)
    (u : String) : (n.registerMember byId s member).indexed? n u
      = if (s.dependency member).unversioned = some u then some member else s.indexed? n u := by
  have hindex := indexed?_putIndex s n n member u
  simp only [true_and] at hindex
  unfold Namespace.registerMember
  dsimp only
  split
  · rw [indexed?_putEntry, hindex]
  · exact hindex

/-- A member is put under its own key only where that is free. -/
theorem entryAt?_registerMember (s : Store) (n : Namespace) (byId : Bool) (member : DependencyId)
    (k : String) : (n.registerMember byId s member).entryAt? n k = s.entryAt? n k ∨
      s.entryAt? n k = none ∧ k = (s.dependency member).key ∧
        (n.registerMember byId s member).entryAt? n k = some (.dependency member) := by
  unfold Namespace.registerMember
  dsimp only
  split
  · next hfree =>
    have hnone := (Bool.and_eq_true_iff.1 hfree).2
    rw [entryAt?_putIndex, dependency_putIndex] at hnone
    rw [entryAt?_putEntry, dependency_putIndex, entryAt?_putIndex]
    split
    · next heq => exact .inr ⟨heq.2 ▸ Option.isNone_iff_eq_none.1 hnone, heq.2.symm, rfl⟩
    · exact .inl rfl
  · rw [entryAt?_putIndex]
    exact .inl rfl

/-! ## §4. Finding. -/

/-- If the dependency has a coordinate, the namespace has registered one with that coordinate. -/
def Finds (s : Store) (n : Namespace) (id : DependencyId) : Prop :=
  ∀ u, (s.dependency id).unversioned = some u →
    ∃ j, s.indexed? n u = some j ∧ (s.dependency j).unversioned = some u

/-- What has been registered in the meantime is as good. -/
theorem Finds.mono (h : s.Finds n id)
    (hid : (t.dependency id).unversioned = (s.dependency id).unversioned)
    (hindex : ∀ u j, s.indexed? n u = some j → (s.dependency j).unversioned = some u →
      ∃ j', t.indexed? n u = some j' ∧ (t.dependency j').unversioned = some u) : t.Finds n id := by
  intro u hu
  rw [hid] at hu
  obtain ⟨j, hj, hsame⟩ := h u hu
  exact hindex u j hj hsame

/-- From `s` to `t`, the members of a group have been registered in `n`, and maybe put under their own
keys. -/
structure Registers (s : Store) (n : Namespace) (members : List DependencyId) (t : Store) :
    Prop where
  elsewhere : ∀ m, n ≠ m → t.contentsOf m = s.contentsOf m
  next : t.nextDependency = s.nextDependency
  dependency : ∀ i, t.dependency i = s.dependency i
  entries : ∀ k, t.entryAt? n k = s.entryAt? n k ∨ s.entryAt? n k = none ∧
    ∃ i ∈ members, k = (s.dependency i).key ∧ t.entryAt? n k = some (.dependency i)
  index : ∀ u, t.indexed? n u = s.indexed? n u ∨
    ∃ i ∈ members, t.indexed? n u = some i ∧ (s.dependency i).unversioned = some u
  found : ∀ i ∈ members, t.Finds n i

namespace Registers

theorem nil (s : Store) (n : Namespace) : s.Registers n [] s where
  elsewhere _ _ := rfl
  next := rfl
  dependency _ := rfl
  entries _ := .inl rfl
  index _ := .inl rfl
  found := by simp

theorem registerMember (s : Store) (n : Namespace) (byId : Bool) (member : DependencyId) :
    s.Registers n [member] (n.registerMember byId s member) where
  elsewhere _ hne := contentsOf_registerMember_of_ne s byId member hne
  next := nextDependency_registerMember s n byId member
  dependency i := dependency_registerMember s n byId member i
  entries := by
    intro k
    rcases entryAt?_registerMember s n byId member k with hsame | ⟨hfree, hkey, hentry⟩
    · exact .inl hsame
    · exact .inr ⟨hfree, member, List.mem_singleton_self _, hkey, hentry⟩
  index := by
    intro u
    rw [indexed?_registerMember]
    split
    · next hu => exact .inr ⟨member, List.mem_singleton_self _, rfl, hu⟩
    · exact .inl rfl
  found := by
    intro i hi u hu
    obtain rfl := List.mem_singleton.1 hi
    rw [dependency_registerMember] at hu
    refine ⟨i, ?_, ?_⟩
    · rw [indexed?_registerMember, if_pos hu]
    · rw [dependency_registerMember, hu]

/-- What is registered first may be replaced, but only by something with the same coordinate. -/
theorem append {first later : List DependencyId} (h : r.Registers n first s)
    (h' : s.Registers n later t) : r.Registers n (first ++ later) t where
  elsewhere m hne := (h'.elsewhere m hne).trans (h.elsewhere m hne)
  next := h'.next.trans h.next
  dependency i := (h'.dependency i).trans (h.dependency i)
  entries := by
    intro k
    rcases h'.entries k with hsame | ⟨hfree, i, hi, hkey, hentry⟩
    · rw [hsame]
      rcases h.entries k with hbefore | ⟨hfree, i, hi, hkey, hentry⟩
      · exact .inl hbefore
      · exact .inr ⟨hfree, i, List.mem_append_left _ hi, hkey, hentry⟩
    -- a member registered later takes a key only if it was free from the start
    · refine .inr ⟨?_, i, List.mem_append_right _ hi, ?_, hentry⟩
      · rcases h.entries k with hbefore | ⟨hfree, -⟩
        · exact hbefore.symm.trans hfree
        · exact hfree
      · rw [hkey, h.dependency]
  index := by
    intro u
    rcases h'.index u with hsame | ⟨i, hi, hindexed, hu⟩
    · rw [hsame]
      rcases h.index u with hbefore | ⟨i, hi, hindexed, hu⟩
      · exact .inl hbefore
      · exact .inr ⟨i, List.mem_append_left _ hi, hindexed, hu⟩
    · rw [h.dependency] at hu
      exact .inr ⟨i, List.mem_append_right _ hi, hindexed, hu⟩
  found := by
    intro i hi
    rcases List.mem_append.1 hi with hfirst | hlater
    · refine (h.found i hfirst).mono (by rw [h'.dependency]) fun u j hj hu => ?_
      -- what a later member replaces has the same coordinate
      rcases h'.index u with hsame | ⟨i', -, hindexed, hu'⟩
      · exact ⟨j, hsame.trans hj, by rw [h'.dependency, hu]⟩
      · exact ⟨i', hindexed, by rw [h'.dependency, hu']⟩
    · exact h'.found i hlater

theorem registerMembers (n : Namespace) (byId : Bool) :
    ∀ (members : List DependencyId) (s : Store),
      s.Registers n members (members.foldl (n.registerMember byId) s)
  | [], s => .nil s n
  | member :: rest, s =>
    (registerMember s n byId member).append (registerMembers n byId rest _)

end Registers

/-! ## §5. Placing a dependency. -/

/-- In the store `t`, the dependency `id` has been put under a key of `n` that held no sub-namespace,
and what has been registered in `n` is that dependency or a member of it.  Members may have been put
under their own keys where these were free.  All keys that are written have `K`. -/
structure Placed (K : String → Prop) (s : Store) (n : Namespace) (key : String) (id : DependencyId)
    (t : Store) : Prop extends s.Touches id t where
  elsewhere : ∀ m, n ≠ m → t.contentsOf m = s.contentsOf m
  name : K key
  free : ∀ sub, s.entryAt? n key ≠ some (.sub sub)
  /-- A dependency that was there before is the one that the key held. -/
  own : id < s.nextDependency → s.entryAt? n key = some (.dependency id)
  label : s.nextDependency ≤ id → (t.dependency id).key = key
  entry : t.entryAt? n key = some (.dependency id)
  entries : ∀ k, k ≠ key → t.entryAt? n k = s.entryAt? n k ∨ s.entryAt? n k = none ∧
    ∃ i ∈ (t.dependency id).members, k = (t.dependency i).key ∧ K k ∧
      t.entryAt? n k = some (.dependency i) ∧ t.Finds n i
  index : ∀ u, t.indexed? n u = s.indexed? n u ∨
    ∃ i, t.indexed? n u = some i ∧ (t.dependency i).unversioned = some u ∧
      (i = id ∨ i ∈ (t.dependency id).members ∧ K (t.dependency i).key)
  found : t.Finds n id

variable {K : String → Prop}

/-- Inserting a dependency places it. -/
theorem Ready.placed (h : s.Ready n key id t) (hname : K key)
    (hfree : ∀ sub, s.entryAt? n key ≠ some (.sub sub)) :
    s.Placed K n key id (t.insert n key id) where
  next := by
    unfold insert
    rw [nextDependency_putIndex]
    exact h.next
  issued := by
    unfold insert
    rw [nextDependency_putIndex]
    exact h.issued
  record := by
    rw [dependency_insert]
    exact h.record
  stamp := by
    intro i
    rw [dependency_insert]
    exact h.stamp i
  elsewhere := by
    intro m hne
    unfold insert
    rw [contentsOf_putIndex_of_ne _ _ hne, contentsOf_putEntry, if_neg hne, h.contents]
  name := hname
  free := hfree
  own := h.own
  label := by
    rw [dependency_insert]
    exact h.label
  entry := entryAt?_insert_self t n key id
  entries := by
    intro k hk
    -- other keys hold what they held
    rw [entryAt?_insert, if_neg fun heq => hk heq.2.symm, h.entryAt?]
    exact .inl rfl
  index := by
    intro u
    unfold insert
    rw [indexed?_putIndex, indexed?_putEntry, dependency_putEntry, h.indexed?]
    split
    -- the coordinate of the dependency itself is registered anew
    · next hu => exact .inr ⟨id, rfl, by simpa using hu.2, .inl rfl⟩
    · exact .inl rfl
  found := by
    intro u hu
    rw [dependency_insert] at hu
    refine ⟨id, ?_, by rw [dependency_insert, hu]⟩
    unfold insert
    rw [indexed?_putIndex, dependency_putEntry, if_pos ⟨rfl, hu⟩]

/-- Storing a new group places it. -/
theorem Quiet.placed_group {members : List DependencyId} {byId : Bool} (h : s.Quiet t)
    (hname : K key) (hfree : ∀ sub, s.entryAt? n key ≠ some (.sub sub))
    (hnew : s.nextDependency ≤ id) (hissued : id < t.nextDependency)
    (hrecord : t.dependency id = { key := key, members := members })
    (hlabels : ∀ i ∈ members, K (t.dependency i).key) :
    s.Placed K n key id
      (members.foldl (n.registerMember byId) (t.putEntry n key (.dependency id))) := by
  have hregisters := Registers.registerMembers n byId members (t.putEntry n key (.dependency id))
  generalize members.foldl (n.registerMember byId) (t.putEntry n key (.dependency id)) = u
    at hregisters
  have hdependency (i : DependencyId) : u.dependency i = t.dependency i := hregisters.dependency i
  have hmembers : (u.dependency id).members = members := by rw [hdependency, hrecord]
  have hput : (t.putEntry n key (.dependency id)).entryAt? n key = some (.dependency id) := by
    rw [entryAt?_putEntry, if_pos ⟨rfl, rfl⟩]
  refine {
    next := Nat.le_trans h.next (Nat.le_of_eq hregisters.next.symm)
    issued := Nat.lt_of_lt_of_eq hissued hregisters.next.symm
    record := fun hold => absurd hold (Nat.not_lt_of_le hnew)
    stamp := fun i hi _ => by rw [hdependency, h.stamp i hi]
    elsewhere := fun m hne => ?_
    name := hname
    free := hfree
    own := fun hold => absurd hold (Nat.not_lt_of_le hnew)
    label := fun _ => by rw [hdependency, hrecord]
    entry := ?_
    entries := fun k hk => ?_
    index := fun v => ?_
    found := fun v hv => ?_ }
  · rw [hregisters.elsewhere m hne, contentsOf_putEntry, if_neg hne, h.contents]
  · rcases hregisters.entries key with hsame | ⟨hnone, -⟩
    · exact hsame.trans hput
    · exact nomatch hput.symm.trans hnone
  · have hbefore : (t.putEntry n key (.dependency id)).entryAt? n k = s.entryAt? n k := by
      rw [entryAt?_putEntry, if_neg fun heq => hk heq.2.symm, h.entryAt?]
    rcases hregisters.entries k with hsame | ⟨hnone, i, hi, hkey, hentry⟩
    · exact .inl (hsame.trans hbefore)
    · rw [dependency_putEntry] at hkey
      refine .inr ⟨hbefore.symm.trans hnone, i, hmembers ▸ hi, by rw [hdependency, hkey], ?_, hentry,
        hregisters.found i hi⟩
      rw [hkey]
      exact hlabels i hi
  · rcases hregisters.index v with hsame | ⟨i, hi, hindexed, hv⟩
    · rw [indexed?_putEntry, h.indexed?] at hsame
      exact .inl hsame
    · rw [dependency_putEntry] at hv
      refine .inr ⟨i, hindexed, by rw [hdependency, hv], .inr ⟨hmembers ▸ hi, ?_⟩⟩
      rw [hdependency]
      exact hlabels i hi
  -- a new group has no coordinate of its own
  · rw [hdependency, hrecord] at hv
    exact nomatch hv

namespace Placed

/-- Only the namespace itself gets entries: the dependency under its key, and members under free
ones. -/
theorem entryAt?_cases (h : s.Placed K n key id t) (m : Namespace) (k : String) :
    t.entryAt? m k = s.entryAt? m k ∨ n = m ∧ (k = key ∨ s.entryAt? m k = none ∧
      ∃ i ∈ (t.dependency id).members, k = (t.dependency i).key ∧ K k ∧
        t.entryAt? m k = some (.dependency i) ∧ t.Finds m i) := by
  by_cases hm : n = m
  · subst hm
    by_cases hk : k = key
    · exact .inr ⟨rfl, .inl hk⟩
    · exact (h.entries k hk).imp_right fun hmember => ⟨rfl, .inr hmember⟩
  · refine .inl ?_
    unfold entryAt?
    rw [h.elsewhere m hm]

/-- And only there something is registered. -/
theorem indexed?_cases (h : s.Placed K n key id t) (m : Namespace) (u : String) :
    t.indexed? m u = s.indexed? m u ∨ n = m ∧ ∃ i, t.indexed? m u = some i ∧
      (t.dependency i).unversioned = some u ∧
        (i = id ∨ i ∈ (t.dependency id).members ∧ K (t.dependency i).key) := by
  by_cases hm : n = m
  · subst hm
    exact (h.index u).imp_right fun hregistered => ⟨rfl, hregistered⟩
  · refine .inl ?_
    unfold indexed?
    rw [h.elsewhere m hm]

/-- Selections that follow leave the dependency where it is. -/
theorem reselected (h : s.Placed K n key id r) (h' : r.Reselected t) :
    s.Placed K n key id t := by
  have hquiet := Quiet.of_reselected h'
  have hstamp (i : DependencyId) : (t.dependency i).stamp = (r.dependency i).stamp :=
    (h'.records i).stamp
  have hkey (i : DependencyId) := Dependency.key_of_stamp (hstamp i)
  have hmembers := Dependency.members_of_stamp (hstamp id)
  have hunversioned (i : DependencyId) := Dependency.unversioned_of_stamp (hstamp i)
  -- whatever was found is found, since selections touch neither index nor coordinates
  have hfinds {i : DependencyId} (hi : r.Finds n i) : t.Finds n i :=
    hi.mono (hunversioned i) fun u j hj hu =>
      ⟨j, (hquiet.indexed? n u).trans hj, (hunversioned j).trans hu⟩
  refine {
    next := Nat.le_trans h.next hquiet.next
    issued := Nat.lt_of_lt_of_le h.issued hquiet.next
    record := fun hid => (h.record hid).trans (.of_stamp (hstamp id))
    stamp := fun i hi hne => (hstamp i).trans (h.stamp i hi hne)
    elsewhere := fun m hne => (hquiet.contents m).trans (h.elsewhere m hne)
    name := h.name
    free := h.free
    own := h.own
    label := fun hnew => (hkey id).trans (h.label hnew)
    entry := (hquiet.entryAt? n key).trans h.entry
    entries := fun k hk => ?_
    index := fun u => ?_
    found := hfinds h.found }
  · rw [hquiet.entryAt?, hmembers]
    rcases h.entries k hk with hsame | ⟨hnone, i, hi, hlabel, hk', hentry, hfound⟩
    · exact .inl hsame
    · exact .inr ⟨hnone, i, hi, hlabel.trans (hkey i).symm, hk', hentry, hfinds hfound⟩
  · rw [hquiet.indexed?, hmembers]
    rcases h.index u with hsame | ⟨i, hindexed, hu, hi⟩
    · exact .inl hsame
    · rw [hunversioned i |>.symm] at hu
      exact .inr ⟨i, hindexed, hu, by rwa [hkey i]⟩

end Placed

end Store

end DependencyScope
