/-
  DependencyScope.Proofs.Namespace.Writing — each write to a namespace puts one entry there.

  Whatever a write is, it comes to one of four things: it changes no contents, it places a
  dependency, it links a namespace, or it puts a dependency under one more key as an alias.  A write
  that fails changes no contents, except that an alias may have copied what it was to be made for.

  Main definitions:
    * `AdmitsNames` — a property of keys that every plain name has;
    * `Store.Labelled` — the keys of all entries and dependencies have a property;
    * `Store.Put`, `Store.Wrote` — what a single write comes to.

  Main results:
    * `Namespace.ends_useSpecAs_placed`, `.ends_declareAs`, `.ends_storeGroup`, `.ends_storeCopy` —
      the ways in which dependencies are placed;
    * `Namespace.writes_set`, `.writes_need`, `.writes_needAs`, `.writes_require`,
      `.places_useInherited`, `.writes_openSub`, `.put_useSpec`, `.wrote_addAlias` — the writes of a
      client.
-/
import DependencyScope.Proofs.Coordinate
import DependencyScope.Proofs.Namespace.Declare
import DependencyScope.Proofs.Session.Outside
import DependencyScope.Proofs.Store.Placed

namespace DependencyScope

open DependencyScope.Text DependencyScope.Action

/-! ## §1. Names. -/

theorem looksLikeSpec_trim (s : String) : looksLikeSpec (trim s) = looksLikeSpec s := by
  unfold looksLikeSpec
  rw [colons_trim]

/-- Every name without blank ends and without the shape of a spec has the property. -/
def AdmitsNames (K : String → Prop) : Prop :=
  ∀ key, trim key = key → looksLikeSpec key = false → K key

theorem suffix_of_splitCompound {entries : Std.TreeMap String Entry} {before key rest : List Char}
    {sub : Namespace} (h : splitCompound entries before key = some (sub, rest)) : rest <:+ key := by
  induction key generalizing before with
  | nil => exact nomatch h
  | cons c key ih =>
    unfold splitCompound at h
    dsimp only at h
    split at h
    · split at h
      · cases h
        exact List.suffix_cons c _
      · exact (ih h).trans (List.suffix_cons c key)
    · exact (ih h).trans (List.suffix_cons c key)

/-- What is left of a compound name is a name. -/
theorem looksLikeSpec_of_compoundSplit {entries : Std.TreeMap String Entry} {key rest : String}
    {sub : Namespace} (h : compoundSplit entries key = some (sub, rest))
    (hkey : looksLikeSpec key = false) : looksLikeSpec rest = false := by
  unfold compoundSplit at h
  obtain ⟨⟨m, chars⟩, hsplit, heq⟩ := Option.map_eq_some_iff.1 h
  cases heq
  have hcount := (suffix_of_splitCompound hsplit).sublist.count_le ':'
  unfold looksLikeSpec colons at hkey ⊢
  rw [String.toList_ofList]
  simp only [decide_eq_false_iff_not] at hkey ⊢
  omega

/-- A name leads to a name. -/
theorem Store.landing_name {s : Store} (n : Namespace) (key : String)
    (h : looksLikeSpec key = false) :
    trim (s.landing n key).2 = (s.landing n key).2 ∧
      looksLikeSpec (s.landing n key).2 = false := by
  have hhere (key : String) (h : looksLikeSpec key = false) :
      trim (trim key) = trim key ∧ looksLikeSpec (trim key) = false :=
    ⟨trim_trim key, (looksLikeSpec_trim key).trans h⟩
  induction n, key using Store.landing.induct (s := s) with
  | case1 n key hheld =>
    rw [landing_of_direct hheld]
    exact hhere key h
  | case2 n key hnot sub rest hfound ih =>
    rw [landing_of_some hnot hfound]
    exact ih (looksLikeSpec_of_compoundSplit hfound ((looksLikeSpec_trim key).trans h))
  | case3 n key hnot hnone =>
    rw [landing_of_none hnot hnone]
    exact hhere key h

/-- A key with the property leads to one. -/
theorem AdmitsNames.landing {K : String → Prop} (hK : AdmitsNames K) (s : Store) (n : Namespace)
    {key : String} (h : K (trim key)) : K (s.landing n key).2 := by
  cases hspec : looksLikeSpec key with
  | true =>
    rw [Store.landing_of_direct (by rw [looksLikeSpec_trim, hspec, Bool.true_or])]
    exact h
  | false =>
    obtain ⟨htrim, hplain⟩ := s.landing_name n key hspec
    exact hK _ htrim hplain

/-- A part of a spec is a name. -/
theorem AdmitsNames.part {K : String → Prop} (hK : AdmitsNames K) {part : String}
    (h : IsPart part) : K part := by
  refine hK part h.trim ?_
  unfold looksLikeSpec colons
  rw [List.count_eq_zero.2 h.plain]
  rfl

/-- So is the key of a need spec, but that may be given as any text. -/
theorem NeedSpec.trim_key {text : String} {need : NeedSpec} (h : parse text = .ok need) :
    trim need.key = need.key := by
  obtain ⟨coordinate, hspec⟩ := exists_of_parse h
  have hid : trim need.spec.coordinate.id = need.spec.coordinate.id :=
    (Spec.wellFormed_of_parse hspec).coordinate.id.trim
  unfold parse at h
  split at h
  · exact nomatch h
  · next name coordinate requirement hpieces =>
    obtain ⟨spec, -, rfl⟩ := map_eq_ok.1 h
    have htrim : ∀ piece ∈ (splitOnArrow text).map trim, trim piece = piece := by
      intro piece hpiece
      obtain ⟨raw, -, rfl⟩ := List.mem_map.1 hpiece
      exact trim_trim raw
    have hname : ∀ given ∈ name, trim given = given := by
      intro given hgiven
      generalize (splitOnArrow text).map trim = pieces at hpieces htrim
      unfold pieces? at hpieces
      split at hpieces
      · cases hpieces
        exact nomatch hgiven
      · split at hpieces <;> cases hpieces
        · exact nomatch hgiven
        · exact htrim given (by simp [Option.mem_some_iff.1 hgiven])
      · cases hpieces
        exact htrim given (by simp [Option.mem_some_iff.1 hgiven])
      · exact nomatch hpieces
    unfold key
    dsimp only at hid ⊢
    cases hfiltered : name.filter (· ≠ "") with
    | none => exact hid
    | some given => exact hname given (Option.filter_eq_some_iff.1 hfiltered).1

/-! ## §2. What a write comes to. -/

namespace Store

/-- The keys of all entries have the property, and so do the keys of the dependencies that
namespaces hold, by an entry or for a coordinate. -/
structure Labelled (K : String → Prop) (s : Store) : Prop where
  entries : ∀ n key e, s.entryAt? n key = some e → K key
  held : ∀ n key id, s.entryAt? n key = some (.dependency id) → K (s.dependency id).key
  index : ∀ n u id, s.indexed? n u = some id → K (s.dependency id).key

theorem Labelled.of_true (s : Store) : s.Labelled fun _ => True where
  entries _ _ _ _ := trivial
  held _ _ _ _ := trivial
  index _ _ _ _ := trivial

/-- Some namespace holds the dependency, by an entry or for a coordinate. -/
def Known (s : Store) (id : DependencyId) : Prop :=
  ∃ m, (∃ key, s.entryAt? m key = some (.dependency id)) ∨ ∃ u, s.indexed? m u = some id

/-- What a look-up finds is known. -/
theorem known_of_localEntry {s : Store} {n : Namespace} {key : String} {id : DependencyId}
    (h : s.localEntry n key = some (.dependency id)) : s.Known id := by
  obtain ⟨m, -, ⟨key', hown⟩ | ⟨u, hindexed⟩⟩ := exists_of_localEntry h
  · exact ⟨m, .inl ⟨key', ownDependency?_eq_some.1 hown⟩⟩
  · exact ⟨m, .inr ⟨u, hindexed⟩⟩

theorem Labelled.known {K : String → Prop} {s : Store} {id : DependencyId} (h : s.Labelled K)
    (hid : s.Known id) : K (s.dependency id).key := by
  obtain ⟨m, ⟨key, hentry⟩ | ⟨u, hindexed⟩⟩ := hid
  · exact h.held m key id hentry
  · exact h.index m u id hindexed

/-- The store that an alias finds: either nothing has changed yet, or a copy has been placed. -/
def Sourced (K : String → Prop) (s : Store) (id : DependencyId) (t : Store) : Prop :=
  (s.Quiet t ∨ ∃ n key, s.Placed K n key id t) ∧ t.Known id

/-- Each dependency is there for the key and the members that it has been made for. -/
structure Lasts (s t : Store) : Prop where
  next : s.nextDependency ≤ t.nextDependency
  key : ∀ i < s.nextDependency, (t.dependency i).key = (s.dependency i).key
  members : ∀ i < s.nextDependency, (t.dependency i).members = (s.dependency i).members

namespace Lasts

variable {r s t : Store}

theorem of_continues (hnext : s.nextDependency ≤ t.nextDependency)
    (h : ∀ i < s.nextDependency, (s.dependency i).Continues (t.dependency i)) : s.Lasts t where
  next := hnext
  key i hi := (h i hi).key
  members i hi := (h i hi).members

theorem of_dependency (hnext : t.nextDependency = s.nextDependency)
    (h : ∀ i, t.dependency i = s.dependency i) : s.Lasts t :=
  .of_continues (Nat.le_of_eq hnext.symm) fun i _ => h i ▸ .refl _

theorem refl (s : Store) : s.Lasts s := .of_dependency rfl fun _ => rfl

theorem trans (h : r.Lasts s) (h' : s.Lasts t) : r.Lasts t where
  next := Nat.le_trans h.next h'.next
  key i hi := (h'.key i (Nat.lt_of_lt_of_le hi h.next)).trans (h.key i hi)
  members i hi := (h'.members i (Nat.lt_of_lt_of_le hi h.next)).trans (h.members i hi)

theorem of_quiet (h : s.Quiet t) : s.Lasts t :=
  .of_continues h.next fun i hi => .of_stamp (h.stamp i hi)

theorem of_touches {id : DependencyId} (h : s.Touches id t) : s.Lasts t :=
  .of_continues h.next fun _ hi => h.continues hi

theorem putEntry (h : s.Lasts t) (n : Namespace) (key : String) (e : Entry) :
    s.Lasts (t.putEntry n key e) := { h with }

/-- Where a dependency is put back, it has the key and the members that it would have had. -/
theorem same_restoreBelow (h : s.Lasts t) (hs : s.Sound) (n : Namespace) (i : DependencyId) :
    ((t.restoreBelow s [n]).dependency i).key = (t.dependency i).key ∧
      ((t.restoreBelow s [n]).dependency i).members = (t.dependency i).members := by
  rw [dependency_restoreBelow]
  split
  · next hheld =>
    have hi := hs.ordered.lt_of_mem_heldIn hheld
    exact ⟨(h.key i hi).symm, (h.members i hi).symm⟩
  · exact ⟨rfl, rfl⟩

end Lasts

/-- What a single write other than an alias makes of the store `s`; all keys that are written have
`K`. -/
inductive Put (K : String → Prop) (s : Store) : Store → Prop where
  | quiet {t : Store} : s.Quiet t → Put K s t
  | placed {n : Namespace} {key : String} {id : DependencyId} {t : Store} :
      s.Placed K n key id t → Put K s t
  | linked {n : Namespace} {key : String} {sub : Namespace} {r : Store} : s.Quiet r →
      (∀ id, r.entryAt? n key ≠ some (.dependency id)) → K key →
      Put K s (r.putEntry n key (.sub sub))

/-- What any single write makes of it. -/
inductive Wrote (K : String → Prop) (s : Store) : Store → Prop where
  | put {t : Store} : s.Put K t → Wrote K s t
  | aliased {n : Namespace} {key : String} {id : DependencyId} {r : Store} : s.Sourced K id r →
      (∀ sub, r.entryAt? n key ≠ some (.sub sub)) → K key →
      Wrote K s (r.putEntry n key (.dependency id))

theorem Sourced.put {K : String → Prop} {s t : Store} {id : DependencyId}
    (h : s.Sourced K id t) : s.Put K t := by
  obtain ⟨hquiet | ⟨n, key, hplaced⟩, -⟩ := h
  · exact .quiet hquiet
  · exact .placed hplaced

theorem Put.lasts {K : String → Prop} {s t : Store} (h : s.Put K t) : s.Lasts t := by
  cases h with
  | quiet hquiet => exact .of_quiet hquiet
  | placed hplaced => exact .of_touches hplaced.toTouches
  | linked hquiet => exact (Lasts.of_quiet hquiet).putEntry _ _ _

theorem Wrote.lasts {K : String → Prop} {s t : Store} (h : s.Wrote K t) : s.Lasts t := by
  cases h with
  | put hput => exact hput.lasts
  | aliased hsourced => exact hsourced.put.lasts.putEntry _ _ _

/-- The key of an assignment has the property. -/
theorem Labelled.assigned {K : String → Prop} (hK : AdmitsNames K) {s : Store}
    (h : s.Labelled K) {n : Namespace} {key key' : String} (htrim : trim key = key)
    (hkey : s.assignedKey? n key = some key') : K key' := by
  unfold assignedKey? at hkey
  split at hkey
  · obtain ⟨id, hfound, rfl⟩ := Option.map_eq_some_iff.1 hkey
    obtain ⟨e, hentry, he⟩ := Option.bind_eq_some_iff.1 hfound
    rw [Entry.dependency?_eq_some.1 he] at hentry
    exact h.known (known_of_localEntry hentry)
  · next hplain =>
    cases hkey
    exact hK key htrim (by simpa using hplain)

theorem trim_landing (s : Store) (n : Namespace) (key : String) :
    trim (s.landing n key).2 = (s.landing n key).2 :=
  AdmitsNames.landing (K := fun key => trim key = key) (fun _ htrim _ => htrim) s n (trim_trim key)

end Store

/-! ## §3. The judgement. -/

namespace Action

variable {α β : Type} {K : String → Prop} {act : Action α} {f : α → Action β} {σ τ : Session}

theorem Ends.imp {C C' : α → Session → Prop} {E E' : Session → Prop} (h : Ends act C E σ)
    (hC : ∀ a τ, C a τ → C' a τ) (hE : ∀ τ, E τ → E' τ) : Ends act C' E' σ :=
  ⟨fun a τ hrun => hC a τ (h.1 a τ hrun), fun e τ hrun => hE τ (h.2 e τ hrun)⟩

/-- What both ends have, the end has. -/
theorem Ends.last {C : Session → Prop} (h : Ends act (fun _ τ => C τ) C σ) : C (act.run σ).2 := by
  rcases hrun : act.run σ with ⟨result, τ⟩
  cases result with
  | ok a => exact h.1 a τ hrun
  | error e => exact h.2 e τ hrun

theorem Ends.bind_ok {C : β → Session → Prop} {E : Session → Prop} {a : α}
    (hrun : act.run σ = (.ok a, τ)) (h : Ends (f a) C E τ) : Ends (act >>= f) C E σ :=
  .of_run (run_bind_ok hrun f) h

theorem Ends.bind_ofExcept {C : β → Session → Prop} {E : Session → Prop} {result : Except Error α}
    (hE : E σ) (h : ∀ a, result = .ok a → Ends (f a) C E σ) :
    Ends (Action.ofExcept result >>= f) C E σ := by
  cases hresult : result with
  | error e => exact .of_error (run_bind_error (run_ofExcept _ σ) f) hE
  | ok a => exact .bind_ok (run_ofExcept _ σ) (h a hresult)

theorem Ends.guarded {c : Prop} [Decidable c] {e : Error} {g : PUnit → Action β}
    {C : β → Session → Prop} {E : Session → Prop} (hE : E σ) (h : ¬c → Ends (g ⟨⟩) C E σ) :
    Ends (if c then (MonadExcept.throw e : Action PUnit) >>= g else g ⟨⟩) C E σ := by
  split
  · exact .of_error (run_bind_error (run_throw e σ) g) hE
  · next hc => exact h hc

/-- Steps for each of several values that leave the store as it is. -/
theorem Ends.mapM {γ : Type} {g : γ → Action α} {Q : α → Prop} {J : Session → Prop} :
    ∀ (cs : List γ) {σ : Session}, J σ →
      (∀ c ∈ cs, ∀ τ, J τ → Ends (g c) (fun a υ => Q a ∧ J υ) J τ) →
      Ends (cs.mapM g) (fun as υ => (∀ a ∈ as, Q a) ∧ J υ) J σ
  | [], _, hσ, _ => .of_ok rfl ⟨by simp, hσ⟩
  | c :: cs, σ, hσ, h => by
    rw [List.forall_mem_cons] at h
    rw [List.mapM_cons]
    refine .bind ((h.1 σ hσ).imp (fun a τ ha => ?_) fun _ hτ => hτ)
    refine .map ((mapM cs ha.2 h.2).imp (fun as υ has => ?_) fun _ hυ => hυ)
    exact ⟨List.forall_mem_cons.2 ⟨ha.1, has.1⟩, has.2⟩

/-- Only what fails is undone. -/
theorem Ends.restoring {C : α → Session → Prop} {E : Session → Prop}
    {undo : Session → Session → Session} (h : Ends act C E σ) :
    Ends (Action.restoring undo act) C (fun τ => ∃ mid, E mid ∧ τ = undo σ mid) σ := by
  refine ⟨fun a τ hrun => h.1 a τ (run_of_restoring_ok hrun), fun e τ hrun => ?_⟩
  obtain ⟨mid, hmid, heq⟩ := exists_of_restoring_error hrun
  exact ⟨mid, h.2 e mid hmid, heq⟩

/-- Listeners that are held back make their selections after a success. -/
theorem Ends.deferring {C E : Store → Prop}
    (h : Ends act (fun _ τ => C τ.store) (fun τ => E τ.store) (held σ)) :
    Ends (Action.deferring act) (fun _ τ => ∃ mid, C mid ∧ mid.Reselected τ.store)
      (fun τ => E τ.store) σ := by
  refine ⟨fun a τ hrun => ?_, fun e τ hrun => ?_⟩
  · obtain ⟨mid, hmid, hreselected⟩ := exists_of_deferring_ok hrun
    exact ⟨mid.store, h.1 a mid hmid, hreselected⟩
  · obtain ⟨mid, waiting, hmid, rfl, -⟩ := exists_of_deferring_error hrun
    exact h.2 e mid hmid

/-- A batch that fails puts back what was held below its namespace. -/
theorem Ends.atomically {n : Namespace} {C E : Store → Prop}
    (h : Ends act (fun _ τ => C τ.store) (fun τ => E τ.store) (held σ)) :
    Ends (Action.atomically n act) (fun _ τ => ∃ mid, C mid ∧ mid.Reselected τ.store)
      (fun τ => ∃ mid, E mid ∧ τ.store = mid.restoreBelow σ.store [n]) σ := by
  unfold Action.atomically
  refine Ends.deferring (E := fun s => ∃ mid, E mid ∧ s = mid.restoreBelow σ.store [n])
    ((Ends.restoring h).imp (fun _ _ hC => hC) fun τ hτ => ?_)
  obtain ⟨mid, hmid, rfl⟩ := hτ
  exact ⟨mid.store, hmid, rfl⟩

/-- The action either writes once, or it fails and changes no contents. -/
def Writes (K : String → Prop) (act : Action α) (σ : Session) : Prop :=
  Ends act (fun _ τ => σ.store.Put K τ.store) (fun τ => σ.store.Quiet τ.store) σ

/-- The action either puts the dependency that it yields under the key, or it fails and changes no
contents. -/
def Places (K : String → Prop) (n : Namespace) (key : String) (act : Action DependencyId)
    (σ : Session) : Prop :=
  Ends act (fun id τ => σ.store.Placed K n key id τ.store) (fun τ => σ.store.Quiet τ.store) σ

theorem Places.writes {n : Namespace} {key : String} {act : Action DependencyId}
    (h : Places K n key act σ) : Writes K act σ :=
  Ends.imp h (fun _ _ => .placed) fun _ => id

theorem Writes.map {g : α → β} (h : Writes K act σ) : Writes K (do return g (← act)) σ :=
  Ends.map h

theorem Writes.put (h : Writes K act σ) : σ.store.Put K (act.run σ).2.store :=
  Ends.last (h.imp (fun _ _ => id) fun _ => .quiet)

end Action

/-! ## §4. Placing dependencies. -/

theorem Store.key_copy (s : Store) (id : DependencyId) (key : String) :
    ((s.copy id key).2.dependency (s.copy id key).1).key = key := by
  obtain ⟨members, hrecord⟩ := s.dependency_copyWithin id id key
  exact congrArg Dependency.key hrecord

theorem Store.quiet_addAll (members : List Dependency) (s : Store) :
    s.Quiet (addAll members s).2 := by
  obtain ⟨-, -, hnext, hkept⟩ := addAll_spec members s
  refine ⟨fun m => ?_, hnext, fun i hi => by rw [hkept i hi]⟩
  unfold contentsOf
  rw [contents_addAll]

namespace Namespace

variable {K : String → Prop} {n : Namespace} {key : String} {σ : Session}

/-- A key that holds a sub-namespace is refused. -/
theorem ends_ensureNoSub {β : Type} {f : Unit → Action β} {C : β → Session → Prop}
    {E : Session → Prop} (hE : E σ)
    (h : (∀ sub, σ.store.entryAt? n key ≠ some (.sub sub)) → Ends (f ()) C E σ) :
    Ends (n.ensureNoSub key >>= f) C E σ := by
  have hensure := n.run_ensureNoSub key σ
  split at hensure
  · next hnone =>
    refine .bind_ok hensure (h fun sub hsub => ?_)
    rw [hsub] at hnone
    exact nomatch hnone
  · exact .of_error (run_bind_error hensure f) hE

/-- Inserting a dependency that is ready for the key places it. -/
theorem places_insert {s : Store} {id : DependencyId} (h : s.Ready n key id σ.store)
    (hname : K key) (hfree : ∀ sub, s.entryAt? n key ≠ some (.sub sub)) :
    Ends (do Action.update (·.insert n key id); return id)
      (fun id τ => s.Placed K n key id τ.store) (fun τ => s.Quiet τ.store) σ :=
  .of_ok rfl (h.placed hname hfree)

theorem ends_storeCopy (hσ : σ.store.Sound) (hname : K key)
    (hfree : ∀ sub, σ.store.entryAt? n key ≠ some (.sub sub)) (source : DependencyId) :
    Places K n key (n.storeCopy key source) σ := by
  have hcopied := Store.copy_spec hσ source key
  unfold Places storeCopy
  refine .bind_ok (run_change _ σ) (places_insert ?_ hname hfree)
  exact .of_new (.of_extends hcopied.toExtends) hcopied.fresh hcopied.made
    (Store.key_copy σ.store source key)

/-- A record that settles goes on from the one before. -/
theorem exists_of_settle {id : DependencyId} (outcome : Dependency.Outcome)
    (hid : id < σ.store.nextDependency)
    (h : (σ.store.dependency id).Continues outcome.dependency) :
    ∃ τ, (settle id outcome).run σ = (.ok (), τ) ∧ σ.store.Prepares id τ.store ∧
      (τ.store.dependency id).stamp = outcome.dependency.stamp := by
  obtain ⟨τ, hrun, hreselected⟩ := run_settle id outcome σ
  have hrecord := (hreselected.records id).stamp
  rw [Store.dependency_putDependency, if_pos rfl] at hrecord
  exact ⟨τ, hrun, ((Store.Prepares.start hid).put h).quiet (.of_reselected hreselected), hrecord⟩

/-- So does one that is given a coordinate for which it may stand. -/
theorem prepares_setCoordinate {id : DependencyId} {c : Coordinate} {s : Store}
    (hid : id < s.nextDependency) (h : (s.dependency id).admits c) :
    s.Prepares id (s.putDependency id { s.dependency id with coordinate := some c }) :=
  (Store.Prepares.start hid).put (.located h)

theorem admits_of_stamp {d d' : Dependency} {c : Coordinate} (h : d'.stamp = d.stamp) :
    d'.admits c = d.admits c := by
  unfold Dependency.admits
  rw [Dependency.coordinate_of_stamp h]

/-- The dependency on which a spec is used is that of the key, or it is made for the key. -/
theorem exists_of_orNew (hσ : σ.store.Sound) (n : Namespace) (key : String) (c : Coordinate) :
    ∃ id τ, (Action.orNew (σ.store.ownFor? n key c) (σ.store.recordFor n key c)).run σ
        = (.ok id, τ) ∧ σ.store.Ready n key id τ.store ∧
      τ.store.dependency id = σ.store.recordFor n key c := by
  cases hown : σ.store.ownFor? n key c with
  | some id =>
    have hentry := Store.ownDependency?_of_ownFor? hown
    refine ⟨id, σ, rfl, .of_own (hσ.ordered.entries n key id hentry)
      (Store.ownDependency?_eq_some.1 hentry), ?_⟩
    rw [recordFor_of_ownFor? hown]
  | none =>
    rw [recordFor_of_free hown]
    have hnew := σ.store.dependency_added { key := key, coordinate := some c }
    exact ⟨_, _, rfl, .of_new (.addDependency σ.store _) (Nat.le_refl _) (Nat.lt_succ_self _)
      (congrArg Dependency.key hnew), hnew⟩

theorem ends_useSpecAs_placed (hσ : σ.store.Sound) (hname : K key)
    (hfree : ∀ sub, σ.store.entryAt? n key ≠ some (.sub sub)) (spec : Spec) :
    Places K n key (n.useSpecAs key spec) σ := by
  obtain ⟨τ, ⟨names, rfl⟩, hrun⟩ := n.run_useSpecAs key spec σ
  cases houtcome : σ.store.specOutcome n key spec with
  | error e =>
    rw [houtcome] at hrun
    exact .of_error hrun (.refl σ.store)
  | ok outcome =>
    rw [houtcome] at hrun
    refine .of_run hrun ?_
    obtain ⟨version, -, hchoose⟩ := Store.specOutcome_ok houtcome
    obtain ⟨id, υ, hnew, hready, hrecord⟩ :=
      exists_of_orNew (σ := { σ with listed := names }) hσ n key spec.coordinate
    have hcontinues : (υ.store.dependency id).Continues outcome.dependency := by
      rw [hrecord]
      exact .of_stamp (Dependency.stamp_of_choose hchoose)
    obtain ⟨φ, hsettle, hprepares, hstamp⟩ := exists_of_settle _ hready.issued hcontinues
    have hadmits : (φ.store.dependency id).admits spec.coordinate := by
      rw [admits_of_stamp hstamp]
      exact admits_of_specOutcome houtcome
    have hlocated := prepares_setCoordinate hprepares.issued hadmits
    unfold putOutcome
    refine .bind_ok hnew (.bind_ok hsettle (.bind_ok (run_update _ φ) ?_))
    exact places_insert (hready.trans (hprepares.trans hlocated)) hname hfree

/-- A version is used on what the key holds, or on a new dependency that is placed. -/
theorem writes_useVersionAs (hσ : σ.store.Sound) (hname : K key)
    (hfree : ∀ sub, σ.store.entryAt? n key ≠ some (.sub sub)) (text : String) :
    Writes K (n.useVersionAs key text) σ := by
  unfold Writes useVersionAs
  refine .bind_ofExcept (.refl σ.store) fun version _ => ?_
  refine .bind_ok (run_view _ σ) ?_
  cases hown : σ.store.ownDependency? n key with
  -- what is there gets the version, and no entry is written
  | some id =>
    rcases run_chooseOn_cases id version σ with
      ⟨e, hrun⟩ | ⟨outcome, τ, hchoose, hrun, hreselected⟩
    · exact .of_error (run_bind_error hrun _) (.refl σ.store)
    · refine .of_ok (run_bind_ok hrun _) (.quiet ?_)
      exact (Store.Quiet.putDependency (Dependency.stamp_of_choose hchoose)).trans
        (.of_reselected hreselected)
  | none =>
    -- a record that nothing finds yet is made ready, a copy or a new one
    have hnew : ∃ id τ, (n.copyInherited key).run σ = (.ok id, τ) ∧
        σ.store.Ready n key id τ.store ∧ σ.store.Quiet τ.store := by
      unfold copyInherited
      rw [run_bind_ok (run_read _ σ)]
      cases (n.inheritedDependency key).answer σ.store with
      | some source =>
        have hcopied := Store.copy_spec hσ source key
        have hquiet := Store.Quiet.of_extends hcopied.toExtends
        exact ⟨_, _, rfl, .of_new hquiet hcopied.fresh hcopied.made
          (Store.key_copy σ.store source key), hquiet⟩
      | none =>
        have hquiet := Store.Quiet.addDependency σ.store { key := key }
        exact ⟨_, _, rfl, .of_new hquiet (Nat.le_refl _) (Nat.lt_succ_self _)
          (congrArg Dependency.key (σ.store.dependency_added _)), hquiet⟩
    obtain ⟨id, τ, hcopy, hready, hquiet⟩ := hnew
    refine .bind_ok hcopy ?_
    rcases run_chooseOn_cases id version τ with
      ⟨e, hrun⟩ | ⟨outcome, υ, hchoose, hrun, hreselected⟩
    · exact .of_error (run_bind_error hrun _) hquiet
    · have hput : τ.store.Quiet (τ.store.putDependency id outcome.dependency) :=
        .putDependency (Dependency.stamp_of_choose hchoose)
      -- the listeners that hear of the version only select
      have hprepares := (Store.Prepares.of_quiet hput hready.issued).quiet
        (.of_reselected hreselected)
      refine .bind_ok hrun ?_
      exact (places_insert (hready.trans hprepares) hname hfree).imp (fun _ _ => .placed)
        fun _ hτ => hτ

theorem writes_useTextAs (hσ : σ.store.Sound) (hname : K key)
    (hfree : ∀ sub, σ.store.entryAt? n key ≠ some (.sub sub)) (text : String) :
    Writes K (n.useTextAs key text) σ := by
  unfold useTextAs
  split
  · exact .bind_ofExcept (.refl σ.store) fun spec _ =>
      (ends_useSpecAs_placed hσ hname hfree spec).writes
  · exact writes_useVersionAs hσ hname hfree text

/-- A group is made and placed; its members may have any keys with the property. -/
theorem ends_storeGroup (hname : K key) (hfree : ∀ sub, σ.store.entryAt? n key ≠ some (.sub sub))
    {members : List Dependency} (hlabels : ∀ d ∈ members, K d.key) (byId : Bool) :
    Places K n key (n.storeGroup key members byId) σ := by
  obtain ⟨hrecords, hissued, hnext, -⟩ := Store.addAll_spec members σ.store
  let added := Store.addAll members σ.store
  have hquiet : σ.store.Quiet (added.2.addDependency { key := key, members := added.1 }).2 :=
    (Store.quiet_addAll members σ.store).trans (.addDependency added.2 _)
  have hids : ∀ i ∈ added.1,
      K ((added.2.addDependency { key := key, members := added.1 }).2.dependency i).key := by
    intro i hi
    rw [Store.dependency_addDependency, if_neg (Nat.ne_of_gt (hissued i hi))]
    refine hlabels _ ?_
    rw [← hrecords]
    exact List.mem_map_of_mem hi
  unfold Places storeGroup
  refine .bind_ok (run_addAll members σ) (.bind_ok (run_change _ _) ?_)
  refine .of_ok (run_bind_ok (run_update _ _) _) ?_
  exact hquiet.placed_group hname hfree hnext (Nat.lt_succ_self _)
    (added.2.dependency_added _) hids

theorem ends_useGroupAs (hK : AdmitsNames K) (hname : K key)
    (hfree : ∀ sub, σ.store.entryAt? n key ≠ some (.sub sub)) (specs : List String) :
    Places K n key (n.useGroupAs key specs) σ := by
  unfold Places useGroupAs
  refine .guarded (.refl σ.store) fun _ => ?_
  refine .bind_ofExcept (.refl σ.store) fun members hmembers => ?_
  refine ends_storeGroup hname hfree (Tolerates.forall_of_mapM_ok specs ?_ hmembers) true
  intro spec _ member hmember
  obtain ⟨parsed, hparsed, hkey, -⟩ := groupMember_spec hmember
  rw [hkey]
  exact hK.part (Spec.wellFormed_of_parse hparsed).coordinate.id

/-! ## §5. Assignments. -/

/-- A key that holds a dependency accepts no namespace. -/
theorem writes_storeSub (hname : K key) (sub : Namespace) : Writes K (n.storeSub key sub) σ := by
  unfold Writes storeSub
  refine .guarded (.refl σ.store) fun _ => .bind_ok (run_view _ σ) ?_
  refine .guarded (.refl σ.store) fun hnone => .of_ok rfl ?_
  refine .linked (.refl σ.store) (fun id hid => hnone ?_) hname
  rw [Store.ownDependency?_eq_some.2 hid]
  rfl

theorem writes_setHere (hK : AdmitsNames K) (hσ : σ.store.Sound) (hlabelled : σ.store.Labelled K)
    (htrim : trim key = key) (value : Value) : Writes K (n.setHere key value) σ := by
  unfold setHere
  cases hkey : σ.store.assignedKey? n key with
  | none =>
    have hlocal := n.run_localKey key σ
    rw [hkey] at hlocal
    exact .of_error (run_bind_error hlocal _) (.refl σ.store)
  | some key' =>
    have hname : K key' := hlabelled.assigned hK htrim hkey
    -- all values but namespaces are stored only where no namespace is in the way
    have hguarded {τ : Session} (hτ : τ.store = σ.store) {act : Action DependencyId}
        (hact : (∀ sub, τ.store.entryAt? n key' ≠ some (.sub sub)) → Writes K act τ) :
        Writes K (do n.ensureNoSub key'; return Entry.dependency (← act)) τ :=
      ends_ensureNoSub (.refl τ.store) fun hfree => (hact hfree).map
    refine .bind_ok (run_localKey_of_assignedKey? hkey) ?_
    cases value with
    | sub sub => exact writes_storeSub hname sub
    | text text => exact hguarded rfl fun hfree => writes_useTextAs hσ hname hfree text
    | group specs => exact hguarded rfl fun hfree => (ends_useGroupAs hK hname hfree specs).writes
    | dependency source =>
      exact hguarded rfl fun hfree => (ends_storeCopy hσ hname hfree source).writes
    | key other =>
      -- looking the value up may list names, and changes nothing else
      let τ : Session := { σ with listed := (n.lookup other).listing σ }
      refine .bind_ok (run_read _ σ) ?_
      cases (n.lookup other).answer σ.store with
      | none => exact .of_error (run_throw _ τ) (.refl σ.store)
      | some e =>
        cases e with
        | sub sub => exact writes_storeSub (σ := τ) hname sub
        | dependency source =>
          exact hguarded (τ := τ) rfl fun hfree =>
            (ends_storeCopy (σ := τ) hσ hname hfree source).writes

theorem writes_set (hK : AdmitsNames K) (hσ : σ.store.Sound) (hlabelled : σ.store.Labelled K)
    (n : Namespace) (key : String) (value : Value) : Writes K (n.set key value) σ :=
  .of_run (n.run_set key value σ)
    (writes_setHere hK hσ hlabelled (σ.store.trim_landing n key) value)

/-! ## §6. Declarations. -/

theorem ends_declaredFor (hσ : σ.store.Sound) (n : Namespace) (key : String) (c : Coordinate)
    (declaration : Declaration) :
    Ends (n.declaredFor key c declaration) (fun id τ => σ.store.Ready n key id τ.store)
      (fun τ => σ.store.Quiet τ.store) σ := by
  unfold declaredFor
  refine .bind_ok (run_view _ σ) ?_
  cases hown : σ.store.ownFor? n key c with
  -- the declaration is made on the record that is there, if it admits the coordinate
  | some id =>
    have hentry := Store.ownDependency?_of_ownFor? hown
    have hready : σ.store.Ready n key id σ.store :=
      .of_own (hσ.ordered.entries n key id hentry) (Store.ownDependency?_eq_some.1 hentry)
    have hadmits : (σ.store.dependency id).admits c := by
      unfold Store.ownFor? at hown
      exact (Option.filter_eq_some_iff.1 hown).2
    dsimp only
    cases hdeclare : (σ.store.dependency id).declare declaration with
    | error e =>
      have hrun : (Action.declare id declaration).run σ = (.error e, σ) := by
        unfold Action.declare
        rw [run_bind_ok (run_view _ σ), hdeclare]
        rfl
      exact .of_error (run_bind_error hrun _) (.refl σ.store)
    | ok d =>
      have hstamp := Dependency.stamp_of_declare hdeclare
      obtain ⟨τ, hsettle, hprepares, hsettled⟩ :=
        exists_of_settle ⟨d, false⟩ hready.issued (.of_stamp hstamp)
      have hrun : (Action.declare id declaration).run σ = (.ok (), τ) := by
        unfold Action.declare
        rw [run_bind_ok (run_view _ σ), hdeclare]
        exact hsettle
      have hlocated := prepares_setCoordinate (c := c) hprepares.issued (by
        rw [admits_of_stamp (hsettled.trans hstamp)]
        exact hadmits)
      exact .bind_ok hrun (.of_ok rfl (hready.trans (hprepares.trans hlocated)))
  -- or a new record is made with it, which nothing can reject
  | none =>
    exact .of_ok (run_change _ σ) (.of_new (.addDependency σ.store _) (Nat.le_refl _)
      (Nat.lt_succ_self _) (congrArg Dependency.key (σ.store.dependency_added _)))

theorem ends_declareAs (hσ : σ.store.Sound) (hname : K key) (c : Coordinate)
    (declaration : Declaration) : Places K n key (n.declareAs key c declaration) σ := by
  unfold Places declareAs
  refine ends_ensureNoSub (.refl σ.store) fun hfree => ?_
  refine .bind ((ends_declaredFor hσ n key c declaration).imp (fun id τ hready => ?_) fun _ => id)
  refine .bind_ok (run_view _ τ) ?_
  obtain ⟨_, ⟨names, rfl⟩, hinherit⟩ := n.run_inheritSelection (τ.store.dependency id) τ
  let asked : Session := { τ with listed := names }
  obtain ⟨φ, hsettle, hprepares, -⟩ := exists_of_settle (σ := asked) _ hready.issued
    (.of_stamp ((τ.store.dependency id).stamp_of_under _))
  exact .bind_ok hinherit (.bind_ok hsettle (places_insert (hready.trans hprepares) hname hfree))

theorem ends_needCopy (hσ : σ.store.Sound) (hname : K key) (source : DependencyId) :
    Places K n key (n.needCopy key source) σ := by
  unfold Places needCopy
  refine .bind_ok (run_view _ σ) ?_
  cases (σ.store.dependency source).coordinate with
  | some c => exact ends_declareAs hσ hname c _
  | none => exact .of_error (run_throw _ σ) (.refl σ.store)

/-- The members of a declared group have the keys of their need specs. -/
theorem ends_neededMember (n : Namespace) (text : String) (σ : Session) :
    Ends (n.neededMember text)
      (fun d τ => (∃ need, NeedSpec.parse text = .ok need ∧ d.key = need.key) ∧
        τ.store = σ.store)
      (fun τ => τ.store = σ.store) σ := by
  unfold neededMember
  refine .bind_ofExcept rfl fun need hneed => .bind_ofExcept rfl fun declaration _ => ?_
  let d : Dependency := {
    key := need.key
    coordinate := some need.spec.coordinate
    requirement := declaration.requirement
    defaultVersion := declaration.default }
  obtain ⟨_, ⟨names, rfl⟩, hinherit⟩ := n.run_inheritSelection d σ
  refine .of_ok (run_bind_ok hinherit _) ⟨⟨need, hneed, ?_⟩, rfl⟩
  exact Dependency.key_of_stamp (d.stamp_of_under _)

theorem ends_needGroup (hname : K key) {specs : List String}
    (hspecs : ∀ text ∈ specs, ∀ need, NeedSpec.parse text = .ok need → K need.key) :
    Places K n key (n.needGroup key specs) σ := by
  unfold Places needGroup
  refine ends_ensureNoSub (.refl σ.store) fun hfree => .guarded (.refl σ.store) fun _ => ?_
  have hmembers : Ends (specs.mapM n.neededMember)
      (fun ds τ => (∀ d ∈ ds, K d.key) ∧ τ.store = σ.store) (fun τ => τ.store = σ.store) σ := by
    refine .mapM (J := fun τ => τ.store = σ.store) specs rfl fun text htext τ hτ => ?_
    refine (n.ends_neededMember text τ).imp (fun d υ hd => ?_) fun υ hυ => hυ.trans hτ
    obtain ⟨⟨need, hneed, hkey⟩, hυ⟩ := hd
    exact ⟨hkey ▸ hspecs text htext need hneed, hυ.trans hτ⟩
  refine .bind (hmembers.imp (fun ds τ hds => ?_) fun τ hτ => hτ ▸ .refl σ.store)
  obtain ⟨hlabels, hτ⟩ := hds
  rw [← hτ] at hfree ⊢
  exact ends_storeGroup hname hfree hlabels false

/-! ## §7. Needs. -/

variable (hK : AdmitsNames K) (hσ : σ.store.Sound)

include hK hσ in
theorem writes_need {text : String}
    (hname : ∀ need, NeedSpec.parse text = .ok need → K need.key) :
    Writes K (n.need text) σ := by
  unfold Writes need
  refine .bind_ofExcept (.refl σ.store) fun need hneed => ?_
  refine .bind_ofExcept (.refl σ.store) fun declaration _ => .bind_ok (run_view _ σ) ?_
  have hkey : K (trim need.key) := (NeedSpec.trim_key hneed).symm ▸ hname need hneed
  exact (ends_declareAs hσ (hK.landing σ.store n hkey) need.spec.coordinate declaration).writes

include hK hσ in
theorem writes_needAs (hname : K (trim key)) {value : Value}
    (hspecs : ∀ specs, value = .group specs → ∀ text ∈ specs, ∀ need,
      NeedSpec.parse text = .ok need → K need.key) :
    Writes K (n.needAs key value) σ := by
  have hplace : K (σ.store.landing n key).2 := hK.landing σ.store n hname
  unfold Writes needAs
  refine .bind_ok (run_view _ σ) ?_
  cases value with
  | text text =>
    refine .bind_ofExcept (.refl σ.store) fun need _ => ?_
    exact .bind_ofExcept (.refl σ.store) fun declaration _ =>
      (ends_declareAs hσ hplace need.spec.coordinate declaration).writes
  | group specs => exact (ends_needGroup hplace (hspecs specs rfl)).writes
  | dependency source => exact (ends_needCopy hσ hplace source).writes
  | key other =>
    let τ : Session :=
      { σ with listed := (n.lookupDependency other).listing σ }
    refine .bind_ok (run_read _ σ) ?_
    cases (n.lookupDependency other).answer σ.store with
    | some source => exact (ends_needCopy (σ := τ) hσ hplace source).writes
    | none => exact .of_error (run_throw _ τ) (.refl σ.store)
  | sub sub => exact .of_error (run_throw _ σ) (.refl σ.store)

include hK hσ in
theorem writes_require (hname : K (trim key)) (text : String) (requirement : Option String) :
    Writes K (n.require key text requirement) σ := by
  unfold Writes require
  refine .bind_ofExcept (.refl σ.store) fun spec _ => ?_
  refine .bind_ofExcept (.refl σ.store) fun declaration _ => .bind_ok (run_view _ σ) ?_
  exact (ends_declareAs hσ (hK.landing σ.store n hname) spec.coordinate declaration).writes

/-! ## §8. Entries taken over. -/

include hσ in
theorem places_useInherited (hname : K (trim key)) :
    Places K n (trim key) (n.useInherited key) σ := by
  let τ : Session :=
    { σ with listed := (n.inheritedEntry (trim key)).listing σ }
  unfold Places useInherited
  refine .bind_ok (run_read _ σ) ?_
  cases (n.inheritedEntry (trim key)).answer σ.store with
  | none => exact .of_error (run_throw _ τ) (.refl σ.store)
  | some e =>
    cases e with
    | sub sub => exact .of_error (run_throw _ τ) (.refl σ.store)
    | dependency source =>
      exact ends_ensureNoSub (σ := τ) (.refl σ.store) fun hfree =>
        ends_storeCopy (σ := τ) hσ hname hfree source

include hσ in
/-- An alias is made for a dependency that the namespace has, or for a copy that has been placed. -/
theorem ends_aliasSource (existing : String)
    (hname : σ.store.localEntry n existing = none → K (trim existing)) :
    Ends (n.aliasSource existing) (fun id τ => σ.store.Sourced K id τ.store)
      (fun τ => σ.store.Quiet τ.store) σ := by
  unfold aliasSource
  refine .bind_ok (run_view _ σ) ?_
  cases hfound : σ.store.localEntry n existing with
  | some e =>
    cases e with
    | sub sub => exact .of_error (run_throw _ σ) (.refl σ.store)
    | dependency id =>
      exact .of_ok rfl ⟨.inl (.refl σ.store), Store.known_of_localEntry hfound⟩
  | none =>
    let τ : Session := { σ with listed := (n.lookup existing).listing σ }
    refine .bind_ok (run_read _ σ) ?_
    cases (n.lookup existing).answer σ.store with
    | none => exact .of_error (run_throw _ τ) (.refl σ.store)
    | some e =>
      refine (places_useInherited (σ := τ) hσ (hname hfound)).imp (fun id υ hplaced => ?_)
        fun _ => id
      exact ⟨.inr ⟨n, _, hplaced⟩, n, .inl ⟨_, hplaced.entry⟩⟩

/-- Once its source is there, an alias is put where its key leads, unless a sub-namespace is held
there. -/
theorem run_addAlias {existing : String} {id : DependencyId} {τ : Session}
    (h : (n.aliasSource existing).run σ = (.ok id, τ)) (key : String) :
    let place := τ.store.landing n key
    (n.addAlias key existing).run σ
      = if ((τ.store.entryAt? place.1 place.2).bind Entry.sub?).isNone
        then (.ok id, { τ with store := τ.store.putEntry place.1 place.2 (.dependency id) })
        else (.error (.typeMismatch place.2 .holdsNamespace), τ) := by
  intro place
  unfold addAlias
  rw [run_bind_ok h, run_bind_ok (run_view _ τ)]
  have hensure := place.1.run_ensureNoSub place.2 τ
  by_cases hfree : ((τ.store.entryAt? place.1 place.2).bind Entry.sub?).isNone
  · rw [if_pos hfree] at hensure ⊢
    exact run_bind_ok hensure _
  · rw [if_neg hfree] at hensure ⊢
    exact run_bind_error hensure _

include hK hσ in
theorem wrote_addAlias {existing : String} (hname : K (trim key))
    (hexisting : σ.store.localEntry n existing = none → K (trim existing)) :
    σ.store.Wrote K ((n.addAlias key existing).run σ).2.store := by
  obtain ⟨hok, herror⟩ := ends_aliasSource (n := n) hσ existing hexisting
  rcases hrun : (n.aliasSource existing).run σ with ⟨result, τ⟩
  cases result with
  | error e =>
    unfold addAlias
    rw [run_bind_error hrun]
    exact .put (.quiet (herror e τ hrun))
  | ok id =>
    have hsourced := hok id τ hrun
    rw [run_addAlias hrun]
    split
    · next hfree =>
      refine .aliased hsourced (fun sub hsub => ?_) (hK.landing τ.store n hname)
      rw [hsub] at hfree
      exact nomatch hfree
    · exact .put hsourced.put

/-! ## §9. Sub-namespaces, and specs under their own names. -/

theorem writes_openSub (hname : K (trim key)) : Writes K (n.openSub key) σ := by
  unfold Writes openSub
  refine .bind_ok (run_view _ σ) ?_
  cases hentry : σ.store.entryAt? n (trim key) with
  | some e =>
    cases e with
    | sub sub => exact .of_ok rfl (.quiet (.refl σ.store))
    | dependency id => exact .of_error (run_throw _ σ) (.refl σ.store)
  | none =>
    have hquiet : σ.store.Quiet ({ σ.store with nextNamespace := σ.store.nextNamespace + 1 }.putLink
        (.single σ.store.nextNamespace (n.subName (trim key)) n.inRegistry) (.handle n)) :=
      .of_same rfl rfl rfl
    refine .of_ok (run_change _ σ) (.linked hquiet (fun id hid => ?_) hname)
    rw [hquiet.entryAt?, hentry] at hid
    exact nomatch hid

/-- Undoing what changes no contents changes none. -/
theorem quiet_restoreBelow {s t : Store} (h : s.Quiet t) :
    s.Quiet (t.restoreBelow s [n]) where
  contents := by
    intro x
    rw [Store.contentsOf_restoreBelow]
    split
    · rfl
    · exact h.contents x
  next := by
    unfold Store.restoreBelow
    rw [Store.nextDependency_restore]
    exact h.next
  stamp := by
    intro i hi
    rw [Store.dependency_restoreBelow]
    split
    · rfl
    · exact h.stamp i hi

/-- Undoing what was placed below `n` leaves all contents as they were. -/
theorem quiet_restoreBelow_of_placed {s t : Store} {m : Namespace} {id : DependencyId}
    (h : s.Placed K m key id t) (hm : s.Contains n m) : s.Quiet (t.restoreBelow s [n]) where
  contents := by
    intro x
    rw [Store.contentsOf_restoreBelow]
    split
    · rfl
    · next hx =>
      refine h.elsewhere x ?_
      rintro rfl
      exact hx (Store.mem_subtree_iff.2 hm)
  next := by
    unfold Store.restoreBelow
    rw [Store.nextDependency_restore]
    exact h.next
  stamp := by
    intro i hi
    rw [Store.dependency_restoreBelow]
    split
    · rfl
    · next hheld =>
      refine h.stamp i hi ?_
      rintro rfl
      exact hheld (Store.mem_heldIn hm (Store.ownDependency?_eq_some.2 (h.own hi)))

/-- Selecting the default of a declaration only selects. -/
theorem ends_selectDefault (id : DependencyId) (default : Option String) (σ : Session) :
    Ends (selectDefault id default) (fun _ τ => σ.store.Reselected τ.store)
      (fun τ => τ.store = σ.store) σ := by
  unfold selectDefault
  cases default with
  | none => exact .of_ok rfl (.refl σ.store)
  | some version =>
    refine .bind_ok (run_view _ σ) ?_
    split
    · unfold Action.select
      refine .bind_ok (run_view _ σ) ?_
      refine .bind_ofExcept rfl fun d hselect => ?_
      obtain ⟨τ, hsettle, hreselected⟩ := run_settle id ⟨d, true⟩ σ
      exact .of_ok hsettle ((Store.Reselected.putSelected hselect).trans hreselected)
    · exact .of_ok rfl (.refl σ.store)

include hK hσ in
/-- What has been placed is there if the whole succeeds; else it is taken back. -/
theorem put_useSpec {text : String}
    (hname : ∀ need, NeedSpec.parse text = .ok need → K need.key) :
    σ.store.Put K ((n.useSpec text).run σ).2.store := by
  have hbatch : Ends (n.useSpec text)
      (fun _ τ => ∃ mid, (∃ m key id, σ.store.Placed K m key id mid) ∧ mid.Reselected τ.store)
      (fun τ => ∃ mid, (σ.store.Quiet mid ∨ ∃ m key id, σ.store.Contains n m ∧
        σ.store.Placed K m key id mid) ∧ τ.store = mid.restoreBelow σ.store [n]) σ := by
    unfold useSpec
    refine Ends.atomically (E := fun s => σ.store.Quiet s ∨ ∃ m key id, σ.store.Contains n m ∧
      σ.store.Placed K m key id s) ?_
    refine .bind_ofExcept (.inl (.refl σ.store)) fun need hneed => .bind_ok (run_view _ _) ?_
    have hplace : σ.store.Contains n (σ.store.landing n need.key).1 :=
      Store.landing_mem (σ.store.closed_contains n) n need.key (.refl σ.store n)
    have hkey : K (σ.store.landing n need.key).2 :=
      hK.landing σ.store n ((NeedSpec.trim_key hneed).symm ▸ hname need hneed)
    refine ends_ensureNoSub (σ := held σ) (.inl (.refl σ.store)) fun hfree => ?_
    split
    -- a spec without a requirement is used as it is
    · exact (ends_useSpecAs_placed (σ := held σ) hσ hkey hfree need.spec).imp
        (fun id τ hplaced => ⟨_, _, id, hplaced⟩) fun _ => .inl
    -- one with a requirement is declared first, and the default may then be selected
    · refine .bind_ofExcept (.inl (.refl σ.store)) fun declaration _ => ?_
      refine .bind ((ends_declareAs (σ := held σ) hσ hkey need.spec.coordinate declaration).imp
        (fun id τ hplaced => ?_) fun _ => .inl)
      refine .bind ((ends_selectDefault id declaration.default τ).imp (fun _ υ hreselected => ?_)
        fun υ hυ => .inr ⟨_, _, id, hplace, hυ ▸ hplaced⟩)
      exact .of_ok rfl ⟨_, _, id, hplaced.reselected hreselected⟩
  refine Ends.last (C := fun τ => σ.store.Put K τ.store)
    (hbatch.imp (fun _ τ hτ => ?_) fun τ hτ => ?_)
  · obtain ⟨mid, ⟨m, key, id, hplaced⟩, hreselected⟩ := hτ
    exact .placed (hplaced.reselected hreselected)
  · obtain ⟨mid, hmid, heq⟩ := hτ
    -- the batch has failed: what was placed is taken back
    rw [heq]
    rcases hmid with hquiet | ⟨m, key, id, hm, hplaced⟩
    · exact .quiet (quiet_restoreBelow hquiet)
    · exact .quiet (quiet_restoreBelow_of_placed hplaced hm)

end Namespace

end DependencyScope
