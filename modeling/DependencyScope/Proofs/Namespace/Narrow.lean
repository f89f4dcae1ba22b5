/-
  DependencyScope.Proofs.Namespace.Narrow — texts that are assigned to keys narrow what was declared.

  A text that is assigned to a key is used on the dependency that the key holds, or on a new one.
  Other dependencies are only reselected by listeners.  So a key that holds a dependency with a
  requirement keeps it, whatever texts are assigned to whatever keys, and also where other keys hold
  the same dependency.

  Main definitions:
    * `Store.Puts`, `Store.Assigned` — what a text that is assigned leaves in the store;
    * `Store.Pinned` — a key holds a dependency that says what a record says at least.

  Main results:
    * `Namespace.ends_useSpecAs`, `.ends_useVersionAs`, `.ends_set_text` — one assignment;
    * `Session.pinned_afterTexts` — what several assignments keep;
    * `Session.narrowed_afterTexts` — requirement, coordinate and selection after them.
-/
import DependencyScope.Proofs.Namespace.Frame
import DependencyScope.Proofs.Session.Reached

namespace DependencyScope

open DependencyScope.Text DependencyScope.Action

/-! ## §1. What an assignment leaves. -/

namespace Store

variable {s t u : Store} {n : Namespace} {key : String} {id : DependencyId} {d : Dependency}

/-- In the store `t`, a key has been given the dependency `id`; all other dependencies of `s` are as
they were up to selections. -/
structure Puts (s : Store) (n : Namespace) (key : String) (id : DependencyId) (t : Store) :
    Prop where
  entries : ∀ m k, t.entryAt? m k
    = if n = m ∧ key = k then some (.dependency id) else s.entryAt? m k
  others : ∀ i < s.nextDependency, i ≠ id → (s.dependency i).Reselects (t.dependency i)

/-- In the store `t`, a text with the version part `part` has been assigned to a key in `s`. -/
structure Assigned (s : Store) (n : Namespace) (key : String) (part : Option VersionText)
    (id : DependencyId) (t : Store) : Prop extends s.Puts n key id t where
  record : id < s.nextDependency → (s.dependency id).Narrows (t.dependency id)
  within : ∀ r, part = some (.constraint r) →
    ∃ r', (t.dependency id).requirement = some r' ∧ r'.Within r
  /-- A dependency with a requirement stays under its key. -/
  held : ∀ i, s.entryAt? n key = some (.dependency i) → (s.dependency i).isGroup = false →
    (s.dependency i).requirement.isSome → id = i

theorem entryAt?_insert (s : Store) (n m : Namespace) (key k : String) (id : DependencyId) :
    (s.insert n key id).entryAt? m k
      = if n = m ∧ key = k then some (.dependency id) else s.entryAt? m k := by
  unfold insert
  rw [entryAt?_putIndex, entryAt?_putEntry]

/-- Everything that was there is narrowed at most, also where other keys hold the dependency. -/
theorem Assigned.narrows {part : Option VersionText} {i : DependencyId}
    (h : s.Assigned n key part id t) (hi : i < s.nextDependency) :
    (s.dependency i).Narrows (t.dependency i) := by
  by_cases heq : i = id
  · subst heq
    exact h.record hi
  · exact .of_reselects (h.others i hi heq)

namespace Puts

theorem of_insert (hcontents : t.contents = s.contents)
    (hothers : ∀ i < s.nextDependency, i ≠ id → (s.dependency i).Reselects (t.dependency i)) :
    s.Puts n key id (t.insert n key id) where
  entries := by
    intro m k
    rw [entryAt?_insert]
    exact congrArg (ite _ _) (entryAt?_of_contents hcontents m k)
  others := by
    intro i hi hne
    rw [dependency_insert]
    exact hothers i hi hne

/-- The key holds the dependency already. -/
theorem of_entryAt? (hentry : s.entryAt? n key = some (.dependency id))
    (hcontents : t.contents = s.contents)
    (hothers : ∀ i < s.nextDependency, i ≠ id → (s.dependency i).Reselects (t.dependency i)) :
    s.Puts n key id t where
  entries := by
    intro m k
    rw [entryAt?_of_contents hcontents]
    split
    · next heq =>
      obtain ⟨rfl, rfl⟩ := heq
      exact hentry
    · rfl
  others := hothers

/-- A version part that was applied to the record under a key has been assigned to the key. -/
theorem assigned {inherited : Option Requirement} {part : Option VersionText}
    {outcome : Dependency.Outcome} (h : s.Puts n key id t)
    (hchoose : d.choose inherited part = .ok outcome)
    (hrecord : outcome.dependency.Narrows (t.dependency id))
    (hd : id < s.nextDependency → s.dependency id = d)
    (hheld : ∀ i, s.entryAt? n key = some (.dependency i) → (s.dependency i).isGroup = false →
      (s.dependency i).requirement.isSome → id = i) : s.Assigned n key part id t where
  toPuts := h
  record := by
    intro hid
    rw [hd hid]
    exact (Dependency.narrows_of_choose hchoose).trans hrecord
  within := by
    rintro r rfl
    obtain ⟨r', hr', hwithin⟩ := Dependency.within_of_choose hchoose
    obtain ⟨r'', hr'', hwithin'⟩ := hrecord.requirement r' hr'
    exact ⟨r'', hr'', hwithin'.trans hwithin⟩
  held := hheld

end Puts

/-- A record is written where nothing but new dependencies has been added. -/
theorem others_of_reselected (hkept : ∀ i < s.nextDependency, t.dependency i = s.dependency i)
    (h : (t.putDependency id d).Reselected u) :
    d.Reselects (u.dependency id) ∧
      ∀ i < s.nextDependency, i ≠ id → (s.dependency i).Reselects (u.dependency i) := by
  have hrecord (i : DependencyId) := h.records i
  constructor
  · simpa using hrecord id
  · intro i hi hne
    have hother := hrecord i
    rw [dependency_putDependency, if_neg (Ne.symm hne), hkept i hi] at hother
    exact hother

theorem ownSingle?_eq_some : s.ownSingle? n key = some id ↔
    s.entryAt? n key = some (.dependency id) ∧ (s.dependency id).isGroup = false := by
  unfold ownSingle?
  rw [Option.filter_eq_some_iff, ownDependency?_eq_some]
  simp

end Store

namespace Namespace

variable {n : Namespace} {key : String} {σ : Session}

/-! ## §2. Using a spec. -/

theorem run_orNew (target : Option DependencyId) (d : Dependency) (σ : Session) :
    ∃ τ, (Action.orNew target d).run σ = (.ok (target.getD σ.store.nextDependency), τ) ∧
      τ.store.contents = σ.store.contents ∧
      ∀ i < σ.store.nextDependency, τ.store.dependency i = σ.store.dependency i := by
  cases target with
  | some id => exact ⟨σ, rfl, rfl, fun _ _ => rfl⟩
  | none =>
    refine ⟨_, rfl, rfl, ?_⟩
    intro i hi
    exact (Store.dependency_addDependency _ d i).trans (if_neg (Nat.ne_of_gt hi))

/-- The outcome is written to the target, or to a new dependency. -/
theorem run_putOutcome (n : Namespace) (key : String) {coordinate : Coordinate}
    (target : Option DependencyId) (d : Dependency) {outcome : Dependency.Outcome}
    (h : outcome.dependency.admits coordinate) (σ : Session) :
    ∃ τ, (n.putOutcome key coordinate target d outcome).run σ
        = (.ok (target.getD σ.store.nextDependency), τ) ∧
      σ.store.Puts n key (target.getD σ.store.nextDependency) τ.store ∧
      outcome.dependency.Narrows
        (τ.store.dependency (target.getD σ.store.nextDependency)) := by
  obtain ⟨τ, hnew, hcontents, hkept⟩ := run_orNew target d σ
  generalize target.getD σ.store.nextDependency = id at hnew ⊢
  obtain ⟨υ, hsettle, hreselected⟩ := run_settle id outcome τ
  obtain ⟨hrecord, hothers⟩ := Store.others_of_reselected hkept hreselected
  have hlocated : (υ.store.dependency id).admits coordinate := by
    obtain ⟨selected, heq⟩ := hrecord.rest
    rw [heq]
    exact h
  unfold putOutcome setCoordinate
  rw [run_bind_ok hnew, run_bind_ok hsettle, run_bind_ok (run_update _ υ),
    run_bind_ok (run_update _ _)]
  -- the coordinate is written last, onto the record as the listeners have left it
  refine ⟨_, rfl, .of_insert (hreselected.contents.trans hcontents) ?_, ?_⟩
  · intro i hi hne
    rw [Store.dependency_putDependency, if_neg (Ne.symm hne)]
    exact hothers i hi hne
  · rw [Store.dependency_insert, Store.dependency_putDependency, if_pos rfl]
    exact (Dependency.Narrows.of_reselects hrecord).trans (.located hlocated)

theorem recordFor_of_ownFor? {s : Store} {c : Coordinate} {id : DependencyId}
    (h : s.ownFor? n key c = some id) : s.recordFor n key c = s.dependency id := by
  unfold Store.recordFor
  rw [h]

theorem recordFor_of_free {s : Store} {c : Coordinate} (h : s.ownFor? n key c = none) :
    s.recordFor n key c = { key := key, coordinate := some c } := by
  unfold Store.recordFor
  rw [h]

theorem admits_recordFor (s : Store) (n : Namespace) (key : String) (c : Coordinate) :
    (s.recordFor n key c).admits c := by
  unfold Store.recordFor
  split
  · next id hown =>
    unfold Store.ownFor? at hown
    exact (Option.filter_eq_some_iff.1 hown).2
  · simp [Dependency.admits]

theorem admits_of_specOutcome {s : Store} {spec : Spec} {outcome : Dependency.Outcome}
    (h : s.specOutcome n key spec = .ok outcome) : outcome.dependency.admits spec.coordinate := by
  obtain ⟨part, -, hchoose⟩ := Store.specOutcome_ok h
  obtain ⟨default, selected, hdependency⟩ := Dependency.choose_spec hchoose
  rw [hdependency]
  exact admits_recordFor s n key spec.coordinate

/-- A dependency with a requirement that the key holds is the one that a spec is used on. -/
theorem ownFor?_of_checkCoordinate {s : Store} {spec : Spec} {i : DependencyId}
    (h : s.checkCoordinate n key spec = .ok ()) (hentry : s.entryAt? n key = some (.dependency i))
    (hsingle : (s.dependency i).isGroup = false)
    (hrequirement : (s.dependency i).requirement.isSome) :
    s.ownFor? n key spec.coordinate = some i := by
  have hown : s.ownSingle? n key = some i := Store.ownSingle?_eq_some.2 ⟨hentry, hsingle⟩
  have hcheck : (s.dependency i).checkCoordinate spec = .ok () := by
    unfold Store.checkCoordinate at h
    rw [hown] at h
    exact h
  have hadmits : (s.dependency i).admits spec.coordinate := by
    obtain ⟨r, hr⟩ := Option.isSome_iff_exists.1 hrequirement
    unfold Dependency.checkCoordinate at hcheck
    unfold Dependency.admits
    rw [hr] at hcheck
    cases hcoordinate : (s.dependency i).coordinate with
    | none => rfl
    | some c =>
      rw [hcoordinate] at hcheck
      dsimp only at hcheck
      split at hcheck
      · next heq => simpa using heq
      · exact nomatch hcheck
  unfold Store.ownFor?
  rw [hown]
  exact Option.filter_eq_some_iff.2 ⟨rfl, hadmits⟩

/-- Using a spec assigns its version part, or leaves the store as it is. -/
theorem ends_useSpecAs (hσ : σ.store.Sound) (n : Namespace) (key : String) (spec : Spec) :
    Ends (n.useSpecAs key spec)
      (fun id τ => σ.store.Assigned n key spec.part? id τ.store)
      (fun τ => σ.store.Extends τ.store) σ := by
  obtain ⟨τ, ⟨names, rfl⟩, hrun⟩ := n.run_useSpecAs key spec σ
  cases houtcome : σ.store.specOutcome n key spec with
  | error e =>
    rw [houtcome] at hrun
    exact .of_error hrun (.refl hσ)
  | ok outcome =>
    rw [houtcome] at hrun
    have hadmits := admits_of_specOutcome houtcome
    unfold Store.specOutcome at houtcome
    obtain ⟨version, hversion, hrest⟩ := bind_eq_ok.1 houtcome
    obtain ⟨_, hcheck, hchoose⟩ := bind_eq_ok.1 hrest
    obtain ⟨υ, hput, hputs, hrecord⟩ := n.run_putOutcome key (σ.store.ownFor? n key spec.coordinate)
      (σ.store.recordFor n key spec.coordinate) hadmits { σ with listed := names }
    refine .of_ok (hrun.trans hput) ?_
    rw [Spec.part?_of_mapM hversion]
    refine hputs.assigned hchoose hrecord ?_ ?_
    -- a number that was handed out before is that of the target
    · intro hid
      unfold Store.recordFor
      cases hown : σ.store.ownFor? n key spec.coordinate with
      | some id => rfl
      | none =>
        rw [hown] at hid
        exact absurd hid (Nat.lt_irrefl _)
    · intro i hentry hsingle hrequirement
      rw [ownFor?_of_checkCoordinate hcheck hentry hsingle hrequirement]
      rfl

/-! ## §3. Using a version. -/

/-- The new dependency says what that of the nearest ancestor says, if there is one. -/
theorem run_copyInherited (hσ : σ.store.Sound) (n : Namespace) (key : String) :
    ∃ id τ, (n.copyInherited key).run σ = (.ok id, τ) ∧ σ.store.Extends τ.store ∧
      σ.store.nextDependency ≤ id ∧
      (τ.store.dependency id).core = (((n.inheritedDependency key).answer σ.store).elim
        { key := key } σ.store.dependency).core := by
  unfold copyInherited
  rw [run_bind_ok (run_read _ σ)]
  cases (n.inheritedDependency key).answer σ.store with
  | some inherited =>
    have hcopied := Store.copy_spec hσ inherited key
    exact ⟨_, _, rfl, hcopied.toExtends, hcopied.fresh, hcopied.core⟩
  | none =>
    have hnew : (σ.store.addDependency { key := key }).2.dependency σ.store.nextDependency
        = { key := key } := by simp
    exact ⟨_, _, rfl, .addDependency hσ (by simp), Nat.le_refl _, congrArg Dependency.core hnew⟩

/-- A version part is refused, or its outcome is settled. -/
theorem run_chooseOn_cases (id : DependencyId) (version : VersionText) (σ : Session) :
    (∃ e, (chooseOn id version).run σ = (.error e, σ)) ∨
      ∃ outcome τ, (σ.store.dependency id).choose none (some version) = .ok outcome ∧
        (chooseOn id version).run σ = (.ok (), τ) ∧
        (σ.store.putDependency id outcome.dependency).Reselected τ.store := by
  rw [run_chooseOn]
  cases hchoose : (σ.store.dependency id).choose none (some version) with
  | error e => exact .inl ⟨e, rfl⟩
  | ok outcome =>
    obtain ⟨τ, hsettle, hreselected⟩ := run_settle id outcome σ
    exact .inr ⟨outcome, τ, rfl, hsettle, hreselected⟩

/-- A version part is applied to the dependency that the key holds. -/
theorem ends_chooseOn_held (hσ : σ.store.Sound) {id : DependencyId}
    (hown : σ.store.ownDependency? n key = some id) (version : VersionText) :
    Ends (do chooseOn id version; return id)
      (fun id τ => σ.store.Assigned n key (some version) id τ.store)
      (fun τ => σ.store.Extends τ.store) σ := by
  have hentry := Store.ownDependency?_eq_some.1 hown
  rcases run_chooseOn_cases id version σ with ⟨e, hrun⟩ | ⟨outcome, τ, hchoose, hrun, hreselected⟩
  · exact .of_error (run_bind_error hrun _) (.refl hσ)
  · obtain ⟨hrecord, hothers⟩ := Store.others_of_reselected (fun _ _ => rfl) hreselected
    have hputs : σ.store.Puts n key id τ.store := .of_entryAt? hentry hreselected.contents hothers
    refine .of_ok (run_bind_ok hrun _) (hputs.assigned hchoose (.of_reselects hrecord) ?_ ?_)
    · exact fun _ => rfl
    · intro i hi _ _
      exact Entry.dependency.inj (Option.some.inj (hentry.symm.trans hi))

/-- A version part is applied to a copy, which the key holds then. -/
theorem ends_chooseOn_copy (hσ : σ.store.Sound) (hown : σ.store.ownDependency? n key = none)
    (version : VersionText) :
    Ends (do
        let id ← n.copyInherited key
        chooseOn id version
        Action.update (·.insert n key id)
        return id)
      (fun id τ => σ.store.Assigned n key (some version) id τ.store)
      (fun τ => σ.store.Extends τ.store) σ := by
  obtain ⟨id, τ, hcopy, hextends, hfresh, -⟩ := run_copyInherited hσ n key
  refine .of_run (run_bind_ok hcopy _) ?_
  rcases run_chooseOn_cases id version τ with ⟨e, hrun⟩ | ⟨outcome, υ, hchoose, hrun, hreselected⟩
  · exact .of_error (run_bind_error hrun _) hextends
  · obtain ⟨hrecord, hothers⟩ := Store.others_of_reselected hextends.kept hreselected
    have hputs : σ.store.Puts n key id (υ.store.insert n key id) :=
      .of_insert (hreselected.contents.trans hextends.contents) hothers
    have hnarrows : outcome.dependency.Narrows ((υ.store.insert n key id).dependency id) := by
      rw [Store.dependency_insert]
      exact .of_reselects hrecord
    refine .of_run (run_bind_ok hrun _) (.of_ok rfl (hputs.assigned hchoose hnarrows ?_ ?_))
    -- the copy is new, and before it the key held no dependency
    · exact fun hid => absurd hfresh (Nat.not_le_of_gt hid)
    · intro i hi _ _
      rw [Store.ownDependency?_eq_some.2 hi] at hown
      exact nomatch hown

/-- Using a version assigns it, or adds at most a copy that no key holds. -/
theorem ends_useVersionAs (hσ : σ.store.Sound) (n : Namespace) (key text : String) :
    Ends (n.useVersionAs key text)
      (fun id τ => σ.store.Assigned n key (VersionText.parse text).toOption id τ.store)
      (fun τ => σ.store.Extends τ.store) σ := by
  unfold useVersionAs
  cases VersionText.parse text with
  | error e => exact .of_error rfl (.refl hσ)
  | ok version =>
    refine .of_run (run_bind_ok (run_ofExcept _ σ) _) ?_
    refine .of_run (run_bind_ok (run_view _ σ) _) ?_
    cases hown : σ.store.ownDependency? n key with
    | some id => exact ends_chooseOn_held hσ hown version
    | none => exact ends_chooseOn_copy hσ hown version

/-! ## §4. Assigning a text. -/

theorem ends_useTextAs (hσ : σ.store.Sound) (n : Namespace) (key text : String) :
    Ends (n.useTextAs key text)
      (fun id τ => σ.store.Assigned n key (VersionText.written? text) id τ.store)
      (fun τ => σ.store.Extends τ.store) σ := by
  unfold useTextAs VersionText.written?
  split
  · cases Spec.parse text with
    | error e => exact .of_error rfl (.refl hσ)
    | ok spec => exact .of_run (run_bind_ok (run_ofExcept _ σ) _) (ends_useSpecAs hσ n key spec)
  · exact ends_useVersionAs hσ n key text

/-- A text that is assigned to a key of this very namespace. -/
theorem ends_setHere_text (hσ : σ.store.Sound) (n : Namespace) (key text : String) :
    Ends (n.setHere key (.text text))
      (fun _ τ => ∃ key' id, σ.store.Assigned n key' (VersionText.written? text) id τ.store)
      (fun τ => σ.store.Extends τ.store) σ := by
  cases hkey : σ.store.assignedKey? n key with
  | none =>
    have hlocal := n.run_localKey key σ
    rw [hkey] at hlocal
    exact .of_error (run_bind_error hlocal _) (.refl hσ)
  | some key' =>
    by_cases hfree : ((σ.store.entryAt? n key').bind Entry.sub?).isNone
    · refine .of_run (run_setHere_text hkey hfree text) (.map ?_)
      have huse := ends_useTextAs hσ n key' text
      exact ⟨fun id τ hrun => ⟨key', id, huse.1 id τ hrun⟩, huse.2⟩
    · have hensure := n.run_ensureNoSub key' σ
      rw [if_neg hfree] at hensure
      have hlocal := run_localKey_of_assignedKey? hkey
      exact .of_error ((run_bind_ok hlocal _).trans (run_bind_error hensure _)) (.refl hσ)

/-- A text is assigned where the key leads, or the store is as it was but for new dependencies. -/
theorem ends_set_text (hσ : σ.store.Sound) (n : Namespace) (key text : String) :
    Ends (n.set key (.text text))
      (fun _ τ => ∃ m key' id,
        σ.store.Assigned m key' (VersionText.written? text) id τ.store)
      (fun τ => σ.store.Extends τ.store) σ := by
  obtain ⟨hok, herror⟩ :=
    ends_setHere_text hσ (σ.store.landing n key).1 (σ.store.landing n key).2 text
  refine .of_run (n.run_set key (.text text) σ) ⟨?_, herror⟩
  intro e τ hrun
  exact ⟨_, hok e τ hrun⟩

end Namespace

/-! ## §5. What several assignments keep. -/

/-- The key holds the dependency `id`, whose record says what `d` says at least. -/
structure Store.Pinned (n : Namespace) (key : String) (id : DependencyId) (d : Dependency)
    (s : Store) : Prop where
  entry : s.entryAt? n key = some (.dependency id)
  record : d.Narrows (s.dependency id)

namespace Store.Pinned

variable {n m : Namespace} {key key' : String} {id id' : DependencyId} {d : Dependency}
  {s t : Store} {part : Option VersionText}

theorem issued (h : Pinned n key id d s) (hs : s.Sound) : id < s.nextDependency :=
  hs.ordered.entries n key id (ownDependency?_eq_some.2 h.entry)

theorem of_extends (h : Pinned n key id d s) (hs : s.Sound) (ht : s.Extends t) :
    Pinned n key id d t where
  entry := (entryAt?_of_contents ht.contents n key).trans h.entry
  record := by
    rw [ht.kept id (h.issued hs)]
    exact h.record

/-- A text may be assigned to any key of any namespace. -/
theorem of_assigned (h : Pinned n key id d s) (hs : s.Sound) (hsingle : d.isGroup = false)
    (hrequirement : d.requirement.isSome) (ht : s.Assigned m key' part id' t) :
    Pinned n key id d t where
  entry := by
    rw [ht.entries]
    split
    · next heq =>
      -- the key itself: the text was used on the dependency that it holds
      obtain ⟨rfl, rfl⟩ := heq
      have hgroup : (s.dependency id).isGroup = false := h.record.isGroup.trans hsingle
      rw [ht.held id h.entry hgroup (h.record.isSome_requirement hrequirement)]
    · exact h.entry
  record := h.record.trans (ht.narrows (h.issued hs))

end Store.Pinned

namespace Session

variable {n : Namespace} {key : String} {id : DependencyId} {d : Dependency} {σ : Session}

/-- The session after several texts were assigned to keys of a namespace, one after the other. -/
def afterTexts (σ : Session) (n : Namespace) (texts : List (String × String)) : Session :=
  σ.afterAll (texts.map fun pair => .set n pair.1 (.text pair.2))

theorem after_set (σ : Session) (n : Namespace) (key : String) (value : Value) :
    σ.after (.set n key value) = ((n.set key value).run σ).2 :=
  run_return _ _ σ

theorem afterTexts_cons (σ : Session) (n : Namespace) (pair : String × String)
    (rest : List (String × String)) :
    σ.afterTexts n (pair :: rest)
      = ((n.set pair.1 (.text pair.2)).run σ).2.afterTexts n rest := by
  unfold afterTexts
  rw [List.map_cons, afterAll_cons, after_set]

theorem afterTexts_append (σ : Session) (n : Namespace) (earlier later : List (String × String)) :
    σ.afterTexts n (earlier ++ later) = (σ.afterTexts n earlier).afterTexts n later := by
  unfold afterTexts afterAll
  rw [List.map_append, List.foldl_append]

/-- One text keeps the key. -/
theorem pinned_set (hσ : σ.store.Sound) (h : Store.Pinned n key id d σ.store)
    (hsingle : d.isGroup = false) (hrequirement : d.requirement.isSome) (m : Namespace)
    (key' text : String) : Store.Pinned n key id d ((m.set key' (.text text)).run σ).2.store := by
  obtain ⟨hok, herror⟩ := m.ends_set_text hσ key' text
  rcases hrun : (m.set key' (.text text)).run σ with ⟨result, τ⟩
  cases result with
  | ok e =>
    obtain ⟨place, key'', id', hassigned⟩ := hok e τ hrun
    exact h.of_assigned hσ hsingle hrequirement hassigned
  | error e => exact h.of_extends hσ (herror e τ hrun)

theorem sound_afterTexts (n : Namespace) (texts : List (String × String))
    (hσ : σ.store.Sound) : (σ.afterTexts n texts).store.Sound := by
  induction texts generalizing σ with
  | nil => exact hσ
  | cons pair rest ih =>
    rw [afterTexts_cons]
    exact ih (growsAt_set hσ n pair.1 (.text pair.2)).1.sound

/-- All texts together keep the key. -/
theorem pinned_afterTexts (hsingle : d.isGroup = false) (hrequirement : d.requirement.isSome)
    (m : Namespace) (texts : List (String × String)) (hσ : σ.store.Sound)
    (h : Store.Pinned n key id d σ.store) :
    Store.Pinned n key id d (σ.afterTexts m texts).store := by
  induction texts generalizing σ with
  | nil => exact h
  | cons pair rest ih =>
    rw [afterTexts_cons]
    have hsound := (growsAt_set hσ m pair.1 (.text pair.2)).1.sound
    have hstep := pinned_set hσ h hsingle hrequirement m pair.1 pair.2
    exact ih hsound hstep

end Session

/-! ## §6. At the key itself. -/

/-- A version has no shape of a spec. -/
theorem looksLikeSpec_of_ofText? {text : String} {v : Version} (h : Version.ofText? text = some v) :
    looksLikeSpec text = false := by
  unfold Version.ofText? at h
  split at h
  · next hversion =>
    have hcolons : colons text = 0 := by
      rw [← colons_trim]
      unfold isVersionText at hversion
      have hchars := List.all_eq_true.1 (Bool.and_eq_true_iff.1 hversion).1
      exact List.count_eq_zero.2 fun hmem => absurd (hchars ':' hmem) (by decide)
    unfold looksLikeSpec
    rw [hcolons]
    rfl
  · cases h

namespace Namespace

variable {n : Namespace} {key text : String} {id : DependencyId} {σ : Session}

/-- A text that is assigned to a name which holds a dependency is used there. -/
theorem run_set_text_of_held (hname : looksLikeSpec (trim key) = false)
    (hentry : σ.store.entryAt? n (trim key) = some (.dependency id)) :
    (n.set key (.text text)).run σ
      = (do return Entry.dependency (← n.useTextAs (trim key) text) : Action Entry).run σ := by
  have hlanding : σ.store.landing n key = (n, trim key) := by
    unfold Store.landing
    rw [hentry, Option.isSome_some, Bool.or_true, if_pos rfl]
  have hkey := σ.store.assignedKey?_of_name n hname
  have hfree : ((σ.store.entryAt? n (trim key)).bind Entry.sub?).isNone := by
    rw [hentry]
    rfl
  rw [run_set, hlanding]
  exact run_setHere_text hkey hfree text

/-- A requirement that is assigned to the key narrows that of the dependency there. -/
theorem within_of_set_text (hσ : σ.store.Sound) (hname : looksLikeSpec (trim key) = false)
    (hentry : σ.store.entryAt? n (trim key) = some (.dependency id))
    (hsingle : (σ.store.dependency id).isGroup = false)
    (hrequirement : (σ.store.dependency id).requirement.isSome) {e : Entry} {τ : Session}
    (hrun : (n.set key (.text text)).run σ = (.ok e, τ)) {r : Requirement}
    (hr : VersionText.written? text = some (.constraint r)) :
    ∃ r', (τ.store.dependency id).requirement = some r' ∧ r'.Within r := by
  rw [run_set_text_of_held hname hentry] at hrun
  have huse := ends_useTextAs hσ n (trim key) text
  have hends : Ends (do return Entry.dependency (← n.useTextAs (trim key) text))
      (fun _ τ => ∃ id', σ.store.Assigned n (trim key) (VersionText.written? text) id' τ.store)
      (fun τ => σ.store.Extends τ.store) σ :=
    .map ⟨fun id' υ h => ⟨id', huse.1 id' υ h⟩, huse.2⟩
  obtain ⟨id', hassigned⟩ := hends.1 e τ hrun
  obtain rfl := hassigned.held id hentry hsingle hrequirement
  exact hassigned.within r hr

/-- A version can be assigned to the key exactly if the requirement there accepts it. -/
theorem set_version_ok_iff (hname : looksLikeSpec (trim key) = false)
    (hentry : σ.store.entryAt? n (trim key) = some (.dependency id)) {r : Requirement}
    (hr : (σ.store.dependency id).requirement = some r) {v : Version}
    (hv : Version.ofText? text = some v) :
    (∃ e τ, (n.set key (.text text)).run σ = (.ok e, τ)) ↔ r.accepts v = true := by
  have hparse : VersionText.parse text = .ok (.plain v) := by
    unfold VersionText.parse
    rw [hv]
  have hown : σ.store.ownDependency? n (trim key) = some id :=
    Store.ownDependency?_eq_some.2 hentry
  -- a version text is used on what the key holds
  have huse : (n.useTextAs (trim key) text).run σ
      = (do chooseOn id (.plain v); return id : Action DependencyId).run σ := by
    unfold useTextAs useVersionAs
    rw [looksLikeSpec_of_ofText? hv, if_neg Bool.false_ne_true, hparse,
      run_bind_ok (run_ofExcept _ σ), run_bind_ok (run_view _ σ), hown]
  -- so the assignment succeeds exactly if the record takes the version
  have hchosen := run_chooseOn id (.plain v) σ
  rw [run_set_text_of_held hname hentry, run_bind, huse, ← Dependency.choose_plain_ok_iff hr v]
  cases hchoose : (σ.store.dependency id).choose none (some (.plain v)) with
  | error e =>
    rw [hchoose] at hchosen
    rw [run_bind_error hchosen]
    exact ⟨fun ⟨_, _, h⟩ => (nomatch h), fun ⟨_, h⟩ => nomatch h⟩
  | ok outcome =>
    obtain ⟨τ, hsettle, -⟩ := run_settle id outcome σ
    rw [hchoose] at hchosen
    rw [run_bind_ok (hchosen.trans hsettle)]
    exact ⟨fun _ => ⟨outcome, rfl⟩, fun _ => ⟨_, τ, rfl⟩⟩

end Namespace

namespace Session

variable {σ : Session} {followsProjects : Bool}

section Held

variable {n : Namespace} {key : String} {id : DependencyId}

/-- What is said about a dependency with a requirement is only narrowed later. -/
theorem narrows_afterTexts (hσ : σ.store.Sound) (hheld : σ.store.ownSingle? n key = some id)
    (hsome : (σ.store.dependency id).requirement.isSome) (texts : List (String × String)) :
    (σ.afterTexts n texts).store.ownSingle? n key = some id ∧
      (σ.store.dependency id).Narrows ((σ.afterTexts n texts).store.dependency id) := by
  obtain ⟨hentry, hsingle⟩ := Store.ownSingle?_eq_some.1 hheld
  have hpinned : Store.Pinned n key id (σ.store.dependency id) (σ.afterTexts n texts).store :=
    pinned_afterTexts hsingle hsome n texts hσ ⟨hentry, .refl _⟩
  have hgroup := hpinned.record.isGroup.trans hsingle
  exact ⟨Store.ownSingle?_eq_some.2 ⟨hpinned.entry, hgroup⟩, hpinned.record⟩

/-- So it is between any two of the assignments. -/
theorem narrows_afterTexts_append (hσ : σ.store.Sound)
    (hheld : σ.store.ownSingle? n key = some id)
    (hsome : (σ.store.dependency id).requirement.isSome) (earlier later : List (String × String)) :
    ((σ.afterTexts n earlier).store.dependency id).Narrows
      ((σ.afterTexts n (earlier ++ later)).store.dependency id) := by
  obtain ⟨hthen, hnarrowed⟩ := narrows_afterTexts hσ hheld hsome earlier
  rw [afterTexts_append]
  exact (narrows_afterTexts (sound_afterTexts n earlier hσ) hthen
    (hnarrowed.isSome_requirement hsome) later).2

/-- A requirement that was assigned to the name stays in force. -/
theorem within_afterTexts (hσ : σ.store.Sound) (hname : looksLikeSpec (trim key) = false)
    (hheld : σ.store.ownSingle? n (trim key) = some id)
    (hsome : (σ.store.dependency id).requirement.isSome) {earlier later : List (String × String)}
    {text : String}
    (hsucceeds : (Assignment.mk (σ.afterTexts n earlier) n key (.text text)).Succeeds)
    {r : Requirement} (hr : VersionText.written? text = some (.constraint r)) :
    ∃ r', ((σ.afterTexts n (earlier ++ (key, text) :: later)).store.dependency id).requirement
      = some r' ∧ r'.Within r := by
  obtain ⟨hthen, hnarrowed⟩ := narrows_afterTexts hσ hheld hsome earlier
  obtain ⟨hentry, hsingle⟩ := Store.ownSingle?_eq_some.1 hthen
  obtain ⟨e, τ, hrun⟩ := hsucceeds
  -- the assignment itself leaves a requirement within `r`, and what follows only narrows that
  obtain ⟨r', hr', hwithin⟩ := Namespace.within_of_set_text (sound_afterTexts n earlier hσ) hname
    hentry hsingle (hnarrowed.isSome_requirement hsome) hrun hr
  have hstep : σ.afterTexts n (earlier ++ [(key, text)]) = τ := by
    rw [afterTexts_append, afterTexts_cons]
    exact congrArg Prod.snd hrun
  have hrest := narrows_afterTexts_append hσ hheld hsome (earlier ++ [(key, text)]) later
  rw [hstep, List.append_assoc] at hrest
  obtain ⟨r'', hr'', hnarrower⟩ := hrest.requirement r' hr'
  exact ⟨r'', hr'', hnarrower.trans hwithin⟩

end Held

/-- A name of a namespace holds a dependency that is no group and whose requirement accepts its
selection.  Then texts may be assigned to keys of the namespace, and the name keeps the dependency,
and that its coordinate.  Its requirement is within the first one and within each requirement that
was assigned to the name, it accepts the selection, and it decides on further versions. -/
theorem narrowed_afterTexts (h : Reached followsProjects σ) {n : Namespace} {key : String}
    {id : DependencyId} {r₀ : Requirement} (hname : looksLikeSpec (trim key) = false)
    (hheld : σ.store.ownSingle? n (trim key) = some id)
    (hrequirement : (σ.store.dependency id).requirement = some r₀)
    (hconsistent : (σ.store.dependency id).Consistent) (texts : List (String × String)) :
    (σ.afterTexts n texts).store.ownSingle? n (trim key) = some id ∧
      (∀ earlier later c, texts = earlier ++ later →
        ((σ.afterTexts n earlier).store.dependency id).coordinate = some c →
        ((σ.afterTexts n texts).store.dependency id).coordinate = some c) ∧
      ∃ r, ((σ.afterTexts n texts).store.dependency id).requirement = some r ∧ r.Within r₀ ∧
        (∀ earlier key' text later s, texts = earlier ++ (key', text) :: later →
          trim key' = trim key →
          (Assignment.mk (σ.afterTexts n earlier) n key' (.text text)).Succeeds →
          VersionText.written? text = some (.constraint s) → r.Within s) ∧
        (∀ v, ((σ.afterTexts n texts).store.dependency id).selected = some v →
          r.accepts v = true) ∧
        ∀ text v, Version.ofText? text = some v →
          ((Assignment.mk (σ.afterTexts n texts) n key (.text text)).Succeeds ↔
            r.accepts v = true) := by
  have hsome : (σ.store.dependency id).requirement.isSome := Option.isSome_of_eq_some hrequirement
  obtain ⟨hend, hnarrows⟩ := narrows_afterTexts h.sound hheld hsome texts
  obtain ⟨r, hr, hwithin⟩ := hnarrows.requirement r₀ hrequirement
  refine ⟨hend, ?_, r, hr, hwithin, ?_, ?_, ?_⟩
  · rintro earlier later c rfl hc
    exact (narrows_afterTexts_append h.sound hheld hsome earlier later).coordinate c hc
  -- what was demanded on the way is still demanded, as later texts only narrow
  · rintro earlier key' text later s rfl hkey hsucceeds hs
    rw [← hkey] at hname hheld
    obtain ⟨s', hs', hdemand⟩ := within_afterTexts h.sound hname hheld hsome hsucceeds hs
    obtain rfl : r = s' := Option.some.inj (hr.symm.trans hs')
    exact hdemand
  · exact fun v hv => hnarrows.consistent hsome hconsistent r v hr hv
  · intro text v hv
    exact Namespace.set_version_ok_iff hname (Store.ownSingle?_eq_some.1 hend).1 hr hv

/-- The root declares `k` to be at least 1, and `a` is another key for it. -/
def declaredRun : Session :=
  (start true).afterAll [.needAs (.registered rootName 0) "k" (.text "g:i:t:>=1"),
    .addAlias (.registered rootName 0) "a" "k"]

theorem reached_declaredRun : Reached true declaredRun :=
  .after (.after .start trivial) trivial

/-- Both keys narrow it: a version between 2 and 5 can be assigned in the end, but not version 7. -/
theorem narrowed_declaredRun :
    let texts := [("k", "g:i:t:<5"), ("a", "1"), ("a", ">=2"), ("k", "2-rc1")]
    let τ := declaredRun.afterTexts (.registered rootName 0) texts
    τ.store.ownSingle? (.registered rootName 0) (trim "k") = some 0 ∧
      (Assignment.mk τ (.registered rootName 0) "k" (.text "3")).Succeeds ∧
      ¬(Assignment.mk τ (.registered rootName 0) "k" (.text "7")).Succeeds := by
  intro texts τ
  have hname : looksLikeSpec (trim "k") = false := by decide +kernel
  have hheld : declaredRun.store.ownSingle? (.registered rootName 0) (trim "k") = some 0 := by
    decide +kernel
  have hrequirement : (declaredRun.store.dependency 0).requirement.isSome := by decide +kernel
  have hunselected : (declaredRun.store.dependency 0).selected = none := by decide +kernel
  obtain ⟨r₀, hr₀⟩ := Option.isSome_iff_exists.1 hrequirement
  obtain ⟨hend, -, r, hr, -, -, -, hversions⟩ := narrowed_afterTexts reached_declaredRun hname hheld
    hr₀ (Dependency.consistent_of_unselected hunselected) texts
  have haccepts : ((τ.store.dependency 0).requirement.bind fun r =>
      (Version.ofText? "3").map r.accepts) = some true := by decide +kernel
  have hrejects : ((τ.store.dependency 0).requirement.bind fun r =>
      (Version.ofText? "7").map r.accepts) = some false := by decide +kernel
  rw [hr, Option.bind_some] at haccepts hrejects
  obtain ⟨three, hthree, hyes⟩ := Option.map_eq_some_iff.1 haccepts
  obtain ⟨seven, hseven, hno⟩ := Option.map_eq_some_iff.1 hrejects
  refine ⟨hend, (hversions "3" three hthree).2 hyes, fun hsucceeds => ?_⟩
  have haccepted := (hversions "7" seven hseven).1 hsucceeds
  rw [hno] at haccepted
  exact nomatch haccepted

end Session

end DependencyScope
