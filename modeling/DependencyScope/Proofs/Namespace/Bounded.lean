/-
  DependencyScope.Proofs.Namespace.Bounded — assignments under a requirement of the ancestors.

  What a namespace selects under a key is bounded by the requirement that the nearest ancestor holds
  as long as nothing gets past it: a spec meets it, and so does a version that is used on a record
  which carries it.  What is bounded stays so, as requirements are only narrowed.

  Main definitions:
    * `Dependency.Carries`, `Dependency.Bounded`, `Store.BoundedAt` — a record, and what a key holds.

  Main results:
    * `Namespace.boundedAt_setHere_text`, `Namespace.boundedAt_setHere_group` — one assignment.
-/
import DependencyScope.Proofs.Namespace.Inherit
import DependencyScope.Proofs.Store.Placed

namespace DependencyScope

open DependencyScope.Text DependencyScope.Action

/-! ## §1. Records under a requirement of others. -/

namespace Dependency

variable {c : Coordinate} {r : Requirement} {d d' : Dependency}

/-- If the record may stand for `c`, then it requires at least what `r` does. -/
def Carries (c : Coordinate) (r : Requirement) (d : Dependency) : Prop :=
  d.admits c → ∃ r', d.requirement = some r' ∧ r'.Within r

/-- If the record may stand for `c`, then it requires at least what `r` does, and selects nothing
else. -/
structure Bounded (c : Coordinate) (r : Requirement) (d : Dependency) : Prop where
  carries : d.Carries c r
  consistent : d.admits c → d.Consistent

theorem admits_iff : d.admits c ↔ ∀ c', d.coordinate = some c' → c' = c := by
  unfold admits
  cases d.coordinate with
  | none => simp
  | some c' => simp

theorem Carries.of_core (h : d'.Carries c r) (hcore : d.core = d'.core) : d.Carries c r := by
  show d.core.Carries c r
  rw [hcore]
  exact h

theorem Narrows.admits (hd : d.Narrows d') (h : d'.admits c) : d.admits c :=
  admits_iff.2 fun c' hc' => admits_iff.1 h c' (hd.coordinate c' hc')

namespace Bounded

theorem of_not_admits (h : ¬d.admits c) : d.Bounded c r :=
  ⟨fun hc => absurd hc h, fun hc => absurd hc h⟩

theorem accepts (h : d.Bounded c r) (hc : d.admits c) {v : Version} (hv : d.selected = some v) :
    r.accepts v = true := by
  obtain ⟨r', hr', hwithin⟩ := h.carries hc
  exact hwithin v (h.consistent hc r' v hr' hv)

theorem narrows (h : d.Bounded c r) (hd : d.Narrows d') : d'.Bounded c r := by
  constructor
  · intro hc
    obtain ⟨r', hr', hwithin⟩ := h.carries (hd.admits hc)
    obtain ⟨r'', hr'', hwithin'⟩ := hd.requirement r' hr'
    exact ⟨r'', hr'', hwithin'.trans hwithin⟩
  · intro hc
    obtain ⟨r', hr', -⟩ := h.carries (hd.admits hc)
    exact hd.consistent (Option.isSome_of_eq_some hr') (h.consistent (hd.admits hc))

end Bounded

/-- A version part is applied under the requirement in effect; without one, nothing is checked. -/
theorem bounded_of_choose {inherited : Option Requirement} {part : Option VersionText}
    {outcome : Outcome} (h : d.choose inherited part = .ok outcome)
    (heffective : d.admits c → ∃ r', d.requirement.or inherited = some r' ∧ r'.Within r)
    (hunchecked : part = none → d.admits c → (d.inheriting inherited).Consistent) :
    outcome.dependency.Bounded c r := by
  obtain ⟨default, selected, hdependency⟩ := choose_spec h
  have hadmits : outcome.dependency.admits c = d.admits c := by rw [hdependency]; rfl
  constructor
  · intro hc
    obtain ⟨r', hr', hwithin⟩ := heffective (hadmits ▸ hc)
    obtain ⟨r'', hr'', hwithin'⟩ := VersionText.demand_within part
    rw [hdependency, hr']
    exact ⟨r'', hr'', hwithin'.trans hwithin⟩
  · intro hc
    cases part with
    | some version => exact consistent_of_choose h
    | none =>
      cases h
      exact hunchecked rfl hc

end Dependency

namespace Store

variable {s t : Store} {n : Namespace} {key key' : String} {c : Coordinate} {r : Requirement}

/-- What the key holds, unless it is a group, is bounded by the requirement. -/
def BoundedAt (s : Store) (n : Namespace) (key : String) (c : Coordinate) (r : Requirement) : Prop :=
  ∀ id, s.ownSingle? n key = some id → (s.dependency id).Bounded c r

namespace BoundedAt

/-- Records may be narrowed as long as the key holds the same. -/
theorem of_narrows (h : s.BoundedAt n key c r)
    (hentry : t.entryAt? n key = s.entryAt? n key)
    (hrecord : ∀ id, s.entryAt? n key = some (.dependency id) →
      (s.dependency id).Narrows (t.dependency id)) : t.BoundedAt n key c r := by
  intro id hid
  obtain ⟨hheld, hsingle⟩ := ownSingle?_eq_some.1 hid
  rw [hentry] at hheld
  have hnarrows := hrecord id hheld
  exact (h id (ownSingle?_eq_some.2 ⟨hheld, hnarrows.isGroup.symm.trans hsingle⟩)).narrows hnarrows

theorem of_reselected (h : s.BoundedAt n key c r) (ht : s.Reselected t) : t.BoundedAt n key c r :=
  h.of_narrows (entryAt?_of_contents ht.contents n key) fun id _ => .of_reselects (ht.records id)

/-- A text was assigned, and the key holds what it held before. -/
theorem of_assigned {part : Option VersionText} {id : DependencyId} (h : s.BoundedAt n key c r)
    (hs : s.Sound) (ht : s.Assigned n key' part id t)
    (hsame : key' = key → s.entryAt? n key = some (.dependency id)) : t.BoundedAt n key c r := by
  refine h.of_narrows ?_ fun i hi => ?_
  · rw [ht.entries]
    split
    · next heq => exact (hsame heq.2).symm
    · rfl
  · exact ht.narrows (hs.ordered.entries n key i (ownDependency?_eq_some.2 hi))

/-- What the key holds is known. -/
theorem of_entryAt? {id : DependencyId} (hentry : s.entryAt? n key = some (.dependency id))
    (h : (s.dependency id).Bounded c r) : s.BoundedAt n key c r := by
  intro i hi
  obtain rfl := Entry.dependency.inj (Option.some.inj
    (hentry.symm.trans (ownSingle?_eq_some.1 hi).1))
  exact h

end BoundedAt

end Store

namespace Namespace

variable {n : Namespace} {key key' text : String} {c : Coordinate} {r : Requirement}
  {σ τ : Session}

/-! ## §2. Using texts. -/

/-- The record that a spec is used on is bounded, or it is new and under what it inherits. -/
theorem bounded_specOutcome {spec : Spec} {outcome : Dependency.Outcome} {s : Store}
    (h : s.BoundedAt n key c r) (hr : (n.inheritedRequirement key c).answer s = some r)
    (houtcome : s.specOutcome n key spec = .ok outcome) : outcome.dependency.Bounded c r := by
  obtain ⟨part, -, hchoose⟩ := Store.specOutcome_ok houtcome
  cases hown : s.ownFor? n key spec.coordinate with
  | some id =>
    have hbounded := h id (Option.filter_eq_some_iff.1 hown).1
    rw [recordFor_of_ownFor? hown] at hchoose
    refine Dependency.bounded_of_choose hchoose ?_ ?_
    · intro hc
      obtain ⟨r', hr', hwithin⟩ := hbounded.carries hc
      exact ⟨r', by rw [hr', Option.some_or], hwithin⟩
    · intro _ hc
      obtain ⟨r', hr', -⟩ := hbounded.carries hc
      exact (Dependency.inheriting_consistent_iff (hbounded.consistent hc) _).2
        fun hrejected => nomatch hrejected.1.symm.trans hr'
  | none =>
    have hrecord := recordFor_of_free hown
    have hinherited : s.requirementBeyond n key spec.coordinate
        = (n.inheritedRequirement key spec.coordinate).answer s := by
      unfold Store.requirementBeyond
      rw [hrecord]
      rfl
    rw [hrecord, hinherited] at hchoose
    refine Dependency.bounded_of_choose hchoose ?_ ?_
    · intro hc
      rw [Dependency.admits_iff.1 hc spec.coordinate rfl, hr]
      exact ⟨r, rfl, .refl r⟩
    · exact fun _ _ => Dependency.consistent_of_unselected rfl

theorem boundedAt_useSpecAs {spec : Spec} {id : DependencyId} (h : σ.store.BoundedAt n key c r)
    (hr : (n.inheritedRequirement key c).answer σ.store = some r)
    (hrun : (n.useSpecAs key spec).run σ = (.ok id, τ)) : τ.store.BoundedAt n key c r := by
  obtain ⟨υ, ⟨names, rfl⟩, hspec⟩ := n.run_useSpecAs key spec σ
  cases houtcome : σ.store.specOutcome n key spec with
  | error e =>
    rw [houtcome, hrun] at hspec
    exact nomatch hspec
  | ok outcome =>
    rw [houtcome, hrun] at hspec
    obtain ⟨φ, hput, hputs, hrecord⟩ := n.run_putOutcome key (σ.store.ownFor? n key spec.coordinate)
      (σ.store.recordFor n key spec.coordinate) (admits_of_specOutcome houtcome)
      { σ with listed := names }
    obtain ⟨-, rfl⟩ := Prod.mk.inj (hspec.trans hput)
    refine .of_entryAt? ((hputs.entries n key).trans (if_pos ⟨rfl, rfl⟩)) ?_
    exact (bounded_specOutcome h hr houtcome).narrows hrecord

/-- A version is used on a copy of what an ancestor holds under the key, or on a new record. -/
theorem boundedAt_useVersionAs_of_none {id : DependencyId} (hσ : σ.store.Sound)
    (hbare : looksLikeSpec text = false) (hown : σ.store.ownDependency? n key = none)
    (hcarries : (σ.store.usedRecord n key text).Carries c r)
    (hrun : (n.useVersionAs key text).run σ = (.ok id, τ)) : τ.store.BoundedAt n key c r := by
  unfold useVersionAs at hrun
  cases hparse : VersionText.parse text with
  | error e =>
    rw [hparse] at hrun
    exact nomatch hrun
  | ok version =>
    obtain ⟨copy, υ, hcopy, -, -, -⟩ := run_copyInherited hσ n key
    have hcopied := hcarries.of_core (record_copyInherited hσ hbare hown hcopy)
    rw [hparse, run_bind_ok (run_ofExcept _ σ), run_bind_ok (run_view _ σ), hown] at hrun
    dsimp only at hrun
    rw [run_bind_ok hcopy] at hrun
    obtain ⟨_, φ, hchosen, hlast⟩ := run_bind_eq_ok.1 hrun
    rcases run_chooseOn_cases copy version υ with
      ⟨e, herror⟩ | ⟨outcome, ψ, hchoose, hdone, hreselected⟩
    · exact nomatch herror.symm.trans hchosen
    · obtain ⟨-, rfl⟩ := Prod.mk.inj (hchosen.symm.trans hdone)
      obtain ⟨-, rfl⟩ := Prod.mk.inj hlast
      have hbounded : outcome.dependency.Bounded c r := by
        refine Dependency.bounded_of_choose hchoose ?_ fun hnone => nomatch hnone
        intro hc
        obtain ⟨r', hr', hwithin⟩ := hcopied hc
        exact ⟨r', by rw [hr', Option.some_or], hwithin⟩
      refine .of_entryAt? (Store.entryAt?_insert_self _ n key copy) ?_
      rw [Store.dependency_insert]
      have hrecord := hreselected.records copy
      rw [Store.dependency_putDependency, if_pos rfl] at hrecord
      exact hbounded.narrows (.of_reselects hrecord)

/-- A version is used on what the key holds, or else on a record that carries the requirement. -/
theorem boundedAt_useVersionAs {id : DependencyId} (hσ : σ.store.Sound)
    (hbare : looksLikeSpec text = false) (h : σ.store.BoundedAt n key c r)
    (hcarries : (σ.store.usedRecord n key text).Carries c r)
    (hrun : (n.useVersionAs key text).run σ = (.ok id, τ)) : τ.store.BoundedAt n key c r := by
  cases hown : σ.store.ownDependency? n key with
  | none => exact boundedAt_useVersionAs_of_none hσ hbare hown hcarries hrun
  | some held =>
    have hassigned := (ends_useVersionAs hσ n key text).1 id τ hrun
    refine h.of_assigned hσ hassigned fun _ => ?_
    -- the dependency that is given back is the one that the key held
    unfold useVersionAs at hrun
    obtain ⟨version, υ, hparsed, hrest⟩ := run_bind_eq_ok.1 hrun
    obtain ⟨-, rfl⟩ := Prod.mk.inj hparsed
    rw [run_bind_ok (run_view _ _), hown] at hrest
    obtain ⟨_, _, -, hlast⟩ := run_bind_eq_ok.1 hrest
    cases hlast
    exact Store.ownDependency?_eq_some.1 hown

/-- A text is assigned to a key of this very namespace; if that is the key in question, the text is a
spec or a version to be used on a record that carries the requirement. -/
theorem boundedAt_setHere_text {e : Entry} (hσ : σ.store.Sound) (h : σ.store.BoundedAt n key c r)
    (hr : (n.inheritedRequirement key c).answer σ.store = some r)
    (hcarries : looksLikeSpec text = false → σ.store.assignedKey? n key' = some key →
      (σ.store.usedRecord n key text).Carries c r)
    (hrun : (n.setHere key' (.text text)).run σ = (.ok e, τ)) : τ.store.BoundedAt n key c r := by
  obtain ⟨key'', id, hkey, -, huse⟩ := exists_of_assigned (n.useTextAs · text) hrun
  by_cases heq : key'' = key
  · subst heq
    unfold useTextAs at huse
    split at huse
    · obtain ⟨spec, υ, hparsed, huse⟩ := run_bind_eq_ok.1 huse
      obtain ⟨-, rfl⟩ := Prod.mk.inj hparsed
      exact boundedAt_useSpecAs h hr huse
    · next hspec =>
      have hbare : looksLikeSpec text = false := Bool.eq_false_of_not_eq_true hspec
      exact boundedAt_useVersionAs hσ hbare h (hcarries hbare hkey) huse
  · have hassigned := (ends_useTextAs hσ n key'' text).1 id _ huse
    exact h.of_assigned hσ hassigned fun hsame => absurd hsame heq

/-! ## §3. Using groups. -/

/-- The members of a group are registered as they are. -/
theorem dependency_grouped_member (s : Store) (n : Namespace) (key : String)
    {members : List Dependency} {id : DependencyId} (hid : id ∈ (Store.addAll members s).1) :
    (n.grouped key members s).dependency id ∈ members := by
  obtain ⟨hrecords, hissued, -, -⟩ := Store.addAll_spec members s
  have hbehind : groupId members s ≠ id := Nat.ne_of_gt (hissued id hid)
  rw [dependency_grouped, if_neg hbehind]
  have hmem := List.mem_map_of_mem hid (f := (Store.addAll members s).2.dependency)
  rw [hrecords] at hmem
  exact hmem

/-- Another key than that of the group holds what it did, or it was free and a member takes it. -/
theorem entryAt?_grouped_cases (s : Store) (n : Namespace) (members : List Dependency)
    (hne : key' ≠ key) :
    (n.grouped key' members s).entryAt? n key = s.entryAt? n key ∨
      s.entryAt? n key = none ∧ ∃ id ∈ (Store.addAll members s).1,
        ((n.grouped key' members s).dependency id).key = key ∧
          (n.grouped key' members s).entryAt? n key = some (.dependency id) := by
  let added := Store.addAll members s
  let store := (added.2.addDependency { key := key', members := added.1 }).2.putEntry n key'
    (.dependency (groupId members s))
  have hregisters := Store.Registers.registerMembers n true added.1 store
  have hbefore : store.entryAt? n key = s.entryAt? n key := by
    rw [Store.entryAt?_putEntry, if_neg fun hsame => hne hsame.2]
    exact Store.entryAt?_of_contents (Store.contents_addAll members s) n key
  rcases hregisters.entries key with hsame | ⟨hfree, id, hid, hkey, hentry⟩
  · exact .inl (hsame.trans hbefore)
  · refine .inr ⟨hbefore.symm.trans hfree, id, hid, ?_, hentry⟩
    rw [hkey]
    exact congrArg Dependency.key (hregisters.dependency id)

/-- A group is none of the dependencies in question, and a member that takes the key cannot stand for
the coordinate. -/
theorem boundedAt_grouped {s : Store} {members : List Dependency} (hs : s.Sound)
    (h : s.BoundedAt n key c r) (hne : members ≠ [])
    (hmembers : key' ≠ key → s.entryAt? n key = none →
      ∀ d ∈ members, d.key = key → ¬d.admits c) :
    (n.grouped key' members s).BoundedAt n key c r := by
  obtain ⟨hrecords, -, hnext, hkept⟩ := Store.addAll_spec members s
  have hids : (Store.addAll members s).1 ≠ [] := by
    intro hnil
    rw [hnil] at hrecords
    exact hne hrecords.symm
  by_cases heq : key' = key
  · subst heq
    intro id hid
    obtain ⟨hheld, hsingle⟩ := Store.ownSingle?_eq_some.1 hid
    rw [entryAt?_grouped] at hheld
    cases hheld
    rw [dependency_grouped, if_pos rfl] at hsingle
    exact absurd (by simpa [Dependency.isGroup] using hsingle) hids
  · rcases entryAt?_grouped_cases s n members heq with
      hsame | ⟨hfree, id, hid, hkey, hentry⟩
    · refine h.of_narrows hsame fun id hid => ?_
      have hbefore := hs.ordered.entries n key id (Store.ownDependency?_eq_some.2 hid)
      have hlt : id < groupId members s := Nat.lt_of_lt_of_le hbefore hnext
      rw [dependency_grouped, if_neg (Nat.ne_of_gt hlt), hkept id hbefore]
      exact .refl _
    · have hmember := dependency_grouped_member s n key' hid
      exact .of_entryAt? hentry (.of_not_admits (hmembers heq hfree _ hmember hkey))

/-- A group is assigned to a key of this very namespace; no member of it that stands for the
coordinate takes the key in question. -/
theorem boundedAt_setHere_group {specs : List String} {e : Entry} (hσ : σ.store.Sound)
    (h : σ.store.BoundedAt n key c r)
    (hspecs : σ.store.assignedKey? n key' ≠ some key → σ.store.entryAt? n key = none →
      ∀ spec ∈ specs, ∀ parsed, Spec.parse spec = .ok parsed → parsed.coordinate = c →
        c.id ≠ key)
    (hrun : (n.setHere key' (.group specs)).run σ = (.ok e, τ)) : τ.store.BoundedAt n key c r := by
  obtain ⟨key'', id, hkey, -, huse⟩ := exists_of_assigned (n.useGroupAs · specs) hrun
  unfold useGroupAs at huse
  split at huse
  · exact nomatch huse
  · next hsome =>
    obtain ⟨members, υ, hparsed, hstored⟩ := run_bind_eq_ok.1 huse
    obtain ⟨hmembers, rfl⟩ := Prod.mk.inj hparsed
    rw [run_storeGroup] at hstored
    cases hstored
    refine boundedAt_grouped hσ h ?_ fun hother hfree => ?_
    · intro hnil
      cases specs with
      | nil => exact hsome rfl
      | cons spec specs =>
        rw [List.mapM_cons] at hmembers
        obtain ⟨member, -, hmembers⟩ := bind_eq_ok.1 hmembers
        obtain ⟨others, -, hmembers⟩ := bind_eq_ok.1 hmembers
        exact nomatch (Except.ok.inj hmembers).trans hnil
    · have hassigned : σ.store.assignedKey? n key' ≠ some key := by
        rw [hkey]
        exact fun hsame => hother (Option.some.inj hsame)
      refine Tolerates.forall_of_mapM_ok specs (fun spec hspec member hmember => ?_) hmembers
      obtain ⟨parsed, hparsed, hid, hcoordinate⟩ := groupMember_spec hmember
      intro hheld hadmits
      have hc : parsed.coordinate = c := Dependency.admits_iff.1 hadmits _ hcoordinate
      exact hspecs hassigned hfree spec hspec parsed hparsed hc (hc ▸ hid.symm.trans hheld)

end Namespace

end DependencyScope
