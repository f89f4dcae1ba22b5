/-
  DependencyScope.Proofs.Session.Effect — when a version that is assigned takes effect.

  A version that is assigned to a name is selected on the record of the dependency there, of a copy of
  the nearest ancestor's, or of a new one.  Whether a group is selected, and with which specs, is read
  off its members, and on those nothing is selected.  So a group takes the version, and it goes on to
  say of its members what it said before.

  Main definitions:
    * `Store.base?` — the dependency that a version is used on under a key, or on a copy of it;
    * `Store.TakesEffect` — the dependency is selected and reports the version;
    * `Store.Selects` — what a version that is used under a key comes to.

  Main results:
    * `Namespace.selects_useVersionAs` — the version is selected, and the members say what they said;
    * `Session.takesEffect_set_iff` — the version takes effect on what is no group, and on a group
      only if that was selected with it already.
-/
import DependencyScope.Proofs.Store.Reports
import DependencyScope.Proofs.Namespace.Inherit
import DependencyScope.Proofs.Namespace.Repeat
import DependencyScope.Proofs.Session.Addressed

namespace DependencyScope

open DependencyScope.Text DependencyScope.Action

/-! ## §1. What is reported. -/

theorem Version.text_of_ofText? {text : String} {v : Version} (h : ofText? text = some v) :
    v.text = trim text := by
  unfold ofText? at h
  split at h
  · exact congrArg Version.text (Option.some.inj h).symm
  · cases h

namespace Store

variable {s t : Store} {n : Namespace} {key text : String} {id : DependencyId} {v : Version}

/-- The dependency is selected, and all its specs end with `text`. -/
structure Reports (s : Store) (id : DependencyId) (text : String) : Prop where
  isSelected : s.isSelected id = true
  specs : ∀ spec ∈ s.specs id, text.toList <:+ spec.toList

/-- The dependency reports `text`, and that is its version. -/
structure TakesEffect (s : Store) (id : DependencyId) (text : String) : Prop
    extends s.Reports id text where
  version : (s.dependency id).version = some text

theorem suffix_specWith (d : Dependency) (text : String) :
    text.toList <:+ (d.specWith text).toList := by
  unfold Dependency.specWith
  split
  · next c _ =>
    unfold Coordinate.withVersion
    rw [String.toList_append]
    exact List.suffix_append _ _
  · exact List.suffix_rfl

/-- What is no group reports its own version. -/
theorem specs_of_single (hs : s.Ordered) (hsingle : (s.dependency id).isGroup = false)
    (hv : (s.dependency id).selected = some v) :
    s.specs id = [(s.dependency id).specWith v.text] := by
  have hspec : (s.dependency id).spec = (s.dependency id).specWith v.text := by
    unfold Dependency.spec
    rw [Dependency.version_of_selected hv]
  unfold specs
  dsimp only
  rw [hsingle, if_neg Bool.false_ne_true, spec_eq_fold, fold_eq hs, hsingle,
    if_neg Bool.false_ne_true, hspec]

theorem takesEffect_of_single (hs : s.Ordered) (hsingle : (s.dependency id).isGroup = false)
    (hv : (s.dependency id).selected = some v) : s.TakesEffect id v.text where
  isSelected := by
    rw [isSelected_eq_fold, fold_eq hs, hsingle, if_neg Bool.false_ne_true, hv]
    rfl
  version := Dependency.version_of_selected hv
  specs := by
    rw [specs_of_single hs hsingle hv]
    intro spec hspec
    rw [List.mem_singleton.1 hspec]
    exact suffix_specWith _ _

end Store

/-! ## §2. What a version is used on. -/

namespace Store

variable {s t : Store} {n : Namespace} {key : String} {id : DependencyId} {v : Version}

/-- What a bare version is used on under a key: the dependency there, or else a copy of the one that
the nearest ancestor holds there. -/
def base? (s : Store) (n : Namespace) (key : String) : Option DependencyId :=
  (s.ownDependency? n key).or ((n.inheritedDependency key).answer s)

/-- No listener has been added to the dependency under the key. -/
def Unheard (s : Store) (n : Namespace) (key : String) : Prop :=
  ∀ own, s.ownDependency? n key = some own → (s.dependency own).listeners = []

/-- In `t` the dependency `id` is ready for a version under the key: it is the base, a copy of it, or,
where there is none, a new one. -/
structure Based (s : Store) (n : Namespace) (key : String) (id : DependencyId) (t : Store) :
    Prop extends s.Extends t where
  made : id < t.nextDependency
  echoes : ∀ i, s.base? n key = some i → s.Echoes i t id
  single : s.base? n key = none → (t.dependency id).members = []
  unheard : s.Unheard n key → (t.dependency id).listeners = []

theorem Based.own (hs : s.Sound) (hown : s.ownDependency? n key = some id) :
    s.Based n key id s := by
  have hbase : s.base? n key = some id := by
    unfold base?
    rw [hown]
    rfl
  have hmade : id < s.nextDependency := hs.ordered.entries n key id hown
  refine { Extends.refl hs with
    made := hmade, echoes := ?_, single := ?_, unheard := fun h => h id hown }
  · intro i hi
    obtain rfl := Option.some.inj (hbase.symm.trans hi)
    exact (Extends.refl hs).echoes hs hmade
  · intro hnone
    exact nomatch hbase.symm.trans hnone

/-- What a bare version that is used under a key comes to: the dependency has it as its selection, and
if it is a group, its members go on to say what those of the base say. -/
structure Selects (s : Store) (n : Namespace) (key : String) (v : Version) (id : DependencyId)
    (t : Store) : Prop where
  ordered : t.Ordered
  selected : (t.dependency id).selected = some v
  isGroup : (t.dependency id).isGroup = (s.base? n key).any fun i => (s.dependency i).isGroup
  echoes : s.Unheard n key → ∀ i, s.base? n key = some i → s.Echoes i t id

end Store

namespace Namespace

variable {n : Namespace} {key text : String} {id : DependencyId} {v : Version} {σ τ : Session}

theorem based_copyInherited (hσ : σ.store.Sound) (hown : σ.store.ownDependency? n key = none)
    (hrun : (n.copyInherited key).run σ = (.ok id, τ)) :
    σ.store.Based n key id τ.store := by
  have hbase : σ.store.base? n key = (n.inheritedDependency key).answer σ.store := by
    unfold Store.base?
    rw [hown]
    rfl
  unfold copyInherited at hrun
  rw [run_bind_ok (run_read _ σ)] at hrun
  cases hinherited : (n.inheritedDependency key).answer σ.store with
  -- the copy echoes what it was made from
  | some i =>
    rw [hinherited] at hrun hbase
    cases hrun
    have hcopied := Store.copy_spec hσ i key
    obtain ⟨members, hrecord⟩ := σ.store.dependency_copyWithin i i key
    refine { hcopied.toExtends with
      made := hcopied.made
      echoes := ?_
      single := fun hnone => nomatch hbase.symm.trans hnone
      unheard := fun _ => congrArg Dependency.listeners hrecord }
    intro j hj
    obtain rfl := Option.some.inj (hbase.symm.trans hj)
    exact Store.echoes_copy hσ i key
  -- what is new has no members, and nothing to echo
  | none =>
    rw [hinherited] at hrun hbase
    cases hrun
    have hnew := Store.dependency_added σ.store { key := key }
    refine { Store.Extends.addDependency hσ (d := { key := key }) nofun with
      made := Nat.lt_succ_self _
      echoes := fun i hi => nomatch hbase.symm.trans hi
      single := fun _ => congrArg Dependency.members hnew
      unheard := fun _ => congrArg Dependency.listeners hnew }

/-- A version that is used under a key is applied to what is based on that key. -/
theorem exists_based (hσ : σ.store.Sound) (hrun : (n.useVersionAs key text).run σ = (.ok id, τ)) :
    ∃ part mid φ, σ.store.Based n key id mid.store ∧ (chooseOn id part).run mid = (.ok (), φ) ∧
      ∀ i, τ.store.dependency i = φ.store.dependency i := by
  unfold useVersionAs at hrun
  obtain ⟨part, υ, hparse, hrun⟩ := run_bind_eq_ok.1 hrun
  obtain ⟨-, rfl⟩ := Prod.mk.inj hparse
  rw [run_bind_ok (run_view _ _)] at hrun
  cases hown : σ.store.ownDependency? n key with
  | some own =>
    rw [hown] at hrun
    obtain ⟨_, φ, hchosen, hlast⟩ := run_bind_eq_ok.1 hrun
    cases hlast
    exact ⟨part, σ, τ, .own hσ hown, hchosen, fun _ => rfl⟩
  | none =>
    rw [hown] at hrun
    obtain ⟨copy, mid, hcopy, hrun⟩ := run_bind_eq_ok.1 hrun
    obtain ⟨_, φ, hchosen, hlast⟩ := run_bind_eq_ok.1 hrun
    cases hlast
    exact ⟨part, mid, φ, based_copyInherited hσ hown hcopy, hchosen,
      fun i => Store.dependency_insert φ.store n key _ i⟩

/-- A version that is used under a key is selected there. -/
theorem selects_useVersionAs (hσ : σ.store.Sound) (hversion : Version.ofText? text = some v)
    (hrun : (n.useVersionAs key text).run σ = (.ok id, τ)) :
    σ.store.Selects n key v id τ.store := by
  have hordered : τ.store.Ordered := by
    have hgrows := (Session.growsAt_useVersionAs hσ n key text).1
    rw [hrun] at hgrows
    exact hgrows.sound.ordered
  have hlooks := looksLikeSpec_of_ofText? hversion
  obtain ⟨part, mid, φ, hbased, hchosen, hsame⟩ := exists_based hσ hrun
  -- selecting changes no members
  have hmembers : (τ.store.dependency id).members = (mid.store.dependency id).members := by
    have hgrows := (Session.growsAt_chooseOn hbased.sound id part).1
    rw [hchosen] at hgrows
    rw [hsame]
    exact hgrows.sameMembers id hbased.made
  refine ⟨hordered, ?_, ?_, fun hunheard i hi => (hbased.echoes i hi).trans ?_⟩
  · have hwritten : VersionText.written? text = some (.plain v) := by
      unfold VersionText.written?
      rw [hlooks, if_neg Bool.false_ne_true, parse_of_ofText? hversion]
      rfl
    rw [(uses_of_useVersionAs hσ hlooks hrun).selected, Store.broughtSelection?, hwritten]
    rfl
  · have hgroup : (τ.store.dependency id).isGroup = (mid.store.dependency id).isGroup := by
      unfold Dependency.isGroup
      rw [hmembers]
    rw [hgroup]
    cases hbase : σ.store.base? n key with
    | some i => exact (hbased.echoes i hbase).isGroup
    | none =>
      unfold Dependency.isGroup
      rw [hbased.single hbase]
      rfl
  · -- the members are older than the group, and so they stay as they are
    obtain ⟨outcome, -, hwritten⟩ := exists_of_chooseOn (hbased.unheard hunheard) hchosen
    refine .of_below hbased.sound.ordered hordered hmembers fun i hi => ?_
    rw [hsame, hwritten.others i (Nat.ne_of_lt hi)]

/-- So is a version that is assigned to a name of this very namespace. -/
theorem selects_setHere (hσ : σ.store.Sound) (hplain : looksLikeSpec key = false)
    (hversion : Version.ofText? text = some v) {e : Entry}
    (hrun : (n.setHere key (.text text)).run σ = (.ok e, τ)) :
    ∃ id, e = .dependency id ∧ σ.store.Selects n key v id τ.store := by
  obtain ⟨id, he, huse⟩ := exists_of_setHere_text hplain hrun
  unfold useTextAs at huse
  rw [looksLikeSpec_of_ofText? hversion, if_neg Bool.false_ne_true] at huse
  exact ⟨id, he, selects_useVersionAs hσ hversion huse⟩

end Namespace

/-! ## §3. Sessions. -/

namespace Store.Selects

variable {s t : Store} {n : Namespace} {key : String} {id i : DependencyId} {v : Version}

/-- What is based on no group is none, and so the version takes effect. -/
theorem takesEffect (h : s.Selects n key v id t)
    (hsingle : ∀ i, s.base? n key = some i → (s.dependency i).isGroup = false) :
    t.TakesEffect id v.text := by
  refine takesEffect_of_single h.ordered ?_ h.selected
  rw [h.isGroup]
  cases hbase : s.base? n key with
  | none => rfl
  | some i => exact hsingle i hbase

/-- A group goes on to report what it is based on. -/
theorem reports_iff (h : s.Selects n key v id t) (hs : s.Ordered) (hunheard : s.Unheard n key)
    (hbase : s.base? n key = some i) (hgroup : (s.dependency i).isGroup = true) (text : String) :
    t.Reports id text ↔ s.Reports i text := by
  have hechoes := h.echoes hunheard i hbase
  have hspecs := hechoes.specs hgroup
  have hselected := hechoes.isSelected hs h.ordered hgroup
  constructor
  · rintro ⟨hall, hends⟩
    exact ⟨hselected.symm.trans hall, hspecs ▸ hends⟩
  · rintro ⟨hall, hends⟩
    exact ⟨hselected.trans hall, hspecs.symm ▸ hends⟩

theorem takesEffect_iff (h : s.Selects n key v id t) (hs : s.Ordered)
    (hunheard : s.Unheard n key) :
    t.TakesEffect id v.text ↔ ∀ i, s.base? n key = some i → (s.dependency i).isGroup = true →
      s.Reports i v.text := by
  constructor
  · rintro ⟨hreports, -⟩ i hbase hgroup
    exact (h.reports_iff hs hunheard hbase hgroup v.text).1 hreports
  · intro hbefore
    by_cases hsingle : ∀ i, s.base? n key = some i → (s.dependency i).isGroup = false
    · exact h.takesEffect hsingle
    · push Not at hsingle
      obtain ⟨i, hbase, hnot⟩ := hsingle
      have hgroup := Bool.eq_true_of_not_eq_false hnot
      exact ⟨(h.reports_iff hs hunheard hbase hgroup v.text).2 (hbefore i hbase hgroup),
        Dependency.version_of_selected h.selected⟩

end Store.Selects

namespace Session

variable {σ τ : Session} {followsProjects : Bool} {n : Namespace} {key text : String} {e : Entry}
  {v : Version}

/-- A version that is assigned to a name becomes the selection and the version of the dependency
there.  It takes effect where the name is based on no group: neither the dependency that it holds nor
else the one of the nearest ancestor is any.  Where nothing listens to the former, the version takes
effect on a group exactly if that was selected with it already. -/
theorem takesEffect_set_iff (h : Reached followsProjects σ) (hname : looksLikeSpec key = false)
    (hversion : Version.ofText? text = some v)
    (hrun : (perform (.set n key (.text text))).run σ = (.ok (.entry e), τ)) :
    let place := (σ.store.landing n key).1
    let name := (σ.store.landing n key).2
    ∃ id, e = .dependency id ∧ (τ.store.dependency id).selected = some v ∧
      (τ.store.dependency id).version = some (trim text) ∧
      ((∀ i, σ.store.base? place name = some i → (σ.store.dependency i).isGroup = false) →
        τ.store.TakesEffect id (trim text)) ∧
      (σ.store.Unheard place name →
        (τ.store.TakesEffect id (trim text) ↔ ∀ i, σ.store.base? place name = some i →
          (σ.store.dependency i).isGroup = true → σ.store.Reports i (trim text))) := by
  intro place name
  obtain ⟨_, hset, heq⟩ := exists_of_return hrun
  cases heq
  rw [Namespace.run_set] at hset
  have hlands := (Store.landing_name (s := σ.store) n key hname).2
  obtain ⟨id, rfl, hselects⟩ := Namespace.selects_setHere h.sound hlands hversion hset
  rw [← Version.text_of_ofText? hversion]
  exact ⟨id, rfl, hselects.selected, Dependency.version_of_selected hselects.selected,
    hselects.takesEffect, hselects.takesEffect_iff h.sound.ordered⟩

/-- The root requires a version from 1 on, and `a` selects version 2 on its copy of that. -/
theorem takesEffect_set_inherited :
    let root : Namespace := .registered rootName 0
    let a : Namespace := .registered "a" 0
    let σ := (start true).afterAll [.needAs root "k" (.text "g:i:t:>=1")]
    Reached true σ ∧ looksLikeSpec "k" = false ∧ ∃ v, Version.ofText? " 2 " = some v ∧
      ∃ e τ, (perform (.set a "k" (.text " 2 "))).run σ = (.ok (.entry e), τ) ∧
        ∃ id, e = .dependency id ∧ τ.store.TakesEffect id "2" := by
  intro root a σ
  have hreached : Reached true σ := .after .start trivial
  have hversion : (Version.ofText? " 2 ").isSome := by decide +kernel
  obtain ⟨v, hv⟩ := Option.isSome_iff_exists.1 hversion
  have hsucceeds : ((a.set "k" (.text " 2 ")).run σ).1.toOption.isSome := by decide +kernel
  obtain ⟨e, τ, hset⟩ := exists_of_isSome hsucceeds
  have hrun : (perform (.set a "k" (.text " 2 "))).run σ = (.ok (.entry e), τ) :=
    run_bind_ok hset _
  have hsingle : ((σ.store.base? (σ.store.landing a "k").1 (σ.store.landing a "k").2).all
      fun i => !(σ.store.dependency i).isGroup) = true := by decide +kernel
  obtain ⟨id, he, -, -, htakes, -⟩ := takesEffect_set_iff hreached (by decide +kernel) hv hrun
  refine ⟨hreached, by decide +kernel, v, hv, e, τ, hrun, id, he, htakes fun i hi => ?_⟩
  rw [hi] at hsingle
  simpa using hsingle

/-- A group takes the version 2, and its one spec goes on to have version 1. -/
theorem not_takesEffect_group :
    let n : Namespace := .registered "n" 0
    let σ := (start true).afterAll [.set n "k" (.group ["g:i:t:1"])]
    Reached true σ ∧ looksLikeSpec "k" = false ∧ (Version.ofText? "2").isSome ∧
      ∃ e τ, (perform (.set n "k" (.text "2"))).run σ = (.ok (.entry e), τ) ∧
        ∀ id, e = .dependency id → ¬τ.store.TakesEffect id (trim "2") := by
  intro n σ
  have hsucceeds : ((n.set "k" (.text "2")).run σ).1.toOption.isSome := by decide +kernel
  obtain ⟨e, τ, hset⟩ := exists_of_isSome hsucceeds
  obtain rfl : ((n.set "k" (.text "2")).run σ).2 = τ := congrArg Prod.snd hset
  have hentry : ((n.set "k" (.text "2")).run σ).1.toOption = some e := by
    rw [hset]
    rfl
  have hspecs : (((n.set "k" (.text "2")).run σ).1.toOption.bind Entry.dependency?).map
      ((n.set "k" (.text "2")).run σ).2.store.specs = some ["g:i:t:1"] := by decide +kernel
  refine ⟨.after .start trivial, by decide +kernel, by decide +kernel, e, _, run_bind_ok hset _, ?_⟩
  rintro id rfl htakes
  rw [hentry] at hspecs
  have hone : ((n.set "k" (.text "2")).run σ).2.store.specs id = ["g:i:t:1"] :=
    Option.some.inj hspecs
  have hends := htakes.specs "g:i:t:1" (hone ▸ List.mem_singleton_self _)
  exact absurd hends (by decide +kernel)

end Session

end DependencyScope
