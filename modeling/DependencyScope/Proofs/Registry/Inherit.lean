/-
  DependencyScope.Proofs.Registry.Inherit — which inherited requirements a profile respects.

  A profile is loaded table by table, in the order of their names, and each text that is assigned
  meets the requirements that earlier tables have put into the ancestors.  The order of names is not
  that of the tree: a table for the root may come after one for a namespace below it, and then a
  requirement in it comes too late.  What a namespace selects meets the nearest inherited requirement
  if the tables that put it there come first and none of the namespace's own assignments gets past it.

  Main definitions:
    * `Store.Supplies` — where the nearest inherited requirement is;
    * `Assignment.Escapes` — an assignment that gets past a requirement;
    * `Registry.carriedOut` — the assignments of a profile;
    * `Registry.Precedes`, `Registry.InTurn` — the tables for one namespace come before those for
      another one, and what this means when a table comes.

  Main results:
    * `Store.inheritedRequirement_eq_some_iff` — inheriting from the nearest ancestor;
    * `Registry.boundedAt_table`, `Registry.boundedAt_tables` — one table, and all of them;
    * `Registry.accepts_nearest` — the end of a load;
    * `Registry.outrun_lateProfile` — a profile with a requirement that comes too late.
-/
import DependencyScope.Proofs.Namespace.Bounded
import DependencyScope.Proofs.Registry.Tables

namespace DependencyScope

open DependencyScope.Text DependencyScope.Action

/-! ## §1. The nearest inherited requirement. -/

namespace Store

variable {s t : Store} {n holder : Namespace} {nearer : List Namespace} {key : String}
  {c : Coordinate} {r : Requirement}

/-- Of the ancestors of `n`, the first one with a requirement for the key or the coordinate is
`holder`, and `nearer` are those before it. -/
structure Supplies (s : Store) (n : Namespace) (key : String) (c : Coordinate)
    (nearer : List Namespace) (holder : Namespace) (r : Requirement) : Prop where
  ancestors : ∃ farther, n.ancestors.answer s = nearer ++ holder :: farther
  nearest : ∀ a ∈ nearer, a.requirementFor? key c s = none
  held : holder.requirementFor? key c s = some r

/-- That is the requirement which is inherited. -/
theorem inheritedRequirement_eq_some_iff : (n.inheritedRequirement key c).answer s = some r ↔
    ∃ nearer holder, s.Supplies n key c nearer holder r := by
  rw [Namespace.answer_inheritedRequirement, List.findSome?_eq_some_iff]
  constructor
  · rintro ⟨nearer, holder, farther, hancestors, hheld, hnearest⟩
    exact ⟨nearer, holder, ⟨farther, hancestors⟩, hnearest, hheld⟩
  · rintro ⟨nearer, holder, ⟨farther, hancestors⟩, hnearest, hheld⟩
    exact ⟨nearer, holder, farther, hancestors, hheld, hnearest⟩

/-- A namespace that holds nothing passes nothing on. -/
theorem requirementFor?_of_empty {a : Namespace} (h : s.contentsOf a = {}) :
    a.requirementFor? key c s = none := by
  unfold Namespace.requirementFor? ownDependency? entryAt? indexed?
  rw [h]
  rfl

theorem ownDependency?_of_empty {a : Namespace} (h : s.contentsOf a = {}) :
    s.ownDependency? a key = none := by
  unfold ownDependency? entryAt?
  rw [h]
  rfl

theorem BoundedAt.of_agreesOn (h : s.BoundedAt n key c r) (ht : s.AgreesOn n t) :
    t.BoundedAt n key c r := by
  refine h.of_narrows ?_ fun id hid => ?_
  · unfold entryAt?
    rw [ht.contents]
  · rw [ht.records id (.inl ⟨key, ownDependency?_eq_some.2 hid⟩)]
    exact .refl _

/-- Selections do not change what is inherited. -/
theorem Reselected.requirementFor? (h : s.Reselected t) (a : Namespace) (key : String)
    (c : Coordinate) : a.requirementFor? key c t = a.requirementFor? key c s := by
  have hrecord (id : DependencyId) : (t.dependency id).requirement = (s.dependency id).requirement ∧
      (t.dependency id).admits c = (s.dependency id).admits c := by
    obtain ⟨selected, heq⟩ := (h.records id).rest
    rw [heq]
    exact ⟨rfl, rfl⟩
  obtain ⟨dependencies, rfl⟩ := h.rest
  unfold Namespace.requirementFor?
  dsimp only
  congr 1
  · exact Option.bind_congr fun id _ => by rw [(hrecord id).1, (hrecord id).2]
  · exact Option.bind_congr fun id _ => (hrecord id).1

theorem Supplies.of_reselected (h : t.Supplies n key c nearer holder r) (hs : s.Ascending)
    (ht : s.Reselected t) : s.Supplies n key c nearer holder r where
  ancestors := by
    rw [← (SameTree.of_reselected ht).answer_ancestors hs]
    exact h.ancestors
  nearest a ha := (ht.requirementFor? a key c).symm.trans (h.nearest a ha)
  held := (ht.requirementFor? holder key c).symm.trans h.held

end Store

/-! ## §2. The order of the tables, and what they assign. -/

/-- An assignment that gets past the requirement `r`, which the place inherits under `key` for `c`.  A
version for the key is used on a record that may stand for `c` and does not carry the requirement; or
the key is free, and a member of a group takes it that stands for `c`. -/
inductive Assignment.Escapes (key : String) (c : Coordinate) (r : Requirement) (a : Assignment) :
    Prop
  | version {text : String} (hvalue : a.value = .text text) (hbare : looksLikeSpec text = false)
      (hkey : a.assigned? = some key)
      (hloose : ¬(a.session.store.usedRecord a.place key text).Carries c r)
  | member {specs : List String} {spec : String} {parsed : Spec} (hvalue : a.value = .group specs)
      (hother : a.assigned? ≠ some key) (hfree : a.session.store.entryAt? a.place key = none)
      (hspec : spec ∈ specs) (hparsed : Spec.parse spec = .ok parsed)
      (hcoordinate : parsed.coordinate = c) (hid : c.id = key)

namespace Registry

/-- All tables for `m` come before all tables for `n`. -/
def Precedes (s : Store) (profile : Profile) (m n : Namespace) : Prop :=
  ∀ x ∈ profile.namespaces, ∀ y ∈ profile.namespaces, target s x = m → target s y = n → x < y

/-- When a table for `n` comes, those for `holder` have been there, and of those for each namespace
in between all or none. -/
def InTurn (s : Store) (tables : List (String × Std.TreeMap String ProfileValue)) (n : Namespace)
    (nearer : List Namespace) (holder : Namespace) : Prop :=
  ∀ earlier table later, tables = earlier ++ table :: later → target s table.1 = n →
    (∀ t ∈ table :: later, target s t.1 ≠ holder) ∧
      ∀ a ∈ nearer, a ≠ n ∧
        ((∀ t ∈ table :: later, target s t.1 ≠ a) ∨ ∀ t ∈ earlier, target s t.1 ≠ a)

/-- The assignments of tables, as far as they are carried out. -/
def carriedOut : List (String × Std.TreeMap String ProfileValue) → Session → List Assignment
  | [], _ => []
  | (name, table) :: rest, σ =>
    let n := (Namespace.ofKey (.ofText name)).answer σ.store
    n.assignments (assignments table) ((Action.read (Namespace.ofKey (.ofText name))).run σ).2 ++
      match (applyTable name table).run σ with
      | (.ok _, τ) => carriedOut rest τ
      | (.error _, _) => []

instance (s : Store) (profile : Profile) (m n : Namespace) : Decidable (Precedes s profile m n) :=
  inferInstanceAs (Decidable (∀ x ∈ _, ∀ y ∈ _, _))

namespace Filling

variable {s : Store} {S S' : Namespace → Prop} {n holder : Namespace} {nearer : List Namespace}
  {key : String} {c : Coordinate} {r : Requirement} {σ : Session}

theorem mono (h : Filling s S σ) (hS : ∀ m, S m → S' m) : Filling s S' σ :=
  { h with agrees := fun m hm => h.agrees m fun hmem => hm (hS m hmem) }

/-- Writes to other namespaces do not change what is inherited. -/
theorem supplies (h : Filling s S σ) (hs : s.Sound) (hnearer : ∀ a ∈ nearer, ¬S a)
    (hholder : ¬S holder) (hsupplies : s.Supplies n key c nearer holder r) :
    σ.store.Supplies n key c nearer holder r where
  ancestors := by
    rw [h.tree.answer_ancestors hs.grounded.ascending]
    exact hsupplies.ancestors
  nearest a ha := ((h.agrees a (hnearer a ha)).requirementFor? key c).trans (hsupplies.nearest a ha)
  held := ((h.agrees holder hholder).requirementFor? key c).trans hsupplies.held

end Filling

variable {s : Store} {n holder : Namespace} {nearer : List Namespace} {key : String}
  {c : Coordinate} {r : Requirement} {σ τ : Session}
  {tables rest : List (String × Std.TreeMap String ProfileValue)}

/-! ## §3. One table. -/

/-- An assignment of a table for the namespace. -/
theorem boundedAt_set {a : Assignment} {name : String} {value : ProfileValue} {e : Entry}
    (htarget : a.target = n) (hvalue : a.value = assigned value)
    (hn : n = .registered name a.session.store.generation) (hσ : a.session.store.Sound)
    (hsheltered : a.session.store.Sheltered)
    (hsupplies : a.session.store.Supplies n key c nearer holder r) (hescapes : ¬a.Escapes key c r)
    (h : a.session.store.BoundedAt n key c r)
    (hrun : (a.target.set a.key a.value).run a.session = (.ok e, τ)) :
    τ.store.BoundedAt n key c r := by
  have hlands : a.session.store.landing a.target a.key = (n, trim a.key) := by
    rw [htarget, hn]
    exact landing_eq (hsheltered.flat name) a.key
  have hplace : a.place = n := congrArg Prod.fst hlands
  have hassigned : a.assigned? = a.session.store.assignedKey? n (trim a.key) := by
    unfold Assignment.assigned?
    rw [hplace, hlands]
  rw [Namespace.run_set, hlands, hvalue] at hrun
  cases value with
  | spec text =>
    have hr := Store.inheritedRequirement_eq_some_iff.2 ⟨nearer, holder, hsupplies⟩
    refine Namespace.boundedAt_setHere_text hσ h hr (fun hbare hkey => ?_) hrun
    by_contra hloose
    exact hescapes (.version hvalue hbare (hassigned.trans hkey) (hplace ▸ hloose))
  | group specs =>
    refine Namespace.boundedAt_setHere_group hσ h ?_ hrun
    intro hother hfree spec hspec parsed hparsed hcoordinate hid
    rw [← hassigned] at hother
    rw [← hplace] at hfree
    exact hescapes (.member hvalue hother hfree hspec hparsed hcoordinate hid)

/-- A table for the namespace. -/
theorem boundedAt_table {name : String} {table : Std.TreeMap String ProfileValue}
    (hn : target σ.store name = n) (hσ : Filling σ.store (· = n) σ)
    (hsupplies : σ.store.Supplies n key c nearer holder r)
    (hnearer : ∀ a ∈ nearer, a ≠ n) (hholder : holder ≠ n)
    (hescapes : ∀ a ∈ n.assignments (assignments table)
      ((Action.read (Namespace.ofKey (.ofText name))).run σ).2, ¬a.Escapes key c r)
    (h : σ.store.BoundedAt n key c r) :
    Leaves (applyTable name table) (fun _ τ => τ.store.BoundedAt n key c r) σ := by
  obtain ⟨canonical, hcanonical⟩ := exists_target σ.store name
  have hregistered : n = .registered canonical σ.store.generation := hn.symm.trans hcanonical
  unfold applyTable
  refine .bind fun m υ hread => ?_
  rw [hread] at hescapes
  rw [run_read] at hread
  obtain ⟨hm, rfl⟩ := Prod.mk.inj hread
  obtain rfl : n = m := hn.symm.trans (Except.ok.inj hm)
  refine .map ?_
  -- each entry finds what the ancestors held before the table, as it writes to `n` only
  let I (τ : Session) : Prop := Filling σ.store (· = n) τ ∧ τ.store.BoundedAt n key c r
  suffices hentries : Leaves _ (fun _ => I) _ from fun es τ hrun => (hentries es τ hrun).2
  refine Namespace.leaves_setAll_of (assignments table) ⟨{ hσ with }, h⟩ ?_
  rintro a ha ⟨hfilling, hbounded⟩ e τ hrun
  obtain ⟨htarget, hpair⟩ := Namespace.mem_assignments _ a ha
  obtain ⟨⟨key', value⟩, -, heq⟩ := List.mem_map.1 hpair
  have hvalue : a.value = assigned value := (congrArg Prod.snd heq).symm
  constructor
  · have hset := keeps_set (S := (· = n)) hregistered.symm a.key value
    rw [← hregistered] at hset
    rw [htarget, hvalue] at hrun
    exact hset.of_run hfilling hrun
  · exact boundedAt_set htarget hvalue (hfilling.tree.generation ▸ hregistered) hfilling.sound
      hfilling.sheltered (hfilling.supplies hσ.sound hnearer hholder hsupplies) (hescapes a ha)
      hbounded hrun

/-! ## §4. All tables. -/

/-- The requirement that `n` inherits in the end is the one that it inherits when a table for it
comes: the tables for `holder` have been there, and of those for each nearer ancestor all or none. -/
theorem supplies_of_turn (hfresh : Fresh s)
    (hσ : Filling s (fun m => ∃ t ∈ tables, target s t.1 = m) σ)
    (hτ : Filling σ.store (fun m => ∃ t ∈ rest, target s t.1 = m) τ)
    (hholder : ∀ t ∈ rest, target s t.1 ≠ holder)
    (hnearer : ∀ a ∈ nearer,
      (∀ t ∈ rest, target s t.1 ≠ a) ∨ ∀ t ∈ tables, target s t.1 ≠ a)
    (hsupplies : τ.store.Supplies n key c nearer holder r) :
    σ.store.Supplies n key c nearer holder r := by
  have hheld : σ.store.AgreesOn holder τ.store :=
    hτ.agrees holder fun ⟨t, ht, heq⟩ => hholder t ht heq
  -- a nearer ancestor is as it will be, or as it was when the registry was fresh
  have hnearest : ∀ a ∈ nearer, σ.store.AgreesOn a τ.store ∨ σ.store.contentsOf a = {} := by
    intro a ha
    by_cases hlater : ∃ t ∈ rest, target s t.1 = a
    · obtain ⟨t, ht, heq⟩ := hlater
      have hearlier := (hnearer a ha).resolve_left fun hne => hne t ht heq
      obtain ⟨name, hname⟩ := exists_target s t.1
      refine .inr ?_
      rw [(hσ.agrees a fun ⟨t', ht', heq'⟩ => hearlier t' ht' heq').contents, ← heq, hname]
      exact hfresh name
    · exact .inl (hτ.agrees a hlater)
  refine ⟨?_, ?_, ?_⟩
  · rw [← hτ.tree.answer_ancestors hσ.sound.grounded.ascending]
    exact hsupplies.ancestors
  · intro a ha
    rcases hnearest a ha with hagrees | hempty
    · exact (hagrees.requirementFor? key c).symm.trans (hsupplies.nearest a ha)
    · exact Store.requirementFor?_of_empty hempty
  · exact (hheld.requirementFor? key c).symm.trans hsupplies.held

/-- In a fresh registry, the tables are applied one after the other. -/
theorem boundedAt_tables (hfresh : Fresh s) (hturn : InTurn s tables n nearer holder)
    (hsupplies : τ.store.Supplies n key c nearer holder r) :
    ∀ earlier σ, tables = earlier ++ rest →
      Filling s (fun m => ∃ t ∈ earlier, target s t.1 = m) σ → σ.store.BoundedAt n key c r →
      (∀ a ∈ carriedOut rest σ, a.target = n → ¬a.Escapes key c r) →
      (rest.forM fun (name, table) => applyTable name table).run σ = (.ok (), τ) →
      τ.store.BoundedAt n key c r := by
  -- on the tables that are still to come; what is carried along is that the key is bounded
  induction rest with
  | nil =>
    intro earlier σ _ _ h _ hrun
    cases hrun
    exact h
  | cons table later ih =>
    intro earlier σ htables hσ h hescapes hrun
    obtain ⟨_, υ, hfirst, hrest⟩ := run_bind_eq_ok.1 hrun
    have htarget (m : String) : target σ.store m = target s m := target_of_sameTree hσ.tree m
    have hstart (S : Namespace → Prop) : Filling σ.store S σ :=
      { Filling.start hσ.sound hσ.sheltered hσ.waiting with }
    have hυ : Filling s (fun m => ∃ t ∈ earlier ++ [table], target s t.1 = m) υ := by
      have hbefore := hσ.mono fun m ⟨t, ht, heq⟩ =>
        (⟨t, by simp [ht], heq⟩ : ∃ t ∈ earlier ++ [table], target s t.1 = m)
      exact (keeps_table ⟨table, by simp, rfl⟩ table.2).of_run hbefore hfirst
    unfold carriedOut at hescapes
    rw [hfirst] at hescapes
    have hlater : ∀ a ∈ carriedOut later υ, a.target = n → ¬a.Escapes key c r := fun a ha =>
      hescapes a (List.mem_append_right _ ha)
    refine ih (earlier ++ [table]) υ (by simp [htables]) hυ ?_ hlater hrest
    by_cases heq : target s table.1 = n
    -- a table for `n` meets the requirement that will be inherited in the end
    · obtain ⟨hholder, hnearer⟩ := hturn earlier table later htables heq
      have hτ : Filling σ.store (fun m => ∃ t ∈ table :: later, target s t.1 = m) τ :=
        (keeps_tables fun t ht => ⟨t, ht, (htarget t.1).symm⟩).of_run (hstart _) hrun
      have hnow := supplies_of_turn hfresh hσ hτ hholder (fun a ha => (hnearer a ha).2) hsupplies
      have hn : target σ.store table.1 = n := (htarget table.1).trans heq
      refine boundedAt_table hn (hstart _) hnow (fun a ha => (hnearer a ha).1)
        (fun hsame => hholder table (by simp) (heq.trans hsame.symm)) (fun a ha => ?_) h () υ hfirst
      refine hescapes a (List.mem_append_left _ ?_) (Namespace.mem_assignments _ a ha).1
      rw [← hn] at ha
      exact ha
    · have happly := keeps_table (S := (· = target s table.1)) (htarget table.1) table.2
      have hother : Filling σ.store (· = target s table.1) υ := happly.of_run (hstart _) hfirst
      exact h.of_agreesOn (hother.agrees n fun hsame => heq hsame.symm)

/-- The tables come in the order of their names. -/
theorem inTurn_of_precedes {profile : Profile} (hholder : Precedes s profile holder n)
    (hnearer : ∀ a ∈ nearer, Precedes s profile a n ∨ Precedes s profile n a) :
    InTurn s profile.artifacts.toList n nearer holder := by
  intro earlier table later htables hn
  have hordered : profile.artifacts.toList.Pairwise fun t u => compare t.1 u.1 = .lt :=
    Std.TreeMap.ordered_keys_toList
  have hsorted : profile.artifacts.toList.Pairwise fun t u => t.1 < u.1 :=
    hordered.imp compareOfLessAndEq_eq_lt.1
  have hnamed : ∀ t ∈ profile.artifacts.toList, t.1 ∈ profile.namespaces := by
    intro t ht
    unfold Profile.namespaces
    rw [← Std.TreeMap.map_fst_toList_eq_keys]
    exact List.mem_map_of_mem ht
  rw [htables] at hsorted hnamed
  obtain ⟨-, hbehind, hbefore⟩ := List.pairwise_append.1 hsorted
  have htable := hnamed table (by simp)
  -- a table for a namespace that precedes `n` is not this one and does not come later
  have hpassed {a : Namespace} (ha : Precedes s profile a n) :
      ∀ t ∈ table :: later, target s t.1 ≠ a := by
    intro t ht heq
    have hlt := ha t.1 (hnamed t (List.mem_append_right _ ht)) table.1 htable heq hn
    rcases List.mem_cons.1 ht with rfl | hlater
    · exact String.lt_irrefl t.1 hlt
    · exact String.lt_asymm hlt ((List.pairwise_cons.1 hbehind).1 t hlater)
  have hcoming {a : Namespace} (ha : Precedes s profile n a) :
      ∀ t ∈ earlier, target s t.1 ≠ a := by
    intro t ht heq
    have hlt := ha table.1 htable t.1 (hnamed t (List.mem_append_left _ ht)) hn heq
    exact String.lt_asymm hlt (hbefore t ht table (by simp))
  refine ⟨hpassed hholder, fun a ha => ⟨?_, (hnearer a ha).imp hpassed hcoming⟩⟩
  rintro rfl
  have hself : Precedes s profile a a := (hnearer a ha).elim id id
  exact String.lt_irrefl table.1 (hself table.1 htable table.1 htable hn hn)

/-- A profile is loaded into a fresh registry.  Where a namespace then has a selection for a
coordinate, the nearest requirement that it inherits for the key or the coordinate accepts it, if
the tables that put the requirement there came first and none of its own assignments gets past it. -/
theorem accepts_nearest {followsProjects : Bool} {profile : Profile} {id : DependencyId}
    {v : Version} (hσ : Session.Reached followsProjects σ) (hfresh : Fresh σ.store)
    (hload : (load profile).run σ = (.ok (), τ)) (hn : holds τ.store n)
    (hheld : τ.store.ownSingle? n key = some id)
    (hc : (τ.store.dependency id).coordinate = some c)
    (hv : (τ.store.dependency id).selected = some v)
    (hsupplies : τ.store.Supplies n key c nearer holder r)
    (hholder : Precedes σ.store profile holder n)
    (hnearer : ∀ a ∈ nearer, Precedes σ.store profile a n ∨ Precedes σ.store profile n a)
    (hescapes : ∀ a ∈ carriedOut profile.artifacts.toList (held σ), a.target = n →
      ¬a.Escapes key c r) :
    r.accepts v = true := by
  unfold load at hload
  obtain ⟨mid, hdeferred, hreselected⟩ := exists_of_deferring_ok hload
  have hrun := run_of_restoring_ok hdeferred
  have hstart (S : Namespace → Prop) : Filling σ.store S (held σ) :=
    { Filling.start (σ := held σ) hσ.sound hfresh.sheltered rfl with }
  have hend : Filling σ.store (fun _ => True) mid :=
    (keeps_tables fun _ _ => True.intro).of_run (hstart _) hrun
  -- the listeners that fire in the end change selections only
  have hmid : mid.store.Supplies n key c nearer holder r :=
    hsupplies.of_reselected hend.sound.grounded.ascending hreselected
  have hempty : σ.store.BoundedAt n key c r := by
    intro i hi
    obtain ⟨name, rfl⟩ : ∃ name, n = .registered name σ.store.generation := by
      rw [← (hend.tree.trans (.of_reselected hreselected)).generation]
      cases n with
      | registered name generation => exact ⟨name, congrArg _ (of_decide_eq_true hn)⟩
      | single number name inRegistry => exact nomatch hn
    have hown := Store.ownDependency?_eq_some.2 (Store.ownSingle?_eq_some.1 hi).1
    exact nomatch hown.symm.trans (Store.ownDependency?_of_empty (hfresh name))
  have hbounded := boundedAt_tables hfresh (inTurn_of_precedes hholder hnearer) hmid
    [] (held σ) rfl (hstart _) hempty hescapes hrun
  exact (hbounded.of_reselected hreselected id hheld).accepts
    (Dependency.admits_iff.2 fun c' hc' => Option.some.inj (hc'.symm.trans hc)) hv

/-- Namespace `one` requires at least version 2, and `one:two:three` below it uses version 3, besides
a version for another coordinate.  The table for `one:two` comes in between, and that for the root
last. -/
def orderedProfile : Profile where
  artifacts := (∅ : Std.TreeMap String (Std.TreeMap String ProfileValue))
    |>.insert "one" ((∅ : Std.TreeMap String ProfileValue).insert "k" (.spec "g:i:t:>=2"))
    |>.insert "one:two" ((∅ : Std.TreeMap String ProfileValue).insert "l" (.spec "g:j:t:1"))
    |>.insert "one:two:three" ((∅ : Std.TreeMap String ProfileValue)
      |>.insert "k" (.spec "g:i:t:3")
      |>.insert "m" (.spec "x:y:z:2")
      |>.insert "x:y:z" (.spec "1"))
    |>.insert "root" ((∅ : Std.TreeMap String ProfileValue).insert "k" (.spec "g:i:t:<2"))

/-- The session in which a profile has been loaded into an empty registry. -/
def loaded (profile : Profile) : Session := ((load profile).run (.start true)).2

/-- Version 3 meets the requirement of `one`, which is nearer than that of the root. -/
theorem accepts_orderedProfile :
    ∃ r, ((loaded orderedProfile).store.dependency 2).selected = some ⟨"3", by decide⟩ ∧
      (Namespace.inheritedRequirement (.registered "one:two:three" 0) "k" ⟨"g", "i", "t", none⟩).answer
        (loaded orderedProfile).store = some r ∧ r.accepts ⟨"3", by decide⟩ = true := by
  let s := (loaded orderedProfile).store
  let n : Namespace := .registered "one:two:three" 0
  let c : Coordinate := ⟨"g", "i", "t", none⟩
  have hloads : ((load orderedProfile).run (.start true)).1.toOption.isSome := by decide +kernel
  have hn : holds s n := by decide +kernel
  have hheld : s.ownSingle? n "k" = some 2 := by decide +kernel
  have hcoordinate : (s.dependency 2).coordinate = some c := by decide +kernel
  have hselected : (s.dependency 2).selected = some ⟨"3", by decide⟩ := by decide +kernel
  have hancestors : n.ancestors.answer s = [.registered "one:two" 0] ++ .registered "one" 0 ::
      [.registered "root" 0] := by decide +kernel
  have hnearest : ((Namespace.registered "one:two" 0).requirementFor? "k" c s).isNone := by
    decide +kernel
  have hsome : ((Namespace.registered "one" 0).requirementFor? "k" c s).isSome := by decide +kernel
  have hholder : Precedes (Session.start true).store orderedProfile (.registered "one" 0) n := by
    decide +kernel
  have hbetween : Precedes (Session.start true).store orderedProfile (.registered "one:two" 0) n := by
    decide +kernel
  have hassignments : (carriedOut orderedProfile.artifacts.toList (held (.start true))).filterMap
      (fun a => if a.target = n then some (a.value, a.assigned?) else none)
      = [(.text "g:i:t:3", some "k"), (.text "x:y:z:2", some "m"), (.text "1", some "m")] := by
    decide +kernel
  obtain ⟨_, τ, hrun⟩ := exists_of_isSome hloads
  obtain rfl : loaded orderedProfile = τ := congrArg Prod.snd hrun
  obtain ⟨r, hr⟩ := Option.isSome_iff_exists.1 hsome
  have hsupplies : s.Supplies n "k" c [.registered "one:two" 0] (.registered "one" 0) r := by
    refine ⟨⟨_, hancestors⟩, ?_, hr⟩
    simpa using hnearest
  refine ⟨r, hselected, Store.inheritedRequirement_eq_some_iff.2 ⟨_, _, hsupplies⟩, ?_⟩
  refine accepts_nearest .start (fun _ => rfl) hrun hn hheld hcoordinate hselected hsupplies hholder ?_
    fun a ha htarget hescapes => ?_
  · simpa using .inl hbetween
  · have hmem : (a.value, a.assigned?) ∈ [(Value.text "g:i:t:3", some "k"),
        (.text "x:y:z:2", some "m"), (.text "1", some "m")] := by
      rw [← hassignments]
      exact List.mem_filterMap.2 ⟨a, ha, if_pos htarget⟩
    cases hescapes with
    | version hvalue hbare hkey =>
      -- what is for `k` is a spec
      rw [hvalue, hkey] at hmem
      obtain rfl : _ = "g:i:t:3" := by simpa using hmem
      exact absurd hbare (by decide)
    | member hvalue =>
      rw [hvalue] at hmem
      exact absurd hmem (by simp)

/-- Namespace `a` uses version 1; the root requires at least version 2, in a table that comes
later. -/
def lateProfile : Profile where
  artifacts := (∅ : Std.TreeMap String (Std.TreeMap String ProfileValue))
    |>.insert "a" ((∅ : Std.TreeMap String ProfileValue).insert "k" (.spec "g:i:t:1"))
    |>.insert "root" ((∅ : Std.TreeMap String ProfileValue).insert "k" (.spec "g:i:t:>=2"))

/-- The profile is loaded, and the requirement that `a` inherits rejects what it has selected. -/
theorem outrun_lateProfile :
    ∃ r, (load lateProfile).run (.start true) = (.ok (), loaded lateProfile) ∧
      (loaded lateProfile).store.ownSingle? (.registered "a" 0) "k" = some 0 ∧
      ((loaded lateProfile).store.dependency 0).coordinate = some ⟨"g", "i", "t", none⟩ ∧
      ((loaded lateProfile).store.dependency 0).selected = some ⟨"1", by decide⟩ ∧
      (Namespace.inheritedRequirement (.registered "a" 0) "k" ⟨"g", "i", "t", none⟩).answer
        (loaded lateProfile).store = some r ∧ r.accepts ⟨"1", by decide⟩ = false := by
  have hloads : ((load lateProfile).run (.start true)).1.toOption.isSome := by decide +kernel
  have hrejects : ((Namespace.inheritedRequirement (.registered "a" 0) "k"
      ⟨"g", "i", "t", none⟩).answer (loaded lateProfile).store).map (·.accepts ⟨"1", by decide⟩)
      = some false := by decide +kernel
  obtain ⟨_, τ, hrun⟩ := exists_of_isSome hloads
  obtain rfl : loaded lateProfile = τ := congrArg Prod.snd hrun
  obtain ⟨r, hr, hfalse⟩ := Option.map_eq_some_iff.1 hrejects
  exact ⟨r, hrun, by decide +kernel, by decide +kernel, by decide +kernel, hr, hfalse⟩

end Registry

end DependencyScope
