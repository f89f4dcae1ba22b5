/-
  DependencyScope.Proofs.Registry.Tables — a profile is applied table by table.

  In a fresh registry the namespaces hold nothing.  A profile puts texts and groups into them, so
  they come to hold no sub-namespaces, and no dependency that another namespace holds.  Each table
  writes to the one namespace that its name stands for, then, and what another namespace holds stays
  as it is, down to the records.

  Main definitions:
    * `Store.SameTree`, `Store.AgreesOn` — the same namespaces; one that holds the same;
    * `Store.Sheltered` — namespaces without sub-namespaces and shared dependencies;
    * `Registry.Fresh`, `Registry.target` — an empty registry, and the namespace of a table;
    * `Registry.Filling` — what holds while tables are applied.

  Main results:
    * `Store.SameTree.answer_ancestors` — the same namespaces have the same ancestors;
    * `Registry.keeps_tables` — tables write to their own namespaces only.
-/
import DependencyScope.Proofs.Registry.Load
import DependencyScope.Proofs.Session.Reached

namespace DependencyScope

open DependencyScope.Text DependencyScope.Action

namespace Store

variable {s t u : Store} {m n : Namespace} {id : DependencyId}

/-! ## §1. The tree of namespaces. -/

/-- The store `t` has the same namespaces as `s`, with the same links; what they hold may differ. -/
def SameTree (s t : Store) : Prop :=
  ∃ contents dependencies next,
    t = { s with contents := contents, dependencies := dependencies, nextDependency := next }

namespace SameTree

theorem refl (s : Store) : s.SameTree s := ⟨_, _, _, rfl⟩

theorem trans (h : s.SameTree t) (h' : t.SameTree u) : s.SameTree u := by
  obtain ⟨_, _, _, rfl⟩ := h
  obtain ⟨_, _, _, rfl⟩ := h'
  exact ⟨_, _, _, rfl⟩

theorem putIndex (h : s.SameTree t) (n : Namespace) (id : DependencyId) :
    s.SameTree (t.putIndex n id) := by
  refine h.trans ?_
  unfold Store.putIndex
  split
  · exact ⟨_, _, _, rfl⟩
  · exact .refl t

theorem of_reselected (h : s.Reselected t) : s.SameTree t := by
  obtain ⟨dependencies, rfl⟩ := h.rest
  exact ⟨_, _, _, rfl⟩

theorem generation (h : s.SameTree t) : t.generation = s.generation := by
  obtain ⟨_, _, _, rfl⟩ := h
  rfl

theorem resolving (h : s.SameTree t) : t.resolving = s.resolving := by
  obtain ⟨_, _, _, rfl⟩ := h
  rfl

theorem settledUp (h : s.SameTree t) (n : Namespace) : t.settledUp n = s.settledUp n := by
  obtain ⟨_, _, _, rfl⟩ := h
  exact Grounded.settledUp_congr rfl rfl rfl

theorem up (h : s.SameTree t) (hs : s.Ascending) (n : Namespace) : t.up n = s.up n := by
  have hsettled := h.settledUp
  obtain ⟨ks, hks⟩ := hs.ends s.currentScope
  have hmarks : t.resolving = [] := h.resolving.trans hs.unmarked
  have hscope : t.currentScope = s.currentScope := by
    obtain ⟨_, _, _, rfl⟩ := h
    rfl
  have hks' : Ascends t.settledUp t.currentScope ks := by
    rw [hscope]
    exact hks.congr fun x _ => hsettled x
  rw [up_eq hs.unmarked hks, up_eq hmarks hks', hsettled n, hscope]
  obtain ⟨_, _, _, rfl⟩ := h
  rfl

/-- The same namespaces have the same ancestors. -/
theorem answer_ancestors (h : s.SameTree t) (hs : s.Ascending) (n : Namespace) :
    n.ancestors.answer t = n.ancestors.answer s := by
  have ht : t.Ascending := by
    refine ⟨h.resolving.trans hs.unmarked, fun x => ?_⟩
    obtain ⟨ms, hms⟩ := hs.ends x
    exact ⟨ms, hms.congr fun y _ => h.settledUp y⟩
  have hchain : Ascends t.up n (n.ancestors.answer s) :=
    (hs.ascends_ancestors n).congr fun x _ => h.up hs x
  exact (ht.ascends_ancestors n).unique hchain

end SameTree

/-! ## §2. What a namespace holds. -/

/-- A namespace has a dependency under a key or in its index. -/
def Has (s : Store) (n : Namespace) (id : DependencyId) : Prop :=
  (∃ key, s.ownDependency? n key = some id) ∨ ∃ unversioned, s.indexed? n unversioned = some id

theorem Has.lt (h : s.Has n id) (hs : s.Ordered) : id < s.nextDependency := by
  rcases h with ⟨key, hkey⟩ | ⟨unversioned, hunversioned⟩
  · exact hs.entries n key id hkey
  · exact hs.index n unversioned id hunversioned

theorem has_congr (h : t.contentsOf n = s.contentsOf n) : t.Has n id ↔ s.Has n id := by
  unfold Has ownDependency? entryAt? indexed?
  rw [h]

/-- In both stores the namespace holds the same dependencies in the same places, with the same
records. -/
structure AgreesOn (s : Store) (n : Namespace) (t : Store) : Prop where
  contents : t.contentsOf n = s.contentsOf n
  records : ∀ id, s.Has n id → t.dependency id = s.dependency id

namespace AgreesOn

theorem refl (s : Store) (n : Namespace) : s.AgreesOn n s := ⟨rfl, fun _ _ => rfl⟩

theorem trans (h : s.AgreesOn n t) (h' : t.AgreesOn n u) : s.AgreesOn n u where
  contents := h'.contents.trans h.contents
  records := by
    intro id hid
    rw [h'.records id ((has_congr h.contents).2 hid), h.records id hid]

theorem ownDependency? (h : s.AgreesOn n t) (key : String) :
    t.ownDependency? n key = s.ownDependency? n key := by
  unfold Store.ownDependency? entryAt?
  rw [h.contents]

theorem indexed? (h : s.AgreesOn n t) (unversioned : String) :
    t.indexed? n unversioned = s.indexed? n unversioned := by
  unfold Store.indexed?
  rw [h.contents]

/-- The requirements that the namespace passes on are the same. -/
theorem requirementFor? (h : s.AgreesOn n t) (key : String) (c : Coordinate) :
    n.requirementFor? key c t = n.requirementFor? key c s := by
  unfold Namespace.requirementFor?
  rw [h.ownDependency?, h.indexed?]
  have hown : ∀ id ∈ s.ownDependency? n key, t.dependency id = s.dependency id :=
    fun id hid => h.records id (.inl ⟨key, hid⟩)
  have hindexed : ∀ id ∈ s.indexed? n c.render, t.dependency id = s.dependency id :=
    fun id hid => h.records id (.inr ⟨_, hid⟩)
  dsimp only
  congr 1
  · exact Option.bind_congr fun id hid => by rw [hown id hid]
  · exact Option.bind_congr fun id hid => by rw [hindexed id hid]

end AgreesOn

/-! ## §3. Writing to one namespace. -/

/-- From the store `s`, only `n` has been written, and it got no sub-namespaces. -/
structure Confined (s : Store) (n : Namespace) (t : Store) : Prop where
  framed : s.Framed (· = n) (s.Writable (· = n)) t
  index : ∀ unversioned id, t.indexed? n unversioned = some id →
    s.Writable (· = n) id ∨ s.indexed? n unversioned = some id
  subs : ∀ key sub, t.entryAt? n key = some (.sub sub) → s.entryAt? n key = some (.sub sub)
  tree : s.SameTree t

end Store

/-- In a batch, writes to a namespace that store no namespace are confined to it. -/
theorem tolerates_confined (s : Store) (n : Namespace) :
    Tolerates (fun σ => s.Confined n σ.store ∧ σ.waiting.isSome) n (s.Writable (· = n))
      fun _ => True where
  unlisted _ _ hσ := hσ
  record _ _ := trivial
  own hσ _ _ hown := hσ.1.framed.own n rfl _ _ hown
  put hσ _ d hid _ := ⟨{ hσ.1 with
    framed := hσ.1.framed.putDependency hid d
    tree := hσ.1.tree.trans ⟨_, _, _, rfl⟩ }, hσ.2⟩
  add hσ d _ :=
    have ⟨hframed, hnew⟩ := hσ.1.framed.addDependency d
    ⟨⟨{ hσ.1 with framed := hframed, tree := hσ.1.tree.trans ⟨_, _, _, rfl⟩ }, hσ.2⟩, hnew⟩
  entry := by
    intro σ hσ key id hid
    refine ⟨⟨hσ.1.framed.putEntry rfl key (by rintro _ ⟨⟩; exact hid), ?_, ?_,
      hσ.1.tree.trans ⟨_, _, _, rfl⟩⟩, hσ.2⟩
    · intro unversioned i hi
      rw [Store.indexed?_putEntry] at hi
      exact hσ.1.index unversioned i hi
    · intro key' sub hsub
      rw [Store.entryAt?_putEntry] at hsub
      split at hsub
      · exact nomatch hsub
      · exact hσ.1.subs key' sub hsub
  index := by
    intro σ hσ id hid
    refine ⟨⟨hσ.1.framed.putIndex rfl id, ?_, ?_, hσ.1.tree.putIndex n id⟩, hσ.2⟩
    · intro unversioned i hi
      rw [Store.indexed?_putIndex] at hi
      split at hi
      · exact .inl (Option.some.inj hi ▸ hid)
      · exact hσ.1.index unversioned i hi
    · intro key sub hsub
      rw [Store.entryAt?_putIndex] at hsub
      exact hσ.1.subs key sub hsub
  -- a selection is only noted
  announce := by
    intro σ hσ id _
    obtain ⟨ids, hids⟩ := Option.isSome_iff_exists.1 hσ.2
    unfold Session.announce
    rw [hids]
    exact ⟨hσ.1, rfl⟩

namespace Store

variable {s t : Store} {m n : Namespace} {name : String} {id : DependencyId}

/-- The namespaces of the registry hold no sub-namespaces, and no dependency of theirs is held by
another namespace. -/
structure Sheltered (s : Store) : Prop where
  flat : ∀ name key sub, s.entryAt? (.registered name s.generation) key ≠ some (.sub sub)
  apart : ∀ name m id, m ≠ .registered name s.generation → s.Has m id →
    ∀ key, s.ownDependency? (.registered name s.generation) key ≠ some id

namespace Confined

/-- What another namespace has is not written. -/
theorem not_writable (hs : s.Sound) (h : s.Sheltered)
    (hm : m ≠ .registered name s.generation) (hid : s.Has m id) :
    ¬s.Writable (· = .registered name s.generation) id := by
  rintro (hnew | ⟨_, rfl, key, hown⟩)
  · exact absurd (hid.lt hs.ordered) (Nat.not_lt.2 hnew)
  · exact h.apart name m id hm hid key hown

theorem agreesOn (ht : s.Confined (.registered name s.generation) t) (hs : s.Sound)
    (h : s.Sheltered) (hm : m ≠ .registered name s.generation) : s.AgreesOn m t where
  contents := ht.framed.contents m hm
  records id hid := ht.framed.dependency id (not_writable hs h hm hid)

/-- What the namespace itself has is new, or it has had it before. -/
theorem has (ht : s.Confined n t) (hid : t.Has n id) : s.nextDependency ≤ id ∨ s.Has n id := by
  have hwritable : s.Writable (· = n) id ∨ s.Has n id := by
    rcases hid with ⟨key, hkey⟩ | ⟨unversioned, hunversioned⟩
    · exact .inl (ht.framed.own n rfl key id hkey)
    · exact (ht.index unversioned id hunversioned).imp_right fun h => .inr ⟨_, h⟩
  rcases hwritable with (hnew | ⟨_, rfl, key, hown⟩) | hhas
  · exact .inl hnew
  · exact .inr (.inl ⟨key, hown⟩)
  · exact .inr hhas

theorem sheltered (ht : s.Confined (.registered name s.generation) t) (hs : s.Sound)
    (h : s.Sheltered) : t.Sheltered where
  flat := by
    rw [ht.tree.generation]
    intro name' key sub hsub
    -- only the namespace that is written to has other entries than before
    by_cases heq : Namespace.registered name' s.generation = .registered name s.generation
    · rw [heq] at hsub
      exact h.flat name key sub (ht.subs key sub hsub)
    · unfold entryAt? at hsub
      rw [ht.framed.contents _ heq] at hsub
      exact h.flat name' key sub hsub
  apart := by
    rw [ht.tree.generation]
    intro name' m id hm hid key hown
    have hagrees {x : Namespace} (hx : x ≠ .registered name s.generation) : s.AgreesOn x t :=
      ht.agreesOn hs h hx
    -- either namespace may be the one that is written to, but they are not the same
    by_cases heq : Namespace.registered name' s.generation = .registered name s.generation
    · rw [heq] at hm hown
      have hbefore : s.Has m id := (has_congr (hagrees hm).contents).1 hid
      exact not_writable hs h hm hbefore (ht.framed.own _ rfl key id hown)
    · rw [(hagrees heq).ownDependency?] at hown
      by_cases hwritten : m = .registered name s.generation
      · subst hwritten
        rcases ht.has hid with hnew | hbefore
        · exact absurd (Has.lt (.inl ⟨key, hown⟩) hs.ordered) (Nat.not_lt.2 hnew)
        · exact h.apart name' _ id hm hbefore key hown
      · exact h.apart name' m id hm ((has_congr (hagrees hwritten).contents).1 hid) key hown

end Confined

end Store

/-! ## §4. Tables. -/

namespace Registry

/-- The registry's namespaces hold nothing. -/
def Fresh (s : Store) : Prop := ∀ name, s.contentsOf (.registered name s.generation) = {}

theorem Fresh.sheltered {s : Store} (h : Fresh s) : s.Sheltered where
  flat := by
    intro name key sub hsub
    unfold Store.entryAt? at hsub
    rw [h name] at hsub
    exact nomatch hsub
  apart := by
    intro name m id _ _ key hown
    unfold Store.ownDependency? Store.entryAt? at hown
    rw [h name] at hown
    exact nomatch hown

/-- The namespace that the name of a table stands for. -/
def target (s : Store) (name : String) : Namespace := (Namespace.ofKey (.ofText name)).answer s

theorem target_of_sameTree {s t : Store} (h : s.SameTree t) (name : String) :
    target t name = target s name := by
  obtain ⟨_, _, _, rfl⟩ := h
  rfl

theorem exists_target (s : Store) (name : String) :
    ∃ canonical, target s name = .registered canonical s.generation := ⟨_, rfl⟩

/-- What holds while tables for the namespaces in `S` are applied to the store `s`. -/
structure Filling (s : Store) (S : Namespace → Prop) (σ : Session) : Prop where
  sound : σ.store.Sound
  sheltered : σ.store.Sheltered
  tree : s.SameTree σ.store
  waiting : σ.waiting.isSome
  agrees : ∀ m, ¬S m → s.AgreesOn m σ.store

namespace Filling

variable {s : Store} {S : Namespace → Prop} {σ : Session}

theorem start (hs : σ.store.Sound) (h : σ.store.Sheltered) (hwaiting : σ.waiting.isSome) :
    Filling σ.store S σ where
  sound := hs
  sheltered := h
  tree := .refl _
  waiting := hwaiting
  agrees m _ := .refl _ m

end Filling

variable {s : Store} {S : Namespace → Prop} {σ τ : Session}

/-- A namespace without sub-namespaces is where all its keys lead. -/
theorem landing_eq {s : Store} {n : Namespace}
    (h : ∀ key sub, s.entryAt? n key ≠ some (.sub sub)) (key : String) :
    s.landing n key = (n, trim key) := by
  unfold Store.landing
  split
  · rfl
  · split
    · next sub rest hfound =>
      obtain ⟨name, hname⟩ := Store.exists_of_compoundSplit hfound
      exact absurd hname (h name sub)
    · rfl

/-- An entry of a table is written to the namespace of the table. -/
theorem keeps_set {name : String} (hS : S (.registered name s.generation)) (key : String)
    (value : ProfileValue) :
    Keeps (Filling s S) ((Namespace.registered name s.generation).set key (assigned value))
      fun _ => True := by
  intro σ hσ
  have hgeneration := hσ.tree.generation
  rw [← hgeneration] at hS ⊢
  let n : Namespace := .registered name σ.store.generation
  let a : Assignment := ⟨σ, n, key, assigned value⟩
  -- keys of a namespace without sub-namespaces lead nowhere else
  have hplace : a.place = n := congrArg Prod.fst (landing_eq (hσ.sheltered.flat name) key)
  have hstart : σ.store.Confined n σ.store ∧ σ.waiting.isSome :=
    ⟨⟨.start _ _, fun _ _ hid => .inr hid, fun _ _ hsub => hsub, .refl _⟩, hσ.waiting⟩
  have htolerates : Tolerates (fun τ => σ.store.Confined n τ.store ∧ τ.waiting.isSome) a.place
      (σ.store.Writable (· = n)) fun _ => True := hplace ▸ tolerates_confined σ.store n
  have hset := a.keepsAt_set htolerates hstart fun sub hsub =>
    nomatch (stored?_assigned σ.store value).symm.trans hsub
  have hgrows := Session.growsAt_set hσ.sound n key (assigned value)
  refine ⟨?_, fun _ _ => trivial⟩
  obtain ⟨hconfined, hwaiting⟩ := hset.1
  refine ⟨hgrows.1.sound, hconfined.sheltered hσ.sound hσ.sheltered,
    hσ.tree.trans hconfined.tree, hwaiting, ?_⟩
  intro m hm
  have hne : m ≠ n := by
    rintro rfl
    exact hm hS
  exact (hσ.agrees m hm).trans (hconfined.agreesOn hσ.sound hσ.sheltered hne)

theorem keeps_table {name : String} (hS : S (target s name))
    (table : Std.TreeMap String ProfileValue) :
    Keeps (Filling s S) (applyTable name table) fun _ => True := by
  unfold applyTable
  have hread : Keeps (Filling s S) (Action.read (Namespace.ofKey (.ofText name)))
      (· = target s name) :=
    .read (fun σ _ hσ => { hσ with }) fun σ hσ => target_of_sameTree hσ.tree name
  refine hread.bind fun n hn => ?_
  refine Keeps.bind (Q := fun es => ∀ e ∈ es, True) ?_ fun _ _ => .pure trivial
  refine .mapM _ fun pair hpair => ?_
  obtain ⟨⟨key, value⟩, -, rfl⟩ := List.mem_map.1 hpair
  subst hn
  exact keeps_set hS key value

/-- Tables write to their own namespaces only. -/
theorem keeps_tables {tables : List (String × Std.TreeMap String ProfileValue)}
    (hS : ∀ table ∈ tables, S (target s table.1)) :
    Keeps (Filling s S) (tables.forM fun (name, table) => applyTable name table)
      fun _ => True :=
  .forM tables fun table htable => keeps_table (hS table htable) table.2

end Registry

end DependencyScope
