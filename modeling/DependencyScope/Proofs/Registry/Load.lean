/-
  DependencyScope.Proofs.Registry.Load — a load that fails leaves no trace.

  A load assigns texts and groups only, and these store no namespace.  So every assignment lands in
  a namespace that belongs to the registry, or in one that was below such a namespace before the
  load.  All of these are put back when an entry fails, and no listener is told before the end.

  Main definitions:
    * `Session.table` — the registry's table from names to namespaces;
    * `Registry.Reaches` — the namespaces that the registry has, and those below them.

  Main results:
    * `Registry.keeps_applyTable` — a load writes only to what the registry reaches;
    * `Registry.asBefore_restoreBelow` — that is all put back;
    * `Registry.asBefore_load` — a load that fails leaves everything as it was.
-/
import DependencyScope.Proofs.Namespace.Rollback
import DependencyScope.Registry

namespace DependencyScope

open DependencyScope.Action

/-- The namespace that the registry lists under a name. -/
def Session.table (σ : Session) (name : String) : Option Namespace :=
  if name ∈ σ.listed then some (.registered name σ.store.generation) else none

namespace Registry

/-! ## §1. What the registry reaches. -/

/-- The registry has `m`, or has a namespace that contains `m`. -/
def Reaches (s : Store) (m : Namespace) : Prop := ∃ n, holds s n ∧ s.Contains n m

theorem reaches_registered {s t : Store} (h : t.generation = s.generation) (name : String) :
    Reaches s (.registered name t.generation) :=
  ⟨_, by simp [holds, h], .refl s _⟩

theorem closed_reaches (s : Store) : s.Closed (Reaches s) := by
  rintro m ⟨n, hn, hm⟩ k hk
  exact ⟨n, hn, hm.tail hk⟩

/-- What a load that began with the store `s₀` and the record `events` keeps while it runs. -/
structure Loading (s₀ : Store) (events : List Event) (σ : Session) : Prop where
  framed : Store.Framed s₀ (Reaches s₀) (s₀.Writable (Reaches s₀)) σ.store
  closed : σ.store.Closed (Reaches s₀)
  /-- What was written stays written. -/
  written : ∀ n ∈ s₀.contents, n ∈ σ.store.contents
  generation : σ.store.generation = s₀.generation
  waiting : σ.waiting.isSome
  events : σ.events = events

theorem Loading.start {σ : Session} (h : σ.waiting.isSome) : Loading σ.store σ.events σ where
  framed := .start σ.store _
  closed := closed_reaches σ.store
  written _ hn := hn
  generation := rfl
  waiting := h
  events := rfl

variable {s₀ : Store} {events : List Event} {m n : Namespace} {σ τ : Session}

/-- Writes to a namespace that was within reach stay within reach. -/
theorem tolerates_loading (hm : Reaches s₀ m) :
    Tolerates (Loading s₀ events) m (s₀.Writable (Reaches s₀)) fun _ => True where
  unlisted _ _ hσ := { hσ with }
  record _ _ := trivial
  own hσ _ _ hown := hσ.framed.own m hm _ _ hown
  put hσ _ d hid _ := { hσ with framed := hσ.framed.putDependency hid d, closed := hσ.closed }
  add hσ d _ :=
    have ⟨hframed, hnew⟩ := hσ.framed.addDependency d
    ⟨{ hσ with framed := hframed, closed := hσ.closed }, hnew⟩
  entry hσ key _ hid := { hσ with
    framed := hσ.framed.putEntry hm key (by rintro _ ⟨⟩; exact hid)
    closed := hσ.closed.putEntry m key (by simp)
    written := fun n hn => Std.TreeMap.mem_insert.2 (.inr (hσ.written n hn)) }
  index := by
    intro σ hσ id hid
    have hclosed : (σ.store.putIndex m id).Closed (Reaches s₀) :=
      (tolerates_closed (Reaches s₀) m).index hσ.closed trivial
    refine ⟨hσ.framed.putIndex hm id, hclosed, ?_, ?_, hσ.waiting, hσ.events⟩
    · intro n hn
      dsimp only [Store.putIndex]
      split
      · exact Std.TreeMap.mem_insert.2 (.inr (hσ.written n hn))
      · exact hσ.written n hn
    · dsimp only [Store.putIndex]
      split <;> exact hσ.generation
  -- a selection is only noted, and its listeners are not told
  announce := by
    intro σ hσ id _
    obtain ⟨ids, hids⟩ := Option.isSome_iff_exists.1 hσ.waiting
    unfold Session.announce
    rw [hids]
    exact { hσ with framed := hσ.framed, closed := hσ.closed, waiting := rfl }

/-! ## §2. The assignments of a load. -/

theorem stored?_assigned (s : Store) (value : ProfileValue) : s.stored? n (assigned value) = none := by
  cases value <;> rfl

/-- An entry of a profile is assigned within reach. -/
theorem keeps_set_assigned (hn : Reaches s₀ n) (key : String) (value : ProfileValue) :
    Keeps (Loading s₀ events) (n.set key (assigned value)) fun _ => True := by
  intro σ hσ
  let a : Assignment := ⟨σ, n, key, assigned value⟩
  have hplace : Reaches s₀ a.place := Store.landing_mem hσ.closed n key hn
  refine a.keepsAt_set (tolerates_loading hplace) hσ ?_
  intro sub hsub
  have hnone : a.stored? = none := stored?_assigned σ.store value
  rw [hnone] at hsub
  exact nomatch hsub

/-- A table of a profile is applied within reach: its namespace is in the registry. -/
theorem keeps_applyTable (name : String) (table : Std.TreeMap String ProfileValue) :
    Keeps (Loading s₀ events) (applyTable name table) fun _ => True := by
  unfold applyTable
  have hread : Keeps (Loading s₀ events) (Action.read (Namespace.ofKey (.ofText name))) (Reaches s₀) :=
    .read (fun σ _ hσ => { hσ with }) fun σ hσ => reaches_registered hσ.generation _
  refine hread.bind fun n hn => ?_
  refine Keeps.bind (Q := fun es => ∀ e ∈ es, True) ?_ fun _ _ => .pure trivial
  refine .mapM _ fun pair hpair => ?_
  obtain ⟨⟨key, value⟩, -, rfl⟩ := List.mem_map.1 hpair
  exact keeps_set_assigned hn key value

/-! ## §3. What is put back. -/

theorem eq_of_contains_of_unwritten {s : Store} (hn : n ∉ s.contents) (h : s.Contains n m) :
    m = n := by
  rcases Relation.ReflTransGen.cases_head h with rfl | ⟨k, hk, -⟩
  · rfl
  · exact (hn (Std.TreeMap.mem_keys.1 (Store.mem_keys_of_mem_entries hk))).elim

/-- Putting back what the registry's namespaces held is enough if only these were written. -/
theorem asBefore_restoreBelow {t : Store}
    (hframed : Store.Framed s₀ (Reaches s₀) (s₀.Writable (Reaches s₀)) t)
    (hwritten : ∀ n ∈ s₀.contents, n ∈ t.contents) :
    s₀.AsBefore (t.restoreBelow s₀ (t.contents.keys.filter (holds s₀))) := by
  have hroot : ∀ n, holds s₀ n → n ∈ t.contents → n ∈ t.contents.keys.filter (holds s₀) :=
    fun n hholds hmem => List.mem_filter.2 ⟨Std.TreeMap.mem_keys.2 hmem, hholds⟩
  constructor
  · intro m
    unfold Store.restoreBelow
    rw [Store.contentsOf_restore]
    split
    · rfl
    · next hnot =>
      by_cases hm : Reaches s₀ m
      · obtain ⟨n, hn, hnm⟩ := hm
        -- the namespace that leads to `m` was never written, so it is `m` itself
        have hunwritten : n ∉ t.contents := fun hmem =>
          hnot (List.mem_flatMap.2 ⟨n, hroot n hn hmem, Store.mem_subtree_iff.2 hnm⟩)
        have hbefore : n ∉ s₀.contents := fun hmem => hunwritten (hwritten n hmem)
        obtain rfl := eq_of_contains_of_unwritten hbefore hnm
        unfold Store.contentsOf
        rw [Std.TreeMap.getD_eq_fallback hunwritten, Std.TreeMap.getD_eq_fallback hbefore]
      · exact hframed.contents m hm
  · intro id hid
    unfold Store.restoreBelow
    rw [Store.dependency_restore]
    split
    · rfl
    · next hnot =>
      refine hframed.dependency id ?_
      rintro (hnew | ⟨m, ⟨n, hn, hnm⟩, key, hown⟩)
      · exact Nat.not_le_of_lt hid hnew
      · refine hnot (List.mem_flatMap.2 ⟨n, hroot n hn (hwritten n ?_), Store.mem_heldIn hnm hown⟩)
        -- a namespace that leads to one which holds something was written
        by_contra hbefore
        obtain rfl := eq_of_contains_of_unwritten hbefore hnm
        have hentry := Store.mem_entries_iff.2 ⟨key, Store.ownDependency?_eq_some.1 hown⟩
        exact hbefore (Std.TreeMap.mem_keys.1 (Store.mem_keys_of_mem_entries hentry))

theorem generation_restore (s saved : Store) (ns : List Namespace) (ids : List DependencyId) :
    (s.restore saved ns ids).generation = s.generation := by
  unfold Store.restore
  refine List.foldlRecOn (motive := fun t : Store => t.generation = s.generation) _ _ ?_ ?_
  · exact List.foldlRecOn (motive := fun t : Store => t.generation = s.generation) _ _ rfl
      fun t ht n _ => ht
  · exact fun t ht id _ => ht

/-! ## §4. Loads that fail. -/

/-- A load that fails leaves the registry's table, what every namespace holds and every dependency
as they were.  No listener was told of anything, and outside of a batch none will be. -/
theorem asBefore_load {profile : Profile} {e : Error} (h : (load profile).run σ = (.error e, τ)) :
    (∀ name, τ.table name = σ.table name) ∧ σ.store.AsBefore τ.store ∧ τ.events = σ.events ∧
      (σ.waiting = none → τ.waiting = none) := by
  unfold load at h
  obtain ⟨undone, waiting, hundone, rfl, hwaiting⟩ := exists_of_deferring_error h
  obtain ⟨mid, hact, rfl⟩ := exists_of_restoring_error hundone
  have hmid : Loading σ.store σ.events mid := by
    have hstart : Loading σ.store σ.events (held σ) := Loading.start (σ := held σ) rfl
    exact (Keeps.forM profile.artifacts.toList fun table _ =>
      keeps_applyTable table.1 table.2).of_run hstart hact
  refine ⟨?_, asBefore_restoreBelow hmid.framed hmid.written, hmid.events, hwaiting⟩
  intro name
  have hgeneration : (mid.store.restoreBelow σ.store
      (mid.store.contents.keys.filter (holds σ.store))).generation = σ.store.generation := by
    unfold Store.restoreBelow
    rw [generation_restore, hmid.generation]
  unfold Session.table
  show (if name ∈ σ.listed then some (Namespace.registered name _) else none) = _
  rw [← hgeneration]
  rfl

/-- A session in which a sub-namespace of `n` holds a dependency, and a listener watches it. -/
def watched : Session :=
  (Session.start true).afterAll
    [.openSub (.registered "n" 0) "s", .set (.registered "n" 0) "s_k" (.text "g:i:t:1"),
      .listen 0 ⟨"seen", none⟩]

/-- Writes to a new namespace and to the sub-namespace, and then has a text that is no version. -/
def failingProfile : Profile where
  artifacts := (∅ : Std.TreeMap String (Std.TreeMap String ProfileValue))
    |>.insert "m" ((∅ : Std.TreeMap String ProfileValue).insert "k" (.spec "g:j:t:1"))
    |>.insert "n" ((∅ : Std.TreeMap String ProfileValue).insert "s_k" (.spec "2")
      |>.insert "x" (.spec "?"))

/-- The selection through the sub-namespace is taken back, and its listener does not see it. -/
theorem asBefore_failingProfile :
    ∃ e τ, (load failingProfile).run watched = (.error e, τ) ∧ watched.store.AsBefore τ.store ∧
      τ.events = watched.events := by
  have hfails : ((load failingProfile).run watched).1.toOption.isNone := by decide +kernel
  obtain ⟨e, τ, hrun⟩ := exists_of_isNone hfails
  obtain ⟨-, hstore, hevents, -⟩ := asBefore_load hrun
  exact ⟨e, τ, hrun, hstore, hevents⟩

end Registry

end DependencyScope
