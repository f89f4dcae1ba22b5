/-
  DependencyScope.Proofs.Session.Values — the values that a session answers with.

  Without the ancestors they are what the namespace and those below it hold, whatever shape these
  have.  With the ancestors, each coordinate is taken from the nearest namespace that has it, though
  the values of an ancestor contain those of the namespace itself and of others beside it.

  Main definitions:
    * `Session.FromNearest` — what has a property comes from the nearest namespace that has such.

  Main results:
    * `Session.values_below` — the values of a namespace, its sub-namespaces included;
    * `Session.values_nearest` — with the ancestors, the nearest namespace decides.
-/
import DependencyScope.Proofs.Session.Findable
import DependencyScope.Proofs.Store.Values

namespace DependencyScope.Session

open Store

variable {σ : Session}

/-! ## §1. What is below. -/

/-- The values of a namespace are read off by a recursion that ends on every containment graph.  They
are, each once, the dependencies with a coordinate that are held by a namespace below it, under a key
of their own or as a member of a group. -/
theorem values_below (σ : Session) (n : Namespace) :
    (Action.perform (.values n false)).run σ = (.ok (.dependencies (σ.store.values n)), σ) ∧
    (∃ seen, σ.store.Collects (σ.store.entries n) ([n], []) (seen, σ.store.values n)) ∧
    (∀ after, σ.store.Collects (σ.store.entries n) ([n], []) after → after.2 = σ.store.values n) ∧
    (σ.store.values n).Nodup ∧
    ∀ id, id ∈ σ.store.values n ↔ (σ.store.dependency id).coordinate.isSome ∧
      ∃ m, σ.store.Contains n m ∧ ∃ key held, σ.store.entryAt? m key = some (.dependency held) ∧
        (((σ.store.dependency held).isGroup = false ∧ id = held) ∨
          ((σ.store.dependency held).isGroup = true ∧ id ∈ (σ.store.dependency held).members)) := by
  obtain ⟨seen, hcollects⟩ := σ.store.collects_values n
  refine ⟨rfl, ⟨seen, hcollects⟩, ?_, σ.store.nodup_values n, fun id => ?_⟩
  · intro after hafter
    rw [hafter.unique hcollects]
  · simp only [mem_values_below_iff, mem_standsFor_iff]

/-! ## §2. What is above. -/

/-- If one of some namespaces, given from near to far, has a value with the property, then `found` has
one, and all that it has with it are values of the nearest such namespace. -/
def FromNearest (σ : Session) (found : List DependencyId) (chain : List Namespace)
    (P : Dependency → Prop) : Prop :=
  (∃ m ∈ chain, ∃ id ∈ σ.store.values m, P (σ.store.dependency id)) →
    ∃ nearer m farther, chain = nearer ++ m :: farther ∧
      (∀ k ∈ nearer, ∀ id ∈ σ.store.values k, ¬P (σ.store.dependency id)) ∧
      (∃ id ∈ σ.store.values m, P (σ.store.dependency id)) ∧
      (∃ id ∈ found, P (σ.store.dependency id)) ∧
      ∀ id ∈ found, P (σ.store.dependency id) → id ∈ σ.store.values m

/-- Where coordinates are such as specs write, their texts tell them apart. -/
theorem unversioned_eq_iff (hlocated : σ.Records Dependency.Located) {c : Coordinate}
    (hc : c.WellFormed) (id : DependencyId) :
    (σ.store.dependency id).unversioned = some c.render ↔
      (σ.store.dependency id).coordinate = some c := by
  unfold Dependency.unversioned
  rw [Option.map_eq_some_iff]
  constructor
  · rintro ⟨c', hc', hrender⟩
    rw [hc', (hlocated id c' hc').render_injective hc hrender]
  · exact fun heq => ⟨c, heq, rfl⟩

/-- Where a list has an element with a property, it has a first one. -/
theorem exists_nearest {α : Type} {P : α → Prop} {as : List α} (h : ∃ a ∈ as, P a) :
    ∃ nearer a farther, as = nearer ++ a :: farther ∧ (∀ b ∈ nearer, ¬P b) ∧ P a := by
  classical
  have hfound : (as.find? (P ·)).isSome := by simpa [List.find?_isSome] using h
  obtain ⟨a, ha⟩ := Option.isSome_iff_exists.1 hfound
  obtain ⟨hP, nearer, farther, hsplit, hfree⟩ := List.find?_eq_some_iff_append.1 ha
  exact ⟨nearer, a, farther, hsplit, by simpa using hfree, by simpa using hP⟩

/-- Of the namespace and those above it, the nearest decides about an unversioned spec. -/
theorem fromNearest_unversioned (σ : Session) (n : Namespace) (ns : List Namespace)
    (unversioned : Option String) :
    σ.FromNearest (σ.store.through (σ.store.values n) ns) (n :: ns)
      (·.unversioned = unversioned) := by
  intro hsome
  obtain ⟨nearer, m, farther, hsplit, hfree, hoffers⟩ := exists_nearest hsome
  obtain ⟨hfound, honly⟩ := through_nearest hsplit
    (fun k hk ⟨id, hid, heq⟩ => hfree k hk ⟨id, hid, heq⟩) hoffers
  exact ⟨nearer, m, farther, hsplit, fun k hk id hid heq => hfree k hk ⟨id, hid, heq⟩, hoffers,
    hfound, honly⟩

/-- What is decided about one property is decided about another that the same records have. -/
theorem FromNearest.congr {found : List DependencyId} {chain : List Namespace}
    {P Q : Dependency → Prop} (h : σ.FromNearest found chain P)
    (heq : ∀ id, P (σ.store.dependency id) ↔ Q (σ.store.dependency id)) :
    σ.FromNearest found chain Q := by
  unfold FromNearest at h ⊢
  simpa only [heq] using h

theorem reply_values (σ : Session) (n : Namespace) :
    ((Action.perform (.values n true)).run σ).1 = .ok (.dependencies
      (σ.store.through (σ.store.values n) (n.ancestors.answer σ.store))) := by
  have hanswer : n.valuesThrough.answer σ.store
      = σ.store.through (σ.store.values n) (n.ancestors.answer σ.store) :=
    Reading.answer_bind _ _ _
  have hrun := Action.run_return_read n.valuesThrough Reply.dependencies σ
  rw [hanswer] at hrun
  exact congrArg Prod.fst hrun

/-- With the ancestors, the values begin with those of the namespace itself, and none comes twice.
Each coordinate that the namespace or an ancestor has is found, and whatever is found with it is of
the nearest that has it.  What is compared are the texts of coordinates: they stand for the
coordinates wherever dependencies that are brought along have such as a spec writes. -/
theorem values_nearest (σ : Session) (n : Namespace) :
    ∃ found, ((Action.perform (.values n true)).run σ).1 = .ok (.dependencies found) ∧
      σ.store.values n <+: found ∧ found.Nodup ∧
      (∀ c : Coordinate, σ.FromNearest found (n :: n.ancestors.answer σ.store)
        (·.unversioned = some c.render)) ∧
      (∀ followsProjects,
        ReachedThrough followsProjects
          (fun _ operation => ∀ d, operation = .newDependency d → d.Located) σ →
        ∀ c, σ.FromNearest found (n :: n.ancestors.answer σ.store) (·.coordinate = some c)) := by
  have hfollows :=
    σ.store.follows_through (σ.store.values n) (n.ancestors.answer σ.store)
  have htexts := σ.fromNearest_unversioned n (n.ancestors.answer σ.store)
  refine ⟨σ.store.through (σ.store.values n) (n.ancestors.answer σ.store),
    σ.reply_values n, hfollows.kept, hfollows.nodup (σ.store.nodup_values n),
    fun c => htexts (some c.render), ?_⟩
  intro followsProjects h c hsome
  have hlocated : σ.Records Dependency.Located := h.located fun _ _ hnew => hnew
  -- a coordinate that is found at all is one that a spec writes
  have hwellFormed : c.WellFormed := by
    obtain ⟨m, -, id, -, hcoordinate⟩ := hsome
    exact hlocated id c hcoordinate
  have hcoordinates : σ.FromNearest _ _ (·.coordinate = some c) :=
    (htexts (some c.render)).congr (unversioned_eq_iff hlocated hwellFormed)
  exact hcoordinates hsome

/-- The namespace `a` has `g:i:t` itself and in a sub-namespace; the root has another one, and `g:j:t`
besides, which is found there alone. -/
theorem values_nearest_shadowed :
    let root : Namespace := .registered rootName 0
    let a : Namespace := .registered "a" 0
    let σ := (start true).afterAll
      [.set a "k" (.text "g:i:t:1"), .openSub a "s",
        .set (.single 0 "a:s" true) "l" (.text "g:i:t:2"),
        .set root "k" (.text "g:i:t:3"), .set root "l" (.text "g:j:t:1")]
    σ.store.values root = [2, 3] ∧
      ∃ found, ((Action.perform (.values a true)).run σ).1 = .ok (.dependencies found) ∧
        found = [0, 1, 3] ∧ [0, 1] <+: found ∧ found.Nodup ∧
        ReachedThrough true (fun _ operation => ∀ d, operation = .newDependency d → d.Located) σ ∧
        ∀ c, σ.FromNearest found [a, root] (·.coordinate = some c) := by
  intro root a σ
  have hreached : ReachedThrough true
      (fun _ operation => ∀ d, operation = .newDependency d → d.Located) σ :=
    .after (.after (.after (.after (.after .start trivial nofun) (Nat.zero_le _) nofun)
      trivial nofun) trivial nofun) trivial nofun
  have hancestors : a.ancestors.answer σ.store = [root] := by decide +kernel
  have hvalues : σ.store.values a = [0, 1] := by decide +kernel
  have hthrough : σ.store.through [0, 1] [root] = [0, 1, 3] := by decide +kernel
  obtain ⟨found, hrun, hkept, hnodup, -, hnearest⟩ := values_nearest σ a
  rw [hvalues] at hkept
  rw [hancestors] at hnearest
  have hfound : found = [0, 1, 3] := by
    have hanswer := σ.reply_values a
    rw [hvalues, hancestors, hthrough] at hanswer
    cases hrun.symm.trans hanswer
    rfl
  exact ⟨by decide +kernel, found, hrun, hfound, hkept, hnodup, hreached, hnearest true hreached⟩

end DependencyScope.Session
