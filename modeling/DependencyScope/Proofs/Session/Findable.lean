/-
  DependencyScope.Proofs.Session.Findable — whether what a key holds is found by its coordinate.

  A namespace registers for each coordinate the dependency that was stored last, and so it finds one
  with the coordinate of everything that it holds.  There are three ways to lose that.  Deleting what
  is registered takes the registration along, also where another key has a dependency with the same
  coordinate.  An alias registers nothing in the namespace where it lands.  And where two namespaces
  hold the same dependency, a coordinate that it is given in one is not registered in the other.

  Main definitions:
    * `Store.Registered` — what is registered for a text has the coordinate that it prints;
    * `Store.Covered` — something is registered for the coordinate of everything that is held;
    * `Step.Uncovers` — the three ways to lose that;
    * `Operation.Covering` — no single write of the operation is one of them;
    * `Session.Findable` — a look-up of its coordinate finds what a key holds.

  Main results:
    * `Session.ReachedThrough.registered` — so it is in every run that takes no coordinate back;
    * `Store.Covered.put` — storing a dependency registers it for its coordinate;
    * `Step.covered_of_not_uncovers`, `Step.Uncovers.uncovered` — the three ways, and no others, lose
      that;
    * `Session.findable_after_iff` — what is held is found by its coordinate, until one of them does.
-/
import DependencyScope.Proofs.Coordinate
import DependencyScope.Proofs.Namespace.Narrow
import DependencyScope.Proofs.Session.Parts

namespace DependencyScope

open DependencyScope.Text DependencyScope.Action

namespace Store

variable {K : String → Prop} {s t : Store} {n m : Namespace} {key u : String} {id : DependencyId}

/-! ## §1. Deleting. -/

theorem indexed?_without_of_none (h : s.ownDependency? n key = none) :
    (s.putContents n ((s.contentsOf n).without key)).indexed? n u = s.indexed? n u := by
  unfold indexed?
  rw [contentsOf_putContents, if_pos rfl]
  unfold Contents.without
  unfold ownDependency? entryAt? at h
  split
  · rfl
  · rfl
  · next hkey =>
    rw [hkey] at h
    exact nomatch h

/-- With a dependency go its registrations, -/
theorem indexed?_without (h : s.ownDependency? n key = some id) :
    (s.putContents n ((s.contentsOf n).without key)).indexed? n u
      = (s.indexed? n u).filter (· ≠ id) := by
  have hkey : (s.contentsOf n).entries[key]? = some (.dependency id) := ownDependency?_eq_some.1 h
  unfold indexed?
  rw [contentsOf_putContents, if_pos rfl]
  unfold Contents.without
  rw [hkey]
  exact Std.TreeMap.getElem?_filter'

/-- and all keys that have held it. -/
theorem entryAt?_without (h : s.ownDependency? n key = some id) (k : String) :
    (s.putContents n ((s.contentsOf n).without key)).entryAt? n k
      = (s.entryAt? n k).filter (· ≠ .dependency id) := by
  have hkey : (s.contentsOf n).entries[key]? = some (.dependency id) := ownDependency?_eq_some.1 h
  unfold entryAt?
  rw [contentsOf_putContents, if_pos rfl]
  unfold Contents.without
  rw [hkey]
  exact Std.TreeMap.getElem?_filter'

/-! ## §2. What is registered. -/

/-- What is registered for a text has the coordinate that it prints. -/
def Registered (s : Store) : Prop :=
  ∀ n u id, s.indexed? n u = some id → (s.dependency id).unversioned = some u

namespace Registered

theorem of_quiet (h : s.Registered) (hs : s.Sound) (hquiet : s.Quiet t) : t.Registered := by
  intro n u id hindexed
  rw [hquiet.indexed?] at hindexed
  rw [Dependency.unversioned_of_stamp (hquiet.stamp id (hs.ordered.index n u id hindexed))]
  exact h n u id hindexed

theorem of_removed (h : s.Registered) (hremoved : s.Removed t) : t.Registered := by
  intro n u id hindexed
  rw [hremoved.dependency id]
  exact h n u id (hremoved.index n u id hindexed)

theorem putEntry (h : s.Registered) (n : Namespace) (key : String) (e : Entry) :
    (s.putEntry n key e).Registered := by
  intro m u id hindexed
  rw [indexed?_putEntry] at hindexed
  exact h m u id hindexed

/-- What was registered before keeps its coordinate, and what is placed is registered for its own. -/
theorem of_placed (h : s.Registered) (hs : s.Sound) (hplaced : s.Placed K n key id t) :
    t.Registered := by
  intro m u i hindexed
  rcases hplaced.indexed?_cases m u with hsame | ⟨-, j, hj, hu, -⟩
  · rw [hsame] at hindexed
    have hi := hs.ordered.index m u i hindexed
    exact (hplaced.toTouches.continues hi).unversioned (h m u i hindexed)
  · obtain rfl := Option.some.inj (hj.symm.trans hindexed)
    exact hu

theorem of_wrote (h : s.Registered) (hs : s.Sound) (hwrote : s.Wrote K t) : t.Registered := by
  cases hwrote with
  | put hput =>
    cases hput with
    | quiet hquiet => exact h.of_quiet hs hquiet
    | placed hplaced => exact h.of_placed hs hplaced
    | linked hquiet => exact (h.of_quiet hs hquiet).putEntry _ _ _
  | aliased hsourced =>
    obtain ⟨hquiet | ⟨m, key', hplaced⟩, -⟩ := hsourced
    · exact (h.of_quiet hs hquiet).putEntry _ _ _
    · exact (h.of_placed hs hplaced).putEntry _ _ _

end Registered

/-! ## §3. Coordinates that are registered. -/

/-- Something is registered for the coordinate of each single dependency that a key holds. -/
def Covered (s : Store) : Prop :=
  ∀ n key id u, s.ownSingle? n key = some id → (s.dependency id).unversioned = some u →
    ∃ j, s.indexed? n u = some j

/-- From `s` to `t`, a dependency that a namespace holds has been given a coordinate for which that
namespace has nothing registered. -/
def Misses (s t : Store) : Prop :=
  ∃ m key id c, s.ownSingle? m key = some id ∧ (s.dependency id).coordinate = none ∧
    (t.dependency id).coordinate = some c ∧ t.indexed? m c.render = none

/-- Taking entries out gives no coordinates. -/
theorem Removed.not_misses (h : s.Removed t) : ¬s.Misses t := by
  rintro ⟨m, key, id, c, -, hnone, hc, -⟩
  rw [h.dependency id] at hc
  exact nomatch hnone.symm.trans hc

namespace Covered

theorem of_quiet (h : s.Covered) (hs : s.Sound) (hquiet : s.Quiet t) : t.Covered := by
  intro n key id u hown hu
  obtain ⟨hentry, hsingle⟩ := ownSingle?_eq_some.1 hown
  rw [hquiet.entryAt?] at hentry
  have hstamp := hquiet.stamp id (hs.ordered.entries n key id (ownDependency?_eq_some.2 hentry))
  rw [Dependency.unversioned_of_stamp hstamp] at hu
  rw [(Dependency.Continues.of_stamp hstamp).isGroup] at hsingle
  rw [hquiet.indexed?]
  exact h n key id u (ownSingle?_eq_some.2 ⟨hentry, hsingle⟩) hu

/-- Any entry may be put that leaves no coordinate without a registration. -/
theorem putEntry (h : s.Covered) {e : Entry}
    (he : ∀ id u, e = .dependency id → (s.dependency id).isGroup = false →
      (s.dependency id).unversioned = some u → ∃ j, s.indexed? n u = some j) :
    (s.putEntry n key e).Covered := by
  intro m k id u hown hu
  obtain ⟨hentry, hsingle⟩ := ownSingle?_eq_some.1 hown
  rw [dependency_putEntry] at hsingle hu
  rw [entryAt?_putEntry] at hentry
  rw [indexed?_putEntry]
  split at hentry
  · next heq => exact heq.1 ▸ he id u (Option.some.inj hentry) hsingle hu
  · exact h m k id u (ownSingle?_eq_some.2 ⟨hentry, hsingle⟩) hu

/-- Placing a dependency registers it, unless it is held elsewhere and is given a coordinate. -/
theorem of_placed (h : s.Covered) (hs : s.Sound) (hplaced : s.Placed K n key id t)
    (hmisses : ¬s.Misses t) : t.Covered := by
  have hcontinues {i : DependencyId} (hi : i < s.nextDependency) :=
    hplaced.toTouches.continues hi
  -- what was held before is still covered
  have hstays {m : Namespace} {k u : String} {i : DependencyId}
      (hentry : s.entryAt? m k = some (.dependency i)) (hsingle : (t.dependency i).isGroup = false)
      (hu : (t.dependency i).unversioned = some u) : ∃ j, t.indexed? m u = some j := by
    have hi := hs.ordered.entries m k i (ownDependency?_eq_some.2 hentry)
    have hown : s.ownSingle? m k = some i :=
      ownSingle?_eq_some.2 ⟨hentry, (hcontinues hi).isGroup.symm.trans hsingle⟩
    cases hbefore : (s.dependency i).unversioned with
    | none =>
      have hnone : (s.dependency i).coordinate = none := Option.map_eq_none_iff.1 hbefore
      obtain ⟨c, hc, rfl⟩ := Option.map_eq_some_iff.1 hu
      refine Option.ne_none_iff_exists'.1 fun hfree => hmisses ?_
      exact ⟨m, k, i, c, hown, hnone, hc, hfree⟩
    | some u' =>
      obtain rfl : u' = u :=
        Option.some.inj (((hcontinues hi).unversioned hbefore).symm.trans hu)
      rcases hplaced.indexed?_cases m u' with hsame | ⟨-, j, hj, -⟩
      · rw [hsame]
        exact h m k i u' hown hbefore
      · exact ⟨j, hj⟩
  intro m k i u hown hu
  obtain ⟨hentry, hsingle⟩ := ownSingle?_eq_some.1 hown
  rcases hplaced.entryAt?_cases m k with hsame | ⟨rfl, rfl | ⟨-, member, -, -, -, hmember, hfinds⟩⟩
  · exact hstays (hsame.symm.trans hentry) hsingle hu
  · cases hplaced.entry.symm.trans hentry
    obtain ⟨j, hj, -⟩ := hplaced.found u hu
    exact ⟨j, hj⟩
  · cases hmember.symm.trans hentry
    obtain ⟨j, hj, -⟩ := hfinds u hu
    exact ⟨j, hj⟩

theorem put (h : s.Covered) (hs : s.Sound) (hput : s.Put K t) (hmisses : ¬s.Misses t) :
    t.Covered := by
  cases hput with
  | quiet hquiet => exact h.of_quiet hs hquiet
  | placed hplaced => exact h.of_placed hs hplaced hmisses
  | linked hquiet => exact (h.of_quiet hs hquiet).putEntry fun _ _ he => nomatch he

/-- Deleting takes no registration away that another key relies on, unless that key has another
dependency with the same coordinate as the one that is deleted. -/
theorem without (h : s.Covered) (n : Namespace) (key : String)
    (hfree : ∀ id u k j, s.ownDependency? n key = some id → s.indexed? n u = some id →
      s.ownSingle? n k = some j → j ≠ id → (s.dependency j).unversioned ≠ some u) :
    (s.putContents n ((s.contentsOf n).without key)).Covered := by
  intro m k j u hown hu
  -- what is held afterwards was held before, and something was registered for it
  obtain ⟨hentry, hsingle⟩ := ownSingle?_eq_some.1 hown
  have hbefore := (Removed.without s n key).entries m k _ hentry
  have hheld : s.ownSingle? m k = some j := ownSingle?_eq_some.2 ⟨hbefore, hsingle⟩
  obtain ⟨i, hi⟩ := h m k j u hheld hu
  refine ⟨i, ?_⟩
  by_cases hm : n = m
  · subst hm
    cases hkey : s.ownDependency? n key with
    | none => rw [indexed?_without_of_none hkey, hi]
    | some id =>
      rw [entryAt?_without hkey] at hentry
      have hne : j ≠ id := by
        rintro rfl
        simp [Option.filter_eq_some_iff] at hentry
      rw [indexed?_without hkey, hi]
      -- the registration is not that of the deleted dependency
      refine Option.filter_eq_some_iff.2 ⟨rfl, decide_eq_true ?_⟩
      rintro rfl
      exact hfree i u k j hkey hi hheld hne hu
  · unfold indexed?
    rwa [contentsOf_putContents, if_neg hm]

theorem clear (h : s.Covered) (n : Namespace) : (s.putContents n {}).Covered := by
  intro m k j u hown hu
  obtain ⟨hentry, hsingle⟩ := ownSingle?_eq_some.1 hown
  have hbefore := (Removed.clear s n).entries m k _ hentry
  unfold entryAt? at hentry
  rw [contentsOf_putContents] at hentry
  split at hentry
  · rw [Std.TreeMap.getElem?_emptyc] at hentry
    exact nomatch hentry
  · next hm =>
    unfold indexed?
    rw [contentsOf_putContents, if_neg hm]
    exact h m k j u (ownSingle?_eq_some.2 ⟨hbefore, hsingle⟩) hu

end Covered

/-! ## §4. Coordinates that are not registered any more. -/

/-- A dependency that a single write gives a coordinate stays under the keys that hold it. -/
theorem Wrote.ownSingle?_of_located (h : s.Wrote K t) (hs : s.Sound)
    (hown : s.ownSingle? m key = some id) (hnone : (s.dependency id).coordinate = none)
    {c : Coordinate} (hc : (t.dependency id).coordinate = some c) :
    t.ownSingle? m key = some id := by
  obtain ⟨hentry, hsingle⟩ := ownSingle?_eq_some.1 hown
  have hid := hs.ordered.entries m key id (ownDependency?_eq_some.2 hentry)
  have hquiet {r : Store} (hquiet : s.Quiet r) : (r.dependency id).coordinate = none :=
    (Dependency.coordinate_of_stamp (hquiet.stamp id hid)).trans hnone
  -- only the dependency that is placed can be given a coordinate
  have hplaced {r : Store} {n : Namespace} {k : String} {i : DependencyId}
      (hplaced : s.Placed K n k i r) (hc : (r.dependency id).coordinate = some c) :
      i = id ∧ r.entryAt? m key = some (.dependency id) := by
    have hi : i = id := by
      by_contra hne
      have hstamp := hplaced.stamp id hid (Ne.symm hne)
      exact nomatch hc.symm.trans ((Dependency.coordinate_of_stamp hstamp).trans hnone)
    refine ⟨hi, ?_⟩
    rcases hplaced.entryAt?_cases m key with hsame | ⟨rfl, rfl | ⟨hfree, -⟩⟩
    · exact hsame.trans hentry
    · exact hi ▸ hplaced.entry
    · exact nomatch hfree.symm.trans hentry
  have hstays : t.entryAt? m key = some (.dependency id) := by
    cases h with
    | put hput =>
      cases hput with
      | quiet h => exact nomatch hc.symm.trans (hquiet h)
      | placed h => exact (hplaced h hc).2
      | linked h =>
        have hsame := hquiet h
        exact nomatch hc.symm.trans hsame
    | aliased hsourced =>
      obtain ⟨h | ⟨n, k, h⟩, -⟩ := hsourced
      · have hsame := hquiet h
        exact nomatch hc.symm.trans hsame
      · obtain ⟨hi, hheld⟩ := hplaced h hc
        rw [entryAt?_putEntry]
        split
        · rw [hi]
        · exact hheld
  refine ownSingle?_eq_some.2 ⟨hstays, ?_⟩
  unfold Dependency.isGroup at hsingle ⊢
  rwa [h.lasts.members id hid]

end Store

namespace Step

/-- The writes after which a namespace has nothing registered for the coordinate of a dependency that
a key holds. -/
inductive Uncovers : Step → Prop where
  /-- What is deleted is registered, and another key has a dependency with the same coordinate. -/
  | deleted {n : Namespace} {key u k : String} {id j : DependencyId} {σ : Session} :
      σ.store.ownDependency? n (trim key) = some id → σ.store.indexed? n u = some id →
      σ.store.ownSingle? n k = some j → j ≠ id → (σ.store.dependency j).unversioned = some u →
      Uncovers ⟨.delete n key, σ⟩
  /-- An alias lands in a namespace that has nothing registered for its coordinate. -/
  | aliased {n : Namespace} {key existing u : String} {id : DependencyId} {σ τ : Session} :
      (n.aliasSource existing).run σ = (.ok id, τ) →
      (∀ sub, τ.store.entryAt? (τ.store.landing n key).1 (τ.store.landing n key).2
        ≠ some (.sub sub)) →
      (τ.store.dependency id).isGroup = false → (τ.store.dependency id).unversioned = some u →
      τ.store.indexed? (τ.store.landing n key).1 u = none →
      Uncovers ⟨.addAlias n key existing, σ⟩
  /-- A dependency that another namespace holds is given a coordinate. -/
  | located {step : Step} : step.session.store.Misses step.after.store → Uncovers step

variable {step : Step}

/-- A single write uncovers a coordinate in one of these ways only. -/
theorem covered_of_not_uncovers (hsingle : step.operation.isBatch = false)
    (h : ¬step.Uncovers) : step.Keeps Store.Covered := by
  intro hs hcovered
  obtain ⟨operation, σ⟩ := step
  have hmisses : ¬σ.store.Misses (σ.after operation).store := fun hmisses => h (.located hmisses)
  show (σ.after operation).store.Covered
  cases hremoves : operation.removes with
  | true =>
    cases operation with
    | delete n key =>
      refine hcovered.without n (trim key) fun id u k j hown hindexed hheld hne hu => ?_
      exact h (.deleted hown hindexed hheld hne hu)
    | clear n => exact hcovered.clear n
    | _ => exact nomatch hremoves
  | false =>
    cases halias : operation.aliases with
    | false =>
      have hput := (Session.keepsAt_put (K := fun _ => True) (fun _ _ _ => trivial) hs (.of_true _)
        (fun _ _ => trivial) hsingle hremoves halias).1
      exact hcovered.put hs hput hmisses
    | true =>
      cases operation with
      | addAlias n key existing =>
        have hafter : (σ.after (.addAlias n key existing)).store
            = ((n.addAlias key existing).run σ).2.store := by
          unfold Session.after perform
          rw [run_return]
        obtain ⟨hok, herror⟩ := Namespace.ends_aliasSource (K := fun _ => True) (n := n) hs existing
          fun _ => trivial
        rw [hafter] at hmisses ⊢
        rcases hrun : (n.aliasSource existing).run σ with ⟨result, τ⟩
        cases result with
        | error e =>
          unfold Namespace.addAlias
          rw [run_bind_error hrun]
          exact hcovered.of_quiet hs (herror e τ hrun)
        | ok id =>
          have hput : σ.store.Put (fun _ => True) τ.store := (hok id τ hrun).put
          rw [Namespace.run_addAlias hrun] at hmisses ⊢
          split at hmisses
          · next hfree =>
            rw [if_pos hfree]
            -- the alias itself changes no record and registers nothing
            refine (hcovered.put hs hput fun hmissed => hmisses ?_).putEntry ?_
            · obtain ⟨m, k, i, c, hown, hnone, hc, hindexed⟩ := hmissed
              exact ⟨m, k, i, c, hown, hnone, hc, by rw [Store.indexed?_putEntry]; exact hindexed⟩
            · rintro i u ⟨⟩ hgroup hu
              refine Option.ne_none_iff_exists'.1 fun hindexed => h ?_
              refine .aliased hrun (fun sub hsub => ?_) hgroup hu hindexed
              rw [hsub] at hfree
              exact nomatch hfree
          · next hheld =>
            rw [if_neg hheld]
            exact hcovered.put hs hput hmisses
      | _ => exact nomatch halias

/-- And in each of these ways one is uncovered. -/
theorem Uncovers.uncovered (h : step.Uncovers) (hs : step.session.store.Sound)
    (hsingle : step.operation.isBatch = false) :
    ∃ n key id u, step.after.store.ownSingle? n key = some id ∧
      (step.after.store.dependency id).unversioned = some u ∧
      step.after.store.indexed? n u = none := by
  cases h with
  | @deleted n key u k id j σ hown hindexed hheld hne hu =>
    -- the other key keeps its dependency, and the registration is gone
    obtain ⟨hentry, hgroup⟩ := Store.ownSingle?_eq_some.1 hheld
    have hafter : (Step.after ⟨.delete n key, σ⟩).store
        = σ.store.putContents n ((σ.store.contentsOf n).without (trim key)) := rfl
    rw [hafter]
    refine ⟨n, k, j, u, Store.ownSingle?_eq_some.2 ⟨?_, hgroup⟩, hu, ?_⟩
    · rw [Store.entryAt?_without hown, hentry]
      simpa [Option.filter] using hne
    · rw [Store.indexed?_without hown, hindexed]
      simp [Option.filter]
  | @aliased n key existing u id σ τ hrun hfree hgroup hu hindexed =>
    -- the alias is put without being registered
    have hnone : ((τ.store.entryAt? (τ.store.landing n key).1 (τ.store.landing n key).2).bind
        Entry.sub?).isNone := by
      cases hentry : τ.store.entryAt? (τ.store.landing n key).1 (τ.store.landing n key).2 with
      | none => rfl
      | some e =>
        cases e with
        | dependency i => rfl
        | sub sub => exact absurd hentry (hfree sub)
    have hafter : (Step.after ⟨.addAlias n key existing, σ⟩).store = τ.store.putEntry
        (τ.store.landing n key).1 (τ.store.landing n key).2 (.dependency id) := by
      unfold Step.after Session.after perform
      rw [run_return, Namespace.run_addAlias hrun, if_pos hnone]
    rw [hafter]
    refine ⟨(τ.store.landing n key).1, (τ.store.landing n key).2, id, u,
      Store.ownSingle?_eq_some.2 ⟨?_, hgroup⟩, hu, ?_⟩
    · rw [Store.entryAt?_putEntry, if_pos ⟨rfl, rfl⟩]
    · rw [Store.indexed?_putEntry, hindexed]
  | located hmisses =>
    -- a write that gives a coordinate to what is held elsewhere registers it only where it writes
    have hwrote : step.session.store.Wrote (fun _ => True) step.after.store :=
      Session.wrote_after (fun _ _ _ => trivial) hs (.of_true _) (fun _ _ => trivial) hsingle
        (Bool.eq_false_iff.2 fun hremoves => (Session.removed_after hremoves).not_misses hmisses)
    obtain ⟨m, key, id, c, hown, hnone, hc, hindexed⟩ := hmisses
    refine ⟨m, key, id, c.render, hwrote.ownSingle?_of_located hs hown hnone hc, ?_, hindexed⟩
    unfold Dependency.unversioned
    rw [hc]
    rfl

end Step

/-! ## §5. Runs. -/

/-- The coordinate of the record is one that a spec writes. -/
def Dependency.Located (d : Dependency) : Prop := ∀ c ∈ d.coordinate, c.WellFormed

theorem Dependency.lasting_located :
    Lasting (fun _ => True) Coordinate.WellFormed Located where
  declared _ _ _ hC _ := hC
  group _ _ _ h := nomatch h
  copied _ _ _ h := h
  located _ hC _ _ hc := Option.some.inj hc ▸ hC
  listening _ h := h
  undefaulted h := h
  selected h hselect _ hc := h _ ((coordinate_of_stamp (stamp_of_select hselect)).symm.trans hc)
  declares _ h hdeclare _ hc :=
    h _ ((coordinate_of_stamp (stamp_of_declare hdeclare)).symm.trans hc)
  chosen h hchoose _ hc := h _ ((coordinate_of_stamp (stamp_of_choose hchoose)).symm.trans hc)
  redeclared _ := trivial
  relocated h := h
  read hspec := (Spec.wellFormed_of_parse hspec).coordinate

/-- No single write of the operation uncovers a coordinate, and a batch of assignments that fails has
written to nothing but what its namespace contained.  A dependency that is brought along has a
coordinate that a spec writes. -/
structure Operation.Covering (σ : Session) (operation : Operation) : Prop where
  parts : ∀ step ∈ operation.parts σ, ¬step.Uncovers
  contained : ∀ batch ∈ operation.batch? σ, batch.Fails → batch.Contained
  located : ∀ d, operation = .newDependency d → d.Located

/-- Assignments to what the namespace of a batch contained are all undone. -/
theorem Batch.asBefore_undone {batch : Batch} (h : batch.Contained) :
    batch.session.store.AsBefore batch.undone := by
  have hframed := Namespace.framed_setAll (σ := held batch.session) rfl h
  exact Store.asBefore_restoreBelow_iff.2
    (hframed.asBeforeOutside fun _ => Store.mem_heldIn_of_writable)

/-- No namespace holds or finds anything else then. -/
theorem Batch.quiet_undone {batch : Batch} (h : batch.Contained)
    (hlasts : batch.session.store.Lasts batch.ending) : batch.session.store.Quiet batch.undone := by
  refine (asBefore_undone h).quiet ?_
  unfold undone Store.restoreBelow
  rw [Store.nextDependency_restore]
  exact hlasts.next

theorem Step.keeps_registered {step : Step} (hsingle : step.operation.isBatch = false) :
    step.Keeps Store.Registered := by
  intro hs h
  cases hremoves : step.operation.removes with
  | true => exact h.of_removed (Session.removed_after hremoves)
  | false =>
    have hwrote : step.session.store.Wrote (fun _ => True) step.after.store :=
      Session.wrote_after (fun _ _ _ => trivial) hs (.of_true _) (fun _ _ => trivial) hsingle
        hremoves
    exact h.of_wrote hs hwrote

/-- A coordinate that a spec writes is looked up by what is registered for it. -/
theorem Store.localEntry_lookupKey {s : Store} {n : Namespace} {c : Coordinate}
    (hc : c.WellFormed) : s.localEntry n c.lookupKey = (s.indexed? n c.render).map .dependency := by
  have hparse := hc.parse_lookupKey
  unfold localEntry
  rw [if_pos (Spec.looksLikeSpec_of_parse hparse), hc.trim_lookupKey, hparse]

namespace Session

variable {σ : Session} {followsProjects : Bool}

theorem Records.located_after (h : σ.Records Dependency.Located) {operation : Operation}
    (hnew : ∀ d, operation = .newDependency d → d.Located) :
    (σ.after operation).Records Dependency.Located :=
  h.after Dependency.lasting_located (fun _ _ hrecord => hrecord) hnew

/-- What is registered has its coordinate, in a run where a batch of assignments that fails has
written to nothing but what its namespace contained. -/
theorem ReachedThrough.registered {allowed : Session → Operation → Prop}
    (h : ReachedThrough followsProjects allowed σ)
    (hcontained : ∀ τ operation, allowed τ operation →
      ∀ batch ∈ operation.batch? τ, batch.Fails → batch.Contained) : σ.store.Registered := by
  refine h.keeps (fun s t hs hquiet h => h.of_quiet hs hquiet) ?_ ?_ ?_
  · intro σ operation _ hpresent step hstep
    exact Step.keeps_registered (Step.single_of_mem_parts hpresent hstep).1
  · intro σ operation hallowed batch hbatch hfails hs hlasts h _
    exact h.of_quiet hs
      (Batch.quiet_undone (hcontained σ operation hallowed batch hbatch hfails) hlasts)
  · intro n u id hindexed
    rw [indexed?_start] at hindexed
    exact nomatch hindexed

theorem covered_of_reachedThrough
    (h : ReachedThrough followsProjects (fun σ operation => operation.Covering σ) σ) :
    σ.store.Covered := by
  refine h.keeps (fun s t hs hquiet hcovered => hcovered.of_quiet hs hquiet) ?_ ?_ ?_
  · intro σ operation hallowed hpresent step hstep
    exact Step.covered_of_not_uncovers (Step.single_of_mem_parts hpresent hstep).1
      (hallowed.parts step hstep)
  · intro σ operation hallowed batch hbatch hfails hs hlasts hcovered _
    exact hcovered.of_quiet hs (Batch.quiet_undone (hallowed.contained batch hbatch hfails) hlasts)
  · intro n key id u hown
    exact nomatch (Store.ownSingle?_eq_some.1 hown).1.symm.trans (entryAt?_start followsProjects n key)

/-- All coordinates are such as a spec writes, in a run that brings along no others. -/
theorem ReachedThrough.located {allowed : Session → Operation → Prop}
    (h : ReachedThrough followsProjects allowed σ)
    (hnew : ∀ τ operation, allowed τ operation → ∀ d, operation = .newDependency d → d.Located) :
    σ.Records Dependency.Located :=
  h.records Dependency.lasting_located (fun _ _ hrecord => hrecord) hnew

theorem located_of_reachedThrough
    (h : ReachedThrough followsProjects (fun σ operation => operation.Covering σ) σ) :
    σ.Records Dependency.Located :=
  h.located fun _ _ hcovering => hcovering.located

/-- What a key holds is found by its coordinate: a look-up gives a dependency with the same
coordinate, by the namespace itself. -/
def Findable (σ : Session) : Prop :=
  ∀ n key id c, σ.store.ownSingle? n key = some id → (σ.store.dependency id).coordinate = some c →
    ∃ j, σ.store.localEntry n c.lookupKey = some (.dependency j) ∧
      (n.lookup c.lookupKey).answer σ.store = some (.dependency j) ∧
      (σ.store.dependency j).coordinate = some c

theorem findable_of_covered (hcovered : σ.store.Covered) (hregistered : σ.store.Registered)
    (hlocated : σ.Records Dependency.Located) : σ.Findable := by
  intro n key id c hown hc
  have hu : (σ.store.dependency id).unversioned = some c.render := by
    unfold Dependency.unversioned
    rw [hc]
    rfl
  obtain ⟨j, hj⟩ := hcovered n key id c.render hown hu
  have hfound : σ.store.localEntry n c.lookupKey = some (.dependency j) := by
    rw [Store.localEntry_lookupKey (hlocated id c hc), hj]
    rfl
  refine ⟨j, hfound, ?_, ?_⟩
  · rw [Namespace.answer_lookup, hfound]
    rfl
  · obtain ⟨c', hc', hrender⟩ := Option.map_eq_some_iff.1 (hregistered n c.render j hj)
    rw [hc', (hlocated j c' hc').render_injective (hlocated id c hc) hrender]

/-- All that keys hold is found by its coordinate, and a single write loses that exactly if it
uncovers a coordinate. -/
theorem findable_after_iff
    (h : ReachedThrough followsProjects (fun σ operation => operation.Covering σ) σ) :
    σ.Findable ∧ ∀ operation : Operation, operation.isBatch = false →
      (∀ d, operation = .newDependency d → d.Located) →
        ((σ.after operation).Findable ↔ ¬Step.Uncovers ⟨operation, σ⟩) := by
  have hcovered := covered_of_reachedThrough h
  have hregistered := h.registered fun _ _ hcovering => hcovering.contained
  have hlocated := located_of_reachedThrough h
  have hs := h.reached.sound
  refine ⟨findable_of_covered hcovered hregistered hlocated,
    fun operation hsingle hnew => ⟨?_, fun hnot => ?_⟩⟩
  · intro hfindable huncovers
    obtain ⟨n, key, id, u, hown, hu, hindexed⟩ := huncovers.uncovered hs hsingle
    obtain ⟨c, hc, rfl⟩ := Option.map_eq_some_iff.1 hu
    obtain ⟨j, hj, -⟩ := hfindable n key id c hown hc
    have hwell : c.WellFormed := hlocated.located_after hnew id c hc
    have hnone : (σ.after operation).store.indexed? n c.render = none := hindexed
    rw [Store.localEntry_lookupKey hwell, hnone] at hj
    exact nomatch hj
  · have hkeeps : Step.Keeps Store.Covered ⟨operation, σ⟩ :=
      Step.covered_of_not_uncovers hsingle hnot
    have hkeeps' : Step.Keeps Store.Registered ⟨operation, σ⟩ := Step.keeps_registered hsingle
    exact findable_of_covered (hkeeps hs hcovered) (hkeeps' hs hregistered)
      (hlocated.located_after hnew)

/-- The members of a group are found by their coordinates after the group has been deleted. -/
theorem findable_ungrouped :
    let n : Namespace := .registered "n" 0
    let σ := (start true).afterAll
      [.set n "g" (.group ["g:i:t:c:1", "g:j:t:1"]), .delete n "g"]
    ReachedThrough true (fun σ operation => operation.Covering σ) σ ∧
      σ.store.keys n = ["i", "j"] ∧ σ.store.ownSingle? n "i" = some 0 ∧
      ∃ j, σ.store.localEntry n "g:i:t:c:" = some (.dependency j) ∧
        (n.lookup "g:i:t:c:").answer σ.store = some (.dependency j) ∧
        (σ.store.dependency j).coordinate = some ⟨"g", "i", "t", some "c"⟩ := by
  intro n σ
  have hgroup : (Operation.set n "g" (.group ["g:i:t:c:1", "g:j:t:1"])).Covering (start true) := by
    refine ⟨?_, (fun _ hbatch => nomatch hbatch), nofun⟩
    rw [Operation.parts_of_single rfl, List.forall_mem_singleton]
    intro huncovers
    cases huncovers with
    | located hmisses =>
      obtain ⟨m, key, id, c, hown, -⟩ := hmisses
      exact nomatch (Store.ownSingle?_eq_some.1 hown).1.symm.trans (entryAt?_start true m key)
  have hdelete : (Operation.delete n "g").Covering
      ((start true).after (.set n "g" (.group ["g:i:t:c:1", "g:j:t:1"]))) := by
    refine ⟨?_, (fun _ hbatch => nomatch hbatch), nofun⟩
    rw [Operation.parts_of_single rfl, List.forall_mem_singleton]
    intro huncovers
    cases huncovers with
    | @deleted _ _ u _ id _ _ hown hindexed =>
      -- the group is registered for no coordinate
      obtain rfl : 2 = id := by
        refine Option.some.inj (Eq.trans ?_ hown)
        decide +kernel
      have hvalues : 2 ∈ (((start true).after (.set n "g"
          (.group ["g:i:t:c:1", "g:j:t:1"]))).store.contentsOf n).index.values :=
        Store.mem_values_iff.2 ⟨u, hindexed⟩
      exact absurd hvalues (by decide +kernel)
    | located hmisses => exact (removed_after rfl).not_misses hmisses
  have hreached : ReachedThrough true (fun σ operation => operation.Covering σ) σ :=
    .after (.after .start trivial hgroup) trivial hdelete
  have hown : σ.store.ownSingle? n "i" = some 0 := by decide +kernel
  exact ⟨hreached, by decide +kernel, hown,
    (findable_after_iff hreached).1 n "i" 0 ⟨"g", "i", "t", some "c"⟩ hown (by decide +kernel)⟩

/-- Of two keys with the same coordinate, the one that is not registered is not found by it after the
other has been deleted. -/
theorem not_findable_deleted :
    let n : Namespace := .registered "n" 0
    let σ := (start true).afterAll
      [.set n "a" (.text "g:i:t:1"), .set n "b" (.text "g:i:t:2"), .delete n "b"]
    Reached true σ ∧ σ.store.ownSingle? n "a" = some 0 ∧
      (σ.store.dependency 0).coordinate = some ⟨"g", "i", "t", none⟩ ∧
      σ.store.localEntry n "g:i:t" = none ∧ (n.lookup "g:i:t").answer σ.store = none := by
  intro n σ
  exact ⟨.after (.after (.after .start trivial) trivial) trivial, by decide +kernel,
    by decide +kernel, by decide +kernel, by decide +kernel⟩

end Session

end DependencyScope
