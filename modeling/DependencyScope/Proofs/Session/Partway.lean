/-
  DependencyScope.Proofs.Session.Partway — operations that fail after they have written.

  An alias of an entry that only an ancestor has is made in two steps: the entry is copied, and then
  the new key is put for the copy.  A sub-namespace that is opened with values is made first and
  filled then.  There is no checkpoint before the first step, so it stays when the second one fails.

  Main results:
    * `Namespace.ends_aliasSource_copied` — an alias of an inherited entry first stores a copy;
    * `Namespace.asBefore_addAlias` — so an alias that fails leaves that copy behind, or nothing;
    * `Namespace.openSubUsing_error` — a sub-namespace that has been made stays;
    * `Session.asBefore_partway_iff` — when nothing is left behind.
-/
import DependencyScope.Proofs.Session.Refusal

namespace DependencyScope

open DependencyScope.Text DependencyScope.Action

namespace Namespace

variable {n : Namespace} {σ τ : Session} {key existing : String} {e : Error}

/-! ## §1. Aliases. -/

/-- The source of an alias is looked up, or it is copied in one write. -/
theorem refuses_aliasSource (n : Namespace) (existing : String) :
    Refuses (n.aliasSource existing) := by
  unfold aliasSource
  refine .after (.view _) fun found => ?_
  rcases found with _ | ⟨id⟩ | ⟨sub⟩
  · refine .after (.read _) fun inherited => ?_
    cases inherited with
    | some _ => exact n.refuses_useInherited existing
    | none => exact .throw _
  · exact .of_total (.pure id)
  · exact .throw _

/-- The entry of an ancestor becomes a new dependency that is held from then on. -/
theorem ends_aliasSource_copied (hσ : σ.store.Sound)
    (hnone : σ.store.localEntry n existing = none) :
    Ends (n.aliasSource existing) (fun id τ => σ.store.nextDependency ≤ id ∧
      τ.store.entryAt? n (trim existing) = some (.dependency id)) (fun _ => True) σ := by
  unfold aliasSource
  refine .bind_ok (run_view _ σ) ?_
  rw [hnone]
  refine .bind_ok (run_read _ σ) ?_
  cases (n.lookup existing).answer σ.store with
  | none => exact .of_error (run_throw _ _) trivial
  | some _ =>
    unfold useInherited
    refine .bind_ok (run_read _ _) ?_
    rcases (n.inheritedEntry (trim existing)).answer σ.store with _ | ⟨source⟩ | ⟨sub⟩
    · exact .of_error (run_throw _ _) trivial
    · refine ends_ensureNoSub trivial fun _ => .of_ok rfl ⟨?_, ?_⟩
      · exact (Store.copy_spec hσ source (trim existing)).fresh
      · exact Store.entryAt?_insert_self _ n _ _
    · exact .of_error (run_throw _ _) trivial

/-- An alias that fails leaves everything as it was, unless it has copied an inherited entry. -/
theorem asBefore_addAlias (hσ : σ.store.Sound)
    (h : (n.addAlias key existing).run σ = (.error e, τ)) :
    σ.store.AsBefore τ.store ↔ (σ.store.localEntry n existing).isSome ∨
      ((n.aliasSource existing).run σ).1.toOption = none := by
  rcases hsource : (n.aliasSource existing).run σ with ⟨result, mid⟩
  cases result with
  | error e' =>
    have hmid : τ = mid := by
      unfold addAlias at h
      rw [run_bind_error hsource] at h
      cases h
      rfl
    have hend := (refuses_aliasSource n existing σ e' mid hsource).store
    rw [hmid]
    exact iff_of_true ⟨hend.contentsOf, hend.kept⟩ (.inr rfl)
  | ok id =>
    -- what fails then is the look-up of the new key, and that writes nothing
    have hmid : τ = mid := by
      rw [run_addAlias hsource] at h
      split at h
      · exact nomatch h
      · cases h
        rfl
    rw [hmid]
    cases hfound : σ.store.localEntry n existing with
    | some found =>
      have hsame : mid = σ := by
        unfold aliasSource at hsource
        rw [run_bind_ok (run_view _ σ), hfound] at hsource
        cases found with
        | dependency id' =>
          cases hsource
          rfl
        | sub sub => exact nomatch hsource
      rw [hsame]
      exact iff_of_true ⟨fun _ => rfl, fun _ _ => rfl⟩ (.inl rfl)
    | none =>
      refine iff_of_false (fun hbefore => ?_) fun hor => hor.elim nofun nofun
      obtain ⟨hfresh, hentry⟩ := (ends_aliasSource_copied hσ hfound).1 id mid hsource
      have hheld : σ.store.entryAt? n (trim existing) = some (.dependency id) := by
        unfold Store.entryAt? at hentry ⊢
        rwa [hbefore.1 n] at hentry
      exact Nat.not_lt_of_le hfresh (hσ.ordered.lt_of_entry hheld)

/-! ## §2. Sub-namespaces. -/

variable {sub : Namespace} {pairs : List (String × Value)}

/-- Values that are used in a sub-namespace take no key away, even if they are undone. -/
theorem held_of_useAll {m : Namespace} (hheld : (σ.store.entryAt? m key).isSome)
    (h : (sub.useAll pairs).run σ = (.error e, τ)) : (τ.store.entryAt? m key).isSome := by
  have hkeeps := keepsAt_setAll_of (σ := held σ) (n := sub) pairs hheld fun a _ hsession =>
    a.keepsAt_set (tolerates_held m key _) hsession fun _ _ _ _ hυ =>
      Store.isSome_entryAt?_putEntry hυ _ _ _
  rw [store_atomically_error h]
  unfold Store.entryAt?
  rw [Store.contentsOf_restoreBelow]
  split
  · exact hheld
  · exact hkeeps.2.1

/-- A batch that fails leaves everything as it was if its assignments have changed nothing outside
of what its namespace contained, and only then.  They have not if they store only such
namespaces. -/
theorem asBefore_batch (h : (sub.useAll pairs).run σ = (.error e, τ)) :
    (σ.store.AsBefore τ.store ↔ σ.store.AsBeforeOutside
      ((pairs.mapM fun (key, value) => sub.set key value).run (held σ)).2.store sub) ∧
    ((∀ a ∈ sub.assignments pairs (held σ), ∀ m ∈ a.stored?, σ.store.Contains sub m) →
      σ.store.AsBefore τ.store) := by
  rw [store_atomically_error h, Store.asBefore_restoreBelow_iff]
  refine ⟨.rfl, fun hstored => ?_⟩
  have hframed := framed_setAll (σ := held σ) rfl (place_contained hstored)
  exact hframed.asBeforeOutside fun _ => Store.mem_heldIn_of_writable

/-- A sub-namespace that is opened with values, and fails: one that was there already is left as by
the batch alone, and one that was not is there now. -/
theorem openSubUsing_error (h : (n.openSubUsing key pairs).run σ = (.error e, τ)) :
    (∃ id, σ.store.entryAt? n (trim key) = some (.dependency id) ∧ τ = σ) ∨
    (∃ sub, σ.store.entryAt? n (trim key) = some (.sub sub) ∧
      (sub.useAll pairs).run σ = (.error e, τ)) ∨
    (σ.store.entryAt? n (trim key) = none ∧ (τ.store.entryAt? n (trim key)).isSome) := by
  have hfill {sub : Namespace} {mid : Session} (h : (do
      let _ ← sub.useAll pairs
      return sub : Action Namespace).run mid = (.error e, τ)) :
      (sub.useAll pairs).run mid = (.error e, τ) := error_of_return h
  unfold openSubUsing openSub at h
  cases hentry : σ.store.entryAt? n (trim key) with
  | some found =>
    cases found with
    | dependency id =>
      rw [run_bind, run_bind_ok (run_view _ σ), hentry] at h
      cases h
      exact .inl ⟨id, rfl, rfl⟩
    | sub sub =>
      rw [run_bind, run_bind_ok (run_view _ σ), hentry] at h
      exact .inr (.inl ⟨sub, rfl, hfill h⟩)
  | none =>
    rw [run_bind, run_bind_ok (run_view _ σ), hentry] at h
    -- the key is held from here on
    refine .inr (.inr ⟨rfl, held_of_useAll ?_ (hfill h)⟩)
    have hmade : ((n.makeSub (trim key) σ.store).2.entryAt? n (trim key)).isSome := by
      unfold makeSub
      rw [Store.entryAt?_putEntry, if_pos ⟨rfl, rfl⟩]
      rfl
    exact hmade

end Namespace

/-! ## §3. What is left behind. -/

namespace Session

variable {followsProjects : Bool} {σ : Session}

/-- An alias that fails leaves everything as it was exactly if it has not stored a copy: the entry
was there, or was not to be had.  A sub-namespace that is opened with values, and fails, does so
exactly if its key held something before, and the values have changed nothing outside of what the
sub-namespace contained; they have not if they store only namespaces that it contained. -/
theorem asBefore_partway_iff (hreached : Reached followsProjects σ) :
    (∀ n key existing e τ, (perform (.addAlias n key existing)).run σ = (.error e, τ) →
      (σ.store.AsBefore τ.store ↔ (σ.store.localEntry n existing).isSome ∨
        ((n.aliasSource existing).run σ).1.toOption = none)) ∧
    ∀ n key pairs e τ, (perform (.openSubUsing n key pairs)).run σ = (.error e, τ) →
      (σ.store.AsBefore τ.store ↔
        (∃ id, σ.store.entryAt? n (trim key) = some (.dependency id)) ∨
        ∃ sub, σ.store.entryAt? n (trim key) = some (.sub sub) ∧ σ.store.AsBeforeOutside
          ((pairs.mapM fun (key, value) => sub.set key value).run (held σ)).2.store sub) ∧
      ∀ sub, σ.store.entryAt? n (trim key) = some (.sub sub) →
        (∀ a ∈ sub.assignments pairs (held σ), ∀ m ∈ a.stored?, σ.store.Contains sub m) →
        σ.store.AsBefore τ.store := by
  refine ⟨fun n key existing e τ h => ?_, fun n key pairs e τ h => ?_⟩
  · exact Namespace.asBefore_addAlias hreached.sound (error_of_return h)
  · rcases Namespace.openSubUsing_error (error_of_return h) with
      ⟨id, hid, rfl⟩ | ⟨sub, hsub, hbatch⟩ | ⟨hnone, hheld⟩
    · rw [hid]
      exact ⟨iff_of_true ⟨fun _ => rfl, fun _ _ => rfl⟩ (.inl ⟨id, rfl⟩), nofun⟩
    · obtain ⟨hiff, hstored⟩ := Namespace.asBefore_batch hbatch
      rw [hsub]
      refine ⟨hiff.trans ⟨fun h => .inr ⟨sub, rfl, h⟩, ?_⟩, fun sub' hsub' => ?_⟩
      · rintro (⟨id, hid⟩ | ⟨sub', hsub', houtside⟩)
        · exact nomatch hid
        · cases hsub'
          exact houtside
      · cases hsub'
        exact hstored
    · rw [hnone]
      refine ⟨iff_of_false (fun hbefore => ?_)
        (by rintro (⟨id, h⟩ | ⟨sub, h, -⟩) <;> exact nomatch h), nofun⟩
      -- nothing was held before, and something is now
      unfold Store.entryAt? at hnone hheld
      rw [hbefore.1 n, hnone] at hheld
      exact nomatch hheld

/-- Holds a dependency and a sub-namespace in `a`. -/
def stocked : Session :=
  ((start true).after (.openSub (.registered "a" 0) "s")).after
    (.set (.registered "a" 0) "k" (.text "g:i:t:1"))

/-- The key of a sub-namespace is no place for an alias.  The source was there, and a sub-namespace
that was there takes no text that is no version. -/
theorem asBefore_stocked :
    (∃ e τ, (perform (.addAlias (.registered "a" 0) "s" "k")).run stocked = (.error e, τ) ∧
      stocked.store.AsBefore τ.store) ∧
    ∃ e τ, (perform (.openSubUsing (.registered "a" 0) "s" [("x", .text "?")])).run stocked
      = (.error e, τ) ∧ stocked.store.AsBefore τ.store := by
  have hreached : Reached true stocked :=
    .after (.after .start (Nat.le_refl 0)) trivial
  have halias : ((perform (.addAlias (.registered "a" 0) "s" "k")).run
      stocked).1.toOption.isNone := by decide +kernel
  have hfill : ((perform (.openSubUsing (.registered "a" 0) "s" [("x", .text "?")])).run
      stocked).1.toOption.isNone := by decide +kernel
  have hsource : (stocked.store.localEntry (.registered "a" 0) "k").isSome := by decide +kernel
  have hsub : stocked.store.entryAt? (.registered "a" 0) (trim "s")
      = some (.sub (.single 0 "a:s" true)) := by decide +kernel
  have hstored : ((.single 0 "a:s" true : Namespace).assignments [("x", .text "?")]
      (held stocked)).all (·.stored?.isNone) := by decide +kernel
  obtain ⟨e, τ, hrun⟩ := exists_of_isNone halias
  obtain ⟨e', τ', hrun'⟩ := exists_of_isNone hfill
  refine ⟨⟨e, τ, hrun, ((asBefore_partway_iff hreached).1 _ _ _ e τ hrun).2 (.inl hsource)⟩,
    e', τ', hrun', ((asBefore_partway_iff hreached).2 _ _ _ e' τ' hrun').2 _ hsub ?_⟩
  intro a ha m hm
  have hnone := List.all_eq_true.1 hstored a ha
  rw [Option.mem_def.1 hm] at hnone
  exact nomatch hnone

/-- Holds a dependency in the root, and a sub-namespace in `a`. -/
def inheriting : Session :=
  ((start true).after (.set (.registered "root" 0) "k" (.text "g:i:t:1"))).after
    (.openSub (.registered "a" 0) "s")

/-- The copy for an alias stays when there is no place for the alias, and a sub-namespace that has
been made stays when it cannot be filled. -/
theorem not_asBefore_inheriting :
    (∃ e τ, (perform (.addAlias (.registered "a" 0) "s" "k")).run inheriting = (.error e, τ) ∧
      ¬inheriting.store.AsBefore τ.store) ∧
    ∃ e τ, (perform (.openSubUsing (.registered "a" 0) "t" [("x", .text "?")])).run inheriting
      = (.error e, τ) ∧ ¬inheriting.store.AsBefore τ.store := by
  have hchanged (operation : Operation)
      (hfails : ((perform operation).run inheriting).1.toOption.isNone)
      (hkeys : ((perform operation).run inheriting).2.store.keys (.registered "a" 0)
        ≠ inheriting.store.keys (.registered "a" 0)) :
      ∃ e τ, (perform operation).run inheriting = (.error e, τ) ∧
        ¬inheriting.store.AsBefore τ.store := by
    obtain ⟨e, τ, hrun⟩ := exists_of_isNone hfails
    rw [hrun] at hkeys
    exact ⟨e, τ, hrun, fun hbefore => hkeys (congrArg (·.entries.keys) (hbefore.1 _))⟩
  exact ⟨hchanged _ (by decide +kernel) (by decide +kernel),
    hchanged _ (by decide +kernel) (by decide +kernel)⟩

end Session

end DependencyScope
