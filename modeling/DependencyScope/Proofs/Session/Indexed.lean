/-
  DependencyScope.Proofs.Session.Indexed — whether a namespace still holds what it finds by a
  coordinate.

  What a namespace registers for a coordinate it holds at that time, by the key that is written or as
  a member of the group there.  The registration stays when the key is given another entry, and when
  a group is deleted.  So what is found by a coordinate is held, unless a write has taken it away from
  its last key and has left it registered.

  Main definitions:
    * `Store.HeldHere` — the namespace holds the dependency, or a group with it;
    * `Store.Current` — it does so if it finds the dependency by a coordinate;
    * `Step.Strands` — the write takes a dependency away from its last key only.

  Main results:
    * `Step.held_of_indexed` — what a single write registers is held;
    * `Session.current_after_iff` — what is found by a coordinate is held, until a write strands it.
-/
import DependencyScope.Proofs.Namespace.Replace
import DependencyScope.Proofs.Session.Parts

namespace DependencyScope

open DependencyScope.Text DependencyScope.Action

namespace Store

variable {K : String → Prop} {s t : Store} {n : Namespace} {r id : DependencyId}

/-! ## §1. What a namespace holds. -/

/-- Some key of the namespace holds the dependency, or a group of which it is a member. -/
def HeldHere (s : Store) (n : Namespace) (r : DependencyId) : Prop := ∃ key, r ∈ s.heldUnder n key

theorem mem_heldUnder {key : String} :
    r ∈ s.heldUnder n key ↔ ∃ id, s.ownDependency? n key = some id ∧ r ∈ s.withMembers id := by
  unfold heldUnder
  cases s.ownDependency? n key <;> simp

/-- A key that still holds the same dependency has the same members under it. -/
theorem mem_heldUnder_of_lasts {key : String} (hs : s.Sound) (hlasts : s.Lasts t)
    (hown : s.ownDependency? n key = some id) (hr : r ∈ s.withMembers id)
    (hstays : t.ownDependency? n key = some id) : r ∈ t.heldUnder n key := by
  refine mem_heldUnder.2 ⟨id, hstays, ?_⟩
  unfold withMembers at hr ⊢
  rwa [hlasts.members id (hs.ordered.entries n key id hown)]

/-- Where the contents are the same, and the groups there have the same members, the same is held. -/
theorem HeldHere.of_contents (h : s.HeldHere n r) (hcontents : t.contentsOf n = s.contentsOf n)
    (hmembers : ∀ key id, s.ownDependency? n key = some id →
      (t.dependency id).members = (s.dependency id).members) : t.HeldHere n r := by
  obtain ⟨key, hkey⟩ := h
  obtain ⟨id, hown, hr⟩ := mem_heldUnder.1 hkey
  refine ⟨key, mem_heldUnder.2 ⟨id, ?_, ?_⟩⟩
  · unfold ownDependency? entryAt?
    rw [hcontents]
    exact hown
  · unfold withMembers at hr ⊢
    rwa [hmembers key id hown]

/-! ## §2. What is registered. -/

/-- What a placed dependency brings into the index it holds under its key. -/
theorem Placed.mem_withMembers {m : Namespace} {key u : String} (h : s.Placed K m key id t)
    (hindexed : t.indexed? n u = some r) :
    s.indexed? n u = some r ∨ n = m ∧ r ∈ t.withMembers id := by
  rcases h.indexed?_cases n u with hsame | ⟨rfl, i, hi, -, hown⟩
  · exact .inl (hsame.symm.trans hindexed)
  · obtain rfl := Option.some.inj (hi.symm.trans hindexed)
    refine .inr ⟨rfl, ?_⟩
    rcases hown with rfl | ⟨hmember, -⟩
    · exact List.mem_cons_self
    · exact List.mem_cons_of_mem _ hmember

/-- What a single write registers anew is held after it. -/
theorem Wrote.held_of_indexed (h : s.Wrote K t) {u : String} (hindexed : t.indexed? n u = some r) :
    s.indexed? n u = some r ∨ t.HeldHere n r := by
  cases h with
  | put hput =>
    cases hput with
    | quiet hquiet => exact .inl ((hquiet.indexed? n u).symm.trans hindexed)
    | placed hplaced =>
      rcases hplaced.mem_withMembers hindexed with hbefore | ⟨rfl, hr⟩
      · exact .inl hbefore
      · exact .inr ⟨_, mem_heldUnder.2 ⟨_, ownDependency?_eq_some.2 hplaced.entry, hr⟩⟩
    | linked hquiet =>
      rw [indexed?_putEntry] at hindexed
      exact .inl ((hquiet.indexed? n u).symm.trans hindexed)
  | @aliased m key id a hsourced =>
    rw [indexed?_putEntry] at hindexed
    obtain ⟨hquiet | ⟨m', key', hplaced⟩, -⟩ := hsourced
    · exact .inl ((hquiet.indexed? n u).symm.trans hindexed)
    · rcases hplaced.mem_withMembers hindexed with hbefore | ⟨rfl, hr⟩
      · exact .inl hbefore
      -- the alias is of the very dependency that has been placed, wherever it is put
      · refine .inr ⟨key', mem_heldUnder.2 ⟨id, ownDependency?_eq_some.2 ?_, hr⟩⟩
        rw [entryAt?_putEntry]
        split
        · rfl
        · exact hplaced.entry

/-- What is found for a key with the shape of a spec is registered, and wherever it is registered for
the same coordinate it is found. -/
theorem exists_indexed?_of_localEntry {key : String} (hspec : looksLikeSpec (trim key) = true)
    (hfound : s.localEntry n key = some (.dependency r)) :
    ∃ u, s.indexed? n u = some r ∧
      ∀ t : Store, t.indexed? n u = some r → t.localEntry n key = some (.dependency r) := by
  unfold localEntry at hfound
  rw [if_pos hspec] at hfound
  cases hparse : Spec.parse (trim key) with
  | error e =>
    rw [hparse] at hfound
    exact nomatch hfound
  | ok spec =>
    rw [hparse] at hfound
    obtain ⟨id, hindexed, heq⟩ := Option.map_eq_some_iff.1 hfound
    cases heq
    refine ⟨spec.coordinate.render, hindexed, fun t ht => ?_⟩
    unfold localEntry
    rw [if_pos hspec, hparse]
    dsimp only
    rw [ht]
    rfl

/-- A key with the shape of a spec finds the same in the same contents. -/
theorem localEntry_of_contents {key : String} (hspec : looksLikeSpec (trim key) = true)
    (hcontents : t.contentsOf n = s.contentsOf n) : t.localEntry n key = s.localEntry n key := by
  unfold localEntry indexed?
  rw [if_pos hspec, if_pos hspec, hcontents]

/-- Where the dependency is found for a key with the shape of a spec, it is held. -/
def Current (n : Namespace) (r : DependencyId) (s : Store) : Prop :=
  ∀ key, looksLikeSpec (trim key) = true → s.localEntry n key = some (.dependency r) →
    s.HeldHere n r

namespace Current

theorem of_quiet (h : s.Current n r) (hs : s.Sound) (hquiet : s.Quiet t) : t.Current n r := by
  intro key hspec hfound
  rw [localEntry_of_contents hspec (hquiet.contents n)] at hfound
  refine (h key hspec hfound).of_contents (hquiet.contents n) fun key id hown => ?_
  exact Dependency.members_of_stamp (hquiet.stamp id (hs.ordered.entries n key id hown))

/-- What is put back had the property, and a dependency has the same members all the time. -/
theorem restoreBelow (h : s.Current n r) (ht : t.Current n r) (hs : s.Sound) (hlasts : s.Lasts t)
    (m : Namespace) : (t.restoreBelow s [m]).Current n r := by
  intro key hspec hfound
  have hmembers (i : DependencyId) := (hlasts.same_restoreBelow hs m i).2
  have hcontents := contentsOf_restoreBelow s t m n
  -- the namespace has been put back, or it is as the batch has left it
  split at hcontents
  · rw [localEntry_of_contents hspec hcontents] at hfound
    refine (h key hspec hfound).of_contents hcontents fun k id hown => ?_
    exact (hmembers id).trans (hlasts.members id (hs.ordered.entries n k id hown))
  · rw [localEntry_of_contents hspec hcontents] at hfound
    exact (ht key hspec hfound).of_contents hcontents fun _ id _ => hmembers id

end Current

end Store

/-! ## §3. Runs. -/

/-- The write gives another entry, or none, to a key that held `r`, by itself or in a group.  No other
key of the namespace holds `r`, but it is still found. -/
structure Step.Strands (n : Namespace) (r : DependencyId) (step : Step) : Prop where
  reassigned : ∃ key id, step.session.store.ownDependency? n key = some id ∧
    r ∈ step.session.store.withMembers id ∧ step.after.store.ownDependency? n key ≠ some id
  lost : ¬step.after.store.HeldHere n r
  found : ∃ key, looksLikeSpec (trim key) = true ∧
    step.after.store.localEntry n key = some (.dependency r)

/-- What a single write leaves registered was registered before, or it is held now. -/
theorem Step.held_of_indexed {n : Namespace} {r : DependencyId} {step : Step}
    (hs : step.session.store.Sound) (hsingle : step.operation.isBatch = false) {u : String}
    (hindexed : step.after.store.indexed? n u = some r) :
    step.session.store.indexed? n u = some r ∨ step.after.store.HeldHere n r := by
  cases hremoves : step.operation.removes with
  | true => exact .inl ((Session.removed_after hremoves).index n u r hindexed)
  | false =>
    have hwrote : step.session.store.Wrote (fun _ => True) step.after.store :=
      Session.wrote_after (fun _ _ _ => trivial) hs (.of_true _) (fun _ _ => trivial) hsingle
        hremoves
    exact hwrote.held_of_indexed hindexed

/-- A write that does not strand the dependency leaves it held where it is found. -/
theorem Step.keeps_current {n : Namespace} {r : DependencyId} {step : Step}
    (hsingle : step.operation.isBatch = false) (h : ¬step.Strands n r) :
    step.Keeps (·.Current n r) := by
  intro hs hcurrent spec hspec hfound
  obtain ⟨u, hindexed, hfinds⟩ := Store.exists_indexed?_of_localEntry hspec hfound
  have hlasts : step.session.store.Lasts step.after.store := Session.lasts_after hs hsingle
  rcases Step.held_of_indexed hs hsingle hindexed with hbefore | hheld
  · by_contra hlost
    obtain ⟨key, hkey⟩ := hcurrent spec hspec (hfinds _ hbefore)
    obtain ⟨id, hown, hr⟩ := Store.mem_heldUnder.1 hkey
    refine h ⟨⟨key, id, hown, hr, fun hstays => hlost ?_⟩, hlost, spec, hspec, hfound⟩
    exact ⟨key, Store.mem_heldUnder_of_lasts hs hlasts hown hr hstays⟩
  · exact hheld

namespace Session

variable {σ : Session} {followsProjects : Bool}

/-- What a namespace finds for a key with the shape of a spec it holds, by a key of its own or in a
group, as long as no write has stranded it there; and a single write loses that exactly if it
strands the dependency. -/
theorem current_after_iff {n : Namespace} {r : DependencyId}
    (h : ReachedThrough followsProjects
      (fun σ operation => ∀ step ∈ operation.parts σ, ¬step.Strands n r) σ) :
    σ.store.Current n r ∧ ∀ operation : Operation, operation.isBatch = false →
      ((σ.after operation).store.Current n r ↔ ¬Step.Strands n r ⟨operation, σ⟩) := by
  have hcurrent : σ.store.Current n r := by
    refine h.keeps (fun s t hs hquiet hcurrent => hcurrent.of_quiet hs hquiet) ?_
      (fun _ _ _ batch _ _ hs hlasts h ht => h.restoreBelow ht hs hlasts batch.target) ?_
    · intro σ operation hallowed hpresent step hstep
      exact Step.keeps_current (Step.single_of_mem_parts hpresent hstep).1 (hallowed step hstep)
    · intro key hspec hfound
      obtain ⟨u, hindexed, -⟩ := Store.exists_indexed?_of_localEntry hspec hfound
      rw [indexed?_start] at hindexed
      exact nomatch hindexed
  refine ⟨hcurrent, fun operation hsingle => ⟨fun hafter hstrands => ?_, fun hnot => ?_⟩⟩
  · obtain ⟨key, hspec, hfound⟩ := hstrands.found
    exact hstrands.lost (hafter key hspec hfound)
  · have hkeeps : Step.Keeps (·.Current n r) ⟨operation, σ⟩ := Step.keeps_current hsingle hnot
    exact hkeeps h.reached.sound hcurrent

/-- Of two keys with one dependency, one may be given another coordinate. -/
theorem heldHere_aliased :
    let n : Namespace := .registered "n" 0
    let σ := (start true).afterAll
      [.set n "k" (.text "g:i:t:1"), .addAlias n "l" "k", .set n "k" (.text "a:b:c:1")]
    ReachedThrough true (fun σ operation => ∀ step ∈ operation.parts σ, ¬step.Strands n 0) σ ∧
      σ.store.ownDependency? n "k" = some 1 ∧
      σ.store.localEntry n "g:i:t" = some (.dependency 0) ∧ σ.store.HeldHere n 0 := by
  intro n σ
  have hallowed {σ : Session} {operation : Operation} (key : String)
      (hparts : operation.parts σ = [⟨operation, σ⟩])
      (hheld : 0 ∈ (σ.after operation).store.heldUnder n key) :
      ∀ step ∈ operation.parts σ, ¬step.Strands n 0 := by
    rw [hparts, List.forall_mem_singleton]
    exact fun hstrands => hstrands.lost ⟨key, hheld⟩
  have hreached : ReachedThrough true
      (fun σ operation => ∀ step ∈ operation.parts σ, ¬step.Strands n 0) σ := by
    refine .after (.after (.after .start trivial ?_) trivial ?_) trivial ?_
    · exact hallowed "k" rfl (by decide +kernel)
    · exact hallowed "k" rfl (by decide +kernel)
    · exact hallowed "l" rfl (by decide +kernel)
  have hfound : σ.store.localEntry n "g:i:t" = some (.dependency 0) := by decide +kernel
  exact ⟨hreached, by decide +kernel, hfound,
    (current_after_iff hreached).1 "g:i:t" (by decide +kernel) hfound⟩

/-- A dependency is still found by its coordinate after its only key has been given another one. -/
theorem not_heldHere_reassigned :
    let n : Namespace := .registered "n" 0
    let σ := (start true).afterAll
      [.set n "k" (.text "g:i:t:1"), .set n "k" (.text "a:b:c:1")]
    Reached true σ ∧ σ.store.localEntry n "g:i:t" = some (.dependency 0) ∧
      σ.store.keys n = ["k"] ∧ ¬σ.store.HeldHere n 0 := by
  intro n σ
  have hkeys : σ.store.keys n = ["k"] := by decide +kernel
  refine ⟨.after (.after .start trivial) trivial, by decide +kernel, hkeys, ?_⟩
  rintro ⟨key, hkey⟩
  obtain ⟨id, hown, -⟩ := Store.mem_heldUnder.1 hkey
  have hlisted : key ∈ σ.store.keys n :=
    Store.mem_keys_iff.2 ⟨_, Store.ownDependency?_eq_some.1 hown⟩
  rw [hkeys] at hlisted
  obtain rfl := List.mem_singleton.1 hlisted
  exact absurd hkey (by decide +kernel)

end Session

end DependencyScope
