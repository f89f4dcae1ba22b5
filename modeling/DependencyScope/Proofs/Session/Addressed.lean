/-
  DependencyScope.Proofs.Session.Addressed — where a version goes that is assigned by a coordinate.

  A coordinate is read from the index of a namespace.  An assignment takes it for the key of the
  dependency that is registered there, and looks that key up again.  So the version reaches the
  dependency that the coordinate finds exactly if its own key holds it.  Whatever a namespace
  registers by a key of its own is held by that key at first; the members of a group need not be.

  Main definitions:
    * `Session.Reaches` — a version has been selected on what the coordinate finds;
    * `Store.Addressed` — what is found by a coordinate is held by its own key;
    * `Step.Mislays` — the write leaves a dependency to be found, but not held by its own key.

  Main results:
    * `Namespace.exists_of_set_coordinate` — what the assignment of a version by a coordinate does;
    * `Session.reaches_iff` — when the version reaches what the coordinate finds, and until when it
      does in the course of a run.
-/
import DependencyScope.Proofs.Session.Indexed

namespace DependencyScope

open DependencyScope.Text DependencyScope.Action

/-! ## §1. Versions. -/

namespace Namespace

variable {n : Namespace} {key text : String} {id r : DependencyId} {version : Version}
  {σ τ : Session}

theorem parse_of_ofText? (h : Version.ofText? text = some version) :
    VersionText.parse text = .ok (.plain version) := by
  unfold VersionText.parse
  rw [h]

/-- A version is selected on the dependency that the key holds. -/
theorem exists_of_version_held (hsilent : σ.Records Dependency.Silent)
    (hown : σ.store.ownDependency? n key = some id)
    (hversion : Version.ofText? text = some version) {i : DependencyId}
    (hrun : (n.useVersionAs key text).run σ = (.ok i, τ)) :
    i = id ∧ ∃ d, τ.store = σ.store.putDependency id d ∧ d.selected = some version := by
  unfold useVersionAs at hrun
  rw [parse_of_ofText? hversion, run_bind_ok (run_ofExcept _ σ), run_bind_ok (run_view _ σ),
    hown] at hrun
  obtain ⟨_, υ, hchosen, hreturn⟩ := run_bind_eq_ok.1 hrun
  cases hreturn
  rw [run_chooseOn] at hchosen
  cases hchoose : (σ.store.dependency id).choose none (some (.plain version)) with
  | error e =>
    rw [hchoose] at hchosen
    exact nomatch hchosen
  | ok outcome =>
    rw [hchoose] at hchosen
    have hsettled : outcome.dependency.Silent :=
      Dependency.robust_silent.chosen (hsilent id) hchoose
    have hput := hsilent.putDependency id hsettled
    refine ⟨rfl, outcome.dependency, (settle_of_hushed (fun _ => hput) hchosen).1, ?_⟩
    unfold Dependency.choose at hchoose
    obtain ⟨selected, hcheck, rfl⟩ := map_eq_ok.1 hchoose
    exact congrArg some (Dependency.eq_of_check hcheck)

/-- A version under a key that holds no dependency is selected on a new one. -/
theorem fresh_of_version_free (hσ : σ.store.Sound) (hown : σ.store.ownDependency? n key = none)
    (hversion : Version.ofText? text = some version) {i : DependencyId}
    (hrun : (n.useVersionAs key text).run σ = (.ok i, τ)) : σ.store.nextDependency ≤ i := by
  obtain ⟨copy, mid, hcopy, -, hfresh, -⟩ := run_copyInherited hσ n key
  unfold useVersionAs at hrun
  rw [parse_of_ofText? hversion, run_bind_ok (run_ofExcept _ σ), run_bind_ok (run_view _ σ),
    hown] at hrun
  dsimp only at hrun
  rw [run_bind_ok hcopy] at hrun
  obtain ⟨_, υ, -, hinsert⟩ := run_bind_eq_ok.1 hrun
  cases hinsert
  exact hfresh

theorem localEntry_trim {s : Store} (hspec : looksLikeSpec key = true) :
    s.localEntry n (trim key) = s.localEntry n key := by
  unfold Store.localEntry
  rw [trim_trim, looksLikeSpec_trim, hspec]

/-- A version that is assigned by a coordinate is used under the key of the dependency that the
coordinate finds. -/
theorem exists_of_set_coordinate (hspec : looksLikeSpec key = true)
    (hfound : σ.store.localEntry n key = some (.dependency r))
    (hversion : Version.ofText? text = some version) {e : Entry}
    (hrun : (n.set key (.text text)).run σ = (.ok e, τ)) :
    ∃ id, e = .dependency id ∧
      (n.useVersionAs (σ.store.dependency r).key text).run σ = (.ok id, τ) := by
  have hlands : σ.store.landing n key = (n, trim key) := by
    apply Store.landing_of_direct
    rw [looksLikeSpec_trim, hspec, Bool.true_or]
  have hassigned : σ.store.assignedKey? n (trim key) = some (σ.store.dependency r).key := by
    unfold Store.assignedKey?
    rw [looksLikeSpec_trim, hspec, if_pos rfl, localEntry_trim hspec, hfound]
    rfl
  rw [run_set, hlands] at hrun
  -- the write lands in the namespace itself, under the key that the coordinate stands for
  obtain ⟨key', id, hkey, he, huse⟩ := exists_of_assigned (fun key => n.useTextAs key text) hrun
  obtain rfl := Option.some.inj (hassigned.symm.trans hkey)
  unfold useTextAs at huse
  rw [looksLikeSpec_of_ofText? hversion, if_neg Bool.false_ne_true] at huse
  exact ⟨id, he, huse⟩

end Namespace

/-! ## §2. What is found and held by its own key. -/

namespace Store

variable {s t : Store} {n : Namespace} {r : DependencyId}

/-- Where the dependency is found for a key with the shape of a spec, its own key holds it. -/
def Addressed (n : Namespace) (r : DependencyId) (s : Store) : Prop :=
  ∀ key, looksLikeSpec (trim key) = true → s.localEntry n key = some (.dependency r) →
    s.ownDependency? n (s.dependency r).key = some r

namespace Addressed

/-- The same contents hold the same, and a dependency keeps the key that it was made for. -/
theorem own_of_contents (hcontents : t.contentsOf n = s.contentsOf n)
    (hkey : (t.dependency r).key = (s.dependency r).key)
    (hown : s.ownDependency? n (s.dependency r).key = some r) :
    t.ownDependency? n (t.dependency r).key = some r := by
  unfold ownDependency? entryAt? at hown ⊢
  rw [hcontents, hkey]
  exact hown

theorem of_quiet (h : s.Addressed n r) (hs : s.Sound) (hquiet : s.Quiet t) :
    t.Addressed n r := by
  intro key hspec hfound
  rw [localEntry_of_contents hspec (hquiet.contents n)] at hfound
  have hissued : r < s.nextDependency := Session.issued_of_localEntry hs.ordered hfound
  have hkey := Dependency.key_of_stamp (hquiet.stamp r hissued)
  exact own_of_contents (hquiet.contents n) hkey (h key hspec hfound)

/-- What is put back had the property, and what is not has it. -/
theorem restoreBelow (h : s.Addressed n r) (ht : t.Addressed n r) (hs : s.Sound)
    (hlasts : s.Lasts t) (m : Namespace) : (t.restoreBelow s [m]).Addressed n r := by
  intro key hspec hfound
  have hkey := (hlasts.same_restoreBelow hs m r).1
  -- both the entries and the index of the namespace are put back, or neither is
  have hcontents := contentsOf_restoreBelow s t m n
  split at hcontents
  · rw [localEntry_of_contents hspec hcontents] at hfound
    have hissued : r < s.nextDependency := Session.issued_of_localEntry hs.ordered hfound
    exact own_of_contents hcontents (hkey.trans (hlasts.key r hissued)) (h key hspec hfound)
  · rw [localEntry_of_contents hspec hcontents] at hfound
    exact own_of_contents hcontents hkey (ht key hspec hfound)

end Addressed

end Store

/-- After the write a coordinate finds `r`, but the key of `r` does not hold it.  Either that key
held it, so the write has given the key another entry or none; or no coordinate found `r`, and the
write has registered it where another key holds it, or a group with it. -/
structure Step.Mislays (n : Namespace) (r : DependencyId) (step : Step) : Prop where
  found : ∃ key, looksLikeSpec (trim key) = true ∧
    step.after.store.localEntry n key = some (.dependency r)
  lost : step.after.store.ownDependency? n (step.after.store.dependency r).key ≠ some r
  cause : step.session.store.ownDependency? n (step.after.store.dependency r).key = some r ∨
    (∀ key, looksLikeSpec (trim key) = true →
      step.session.store.localEntry n key ≠ some (.dependency r)) ∧ step.after.store.HeldHere n r

/-- A write that does not mislay the dependency leaves it under its own key where it is found. -/
theorem Step.keeps_addressed {n : Namespace} {r : DependencyId} {step : Step}
    (hsingle : step.operation.isBatch = false) (h : ¬step.Mislays n r) :
    step.Keeps (·.Addressed n r) := by
  intro hs haddressed key hspec hfound
  by_contra hlost
  refine h ⟨⟨key, hspec, hfound⟩, hlost, ?_⟩
  -- if it was found before, it was held under the key that it has kept
  by_cases hbefore : ∃ key', looksLikeSpec (trim key') = true ∧
      step.session.store.localEntry n key' = some (.dependency r)
  · obtain ⟨key', hspec', hfound'⟩ := hbefore
    have hlasts : step.session.store.Lasts step.after.store := Session.lasts_after hs hsingle
    have hissued := Session.issued_of_localEntry hs.ordered hfound'
    refine .inl ?_
    rw [hlasts.key r hissued]
    exact haddressed key' hspec' hfound'
  · refine .inr ⟨fun key' hspec' hfound' => hbefore ⟨key', hspec', hfound'⟩, ?_⟩
    obtain ⟨u, hindexed, hfinds⟩ := Store.exists_indexed?_of_localEntry hspec hfound
    rcases Step.held_of_indexed hs hsingle hindexed with hearlier | hheld
    · exact absurd ⟨key, hspec, hfinds _ hearlier⟩ hbefore
    · exact hheld

/-! ## §3. Runs. -/

namespace Session

variable {σ τ : Session} {followsProjects : Bool} {n : Namespace} {r : DependencyId}

/-- From `s` to `t`, the version has been selected on the dependency `r`, which the key finds and the
assignment gives back; all other dependencies are as they were. -/
structure Reaches (s : Store) (n : Namespace) (key : String) (r : DependencyId)
    (version : Version) (e : Entry) (t : Store) : Prop where
  returned : e = .dependency r
  found : t.localEntry n key = some (.dependency r)
  selected : (t.dependency r).selected = some version
  others : ∀ id < s.nextDependency, id ≠ r → t.dependency id = s.dependency id

/-- Where nothing listens, a version that is assigned by a coordinate reaches the dependency that the
coordinate finds exactly if the key of that dependency holds it. -/
theorem reaches_iff_own (hσ : σ.store.Sound) (hsilent : σ.Records Dependency.Silent)
    {key text : String} {version : Version} {e : Entry} (hspec : looksLikeSpec key = true)
    (hfound : σ.store.localEntry n key = some (.dependency r))
    (hversion : Version.ofText? text = some version)
    (hrun : (n.set key (.text text)).run σ = (.ok e, τ)) :
    Reaches σ.store n key r version e τ.store ↔
      σ.store.ownDependency? n (σ.store.dependency r).key = some r := by
  obtain ⟨id, rfl, huse⟩ := Namespace.exists_of_set_coordinate hspec hfound hversion hrun
  cases hown : σ.store.ownDependency? n (σ.store.dependency r).key with
  | none =>
    -- a new dependency is not the one that is found
    have hfresh := Namespace.fresh_of_version_free hσ hown hversion huse
    have hissued : r < σ.store.nextDependency := issued_of_localEntry hσ.ordered hfound
    refine iff_of_false (fun hreaches => ?_) nofun
    obtain rfl := Entry.dependency.inj hreaches.returned
    exact Nat.not_lt_of_le hfresh hissued
  | some held =>
    obtain ⟨rfl, d, hstore, hselected⟩ :=
      Namespace.exists_of_version_held hsilent hown hversion huse
    -- what is held takes the version, so it has to be the one that is found
    constructor
    · intro hreaches
      rw [Entry.dependency.inj hreaches.returned]
    · intro hsame
      obtain rfl := Option.some.inj hsame
      have hstill := Store.localEntry_of_contents ((looksLikeSpec_trim key).trans hspec)
        (σ.store.contentsOf_putDependency id d n)
      rw [hstore]
      refine ⟨rfl, hstill.trans hfound, ?_, fun id _ hne => ?_⟩
      · rw [Store.dependency_putDependency, if_pos rfl]
        exact hselected
      · rw [Store.dependency_putDependency, if_neg (Ne.symm hne)]

/-- Where nothing listens, a version that is assigned by a coordinate reaches the dependency that the
coordinate finds exactly if the key of that dependency holds it.  It does as long as no write has
mislaid the dependency there; and a single write ends that exactly if it mislays it. -/
theorem reaches_iff (n : Namespace) (r : DependencyId) :
    (∀ {σ τ : Session} {key text : String} {version : Version} {e : Entry},
      Reached followsProjects σ → σ.Records Dependency.Silent → looksLikeSpec key = true →
      σ.store.localEntry n key = some (.dependency r) → Version.ofText? text = some version →
      (perform (.set n key (.text text))).run σ = (.ok (.entry e), τ) →
      (Reaches σ.store n key r version e τ.store ↔
        σ.store.ownDependency? n (σ.store.dependency r).key = some r)) ∧
    ∀ {σ : Session}, ReachedThrough followsProjects
        (fun σ operation => ∀ step ∈ operation.parts σ, ¬step.Mislays n r) σ →
      σ.store.Addressed n r ∧ ∀ operation : Operation, operation.isBatch = false →
        ((σ.after operation).store.Addressed n r ↔ ¬Step.Mislays n r ⟨operation, σ⟩) := by
  constructor
  · intro σ τ key text version e h hsilent hspec hfound hversion hrun
    obtain ⟨e', hset, heq⟩ := exists_of_return hrun
    cases heq
    exact reaches_iff_own h.sound hsilent hspec hfound hversion hset
  · intro σ h
    have haddressed : σ.store.Addressed n r := by
      -- nothing is registered at the start, and each write that mislays nothing keeps it so
      refine h.keeps (fun s t hs hquiet haddressed => haddressed.of_quiet hs hquiet) ?_
        (fun _ _ _ batch _ _ hs hlasts h ht => h.restoreBelow ht hs hlasts batch.target) ?_
      · intro σ operation hallowed hpresent step hstep
        exact Step.keeps_addressed (Step.single_of_mem_parts hpresent hstep).1 (hallowed step hstep)
      · intro key hspec hfound
        obtain ⟨u, hindexed, -⟩ := Store.exists_indexed?_of_localEntry hspec hfound
        rw [indexed?_start] at hindexed
        exact nomatch hindexed
    refine ⟨haddressed, fun operation hsingle => ⟨fun hafter hmislays => ?_, fun hnot => ?_⟩⟩
    · obtain ⟨key, hspec, hfound⟩ := hmislays.found
      exact hmislays.lost (hafter key hspec hfound)
    · have hkeeps : Step.Keeps (·.Addressed n r) ⟨operation, σ⟩ := Step.keeps_addressed hsingle hnot
      exact hkeeps h.reached.sound haddressed

/-- The namespace `n` holds two dependencies under keys of their own. -/
def keyed : Session :=
  (start true).afterAll
    [.set (.registered "n" 0) "k" (.text "g:i:t:1"), .set (.registered "n" 0) "l" (.text "x:y:z:1")]

/-- The version goes to the dependency of the coordinate, and another one may follow. -/
theorem reaches_keyed :
    ∃ e τ, (perform (.set (.registered "n" 0) "g:i:t" (.text "2"))).run keyed
        = (.ok (.entry e), τ) ∧
      (∃ version, version.text = "2" ∧
        Reaches keyed.store (.registered "n" 0) "g:i:t" 0 version e τ.store) ∧
      τ.store.Addressed (.registered "n" 0) 0 := by
  have hallowed {σ : Session} {operation : Operation} (hparts : operation.parts σ = [⟨operation, σ⟩])
      (hheld : (σ.after operation).store.ownDependency? (.registered "n" 0)
        ((σ.after operation).store.dependency 0).key = some 0) :
      ∀ step ∈ operation.parts σ, ¬step.Mislays (.registered "n" 0) 0 := by
    -- a write that leaves the dependency under its own key does not mislay it
    rw [hparts, List.forall_mem_singleton]
    intro hmislays
    exact hmislays.lost hheld
  have hthrough : ReachedThrough true (fun σ operation => ∀ step ∈ operation.parts σ,
      ¬step.Mislays (.registered "n" 0) 0) keyed := by
    refine .after (.after .start trivial ?_) trivial ?_
    · exact hallowed rfl (by decide +kernel)
    · exact hallowed rfl (by decide +kernel)
  have hsilent : keyed.Records Dependency.Silent :=
    silent_after (silent_after (fun _ => rfl) (.set (n := .registered "n" 0) "k" _))
      (.set (n := .registered "n" 0) "l" _)
  have hfound : keyed.store.localEntry (.registered "n" 0) "g:i:t" = some (.dependency 0) := by
    decide +kernel
  have hsucceeds : ((Namespace.set (.registered "n" 0) "g:i:t" (.text "2")).run
      keyed).1.toOption.isSome := by decide +kernel
  have hafter : (keyed.after (.set (.registered "n" 0) "g:i:t" (.text "2"))).store.ownDependency?
      (.registered "n" 0) ((keyed.after (.set (.registered "n" 0) "g:i:t" (.text "2"))).store.dependency
        0).key = some 0 := by decide +kernel
  let version : Version := ⟨"2", by decide +kernel⟩
  have hversion : Version.ofText? "2" = some version := by decide +kernel
  obtain ⟨e, τ, hset⟩ := exists_of_isSome hsucceeds
  have hrun : (perform (.set (.registered "n" 0) "g:i:t" (.text "2"))).run keyed
      = (.ok (.entry e), τ) := run_bind_ok hset _
  obtain ⟨hreaches, hruns⟩ := @reaches_iff true (.registered "n" 0) 0
  obtain ⟨haddressed, hsingle⟩ := hruns hthrough
  have hown := haddressed "g:i:t" (by decide +kernel) hfound
  refine ⟨e, τ, hrun, ⟨version, rfl, ?_⟩, ?_⟩
  · exact (hreaches hthrough.reached hsilent (by decide +kernel) hfound hversion hrun).2 hown
  · have hkept := (hsingle (.set (.registered "n" 0) "g:i:t" (.text "2")) rfl).2
      fun hmislays => hmislays.lost hafter
    unfold after at hkept
    rwa [hrun] at hkept

/-- The key `i` is taken when a group with a member of that name is stored. -/
def mislaid : Session :=
  (start true).afterAll
    [.set (.registered "n" 0) "i" (.text "x:y:z:1"),
      .set (.registered "n" 0) "grp" (.group ["g:i:t:1"])]

/-- The version for the member goes to what the key `i` holds, which is of another coordinate. -/
theorem not_reaches_mislaid :
    Reached true mislaid ∧ mislaid.Records Dependency.Silent ∧
      mislaid.store.localEntry (.registered "n" 0) "g:i:t" = some (.dependency 1) ∧
      ∃ τ, (perform (.set (.registered "n" 0) "g:i:t" (.text "2"))).run mislaid
          = (.ok (.entry (.dependency 0)), τ) ∧
        (τ.store.dependency 1).selectedText = some "1" ∧
        (τ.store.dependency 0).spec = "x:y:z:2" := by
  have hsilent : mislaid.Records Dependency.Silent :=
    silent_after (silent_after (fun _ => rfl) (.set (n := .registered "n" 0) "i" _))
      (.set (n := .registered "n" 0) "grp" _)
  have hentry : ((Namespace.set (.registered "n" 0) "g:i:t" (.text "2")).run mislaid).1.toOption
      = some (.dependency 0) := by decide +kernel
  have hmember : (((Namespace.set (.registered "n" 0) "g:i:t" (.text "2")).run
      mislaid).2.store.dependency 1).selectedText = some "1" := by decide +kernel
  have hother : (((Namespace.set (.registered "n" 0) "g:i:t" (.text "2")).run
      mislaid).2.store.dependency 0).spec = "x:y:z:2" := by decide +kernel
  have hsucceeds : ((Namespace.set (.registered "n" 0) "g:i:t" (.text "2")).run
      mislaid).1.toOption.isSome := by
    rw [hentry]
    rfl
  refine ⟨.after (.after .start trivial) trivial, hsilent, by decide +kernel, ?_⟩
  obtain ⟨e, τ, hset⟩ := exists_of_isSome hsucceeds
  rw [hset] at hentry hmember hother
  obtain rfl := Option.some.inj hentry
  exact ⟨τ, run_bind_ok hset _, hmember, hother⟩

end Session

end DependencyScope
