/-
  DependencyScope.Proofs.Session.Listed — which of the keys that a namespace lists can be read.

  A look-up trims a key and then goes by its shape: what looks like a spec is searched for by its
  coordinate only, and anything else among the entries.  The key of an entry has no blank ends, so an
  entry under a plain name is found.  A need, a requirement, an alias, a sub-namespace or an inherited
  entry may though be put under a key with the shape of a spec.  Such an entry is found only if it is
  the one that is registered for the coordinate.

  Main definitions:
    * `Operation.NamesPlain` — nothing is put under a new key with the shape of a spec.

  Main results:
    * `Store.Labelled.wrote`, `.removed`, `.restoreBelow` — what the names that are given have in
      common, all keys have;
    * `Session.ReachedThrough.labelled` — and so it is in every run;
    * `Session.localEntry_listed` — when a key that is listed is found.
-/
import DependencyScope.Proofs.Session.Parts

namespace DependencyScope

open DependencyScope.Text DependencyScope.Action

/-! ## §1. The keys of entries. -/

namespace Store

variable {K : String → Prop} {r s t : Store} {n : Namespace} {key : String} {id : DependencyId}

namespace Labelled

/-- Entries and registrations that stay keep their keys. -/
theorem of_lasts (h : s.Labelled K) (hs : s.Sound) (hlasts : s.Lasts t)
    (hentries : ∀ n key e, t.entryAt? n key = some e → s.entryAt? n key = some e)
    (hindex : ∀ n u id, t.indexed? n u = some id → s.indexed? n u = some id) : t.Labelled K where
  entries n key e hentry := h.entries n key e (hentries n key e hentry)
  held := by
    intro n key id hentry
    have hbefore := hentries n key _ hentry
    rw [hlasts.key id (hs.ordered.entries n key id (ownDependency?_eq_some.2 hbefore))]
    exact h.held n key id hbefore
  index := by
    intro n u id hindexed
    have hbefore := hindex n u id hindexed
    rw [hlasts.key id (hs.ordered.index n u id hbefore)]
    exact h.index n u id hbefore

theorem of_quiet (h : s.Labelled K) (hs : s.Sound) (hquiet : s.Quiet t) : t.Labelled K :=
  h.of_lasts hs (.of_quiet hquiet) (fun n key _ hentry => (hquiet.entryAt? n key).symm.trans hentry)
    fun n u _ hindexed => (hquiet.indexed? n u).symm.trans hindexed

theorem removed (h : s.Labelled K) (hs : s.Sound) (hremoved : s.Removed t) : t.Labelled K :=
  h.of_lasts hs hremoved.lasts hremoved.entries hremoved.index

theorem of_placed (h : s.Labelled K) (hs : s.Sound) (hplaced : s.Placed K n key id t) :
    t.Labelled K := by
  have hlasts : s.Lasts t := .of_touches hplaced.toTouches
  -- the dependency itself is the one that the key held, or it has been made for the key
  have hlabel : K (t.dependency id).key := by
    by_cases hold : id < s.nextDependency
    · rw [hlasts.key id hold]
      exact h.held n key id (hplaced.own hold)
    · rw [hplaced.label (Nat.le_of_not_lt hold)]
      exact hplaced.name
  constructor
  · intro m k e hentry
    rcases hplaced.entryAt?_cases m k with hsame | ⟨rfl, rfl | ⟨-, -, -, -, hname, -⟩⟩
    · exact h.entries m k e (hsame.symm.trans hentry)
    · exact hplaced.name
    · exact hname
  · intro m k i hentry
    rcases hplaced.entryAt?_cases m k with hsame | ⟨rfl, rfl | ⟨-, j, -, hown, hname, hj, -⟩⟩
    · have hbefore := hsame.symm.trans hentry
      rw [hlasts.key i (hs.ordered.entries m k i (ownDependency?_eq_some.2 hbefore))]
      exact h.held m k i hbefore
    · cases hplaced.entry.symm.trans hentry
      exact hlabel
    · cases hj.symm.trans hentry
      exact hown ▸ hname
  · intro m u i hindexed
    rcases hplaced.indexed?_cases m u with hsame | ⟨rfl, j, hj, -, rfl | ⟨-, hname⟩⟩
    · have hbefore := hsame.symm.trans hindexed
      rw [hlasts.key i (hs.ordered.index m u i hbefore)]
      exact h.index m u i hbefore
    · cases hj.symm.trans hindexed
      exact hlabel
    · cases hj.symm.trans hindexed
      exact hname

/-- An entry may be put under any key with the property, if it is a namespace, or a dependency whose
own key has the property. -/
theorem putEntry (h : s.Labelled K) (hname : K key) {e : Entry}
    (he : ∀ id, e = .dependency id → K (s.dependency id).key) : (s.putEntry n key e).Labelled K where
  entries := by
    intro m k e' hentry
    rw [entryAt?_putEntry] at hentry
    split at hentry
    · next heq => exact heq.2 ▸ hname
    · exact h.entries m k e' hentry
  held := by
    intro m k i hentry
    rw [entryAt?_putEntry] at hentry
    rw [dependency_putEntry]
    split at hentry
    · exact he i (Option.some.inj hentry)
    · exact h.held m k i hentry
  index := by
    intro m u i hindexed
    rw [indexed?_putEntry] at hindexed
    rw [dependency_putEntry]
    exact h.index m u i hindexed

theorem put (h : s.Labelled K) (hs : s.Sound) (hput : s.Put K t) : t.Labelled K := by
  cases hput with
  | quiet hquiet => exact h.of_quiet hs hquiet
  | placed hplaced => exact h.of_placed hs hplaced
  | linked hquiet _ hname => exact (h.of_quiet hs hquiet).putEntry hname (by simp)

theorem wrote (h : s.Labelled K) (hs : s.Sound) (hwrote : s.Wrote K t) : t.Labelled K := by
  cases hwrote with
  | put hput => exact h.put hs hput
  | aliased hsourced _ hname =>
    have hlabelled := h.put hs hsourced.put
    exact hlabelled.putEntry hname (by rintro _ ⟨⟩; exact hlabelled.known hsourced.2)

/-- What is put back had the property. -/
theorem restoreBelow (h : s.Labelled K) (ht : t.Labelled K) (hs : s.Sound) (hlasts : s.Lasts t)
    (n : Namespace) : (t.restoreBelow s [n]).Labelled K := by
  -- contents are taken from before or from the end, and keys of records never change
  have hkey (i : DependencyId) := (hlasts.same_restoreBelow hs n i).1
  constructor
  · intro m key e hentry
    unfold entryAt? at hentry
    rw [contentsOf_restoreBelow] at hentry
    split at hentry
    · exact h.entries m key e hentry
    · exact ht.entries m key e hentry
  · intro m key id hentry
    unfold entryAt? at hentry
    rw [contentsOf_restoreBelow] at hentry
    rw [hkey]
    split at hentry
    · rw [hlasts.key id (hs.ordered.entries m key id (ownDependency?_eq_some.2 hentry))]
      exact h.held m key id hentry
    · exact ht.held m key id hentry
  · intro m u id hindexed
    unfold indexed? at hindexed
    rw [contentsOf_restoreBelow] at hindexed
    rw [hkey]
    split at hindexed
    · rw [hlasts.key id (hs.ordered.index m u id hindexed)]
      exact h.index m u id hindexed
    · exact ht.index m u id hindexed

end Labelled

/-! ## §2. Look-ups. -/

/-- A key without blank ends that holds an entry is read by its shape. -/
theorem localEntry_of_entryAt? {e : Entry} (htrim : trim key = key)
    (hentry : s.entryAt? n key = some e) :
    s.localEntry n key = some e ↔ (looksLikeSpec key = true → ∃ spec, Spec.parse key = .ok spec ∧
      (s.indexed? n spec.coordinate.render).map .dependency = some e) := by
  unfold localEntry
  rw [htrim, hentry]
  cases looksLikeSpec key with
  | false => simp
  | true =>
    cases hparse : Spec.parse key with
    | error err => simp
    | ok spec => simp

end Store

/-! ## §3. Runs. -/

/-- Nothing that the operation puts under a name has one with the shape of a spec. -/
def Operation.NamesPlain (σ : Session) (operation : Operation) : Prop :=
  ∀ step ∈ operation.parts σ, ∀ name ∈ step.operation.names step.session.store,
    looksLikeSpec name = false

namespace Session

variable {σ : Session} {followsProjects : Bool} {allowed : Session → Operation → Prop}
  {K : String → Prop}

/-- If all names that are given have the property once they are trimmed, then all keys have it. -/
theorem ReachedThrough.labelled (hK : AdmitsNames K)
    (h : ReachedThrough followsProjects allowed σ)
    (hnames : ∀ (σ : Session) operation, allowed σ operation → ∀ step ∈ operation.parts σ,
      ∀ name ∈ step.operation.names step.session.store, K (trim name)) : σ.store.Labelled K := by
  refine h.keeps (fun s t hs hquiet hlabelled => hlabelled.of_quiet hs hquiet) ?_
    (fun _ _ _ batch _ _ hs hlasts h ht => h.restoreBelow ht hs hlasts batch.target) ?_
  · intro σ operation hallowed hpresent step hstep hsound hlabelled
    obtain ⟨hsingle, -, -⟩ := Step.single_of_mem_parts hpresent hstep
    cases hremoves : step.operation.removes with
    | true => exact hlabelled.removed hsound (removed_after hremoves)
    | false =>
      exact hlabelled.wrote hsound (wrote_after hK hsound hlabelled
        (hnames σ operation hallowed step hstep) hsingle hremoves)
  · constructor <;> simp

/-- A key that is listed is found exactly if it has no shape of a spec, or is read as one for whose
coordinate the very entry is registered.  In runs that give no names with such a shape all keys that
are listed are found. -/
theorem localEntry_listed (h : Reached followsProjects σ) {n : Namespace} {key : String}
    (hkey : key ∈ σ.store.keys n) :
    (σ.store.localEntry n key = σ.store.entryAt? n key ↔
      (looksLikeSpec key = true → ∃ spec, Spec.parse key = .ok spec ∧
        (σ.store.indexed? n spec.coordinate.render).map .dependency = σ.store.entryAt? n key)) ∧
    (ReachedThrough followsProjects (fun σ operation => operation.NamesPlain σ) σ →
      σ.store.localEntry n key = σ.store.entryAt? n key) := by
  obtain ⟨e, hentry⟩ := Store.mem_keys_iff.1 hkey
  have htrimmed : σ.store.Labelled fun key => trim key = key :=
    h.through.labelled (fun _ htrim _ => htrim) fun _ _ _ _ _ name _ => trim_trim name
  have hiff := Store.localEntry_of_entryAt? (htrimmed.entries n key e hentry) hentry
  rw [hentry]
  refine ⟨hiff, fun hplain => hiff.2 fun hspec => ?_⟩
  have hlabelled : σ.store.Labelled fun key => trim key = key ∧ looksLikeSpec key = false := by
    refine hplain.labelled (fun _ htrim hplain => ⟨htrim, hplain⟩) ?_
    intro σ operation hallowed step hstep name hname
    exact ⟨trim_trim name, (looksLikeSpec_trim name).trans (hallowed step hstep name hname)⟩
  have hnot := (hlabelled.entries n key e hentry).2
  rw [hspec] at hnot
  exact nomatch hnot

/-- A key with the shape of a spec is found if it holds what is registered for its coordinate, as it
does after an entry has been taken over from the namespace around; and a plain one always is. -/
theorem localEntry_listed_inherited :
    let n : Namespace := .registered "n" 0
    let σ := (start true).afterAll
      [.set (.registered rootName 0) "i" (.text "g:i:t:1"), .useInherited n "g:i:t"]
    let τ := (start true).after (.needAs n "k" (.text "g:i:t:1"))
    (Reached true σ ∧ "g:i:t" ∈ σ.store.keys n ∧
      σ.store.localEntry n "g:i:t" = σ.store.entryAt? n "g:i:t") ∧
    (ReachedThrough true (fun σ operation => operation.NamesPlain σ) τ ∧ "k" ∈ τ.store.keys n ∧
      τ.store.localEntry n "k" = τ.store.entryAt? n "k") := by
  intro n σ τ
  have hreached : Reached true σ := .after (.after .start trivial) trivial
  have hkey : "g:i:t" ∈ σ.store.keys n := by decide +kernel
  have hplain : (Operation.needAs n "k" (.text "g:i:t:1")).NamesPlain (start true) := by
    intro step hstep name hname
    rw [Operation.parts_of_single rfl] at hstep
    obtain rfl := List.mem_singleton.1 hstep
    obtain rfl := List.mem_singleton.1 hname
    decide +kernel
  have hthrough : ReachedThrough true (fun σ operation => operation.NamesPlain σ) τ :=
    .after .start trivial hplain
  have hlisted : "k" ∈ τ.store.keys n := by decide +kernel
  refine ⟨⟨hreached, hkey, (localEntry_listed hreached hkey).1.2 fun _ => ?_⟩,
    hthrough, hlisted, (localEntry_listed hthrough.reached hlisted).2 hthrough⟩
  exact ⟨⟨⟨"g", "i", "t", none⟩, none⟩, by decide +kernel, by decide +kernel⟩

/-- A need may be put under a key with the shape of a spec, and is not found there. -/
theorem not_localEntry_listed :
    let σ := (start true).after (.needAs (.registered "n" 0) "a:b:c" (.text "g:i:t:1"))
    Reached true σ ∧ "a:b:c" ∈ σ.store.keys (.registered "n" 0) ∧
      σ.store.entryAt? (.registered "n" 0) "a:b:c" = some (.dependency 0) ∧
      σ.store.localEntry (.registered "n" 0) "a:b:c" = none := by
  exact ⟨.after .start trivial, by decide +kernel, by decide +kernel, by decide +kernel⟩

end Session

end DependencyScope
