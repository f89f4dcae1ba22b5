/-
  DependencyScope.Proofs.Store.Sharing — which dependencies have members in common.

  A group refers to its members by their serial numbers, so two groups may share one, at any depth,
  and what is selected on it is then selected for both.  A copy is made together with copies of all
  its members.  So nothing that it includes was there before, and it shares nothing with what was.

  Main definitions:
    * `Store.Includes`, `Store.Shares` — a dependency and its members at any depth;
    * `Store.MadeSince` — a dependency that includes nothing older;
    * `Store.Taken` — the dependency that is there, or such a one.

  Main results:
    * `Store.Grows.madeSince` — what a dependency includes stays the same;
    * `Store.madeSince_copy` — a copy includes nothing that was there before;
    * `Store.MadeSince.not_shares` — so it shares nothing with that.
-/
import DependencyScope.Proofs.Store.Copy

namespace DependencyScope.Store

variable {s t : Store} {id i j b : DependencyId} {d : Dependency}

/-! ## §1. What a dependency includes. -/

/-- `j` is the dependency `i` or a member of it, at any depth. -/
def Includes (s : Store) : DependencyId → DependencyId → Prop :=
  Relation.ReflTransGen fun i j => j ∈ (s.dependency i).members

/-- Something is included in both dependencies. -/
def Shares (s : Store) (i j : DependencyId) : Prop := ∃ k, s.Includes i k ∧ s.Includes j k

theorem Includes.self (s : Store) (i : DependencyId) : s.Includes i i := Relation.ReflTransGen.refl

/-- What has no members includes only itself. -/
theorem eq_of_includes (hi : (s.dependency i).members = []) (h : s.Includes i j) : j = i := by
  rcases Relation.ReflTransGen.cases_head h with rfl | ⟨m, hmember, -⟩
  · rfl
  · rw [hi] at hmember
    exact nomatch hmember

/-- So it is shared only with what includes it. -/
theorem includes_of_shares (hi : (s.dependency i).members = []) (h : s.Shares i j) :
    s.Includes j i := by
  obtain ⟨k, hik, hjk⟩ := h
  obtain rfl := eq_of_includes hi hik
  exact hjk

/-- Members are older than their group. -/
theorem Ordered.le_of_includes (h : s.Ordered) (hij : s.Includes i j) : j ≤ i := by
  induction hij with
  | refl => exact Nat.le_refl i
  | tail _ hmember ih => exact Nat.le_trans (Nat.le_of_lt (h.members _ _ hmember).1) ih

/-- What has been made goes on to include what it has included. -/
theorem Grows.includes (h : s.Grows t) (hi : i < s.nextDependency) (hij : t.Includes i j) :
    s.Includes i j := by
  induction hij with
  | refl => exact .self s i
  | @tail k j hik hmember ih =>
    have hk : k < s.nextDependency := Nat.lt_of_le_of_lt (h.sound.ordered.le_of_includes hik) hi
    rw [h.sameMembers k hk] at hmember
    exact ih.tail hmember

/-! ## §2. What has been made since. -/

/-- The dependency has been made, and all that it includes was made when there were `b` dependencies
already. -/
structure MadeSince (b id : DependencyId) (s : Store) : Prop where
  issued : id < s.nextDependency
  since : ∀ i, s.Includes id i → b ≤ i

theorem Grows.madeSince (h : s.Grows t) (hid : s.MadeSince b id) : t.MadeSince b id where
  issued := h.lt hid.issued
  since i hi := hid.since i (h.includes hid.issued hi)

theorem MadeSince.mono {a : DependencyId} (hab : a ≤ b) (h : s.MadeSince b id) :
    s.MadeSince a id where
  issued := h.issued
  since i hi := Nat.le_trans hab (h.since i hi)

/-- What was made since shares nothing with what was there before. -/
theorem MadeSince.not_shares {source : DependencyId} (h : s.MadeSince b id) (hs : s.Ordered)
    (hsource : source < b) : ¬s.Shares id source := by
  rintro ⟨i, hid, hi⟩
  exact Nat.not_le_of_lt (Nat.lt_of_le_of_lt (hs.le_of_includes hi) hsource) (h.since i hid)

/-- A new dependency includes itself and what its members include. -/
theorem madeSince_addDependency (h : s.Sound) (hb : b ≤ s.nextDependency)
    (hd : ∀ m ∈ d.members, s.MadeSince b m) :
    (s.addDependency d).2.MadeSince b (s.addDependency d).1 := by
  obtain ⟨hgrows, hissued⟩ := Grows.addDependency h fun m hm => (hd m hm).issued
  refine ⟨hissued, fun i hi => ?_⟩
  rcases Relation.ReflTransGen.cases_head hi with rfl | ⟨m, hmember, hm⟩
  · exact hb
  · rw [dependency_added] at hmember
    exact (hgrows.madeSince (hd m hmember)).since i hm

/-- The dependency that is there already, or else one that has been made since. -/
structure Taken (target : Option DependencyId) (b id : DependencyId) (s : Store) : Prop where
  issued : id < s.nextDependency
  there : ∀ own, target = some own → id = own
  new : target = none → s.MadeSince b id

theorem MadeSince.taken (h : s.MadeSince b id) : s.Taken none b id where
  issued := h.issued
  there _ hnone := nomatch hnone
  new _ := h

theorem Taken.own (hid : id < s.nextDependency) : s.Taken (some id) b id where
  issued := hid
  there _ hsome := Option.some.inj hsome
  new hnone := nomatch hnone

theorem Grows.taken {target : Option DependencyId} (h : s.Grows t) (hid : s.Taken target b id) :
    t.Taken target b id where
  issued := h.lt hid.issued
  there := hid.there
  new hnone := h.madeSince (hid.new hnone)

/-! ## §3. Copies. -/

theorem madeSince_copyAll {depth : Nat}
    (hcopy : ∀ {s : Store}, s.Sound → b ≤ s.nextDependency → ∀ id ≤ depth, ∀ key,
      (s.copyWithin depth id key).2.MadeSince b (s.copyWithin depth id key).1) :
    ∀ (members : List DependencyId) {s : Store}, s.Sound → b ≤ s.nextDependency →
      (∀ m ∈ members, m < s.nextDependency ∧ m ≤ depth) →
      ∀ m ∈ (copyAll depth members s).1, (copyAll depth members s).2.MadeSince b m
  | [], _, _, _, _, _, hm => nomatch hm
  | member :: rest, s, h, hb, hmembers, m, hm => by
    rw [List.forall_mem_cons] at hmembers
    have hfirst := copyWithin_spec depth h member (s.dependency member).key
    have hothers := (copyAll_spec (copyWithin_spec depth) rest hfirst.sound fun m hm =>
      hfirst.lt (hmembers.2 m hm).1).1
    rcases List.mem_cons.1 hm with rfl | hrest
    · exact hothers.madeSince (hcopy h hb member hmembers.1.2 _)
    · refine madeSince_copyAll hcopy rest hfirst.sound (Nat.le_trans hb hfirst.dependencies)
        (fun m hm => ?_) m hrest
      exact ⟨hfirst.lt (hmembers.2 m hm).1, (hmembers.2 m hm).2⟩

/-- With all members copied, a copy includes nothing that was there before. -/
theorem madeSince_copyWithin (depth : Nat) : ∀ {s : Store}, s.Sound → b ≤ s.nextDependency →
    ∀ id ≤ depth, ∀ key,
      (s.copyWithin depth id key).2.MadeSince b (s.copyWithin depth id key).1 := by
  induction depth with
  | zero =>
    intro s h hb id hid key
    refine madeSince_addDependency h hb fun m hm => ?_
    -- the oldest dependency of all has no members
    have hlt : m < 0 := Nat.lt_of_lt_of_le (h.ordered.members id m hm).1 hid
    exact absurd hlt (Nat.not_lt_zero m)
  | succ depth ih =>
    intro s h hb id hid key
    have hmembers : ∀ m ∈ (s.dependency id).members, m < s.nextDependency ∧ m ≤ depth := by
      intro m hm
      obtain ⟨hlt, hmade⟩ := h.ordered.members id m hm
      exact ⟨hmade, Nat.le_of_lt_succ (Nat.lt_of_lt_of_le hlt hid)⟩
    obtain ⟨hextends, -⟩ := copyAll_spec (copyWithin_spec depth) (s.dependency id).members h
      fun m hm => (hmembers m hm).1
    rw [copyWithin_succ]
    exact madeSince_addDependency hextends.sound (Nat.le_trans hb hextends.dependencies)
      (madeSince_copyAll ih (s.dependency id).members h hb hmembers)

theorem madeSince_copy (h : s.Sound) (id : DependencyId) (key : String) :
    (s.copy id key).2.MadeSince s.nextDependency (s.copy id key).1 :=
  madeSince_copyWithin id h (Nat.le_refl _) id (Nat.le_refl _) key

end DependencyScope.Store
