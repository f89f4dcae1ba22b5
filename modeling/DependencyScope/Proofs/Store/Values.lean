/-
  DependencyScope.Proofs.Store.Values — what a namespace has to offer, and what its ancestors add.

  The values of a namespace are read off everything that it contains.  As written down, the reading
  is a recursion over namespaces that hold each other in any shape, with two lists that grow: the
  namespaces that it entered and the dependencies that it met.  The recursion is given here with no
  bound at all, as a relation; it relates the entries of every namespace to exactly one pair of
  lists, so it ends, and the second list are the values.

  The values of the ancestors follow as far as their coordinates are new.  What is new is decided
  against all that was taken before, and so the nearest namespace that has a coordinate decides.

  Main definitions:
    * `Store.Collects` — the recursion, from what was entered and met before to what is after it;
    * `Store.Offered` — a text is the unversioned spec of one of some dependencies;
    * `Store.through` — what one namespace after the other adds.

  Main results:
    * `Store.collects_values`, `Store.Collects.unique` — the recursion ends, and with the values;
    * `Store.nodup_values`, `Store.mem_values_below_iff` — which they are, each once;
    * `Store.through_nearest` — the nearest namespace that has a coordinate decides.
-/
import DependencyScope.Proofs.Store.Containment
import Mathlib.Data.List.Nodup

namespace DependencyScope.Store

variable {s : Store} {n m : Namespace}

/-! ## §1. Collecting. -/

/-- Takes a dependency that has a coordinate and was not met. -/
def collect (s : Store) (found : List DependencyId) (id : DependencyId) : List DependencyId :=
  if (s.dependency id).coordinate.isSome ∧ id ∉ found then found ++ [id] else found

/-- The dependencies that entries stand for, group members for their group. -/
def standingFor (s : Store) (es : List Entry) : List DependencyId :=
  (es.filterMap Entry.dependency?).flatMap s.standsFor

/-- Those of some dependencies that have a coordinate, each once. -/
def placed (s : Store) (ids : List DependencyId) : List DependencyId :=
  (ids.filter fun id => (s.dependency id).coordinate.isSome).eraseDups

theorem values_eq (s : Store) (n : Namespace) :
    s.values n = s.placed (s.standingFor (s.contained n)) := rfl

theorem eraseDups_concat {α : Type} [BEq α] [LawfulBEq α] (as : List α) (a : α) :
    (as ++ [a]).eraseDups = if a ∈ as then as.eraseDups else as.eraseDups ++ [a] := by
  rw [List.eraseDups_append]
  by_cases ha : a ∈ as
  · simp [ha, List.removeAll]
  · simp [ha, List.removeAll, List.eraseDups_cons]

theorem placed_concat (ids : List DependencyId) (id : DependencyId) :
    s.placed (ids ++ [id]) = s.collect (s.placed ids) id := by
  unfold placed collect
  rw [List.filter_append]
  by_cases hcoordinate : (s.dependency id).coordinate.isSome
  · simp [hcoordinate, eraseDups_concat, List.mem_eraseDups]
  · simp [hcoordinate]

/-- One list after the other is taken as its elements are. -/
theorem placed_append (ids more : List DependencyId) :
    s.placed (ids ++ more) = more.foldl s.collect (s.placed ids) := by
  induction more generalizing ids with
  | nil => rw [List.append_nil, List.foldl_nil]
  | cons id more ih =>
    rw [List.append_cons, ih, placed_concat, List.foldl_cons]

theorem nodup_foldl_collect (ids : List DependencyId) {found : List DependencyId}
    (h : found.Nodup) : (ids.foldl s.collect found).Nodup := by
  induction ids generalizing found with
  | nil => exact h
  | cons id ids ih =>
    refine ih ?_
    unfold collect
    split
    · next hnew => exact List.Nodup.append h (List.nodup_singleton id) (by simpa using hnew.2)
    · exact h

theorem nodup_placed (ids : List DependencyId) : (s.placed ids).Nodup := by
  rw [← List.nil_append ids, placed_append]
  exact nodup_foldl_collect ids List.nodup_nil

theorem mem_placed_iff {ids : List DependencyId} {id : DependencyId} :
    id ∈ s.placed ids ↔ id ∈ ids ∧ (s.dependency id).coordinate.isSome := by
  unfold placed
  rw [List.mem_eraseDups, List.mem_filter]

/-! ## §2. The recursion. -/

/-- The reading of the values as it is written down: through some entries, from the namespaces that
were entered and the dependencies that were met before to those that are after it.  A namespace is
entered once.  Nothing bounds the depth, but a derivation is finite: where there is one, the
recursion ends. -/
inductive Collects (s : Store) : List Entry → List Namespace × List DependencyId →
    List Namespace × List DependencyId → Prop where
  | done (before : List Namespace × List DependencyId) : Collects s [] before before
  | dependency {id : DependencyId} {es : List Entry} {seen : List Namespace}
      {found : List DependencyId} {after : List Namespace × List DependencyId} :
      Collects s es (seen, (s.standsFor id).foldl s.collect found) after →
      Collects s (.dependency id :: es) (seen, found) after
  | passed {m : Namespace} {es : List Entry} {seen : List Namespace}
      {found : List DependencyId} {after : List Namespace × List DependencyId} :
      m ∈ seen → Collects s es (seen, found) after →
      Collects s (.sub m :: es) (seen, found) after
  | entered {m : Namespace} {es : List Entry} {seen : List Namespace}
      {found : List DependencyId} {between after : List Namespace × List DependencyId} :
      m ∉ seen → Collects s (s.entries m) (m :: seen, found) between →
      Collects s es between after → Collects s (.sub m :: es) (seen, found) after

namespace Collects

variable {es fs : List Entry} {before between after : List Namespace × List DependencyId}

/-- Nothing is left open: two runs of the recursion come to the same. -/
theorem unique (h : Collects s es before between) (h' : Collects s es before after) :
    between = after := by
  induction h generalizing after with
  | done before =>
    cases h'
    rfl
  | dependency _ ih =>
    cases h' with
    | dependency hrest => exact ih hrest
  | passed hseen _ ih =>
    cases h' with
    | passed _ hrest => exact ih hrest
    | entered hnew _ _ => exact absurd hseen hnew
  | entered hnew _ _ ihbelow ihrest =>
    cases h' with
    | passed hseen _ => exact absurd hseen hnew
    | entered _ hbelow hrest =>
      obtain rfl := ihbelow hbelow
      exact ihrest hrest

/-- What was entered stays entered. -/
theorem seen_subset (h : Collects s es before after) : ∀ x ∈ before.1, x ∈ after.1 := by
  induction h with
  | done before => exact fun _ hx => hx
  | dependency _ ih => exact ih
  | passed _ _ ih => exact ih
  | entered _ _ _ ihbelow ihrest =>
    exact fun x hx => ihrest x (ihbelow x (List.mem_cons_of_mem _ hx))

end Collects

/-- What a part of the walk through all entries gives, read as values. -/
def collected (s : Store) (found : List Namespace × List Entry) :
    List Namespace × List DependencyId :=
  (found.1, s.placed (s.standingFor found.2))

theorem collected_dependency (found : List Namespace × List Entry) (id : DependencyId) :
    s.collected (found.1, found.2 ++ [.dependency id])
      = (found.1, (s.standsFor id).foldl s.collect (s.collected found).2) := by
  unfold collected standingFor
  rw [List.filterMap_append, List.flatMap_append, ← placed_append]
  simp [Entry.dependency?]

theorem collected_sub (seen : List Namespace) (found : List Entry) (m : Namespace) :
    s.collected (seen, found ++ [.sub m]) = (seen, (s.collected (seen, found)).2) := by
  have hnone : [Entry.sub m].filterMap Entry.dependency? = [] := rfl
  unfold collected standingFor
  rw [List.filterMap_append, hnone, List.append_nil]

/-- The bounded walk is the recursion, as long as its bound exceeds the number of namespaces that
are left to enter. -/
theorem collects_gather (s : Store) (bound : Nat) : ∀ (n : Namespace) (path : List Namespace)
    (before : List Namespace × List Entry), Path s path n before.1 →
    s.contents.size < path.length + bound →
    s.Collects (s.entries n) (s.collected before) (s.collected (s.gather bound n before)) := by
  induction bound with
  | zero =>
    intro n path before hpath hbound
    have hlength := hpath.length_le
    omega
  | succ bound ih =>
    intro n path before hpath hbound
    -- one entry after the other, while the path that leads here stays entered
    have hentries : ∀ (es : List Entry), (∀ e ∈ es, e ∈ s.entries n) →
        ∀ before : List Namespace × List Entry, Path s path n before.1 →
        s.Collects es (s.collected before) (s.collected (es.foldl (s.visit bound) before)) := by
      intro es
      induction es with
      | nil => exact fun _ before _ => .done _
      | cons e es ihes =>
        intro hes before hpath
        have hrest := ihes (fun e he => hes e (List.mem_cons_of_mem _ he))
        rw [List.foldl_cons]
        cases e with
        | dependency id =>
          have htaken := hrest (before.1, before.2 ++ [.dependency id]) hpath
          rw [collected_dependency] at htaken
          exact .dependency htaken
        | sub m =>
          by_cases hseen : m ∈ before.1
          · have hvisit : s.visit bound before (.sub m) = before := by simp [visit, hseen]
            rw [hvisit]
            exact .passed hseen (hrest before hpath)
          · have hvisit : s.visit bound before (.sub m)
                = s.gather bound m (m :: before.1, before.2 ++ [.sub m]) := by
              simp [visit, hseen]
            rw [hvisit]
            have hbelow := ih m (n :: path) (m :: before.1, before.2 ++ [.sub m])
              (hpath.cons (hes _ List.mem_cons_self) hseen)
              (by simp only [List.length_cons]; omega)
            rw [collected_sub] at hbelow
            refine .entered hseen hbelow (hrest _ ?_)
            exact { hpath with
              seen_of_mem := fun x hx =>
                hbelow.seen_subset x (List.mem_cons_of_mem m (hpath.seen_of_mem x hx)) }
    exact hentries (s.entries n) (fun _ he => he) before hpath

/-- From a namespace the recursion ends, and what it met are the values of the namespace. -/
theorem collects_values (s : Store) (n : Namespace) :
    ∃ seen, s.Collects (s.entries n) ([n], []) (seen, s.values n) := by
  have hpath : Path s [] n [n] := ⟨by simp, by simp, by simp⟩
  exact ⟨_, s.collects_gather (s.contents.size + 1) n [] ([n], []) hpath (by simp)⟩

/-! ## §3. Which dependencies the values are. -/

theorem nodup_values (s : Store) (n : Namespace) : (s.values n).Nodup := nodup_placed _

theorem mem_standsFor_iff {held id : DependencyId} :
    id ∈ s.standsFor held ↔ ((s.dependency held).isGroup = false ∧ id = held) ∨
      ((s.dependency held).isGroup = true ∧ id ∈ (s.dependency held).members) := by
  unfold standsFor
  dsimp only
  split
  · next hgroup => simp [hgroup]
  · next hsingle => simp [hsingle]

/-- The dependencies that a namespace contains are those that the walk through it finds. -/
theorem dependency_mem_contained_iff {id : DependencyId} :
    .dependency id ∈ s.contained n ↔ ∃ m, s.Contains n m ∧ .dependency id ∈ s.entries m := by
  constructor
  · exact exists_of_mem_contained
  · rintro ⟨m, hm, hid⟩
    rcases (mem_contained_of_contains hm).2 _ hid with hfound | hsub
    · exact hfound
    · cases hsub

/-- A dependency is a value of a namespace if it has a coordinate and an entry of a namespace below
stands for it. -/
theorem mem_values_below_iff {id : DependencyId} :
    id ∈ s.values n ↔ (s.dependency id).coordinate.isSome ∧ ∃ m, s.Contains n m ∧
      ∃ key held, s.entryAt? m key = some (.dependency held) ∧ id ∈ s.standsFor held := by
  have hdependency : ∀ held : DependencyId, held ∈ (s.contained n).filterMap Entry.dependency?
      ↔ .dependency held ∈ s.contained n := by
    intro held
    simp [Entry.dependency?_eq_some]
  rw [values_eq, mem_placed_iff, and_comm, standingFor, List.mem_flatMap]
  constructor
  · rintro ⟨hcoordinate, held, hheld, hid⟩
    obtain ⟨m, hm, hentry⟩ := dependency_mem_contained_iff.1 ((hdependency held).1 hheld)
    obtain ⟨key, hkey⟩ := mem_entries_iff.1 hentry
    exact ⟨hcoordinate, m, hm, key, held, hkey, hid⟩
  · rintro ⟨hcoordinate, m, hm, key, held, hkey, hid⟩
    refine ⟨hcoordinate, held, (hdependency held).2 ?_, hid⟩
    exact dependency_mem_contained_iff.2 ⟨m, hm, mem_entries_iff.2 ⟨key, hkey⟩⟩

/-! ## §4. What comes after. -/

/-- One of the dependencies has the unversioned spec. -/
def Offered (s : Store) (ids : List DependencyId) (unversioned : Option String) : Prop :=
  ∃ id ∈ ids, (s.dependency id).unversioned = unversioned

instance (ids : List DependencyId) (unversioned : Option String) :
    Decidable (s.Offered ids unversioned) :=
  inferInstanceAs (Decidable (∃ id ∈ ids, (s.dependency id).unversioned = unversioned))

/-- `after` are the dependencies `found` and, behind them, those of `more` that they do not shadow,
among them one for each unversioned spec. -/
structure Follows (s : Store) (found more after : List DependencyId) : Prop where
  kept : found <+: after
  new : ∀ id ∈ after, id ∈ found ∨
    (id ∈ more ∧ ¬s.Offered found (s.dependency id).unversioned)
  offered : ∀ unversioned, s.Offered after unversioned ↔
    s.Offered found unversioned ∨ s.Offered more unversioned
  nodup : found.Nodup → after.Nodup

theorem offered_append {ids more : List DependencyId} {unversioned : Option String} :
    s.Offered (ids ++ more) unversioned ↔
      s.Offered ids unversioned ∨ s.Offered more unversioned := by
  simp [Offered, or_and_right, exists_or]

namespace Follows

variable {found between more rest after : List DependencyId}

theorem refl (s : Store) (found : List DependencyId) : s.Follows found [] found where
  kept := List.prefix_refl found
  new := fun _ hid => .inl hid
  offered := by simp [Offered]
  nodup := fun h => h

/-- What is taken first shadows what comes later. -/
theorem trans (h : s.Follows found more between) (h' : s.Follows between rest after) :
    s.Follows found (more ++ rest) after where
  kept := h.kept.trans h'.kept
  new := by
    intro id hid
    rcases h'.new id hid with hbetween | ⟨hrest, hfree⟩
    · rcases h.new id hbetween with hfound | ⟨hmore, hfree⟩
      · exact .inl hfound
      · exact .inr ⟨List.mem_append_left rest hmore, hfree⟩
    · have hfound : ¬s.Offered found (s.dependency id).unversioned :=
        fun hoffered => hfree ((h.offered _).2 (.inl hoffered))
      exact .inr ⟨List.mem_append_right more hrest, hfound⟩
  offered := by
    intro unversioned
    rw [h'.offered, h.offered, offered_append, or_assoc]
  nodup := fun hnodup => h'.nodup (h.nodup hnodup)

/-- A dependency that is shadowed is passed by. -/
theorem shadowed {id : DependencyId} (h : s.Offered found (s.dependency id).unversioned) :
    s.Follows found [id] found where
  kept := List.prefix_refl found
  new := fun _ hid => .inl hid
  offered := by
    intro unversioned
    have hsame : s.Offered [id] unversioned → s.Offered found unversioned := by
      rintro ⟨i, hi, rfl⟩
      obtain rfl := List.mem_singleton.1 hi
      exact h
    exact ⟨.inl, fun hoffered => hoffered.elim (fun hfound => hfound) hsame⟩
  nodup := fun hnodup => hnodup

/-- One that is not is taken. -/
theorem taken {id : DependencyId} (h : ¬s.Offered found (s.dependency id).unversioned) :
    s.Follows found [id] (found ++ [id]) where
  kept := List.prefix_append found [id]
  new := by
    intro i hi
    rcases List.mem_append.1 hi with hfound | hnew
    · exact .inl hfound
    · obtain rfl := List.mem_singleton.1 hnew
      exact .inr ⟨hnew, h⟩
  offered := fun _ => offered_append
  nodup := by
    intro hnodup
    have hnew : id ∉ found := fun hid => h ⟨id, hid, rfl⟩
    exact List.Nodup.append hnodup (List.nodup_singleton id) (by simpa using hnew)

/-- The list that offers an unversioned spec first decides which dependencies have it. -/
theorem mem_of_offered {unversioned : Option String} {id : DependencyId}
    (h : s.Follows found more between) (h' : s.Follows between rest after)
    (hfree : ¬s.Offered found unversioned) (hoffered : s.Offered more unversioned)
    (hid : id ∈ after) (heq : (s.dependency id).unversioned = unversioned) : id ∈ more := by
  subst heq
  rcases h'.new id hid with hbetween | ⟨_, hlate⟩
  · rcases h.new id hbetween with hfound | ⟨hmore, _⟩
    · exact absurd ⟨id, hfound, rfl⟩ hfree
    · exact hmore
  · exact absurd ((h.offered _).2 (.inr hoffered)) hlate

end Follows

/-- The values of a namespace follow nothing. -/
theorem follows_values (s : Store) (n : Namespace) : s.Follows [] (s.values n) (s.values n) where
  kept := List.nil_prefix
  new := fun _ hid => .inr ⟨hid, by simp [Offered]⟩
  offered := by simp [Offered]
  nodup := fun _ => s.nodup_values n

theorem follows_addUnshadowed (s : Store) (found more : List DependencyId) :
    s.Follows found more (s.addUnshadowed found more) := by
  unfold addUnshadowed
  induction more generalizing found with
  | nil => exact .refl s found
  | cons id more ih =>
    rw [List.foldl_cons]
    -- the test compares the dependencies too, but equal ones have equal specs
    have hshadowed : (found.any fun seen =>
        seen = id || (s.dependency seen).unversioned = (s.dependency id).unversioned) = true ↔
          s.Offered found (s.dependency id).unversioned := by
      simp only [List.any_eq_true, Bool.or_eq_true, decide_eq_true_eq, Offered]
      constructor
      · rintro ⟨seen, hseen, rfl | heq⟩
        · exact ⟨seen, hseen, rfl⟩
        · exact ⟨seen, hseen, heq⟩
      · rintro ⟨seen, hseen, heq⟩
        exact ⟨seen, hseen, .inr heq⟩
    by_cases hoffered : s.Offered found (s.dependency id).unversioned
    · dsimp only
      rw [if_pos (hshadowed.2 hoffered)]
      exact (Follows.shadowed hoffered).trans (ih found)
    · dsimp only
      rw [if_neg (mt hshadowed.1 hoffered)]
      exact (Follows.taken hoffered).trans (ih (found ++ [id]))

/-- What one namespace after the other adds to the dependencies that were found. -/
def through (s : Store) (found : List DependencyId) (ns : List Namespace) : List DependencyId :=
  ns.foldl (fun found a => s.addUnshadowed found (s.values a)) found

theorem follows_through (s : Store) (found : List DependencyId) (ns : List Namespace) :
    s.Follows found (ns.flatMap s.values) (s.through found ns) := by
  induction ns generalizing found with
  | nil => exact .refl s found
  | cons a ns ih =>
    rw [List.flatMap_cons]
    exact (s.follows_addUnshadowed found (s.values a)).trans (ih _)

/-- Each namespace of the chain follows those that are nearer, and is followed by those farther. -/
theorem exists_follows {ns nearer farther : List Namespace}
    (h : n :: ns = nearer ++ m :: farther) :
    ∃ before between, s.Follows [] (nearer.flatMap s.values) before ∧
      s.Follows before (s.values m) between ∧
      s.Follows between (farther.flatMap s.values) (s.through (s.values n) ns) := by
  cases nearer with
  | nil =>
    obtain ⟨rfl, rfl⟩ := List.cons.inj h
    exact ⟨[], s.values n, .refl s [], s.follows_values n, s.follows_through _ ns⟩
  | cons k nearer =>
    rw [List.cons_append] at h
    obtain ⟨rfl, rfl⟩ := List.cons.inj h
    refine ⟨s.through (s.values n) nearer, _, ?_, s.follows_addUnshadowed _ (s.values m), ?_⟩
    -- what the namespace itself has comes first, and the nearer ancestors add to it
    · rw [List.flatMap_cons]
      exact (s.follows_values n).trans (s.follows_through _ nearer)
    · unfold through
      rw [List.foldl_append, List.foldl_cons]
      exact s.follows_through _ farther

/-- An unversioned spec that the namespace or one of those above has is found, and all that is found
with it is of the nearest that has it. -/
theorem through_nearest {ns nearer farther : List Namespace} {unversioned : Option String}
    (h : n :: ns = nearer ++ m :: farther)
    (hfree : ∀ k ∈ nearer, ¬s.Offered (s.values k) unversioned)
    (hoffered : s.Offered (s.values m) unversioned) :
    s.Offered (s.through (s.values n) ns) unversioned ∧
      ∀ id ∈ s.through (s.values n) ns, (s.dependency id).unversioned = unversioned →
        id ∈ s.values m := by
  obtain ⟨before, between, hbefore, hm, hafter⟩ := exists_follows (s := s) h
  -- where the nearest namespace that has it is reached, it is new
  have hfirst : ¬s.Offered before unversioned := by
    rw [hbefore.offered]
    rintro (⟨id, hid, _⟩ | ⟨id, hid, heq⟩)
    · exact absurd hid List.not_mem_nil
    · obtain ⟨k, hk, hid⟩ := List.mem_flatMap.1 hid
      exact hfree k hk ⟨id, hid, heq⟩
  refine ⟨(hafter.offered _).2 (.inl ((hm.offered _).2 (.inr hoffered))), ?_⟩
  exact fun id hid heq => hm.mem_of_offered hafter hfirst hoffered hid heq

end DependencyScope.Store
