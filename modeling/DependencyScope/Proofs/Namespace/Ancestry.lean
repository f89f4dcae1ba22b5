/-
  DependencyScope.Proofs.Namespace.Ancestry — the ancestors of a namespace are its chain of parents.

  A walk along settled links takes each link that was set at most once.  All the other links are
  implied by names and lead to names with fewer parts.  So a chain along settled links is not longer
  than the bound of such a walk.  A namespace at the end of one may follow the active project.

  Whether it does is found out by a walk from the project's namespace, which finds the parents of
  others by the same means.  Whatever is marked on the way, and however deep the search may go, that
  walk goes along settled links to the end of the chain and no further: a namespace there that
  follows the project as well is on the chain itself, and so it is parentless, whether this is found
  out anew or known from its mark.

  Main definitions:
    * `Store.settledUp`, `Store.up` — the parents along settled links, and the parents;
    * `Store.Ascending` — no namespace is marked, and all chains along settled links end.

  Main results:
    * `Ascends.length_le_climbBound` — the bound of a walk along settled links;
    * `Store.answer_walk` — a walk finds the chain, if its bound allows;
    * `Store.answer_parentWithin_of_mem` — the parents on the chain of the project's namespace;
    * `Store.Ascending.ascends_ancestors` — the ancestors are the whole chain of parents.
-/
import DependencyScope.Proofs.Namespace.Chain
import DependencyScope.Proofs.Session.Discreet
import DependencyScope.Proofs.Store.Containment
import Mathlib.Algebra.Order.BigOperators.Group.List
import Mathlib.Algebra.Order.Ring.Nat

namespace DependencyScope

open DependencyScope.Text

namespace Store

/-! ## §1. Parents. -/

/-- The parent to which a settled link leads. -/
def settledUp (s : Store) (n : Namespace) : Option Namespace := n.settledParent.answer s

/-- The parent. -/
def up (s : Store) (n : Namespace) : Option Namespace := n.parent.answer s

/-- The namespace of the active project. -/
def currentScope (s : Store) : Namespace := .registered s.currentName s.generation

variable {s : Store} {n m : Namespace} {ms : List Namespace}

theorem settledUp_eq (s : Store) (n : Namespace) :
    s.settledUp n = if n.isRoot then none else
      match s.linkOf n with
      | .current => none
      | .handle parent => some parent
      | .named name => if s.attached n then some (.registered name s.generation) else none
      | .implied =>
        if s.attached n then (impliedParent? n.name).map (.registered · s.generation) else none := by
  unfold settledUp Namespace.settledParent
  split
  · rfl
  · rw [Reading.answer_view_bind]
    cases s.linkOf n with
    | current => rfl
    | handle parent => rfl
    | named name =>
      dsimp only
      rw [Reading.answer_view_bind]
      split <;> rfl
    | implied =>
      dsimp only
      rw [Reading.answer_view_bind]
      split
      · cases impliedParent? n.name <;> rfl
      · rfl

theorem settledUp_of_handle {parent : Namespace} (h : s.linkOf n = .handle parent) :
    s.settledUp n = if n.isRoot then none else some parent := by
  rw [settledUp_eq, h]

/-- A link that was not set by handle leads to a name of the registry or nowhere. -/
theorem settledUp_cases (s : Store) (n : Namespace) :
    (∃ parent, s.linkOf n = .handle parent) ∨ s.settledUp n = none ∨
      s.attached n ∧ ∃ name, s.settledUp n = some (.registered name s.generation) := by
  rw [settledUp_eq]
  cases n.isRoot with
  | true => exact .inr (.inl rfl)
  | false =>
    rw [if_neg Bool.false_ne_true]
    cases s.linkOf n with
    | handle parent => exact .inl ⟨parent, rfl⟩
    | current => exact .inr (.inl rfl)
    | named name =>
      cases s.attached n with
      | true => exact .inr (.inr ⟨rfl, name, rfl⟩)
      | false => exact .inr (.inl rfl)
    | implied =>
      cases s.attached n with
      | true =>
        cases impliedParent? n.name with
        | some name => exact .inr (.inr ⟨rfl, name, rfl⟩)
        | none => exact .inr (.inl rfl)
      | false => exact .inr (.inl rfl)

/-- A namespace that does not follow the active project has the parent that its link leads to. -/
theorem answer_parentWithin_of_settled (h : s.followsCurrent n = false) (depth : Nat) :
    (Namespace.parentWithin depth n).answer s = s.settledUp n := by
  cases depth with
  | zero => rfl
  | succ depth =>
    unfold Namespace.parentWithin
    rw [Reading.answer_view_bind, h]
    rfl

theorem up_eq_parentWithin (s : Store) (n : Namespace) :
    s.up n = (Namespace.parentWithin (s.links.size + 1) n).answer s := by
  unfold up Namespace.parent
  rw [Reading.answer_view_bind]

theorem up_of_settled (h : s.followsCurrent n = false) : s.up n = s.settledUp n := by
  rw [up_eq_parentWithin, answer_parentWithin_of_settled h]

/-- A link that follows the active project is not settled. -/
theorem settledUp_of_follows (h : s.followsCurrent n = true) : s.settledUp n = none := by
  unfold followsCurrent at h
  obtain ⟨-, hlink⟩ := Bool.and_eq_true_iff.1 h
  rw [settledUp_eq, of_decide_eq_true hlink]
  exact ite_self none

theorem up_of_isRoot (h : n.isRoot) : s.up n = none := by
  have hsettled : s.followsCurrent n = false := by simp [followsCurrent, h]
  rw [up_of_settled hsettled, settledUp_eq, if_pos h]

/-- Where a settled link leads somewhere, the parent is there. -/
theorem up_of_settledUp (h : s.settledUp n = some m) : s.up n = some m := by
  cases hfollows : s.followsCurrent n with
  | true => exact nomatch (settledUp_of_follows hfollows).symm.trans h
  | false => exact (up_of_settled hfollows).trans h

/-! ## §2. The length of chains along settled links. -/

/-- How many implied links can follow each other upwards from a namespace. -/
def impliedDepth (n : Namespace) : Nat := if n.isRoot then 0 else nameDepth n.name

/-- What a namespace adds to the length of a chain: a link that was set, and the implied links after
it. -/
def linkCost (s : Store) (n : Namespace) : Nat :=
  if n ∈ s.links then linkDepth (s.linkOf n) + 1 else 0

/-- The links that were set, each at its namespace. -/
theorem map_linkOf_keys (s : Store) : s.links.keys.map s.linkOf = s.links.values := by
  rw [values_eq_map, ← Std.TreeMap.map_fst_toList_eq_keys, List.map_map]
  refine List.map_congr_left fun pair hpair => ?_
  have hlink := Std.TreeMap.mem_toList_iff_getElem?_eq_some.1 hpair
  show s.links.getD pair.1 .implied = pair.2
  rw [Std.TreeMap.getD_eq_getD_getElem?, hlink, Option.getD_some]

theorem impliedDepth_le (n : Namespace) : impliedDepth n ≤ nameDepth n.name := by
  unfold impliedDepth
  split
  · exact Nat.zero_le _
  · exact Nat.le_refl _

/-- An implied link leads to a namespace with fewer of them above it. -/
theorem impliedDepth_of_impliedParent? {name : String} (h : impliedParent? n.name = some name)
    (hroot : n.isRoot = false) (generation : Nat) :
    impliedDepth (.registered name generation) < impliedDepth n := by
  have hn : impliedDepth n = colons n.name + 1 := by
    unfold impliedDepth
    rw [hroot]
    rfl
  rw [hn]
  rcases (colons_impliedParent? h).2 with rfl | hlt
  · have hzero : impliedDepth (.registered rootName generation) = 0 := rfl
    omega
  · have hle := impliedDepth_le (.registered name generation)
    have hdepth : nameDepth (Namespace.registered name generation).name = colons name + 1 := rfl
    omega

/-- Each step upwards is paid for by a link that was set, or by the parts of the name. -/
theorem impliedDepth_lt (h : s.settledUp n = some m) :
    impliedDepth m < impliedDepth n + s.linkCost n := by
  have himplied : impliedDepth n ≤ impliedDepth n + s.linkCost n := Nat.le_add_right _ _
  have hset : s.linkOf n ≠ .implied → s.linkCost n = linkDepth (s.linkOf n) + 1 := by
    intro hne
    refine if_pos ?_
    by_contra hunset
    exact hne (Std.TreeMap.getD_eq_fallback hunset)
  rw [settledUp_eq] at h
  split at h
  · exact nomatch h
  · next hroot =>
    split at h
    · exact nomatch h
    -- a link to a namespace or to a name was set, and is paid for by itself
    · next parent hlink =>
      obtain rfl := Option.some.inj h
      have hle := impliedDepth_le parent
      have hcost := hset (by simp [hlink])
      have hdepth : linkDepth (.handle parent) = nameDepth parent.name := rfl
      rw [hlink, hdepth] at hcost
      omega
    · next name hlink =>
      split at h
      · obtain rfl := Option.some.inj h
        have hle := impliedDepth_le (.registered name s.generation)
        have hcost := hset (by simp [hlink])
        have hdepth : linkDepth (.named name)
            = nameDepth (Namespace.registered name s.generation).name := rfl
        rw [hlink, hdepth] at hcost
        omega
      · exact nomatch h
    -- an implied link leads to a name with fewer parts
    · split at h
      · obtain ⟨name, hname, rfl⟩ := Option.map_eq_some_iff.1 h
        have hlt := impliedDepth_of_impliedParent? hname (by simpa using hroot) s.generation
        omega
      · exact nomatch h

theorem length_le_sum_linkCost (h : Ascends s.settledUp n ms) :
    ms.length ≤ impliedDepth n + ((n :: ms).map s.linkCost).sum := by
  induction h with
  | top => simp
  | step hstep _ ih =>
    have hlt := impliedDepth_lt hstep
    rw [List.map_cons, List.sum_cons, List.length_cons]
    omega

/-- Different namespaces have different links, so together they cost no more than all links do. -/
theorem sum_linkCost_le {ns : List Namespace} (h : ns.Nodup) :
    (ns.map s.linkCost).sum ≤ (s.links.values.map fun link => linkDepth link + 1).sum := by
  have hkeys : ∀ k ∈ s.links.keys, s.linkCost k = linkDepth (s.linkOf k) + 1 :=
    fun k hk => if_pos (Std.TreeMap.mem_keys.1 hk)
  have hset : (ns.map s.linkCost).sum = ((ns.filter (· ∈ s.links)).map s.linkCost).sum := by
    clear h
    induction ns with
    | nil => rfl
    | cons n ns ih =>
      rw [List.map_cons, List.sum_cons, ih, List.filter_cons]
      by_cases hn : n ∈ s.links
      · simp [hn]
      · simp [linkCost, hn]
  have hmem : ∀ n ∈ ns.filter (· ∈ s.links), n ∈ s.links.keys := fun n hn =>
    Std.TreeMap.mem_keys.2 (by simpa using (List.mem_filter.1 hn).2)
  have hnodup : (ns.filter (· ∈ s.links)).Nodup := h.filter _
  obtain ⟨ks, hperm, hsublist⟩ := hnodup.subperm hmem
  rw [hset, ← (hperm.map s.linkCost).sum_nat, ← map_linkOf_keys, List.map_map]
  calc (ks.map s.linkCost).sum ≤ (s.links.keys.map s.linkCost).sum :=
        (hsublist.map _).sum_le_sum fun _ _ => Nat.zero_le _
    _ = (s.links.keys.map ((fun link => linkDepth link + 1) ∘ s.linkOf)).sum := by
        rw [List.map_congr_left hkeys]
        rfl

theorem climbBound_eq (s : Store) (n : Namespace) :
    s.climbBound n
      = nameDepth n.name + (s.links.values.map fun link => linkDepth link + 1).sum := by
  unfold climbBound
  induction s.links.values with
  | nil => rfl
  | cons link links ih =>
    rw [List.foldr_cons, List.map_cons, List.sum_cons, ih]
    omega

end Store

/-- A chain along settled links is not longer than the bound of a walk along them. -/
theorem Ascends.length_le_climbBound {s : Store} {n : Namespace} {ms : List Namespace}
    (h : Ascends s.settledUp n ms) : ms.length ≤ s.climbBound n := by
  have hsum := Store.length_le_sum_linkCost h
  have hcost := Store.sum_linkCost_le (s := s) h.nodup
  have hdepth := Store.impliedDepth_le n
  rw [Store.climbBound_eq]
  omega

namespace Store

/-! ## §3. The walks. -/

variable {s : Store} {n m : Namespace} {ms : List Namespace}

/-- Marks make no difference to settled links, nor to the bound of a walk. -/
@[simp] theorem settledUp_marked (s : Store) (m : Namespace) :
    (s.marked m).settledUp = s.settledUp := by
  funext n
  rw [settledUp_eq, settledUp_eq]
  rfl

@[simp] theorem walkBound_marked (s : Store) (n m : Namespace) :
    (s.marked m).walkBound n = s.walkBound n := rfl

section Walks

variable {parent : Namespace → Reading (Option Namespace)} [∀ x, Reading.Discreet (parent x)]

/-- A walk that has come to `m` finds the rest of the chain, if its bound allows: there is nothing
on the chain that comes twice. -/
theorem answer_walk {rest : List Namespace}
    (h : Ascends (fun x => (parent x).answer s) m rest) {found : List Namespace} {bound : Nat}
    (hnodup : (n :: found ++ rest).Nodup) (hbound : rest.length ≤ bound) :
    (Namespace.walk parent n bound found ((parent m).answer s)).answer s = found ++ rest := by
  induction h generalizing found bound with
  | @top m htop =>
    have hend : (parent m).answer s = none := htop
    rw [hend, List.append_nil]
    cases bound <;> rfl
  | @step m k rest hstep _ ih =>
    have hnext : (parent m).answer s = some k := hstep
    have hnodup' : (n :: (found ++ [k]) ++ rest).Nodup := by simpa using hnodup
    have hnew : ¬(decide (k = n) || found.contains k) = true := by
      have hk : k ∉ n :: found := fun hmem =>
        (List.nodup_append.1 hnodup).2.2 k hmem k List.mem_cons_self rfl
      simpa using hk
    cases bound with
    | zero => exact absurd hbound (Nat.not_succ_le_zero _)
    | succ bound =>
      rw [hnext, Namespace.walk, if_neg hnew, Reading.answer_bind,
        ih hnodup' (Nat.le_of_succ_le_succ hbound), List.append_assoc]
      rfl

/-- A walk finds the whole chain of parents. -/
theorem answer_ancestorsBy (h : Ascends (fun x => (parent x).answer s) n ms)
    (hbound : ms.length ≤ s.walkBound n) : (Namespace.ancestorsBy parent n).answer s = ms := by
  unfold Namespace.ancestorsBy
  rw [Reading.answer_view_bind, Reading.answer_bind]
  exact answer_walk h h.nodup hbound

/-- So it says which namespaces enclose which. -/
theorem answer_enclosesBy (h : Ascends (fun x => (parent x).answer s) m ms)
    (hbound : ms.length ≤ s.walkBound m) :
    (Namespace.enclosesBy parent n m).answer s = decide (n ∈ m :: ms) := by
  unfold Namespace.enclosesBy
  split
  · next heq => simp [heq]
  · next hne =>
    have hne' : ¬n = m := fun heq => hne heq.symm
    rw [Reading.answer_bind, answer_ancestorsBy h hbound, Reading.answer_pure]
    simp [hne', List.contains_eq_mem]

end Walks

/-! ## §4. The way up from the active project. -/

variable {ks : List Namespace}

theorem length_le_walkBound (h : Ascends s.settledUp n ms) : ms.length ≤ s.walkBound n := by
  have hclimb := h.length_le_climbBound
  unfold walkBound
  omega

/-- A namespace that follows the active project is parentless if it is marked, or if the project's
namespace lies inside it, provided that the parents on the chain of that namespace are the settled
ones. -/
theorem answer_parentWithin_of_follows {depth : Nat} (hfollows : s.followsCurrent n = true)
    (hks : Ascends s.settledUp s.currentScope ks)
    (hchain : ∀ x ∈ s.currentScope :: ks,
      (Namespace.parentWithin depth x).answer (s.marked n) = s.settledUp x) :
    (Namespace.parentWithin (depth + 1) n).answer s
      = if s.attached n ∧ n ∉ s.resolving ∧ n ∉ s.currentScope :: ks
          then some s.currentScope else none := by
  -- the walk goes up the chain, since its parents are found in the marked store
  have hascends : Ascends (fun x => (Namespace.parentWithin depth x).answer (s.marked n))
      s.currentScope ks := hks.congr hchain
  have hbound : ks.length ≤ s.walkBound s.currentScope := length_le_walkBound hks
  have hencloses : (Namespace.enclosesBy (Namespace.parentWithin depth) n s.currentScope).answer
      (s.marked n) = decide (n ∈ s.currentScope :: ks) :=
    answer_enclosesBy hascends hbound
  unfold Namespace.parentWithin
  rw [Reading.answer_view_bind, hfollows, if_pos rfl, Reading.answer_view_bind]
  split
  · next hattached =>
    rw [Reading.answer_view_bind]
    split
    · next hmarked => simp [List.contains_iff_mem.1 hmarked]
    · next hmarked =>
      have hfree : n ∉ s.resolving := fun hmem => hmarked (List.contains_iff_mem.2 hmem)
      have hscope : Namespace.currentScope.answer (s.marked n) = s.currentScope := rfl
      rw [Reading.answer_bind, Reading.answer_marking, Reading.answer_bind, hscope,
        Reading.answer_bind, hencloses, Reading.answer_pure]
      split
      · next hmem => simp [of_decide_eq_true hmem]
      · next hmem =>
        have hnot : n ∉ s.currentScope :: ks := fun h => hmem (decide_eq_true h)
        rw [if_pos ⟨hattached, hfree, hnot⟩]
        rfl
  · next hattached => simp [hattached]

/-- On the chain of the active project's namespace the parents are the settled ones, whatever is
marked and however deep the search may go. -/
theorem answer_parentWithin_of_mem (depth : Nat) : ∀ {s : Store},
    Ascends s.settledUp s.currentScope ks → ∀ x ∈ s.currentScope :: ks,
      (Namespace.parentWithin depth x).answer s = s.settledUp x := by
  induction depth with
  | zero => exact fun _ _ _ => rfl
  | succ depth ih =>
    intro s hks x hx
    cases hfollows : s.followsCurrent x with
    | false => exact answer_parentWithin_of_settled hfollows _
    | true =>
      -- one more mark leaves the chain as it is
      have hmarked : Ascends (s.marked x).settledUp (s.marked x).currentScope ks := by
        rw [settledUp_marked]
        exact hks
      have hchain := ih hmarked
      rw [settledUp_marked] at hchain
      rw [answer_parentWithin_of_follows hfollows hks hchain, settledUp_of_follows hfollows]
      exact if_neg fun hfree => hfree.2.2 hx

theorem up_eq (hmarks : s.resolving = []) (hks : Ascends s.settledUp s.currentScope ks)
    (n : Namespace) :
    s.up n = if s.followsCurrent n then
        if s.attached n ∧ n ∉ s.currentScope :: ks then some s.currentScope else none
      else s.settledUp n := by
  cases hfollows : s.followsCurrent n with
  | false => exact up_of_settled hfollows
  | true =>
    have hmarked : Ascends (s.marked n).settledUp (s.marked n).currentScope ks := by
      rw [settledUp_marked]
      exact hks
    have hchain := answer_parentWithin_of_mem s.links.size hmarked
    rw [settledUp_marked] at hchain
    rw [up_eq_parentWithin, answer_parentWithin_of_follows hfollows hks hchain, hmarks]
    simp

/-! ## §5. Chains of parents. -/

/-- No namespace is marked, and all chains along settled links come to an end. -/
structure Ascending (s : Store) : Prop where
  unmarked : s.resolving = []
  ends : ∀ n, ∃ ms, Ascends s.settledUp n ms

namespace Ascending

/-- The chain of the active project's namespace goes on with no other project: a namespace at its
end that follows the project is on the chain itself. -/
theorem ascends_currentScope (h : s.Ascending) (hks : Ascends s.settledUp s.currentScope ks) :
    Ascends s.up s.currentScope ks := by
  refine hks.congr fun x hx => ?_
  rw [up_eq h.unmarked hks]
  split
  · next hfollows => rw [if_neg fun hfree => hfree.2 hx, settledUp_of_follows hfollows]
  · rfl

/-- The chain of parents goes along settled links first, and then at most once along the chain of
the active project's namespace. -/
theorem exists_ascends (h : s.Ascending) (hms : Ascends s.settledUp n ms) :
    ∃ ks, Ascends s.up n (ms ++ ks) ∧ ks.length ≤ s.climbBound s.currentScope + 1 := by
  induction hms with
  | @top n htop =>
    obtain ⟨ks, hks⟩ := h.ends s.currentScope
    have hcurrent := h.ascends_currentScope hks
    cases hup : s.up n with
    | none => exact ⟨[], .top hup, Nat.zero_le _⟩
    | some m =>
      have hm : m = s.currentScope := by
        rw [up_eq h.unmarked hks, htop] at hup
        split at hup
        · split at hup
          · exact (Option.some.inj hup).symm
          · exact nomatch hup
        · exact nomatch hup
      have hlength := hks.length_le_climbBound
      rw [hm] at hup
      refine ⟨s.currentScope :: ks, .step hup hcurrent, ?_⟩
      rw [List.length_cons]
      omega
  | step hstep _ ih =>
    obtain ⟨ks, hks, hlength⟩ := ih
    exact ⟨ks, .step (up_of_settledUp hstep) hks, hlength⟩

/-- The ancestors are the whole chain of parents. -/
theorem ascends_ancestors (h : s.Ascending) (n : Namespace) :
    Ascends s.up n (n.ancestors.answer s) := by
  obtain ⟨ms, hms⟩ := h.ends n
  obtain ⟨ks, hks, hlength⟩ := h.exists_ascends hms
  have hsettled := hms.length_le_climbBound
  have hbound : (ms ++ ks).length ≤ s.walkBound n := by
    have hcurrent : s.walkBound n = s.climbBound n + s.climbBound s.currentScope + 1 := rfl
    rw [List.length_append, hcurrent]
    omega
  have hwalk : n.ancestors.answer s = ms ++ ks := answer_ancestorsBy hks hbound
  rw [hwalk]
  exact hks

/-- The chain along settled links is the beginning of the ancestors. -/
theorem mem_ancestors (h : s.Ascending) (hms : Ascends s.settledUp n ms) (hm : m ∈ ms) :
    m ∈ n.ancestors.answer s := by
  obtain ⟨ks, hks, -⟩ := h.exists_ascends hms
  rw [(h.ascends_ancestors n).unique hks]
  exact List.mem_append_left ks hm

end Ascending

end Store

end DependencyScope
