/-
  DependencyScope.Proofs.Requirement.Normal — joined conditions, what they accept and how they nest.

  Joining splices in the children of a joined condition of the same kind.  So a condition that is
  built by joining and negating never has a conjunction directly below a conjunction or a
  disjunction directly below a disjunction, and every join in it has two children at least.

  Main results:
    * `accepts_conjunction`, `accepts_disjunction` — splicing does not show in what is accepted;
    * `Condition.Normal` — the nesting just described;
    * `Normal.conjunction`, `Normal.disjunction` — joining normal conditions gives a normal one.
-/
import DependencyScope.Requirement.Condition

namespace DependencyScope.Condition

/-! ## §1. Splicing. -/

/-- What a condition contributes to a conjunction. -/
def conjuncts : Condition → List Condition
  | .all inner => inner
  | child => [child]

/-- What a condition contributes to a disjunction. -/
def disjuncts : Condition → List Condition
  | .any inner => inner
  | child => [child]

theorem conjunction_singleton (c : Condition) : conjunction [c] = c := rfl

theorem disjunction_singleton (c : Condition) : disjunction [c] = c := rfl

theorem conjunction_cons_cons (c d : Condition) (rest : List Condition) :
    conjunction (c :: d :: rest) = .all ((c :: d :: rest).flatMap conjuncts) := rfl

theorem disjunction_cons_cons (c d : Condition) (rest : List Condition) :
    disjunction (c :: d :: rest) = .any ((c :: d :: rest).flatMap disjuncts) := rfl

/-! ## §2. What joined conditions accept. -/

theorem accepts_all (v : Version) (children : List Condition) :
    (Condition.all children).accepts v = children.all (accepts v) := by
  rw [← acceptsAll_eq]
  rfl

theorem accepts_any (v : Version) (children : List Condition) :
    (Condition.any children).accepts v = children.any (accepts v) := by
  rw [← acceptsAny_eq]
  rfl

theorem all_conjuncts (v : Version) (c : Condition) :
    c.conjuncts.all (accepts v) = c.accepts v := by
  cases c with
  | all inner => exact (accepts_all v inner).symm
  | literal _ _ => simp [conjuncts]
  | any _ => simp [conjuncts]
  | negation _ => simp [conjuncts]

theorem any_disjuncts (v : Version) (c : Condition) :
    c.disjuncts.any (accepts v) = c.accepts v := by
  cases c with
  | any inner => exact (accepts_any v inner).symm
  | literal _ _ => simp [disjuncts]
  | all _ => simp [disjuncts]
  | negation _ => simp [disjuncts]

/-- A conjunction accepts what all its members accept. -/
theorem accepts_conjunction (v : Version) :
    ∀ cs : List Condition, (conjunction cs).accepts v = cs.all (accepts v)
  | [] => rfl
  | [c] => by simp [conjunction_singleton]
  | c :: d :: rest => by
    rw [conjunction_cons_cons, accepts_all, List.all_flatMap]
    simp only [all_conjuncts]

/-- A disjunction accepts what one of its members accepts. -/
theorem accepts_disjunction (v : Version) :
    ∀ cs : List Condition, (disjunction cs).accepts v = cs.any (accepts v)
  | [] => rfl
  | [c] => by simp [disjunction_singleton]
  | c :: d :: rest => by
    rw [disjunction_cons_cons, accepts_any, List.any_flatMap]
    simp only [any_disjuncts]

/-! ## §3. Normal conditions. -/

/-- Every join has two children at least and none of its own kind. -/
inductive Normal : Condition → Prop
  | literal (comparator : Comparator) (v : Version) : Normal (.literal comparator v)
  | negation {child : Condition} : Normal child → Normal (.negation child)
  | all {children : List Condition} :
      2 ≤ children.length → (∀ c ∈ children, Normal c) →
      (∀ c ∈ children, ∀ inner, c ≠ .all inner) → Normal (.all children)
  | any {children : List Condition} :
      2 ≤ children.length → (∀ c ∈ children, Normal c) →
      (∀ c ∈ children, ∀ inner, c ≠ .any inner) → Normal (.any children)

/-- Splicing loses no children, as long as every member contributes one. -/
theorem two_le_length_flatMap {split : Condition → List Condition} {c d : Condition}
    {rest : List Condition} (hc : 1 ≤ (split c).length) (hd : 1 ≤ (split d).length) :
    2 ≤ ((c :: d :: rest).flatMap split).length := by
  simp only [List.flatMap_cons, List.length_append]
  omega

/-- What a normal condition contributes to a conjunction is normal, is no conjunction, and is there. -/
theorem Normal.conjuncts {c : Condition} (h : Normal c) :
    1 ≤ c.conjuncts.length ∧ ∀ p ∈ c.conjuncts, Normal p ∧ ∀ inner, p ≠ .all inner := by
  cases h with
  | all hlength hnormal hkind =>
    exact ⟨Nat.le_of_succ_le hlength, fun p hp => ⟨hnormal p hp, hkind p hp⟩⟩
  | literal comparator v => simp [Condition.conjuncts, Normal.literal]
  | negation hchild => simp [Condition.conjuncts, Normal.negation hchild]
  | any hlength hnormal hkind => simp [Condition.conjuncts, Normal.any hlength hnormal hkind]

/-- What a normal condition contributes to a disjunction is normal, is no disjunction, and is there. -/
theorem Normal.disjuncts {c : Condition} (h : Normal c) :
    1 ≤ c.disjuncts.length ∧ ∀ p ∈ c.disjuncts, Normal p ∧ ∀ inner, p ≠ .any inner := by
  cases h with
  | any hlength hnormal hkind =>
    exact ⟨Nat.le_of_succ_le hlength, fun p hp => ⟨hnormal p hp, hkind p hp⟩⟩
  | literal comparator v => simp [Condition.disjuncts, Normal.literal]
  | negation hchild => simp [Condition.disjuncts, Normal.negation hchild]
  | all hlength hnormal hkind => simp [Condition.disjuncts, Normal.all hlength hnormal hkind]

/-- A conjunction of normal conditions is normal. -/
theorem Normal.conjunction :
    ∀ {cs : List Condition}, cs ≠ [] → (∀ c ∈ cs, Normal c) → Normal (conjunction cs)
  | [], hne, _ => absurd rfl hne
  | [c], _, h => h c (by simp)
  | c :: d :: rest, _, h => by
    -- what is spliced in stood below a conjunction, so it is none
    have hparts : ∀ p ∈ (c :: d :: rest).flatMap Condition.conjuncts,
        Normal p ∧ ∀ inner, p ≠ .all inner := by
      intro p hp
      obtain ⟨q, hq, hpq⟩ := List.mem_flatMap.1 hp
      exact (h q hq).conjuncts.2 p hpq
    rw [conjunction_cons_cons]
    refine .all ?_ (fun p hp => (hparts p hp).1) (fun p hp => (hparts p hp).2)
    exact two_le_length_flatMap (h c (by simp)).conjuncts.1 (h d (by simp)).conjuncts.1

/-- A disjunction of normal conditions is normal. -/
theorem Normal.disjunction :
    ∀ {cs : List Condition}, cs ≠ [] → (∀ c ∈ cs, Normal c) → Normal (disjunction cs)
  | [], hne, _ => absurd rfl hne
  | [c], _, h => h c (by simp)
  | c :: d :: rest, _, h => by
    have hparts : ∀ p ∈ (c :: d :: rest).flatMap Condition.disjuncts,
        Normal p ∧ ∀ inner, p ≠ .any inner := by
      intro p hp
      obtain ⟨q, hq, hpq⟩ := List.mem_flatMap.1 hp
      exact (h q hq).disjuncts.2 p hpq
    rw [disjunction_cons_cons]
    refine .any ?_ (fun p hp => (hparts p hp).1) (fun p hp => (hparts p hp).2)
    exact two_le_length_flatMap (h c (by simp)).disjuncts.1 (h d (by simp)).disjuncts.1

/-- A conjunction of two normal conditions or more is composed. -/
theorem isComposed_conjunction {c d : Condition} {rest : List Condition}
    (h : ∀ p ∈ c :: d :: rest, Normal p) : (conjunction (c :: d :: rest)).isComposed = true := by
  rw [conjunction_cons_cons]
  exact decide_eq_true
    (two_le_length_flatMap (h c (by simp)).conjuncts.1 (h d (by simp)).conjuncts.1)

/-- A disjunction of two normal conditions or more is composed. -/
theorem isComposed_disjunction {c d : Condition} {rest : List Condition}
    (h : ∀ p ∈ c :: d :: rest, Normal p) : (disjunction (c :: d :: rest)).isComposed = true := by
  rw [disjunction_cons_cons]
  exact decide_eq_true
    (two_le_length_flatMap (h c (by simp)).disjuncts.1 (h d (by simp)).disjuncts.1)

end DependencyScope.Condition
