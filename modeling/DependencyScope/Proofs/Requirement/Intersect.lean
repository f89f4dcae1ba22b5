/-
  DependencyScope.Proofs.Requirement.Intersect — the suggestion of joined conditions, and the algebra
  of intersections.

  Splicing keeps the order of the children, and a default is looked for among them from the right.
  So it does not show in a suggestion which children were spliced in, and of two requirements that
  are intersected the right one has the say.

      (>=1 | =2) & >3   suggests 2        >=1 & (=2 >3)   suggests 2

  Main results:
    * `Condition.anchor?_conjunction`, `Condition.anchor?_disjunction` — splicing does not show in
      what is suggested;
    * `Condition.conjunction_assoc` — conjunctions may be bracketed either way;
    * `Requirement.intersect_laws` — acceptance, suggestion and bracketing of intersections.
-/
import DependencyScope.Proofs.Version.Preorder
import DependencyScope.Proofs.Requirement.Normal
import DependencyScope.Requirement.Basic

namespace DependencyScope

namespace Condition

/-! ## §1. The last anchor of a list. -/

@[simp] theorem lastAnchor?_nil : lastAnchor? [] = none := rfl

@[simp] theorem lastAnchor?_cons (c : Condition) (rest : List Condition) :
    lastAnchor? (c :: rest) = (lastAnchor? rest).or c.anchor? := rfl

theorem lastAnchor?_append (cs ds : List Condition) :
    lastAnchor? (cs ++ ds) = (lastAnchor? ds).or (lastAnchor? cs) := by
  induction cs with
  | nil => simp
  | cons c cs ih => simp [ih, Option.or_assoc]

/-- Splitting members into lists that suggest the same leaves the suggestion as it is. -/
theorem lastAnchor?_flatMap {split : Condition → List Condition}
    (h : ∀ c, lastAnchor? (split c) = c.anchor?) (cs : List Condition) :
    lastAnchor? (cs.flatMap split) = lastAnchor? cs := by
  induction cs with
  | nil => rfl
  | cons c cs ih => rw [List.flatMap_cons, lastAnchor?_append, ih, h, lastAnchor?_cons]

/-! ## §2. What joined conditions suggest. -/

theorem lastAnchor?_conjuncts (c : Condition) : lastAnchor? c.conjuncts = c.anchor? := by
  cases c <;> simp [conjuncts, anchor?]

theorem lastAnchor?_disjuncts (c : Condition) : lastAnchor? c.disjuncts = c.anchor? := by
  cases c <;> simp [disjuncts, anchor?]

/-- A conjunction suggests the last anchor of its members. -/
theorem anchor?_conjunction : ∀ cs : List Condition, (conjunction cs).anchor? = lastAnchor? cs
  | [] => rfl
  | [c] => by simp [conjunction_singleton]
  | c :: d :: rest => lastAnchor?_flatMap lastAnchor?_conjuncts (c :: d :: rest)

/-- A disjunction suggests the last anchor of its members. -/
theorem anchor?_disjunction : ∀ cs : List Condition, (disjunction cs).anchor? = lastAnchor? cs
  | [] => rfl
  | [c] => by simp [disjunction_singleton]
  | c :: d :: rest => lastAnchor?_flatMap lastAnchor?_disjuncts (c :: d :: rest)

/-! ## §3. Bracketing. -/

/-- A conjunction contributes to another one what its two members contribute. -/
theorem conjuncts_conjunction (c d : Condition) :
    (conjunction [c, d]).conjuncts = c.conjuncts ++ d.conjuncts := by
  simp [conjunction_cons_cons, conjuncts]

theorem conjunction_assoc (c d e : Condition) :
    conjunction [conjunction [c, d], e] = conjunction [c, conjunction [d, e]] := by
  have hleft : conjunction [conjunction [c, d], e]
      = .all ((c.conjuncts ++ d.conjuncts) ++ e.conjuncts) := by
    rw [conjunction_cons_cons, ← conjuncts_conjunction]
    simp
  have hright : conjunction [c, conjunction [d, e]]
      = .all (c.conjuncts ++ (d.conjuncts ++ e.conjuncts)) := by
    rw [conjunction_cons_cons, ← conjuncts_conjunction]
    simp
  rw [hleft, hright, List.append_assoc]

mutual

/-- Every condition has its own structure. -/
theorem sameAs_self : ∀ c : Condition, c.sameAs c = true
  | .literal comparator v => by simp [sameAs, Version.compare_self]
  | .all children => sameAllAs_self children
  | .any children => sameAllAs_self children
  | .negation child => sameAs_self child

theorem sameAllAs_self : ∀ cs : List Condition, sameAllAs cs cs = true
  | [] => rfl
  | c :: rest => by rw [sameAllAs, sameAs_self c, sameAllAs_self rest, Bool.and_self]

end

end Condition

/-! ## §4. Intersections. -/

namespace Requirement

variable (a b c : Requirement)

@[simp] theorem condition_intersect :
    (a.intersect b).condition = .conjunction [a.condition, b.condition] := rfl

/-- An intersection is met by the versions that meet both sides. -/
theorem accepts_intersect (v : Version) :
    (a.intersect b).accepts v = (a.accepts v && b.accepts v) := by
  simp [accepts, Condition.accepts_conjunction]

/-- An intersection suggests what its right side suggests, and else what its left side does. -/
theorem default?_intersect : (a.intersect b).default? = b.default?.or a.default? := by
  simp only [default?, condition_intersect, Condition.anchor?_conjunction,
    Condition.lastAnchor?_cons, Condition.lastAnchor?_nil, Option.none_or, Option.map_or]

/-- Intersections are met by what meets both sides, prefer the suggestion of the right side, and
have one structure however three of them are bracketed. -/
theorem intersect_laws :
    (∀ v, (a.intersect b).accepts v = (a.accepts v && b.accepts v)) ∧
    (∀ text, b.default? = some text → (a.intersect b).default? = some text) ∧
    (b.default? = none → (a.intersect b).default? = a.default?) ∧
    ((a.intersect b).intersect c).condition = (a.intersect (b.intersect c)).condition ∧
    ((a.intersect b).intersect c).condition.sameAs
      (a.intersect (b.intersect c)).condition = true := by
  have hassoc : ((a.intersect b).intersect c).condition
      = (a.intersect (b.intersect c)).condition :=
    Condition.conjunction_assoc a.condition b.condition c.condition
  refine ⟨accepts_intersect a b, fun text h => ?_, fun h => ?_, hassoc, ?_⟩
  · rw [default?_intersect, h, Option.some_or]
  · rw [default?_intersect, h, Option.none_or]
  · rw [hassoc]
    exact Condition.sameAs_self _

end Requirement

end DependencyScope
