/-
  DependencyScope.Proofs.Version.Preorder — how far the comparison of versions is a total preorder.

  Parts are totally ordered, and the comparison of versions turns around when its sides do.  It is
  not transitive: a release stage and a zero both equal a part that is missing, and a service pack
  is above it, while a zero is above every stage.

      1-release = 1 = 1.0,   but   1-release < 1.0

  That is the only way in which transitivity fails.  Three versions are *knotted* if two of them
  agree up to a place where the third has ended, one has a zero there and the other a release stage
  or a service pack, and nothing behind that place unties them.

  Main results:
    * `Part.compare` is a lawful total order;
    * `Knot.cycle`, `knot_of_cycle` — knots are exactly the cycles of the comparison;
    * `Version.compare_transitive_iff` — the comparison is a total preorder on a set of versions
      exactly if no three of them are knotted.
-/
import DependencyScope.Version.Parser
import Mathlib.Data.Set.Defs

namespace DependencyScope

/-! ## §1. The order of parts. -/

namespace Part

/-- What orders the parts of one tier that are no words. -/
def magnitude : Part → Nat
  | .number value => value
  | .stage known => known.rank
  | .word _ => 0

/-- What orders the words. -/
def wording : Part → String
  | .word text => text
  | .number _ | .stage _ => ""

/-- Parts compare by tier, then by magnitude, then by wording. -/
theorem compare_eq_compareLex :
    Part.compare
      = compareLex (compareOn tier) (compareLex (compareOn magnitude) (compareOn wording)) := by
  funext p q
  match p, q with
  | .number a, .number b => simp [Part.compare, compareLex, compareOn, tier, magnitude, wording]
  | .word a, .word b => simp [Part.compare, compareLex, compareOn, tier, magnitude, wording]
  | .stage a, .stage b => cases a <;> cases b <;> rfl
  | .stage a, .number _ | .stage a, .word _ => cases a <;> rfl
  | .number _, .stage b | .word _, .stage b => cases b <;> rfl
  | .number _, .word _ | .word _, .number _ => rfl

instance : Std.TransCmp Part.compare := by
  rw [compare_eq_compareLex]
  infer_instance

instance : Std.LawfulEqCmp Part.compare where
  compare_self := Std.ReflCmp.compare_self
  eq_of_compare {p q} h := by
    match p, q with
    | .number a, .number b => simpa [Part.compare] using h
    | .word a, .word b => simpa [Part.compare] using h
    | .stage a, .stage b =>
      cases a <;> cases b <;> first | rfl | simp [Part.compare, Stage.rank] at h
    | .stage a, .number _ | .stage a, .word _ =>
      cases a <;> simp [Part.compare, tier, Stage.rank] at h
    | .number _, .stage b | .word _, .stage b =>
      cases b <;> simp [Part.compare, tier, Stage.rank] at h
    | .number _, .word _ | .word _, .number _ => simp [Part.compare, tier] at h

theorem compare_swap (p q : Part) : q.compare p = (p.compare q).swap := Std.OrientedCmp.eq_swap

@[simp] theorem compare_self (p : Part) : p.compare p = .eq := Std.ReflCmp.compare_self

/-- Three parts that form a cycle are one part. -/
theorem eq_of_cycle {p q r : Part} (hpq : (p.compare q).isLE) (hqr : (q.compare r).isLE)
    (hrp : (r.compare p).isLE) : p = q ∧ q = r := by
  have hqp : (q.compare p).isLE := Std.TransCmp.isLE_trans hqr hrp
  have hrq : (r.compare q).isLE := Std.TransCmp.isLE_trans hrp hpq
  exact ⟨Std.LawfulEqCmp.eq_of_compare (Std.OrientedCmp.isLE_antisymm hpq hqp),
    Std.LawfulEqCmp.eq_of_compare (Std.OrientedCmp.isLE_antisymm hqr hrq)⟩

/-- The parts that are not below a missing one. -/
theorem not_below_missing {p : Part} (h : p.compareMissing.isGE) :
    (∃ value, p = .number value) ∨ p = .stage .release ∨ p = .stage .servicePack := by
  match p with
  | .number value => exact .inl ⟨value, rfl⟩
  | .word _ => simp [compareMissing] at h
  | .stage known => cases known <;> first | exact absurd h (by decide) | simp

/-- Where a smaller part is not below a missing one and a larger part is not above it, the larger
part is a zero and the smaller a release stage or a service pack. -/
theorem zero_of_straddle {p q : Part} (hlt : p.compare q = .lt) (hp : p.compareMissing.isGE)
    (hq : q.compareMissing.isLE) :
    q = .number 0 ∧ (p = .stage .release ∨ p = .stage .servicePack) := by
  match q with
  | .number value =>
    have hvalue : value = 0 := by
      cases value with
      | zero => rfl
      | succ n => simp [compareMissing] at hq
    subst hvalue
    rcases not_below_missing hp with ⟨a, rfl⟩ | hstage
    · simp [Part.compare, Nat.compare_eq_lt] at hlt
    · exact ⟨rfl, hstage⟩
  | .word _ =>
    rcases not_below_missing hp with ⟨a, rfl⟩ | rfl | rfl <;>
      simp [Part.compare, tier, Stage.rank, Nat.compare_eq_lt] at hlt
  | .stage known =>
    rcases not_below_missing hp with ⟨a, rfl⟩ | rfl | rfl
    · cases known <;> simp [Part.compare, tier, Stage.rank, Nat.compare_eq_lt] at hlt
    · cases known <;> first | exact absurd hlt (by decide) | exact absurd hq (by decide)
    · cases known <;> exact absurd hlt (by decide)

end Part

/-! ## §2. Lists of parts. -/

@[simp] theorem compareParts_nil_right (as : List Part) :
    compareParts as [] = comparePartsMissing as := by
  cases as <;> rfl

@[simp] theorem compareParts_nil_left (bs : List Part) :
    compareParts [] bs = (comparePartsMissing bs).swap := by
  cases bs <;> rfl

@[simp] theorem compareParts_cons (a b : Part) (as bs : List Part) :
    compareParts (a :: as) (b :: bs) = (a.compare b).then (compareParts as bs) := rfl

/-- The comparison turns around when its sides do. -/
theorem compareParts_swap : ∀ as bs : List Part,
    compareParts bs as = (compareParts as bs).swap
  | [], bs => by simp
  | a :: as, [] => by simp
  | a :: as, b :: bs => by
    rw [compareParts_cons, compareParts_cons, Ordering.swap_then, compareParts_swap as bs,
      Part.compare_swap a b]

/-! ## §3. Knots. -/

/-- The first list has a zero where the second has a release stage or a service pack and the third
has ended, and up to there all three agree.  What remains of the first is not above nothing, and
what remains of the second behind a release stage is not below nothing. -/
inductive Knot : List Part → List Part → List Part → Prop
  | release {zs ss : List Part} :
      (comparePartsMissing zs).isLE → (comparePartsMissing ss).isGE →
      Knot (.number 0 :: zs) (.stage .release :: ss) []
  | servicePack {zs ss : List Part} :
      (comparePartsMissing zs).isLE → Knot (.number 0 :: zs) (.stage .servicePack :: ss) []
  /-- The third has ended already, at a part that equals nothing. -/
  | past {p : Part} {zs ss : List Part} :
      p.compareMissing = .eq → Knot zs ss [] → Knot (p :: zs) (p :: ss) []
  /-- All three have the same part. -/
  | step {p : Part} {zs ss es : List Part} : Knot zs ss es → Knot (p :: zs) (p :: ss) (p :: es)

/-- A knot is a cycle: the first is at most the third, the third at most the second, and the second
below the first. -/
theorem Knot.cycle {zs ss es : List Part} (h : Knot zs ss es) :
    (compareParts zs es).isLE ∧ (compareParts es ss).isLE ∧ compareParts ss zs = .lt := by
  induction h with
  | release hz hs =>
    have hlt : (Part.stage .release).compare (.number 0) = .lt := rfl
    have hzero : (Part.number 0).compareMissing = .eq := rfl
    have hstage : (Part.stage .release).compareMissing = .eq := rfl
    simp [comparePartsMissing, hlt, hzero, hstage, hz, hs]
  | servicePack hz =>
    have hlt : (Part.stage .servicePack).compare (.number 0) = .lt := rfl
    have hzero : (Part.number 0).compareMissing = .eq := rfl
    have hstage : (Part.stage .servicePack).compareMissing = .gt := rfl
    simp [comparePartsMissing, hlt, hzero, hstage, hz]
  | past hp _ ih => simpa [comparePartsMissing, hp] using ih
  | step _ ih => simpa using ih

/-- A cycle through an ended list is a knot or an equality of all three. -/
theorem knot_of_cycle_nil : ∀ {as bs : List Part},
    (compareParts as bs).isLE → (comparePartsMissing bs).isLE → (comparePartsMissing as).isGE →
    (compareParts as bs = .eq ∧ comparePartsMissing as = .eq ∧ comparePartsMissing bs = .eq)
      ∨ Knot bs as []
  | [], bs, hab, hb, _ => by
    -- one of the lists has ended as well, and the other one equals nothing
    rw [compareParts_nil_left, Ordering.isLE_swap] at hab
    have hbs : comparePartsMissing bs = .eq := Ordering.eq_eq_of_isLE_of_isGE hb hab
    exact .inl ⟨by simp [hbs], rfl, hbs⟩
  | a :: as, [], hab, _, ha => by
    rw [compareParts_nil_right] at hab
    have has : comparePartsMissing (a :: as) = .eq := Ordering.eq_eq_of_isLE_of_isGE hab ha
    exact .inl ⟨by simp [has], has, rfl⟩
  | a :: as, b :: bs, hab, hb, ha => by
    have ha' : a.compareMissing.isGE := Ordering.isGE_left_of_isGE_then ha
    have hb' : b.compareMissing.isLE := Ordering.isLE_left_of_isLE_then hb
    rw [compareParts_cons, Ordering.isLE_then_iff_or] at hab
    rcases hab with hlt | ⟨heq, hab⟩
    · -- the first parts differ: they straddle nothing, and this is the place of the knot
      obtain ⟨rfl, rfl | rfl⟩ := Part.zero_of_straddle hlt ha' hb'
      · exact .inr (.release hb ha)
      · exact .inr (.servicePack hb)
    · -- the first parts are one part, which equals nothing
      obtain rfl : a = b := Std.LawfulEqCmp.eq_of_compare heq
      have hmissing : a.compareMissing = .eq := Ordering.eq_eq_of_isLE_of_isGE hb' ha'
      simp only [comparePartsMissing, hmissing, Ordering.eq_then] at hb ha
      rcases knot_of_cycle_nil hab hb ha with ⟨hab, ha, hb⟩ | hknot
      · exact .inl ⟨by simp [hab], by simp [comparePartsMissing, hmissing, ha],
          by simp [comparePartsMissing, hmissing, hb]⟩
      · exact .inr (.past hmissing hknot)

/-- A cycle is a knot or an equality of all three. -/
theorem knot_of_cycle : ∀ {as bs cs : List Part},
    (compareParts as bs).isLE → (compareParts bs cs).isLE → (compareParts cs as).isLE →
    (compareParts as bs = .eq ∧ compareParts bs cs = .eq ∧ compareParts cs as = .eq)
      ∨ Knot bs as cs ∨ Knot as cs bs ∨ Knot cs bs as
  | as, bs, [], hab, hbc, hca => by
    rw [compareParts_nil_right] at hbc
    rw [compareParts_nil_left, Ordering.isLE_swap] at hca
    rcases knot_of_cycle_nil hab hbc hca with ⟨hab, ha, hb⟩ | hknot
    · exact .inl ⟨hab, by simp [hb], by simp [ha]⟩
    · exact .inr (.inl hknot)
  | as, [], c :: cs, hab, hbc, hca => by
    rw [compareParts_nil_right] at hab
    rw [compareParts_nil_left, Ordering.isLE_swap] at hbc
    rcases knot_of_cycle_nil hca hab hbc with ⟨hca, hc, ha⟩ | hknot
    · exact .inl ⟨by simp [ha], by simp [hc], hca⟩
    · exact .inr (.inr (.inl hknot))
  | [], b :: bs, c :: cs, hab, hbc, hca => by
    rw [compareParts_nil_right] at hca
    rw [compareParts_nil_left, Ordering.isLE_swap] at hab
    rcases knot_of_cycle_nil hbc hca hab with ⟨hbc, hb, hc⟩ | hknot
    · exact .inl ⟨by simp [hb], hbc, by simp [hc]⟩
    · exact .inr (.inr (.inr hknot))
  | a :: as, b :: bs, c :: cs, hab, hbc, hca => by
    simp only [compareParts_cons] at hab hbc hca
    -- the first parts form a cycle of their own, so the knot is further on
    obtain ⟨rfl, rfl⟩ := Part.eq_of_cycle (Ordering.isLE_left_of_isLE_then hab)
      (Ordering.isLE_left_of_isLE_then hbc) (Ordering.isLE_left_of_isLE_then hca)
    simp only [Part.compare_self, Ordering.eq_then] at hab hbc hca
    rcases knot_of_cycle hab hbc hca with ⟨hab, hbc, hca⟩ | hknot | hknot | hknot
    · exact .inl ⟨by simp [hab], by simp [hbc], by simp [hca]⟩
    · exact .inr (.inl (.step hknot))
    · exact .inr (.inr (.inl (.step hknot)))
    · exact .inr (.inr (.inr (.step hknot)))

/-! ## §4. Versions. -/

namespace Version

theorem compare_swap (v w : Version) : w.compare v = (v.compare w).swap :=
  compareParts_swap v.parts w.parts

/-- Swapping the sides of a version's comparison with itself changes nothing, so it is equal. -/
theorem compare_self (v : Version) : v.compare v = .eq := by
  have hswap : v.compare v = (v.compare v).swap := compare_swap v v
  cases h : v.compare v <;> simp_all

/-- Among the given versions the comparison is transitive. -/
def TransitiveOn (versions : Set Version) : Prop :=
  ∀ a ∈ versions, ∀ b ∈ versions, ∀ c ∈ versions,
    (a.compare b).isLE → (b.compare c).isLE → (a.compare c).isLE

/-- No three of the given versions are knotted. -/
def KnotFree (versions : Set Version) : Prop :=
  ∀ a ∈ versions, ∀ b ∈ versions, ∀ c ∈ versions, ¬ Knot a.parts b.parts c.parts

theorem knotFree_of_transitiveOn {versions : Set Version} (h : TransitiveOn versions) :
    KnotFree versions := by
  intro a ha b hb c hc hknot
  obtain ⟨hac, hcb, hba⟩ := hknot.cycle
  have hab : (a.compare b).isLE := h a ha c hc b hb hac hcb
  have hgt : a.compare b = .gt := by
    rw [compare_swap b a, Ordering.swap_eq_gt]
    exact hba
  rw [hgt] at hab
  exact absurd hab (by decide)

theorem transitiveOn_of_knotFree {versions : Set Version} (h : KnotFree versions) :
    TransitiveOn versions := by
  intro a ha b hb c hc hab hbc
  rw [Ordering.isLE_iff_ne_gt]
  intro hgt
  -- were `c` below `a`, the three would form a cycle
  have hlt : c.compare a = .lt := by
    rw [compare_swap a c, Ordering.swap_eq_lt]
    exact hgt
  have hca : (c.compare a).isLE := by simp [hlt]
  rcases knot_of_cycle hab hbc hca with ⟨-, -, heq⟩ | hknot | hknot | hknot
  · have heq' : c.compare a = .eq := heq
    rw [hlt] at heq'
    exact absurd heq' (by decide)
  · exact h b hb a ha c hc hknot
  · exact h a ha c hc b hb hknot
  · exact h c hc b hb a ha hknot

/-- Where the comparison is transitive, equal versions compare alike with every third one. -/
theorem TransitiveOn.compare_congr {versions : Set Version} (h : TransitiveOn versions)
    {a b c : Version} (ha : a ∈ versions) (hb : b ∈ versions) (hc : c ∈ versions)
    (hab : a.compare b = .eq) : a.compare c = b.compare c := by
  have hba : b.compare a = .eq := by rw [compare_swap a b, hab]; rfl
  have hle : (a.compare c).isLE ↔ (b.compare c).isLE :=
    ⟨h b hb a ha c hc (by simp [hba]), h a ha b hb c hc (by simp [hab])⟩
  have hge : (c.compare a).isLE ↔ (c.compare b).isLE :=
    ⟨fun hca => h c hc a ha b hb hca (by simp [hab]), fun hcb => h c hc b hb a ha hcb (by simp [hba])⟩
  rw [compare_swap a c, compare_swap b c, Ordering.isLE_swap, Ordering.isLE_swap] at hge
  -- two orderings that are both ≤ or not, and both ≥ or not, are the same
  revert hle hge
  generalize a.compare c = x
  generalize b.compare c = y
  revert x y
  decide

/-- Turning the sides around always turns the comparison around.  On a set of versions the
comparison is transitive, and then equal versions compare alike with every version of the set,
exactly if no three of the versions are knotted. -/
theorem compare_transitive_iff (versions : Set Version) :
    (∀ a b : Version, b.compare a = (a.compare b).swap)
      ∧ (TransitiveOn versions ↔ KnotFree versions)
      ∧ (KnotFree versions → ∀ a ∈ versions, ∀ b ∈ versions, ∀ c ∈ versions,
          a.compare b = .eq → a.compare c = b.compare c) := by
  refine ⟨compare_swap, ⟨knotFree_of_transitiveOn, transitiveOn_of_knotFree⟩, ?_⟩
  intro hfree a ha b hb c hc hab
  exact (transitiveOn_of_knotFree hfree).compare_congr ha hb hc hab

/-- A release equals the bare version and the bare version equals the one with a zero, but the
release is below the one with a zero. -/
theorem release_not_transitive : ∃ a b c : Version,
    parse "1.0" = .ok a ∧ parse "1" = .ok b ∧ parse "1-release" = .ok c ∧
    a.compare b = .eq ∧ b.compare c = .eq ∧ c.compare a = .lt ∧
    ¬ ((a.compare b).isLE → (b.compare c).isLE → (a.compare c).isLE) := by
  refine ⟨⟨"1.0", by decide⟩, ⟨"1", by decide⟩, ⟨"1-release", by decide⟩, rfl, rfl, rfl, ?_⟩
  decide

end Version

end DependencyScope
