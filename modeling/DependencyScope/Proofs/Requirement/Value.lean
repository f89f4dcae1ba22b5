/-
  DependencyScope.Proofs.Requirement.Value — a condition sees the value of a version only.

  Equal versions may be written differently: with other separators, in other letter case, with zeros
  in front of a number or at the end.  A condition with plain literals accepts both of two equal
  plain versions or neither.  For the comparators that look at the order this is its transitivity;
  the pessimistic one looks at single parts, which are those of the sequences.

      1.2-RC.3   and   01.2rc3.0   are equal, and   ~>1.2rc   accepts both

  Main definitions:
    * `Condition.literals` — the versions that a condition compares with.

  Main results:
    * `Version.meetsPessimistically_congr` — equal versions match pessimistically alike;
    * `Comparator.holds_congr` — they stand in the same relations to a third;
    * `Condition.accepts_congr` — they meet the same conditions.
-/
import DependencyScope.Proofs.Version.Pessimistic
import DependencyScope.Requirement.Condition

namespace DependencyScope

/-! ## §1. Comparators. -/

variable {v w : Version}

namespace Version

theorem meetsPessimistically_congr {base : Version} (hv : v.IsPlain) (hw : w.IsPlain)
    (hbase : base.IsPlain) (h : v.compare w = .eq) :
    v.meetsPessimistically base = w.meetsPessimistically base := by
  have hcompare : v.compare base = w.compare base :=
    plain_transitiveOn.compare_congr hv hw hbase h
  have hpadded : paddedParts v.parts = paddedParts w.parts :=
    (compareParts_eq_eq_iff hv hw).1 h
  have hagree : agreeBeforeLast v.parts base.parts = agreeBeforeLast w.parts base.parts := by
    rw [Bool.eq_iff_iff, agreeBeforeLast_iff hbase, agreeBeforeLast_iff hbase, hpadded]
  rw [meetsPessimistically, meetsPessimistically, hagree, hcompare]

end Version

/-- Equal versions stand in the same relations to a third one. -/
theorem Comparator.holds_congr (c : Comparator) {literal : Version} (hv : v.IsPlain)
    (hw : w.IsPlain) (hliteral : literal.IsPlain) (h : v.compare w = .eq) :
    c.holds v literal = c.holds w literal := by
  have hcompare : v.compare literal = w.compare literal :=
    Version.plain_transitiveOn.compare_congr hv hw hliteral h
  cases c with
  | pessimistic => exact Version.meetsPessimistically_congr hv hw hliteral h
  | _ => simp only [Comparator.holds, hcompare]

/-! ## §2. Conditions. -/

namespace Condition

mutual

/-- The versions that a condition compares with, in order. -/
def literals : Condition → List Version
  | .literal _ version => [version]
  | .all children => literalsOfEach children
  | .any children => literalsOfEach children
  | .negation child => child.literals

/-- The versions that the conditions of a list compare with. -/
def literalsOfEach : List Condition → List Version
  | [] => []
  | child :: rest => child.literals ++ literalsOfEach rest

end

mutual

/-- Equal versions meet the same conditions. -/
theorem accepts_congr (hv : v.IsPlain) (hw : w.IsPlain) (h : v.compare w = .eq) :
    ∀ c : Condition, (∀ l ∈ c.literals, l.IsPlain) → c.accepts v = c.accepts w
  | .literal comparator bound, hc =>
    comparator.holds_congr hv hw (hc bound List.mem_cons_self) h
  | .all children, hc => acceptsAll_congr hv hw h children hc
  | .any children, hc => acceptsAny_congr hv hw h children hc
  | .negation child, hc => by
    rw [accepts, accepts, accepts_congr hv hw h child hc]

theorem acceptsAll_congr (hv : v.IsPlain) (hw : w.IsPlain) (h : v.compare w = .eq) :
    ∀ cs : List Condition, (∀ l ∈ literalsOfEach cs, l.IsPlain) →
      acceptsAll v cs = acceptsAll w cs
  | [], _ => rfl
  | c :: rest, hc => by
    rw [literalsOfEach, List.forall_mem_append] at hc
    rw [acceptsAll, acceptsAll, accepts_congr hv hw h c hc.1,
      acceptsAll_congr hv hw h rest hc.2]

theorem acceptsAny_congr (hv : v.IsPlain) (hw : w.IsPlain) (h : v.compare w = .eq) :
    ∀ cs : List Condition, (∀ l ∈ literalsOfEach cs, l.IsPlain) →
      acceptsAny v cs = acceptsAny w cs
  | [], _ => rfl
  | c :: rest, hc => by
    rw [literalsOfEach, List.forall_mem_append] at hc
    rw [acceptsAny, acceptsAny, accepts_congr hv hw h c hc.1,
      acceptsAny_congr hv hw h rest hc.2]

end

/-- Two plain versions, whatever their texts, are equal exactly if each condition with plain
literals accepts both or neither. -/
theorem compare_eq_iff_accepts (hv : v.IsPlain) (hw : w.IsPlain) :
    v.compare w = .eq
      ↔ ∀ c : Condition, (∀ l ∈ c.literals, l.IsPlain) → c.accepts v = c.accepts w := by
  refine ⟨fun h c hc => accepts_congr hv hw h c hc, fun hall => ?_⟩
  -- the equality with the second version tells them apart
  have hself : w.compare w = .eq := (compareParts_eq_eq_iff hw hw).2 rfl
  have hsame := hall (.literal .equal w) fun l hl => by
    obtain rfl := List.mem_singleton.1 hl
    exact hw
  rw [accepts, accepts, Comparator.holds, Comparator.holds, hself] at hsame
  exact beq_iff_eq.1 hsame

/-- The same version with other separators, in other letter case, with a zero in front and one at
the end, under a pessimistic comparison and a negated alternative. -/
theorem compare_eq_iff_accepts_respelled : ∃ v w base upper : Version,
    Version.parse "1.2-RC.3" = .ok v ∧ Version.parse "01.2rc3.0" = .ok w ∧
    base.text = "1.2rc" ∧ upper.text = "1.2" ∧ v.IsPlain ∧ w.IsPlain ∧
    (∀ l ∈ literals (.all [.literal .pessimistic base, .negation (.any [.literal .above upper])]),
      l.IsPlain) ∧
    v.compare w = .eq ∧
    accepts v (.all [.literal .pessimistic base, .negation (.any [.literal .above upper])]) = true ∧
    accepts w (.all [.literal .pessimistic base, .negation (.any [.literal .above upper])])
      = true := by
  refine ⟨⟨"1.2-RC.3", by decide⟩, ⟨"01.2rc3.0", by decide⟩, ⟨"1.2rc", by decide⟩,
    ⟨"1.2", by decide⟩, rfl, rfl, rfl, rfl, ?_⟩
  have hv : Version.IsPlain ⟨"1.2-RC.3", by decide⟩ := by decide
  have hw : Version.IsPlain ⟨"01.2rc3.0", by decide⟩ := by decide
  have hequal : Version.compare ⟨"1.2-RC.3", by decide⟩ ⟨"01.2rc3.0", by decide⟩ = .eq := by decide
  have hliterals : ∀ l ∈ literals (.all [.literal .pessimistic ⟨"1.2rc", by decide⟩,
      .negation (.any [.literal .above ⟨"1.2", by decide⟩])]), l.IsPlain := by decide
  have hsame := (compare_eq_iff_accepts hv hw).1 hequal _ hliterals
  have haccepted : accepts ⟨"1.2-RC.3", by decide⟩ (.all [.literal .pessimistic
      ⟨"1.2rc", by decide⟩, .negation (.any [.literal .above ⟨"1.2", by decide⟩])]) = true := by
    decide
  exact ⟨hv, hw, hliterals, hequal, haccepted, hsame.symm.trans haccepted⟩

end Condition

end DependencyScope
