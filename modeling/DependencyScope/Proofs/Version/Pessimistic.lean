/-
  DependencyScope.Proofs.Version.Pessimistic — what a pessimistic match accepts.

  A pessimistic match asks that the candidate has the parts of the base up to the last, and that it
  is not lower than the base.  Among versions of numbers these are the versions from the base up to,
  but without, the next version that is one part shorter.

      ~>1.2.3   accepts   1.2.3 ≤ v < 1.3

  Main results:
    * `agreeBeforeLast_iff` — the parts before the last, as parts of the sequences;
    * `within_iff` — an interval of sequences of numbers;
    * `Version.meetsPessimistically_iff` — the pessimistic match of versions of numbers.
-/
import DependencyScope.Proofs.Version.Dotted
import DependencyScope.Proofs.Version.Padded
import Mathlib.Data.List.GetD

namespace DependencyScope

/-! ## §1. The parts before the last. -/

/-- A base with two parts or more is compared head by head, where a missing head is a zero. -/
theorem agreeBeforeLast_cons_cons {as bs : List Part} {b c : Part} (hb : b.IsPlain) :
    agreeBeforeLast as (b :: c :: bs)
      = (decide (paddedParts as 0 = b) && agreeBeforeLast as.tail (c :: bs)) := by
  have hhead (p q : Part) : (p.compare q == .eq) = decide (p = q) := by
    rw [Bool.eq_iff_iff, beq_iff_eq, decide_eq_true_eq, Std.LawfulEqCmp.compare_eq_iff_eq]
  cases as with
  | nil =>
    rw [agreeBeforeLast, Part.compareMissing_of_isPlain hb, hhead, List.tail_nil]
    · exact congrArg (· && _) (decide_eq_decide.2 eq_comm)
    · exact nofun
  | cons a as =>
    rw [agreeBeforeLast, hhead]
    · rfl
    · exact nofun

/-- The candidate has the parts of the base, up to the last, at the same places. -/
theorem agreeBeforeLast_iff : ∀ {as bs : List Part}, (∀ p ∈ bs, p.IsPlain) →
    (agreeBeforeLast as bs = true
      ↔ ∀ i, i + 1 < bs.length → paddedParts as i = paddedParts bs i)
  | as, [], _ => by simp [agreeBeforeLast]
  | as, [b], _ => by simp [agreeBeforeLast]
  | as, b :: c :: bs, h => by
    rw [List.forall_mem_cons] at h
    have ih := @agreeBeforeLast_iff as.tail (c :: bs) h.2
    rw [agreeBeforeLast_cons_cons h.1, Bool.and_eq_true, decide_eq_true_eq, ih]
    constructor
    · rintro ⟨hhead, htail⟩ i hi
      cases i with
      | zero => exact hhead
      | succ i =>
        have hat := htail i (Nat.lt_of_succ_lt_succ hi)
        rw [← paddedParts_succ] at hat
        exact hat
    · intro hall
      refine ⟨hall 0 (by simp), fun i hi => ?_⟩
      rw [← paddedParts_succ]
      exact hall (i + 1) (Nat.succ_lt_succ hi)

/-! ## §2. Sequences of numbers. -/

/-- Let `u` be `g` up to a place, one more there, and zero from there on.  A sequence that is not
below `g` is below `u` exactly if it is the same as `g` up to that place and there. -/
theorem within_iff {f g u : Nat → Nat} {m : Nat} (hbefore : ∀ j, j < m → u j = g j)
    (hat : u m = g m + 1) (hbehind : ∀ j, m < j → u j = 0)
    (hbelow : ¬ Pi.Lex (· < ·) (· < ·) f g) :
    (∀ i, i < m + 1 → f i = g i) ↔ Pi.Lex (· < ·) (· < ·) f u := by
  constructor
  · intro hsame
    refine ⟨m, fun j hj => ?_, ?_⟩
    · rw [hsame j (Nat.lt_succ_of_lt hj), hbefore j hj]
    · rw [hsame m (Nat.lt_succ_self m), hat]
      exact Nat.lt_succ_self _
  · rintro ⟨i, hsame, hlt⟩
    rcases Nat.lt_trichotomy i m with him | rfl | him
    · -- the first difference from `u` would be one from `g`
      refine absurd ⟨i, fun j hj => ?_, ?_⟩ hbelow
      · rw [hsame j hj, hbefore j (Nat.lt_trans hj him)]
      · rw [← hbefore i him]
        exact hlt
    · have hagree : ∀ j, j < i → f j = g j := fun j hj => by rw [hsame j hj, hbefore j hj]
      intro j hj
      rcases Nat.lt_succ_iff_lt_or_eq.1 hj with hji | rfl
      · exact hagree j hji
      · have hnot : ¬ f j < g j := fun h => hbelow ⟨j, hagree, h⟩
        rw [hat] at hlt
        omega
    · rw [hbehind i him] at hlt
      exact absurd hlt (Nat.not_lt_zero _)

/-! ## §3. Versions of numbers. -/

theorem isPlain_of_mem_numbers {ns : List Nat} : ∀ p ∈ ns.map Part.number, p.IsPlain := by
  intro p hp
  obtain ⟨n, -, rfl⟩ := List.mem_map.1 hp
  exact ⟨nofun, nofun⟩

theorem paddedParts_numbers (ns : List Nat) (i : Nat) :
    paddedParts (ns.map .number) i = .number (ns.getD i 0) := by
  unfold paddedParts
  rw [List.getD_eq_getElem?_getD, List.getElem?_map, List.getD_eq_getElem?_getD]
  cases ns[i]? <;> rfl

/-- Numbers compare at the first place where they differ, where a missing number is a zero. -/
theorem compareParts_numbers_eq_lt_iff {ms ns : List Nat} :
    compareParts (ms.map .number) (ns.map .number) = .lt
      ↔ Pi.Lex (· < ·) (· < ·) (fun i => ms.getD i 0) fun i => ns.getD i 0 := by
  rw [compareParts_eq_lt_iff isPlain_of_mem_numbers isPlain_of_mem_numbers]
  simp only [Pi.Lex, paddedParts_numbers, Part.below_number_iff, Part.number.injEq]

namespace Version

theorem isLE_compare_iff (v w : Version) : (v.compare w).isLE ↔ w.compare v ≠ .lt := by
  rw [compare_swap v w]
  cases v.compare w <;> decide

/-- For a base with one number, a pessimistic match is no more than being not lower.  For a base
with two numbers or more, it is being not lower and below the version that has one more as the last
number but one, and that number as its last.  There is such a version. -/
theorem meetsPessimistically_iff :
    (∀ (candidate base : Version) (cs : List Nat) (b : Nat),
      candidate.parts = cs.map .number → base.parts = [.number b] →
      (candidate.meetsPessimistically base = true ↔ (base.compare candidate).isLE))
    ∧ (∀ (candidate base upper : Version) (cs front : List Nat) (b last : Nat),
      candidate.parts = cs.map .number → base.parts = (front ++ [b, last]).map .number →
      upper.parts = (front ++ [b + 1]).map .number →
      (candidate.meetsPessimistically base = true
        ↔ (base.compare candidate).isLE ∧ candidate.compare upper = .lt))
    ∧ ∀ (front : List Nat) (last : Nat),
      (ofNumbers front last).parts = (front ++ [last]).map .number := by
  have hnotLower (candidate base : Version) :
      (candidate.compare base).isGE = true ↔ (base.compare candidate).isLE := by
    rw [compare_swap base candidate, Ordering.isGE_swap]
  refine ⟨fun candidate base cs b _ hbase => ?_,
    fun candidate base upper cs front b last hcandidate hbase hupper => ?_, parts_ofNumbers⟩
  -- with one number there is nothing before the last one to agree in
  · rw [meetsPessimistically, hbase, Bool.and_eq_true, hnotLower]
    exact and_iff_right rfl
  · rw [meetsPessimistically, Bool.and_eq_true, hnotLower, and_comm]
    refine and_congr_right fun hle => ?_
    rw [isLE_compare_iff, Version.compare, hcandidate, hbase, ne_eq,
      compareParts_numbers_eq_lt_iff] at hle
    -- the upper bound is the base up to its last number but one, one more there, and zero behind
    have hbefore : ∀ j, j < front.length →
        (front ++ [b + 1]).getD j 0 = (front ++ [b, last]).getD j 0 := by
      intro j hj
      rw [List.getD_append _ _ _ _ hj, List.getD_append _ _ _ _ hj]
    have hat : (front ++ [b + 1]).getD front.length 0
        = (front ++ [b, last]).getD front.length 0 + 1 := by
      simp
    have hbehind : ∀ j, front.length < j → (front ++ [b + 1]).getD j 0 = 0 := by
      intro j hj
      exact List.getD_eq_default _ _ (by rw [List.length_append]; exact hj)
    rw [Version.compare, hcandidate, hbase, hupper, compareParts_numbers_eq_lt_iff,
      ← within_iff hbefore hat hbehind hle, agreeBeforeLast_iff isPlain_of_mem_numbers]
    simp only [paddedParts_numbers, Part.number.injEq, List.length_map, List.length_append,
      List.length_cons, List.length_nil, Nat.add_lt_add_iff_right]

/-- The version 1 has fewer parts than 1.0.0 and is accepted, as it is below 1.1; of a base with one
number every later version is accepted. -/
theorem meetsPessimistically_short : ∃ candidate base later single : Version,
    candidate.text = "1" ∧ base.text = "1.0.0" ∧ later.text = "3-1" ∧ single.text = "02" ∧
    candidate.parts = [1].map .number ∧ base.parts = ([1] ++ [0, 0]).map .number ∧
    (ofNumbers [1] 1).parts = ([1] ++ [0 + 1]).map .number ∧
    candidate.meetsPessimistically base = true ∧
    (base.compare candidate).isLE ∧ candidate.compare (ofNumbers [1] 1) = .lt ∧
    later.parts = [3, 1].map .number ∧ single.parts = [.number 2] ∧
    later.meetsPessimistically single = true := by
  refine ⟨⟨"1", by decide⟩, ⟨"1.0.0", by decide⟩, ⟨"3-1", by decide⟩, ⟨"02", by decide⟩,
    rfl, rfl, rfl, rfl, ?_⟩
  have hcandidate : Version.parts ⟨"1", by decide⟩ = [1].map .number := by decide
  have hbase : Version.parts ⟨"1.0.0", by decide⟩ = ([1] ++ [0, 0]).map .number := by decide
  have hlater : Version.parts ⟨"3-1", by decide⟩ = [3, 1].map .number := by decide
  have hsingle : Version.parts ⟨"02", by decide⟩ = [.number 2] := by decide
  have hmatch := meetsPessimistically_iff.2.1 _ _ (ofNumbers [1] 1) [1] [1] 0 0 hcandidate hbase
    (parts_ofNumbers [1] 1)
  have haccepted : Version.meetsPessimistically ⟨"1", by decide⟩ ⟨"1.0.0", by decide⟩ = true := by
    decide
  obtain ⟨hle, hlt⟩ := hmatch.1 haccepted
  exact ⟨hcandidate, hbase, parts_ofNumbers [1] 1, haccepted, hle, hlt, hlater, hsingle,
    (meetsPessimistically_iff.1 _ _ [3, 1] 2 hlater hsingle).2 (by decide)⟩

end Version

end DependencyScope
