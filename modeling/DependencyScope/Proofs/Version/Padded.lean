/-
  DependencyScope.Proofs.Version.Padded — versions as sequences that go on in zeros.

  Among versions that have no release and no service pack, a part that is missing counts as a zero.
  Such a version stands for its parts followed by zeros without end, and two of them compare at the
  first place where these sequences differ.

      1.2       stands for   1, 2, 0, 0, 0, ...
      1.2-rc3   stands for   1, 2, rc, 3, 0, ...

  Main definitions:
    * `Part.IsPlain`, `Version.IsPlain` — no release and no service pack;
    * `Part.Below` — stages, then words, then numbers;
    * `Version.padded` — the parts followed by zeros;
    * `Version.significant` — the parts without the zeros at the end.

  Main results:
    * `compareParts_eq_lt_iff`, `compareParts_eq_eq_iff` — lists of plain parts compare as the
      sequences do;
    * `paddedParts_eq_iff` — the sequences are the same if the significant parts are;
    * `Version.plain_transitiveOn` — plain versions are totally preordered;
    * `Version.compare_padded` — how plain versions compare.
-/
import DependencyScope.Proofs.Version.Numeral
import DependencyScope.Proofs.Version.Preorder
import Mathlib.Data.List.DropRight
import Mathlib.Order.PiLex

namespace DependencyScope

/-! ## §1. Plain parts. -/

namespace Part

/-- Neither a release nor a service pack. -/
def IsPlain (p : Part) : Prop := p ≠ .stage .release ∧ p ≠ .stage .servicePack

instance : DecidablePred IsPlain := fun _ => inferInstanceAs (Decidable (_ ∧ _))

/-- The order of plain parts: stages by their rank, then words by their text, then numbers by their
value. -/
inductive Below : Part → Part → Prop
  | stages {s t : Stage} : s.rank < t.rank → Below (.stage s) (.stage t)
  | words {a b : String} : a < b → Below (.word a) (.word b)
  | numbers {a b : Nat} : a < b → Below (.number a) (.number b)
  | stage_word {s : Stage} {b : String} : Below (.stage s) (.word b)
  | stage_number {s : Stage} {b : Nat} : Below (.stage s) (.number b)
  | word_number {a : String} {b : Nat} : Below (.word a) (.number b)

theorem not_below_self (p : Part) : ¬ Below p p := by
  intro h
  cases h with
  | stages hlt => exact Nat.lt_irrefl _ hlt
  | words hlt => exact String.lt_irrefl _ hlt
  | numbers hlt => exact Nat.lt_irrefl _ hlt

@[simp] theorem below_number_iff {a b : Nat} : Below (.number a) (.number b) ↔ a < b :=
  ⟨fun h => by cases h with | numbers hlt => exact hlt, .numbers⟩

/-- A plain stage stands before the release. -/
theorem tier_stage_of_isPlain {s : Stage} (h : (Part.stage s).IsPlain) :
    (Part.stage s).tier = 0 := by
  cases s with
  | release => exact absurd rfl h.1
  | servicePack => exact absurd rfl h.2
  | _ => rfl

theorem compare_eq_lt_iff {p q : Part} (hp : p.IsPlain) (hq : q.IsPlain) :
    p.compare q = .lt ↔ Below p q := by
  match p, q with
  | .number a, .number b => rw [below_number_iff, Part.compare, Nat.compare_eq_lt]
  | .word a, .word b =>
    change compareOfLessAndEq a b = .lt ↔ _
    rw [compareOfLessAndEq_eq_lt]
    exact ⟨.words, fun h => by cases h with | words hlt => exact hlt⟩
  | .stage s, .stage t =>
    rw [Part.compare, Nat.compare_eq_lt]
    exact ⟨.stages, fun h => by cases h with | stages hlt => exact hlt⟩
  | .stage s, .word b =>
    simp only [Part.compare, tier_stage_of_isPlain hp]
    exact ⟨fun _ => .stage_word, fun _ => rfl⟩
  | .stage s, .number b =>
    simp only [Part.compare, tier_stage_of_isPlain hp]
    exact ⟨fun _ => .stage_number, fun _ => rfl⟩
  | .word a, .number b => exact ⟨fun _ => .word_number, fun _ => rfl⟩
  | .word a, .stage t =>
    simp only [Part.compare, tier_stage_of_isPlain hq]
    exact ⟨nofun, nofun⟩
  | .number a, .stage t =>
    simp only [Part.compare, tier_stage_of_isPlain hq]
    exact ⟨nofun, nofun⟩
  | .number a, .word b => exact ⟨nofun, nofun⟩

/-- A missing part counts as a zero. -/
theorem compareMissing_of_isPlain {p : Part} (h : p.IsPlain) :
    p.compareMissing = p.compare (.number 0) := by
  match p with
  | .number value =>
    cases value with
    | zero => rfl
    | succ n =>
      rw [compareMissing, if_neg (Nat.succ_ne_zero n), Part.compare,
        Nat.compare_eq_gt.2 (Nat.succ_pos n)]
  | .word _ => rfl
  | .stage s =>
    cases s with
    | release => exact absurd rfl h.1
    | servicePack => exact absurd rfl h.2
    | _ => rfl

end Part

/-! ## §2. Parts followed by zeros. -/

/-- The parts of a list, followed by zeros without end. -/
def paddedParts (parts : List Part) (i : Nat) : Part := parts.getD i (.number 0)

@[simp] theorem paddedParts_nil (i : Nat) : paddedParts [] i = .number 0 := rfl

@[simp] theorem paddedParts_cons_zero (p : Part) (ps : List Part) :
    paddedParts (p :: ps) 0 = p := rfl

@[simp] theorem paddedParts_cons_succ (p : Part) (ps : List Part) (i : Nat) :
    paddedParts (p :: ps) (i + 1) = paddedParts ps i := rfl

theorem paddedParts_succ (ps : List Part) :
    (fun i => paddedParts ps (i + 1)) = paddedParts ps.tail := by
  cases ps <;> rfl

theorem eq_iff_head_and_tail {α : Type} {f g : Nat → α} :
    f = g ↔ f 0 = g 0 ∧ (fun i => f (i + 1)) = fun i => g (i + 1) := by
  refine ⟨fun h => by rw [h]; exact ⟨rfl, rfl⟩, fun ⟨hhead, htail⟩ => funext fun i => ?_⟩
  cases i with
  | zero => exact hhead
  | succ i => exact congrFun htail i

/-- The first difference of two sequences is at the head or in the tail. -/
theorem lex_iff_head_or_tail {α : Type} {r : α → α → Prop} {f g : Nat → α} :
    Pi.Lex (· < ·) r f g
      ↔ r (f 0) (g 0) ∨ f 0 = g 0 ∧ Pi.Lex (· < ·) r (fun i => f (i + 1)) fun i => g (i + 1) := by
  constructor
  · rintro ⟨i, hbefore, hat⟩
    cases i with
    | zero => exact .inl hat
    | succ i =>
      exact .inr ⟨hbefore 0 (Nat.succ_pos i), i, fun j hj => hbefore (j + 1) (by omega), hat⟩
  · rintro (hat | ⟨hhead, i, hbefore, hat⟩)
    · exact ⟨0, fun j hj => absurd hj (Nat.not_lt_zero j), hat⟩
    · refine ⟨i + 1, fun j hj => ?_, hat⟩
      cases j with
      | zero => exact hhead
      | succ j => exact hbefore j (by omega)

section

variable {as bs : List Part}

theorem isPlain_paddedParts_zero (h : ∀ p ∈ as, p.IsPlain) : (paddedParts as 0).IsPlain := by
  cases as with
  | nil => exact ⟨nofun, nofun⟩
  | cons a as => exact h a List.mem_cons_self

/-- Lists of plain parts compare by their heads first, where a missing head is a zero. -/
theorem compareParts_eq_then (has : ∀ p ∈ as, p.IsPlain) (hbs : ∀ p ∈ bs, p.IsPlain) :
    compareParts as bs
      = ((paddedParts as 0).compare (paddedParts bs 0)).then (compareParts as.tail bs.tail) := by
  match as, bs with
  | [], [] => rfl
  | a :: as, [] =>
    rw [compareParts_nil_right, comparePartsMissing,
      Part.compareMissing_of_isPlain (has a List.mem_cons_self), List.tail_nil,
      compareParts_nil_right]
    rfl
  | [], b :: bs =>
    rw [compareParts_nil_left, comparePartsMissing, Ordering.swap_then,
      Part.compareMissing_of_isPlain (hbs b List.mem_cons_self), ← Part.compare_swap,
      List.tail_nil, compareParts_nil_left]
    rfl
  | a :: as, b :: bs => rfl

end

/-- Lists of plain parts compare as the sequences do: the induction is on a bound for both lengths,
as one list may end before the other. -/
theorem compareParts_padded (bound : Nat) : ∀ {as bs : List Part},
    as.length ≤ bound → bs.length ≤ bound →
    (∀ p ∈ as, p.IsPlain) → (∀ p ∈ bs, p.IsPlain) →
    (compareParts as bs = .lt ↔ Pi.Lex (· < ·) Part.Below (paddedParts as) (paddedParts bs))
      ∧ (compareParts as bs = .eq ↔ paddedParts as = paddedParts bs) := by
  induction bound with
  | zero =>
    intro as bs hlas hlbs _ _
    obtain rfl := List.length_eq_zero_iff.1 (Nat.le_zero.1 hlas)
    obtain rfl := List.length_eq_zero_iff.1 (Nat.le_zero.1 hlbs)
    refine ⟨⟨fun h => absurd h (by decide), ?_⟩, iff_of_true rfl rfl⟩
    rintro ⟨i, -, hat⟩
    exact absurd hat (Part.not_below_self _)
  | succ bound ih =>
    intro as bs hlas hlbs has hbs
    have hahead := isPlain_paddedParts_zero has
    have hbhead := isPlain_paddedParts_zero hbs
    -- the tails, where a list that has ended is its own tail
    obtain ⟨ihlt, iheq⟩ := @ih as.tail bs.tail (by rw [List.length_tail]; omega)
      (by rw [List.length_tail]; omega) (fun p hp => has p (List.mem_of_mem_tail hp))
      fun p hp => hbs p (List.mem_of_mem_tail hp)
    rw [compareParts_eq_then has hbs, Ordering.then_eq_lt, Ordering.then_eq_eq,
      lex_iff_head_or_tail, eq_iff_head_and_tail (f := paddedParts as), paddedParts_succ,
      paddedParts_succ, ihlt, iheq, Part.compare_eq_lt_iff hahead hbhead,
      Std.LawfulEqCmp.compare_eq_iff_eq]
    exact ⟨Iff.rfl, Iff.rfl⟩

section

variable {as bs : List Part}

theorem compareParts_eq_lt_iff (has : ∀ p ∈ as, p.IsPlain) (hbs : ∀ p ∈ bs, p.IsPlain) :
    compareParts as bs = .lt
      ↔ Pi.Lex (· < ·) Part.Below (paddedParts as) (paddedParts bs) :=
  (compareParts_padded (max as.length bs.length) (Nat.le_max_left _ _) (Nat.le_max_right _ _)
    has hbs).1

theorem compareParts_eq_eq_iff (has : ∀ p ∈ as, p.IsPlain) (hbs : ∀ p ∈ bs, p.IsPlain) :
    compareParts as bs = .eq ↔ paddedParts as = paddedParts bs :=
  (compareParts_padded (max as.length bs.length) (Nat.le_max_left _ _) (Nat.le_max_right _ _)
    has hbs).2

end

/-! ## §3. Significant parts. -/

/-- The parts of a list without the zeros at its end. -/
def significantParts (parts : List Part) : List Part := parts.rdropWhile (· = .number 0)

/-- A part is dropped if it is a zero and everything behind it is dropped. -/
theorem significantParts_cons (p : Part) (ps : List Part) :
    significantParts (p :: ps)
      = if significantParts ps = [] ∧ p = .number 0 then [] else p :: significantParts ps := by
  unfold significantParts List.rdropWhile
  rw [List.reverse_cons, List.dropWhile_append]
  by_cases hps : List.dropWhile (fun q => decide (q = .number 0)) ps.reverse = []
  · by_cases hp : p = .number 0 <;> simp [hps, hp]
  · simp [hps, List.isEmpty_iff]

/-- Zeros at the end make no difference to the sequence. -/
theorem paddedParts_significantParts (ps : List Part) :
    paddedParts (significantParts ps) = paddedParts ps := by
  induction ps with
  | nil => rfl
  | cons p ps ih =>
    rw [significantParts_cons]
    split
    next hdropped =>
      obtain ⟨hps, rfl⟩ := hdropped
      rw [hps] at ih
      refine eq_iff_head_and_tail.2 ⟨rfl, ?_⟩
      rw [paddedParts_succ, paddedParts_succ, List.tail_nil, List.tail_cons, ih]
    next =>
      refine eq_iff_head_and_tail.2 ⟨rfl, ?_⟩
      rw [paddedParts_succ, paddedParts_succ, List.tail_cons, List.tail_cons, ih]

theorem significantParts_congr : ∀ {as bs : List Part}, paddedParts as = paddedParts bs →
    significantParts as = significantParts bs
  | [], [], _ => rfl
  | a :: as, [], h => by
    obtain ⟨hhead, htail⟩ := eq_iff_head_and_tail.1 h
    rw [paddedParts_succ, paddedParts_succ] at htail
    have hempty : significantParts as = [] := @significantParts_congr as [] htail
    rw [significantParts_cons, if_pos ⟨hempty, hhead⟩]
    rfl
  | [], b :: bs, h => by
    obtain ⟨hhead, htail⟩ := eq_iff_head_and_tail.1 h
    rw [paddedParts_succ, paddedParts_succ] at htail
    have hempty : significantParts bs = [] := (@significantParts_congr [] bs htail).symm
    rw [significantParts_cons, if_pos ⟨hempty, hhead.symm⟩]
    rfl
  | a :: as, b :: bs, h => by
    obtain ⟨hhead, htail⟩ := eq_iff_head_and_tail.1 h
    rw [paddedParts_succ, paddedParts_succ, List.tail_cons, List.tail_cons] at htail
    obtain rfl : a = b := hhead
    rw [significantParts_cons, significantParts_cons, significantParts_congr htail]

/-- The sequences are the same if the lists are the same up to zeros at the end. -/
theorem paddedParts_eq_iff {as bs : List Part} :
    paddedParts as = paddedParts bs ↔ significantParts as = significantParts bs := by
  refine ⟨significantParts_congr, fun h => ?_⟩
  rw [← paddedParts_significantParts as, h, paddedParts_significantParts bs]

/-! ## §4. Plain versions. -/

/-- Two of the lists of a knot differ in a release or a service pack. -/
theorem Knot.exists_not_isPlain {zs ss es : List Part} (h : Knot zs ss es) :
    ∃ p ∈ ss, ¬ p.IsPlain := by
  induction h with
  | release => exact ⟨_, List.mem_cons_self, fun hp => hp.1 rfl⟩
  | servicePack => exact ⟨_, List.mem_cons_self, fun hp => hp.2 rfl⟩
  | past _ _ ih | step _ ih =>
    obtain ⟨p, hp, hplain⟩ := ih
    exact ⟨p, List.mem_cons_of_mem _ hp, hplain⟩

namespace Version

/-- No part is a release or a service pack. -/
def IsPlain (v : Version) : Prop := ∀ p ∈ v.parts, p.IsPlain

instance : DecidablePred IsPlain := fun v => inferInstanceAs (Decidable (∀ p ∈ v.parts, p.IsPlain))

/-- The parts of a version, followed by zeros without end. -/
def padded (v : Version) : Nat → Part := paddedParts v.parts

/-- The parts of a version without the zeros at its end. -/
def significant (v : Version) : List Part := significantParts v.parts

theorem plain_transitiveOn : TransitiveOn {v | v.IsPlain} := by
  refine transitiveOn_of_knotFree fun a _ b hb c _ hknot => ?_
  obtain ⟨p, hp, hplain⟩ := hknot.exists_not_isPlain
  exact hplain (hb p hp)

/-- Runs of digits compare by the digits behind their leading zeros, whatever their lengths. -/
theorem compare_ofRun_digits {ds es : List Char} (hds : ∀ c ∈ ds, c.isDigit = true)
    (hes : ∀ c ∈ es, c.isDigit = true) :
    (Part.ofRun ds).compare (Part.ofRun es)
      = Numeral.compare (Numeral.significant ds) (Numeral.significant es) := by
  rw [Part.ofRun, Part.ofRun, if_pos (List.all_eq_true.2 hds), if_pos (List.all_eq_true.2 hes),
    Part.compare, Numeral.compare_digitsValue hds hes]

/-- Plain versions compare as their parts followed by zeros do, at the first place where these
differ; there numbers compare by their values, which is by length and then by text once leading
zeros are dropped.  So plain versions are totally preordered, and two of them are equal exactly if
their parts are the same up to zeros at the end. -/
theorem compare_padded :
    (∀ v w : Version, v.IsPlain → w.IsPlain →
      (v.compare w = .lt ↔ Pi.Lex (· < ·) Part.Below v.padded w.padded)
        ∧ (v.compare w = .eq ↔ v.padded = w.padded)
        ∧ (v.compare w = .gt ↔ Pi.Lex (· < ·) Part.Below w.padded v.padded))
      ∧ (∀ ds es : List Char, (∀ c ∈ ds, c.isDigit = true) → (∀ c ∈ es, c.isDigit = true) →
          Part.ofRun ds = .number (digitsValue ds)
            ∧ (Part.ofRun ds).compare (Part.ofRun es)
              = Numeral.compare (Numeral.significant ds) (Numeral.significant es))
      ∧ TransitiveOn {v | v.IsPlain}
      ∧ (∀ v w : Version, (v.compare w).isLE ∨ (w.compare v).isLE)
      ∧ ∀ v w : Version, v.IsPlain → w.IsPlain →
          (v.compare w = .eq ↔ v.significant = w.significant) := by
  have hequal (v w : Version) (hv : v.IsPlain) (hw : w.IsPlain) :
      v.compare w = .eq ↔ v.padded = w.padded := compareParts_eq_eq_iff hv hw
  refine ⟨fun v w hv hw => ⟨compareParts_eq_lt_iff hv hw, hequal v w hv hw, ?_⟩,
    fun ds es hds hes => ⟨if_pos (List.all_eq_true.2 hds), compare_ofRun_digits hds hes⟩,
    plain_transitiveOn, fun v w => ?_,
    fun v w hv hw => (hequal v w hv hw).trans paddedParts_eq_iff⟩
  · rw [compare_swap w v, Ordering.swap_eq_gt]
    exact compareParts_eq_lt_iff hw hv
  · rw [compare_swap v w, Ordering.isLE_swap]
    cases v.compare w <;> simp

/-- 7 is below 10 although its text is above; zeros in front and at the end do not count. -/
theorem compare_padded_numerals : ∃ a b c : Version,
    parse "1.2-RC.007" = .ok a ∧ parse "01.2rc10" = .ok b ∧ parse "1.2rc010.0.0" = .ok c ∧
    a.IsPlain ∧ b.IsPlain ∧ c.IsPlain ∧
    Pi.Lex (· < ·) Part.Below a.padded b.padded ∧ b.compare c = .eq ∧
    b.significant = c.significant ∧
    (∀ d ∈ "007".toList, d.isDigit = true) ∧ (∀ d ∈ "10".toList, d.isDigit = true) ∧
    Part.ofRun "007".toList = .number 7 := by
  have ha : Version.IsPlain ⟨"1.2-RC.007", by decide⟩ := by decide
  have hb : Version.IsPlain ⟨"01.2rc10", by decide⟩ := by decide
  have hc : Version.IsPlain ⟨"1.2rc010.0.0", by decide⟩ := by decide
  have hseven : ∀ d ∈ "007".toList, d.isDigit = true := by simp
  have hten : ∀ d ∈ "10".toList, d.isDigit = true := by simp
  have hequal : Version.compare ⟨"01.2rc10", by decide⟩ ⟨"1.2rc010.0.0", by decide⟩ = .eq := by
    decide
  obtain ⟨hlex, hnumber, -, -, hzeros⟩ := compare_padded
  exact ⟨_, _, _, rfl, rfl, rfl, ha, hb, hc, (hlex _ _ ha hb).1.1 (by decide), hequal,
    (hzeros _ _ hb hc).1 hequal, hseven, hten, (hnumber _ _ hseven hten).1⟩

end Version

end DependencyScope
