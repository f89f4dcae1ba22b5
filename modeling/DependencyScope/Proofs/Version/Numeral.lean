/-
  DependencyScope.Proofs.Version.Numeral — numbers compare as their digits do.

  A run of digits stands for a number of any length.  To compare two runs, the numbers need not be
  computed: without leading zeros the longer run is the greater number, and runs of one length
  compare by their first digits that differ.

      009 < 10 < 100000000000000000000

  Main definitions:
    * `Numeral.significant` — the digits behind the leading zeros;
    * `Numeral.compare` — by length, then digit by digit.

  Main results:
    * `Numeral.compare_digitsValue` — numbers compare as their significant digits do;
    * `digitsValue_lt`, `pow_le_digitsValue` — a number lies between the powers of ten that its
      significant digits give.
-/
import DependencyScope.Proofs.Text.Split
import DependencyScope.Version.Basic
import Mathlib.Algebra.Order.Ring.Nat
import Mathlib.Tactic.Linarith

namespace DependencyScope

/-! ## §1. The number that digits write. -/

theorem digitsValue_eq_ofDigitChars (digits : List Char) :
    digitsValue digits = Nat.ofDigitChars 10 digits 0 := rfl

theorem digitsValue_cons (digit : Char) (rest : List Char) :
    digitsValue (digit :: rest)
      = 10 ^ rest.length * (digit.toNat - '0'.toNat) + digitsValue rest := by
  rw [digitsValue_eq_ofDigitChars, Nat.ofDigitChars_cons, Nat.ofDigitChars_eq_ofDigitChars_zero,
    Nat.mul_zero, Nat.zero_add, digitsValue_eq_ofDigitChars]

/-- A number is below the power of ten with as many zeros as it has digits. -/
theorem digitsValue_lt {digits : List Char} (h : ∀ c ∈ digits, c.isDigit = true) :
    digitsValue digits < 10 ^ digits.length := by
  induction digits with
  | nil => decide
  | cons digit rest ih =>
    have hrest := ih fun c hc => h c (List.mem_cons_of_mem _ hc)
    have hdigit : digit.toNat - '0'.toNat ≤ 9 := by
      have hcode := Char.isDigit_iff_toNat.1 (h digit List.mem_cons_self)
      have hnine : '9'.toNat = '0'.toNat + 9 := rfl
      omega
    rw [digitsValue_cons, List.length_cons, Nat.pow_succ]
    calc 10 ^ rest.length * (digit.toNat - '0'.toNat) + digitsValue rest
        ≤ 10 ^ rest.length * 9 + digitsValue rest := by gcongr
      _ < 10 ^ rest.length * 10 := by omega

/-- A number whose first digit is no zero is at least the power of ten with one zero less than it
has digits. -/
theorem pow_le_digitsValue {digit : Char} {rest : List Char} (h : digit.isDigit = true)
    (hzero : digit ≠ '0') : 10 ^ rest.length ≤ digitsValue (digit :: rest) := by
  have hdigit : 1 ≤ digit.toNat - '0'.toNat := by
    have hcode := Char.isDigit_iff_toNat.1 h
    have hne : digit.toNat ≠ '0'.toNat := fun heq => hzero (Char.toNat_inj.1 heq)
    omega
  rw [digitsValue_cons]
  calc 10 ^ rest.length = 10 ^ rest.length * 1 := (Nat.mul_one _).symm
    _ ≤ 10 ^ rest.length * (digit.toNat - '0'.toNat) := by gcongr
    _ ≤ _ := Nat.le_add_right _ _

/-! ## §2. Comparing digits. -/

namespace Numeral

/-- The digits behind the leading zeros; the numeral of zero has none. -/
def significant (digits : List Char) : List Char := digits.dropWhile (· = '0')

/-- Numerals compare by their lengths, and those of one length by their digits from the left. -/
def compare (ds es : List Char) : Ordering :=
  (Ord.compare ds.length es.length).then (Ord.compare ds es)

theorem digitsValue_significant (digits : List Char) :
    digitsValue (significant digits) = digitsValue digits := by
  unfold significant
  induction digits with
  | nil => rfl
  | cons digit rest ih =>
    by_cases h : digit = '0'
    · rw [List.dropWhile_cons_of_pos (by simpa using h), ih, digitsValue_cons, h, Nat.sub_self,
        Nat.mul_zero, Nat.zero_add]
    · rw [List.dropWhile_cons_of_neg (by simpa using h)]

/-- Digits compare by the numbers that they write. -/
theorem compare_digit {c d : Char} (hc : c.isDigit = true) (hd : d.isDigit = true) :
    Ord.compare (c.toNat - '0'.toNat) (d.toNat - '0'.toNat) = Ord.compare c d := by
  have hc' := (Char.isDigit_iff_toNat.1 hc).1
  have hd' := (Char.isDigit_iff_toNat.1 hd).1
  have hlt : c.toNat - '0'.toNat < d.toNat - '0'.toNat ↔ c < d := by
    change _ ↔ c.toNat < d.toNat
    omega
  have heq : c.toNat - '0'.toNat = d.toNat - '0'.toNat ↔ c = d := by
    rw [← Char.toNat_inj]
    omega
  change compareOfLessAndEq _ _ = compareOfLessAndEq _ _
  simp only [compareOfLessAndEq, hlt, heq]

theorem place_lt {place x y v w : Nat} (hxy : x < y) (hv : v < place) :
    place * x + v < place * y + w :=
  calc place * x + v < place * (x + 1) := by linarith
    _ ≤ place * y := by gcongr; omega
    _ ≤ _ := Nat.le_add_right _ _

/-- The digit at a place decides unless the digits are the same. -/
theorem compare_place {place x y v w : Nat} (hv : v < place) (hw : w < place) :
    Ord.compare (place * x + v) (place * y + w) = (Ord.compare x y).then (Ord.compare v w) := by
  rcases Nat.lt_trichotomy x y with hlt | rfl | hgt
  · rw [Nat.compare_eq_lt.2 hlt, Ordering.lt_then, Nat.compare_eq_lt]
    exact place_lt hlt hv
  · rw [Nat.compare_eq_eq.2 (rfl : x = x), Ordering.eq_then]
    simp only [Nat.compare_eq_ite_lt, Nat.add_lt_add_iff_left]
  · rw [Nat.compare_eq_gt.2 hgt, Ordering.gt_then, Nat.compare_eq_gt]
    exact place_lt hgt hw

/-- Numbers of one length compare digit by digit. -/
theorem compare_digitsValue_of_length_eq : ∀ {ds es : List Char}, ds.length = es.length →
    (∀ c ∈ ds, c.isDigit = true) → (∀ c ∈ es, c.isDigit = true) →
    Ord.compare (digitsValue ds) (digitsValue es) = Ord.compare ds es
  | [], [], _, _, _ => rfl
  | d :: ds, e :: es, hlength, hds, hes => by
    have hlength' : ds.length = es.length := Nat.succ.inj hlength
    rw [List.forall_mem_cons] at hds hes
    have hdlt := digitsValue_lt hds.2
    rw [hlength'] at hdlt
    rw [digitsValue_cons, digitsValue_cons, hlength', compare_place hdlt (digitsValue_lt hes.2),
      compare_digit hds.1 hes.1, compare_digitsValue_of_length_eq hlength' hds.2 hes.2,
      List.compare_cons_cons]

/-- The number with more significant digits is the greater one. -/
theorem digitsValue_lt_of_length_lt {ds es : List Char} (hlength : ds.length < es.length)
    (hds : ∀ c ∈ ds, c.isDigit = true) (hes : ∀ c ∈ es, c.isDigit = true)
    (hhead : ∀ e ∈ es.head?, e ≠ '0') : digitsValue ds < digitsValue es := by
  cases es with
  | nil => exact absurd hlength (Nat.not_lt_zero _)
  | cons e es =>
    calc digitsValue ds < 10 ^ ds.length := digitsValue_lt hds
      _ ≤ 10 ^ es.length := Nat.pow_le_pow_right (by decide) (Nat.le_of_lt_succ hlength)
      _ ≤ digitsValue (e :: es) := pow_le_digitsValue (hes e List.mem_cons_self) (hhead e rfl)

/-- Numbers compare as their significant digits do. -/
theorem compare_digitsValue {ds es : List Char} (hds : ∀ c ∈ ds, c.isDigit = true)
    (hes : ∀ c ∈ es, c.isDigit = true) :
    Ord.compare (digitsValue ds) (digitsValue es)
      = Numeral.compare (significant ds) (significant es) := by
  have hdigits : ∀ {cs : List Char}, (∀ c ∈ cs, c.isDigit = true) →
      ∀ c ∈ significant cs, c.isDigit = true :=
    fun h c hc => h c ((List.dropWhile_sublist _).subset hc)
  have hhead : ∀ cs : List Char, ∀ c ∈ (significant cs).head?, c ≠ '0' := by
    intro cs c hc
    simpa using Text.not_of_mem_head?_dropWhile c hc
  rw [← digitsValue_significant ds, ← digitsValue_significant es, Numeral.compare]
  rcases Nat.lt_trichotomy (significant ds).length (significant es).length with hlt | heq | hgt
  · rw [Nat.compare_eq_lt.2 hlt, Ordering.lt_then, Nat.compare_eq_lt]
    exact digitsValue_lt_of_length_lt hlt (hdigits hds) (hdigits hes) (hhead es)
  · rw [Nat.compare_eq_eq.2 heq, Ordering.eq_then]
    exact compare_digitsValue_of_length_eq heq (hdigits hds) (hdigits hes)
  · rw [Nat.compare_eq_gt.2 hgt, Ordering.gt_then, Nat.compare_eq_gt]
    exact digitsValue_lt_of_length_lt hgt (hdigits hes) (hdigits hds) (hhead ds)

end Numeral

end DependencyScope
