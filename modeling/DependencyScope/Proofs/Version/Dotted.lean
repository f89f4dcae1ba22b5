/-
  DependencyScope.Proofs.Version.Dotted — versions that are written as numbers with dots.

  A list of numbers is written in decimal with a dot between two of them.  The digits between the
  dots are the runs of the version, so its parts are the numbers again.

      [1, 20, 3]   is written   1.20.3

  Main definitions:
    * `Version.ofNumbers` — the version that some numbers write.

  Main results:
    * `runs_dottedChars` — the runs of numbers with dots are their digits;
    * `Version.parts_ofNumbers` — the parts of a version of numbers are the numbers.
-/
import DependencyScope.Proofs.Version.Runs

namespace DependencyScope

/-! ## §1. Numbers with dots. -/

/-- The decimal digits of some numbers, with a dot between two of them. -/
def dottedChars (numbers : List Nat) : List Char :=
  ['.'].intercalate (numbers.map (Nat.toDigits 10))

theorem dottedChars_cons_cons (n m : Nat) (numbers : List Nat) :
    dottedChars (n :: m :: numbers) = Nat.toDigits 10 n ++ '.' :: dottedChars (m :: numbers) := by
  unfold dottedChars
  rw [List.map_cons, List.map_cons, List.intercalate_cons_cons, List.append_assoc,
    List.singleton_append]

theorem dottedChars_singleton (n : Nat) : dottedChars [n] = Nat.toDigits 10 n := by
  unfold dottedChars
  rw [List.map_singleton, List.intercalate_singleton]

theorem isDigit_of_mem_decimal {n : Nat} : ∀ c ∈ Nat.toDigits 10 n, c.isDigit = true :=
  fun _ => Nat.isDigit_of_mem_toDigits (by decide) (by decide)

/-- The digits of a number in front of a dot, or at the end, are a run. -/
theorem runs_decimal_append (n : Nat) {rest : List Char} (hdot : ∀ c ∈ rest.head?, c = '.') :
    runs (Nat.toDigits 10 n ++ rest) = Nat.toDigits 10 n :: runs rest := by
  have hfills : RunKind.digits.Fills [] (Nat.toDigits 10 n) rest := by
    refine ⟨Nat.toDigits_ne_nil, isDigit_of_mem_decimal, nofun, fun c hc => ?_⟩
    obtain rfl := hdot c hc
    rfl
  refine hfills.runs_append fun c hc => ?_
  obtain rfl := hdot c hc
  rfl

/-- The runs of numbers with dots are their decimal digits. -/
theorem runs_dottedChars : ∀ {numbers : List Nat}, numbers ≠ [] →
    runs (dottedChars numbers) = numbers.map (Nat.toDigits 10)
  | [n], _ => by
    have hrun := @runs_decimal_append n [] nofun
    rw [List.append_nil] at hrun
    rw [dottedChars_singleton, hrun]
    rfl
  | n :: m :: numbers, _ => by
    have hdot : ∀ c ∈ ('.' :: dottedChars (m :: numbers)).head?, c = '.' := by
      rintro c ⟨⟩
      rfl
    rw [dottedChars_cons_cons, runs_decimal_append n hdot, runs_cons_of_isSeparator rfl,
      runs_dottedChars (List.cons_ne_nil m numbers)]
    rfl

theorem isVersionChar_of_isDigit {c : Char} (h : c.isDigit = true) : isVersionChar c = true := by
  simp [isVersionChar, Char.isAlphanum, h]

theorem isVersionChar_of_mem_dottedChars : ∀ {numbers : List Nat},
    ∀ c ∈ dottedChars numbers, isVersionChar c = true
  | [], c, h => nomatch h
  | [n], c, h => by
    rw [dottedChars_singleton] at h
    exact isVersionChar_of_isDigit (isDigit_of_mem_decimal c h)
  | n :: m :: numbers, c, h => by
    rw [dottedChars_cons_cons, List.mem_append, List.mem_cons] at h
    rcases h with hdigit | rfl | hrest
    · exact isVersionChar_of_isDigit (isDigit_of_mem_decimal c hdigit)
    · rfl
    · exact isVersionChar_of_mem_dottedChars c hrest

theorem exists_isDigit_of_dottedChars {numbers : List Nat} (h : numbers ≠ []) :
    ∃ c ∈ dottedChars numbers, c.isDigit = true := by
  obtain ⟨n, rest, rfl⟩ := List.exists_cons_of_ne_nil h
  obtain ⟨c, digits, hdigits⟩ := List.exists_cons_of_ne_nil (Nat.toDigits_ne_nil (n := n) (b := 10))
  have hc : c ∈ Nat.toDigits 10 n := by rw [hdigits]; exact List.mem_cons_self
  refine ⟨c, ?_, isDigit_of_mem_decimal c hc⟩
  cases rest with
  | nil => rwa [dottedChars_singleton]
  | cons m rest =>
    rw [dottedChars_cons_cons]
    exact List.mem_append_left _ hc

/-- The number that is written in decimal is the part that its digits stand for. -/
theorem ofRun_toDigits (n : Nat) : Part.ofRun (Nat.toDigits 10 n) = .number n := by
  have hdigits : (Nat.toDigits 10 n).all Char.isDigit = true :=
    List.all_eq_true.2 isDigit_of_mem_decimal
  rw [Part.ofRun, if_pos hdigits]
  exact congrArg Part.number Nat.ofDigitChars_ten_toDigits

/-! ## §2. Versions of numbers. -/

namespace Version

/-- The version that is written as the numbers in front, and a last one, with dots between them. -/
def ofNumbers (front : List Nat) (last : Nat) : Version where
  text := String.ofList (dottedChars (front ++ [last]))
  wellFormed := by
    rw [isVersionText, String.toList_ofList, Bool.and_eq_true, List.all_eq_true, List.any_eq_true]
    exact ⟨isVersionChar_of_mem_dottedChars, exists_isDigit_of_dottedChars (by simp)⟩

theorem parts_ofNumbers (front : List Nat) (last : Nat) :
    (ofNumbers front last).parts = (front ++ [last]).map .number := by
  have hparts : ∀ numbers : List Nat,
      (numbers.map (Nat.toDigits 10)).map Part.ofRun = numbers.map .number := by
    intro numbers
    rw [List.map_map]
    exact List.map_congr_left fun n _ => ofRun_toDigits n
  rw [parts, ofNumbers, String.toList_ofList, runs_dottedChars (by simp), hparts]

example : (ofNumbers [1, 20] 3).text = "1.20.3" := by decide

end Version

end DependencyScope
