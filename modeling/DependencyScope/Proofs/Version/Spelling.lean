/-
  DependencyScope.Proofs.Version.Spelling — which spellings of a version make no difference.

  Nothing of a version is looked at but its parts, and these are what its runs stand for.  A number
  may be written with zeros in front, a word in any letter case, and a stage by any of its names.
  Between the runs and at the ends there may be any dots and hyphens that keep them apart.

      1.0-alpha2   and   -01..0A.002-   have the same parts

  Main definitions:
    * `Stage.names` — the words that name a stage;
    * `Respelled` — two spellings of one run.

  Main results:
    * `Part.ofRun_eq_iff` — runs stand for one part exactly if one is the other respelled;
    * `Comparator.holds_of_parts` — a comparator looks at the parts only;
    * `Version.parts_of_parse` — what is read from a text, and how respelled texts compare.
-/
import DependencyScope.Proofs.Version.Numeral
import DependencyScope.Proofs.Version.Preorder
import DependencyScope.Proofs.Version.Runs
import DependencyScope.Proofs.Version.Text
import DependencyScope.Requirement.Condition
import Mathlib

namespace DependencyScope

open DependencyScope.Text

/-! ## §1. The names of the stages. -/

/-- The words in lower case that name a stage. -/
def Stage.names : Stage → List String
  | .alpha => ["alpha", "a"]
  | .beta => ["beta", "b"]
  | .milestone => ["milestone", "m"]
  | .candidate => ["rc", "cr"]
  | .snapshot => ["snapshot"]
  | .release => ["release", "ga", "final"]
  | .servicePack => ["sp"]

theorem Stage.ofWord?_eq_some_iff {word : String} {s : Stage} :
    Stage.ofWord? word = some s ↔ word ∈ s.names := by
  constructor
  · intro h
    unfold Stage.ofWord? at h
    split at h <;> cases h <;> simp [names]
  · have hnames : ∀ name ∈ s.names, Stage.ofWord? name = some s := by cases s <;> decide
    exact hnames word

/-- No stage is named by digits. -/
theorem Stage.not_digits_of_mem_names {word : String} {s : Stage} (h : word ∈ s.names) :
    word.toList.all Char.isDigit = false := by
  revert word
  cases s <;> decide

/-! ## §2. Runs and their parts. -/

section

variable {run as bs : List Char}

theorem isDigit_toLower (c : Char) : c.toLower.isDigit = c.isDigit := by
  by_cases h : c.isUpper = true
  · have halpha : c.isAlpha = true := by simp [Char.isAlpha, h]
    have hlower : c.toLower.isAlpha = true := (Char.isAlpha_toLower_eq_isAlpha c).trans halpha
    rw [isDigit_of_isAlpha halpha, isDigit_of_isAlpha hlower]
  · rw [Char.toLower_eq_of_not_isUpper h]

theorem all_isDigit_map_toLower (run : List Char) :
    (run.map Char.toLower).all Char.isDigit = run.all Char.isDigit := by
  simp [List.all_map, Function.comp_def, isDigit_toLower]

namespace Part

theorem ofRun_of_digits (h : run.all Char.isDigit = true) : ofRun run = .number (digitsValue run) :=
  if_pos h

theorem ofRun_of_not_digits (h : run.all Char.isDigit = false) :
    ofRun run
      = ((Stage.ofWord? (lower (String.ofList run))).map stage).getD
          (.word (lower (String.ofList run))) := by
  rw [ofRun, if_neg (by simp [h])]
  cases hword : Stage.ofWord? (lower (String.ofList run)) <;> simp [hword]

/-- The letter case of a run makes no difference. -/
theorem ofRun_map_toLower (run : List Char) : ofRun (run.map Char.toLower) = ofRun run := by
  cases h : run.all Char.isDigit with
  | true =>
    have hsame : run.map Char.toLower = run.map id :=
      List.map_congr_left fun c hc => toLower_of_isDigit (List.all_eq_true.1 h c hc)
    rw [hsame, List.map_id]
  | false =>
    have hlower : lower (String.ofList (run.map Char.toLower)) = lower (String.ofList run) := by
      simp [lower, Function.comp_def]
    rw [ofRun_of_not_digits ((all_isDigit_map_toLower run).trans h), ofRun_of_not_digits h, hlower]

theorem ofRun_eq_number_iff {value : Nat} :
    ofRun run = .number value ↔ run.all Char.isDigit = true ∧ digitsValue run = value := by
  cases h : run.all Char.isDigit with
  | true => simp [ofRun_of_digits h]
  | false =>
    rw [ofRun_of_not_digits h]
    cases Stage.ofWord? (lower (String.ofList run)) <;> simp

theorem ofRun_eq_stage_iff {s : Stage} :
    ofRun run = .stage s ↔ lower (String.ofList run) ∈ s.names := by
  cases h : run.all Char.isDigit with
  | true =>
    rw [ofRun_of_digits h]
    -- digits have no letter case, so the name would consist of them
    refine iff_of_false nofun fun hname => ?_
    have hword := Stage.not_digits_of_mem_names hname
    rw [lower, String.toList_ofList, String.toList_ofList, all_isDigit_map_toLower, h] at hword
    exact Bool.noConfusion hword
  | false =>
    rw [ofRun_of_not_digits h, ← Stage.ofWord?_eq_some_iff]
    cases Stage.ofWord? (lower (String.ofList run)) <;> simp

theorem lower_of_ofRun_eq_word {text : String} (hrun : ofRun run = .word text) :
    lower (String.ofList run) = text := by
  cases h : run.all Char.isDigit with
  | true => exact nomatch (ofRun_of_digits h).symm.trans hrun
  | false =>
    rw [ofRun_of_not_digits h] at hrun
    cases hword : Stage.ofWord? (lower (String.ofList run)) with
    | none => simpa [hword] using hrun
    | some s => simp [hword] at hrun

end Part

/-- Two spellings of one run. -/
inductive Respelled : List Char → List Char → Prop
  /-- Numbers, up to the zeros in front. -/
  | leadingZeros {as bs : List Char} : as.all Char.isDigit = true → bs.all Char.isDigit = true →
      Numeral.significant as = Numeral.significant bs → Respelled as bs
  | letterCase {as bs : List Char} : as.map Char.toLower = bs.map Char.toLower → Respelled as bs
  /-- Two names of a stage, each in any letter case. -/
  | stageName {as bs : List Char} {s : Stage} : lower (String.ofList as) ∈ s.names →
      lower (String.ofList bs) ∈ s.names → Respelled as bs

/-- Numbers of one value have the same digits behind their leading zeros. -/
theorem Numeral.significant_eq_of_digitsValue (has : as.all Char.isDigit = true)
    (hbs : bs.all Char.isDigit = true) (h : digitsValue as = digitsValue bs) :
    significant as = significant bs := by
  have hcompare := compare_digitsValue (List.all_eq_true.1 has) (List.all_eq_true.1 hbs)
  rw [h, Nat.compare_eq_eq.2 rfl, Numeral.compare, eq_comm, Ordering.then_eq_eq] at hcompare
  exact Std.LawfulEqOrd.eq_of_compare hcompare.2

/-- Runs stand for one part exactly if they are two spellings of one run. -/
theorem Part.ofRun_eq_iff : Part.ofRun as = Part.ofRun bs ↔ Respelled as bs := by
  constructor
  · intro h
    match hbs : Part.ofRun bs with
    -- equal numbers may still differ in length, so their digits are compared behind the zeros
    | .number value =>
      obtain ⟨has, hvalue⟩ := ofRun_eq_number_iff.1 (h.trans hbs)
      obtain ⟨hbs, hvalue'⟩ := ofRun_eq_number_iff.1 hbs
      exact .leadingZeros has hbs
        (Numeral.significant_eq_of_digitsValue has hbs (hvalue.trans hvalue'.symm))
    | .stage s => exact .stageName (ofRun_eq_stage_iff.1 (h.trans hbs)) (ofRun_eq_stage_iff.1 hbs)
    | .word text =>
      have hlower := (lower_of_ofRun_eq_word (h.trans hbs)).trans (lower_of_ofRun_eq_word hbs).symm
      exact .letterCase (by simpa [lower, String.ofList_inj] using hlower)
  · rintro (⟨has, hbs, hzeros⟩ | hlower | ⟨has, hbs⟩)
    · rw [ofRun_eq_number_iff.2 ⟨has, rfl⟩, ofRun_eq_number_iff.2 ⟨hbs, rfl⟩,
        ← Numeral.digitsValue_significant as, hzeros, Numeral.digitsValue_significant bs]
    · rw [← ofRun_map_toLower as, hlower, ofRun_map_toLower bs]
    · rw [ofRun_eq_stage_iff.2 has, ofRun_eq_stage_iff.2 hbs]

end

/-- Runs stand for the same parts, one by one, exactly if each is respelled. -/
theorem map_ofRun_eq_iff {found found' : List (List Char)} :
    found.map Part.ofRun = found'.map Part.ofRun ↔ List.Forall₂ Respelled found found' := by
  rw [← congrFun₂ List.forall₂_eq_eq_eq, List.forall₂_map_left_iff, List.forall₂_map_right_iff]
  simp only [Part.ofRun_eq_iff]

/-! ## §3. Versions of the same parts. -/

section

variable {v w v' w' : Version}

/-- The comparison looks at the parts only. -/
theorem Version.compare_of_parts (hv : v.parts = v'.parts) (hw : w.parts = w'.parts) :
    v.compare w = v'.compare w' := by
  rw [compare, compare, hv, hw]

/-- Comparators look at the parts only. -/
theorem Comparator.holds_of_parts (hv : v.parts = v'.parts) (hw : w.parts = w'.parts)
    (c : Comparator) : c.holds v w = c.holds v' w' := by
  have hcompare := Version.compare_of_parts hv hw
  cases c with
  | pessimistic =>
    rw [holds, holds, Version.meetsPessimistically, Version.meetsPessimistically, hcompare, hv, hw]
  | _ => simp only [holds, hcompare]

end

namespace Version

/-- The maximal runs of a text that is read are those of the version. -/
theorem maximalRuns_of_parse {text : String} {v : Version} (h : parse text = .ok v) :
    MaximalRuns (trim text).toList (runs v.text.toList) := by
  rw [← (parse_eq_ok_iff.1 h).2]
  exact maximalRuns_runs v.isVersionChar_of_mem_text

theorem parts_eq_of_maximalRuns {text : String} {v : Version} {found : List (List Char)}
    (h : parse text = .ok v) (hfound : MaximalRuns (trim text).toList found) :
    v.parts = found.map Part.ofRun := by
  rw [parts, hfound.unique (maximalRuns_of_parse h)]

/-- Reading succeeds on the versions, and another text is refused for an offending character or for
lacking a digit.  The parts that are read are what the maximal runs of digits and of letters between
the blank ends stand for, in order.  So two texts have the same parts exactly if their runs are
respelled one by one, whatever separates them; they are then equal as versions, compare alike with a
third one and cannot be told apart by a comparator. -/
theorem parts_of_parse :
    (∀ text, (∃ v, parse text = .ok v) ↔ isValid text = true)
      ∧ (∀ text e, parse text = .error e → Refusal text e)
      ∧ (∀ text v, parse text = .ok v →
          ∃ found, MaximalRuns (trim text).toList found ∧ v.parts = found.map Part.ofRun)
      ∧ ∀ text text' v v' found found', parse text = .ok v → parse text' = .ok v' →
          MaximalRuns (trim text).toList found → MaximalRuns (trim text').toList found' →
          (v.parts = v'.parts ↔ List.Forall₂ Respelled found found')
            ∧ (List.Forall₂ Respelled found found' →
              v.compare v' = .eq
                ∧ ∀ w : Version, v.compare w = v'.compare w ∧ w.compare v = w.compare v'
                  ∧ ∀ c : Comparator, c.holds v w = c.holds v' w ∧ c.holds w v = c.holds w v') := by
  refine ⟨fun text => ⟨?_, fun hvalid => ?_⟩, fun text e => refusal_of_parse,
    fun text v hv => ?_, ?_⟩
  · rintro ⟨v, hv⟩
    exact (parse_eq_ok_iff.1 hv).1
  · exact ⟨⟨trim text, hvalid⟩, parse_eq_ok_iff.2 ⟨hvalid, rfl⟩⟩
  · exact ⟨runs v.text.toList, maximalRuns_of_parse hv, rfl⟩
  · intro text text' v v' found found' hv hv' hfound hfound'
    have hparts : v.parts = v'.parts ↔ List.Forall₂ Respelled found found' := by
      rw [parts_eq_of_maximalRuns hv hfound, parts_eq_of_maximalRuns hv' hfound', map_ofRun_eq_iff]
    refine ⟨hparts, fun hrespelled => ?_⟩
    -- all that is compared or matched are the parts
    have hsame := hparts.2 hrespelled
    refine ⟨(compare_of_parts hsame rfl).trans (compare_self v'), fun w => ⟨?_, ?_, fun c => ?_⟩⟩
    · exact compare_of_parts hsame rfl
    · exact compare_of_parts rfl hsame
    · exact ⟨c.holds_of_parts hsame rfl, c.holds_of_parts rfl hsame⟩

/-- Separators at the ends and in a row, zeros in front and another name of the stage make no
difference.  A blank between two versions does. -/
theorem parts_of_parse_respelled : ∃ v v' : Version,
    parse "\u00a01.0-alpha2" = .ok v ∧ parse "-01..0A.002-" = .ok v' ∧
    MaximalRuns (trim "\u00a01.0-alpha2").toList [['1'], ['0'], "alpha".toList, ['2']] ∧
    MaximalRuns (trim "-01..0A.002-").toList [['0', '1'], ['0'], ['A'], "002".toList] ∧
    v.parts = v'.parts ∧ v.compare v' = .eq ∧
    (∀ w : Version, v.compare w = v'.compare w ∧ w.compare v = w.compare v'
      ∧ ∀ c : Comparator, c.holds v w = c.holds v' w ∧ c.holds w v = c.holds w v') ∧
    Refusal "1.0 2.0" (.parse (.versionCharacter ' ' "1.0 2.0") "1.0 2.0" ⟨3, 1⟩) := by
  have hv : parse "\u00a01.0-alpha2" = .ok ⟨"1.0-alpha2", by decide⟩ :=
    parse_eq_ok_iff.2 (by decide)
  have hv' : parse "-01..0A.002-" = .ok ⟨"-01..0A.002-", by decide⟩ :=
    parse_eq_ok_iff.2 (by decide)
  have herror : parse "1.0 2.0"
      = .error (.parse (.versionCharacter ' ' "1.0 2.0") "1.0 2.0" ⟨3, 1⟩) := by
    decide +kernel
  have hruns : runs "1.0-alpha2".toList = [['1'], ['0'], "alpha".toList, ['2']] := by decide
  have hruns' : runs "-01..0A.002-".toList = [['0', '1'], ['0'], ['A'], "002".toList] := by decide
  have hfound := maximalRuns_of_parse hv
  have hfound' := maximalRuns_of_parse hv'
  rw [hruns] at hfound
  rw [hruns'] at hfound'
  have hrespelled : List.Forall₂ Respelled [['1'], ['0'], "alpha".toList, ['2']]
      [['0', '1'], ['0'], ['A'], "002".toList] := by
    have hstage : Respelled "alpha".toList ['A'] :=
      .stageName (s := .alpha) (by decide) (by decide)
    have hone : Respelled ['1'] ['0', '1'] := .leadingZeros rfl rfl (by decide)
    have htwo : Respelled ['2'] "002".toList := .leadingZeros rfl rfl (by decide)
    exact .cons hone (.cons (.letterCase rfl) (.cons hstage (.cons htwo .nil)))
  obtain ⟨-, hrefusal, -, hspelling⟩ := parts_of_parse
  obtain ⟨hparts, hsame⟩ := hspelling _ _ _ _ _ _ hv hv' hfound hfound'
  obtain ⟨heq, halike⟩ := hsame hrespelled
  exact ⟨_, _, hv, hv', hfound, hfound', hparts.2 hrespelled, heq, halike, hrefusal _ _ herror⟩

end Version

end DependencyScope
