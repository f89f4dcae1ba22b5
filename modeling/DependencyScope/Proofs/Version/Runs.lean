/-
  DependencyScope.Proofs.Version.Runs — the runs of a version are its maximal runs.

  The characters of a version are digits, letters and separators.  A run of it is a stretch of
  digits only or of letters only that cannot be extended to either side.  Separators are in no run,
  so it makes no difference how many of them stand between two runs or at the ends.

      "-1..0rc3-"   has the runs   1 at 1,  0 at 4,  rc at 5,  3 at 7

  Main definitions:
    * `RunKind.Fills` — a stretch of one kind that cannot be extended;
    * `MaximalRun` — such a stretch at a place of a text;
    * `MaximalRuns` — all of them, from left to right;
    * `Segments` — a text is cut into separators and runs.

  Main results:
    * `segments_runs` — `runs` cuts a text into separators and runs;
    * `maximalRuns_runs` — what it finds are the maximal runs, in order;
    * `MaximalRuns.unique` — a text has one list of maximal runs.
-/
import DependencyScope.Proofs.Text.Split
import DependencyScope.Version.Basic
import Mathlib.Data.List.Pairwise
import Mathlib.Data.List.Perm.Basic

namespace DependencyScope

/-! ## §1. Digits, letters and separators. -/

/-- What a run consists of. -/
inductive RunKind where
  | digits
  | letters
  deriving DecidableEq

namespace RunKind

/-- Whether a character may stand in a run of this kind. -/
def covers : RunKind → Char → Bool
  | digits => Char.isDigit
  | letters => Char.isAlpha

end RunKind

/-- No character is both a digit and a letter. -/
theorem isDigit_of_isAlpha {c : Char} (h : c.isAlpha = true) : c.isDigit = false := by
  have hcodes : c.isAlpha
      = (decide (c.val ≥ 65 ∧ c.val ≤ 90) || (c.val ≥ 97 && c.val ≤ 122)) := rfl
  rw [hcodes] at h
  simp only [Bool.or_eq_true, Bool.and_eq_true, decide_eq_true_eq, ge_iff_le,
    UInt32.le_iff_toNat_le] at h
  change (65 ≤ c.toNat ∧ c.toNat ≤ 90) ∨ (97 ≤ c.toNat ∧ c.toNat ≤ 122) at h
  rw [Bool.eq_false_iff, ne_eq, Char.isDigit_iff_toNat]
  rintro ⟨-, hle⟩
  have hnine : '9'.toNat = 57 := rfl
  omega

namespace RunKind

variable {kind kind' : RunKind} {c : Char}

/-- A character may stand in runs of one kind only. -/
theorem eq_of_covers (h : kind.covers c = true) (h' : kind'.covers c = true) : kind = kind' := by
  match kind, kind' with
  | digits, digits | letters, letters => rfl
  | digits, letters => exact absurd h (by simp [covers, isDigit_of_isAlpha h'])
  | letters, digits => exact absurd h' (by simp [covers, isDigit_of_isAlpha h])

theorem covers_of_isSeparator (h : isSeparator c = true) (kind : RunKind) :
    kind.covers c = false := by
  have hc : c = '.' ∨ c = '-' := by simpa [isSeparator] using h
  rcases hc with rfl | rfl <;> cases kind <;> rfl

theorem isSeparator_of_covers (h : kind.covers c = true) : isSeparator c = false := by
  cases hc : isSeparator c with
  | false => rfl
  | true => exact absurd h (by simp [covers_of_isSeparator hc])

/-- A character of a version that separates nothing is a digit or a letter. -/
theorem exists_covers (h : isVersionChar c = true) (hc : isSeparator c = false) :
    ∃ kind : RunKind, kind.covers c = true := by
  obtain ⟨hdot, hhyphen⟩ : c ≠ '.' ∧ c ≠ '-' := by simpa [isSeparator] using hc
  have halphanum : c.isAlpha = true ∨ c.isDigit = true := by
    simpa [isVersionChar, Char.isAlphanum, hdot, hhyphen] using h
  rcases halphanum with halpha | hdigit
  · exact ⟨letters, halpha⟩
  · exact ⟨digits, hdigit⟩

theorem covers_eq_beq (h : kind'.covers c = true) (kind : RunKind) :
    kind.covers c = (kind == kind') := by
  rw [Bool.eq_iff_iff, beq_iff_eq]
  exact ⟨fun hkind => eq_of_covers hkind h, fun heq => heq ▸ h⟩

theorem isDigit_of_covers (h : kind.covers c = true) : c.isDigit = (digits == kind) :=
  covers_eq_beq h digits

/-! ## §2. Stretches that cannot be extended. -/

/-- The stretch between `front` and `back` has characters of one kind only, and neither the one
before it nor the one behind it is of that kind. -/
structure Fills (kind : RunKind) (front run back : List Char) : Prop where
  nonempty : run ≠ []
  covers : ∀ c ∈ run, kind.covers c = true
  starts : ∀ c ∈ front.getLast?, kind.covers c = false
  ends : ∀ c ∈ back.head?, kind.covers c = false

/-- The characters of one kind at the front of a text are such a stretch. -/
theorem fills_takeWhile (h : kind.covers c = true) (rest : List Char) :
    kind.Fills [] ((c :: rest).takeWhile kind.covers) ((c :: rest).dropWhile kind.covers) where
  nonempty := by simp [h]
  covers := List.all_eq_true.1 List.all_takeWhile
  starts := nofun
  ends := Text.not_of_mem_head?_dropWhile

end RunKind

/-! ## §3. The runs of a text. -/

/-- A separator is in no run. -/
theorem runs_cons_of_isSeparator {c : Char} (h : isSeparator c = true) (rest : List Char) :
    runs (c :: rest) = runs rest := by
  rw [runs, if_pos h]

/-- What may follow a character within its run are the characters of its kind. -/
theorem RunKind.sameRun_of_covers {kind : RunKind} {c d : Char} (hc : kind.covers c = true)
    (hd : isVersionChar d = true) : sameRun c d = kind.covers d := by
  rw [sameRun, isSeparator_of_covers hc, isDigit_of_covers hc]
  cases hsep : isSeparator d with
  | true => simp [covers_of_isSeparator hsep]
  | false =>
    obtain ⟨kind', hd'⟩ := exists_covers hd hsep
    rw [isDigit_of_covers hd', RunKind.covers_eq_beq hd']
    cases kind <;> cases kind' <;> rfl

/-- What fills the front of a text is its first run. -/
theorem RunKind.Fills.runs_append {kind : RunKind} : ∀ {run rest : List Char},
    kind.Fills [] run rest → (∀ c ∈ rest.head?, isVersionChar c = true) →
    runs (run ++ rest) = run :: runs rest
  | [], _, h, _ => absurd rfl h.nonempty
  | [c], rest, h, hrest => by
    have hc := h.covers c List.mem_cons_self
    rw [List.singleton_append, runs, if_neg (by simp [isSeparator_of_covers hc])]
    cases rest with
    | nil => rfl
    | cons d rest =>
      have hsame : sameRun c d = false := (sameRun_of_covers hc (hrest d rfl)).trans (h.ends d rfl)
      cases hruns : runs (d :: rest) <;> simp [hsame]
  | c :: d :: run, rest, h, hrest => by
    obtain ⟨hc, hcovers⟩ := List.forall_mem_cons.1 h.covers
    have hd := hcovers d List.mem_cons_self
    have ih := @runs_append kind (d :: run) rest ⟨by simp, hcovers, nofun, h.ends⟩ hrest
    have hsame : sameRun c d = true := by
      simp [sameRun, isSeparator_of_covers hc, isSeparator_of_covers hd, isDigit_of_covers hc,
        isDigit_of_covers hd]
    rw [List.cons_append, runs, if_neg (by simp [isSeparator_of_covers hc]), ih]
    simp [hsame]

/-- A text is cut into separators and these runs. -/
inductive Segments : List Char → List (List Char) → Prop
  | done : Segments [] []
  | separator {c : Char} {rest : List Char} {later : List (List Char)} :
      isSeparator c = true → Segments rest later → Segments (c :: rest) later
  | run {kind : RunKind} {run rest : List Char} {later : List (List Char)} :
      kind.Fills [] run rest → Segments rest later → Segments (run ++ rest) (run :: later)

/-- A text of version characters is cut into separators and its runs. -/
theorem segments_runs : ∀ {text : List Char}, (∀ c ∈ text, isVersionChar c = true) →
    Segments text (runs text)
  | [], _ => .done
  | c :: rest, h => by
    obtain ⟨hc, hrest⟩ := List.forall_mem_cons.1 h
    cases hsep : isSeparator c with
    | true =>
      rw [runs_cons_of_isSeparator hsep]
      exact .separator hsep (segments_runs hrest)
    | false =>
      obtain ⟨kind, hkind⟩ := RunKind.exists_covers hc hsep
      have hfills := kind.fills_takeWhile hkind rest
      have hbehind : ∀ d ∈ (c :: rest).dropWhile kind.covers, isVersionChar d = true :=
        fun d hd => h d ((List.dropWhile_sublist _).subset hd)
      have hcut := hfills.runs_append fun d hd => hbehind d (List.mem_of_mem_head? hd)
      have hlater := Segments.run hfills (segments_runs hbehind)
      rwa [← hcut, List.takeWhile_append_dropWhile] at hlater
  termination_by text => text.length
  decreasing_by
    · rw [List.dropWhile_cons_of_pos ‹_›]
      exact Nat.lt_succ_of_le (List.dropWhile_sublist _).length_le
    · exact Nat.lt_succ_self _

/-! ## §4. Maximal runs. -/

/-- At place `i` of the text, counted in characters, this run stands and cannot be extended. -/
def MaximalRun (text : List Char) (i : Nat) (run : List Char) : Prop :=
  ∃ (kind : RunKind) (front back : List Char),
    text = front ++ (run ++ back) ∧ front.length = i ∧ kind.Fills front run back

/-- These are all maximal runs of the text, in the order of their places. -/
def MaximalRuns (text : List Char) (found : List (List Char)) : Prop :=
  ∃ places : List (Nat × List Char), found = places.map Prod.snd ∧
    (places.Pairwise fun p q => p.1 < q.1) ∧
    ∀ i run, (i, run) ∈ places ↔ MaximalRun text i run

/-- A text has one list of maximal runs: places in order are known by their members. -/
theorem MaximalRuns.unique {text : List Char} {found found' : List (List Char)}
    (h : MaximalRuns text found) (h' : MaximalRuns text found') : found = found' := by
  obtain ⟨places, rfl, hordered, hmem⟩ := h
  obtain ⟨places', rfl, hordered', hmem'⟩ := h'
  have hnodup : ∀ {ps : List (Nat × List Char)}, (ps.Pairwise fun p q => p.1 < q.1) → ps.Nodup := by
    intro ps hps
    refine hps.imp fun {p q} hlt heq => ?_
    rw [heq] at hlt
    exact Nat.lt_irrefl _ hlt
  have hperm : places.Perm places' := by
    rw [List.perm_ext_iff_of_nodup (hnodup hordered) (hnodup hordered')]
    rintro ⟨i, run⟩
    rw [hmem, hmem']
  have hsame : places = places' :=
    hperm.eq_of_pairwise (fun _ _ _ _ hlt hgt => absurd hlt (Nat.lt_asymm hgt)) hordered hordered'
  rw [hsame]

/-- No run goes across the cut. -/
def RunsEnd (before after : List Char) : Prop :=
  ∀ kind : RunKind, ∀ c ∈ before.getLast?, ∀ d ∈ after.head?,
    kind.covers c = true → kind.covers d = false

section

variable {before after run : List Char} {i : Nat}

theorem MaximalRun.of_before (h : MaximalRun before i run) (hcut : RunsEnd before after) :
    MaximalRun (before ++ after) i run := by
  obtain ⟨kind, front, back, rfl, hi, hfills⟩ := h
  refine ⟨kind, front, back ++ after, by simp, hi, hfills.nonempty, hfills.covers, hfills.starts,
    fun d hd => ?_⟩
  cases back with
  | cons e back => exact hfills.ends d hd
  | nil =>
    have hlast := List.getLast?_eq_some_getLast hfills.nonempty
    refine hcut kind _ ?_ d hd (hfills.covers _ (List.getLast_mem hfills.nonempty))
    rw [List.append_nil, List.getLast?_append, hlast]
    rfl

theorem MaximalRun.of_behind (h : MaximalRun after i run) (hcut : RunsEnd before after) :
    MaximalRun (before ++ after) (before.length + i) run := by
  obtain ⟨kind, front, back, rfl, rfl, hfills⟩ := h
  refine ⟨kind, before ++ front, back, by simp, by simp, hfills.nonempty, hfills.covers, ?_,
    hfills.ends⟩
  intro c hc
  rw [List.getLast?_append] at hc
  cases hlast : front.getLast? with
  | some e =>
    rw [hlast] at hc
    exact hfills.starts c (hlast.trans hc)
  | none =>
    obtain rfl := List.getLast?_eq_none_iff.1 hlast
    obtain ⟨d, run, rfl⟩ := List.exists_cons_of_ne_nil hfills.nonempty
    rw [Bool.eq_false_iff]
    intro hcovers
    have hd := hcut kind c (by simpa using hc) d rfl hcovers
    exact absurd (hfills.covers d List.mem_cons_self) (by simp [hd])

/-- A maximal run stands before the cut or behind it, if none goes across. -/
theorem MaximalRun.before_or_behind (h : MaximalRun (before ++ after) i run)
    (hcut : RunsEnd before after) :
    MaximalRun before i run ∨ ∃ j, i = before.length + j ∧ MaximalRun after j run := by
  obtain ⟨kind, front, back, htext, rfl, hfills⟩ := h
  rcases List.append_eq_append_iff.1 htext with ⟨between, rfl, rfl⟩ | ⟨between, rfl, hrest⟩
  · -- the run begins behind the cut
    refine .inr ⟨between.length, by simp, kind, between, back, rfl, rfl, hfills.nonempty,
      hfills.covers, fun c hc => hfills.starts c ?_, hfills.ends⟩
    rw [List.getLast?_append, Option.mem_def.1 hc]
    rfl
  rcases List.append_eq_append_iff.1 hrest with ⟨beyond, rfl, rfl⟩ | ⟨beyond, rfl, rfl⟩
  · -- it ends before the cut
    refine .inl ⟨kind, front, beyond, rfl, rfl, hfills.nonempty, hfills.covers, hfills.starts,
      fun d hd => hfills.ends d ?_⟩
    rw [List.head?_append, Option.mem_def.1 hd]
    rfl
  -- the cut is in the run, so what is on one of its sides has to be empty
  rcases List.eq_nil_or_concat between with rfl | ⟨between, c, rfl⟩
  · exact .inr ⟨0, by simp, kind, [], back, rfl, rfl, by simpa using hfills.nonempty,
      by simpa using hfills.covers, nofun, hfills.ends⟩
  cases beyond with
  | nil =>
    exact .inl ⟨kind, front, [], by simp, rfl, by simp, by simpa using hfills.covers,
      hfills.starts, nofun⟩
  | cons d beyond =>
    have hd := hcut kind c (by simp) d rfl (hfills.covers c (by simp))
    exact absurd (hfills.covers d (by simp)) (by simp [hd])

theorem maximalRun_append_iff (hcut : RunsEnd before after) :
    MaximalRun (before ++ after) i run
      ↔ MaximalRun before i run ∨ ∃ j, i = before.length + j ∧ MaximalRun after j run := by
  refine ⟨fun h => h.before_or_behind hcut, ?_⟩
  rintro (hbefore | ⟨j, rfl, hafter⟩)
  · exact hbefore.of_before hcut
  · exact hafter.of_behind hcut

end

theorem MaximalRun.lt_length {text run : List Char} {i : Nat} (h : MaximalRun text i run) :
    i < text.length := by
  obtain ⟨kind, front, back, rfl, rfl, hfills⟩ := h
  have hpos := List.length_pos_iff.2 hfills.nonempty
  rw [List.length_append, List.length_append]
  omega

/-- Separators have no run. -/
theorem maximalRuns_separators {text : List Char} (h : ∀ c ∈ text, isSeparator c = true) :
    MaximalRuns text [] := by
  refine ⟨[], rfl, .nil, fun i run => iff_of_false List.not_mem_nil ?_⟩
  rintro ⟨kind, front, back, rfl, -, hfills⟩
  obtain ⟨c, run, rfl⟩ := List.exists_cons_of_ne_nil hfills.nonempty
  have hc := RunKind.covers_of_isSeparator (h c (by simp)) kind
  exact absurd (hfills.covers c List.mem_cons_self) (by simp [hc])

/-- A stretch of one kind is the only run of itself. -/
theorem RunKind.Fills.maximalRuns {kind : RunKind} {front run back : List Char}
    (h : kind.Fills front run back) : MaximalRuns run [run] := by
  refine ⟨[(0, run)], rfl, List.pairwise_singleton _ _, fun i run' => ?_⟩
  rw [List.mem_singleton, Prod.mk.injEq]
  constructor
  · rintro ⟨rfl, rfl⟩
    exact ⟨kind, [], [], by simp, rfl, h.nonempty, h.covers, nofun, nofun⟩
  · rintro ⟨kind', front', back', rfl, rfl, h'⟩
    obtain ⟨c, run', rfl⟩ := List.exists_cons_of_ne_nil h'.nonempty
    obtain rfl : kind = kind' :=
      RunKind.eq_of_covers (h.covers c (by simp)) (h'.covers c List.mem_cons_self)
    -- the characters before and behind the stretch would be of its kind
    have hfront : front' = [] := by
      rcases List.eq_nil_or_concat front' with hnil | ⟨init, d, rfl⟩
      · exact hnil
      · exact absurd (h'.starts d (by simp)) (by simp [h.covers d (by simp)])
    have hback : back' = [] := by
      cases back' with
      | nil => rfl
      | cons d back' => exact absurd (h'.ends d rfl) (by simp [h.covers d (by simp)])
    subst hfront hback
    simp

/-- Where no run goes across the cut, the runs on its two sides are joined. -/
theorem MaximalRuns.append {before after : List Char} {found found' : List (List Char)}
    (h : MaximalRuns before found) (h' : MaximalRuns after found') (hcut : RunsEnd before after) :
    MaximalRuns (before ++ after) (found ++ found') := by
  obtain ⟨places, rfl, hordered, hmem⟩ := h
  obtain ⟨places', rfl, hordered', hmem'⟩ := h'
  refine ⟨places ++ places'.map (Prod.map (before.length + ·) id), by simp, ?_, fun i run => ?_⟩
  · refine List.pairwise_append.2 ⟨hordered, ?_, ?_⟩
    · exact List.pairwise_map.2 (hordered'.imp fun hlt => Nat.add_lt_add_left hlt _)
    · rintro ⟨i, run⟩ hp q hq
      obtain ⟨⟨j, run'⟩, -, rfl⟩ := List.mem_map.1 hq
      exact Nat.lt_add_right j ((hmem i run).1 hp).lt_length
  · rw [List.mem_append, hmem, maximalRun_append_iff hcut]
    refine or_congr_right ⟨fun hp => ?_, ?_⟩
    · obtain ⟨⟨j, run'⟩, hq, heq⟩ := List.mem_map.1 hp
      obtain ⟨rfl, rfl⟩ := Prod.mk.inj heq
      exact ⟨j, rfl, (hmem' j _).1 hq⟩
    · rintro ⟨j, rfl, hafter⟩
      exact List.mem_map.2 ⟨(j, run), (hmem' j run).2 hafter, rfl⟩

/-- A text that is cut into separators and runs has these maximal runs. -/
theorem Segments.maximalRuns {text : List Char} {found : List (List Char)}
    (h : Segments text found) : MaximalRuns text found := by
  induction h with
  | done => exact maximalRuns_separators nofun
  | @separator c rest later hc _ ih =>
    have hcut : RunsEnd [c] rest := by
      rintro kind d ⟨⟩ e - hcovers
      exact absurd hcovers (by simp [RunKind.covers_of_isSeparator hc])
    have hnone : MaximalRuns [c] [] := maximalRuns_separators (by simpa using hc)
    exact hnone.append ih hcut
  | @run kind run rest later hfills _ ih =>
    have hcut : RunsEnd run rest := by
      intro kind' c hc d hd hcovers
      obtain rfl := RunKind.eq_of_covers (hfills.covers c (List.mem_of_mem_getLast? hc)) hcovers
      exact hfills.ends d hd
    exact hfills.maximalRuns.append ih hcut

/-- The runs of a version are all its maximal runs, in order. -/
theorem maximalRuns_runs {text : List Char} (h : ∀ c ∈ text, isVersionChar c = true) :
    MaximalRuns text (runs text) :=
  (segments_runs h).maximalRuns

example : runs "-1..0rc3-".toList = [['1'], ['0'], ['r', 'c'], ['3']] := by decide

end DependencyScope
