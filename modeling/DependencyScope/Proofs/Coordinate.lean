/-
  DependencyScope.Proofs.Coordinate — which specs and artifacts are read back from their texts.

  What reading a spec gives is made of parts that are not empty, have no blank at either end and
  hold no colon, so the text that prints them is cut at the same places again.  What a part is
  depends on how many there are: the fourth of four is the version.  So a spec with a classifier
  and without a version, which only a text of five parts writes, is not read back.  An artifact has
  a version and always is.

  Main definitions:
    * `IsPart`, `Coordinate.WellFormed`, `Spec.WellFormed` — what reading gives.

  Main results:
    * `Spec.wellFormed_of_parse` — every spec that is read is well formed;
    * `Spec.parse_intercalate` — what joined parts are read to;
    * `Spec.parse_render_iff` — exactly which specs are read back from their texts;
    * `Coordinate.WellFormed.parse_lookupKey`, `.render_injective` — coordinates are found by texts;
    * `Artifact.parse_render` — artifacts are.
-/
import DependencyScope.Coordinate
import DependencyScope.Proofs.Text.Split
import DependencyScope.Proofs.Version.Text

namespace DependencyScope

open DependencyScope.Text

/-! ## §1. Parts. -/

/-- A text that stands between two colons of a spec and is taken as it is. -/
structure IsPart (s : String) : Prop where
  ne_empty : s ≠ ""
  trimmed : Trimmed s.toList
  plain : ':' ∉ s.toList

theorem IsPart.trim {s : String} (h : IsPart s) : trim s = s := h.trimmed.trim

theorem toList_ne_nil {s : String} (h : s ≠ "") : s.toList ≠ [] := by
  intro hnil
  exact h (String.toList_inj.1 hnil)

/-- What stands between two colons is a part without its blank ends, unless nothing is left. -/
theorem isPart_trim {s piece : String} (hpiece : piece ∈ splitOn ':' s) (hne : trim piece ≠ "") :
    IsPart (trim piece) := by
  refine ⟨hne, ?_, ?_⟩
  · rw [toList_trim]
    exact trimmed_trimChars piece.toList
  · have hcolons : colons (trim piece) = 0 := (colons_trim piece).trans (colons_of_mem_splitOn hpiece)
    exact List.count_eq_zero.1 hcolons

/-- The text of a version is a part, and it is no hyphen. -/
theorem isPart_of_isVersionText {s : String} (h : isVersionText s = true) :
    IsPart s ∧ s ≠ "-" := by
  have hchars : ∀ c ∈ s.toList, isVersionChar c = true :=
    List.all_eq_true.1 (Bool.and_eq_true_iff.1 h).1
  have hdigit : s.toList.any Char.isDigit = true := (Bool.and_eq_true_iff.1 h).2
  refine ⟨⟨?_, ⟨?_, ?_⟩, ?_⟩, ?_⟩
  · rintro rfl
    exact absurd hdigit (by decide)
  · exact fun c hc => isBlank_of_isVersionChar (hchars c (List.mem_of_head? hc))
  · exact fun c hc => isBlank_of_isVersionChar (hchars c (List.mem_of_getLast? hc))
  · exact fun hmem => absurd (hchars ':' hmem) (by decide)
  · rintro rfl
    exact absurd hdigit (by decide)

/-- Joined parts are trimmed, and they are found again. -/
theorem trimmed_intercalate : ∀ {pieces : List String}, pieces ≠ [] →
    (∀ piece ∈ pieces, IsPart piece) →
    (String.intercalate ":" pieces).toList ≠ [] ∧ Trimmed (String.intercalate ":" pieces).toList
  | [], hne, _ => absurd rfl hne
  | [piece], _, h => by
    have hpart := h piece (by simp)
    have hjoined : (String.intercalate ":" [piece]).toList = piece.toList := by simp
    rw [hjoined]
    exact ⟨toList_ne_nil hpart.ne_empty, hpart.trimmed⟩
  | piece :: next :: rest, _, h => by
    have hpart := h piece (by simp)
    obtain ⟨hlater, htrimmed⟩ := trimmed_intercalate (List.cons_ne_nil next rest)
      fun p hp => h p (List.mem_cons_of_mem piece hp)
    have hjoined : (String.intercalate ":" (piece :: next :: rest)).toList
        = piece.toList ++ ([':'] ++ (String.intercalate ":" (next :: rest)).toList) := by
      simp only [String.toList_intercalate, List.map_cons, List.intercalate_cons_cons]
      rw [List.append_assoc]
      rfl
    have hne := toList_ne_nil hpart.ne_empty
    rw [hjoined]
    exact ⟨List.append_ne_nil_of_left_ne_nil hne _, hpart.trimmed.join htrimmed hne hlater _⟩

theorem splitOn_trim_intercalate {pieces : List String} (hne : pieces ≠ [])
    (h : ∀ piece ∈ pieces, IsPart piece) :
    splitOn ':' (trim (String.intercalate ":" pieces)) = pieces := by
  rw [(trimmed_intercalate hne h).2.trim]
  exact splitOn_intercalate hne fun piece hpiece => (h piece hpiece).plain

/-! ## §2. Well-formed specs. -/

/-- A coordinate all of whose fields are parts. -/
structure Coordinate.WellFormed (c : Coordinate) : Prop where
  group : IsPart c.group
  id : IsPart c.id
  type : IsPart c.type
  classifier : ∀ classifier ∈ c.classifier, IsPart classifier

namespace Spec

/-- A spec all of whose fields are parts; a hyphen is no version. -/
structure WellFormed (p : Spec) : Prop where
  coordinate : p.coordinate.WellFormed
  version : ∀ version ∈ p.version, IsPart version ∧ version ≠ "-"

/-- The parts of a spec in order: a classifier comes with a version behind it. -/
theorem pieces?_eq_some {pieces : List String} {g i t : String} {c v : Option String}
    (h : pieces? pieces = some (g, i, t, c, v)) :
    pieces = g :: i :: t :: (c.toList ++ v.toList) ∧ (c.isSome → v.isSome) := by
  unfold pieces? at h
  split at h <;> cases h <;> exact ⟨rfl, by simp⟩

theorem emptyPart?_eq_none {g i t : String} :
    emptyPart? g i t = none ↔ trim g ≠ "" ∧ trim i ≠ "" ∧ trim t ≠ "" := by
  unfold emptyPart?
  split
  · simp [*]
  · split
    · simp [*]
    · split <;> simp [*]

/-- Every spec that is read is well formed. -/
theorem wellFormed_of_parse {text : String} {p : Spec} (h : parse text = .ok p) : p.WellFormed := by
  unfold parse at h
  split at h
  · exact nomatch h
  · next g i t c v hpieces =>
    obtain ⟨hsplit, -⟩ := pieces?_eq_some hpieces
    have hpart : ∀ piece ∈ g :: i :: t :: (c.toList ++ v.toList), trim piece ≠ "" →
        IsPart (trim piece) := fun piece hpiece => isPart_trim (hsplit ▸ hpiece)
    split at h
    · exact nomatch h
    · next hempty =>
      obtain ⟨hg, hi, ht⟩ := emptyPart?_eq_none.1 hempty
      obtain rfl := Except.ok.inj h
      refine ⟨⟨hpart g (by simp) hg, hpart i (by simp) hi, hpart t (by simp) ht, ?_⟩, ?_⟩
      · intro classifier hclassifier
        obtain ⟨hmap, hne⟩ := Option.filter_eq_some_iff.1 hclassifier
        obtain ⟨piece, rfl, rfl⟩ := Option.map_eq_some_iff.1 hmap
        exact hpart piece (by simp) (by simpa using hne)
      · intro version hversion
        obtain ⟨hmap, hne⟩ := Option.filter_eq_some_iff.1 hversion
        obtain ⟨piece, rfl, rfl⟩ := Option.map_eq_some_iff.1 hmap
        simp only [ne_eq, Bool.and_eq_true, decide_eq_true_eq] at hne
        exact ⟨hpart piece (by simp) hne.1, hne.2⟩

/-! ## §3. Reading what was printed. -/

/-- The fields of a spec that are there, in order. -/
def parts (p : Spec) : List String :=
  p.coordinate.group :: p.coordinate.id :: p.coordinate.type
    :: (p.coordinate.classifier.toList ++ p.version.toList)

theorem render_eq (p : Spec) : p.render = String.intercalate ":" p.parts := by
  obtain ⟨⟨g, i, t, c⟩, v⟩ := p
  rw [← String.toList_inj, String.toList_intercalate]
  cases c <;> cases v <;>
    simp [parts, render, Coordinate.withVersion, Coordinate.render]

/-- Joined parts are read to what their number says.  A hyphen for the version is none. -/
theorem parse_intercalate {pieces : List String} {g i t : String} {c v : Option String}
    (hpieces : pieces? pieces = some (g, i, t, c, v)) (h : ∀ piece ∈ pieces, IsPart piece) :
    parse (String.intercalate ":" pieces) = .ok ⟨⟨g, i, t, c⟩, v.filter (· ≠ "-")⟩ := by
  obtain ⟨heq, -⟩ := pieces?_eq_some hpieces
  have hpart : ∀ piece ∈ g :: i :: t :: (c.toList ++ v.toList), IsPart piece := heq ▸ h
  have hne : pieces ≠ [] := by
    rw [heq]
    exact List.cons_ne_nil _ _
  -- parts are trimmed and not empty, so that reading leaves them as they are
  have htrim : ∀ piece ∈ g :: i :: t :: (c.toList ++ v.toList),
      trim piece = piece ∧ piece ≠ "" :=
    fun piece hpiece => ⟨(hpart piece hpiece).trim, (hpart piece hpiece).ne_empty⟩
  simp only [List.forall_mem_cons, List.forall_mem_append, Option.mem_toList] at htrim
  obtain ⟨⟨hg, hgne⟩, ⟨hi, hine⟩, ⟨ht, htne⟩, hc, hv⟩ := htrim
  have hempty : emptyPart? g i t = none := by
    rw [emptyPart?_eq_none, hg, hi, ht]
    exact ⟨hgne, hine, htne⟩
  unfold parse
  rw [splitOn_trim_intercalate hne h, hpieces]
  simp only [hempty, hg, hi, ht]
  cases c with
  | none =>
    cases v with
    | none => rfl
    | some v => simp [hv v rfl, Option.filter]
  | some c =>
    cases v with
    | none => simp [hc c rfl, Option.filter]
    | some v => simp [hc c rfl, hv v rfl, Option.filter]

theorem WellFormed.isPart_of_mem {p : Spec} (h : p.WellFormed) : ∀ part ∈ p.parts, IsPart part := by
  obtain ⟨⟨hgroup, hid, htype, hclassifier⟩, hversion⟩ := h
  simp only [parts, List.forall_mem_cons, List.forall_mem_append, Option.mem_toList]
  exact ⟨hgroup, hid, htype, hclassifier, fun v hv => (hversion v hv).1⟩

/-- The version of a well-formed spec is no hyphen, so reading does not drop it. -/
theorem WellFormed.filter_version {p : Spec} (h : p.WellFormed) :
    p.version.filter (· ≠ "-") = p.version := by
  cases hv : p.version with
  | none => rfl
  | some v => simpa [Option.filter] using (h.version v hv).2

/-- A well-formed spec without a classifier, or with a version, is read back from its text. -/
theorem WellFormed.parse_render {p : Spec} (h : p.WellFormed)
    (hparts : p.coordinate.classifier.isSome → p.version.isSome) : parse p.render = .ok p := by
  have hpieces : pieces? p.parts = some (p.coordinate.group, p.coordinate.id, p.coordinate.type,
      p.coordinate.classifier, p.version) := by
    obtain ⟨⟨g, i, t, c⟩, v⟩ := p
    cases c with
    | none => cases v <;> rfl
    | some c =>
      obtain ⟨v, rfl⟩ := Option.isSome_iff_exists.1 (hparts rfl)
      rfl
  rw [render_eq, parse_intercalate hpieces h.isPart_of_mem, h.filter_version]

/-- A spec that was read is read back from its text exactly if its classifier, if it has one, comes
with a version.  With a classifier alone the text has four parts, the fourth of which is read as
the version. -/
theorem parse_render_iff {text : String} {p : Spec} (h : parse text = .ok p) :
    (parse p.render = .ok p ↔ (p.coordinate.classifier.isSome → p.version.isSome)) ∧
    ∀ classifier, p.coordinate.classifier = some classifier → p.version = none →
      parse p.render = .ok
        ⟨{ p.coordinate with classifier := none }, (some classifier).filter (· ≠ "-")⟩ := by
  have hwell := wellFormed_of_parse h
  have hother : ∀ classifier, p.coordinate.classifier = some classifier → p.version = none →
      parse p.render = .ok
        ⟨{ p.coordinate with classifier := none }, (some classifier).filter (· ≠ "-")⟩ := by
    intro classifier hc hv
    have hpieces : pieces? p.parts = some (p.coordinate.group, p.coordinate.id, p.coordinate.type,
        none, some classifier) := by
      simp [parts, hc, hv, pieces?]
    rw [render_eq, parse_intercalate hpieces hwell.isPart_of_mem]
  refine ⟨⟨?_, hwell.parse_render⟩, hother⟩
  intro hback hclassifier
  obtain ⟨classifier, hc⟩ := Option.isSome_iff_exists.1 hclassifier
  cases hv : p.version with
  | some v => rfl
  | none =>
    -- what is read back has no classifier
    have hsame := Except.ok.inj ((hother classifier hc hv).symm.trans hback)
    rw [← hsame] at hc
    exact nomatch hc

/-- A spec with a classifier and a version, among blanks. -/
theorem parse_render_classified :
    ∃ p, parse " a:b:c: d : >=1 " = .ok p ∧ p.render = "a:b:c:d:>=1" ∧ parse p.render = .ok p := by
  have hparse : parse " a:b:c: d : >=1 " = .ok ⟨⟨"a", "b", "c", some "d"⟩, some ">=1"⟩ := by
    decide +kernel
  exact ⟨_, hparse, by decide, (parse_render_iff hparse).1.2 fun _ => rfl⟩

/-- A spec with a classifier and no version, whose text is read to another spec. -/
theorem parse_render_unversioned :
    ∃ p q, parse "a:b:c:d:" = .ok p ∧ p.render = "a:b:c:d" ∧ parse p.render = .ok q ∧
      q.version = some "d" ∧ q ≠ p := by
  have hparse : parse "a:b:c:d:" = .ok ⟨⟨"a", "b", "c", some "d"⟩, none⟩ := by decide +kernel
  have hback : parse "a:b:c:d" = .ok ⟨⟨"a", "b", "c", none⟩, some "d"⟩ := by decide +kernel
  exact ⟨_, _, hparse, by decide, hback, rfl, by decide⟩

end Spec

/-! ## §4. Coordinates as keys. -/

/-- The text that names a coordinate without a version.  After a classifier comes a colon, or the
classifier would be read as the version. -/
def Coordinate.lookupKey (c : Coordinate) : String :=
  match c.classifier with
  | none => c.render
  | some _ => c.render ++ ":"

namespace Coordinate.WellFormed

variable {c c' : Coordinate}

/-- The parts of a coordinate, and an empty one where a version would follow. -/
theorem splitOn_lookupKey (h : c.WellFormed) : trim c.lookupKey = c.lookupKey ∧
    splitOn ':' c.lookupKey = match c.classifier with
      | none => [c.group, c.id, c.type]
      | some classifier => [c.group, c.id, c.type, classifier, ""] := by
  obtain ⟨g, i, t, classifier⟩ := c
  obtain ⟨hg, hi, ht, hclassifier⟩ := h
  cases classifier with
  | none =>
    have hpart : ∀ piece ∈ [g, i, t], IsPart piece := by simp [hg, hi, ht]
    have hjoined : (⟨g, i, t, none⟩ : Coordinate).lookupKey = String.intercalate ":" [g, i, t] := by
      rw [← String.toList_inj, String.toList_intercalate]
      simp [lookupKey, render]
    have hsplit := splitOn_trim_intercalate (List.cons_ne_nil _ _) hpart
    have htrim := (trimmed_intercalate (List.cons_ne_nil _ _) hpart).2.trim
    rw [htrim] at hsplit
    rw [hjoined]
    exact ⟨htrim, hsplit⟩
  | some classifier =>
    have hc := hclassifier classifier rfl
    have hpart : ∀ piece ∈ [g, i, t, classifier], IsPart piece := by simp [hg, hi, ht, hc]
    have hjoined : (⟨g, i, t, some classifier⟩ : Coordinate).lookupKey
        = String.intercalate ":" [g, i, t, classifier, ""] := by
      rw [← String.toList_inj, String.toList_intercalate]
      simp [lookupKey, render]
    have hlast : (String.intercalate ":" [g, i, t, classifier, ""]).toList
        = (String.intercalate ":" [g, i, t, classifier]).toList ++ ([] ++ [':']) := by
      simp
    have hcolon : Trimmed [':'] := ⟨by rintro _ ⟨⟩; decide, by rintro _ ⟨⟩; decide⟩
    rw [hjoined]
    constructor
    -- the text ends with a colon, so nothing is trimmed there
    · obtain ⟨hne, htrimmed⟩ := trimmed_intercalate (List.cons_ne_nil _ _) hpart
      refine Trimmed.trim ?_
      rw [hlast]
      exact htrimmed.join hcolon hne (List.cons_ne_nil _ _) []
    · exact splitOn_intercalate (List.cons_ne_nil _ _)
        (by simp [hg.plain, hi.plain, ht.plain, hc.plain])

theorem trim_lookupKey (h : c.WellFormed) : trim c.lookupKey = c.lookupKey := h.splitOn_lookupKey.1

theorem parse_lookupKey (h : c.WellFormed) : Spec.parse c.lookupKey = .ok ⟨c, none⟩ := by
  obtain ⟨htrim, hsplit⟩ := h.splitOn_lookupKey
  obtain ⟨g, i, t, classifier⟩ := c
  obtain ⟨hg, hi, ht, hclassifier⟩ := h
  have hempty : Spec.emptyPart? g i t = none := by
    rw [Spec.emptyPart?_eq_none, hg.trim, hi.trim, ht.trim]
    exact ⟨hg.ne_empty, hi.ne_empty, ht.ne_empty⟩
  have hblank : trim "" = "" := by decide
  unfold Spec.parse
  rw [htrim, hsplit]
  cases classifier with
  | none => simp [Spec.pieces?, hempty, hg.trim, hi.trim, ht.trim]
  | some classifier =>
    have hc := hclassifier classifier rfl
    simp [Spec.pieces?, hempty, hg.trim, hi.trim, ht.trim, hc.trim, hc.ne_empty, hblank,
      Option.filter]

/-- The text of a coordinate names no other one. -/
theorem render_injective (h : c.WellFormed) (h' : c'.WellFormed) (heq : c.render = c'.render) :
    c = c' := by
  have hparts {c : Coordinate} (h : c.WellFormed) :
      splitOn ':' (trim c.render) = Spec.parts ⟨c, none⟩ := by
    have hwell : Spec.WellFormed ⟨c, none⟩ := ⟨h, nofun⟩
    have hrender : c.render = String.intercalate ":" (Spec.parts ⟨c, none⟩) :=
      Spec.render_eq ⟨c, none⟩
    rw [hrender]
    exact splitOn_trim_intercalate (List.cons_ne_nil _ _) hwell.isPart_of_mem
  have hsame := (hparts h).symm.trans (heq ▸ hparts h')
  obtain ⟨g, i, t, classifier⟩ := c
  obtain ⟨g', i', t', classifier'⟩ := c'
  cases classifier <;> cases classifier' <;> simp_all [Spec.parts]

end Coordinate.WellFormed

/-- A text that is read to a spec has the shape of one. -/
theorem Spec.looksLikeSpec_of_parse {text : String} {p : Spec} (h : parse text = .ok p) :
    looksLikeSpec (trim text) = true := by
  have hlength := length_splitOn_colon (trim text)
  unfold parse at h
  split at h
  · exact nomatch h
  · next hpieces =>
    obtain ⟨heq, -⟩ := pieces?_eq_some hpieces
    rw [heq] at hlength
    unfold looksLikeSpec
    simp only [List.length_cons] at hlength
    simp only [decide_eq_true_eq]
    omega

/-! ## §5. Artifacts. -/

/-- An artifact whose coordinate and version are made of parts is read back from its text. -/
theorem Artifact.parse_render {a : Artifact} (hcoordinate : a.coordinate.WellFormed)
    (hversion : IsPart a.version ∧ a.version ≠ "-") : parse a.render = .ok a := by
  have hwell : Spec.WellFormed ⟨a.coordinate, some a.version⟩ :=
    ⟨hcoordinate, fun v hv => Option.some.inj hv ▸ hversion⟩
  have hspec : Spec.parse a.render = .ok ⟨a.coordinate, some a.version⟩ :=
    hwell.parse_render fun _ => rfl
  rw [parse, hspec]
  rfl

end DependencyScope
